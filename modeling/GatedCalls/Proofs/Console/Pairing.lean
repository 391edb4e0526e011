import GatedCalls.Proofs.Console.Lines
import GatedCalls.Proofs.Console.Roster

/-!
# Questions and the lines of the input

Number the questions in the order in which their reads were started, and the lines of the input in
order. As long as the input is not closed, the reader has the lines after those of the questions
that were read for (`Input.Owns`). So what is granted or refused is what the line of the same number
says (`Pairing`), whatever the input is made of, whichever writes fail and however the bytes are cut
into pieces. All that is asked of the input is that nothing comes after its end (`Sealed`).
-/

namespace GatedCalls.Console

open Text.Utf8 (decode?)

/-! ### The input of a run -/

/-- What an event does to a reader that gets all the input. -/
def Event.supply (r : Reader) : Event → Reader
  | .feed bytes => r.feed bytes
  | .close => r.close
  | _ => r

def supply (es : List Event) : Reader := es.foldl Event.supply ⟨[], false⟩

def Reader.textAt (r : Reader) (k : Nat) : Option String := r.lines[k]?.bind decode?

/-- Nothing arrives after the end of the input. -/
def Sealed (es : List Event) : Prop :=
  ∀ before rest, es = before ++ .close :: rest → ∀ bytes, .feed bytes ∈ rest → bytes = []

variable {c c' : Console} {e : Event} {es es' : List Event} {as new : List Act} {id k : Nat}
  {p : Prompt}

theorem supply_concat (es : List Event) (e : Event) :
    supply (es ++ [e]) = e.supply (supply es) := by
  simp [supply, List.foldl_append]

theorem supply_grows (es es' : List Event) :
    (supply es).unread <+: (supply (es ++ es')).unread := by
  induction es' generalizing es with
  | nil => simp only [List.append_nil, List.prefix_refl]
  | cons e es' ih =>
    rw [List.append_cons]
    refine List.IsPrefix.trans ?_ (ih (es ++ [e]))
    rw [supply_concat]
    cases e with
    | feed bytes => exact List.prefix_append ..
    | _ => exact List.prefix_refl _

theorem close_of_ended {r : Reader} (h : (es.foldl Event.supply r).ended = true) :
    r.ended = true ∨ ∃ before rest, es = before ++ .close :: rest := by
  induction es generalizing r with
  | nil => exact .inl h
  | cons e es ih =>
    rcases ih h with he | ⟨before, rest, rfl⟩
    · cases e with
      | close => exact .inr ⟨[], es, rfl⟩
      | _ => exact .inl he
    · exact .inr ⟨e :: before, rest, rfl⟩

theorem ended_foldl {r : Reader} (h : r.ended = true) :
    (es.foldl Event.supply r).ended = true := by
  induction es generalizing r with
  | nil => exact h
  | cons e es ih =>
    refine ih ?_
    cases e with
    | close => rfl
    | _ => exact h

theorem ended_of_close (h : .close ∈ es) : (supply es).ended = true := by
  obtain ⟨before, rest, rfl⟩ := List.append_of_mem h
  rw [supply, List.foldl_append, List.foldl_cons]
  exact ended_foldl rfl

namespace Sealed

theorem left (h : Sealed (es ++ es')) : Sealed es := fun before rest he bytes hmem =>
  h before (rest ++ es') (by rw [he, List.append_assoc]; rfl) bytes (List.mem_append_left _ hmem)

theorem of_close (hes : .close ∉ es) (hes' : ∀ bytes, .feed bytes ∉ es') :
    Sealed (es ++ .close :: es') := by
  intro before rest he bytes hmem
  -- `m` is what stands between the two places where the run is cut
  rcases List.append_eq_append_iff.1 he with ⟨m, rfl, hm⟩ | ⟨m, rfl, hm⟩
  · cases m with
    | nil =>
      obtain ⟨-, rfl⟩ := List.cons.inj hm
      exact absurd hmem (hes' bytes)
    | cons x m =>
      obtain ⟨-, rfl⟩ := List.cons.inj hm
      exact absurd (List.mem_append_right _ (List.mem_cons_of_mem _ hmem)) (hes' bytes)
  · cases m with
    | nil =>
      obtain ⟨-, rfl⟩ := List.cons.inj hm
      exact absurd hmem (hes' bytes)
    | cons x m =>
      obtain ⟨rfl, -⟩ := List.cons.inj hm
      exact absurd (List.mem_append_right _ (List.mem_cons_self ..)) hes

theorem feed {bytes : List UInt8} (h : Sealed (es ++ [.feed bytes]))
    (he : (supply es).ended = true) : bytes = [] := by
  obtain ⟨before, rest, rfl⟩ := (close_of_ended he).resolve_left (by simp)
  exact h before (rest ++ [.feed bytes]) (by simp) bytes (by simp)

theorem lines_grow (h : Sealed (es ++ [e])) :
    (supply es).lines <+: (supply (es ++ [e])).lines := by
  rw [supply_concat]
  cases e with
  | feed bytes => exact Reader.lines_feed _ h.feed
  | close => exact Reader.lines_close _
  | _ => exact List.prefix_refl _

theorem lines_prefix (h : Sealed (es ++ es')) :
    (supply es).lines <+: (supply (es ++ es')).lines := by
  induction es' generalizing es with
  | nil => simp only [List.append_nil, List.prefix_refl]
  | cons e es' ih =>
    rw [List.append_cons] at h ⊢
    exact h.left.lines_grow.trans (ih h)

theorem lines_at {l : List UInt8} (h : Sealed (es ++ es')) (hl : (supply es).lines[k]? = some l) :
    (supply (es ++ es')).lines[k]? = some l := by
  obtain ⟨more, hm⟩ := h.lines_prefix
  obtain ⟨hk, -⟩ := List.getElem?_eq_some_iff.1 hl
  rw [← hm, List.getElem?_append_left hk, hl]

theorem textAt {s : String} (h : Sealed (es ++ es')) (hs : (supply es).textAt k = some s) :
    (supply (es ++ es')).textAt k = some s := by
  obtain ⟨l, hl, hd⟩ := Option.bind_eq_some_iff.1 hs
  exact Option.bind_eq_some_iff.2 ⟨l, h.lines_at hl, hd⟩

theorem supply_ended (h : Sealed (es ++ es')) (he : (supply es).ended = true) :
    supply (es ++ es') = supply es := by
  induction es' generalizing es with
  | nil => rw [List.append_nil]
  | cons e es' ih =>
    rw [List.append_cons] at h ⊢
    have hone : supply (es ++ [e]) = supply es := by
      rw [supply_concat]
      cases e with
      | feed bytes =>
        obtain rfl := h.left.feed he
        exact Reader.feed_nil _
      | close => exact Reader.close_of_ended he
      | _ => rfl
    rw [ih h (by rw [hone, he]), hone]

end Sealed

/-! ### The reader and the questions -/

/-- Where the input is after `n` questions: the lines of the questions before were taken, and the
one of the last is taken unless its read is in progress, or found the end. -/
def Input.Owns (fed : Reader) (n : Nat) : Input → Prop
  | .idle rd => ∃ used, used.length = n ∧ Books fed used rd
  | .reading rd => ∃ used, used.length + 1 = n ∧ Books fed used rd
  | .closed => fed.lines.length + 1 = n ∧ fed.ended = true

theorem Input.Owns.feed {i : Input} {fed : Reader} {n : Nat} {bytes : List UInt8}
    (h : i.Owns fed n) (hb : fed.ended = true → bytes = []) :
    (i.feed bytes).Owns (fed.feed bytes) n := by
  cases i with
  | idle rd | reading rd =>
    obtain ⟨used, hn, hbooks⟩ := h
    exact ⟨used, hn, hbooks.feed hb⟩
  | closed =>
    obtain rfl := hb h.2
    rw [Reader.feed_nil]
    exact h

theorem Input.Owns.close {i : Input} {fed : Reader} {n : Nat} (h : i.Owns fed n) :
    i.close.Owns fed.close n := by
  cases i with
  | idle rd | reading rd =>
    obtain ⟨used, hn, hbooks⟩ := h
    exact ⟨used, hn, hbooks.close⟩
  | closed =>
    rw [Reader.close_of_ended h.2]
    exact h

/-- A read that finds a line takes the line of the last question. -/
theorem Input.Owns.line {fed rd rd' : Reader} {n : Nat} {s : String}
    (h : (Input.reading rd).Owns fed n) (hn : rd.next? = some (.line s, rd')) :
    (Input.idle rd').Owns fed n ∧ ∃ k, k + 1 = n ∧ fed.textAt k = some s := by
  obtain ⟨used, hlen, hbooks⟩ := h
  obtain ⟨l, ht, hl, hd⟩ := Reader.next?_line hn
  have hbooks' := hbooks.take ht hl
  refine ⟨⟨used ++ [l], by simpa using hlen, hbooks'⟩, used.length, hlen, ?_⟩
  refine Option.bind_eq_some_iff.2 ⟨l, ?_, hd⟩
  rw [hbooks'.lines, List.append_assoc, List.getElem?_append_right (Nat.le_refl _), Nat.sub_self]
  rfl

theorem Input.Owns.ended {fed rd rd' : Reader} {n : Nat} (h : (Input.reading rd).Owns fed n)
    (hn : rd.next? = some (.ended, rd')) : Input.closed.Owns fed n := by
  obtain ⟨used, hlen, hbooks⟩ := h
  obtain ⟨hlines, hended⟩ := Reader.take?_end (Reader.next?_ended hn)
  refine ⟨?_, hbooks.ended ▸ hended⟩
  rw [hbooks.lines, hlines, List.append_nil]
  exact hlen

/-! ### The pairing -/

theorem getElem?_append_of_some {l more : List Nat} {i : Nat} (h : l[k]? = some i) :
    (l ++ more)[k]? = some i := by
  obtain ⟨hk, -⟩ := List.getElem?_eq_some_iff.1 h
  rw [List.getElem?_append_left hk, h]

theorem Turn.closed (ht : Turn c e new c') (hc : c.input = .closed) :
    c'.input = .closed ∧ Console.questions new = [] := by
  cases ht with
  | feed | close => exact ⟨by simp [withInput, hc, Input.feed, Input.close, Input.mapReader], rfl⟩
  | discard _ _ _ _ _ hi | discardEnd _ _ _ _ hi | discardFault _ _ _ _ _ hi | ask _ _ _ hi
  | collect _ _ _ _ _ hi | collectEnd _ _ _ _ hi | collectFault _ _ _ _ _ hi =>
    rw [hc] at hi
    cases hi
  | _ => exact ⟨hc, rfl⟩

/-- The outcome that is being written, and what was granted or refused, is what the line says that
has the number of the question. -/
structure Pairing (p : Prompt) (es : List Event) (c : Console) (as : List Act) : Prop where
  prompt : c.prompt = p
  input : c.input = .closed ∨ c.input.Owns (supply es) (questions as).length
  outcome : ∀ r b, c.holder = .held r (.reporting b) → ∃ k s, k + 1 = (questions as).length ∧
    (supply es).textAt k = some s ∧ b = p.affirms s
  granted : ∀ id b, .decided id (.ok b) ∈ as → ∃ k s, (questions as)[k]? = some id ∧
    (supply es).textAt k = some s ∧ b = p.affirms s

namespace Pairing

theorem start (p : Prompt) : Pairing p [] (ofPrompt p) [] where
  prompt := rfl
  input := .inr ⟨[], rfl, .refl _⟩
  outcome _ _ h := by cases h
  granted _ _ h := by cases h

theorem owns (h : Pairing p es c as) (hc : c.input ≠ .closed) :
    c.input.Owns (supply es) (questions as).length :=
  h.input.resolve_left hc

/-- The reader of a read in progress has the line of the last question, if it is there. -/
theorem books (h : Pairing p es c as) {rd : Reader} (hi : c.input = .reading rd) :
    ∃ used, used.length + 1 = (questions as).length ∧ Books (supply es) used rd := by
  have hin := h.owns (by rw [hi]; simp)
  rwa [hi] at hin

variable (h : Pairing p es c as) (hr : Roster es c as) (ht : Turn c e new c')
  (hseal : Sealed (es ++ [e]))

include h ht hseal

theorem input_turn : c'.input = .closed ∨
    c'.input.Owns (supply (es ++ [e])) (questions (as ++ new)).length := by
  rw [supply_concat, questions_append, List.length_append]
  by_cases hc : c.input = .closed
  · exact .inl (ht.closed hc).1
  have hin := h.owns hc
  cases ht with
  | feed bytes => exact .inr (hin.feed hseal.feed)
  | close => exact .inr hin.close
  | rest e he => rcases he with rfl | ⟨f, rfl⟩ <;> exact .inr hin
  | discard r rd rd' line _ hi hn | collect r rd rd' line _ hi hn =>
    rw [hi] at hin
    exact .inr (hin.line hn).1
  | discardEnd | collectEnd | discardFault | collectFault => exact .inl rfl
  | ask r rd _ hi =>
    rw [hi] at hin
    obtain ⟨used, hn, hbooks⟩ := hin
    exact .inr ⟨used, by rw [hn]; rfl, hbooks⟩
  | request | drop | leave | retract | give | owe | ready | askClosed | report | fail | notice
  | noticeFail => exact .inr hin

theorem outcome_turn {r : Request} {b : Bool} (hh : c'.holder = .held r (.reporting b)) :
    ∃ k s, k + 1 = (questions (as ++ new)).length ∧ (supply (es ++ [e])).textAt k = some s ∧
      b = p.affirms s := by
  have keep (hc : c.holder = .held r (.reporting b)) (hq : questions new = []) :
      ∃ k s, k + 1 = (questions (as ++ new)).length ∧ (supply (es ++ [e])).textAt k = some s ∧
        b = p.affirms s := by
    obtain ⟨k, s, hk, hs, hb⟩ := h.outcome r b hc
    exact ⟨k, s, by rw [Roster.questions_of_none hq, hk], hseal.textAt hs, hb⟩
  cases ht with
  | request | feed | close | rest | drop => exact keep hh rfl
  | collect r' rd rd' line hc hi hn =>
    obtain ⟨rfl, hb⟩ := Holder.held.inj hh
    have hin := h.owns (by rw [hi]; simp)
    rw [hi] at hin
    obtain ⟨-, k, hk, hs⟩ := hin.line hn
    refine ⟨k, line, ?_, hseal.textAt hs, ?_⟩
    · rw [hk, Roster.questions_of_none rfl]
    · rw [← h.prompt]
      exact (Phase.reporting.inj hb).symm
  | _ => cases hh

include hr

theorem granted_turn {id : Nat} {b : Bool} (hd : .decided id (.ok b) ∈ as ++ new) : ∃ k s,
    (questions (as ++ new))[k]? = some id ∧ (supply (es ++ [e])).textAt k = some s ∧
    b = p.affirms s := by
  rw [questions_append]
  rcases List.mem_append.1 hd with hd | hd
  · obtain ⟨k, s, hk, hs, hb⟩ := h.granted id b hd
    exact ⟨k, s, getElem?_append_of_some hk, hseal.textAt hs, hb⟩
  · cases ht with
    | report r b' hh =>
      obtain ⟨rfl, rfl⟩ : id = r.id ∧ b = b' := by simpa using hd
      obtain ⟨k, s, hk, hs, hb⟩ := h.outcome r b hh
      refine ⟨k, s, getElem?_append_of_some ?_, hseal.textAt hs, hb⟩
      rw [← hr.last r _ hh rfl, List.getLast?_eq_getElem?, ← hk, Nat.add_sub_cancel]
    | _ => simp at hd

theorem turn : Pairing p (es ++ [e]) c' (as ++ new) where
  prompt := ht.prompt.trans h.prompt
  input := h.input_turn ht hseal
  outcome _ _ hh := h.outcome_turn ht hseal hh
  granted _ _ hd := h.granted_turn hr ht hseal hd

end Pairing

theorem Pairing.run (h : Pairing p es c as) (hr : Roster es c as) (hs : Sealed (es ++ es'))
    (hn : (requestIds (es ++ es')).Nodup) :
    Pairing p (es ++ es') (c.after es') (as ++ c.acts es') := by
  induction es' generalizing es c as with
  | nil => simpa [after, acts] using h
  | cons e es' ih =>
    rw [List.append_cons] at hs hn
    have ht := step_turn hr.fits e
    have := ih (h.turn hr ht hs.left) (hr.turn ht (nodup_left hn)) hs hn
    rwa [List.append_assoc, List.append_assoc] at this

end GatedCalls.Console
