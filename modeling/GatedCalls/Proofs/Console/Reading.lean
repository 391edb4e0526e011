import GatedCalls.Proofs.Console.Pairing
import Mathlib.Data.List.Induction

/-!
# Reads and the reader

A read owns the reader from when it is started until its line is collected, through any number of
requests that are dropped meanwhile. `Deals` lists what a step can do to the input: nothing but take
in what arrives, or start a read on a reader that is at rest, or end the one that is in progress. So
there is never more than one read, and no byte is lost to it (`Reads`), a request that waits for its
line waits undisturbed (`undisturbed`), and none comes to an error that speaks of a read or of a
console it does not have (`one_read_at_a_time`).
-/

namespace GatedCalls.Console

/-- What a read took that was in progress and is over. -/
def Input.taken? : Input → Input → Option (List UInt8)
  | .reading rd, .idle _ | .reading rd, .closed => rd.take?.map Prod.fst
  | .reading _, .reading _ | .idle _, _ | .closed, _ => none

def taken (c : Console) : List Event → List (List UInt8)
  | [] => []
  | e :: es => (c.input.taken? (c.step e).1.input).toList ++ taken (c.step e).1 es

/-- What a turn does to the input. -/
inductive Deals (c : Console) (e : Event) (new : List Act) (c' : Console) : Prop
  /-- It takes in what arrives. -/
  | leaves (hi : c'.input = c.input.mapReader e.supply) (hq : questions new = [])
  | starts (r : Request) (rd : Reader) (hh : c'.holder = .held r .awaiting)
    (hi : c.input = .idle rd) (hi' : c'.input = .reading rd) (he : ∀ rd, e.supply rd = rd)
    (hq : questions new = [r.id])
  | ends (rd rd' : Reader) (l : List UInt8) (found : LineRead) (he : e = .advance)
    (hi : c.input = .reading rd) (ht : rd.take? = some (l, rd'))
    (hn : rd.next? = some (found, rd'))
    (hi' : c'.input = .idle rd' ∨ c'.input = .closed ∧ ∀ s, found ≠ .line s)
    (hq : questions new = [])

/-- The last request that started a read was dropped while it waited for the line, and the read goes
on. -/
def Abandoned (start : Console) (es : List Event) : Prop :=
  ∃ before rest r, es = before ++ .cancel r.id :: rest ∧
    (start.after before).holder = .held r .awaiting ∧
    (questions (start.acts es)).getLast? = some r.id ∧
    questions (start.acts es) = questions (start.acts before) ∧ start.taken es = start.taken before

variable {c c' start : Console} {e : Event} {es es' rest : List Event} {as new : List Act}
  {r : Request} {rd rd' : Reader} {l : List UInt8} {i : Input} {found : LineRead} {id : Nat}

/-! ### Turns -/

theorem Reader.take?_of_next? (h : rd.next? = some (found, rd')) :
    ∃ l, rd.take? = some (l, rd') := by
  obtain ⟨⟨l, rd''⟩, ht, hp⟩ := Option.map_eq_some_iff.1 h
  obtain ⟨-, rfl⟩ := Prod.mk.inj hp
  exact ⟨l, ht⟩

theorem Reader.take?_unread (h : rd.take? = some (l, rd')) : rd.unread = l ++ rd'.unread := by
  unfold Reader.take? at h
  split at h
  · next hs =>
    obtain ⟨rfl, rfl⟩ := Prod.mk.inj (Option.some.inj h)
    exact (splitLine?_some hs).2
  · split at h
    · obtain ⟨rfl, rfl⟩ := Prod.mk.inj (Option.some.inj h)
      exact (List.append_nil _).symm
    · cases h

theorem Input.mapReader_id (i : Input) {f : Reader → Reader} (hf : ∀ rd, f rd = rd) :
    i.mapReader f = i := by
  cases i <;> simp [mapReader, hf]

theorem Input.taken?_mapReader (i : Input) (f : Reader → Reader) :
    i.taken? (i.mapReader f) = none := by
  cases i <;> rfl

theorem Turn.deals (ht : Turn c e new c') : Deals c e new c' := by
  have same (he : ∀ rd, e.supply rd = rd) (hi : c'.input = c.input) :
      c'.input = c.input.mapReader e.supply := by
    rw [hi, Input.mapReader_id _ he]
  cases ht with
  | feed | close => exact .leaves rfl rfl
  | rest e he =>
    refine .leaves (same ?_ rfl) rfl
    rcases he with rfl | ⟨f, rfl⟩ <;> exact fun _ => rfl
  | request | drop | leave | retract | give | owe | ready | askClosed | report | fail | notice
  | noticeFail => exact .leaves (same (fun _ => rfl) rfl) rfl
  | ask r rd _ hi => exact .starts r rd rfl hi rfl (fun _ => rfl) rfl
  | discard r rd rd' line _ hi hn | collect r rd rd' line _ hi hn =>
    obtain ⟨l, ht⟩ := Reader.take?_of_next? hn
    exact .ends rd rd' l _ rfl hi ht hn (.inl rfl) rfl
  | discardEnd r rd rd' _ hi hn | collectEnd r rd rd' _ hi hn =>
    obtain ⟨l, ht⟩ := Reader.take?_of_next? hn
    exact .ends rd rd' l _ rfl hi ht hn (.inr ⟨rfl, nofun⟩) rfl
  | discardFault r rd rd' f _ hi hn | collectFault r rd rd' f _ hi hn =>
    obtain ⟨l, ht⟩ := Reader.take?_of_next? hn
    exact .ends rd rd' l _ rfl hi ht hn (.inr ⟨rfl, nofun⟩) rfl

/-- A request that waits for its line goes on waiting, or is dropped, or collects it. -/
theorem Turn.awaiting (ht : Turn c e new c') (hh : c.holder = .held r .awaiting) :
    (c'.holder = .held r .awaiting ∧ c'.input = c.input.mapReader e.supply ∧ new = []) ∨
      (e = .cancel r.id ∧ c'.input = c.input ∧ new = []) ∨
      e = .advance ∧ c'.input.isReading = false ∧
        ∃ rd l rd', c.input = .reading rd ∧ rd.take? = some (l, rd') := by
  cases ht with
  | request | drop => exact .inl ⟨hh, (Input.mapReader_id _ fun _ => rfl).symm, rfl⟩
  | feed | close => exact .inl ⟨hh, rfl, rfl⟩
  | rest e he =>
    refine .inl ⟨hh, (Input.mapReader_id _ ?_).symm, rfl⟩
    rcases he with rfl | ⟨f, rfl⟩ <;> exact fun _ => rfl
  | retract r' q hh' =>
    obtain ⟨rfl, -⟩ := Holder.held.inj (hh'.symm.trans hh)
    exact .inr (.inl ⟨rfl, rfl, rfl⟩)
  | collect _ rd rd' _ _ hi hn | collectEnd _ rd rd' _ hi hn | collectFault _ rd rd' _ _ hi hn =>
    obtain ⟨l, ht⟩ := Reader.take?_of_next? hn
    exact .inr (.inr ⟨rfl, rfl, rd, l, rd', hi, ht⟩)
  | fail r' q _ hh' hq =>
    obtain ⟨-, rfl⟩ := Holder.held.inj (hh'.symm.trans hh)
    rcases hq with hq | ⟨b, hq⟩ <;> cases hq
  | leave _ hh' | give _ _ hh' | owe _ hh' | ready _ hh' | discard _ _ _ _ hh'
  | discardEnd _ _ _ hh' | discardFault _ _ _ _ hh' | ask _ _ hh' | askClosed _ hh'
  | report _ _ hh' | notice _ hh' | noticeFail _ _ hh' =>
    rw [hh] at hh'
    cases hh'

/-- No result speaks of a read that is not in progress, or of a console that is not held. -/
theorem Turn.not_internal (ht : Turn c e new c') {result : Except ConfirmationError Bool}
    (hd : .decided id result ∈ new) : result ≠ .error noRead ∧ result ≠ .error released := by
  have hclosed : inputClosed ≠ noRead ∧ inputClosed ≠ released := by
    simp [inputClosed, noRead, released]
  cases ht with
  | askClosed r =>
    obtain ⟨-, rfl⟩ : id = r.id ∧ result = .error inputClosed := by simpa using hd
    simpa using hclosed
  | collectEnd r =>
    obtain ⟨-, rfl⟩ : id = r.id ∧ result = .error inputClosed := by simpa using hd
    simpa using hclosed
  | discardFault r _ _ f | collectFault r _ _ f =>
    obtain ⟨-, rfl⟩ : id = r.id ∧ result = .error (undecodableInput f) := by simpa using hd
    simp [undecodableInput, noRead, released]
  | fail r _ text =>
    obtain ⟨-, rfl⟩ : id = r.id ∧ result = .error (.io text) := by simpa using hd
    simp [noRead, released]
  | report r b =>
    obtain ⟨-, rfl⟩ : id = r.id ∧ result = .ok b := by simpa using hd
    simp
  | _ => simp at hd

/-! ### Runs -/

theorem taken_append (es es' : List Event) :
    c.taken (es ++ es') = c.taken es ++ (c.after es).taken es' := by
  induction es generalizing c with
  | nil => rfl
  | cons e es ih =>
    show _ ++ (c.step e).1.taken (es ++ es') = _
    rw [ih, ← List.append_assoc]
    rfl

theorem after_concat (es : List Event) (e : Event) :
    c.after (es ++ [e]) = ((c.after es).step e).1 := after_append ..

theorem acts_concat (es : List Event) (e : Event) :
    c.acts (es ++ [e]) = c.acts es ++ ((c.after es).step e).2 := by
  rw [acts_append, acts, acts, List.append_nil]

theorem taken_concat (es : List Event) (e : Event) : c.taken (es ++ [e]) =
    c.taken es ++ ((c.after es).input.taken? ((c.after es).step e).1.input).toList := by
  rw [taken_append, taken, taken, List.append_nil]

theorem Abandoned.concat (h : Abandoned start es)
    (hq : questions ((start.after es).step e).2 = [])
    (ht : (start.after es).input.taken? ((start.after es).step e).1.input = none) :
    Abandoned start (es ++ [e]) := by
  obtain ⟨before, rest, r, rfl, hh, hlast, hquestions, htaken⟩ := h
  refine ⟨before, rest ++ [e], r, by simp, hh, ?_, ?_, ?_⟩
  · rw [acts_concat, Roster.questions_of_none hq]
    exact hlast
  · rw [acts_concat, Roster.questions_of_none hq]
    exact hquestions
  · rw [taken_concat, ht, Option.toList_none, List.append_nil]
    exact htaken

structure Reads (start : Console) (es : List Event) : Prop where
  fits : (start.after es).holder.Fits (start.after es).input
  /-- Every read that was started is over, but for the one in progress if there is one. -/
  count : (questions (start.acts es)).length =
    (start.taken es).length + if (start.after es).input.isReading then 1 else 0
  /-- The reader, wherever it is, has all that arrived and was not taken by a read. -/
  owns : ∀ rd, (start.after es).input.reader? = some rd →
    (supply es).unread = (start.taken es).flatten ++ rd.unread
  /-- It is given up only by a read that finds no line. -/
  closed : (start.after es).input = .closed → ∃ before rest rd found rd',
    es = before ++ .advance :: rest ∧ (start.after before).input = .reading rd ∧
      rd.next? = some (found, rd') ∧ ∀ s, found ≠ .line s
  last : ∀ r q, (start.after es).holder = .held r q → q.isAsked = true →
    (questions (start.acts es)).getLast? = some r.id
  /-- A read in progress is that of the request that waits for its line, or was abandoned. -/
  claimed : (start.after es).input.isReading = true →
    (∃ r, (start.after es).holder = .held r .awaiting) ∨ Abandoned start es

namespace Deals

theorem count (hd : Deals c e new c') :
    (questions new).length + (if c.input.isReading then 1 else 0) =
      (c.input.taken? c'.input).toList.length + if c'.input.isReading then 1 else 0 := by
  cases hd with
  | leaves hi hq =>
    rw [hi, hq, Input.taken?_mapReader, Input.isReading_mapReader]
    rfl
  | starts r rd _ hi hi' _ hq =>
    rw [hi, hi', hq]
    rfl
  | ends rd rd' l found _ hi ht _ hi' hq =>
    rcases hi' with hi' | ⟨hi', -⟩ <;> rw [hi, hi', hq] <;> simp [Input.taken?, ht, Input.isReading]

theorem owns {fed : Reader} {lines : List (List UInt8)} (hd : Deals c e new c')
    (h : ∀ rd, c.input.reader? = some rd → fed.unread = lines.flatten ++ rd.unread) :
    ∀ rd, c'.input.reader? = some rd →
      (e.supply fed).unread =
        (lines ++ (c.input.taken? c'.input).toList).flatten ++ rd.unread := by
  intro rd hrd
  cases hd with
  | leaves hi hq =>
    have hreader : (c.input.mapReader e.supply).reader? = c.input.reader?.map e.supply := by
      cases c.input <;> rfl
    rw [hi, hreader] at hrd
    obtain ⟨rd₀, hrd₀, rfl⟩ := Option.map_eq_some_iff.1 hrd
    have hall := h rd₀ hrd₀
    rw [hi, Input.taken?_mapReader, Option.toList_none, List.append_nil]
    cases e with
    | feed bytes =>
      show fed.unread ++ bytes = lines.flatten ++ (rd₀.unread ++ bytes)
      rw [hall, List.append_assoc]
    | _ => exact hall
  | starts r rd₀ _ hi hi' he hq =>
    obtain rfl : rd₀ = rd := by simpa [hi', Input.reader?] using hrd
    rw [he, hi, hi', h rd₀ (by rw [hi]; rfl)]
    simp [Input.taken?]
  | ends rd₀ rd' l found he hi ht _ hi' hq =>
    rcases hi' with hi' | ⟨hi', -⟩
    · obtain rfl : rd' = rd := by simpa [hi', Input.reader?] using hrd
      have hall := h rd₀ (by rw [hi]; rfl)
      rw [Reader.take?_unread ht] at hall
      rw [he, hi, hi']
      simp [Event.supply, hall, Input.taken?, ht]
    · rw [hi'] at hrd
      cases hrd

end Deals

namespace Reads

theorem nil (p : Prompt) : Reads (ofPrompt p) [] where
  fits := fits_ofPrompt p
  count := rfl
  owns rd h := by
    cases h
    rfl
  closed h := by cases h
  last _ _ h := by cases h
  claimed h := by cases h

theorem closed_concat (h : Reads start es)
    (hd : Deals (start.after es) e new c') (hc : c'.input = .closed) :
    ∃ before rest rd found rd', es ++ [e] = before ++ .advance :: rest ∧
      (start.after before).input = .reading rd ∧ rd.next? = some (found, rd') ∧
      ∀ s, found ≠ .line s := by
  cases hd with
  | leaves hi hq =>
    have hclosed : (start.after es).input = .closed := by
      rw [hi] at hc
      cases hinput : (start.after es).input with
      | closed => rfl
      | idle rd | reading rd => rw [hinput] at hc; cases hc
    obtain ⟨before, rest, rd, found, rd', rfl, hread⟩ := h.closed hclosed
    exact ⟨before, rest ++ [e], rd, found, rd', by simp, hread⟩
  | starts r rd _ _ hi' =>
    rw [hi'] at hc
    cases hc
  | ends rd rd' l found he hi _ hn hi' =>
    subst he
    rcases hi' with hi' | ⟨-, hfound⟩
    · rw [hi'] at hc
      cases hc
    · exact ⟨es, [], rd, found, rd', rfl, hi, hn, hfound⟩

theorem claimed_concat (h : Reads start es)
    (hreading : (start.after (es ++ [e])).input.isReading = true) :
    (∃ r, (start.after (es ++ [e])).holder = .held r .awaiting) ∨ Abandoned start (es ++ [e]) := by
  have ht := step_turn h.fits e
  rw [after_concat] at hreading ⊢
  cases ht.deals with
  | starts r rd hh => exact .inl ⟨r, hh⟩
  | ends rd rd' l found _ _ _ _ hi' =>
    rcases hi' with hi' | ⟨hi', -⟩ <;> rw [hi'] at hreading <;> cases hreading
  | leaves hi hq =>
    have htaken : (start.after es).input.taken? ((start.after es).step e).1.input = none := by
      rw [hi, Input.taken?_mapReader]
    rw [hi, Input.isReading_mapReader] at hreading
    rcases h.claimed hreading with ⟨r, hh⟩ | habandoned
    · rcases ht.awaiting hh with ⟨hh', -⟩ | ⟨rfl, -, hnew⟩ | ⟨-, hover, -⟩
      · exact .inl ⟨r, hh'⟩
      · -- the request is dropped, and leaves its read behind
        have hlast := h.last r .awaiting hh rfl
        refine .inr ⟨es, [], r, rfl, hh, ?_, ?_, ?_⟩
        · rw [acts_concat, hnew, List.append_nil]
          exact hlast
        · rw [acts_concat, hnew, List.append_nil]
        · rw [taken_concat, htaken, Option.toList_none, List.append_nil]
      · rw [hi, Input.isReading_mapReader, hreading] at hover
        cases hover
    · exact .inr (habandoned.concat hq htaken)

theorem concat (h : Reads start es) (e : Event) : Reads start (es ++ [e]) := by
  have ht := step_turn h.fits e
  have hd := ht.deals
  have hlength := hd.count
  have hcount := h.count
  refine ⟨?_, ?_, ?_, ?_, ?_, ?_⟩
  · rw [after_concat]
    exact ht.fits h.fits
  · rw [acts_concat, questions_append, List.length_append, taken_concat, List.length_append,
      after_concat]
    omega
  · rw [after_concat, taken_concat, supply_concat]
    exact hd.owns h.owns
  · rw [after_concat]
    exact h.closed_concat hd
  · intro r q hh hq
    rw [after_concat] at hh
    rw [acts_concat, questions_append]
    rcases ht.holder hh with ⟨rfl, -⟩ | ⟨q', hh', ⟨hq', hnew⟩ | ⟨-, -, hnew⟩⟩
    · cases hq
    · rw [hnew, List.append_nil]
      exact h.last r q' hh' (hq' ▸ hq)
    · rw [hnew, List.getLast?_concat]
  · exact h.claimed_concat

theorem run (p : Prompt) (es : List Event) : Reads (ofPrompt p) es := by
  induction es using List.reverseRecOn with
  | nil => exact .nil p
  | append_singleton es e ih => exact ih.concat e

end Reads

/-! ### Waiting -/

/-- A request has waited for its line through the events, and nobody else has done anything to the
input. -/
structure Waits (c : Console) (r : Request) (rd : Reader) (mid : List Event) : Prop where
  holder : (c.after mid).holder = .held r .awaiting
  input : (c.after mid).input = .reading (mid.foldl Event.supply rd)
  quiet : c.acts mid = []

/-- A request waits undisturbed until it is dropped, when its read goes on, or the line is there and
it collects it. -/
inductive Undisturbed (c : Console) (r : Request) (rd : Reader) : List Event → Prop
  | waits (mid : List Event) (h : Waits c r rd mid) : Undisturbed c r rd mid
  | dropped (mid rest : List Event) (h : Waits c r rd mid)
    (hi : (c.after (mid ++ [.cancel r.id])).input = .reading (mid.foldl Event.supply rd)) :
    Undisturbed c r rd (mid ++ .cancel r.id :: rest)
  | collected (mid rest : List Event) (l : List UInt8) (rd' : Reader) (h : Waits c r rd mid)
    (ht : (mid.foldl Event.supply rd).take? = some (l, rd')) :
    Undisturbed c r rd (mid ++ .advance :: rest)

theorem undisturbed (hf : c.holder.Fits c.input) (hh : c.holder = .held r .awaiting)
    (hi : c.input = .reading rd) (es : List Event) : Undisturbed c r rd es := by
  induction es using List.reverseRecOn with
  | nil => exact .waits [] ⟨hh, hi, rfl⟩
  | append_singleton es e ih =>
    cases ih with
    | waits _ h =>
      have ht := step_turn (fits_after hf es) e
      rcases ht.awaiting h.holder with ⟨hh', hi', hnew⟩ | ⟨rfl, hi', -⟩ |
        ⟨rfl, -, rd₀, l, rd', hi', htake⟩
      · refine .waits _ ⟨?_, ?_, ?_⟩
        · rw [after_concat, hh']
        · rw [after_concat, hi', h.input, List.foldl_append]
          rfl
        · rw [acts_concat, h.quiet, hnew]
          rfl
      · refine .dropped es [] h ?_
        rw [after_concat, hi', h.input]
      · obtain rfl := Input.reading.inj (h.input.symm.trans hi')
        exact .collected es [] l rd' h htake
    | dropped mid rest h hi' =>
      rw [List.append_assoc]
      exact .dropped mid (rest ++ [e]) h hi'
    | collected mid rest l rd' h ht =>
      rw [List.append_assoc]
      exact .collected mid (rest ++ [e]) l rd' h ht

/-- In every run there is at most one read, which owns the reader. One that nobody waits for was
abandoned by the last request that started a read; a request starts its own only when there is none,
and then waits for it undisturbed. So no request comes to an error for want of a read or of the
console. -/
theorem one_read_at_a_time (p : Prompt) (es : List Event) :
    let c := (ofPrompt p).after es
    Reads (ofPrompt p) es ∧
      (∀ r, c.holder = .held r .asking → c.input.isReading = false) ∧
      (∀ r, c.holder = .held r .awaiting → ∃ rd, c.input = .reading rd ∧
        ∀ later, Undisturbed c r rd later) ∧
      ∀ id result, .decided id result ∈ (ofPrompt p).acts es →
        result ≠ .error noRead ∧ result ≠ .error released := by
  have hreads := Reads.run p es
  have hfits := hreads.fits
  refine ⟨hreads, fun r hh => ?_, fun r hh => ?_, fun id result hd => ?_⟩
  · rw [hh] at hfits
    exact hfits
  · have hreading := hfits
    rw [hh] at hreading
    cases hi : ((ofPrompt p).after es).input with
    | reading rd => exact ⟨rd, rfl, undisturbed hfits hh hi⟩
    | idle | closed => rw [hi] at hreading; cases hreading
  · obtain ⟨before, e, rest, -, hmem⟩ := step_of_mem_acts hd
    exact (step_turn (fits_after (fits_ofPrompt p) before) e).not_internal hmem

/-- A request is dropped while it waits for its line, and its notice is out. -/
def droppedRead : List Event :=
  [.request ⟨0, "rm", ∅⟩, .advance, .advance, .written none, .cancel 0, .written none]

/-- The console is free, and the read of the dropped request goes on. -/
theorem one_read_at_a_time_droppedRead :
    ((ofPrompt .default).after droppedRead).holder = .free ∧
      ((ofPrompt .default).after droppedRead).input.isReading = true ∧
      Abandoned (ofPrompt .default) droppedRead := by
  have hfree : ((ofPrompt .default).after droppedRead).holder = .free := rfl
  have hreading : ((ofPrompt .default).after droppedRead).input.isReading = true := rfl
  obtain ⟨hreads, -⟩ := one_read_at_a_time .default droppedRead
  refine ⟨hfree, hreading, (hreads.claimed hreading).resolve_left ?_⟩
  rintro ⟨r, hh⟩
  rw [hfree] at hh
  cases hh

end GatedCalls.Console
