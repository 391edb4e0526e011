import GatedCalls.Proofs.Console.Pairing

/-!
# Every question has its own line

`Ledger` says what holds at every moment of a run in which every write succeeds and the input is
valid: the reader has the lines after those of the questions that were read for (`Input.Owns`); if a
read is in progress, it is for the last question, whose request waits for it or was dropped; what
was granted or refused is what the line of the same number says; and each question has one of the
fates that `Fate` lists.
-/

namespace GatedCalls.Console

open Text.Utf8 (Valid decode?)

/-! ### The input of a run -/

/-- The events of a run in which every write succeeds, no two requests bear the same number, and the
input is `text`, as far as it came, which is valid; nothing arrives after the end of the input. -/
structure Proper (text : List UInt8) (es : List Event) : Prop where
  writes : ∀ f, .written (some f) ∉ es
  distinct : (requestIds es).Nodup
  valid : Text.Utf8.fault? text = none
  fed : (supply es).unread <+: text
  whole : ∀ before rest, es = before ++ .close :: rest → (supply before).unread = text

variable {c c' : Console} {e : Event} {es es' : List Event} {as new : List Act} {id k : Nat}
  {text : List UInt8} {p : Prompt}

namespace Proper

theorem left (h : Proper text (es ++ es')) : Proper text es where
  writes f hf := h.writes f (List.mem_append_left _ hf)
  distinct := nodup_left h.distinct
  valid := h.valid
  fed := (supply_grows es es').trans h.fed
  whole before rest he := h.whole before (rest ++ es') (by rw [he, List.append_assoc]; rfl)

theorem ended (h : Proper text es) (he : (supply es).ended = true) : (supply es).unread = text := by
  obtain ⟨before, rest, rfl⟩ := (close_of_ended he).resolve_left (by simp)
  have hp := supply_grows before (.close :: rest)
  rw [h.whole before rest rfl] at hp
  exact h.fed.eq_of_length_le hp.length_le

theorem lines_valid (h : Proper text es) : ∀ l ∈ (supply es).lines, Valid l :=
  Reader.lines_valid (Text.Utf8.fault?_eq_none_iff.1 h.valid) h.fed h.ended

theorem sealed (h : Proper text es) : Sealed es := by
  rintro before rest rfl bytes hmem
  obtain ⟨part, more, rfl⟩ := List.append_of_mem hmem
  have hwhole := supply_grows before (.close :: part)
  have hfed := supply_grows (before ++ .close :: part ++ [.feed bytes]) more
  rw [h.whole before _ rfl] at hwhole
  rw [supply_concat, List.append_assoc, List.append_assoc] at hfed
  have hlen := (hfed.trans h.fed).length_le
  have hle := hwhole.length_le
  simp only [Event.supply, Reader.feed, List.length_append] at hlen
  exact List.eq_nil_of_length_eq_zero (by omega)

end Proper

/-! ### The ledger -/

/-- The request was dropped before it had an answer. -/
structure Dropped (es : List Event) (c : Console) (as : List Act) (id : Nat) : Prop where
  cancelled : .cancel id ∈ es
  made : id ∈ requestIds es
  gone : ∀ r ∈ c.requests, r.id ≠ id
  undecided : ∀ result, .decided id result ∉ as

/-- What can have become of the question `k` of the request `id`. -/
inductive Fate (es : List Event) (c : Console) (as : List Act) (k id : Nat) : Prop
  | standing (r : Request) (h : c.holder = .held r .awaiting) (hr : r.id = id)
  | reporting (r : Request) (b : Bool) (h : c.holder = .held r (.reporting b)) (hr : r.id = id)
  | decided (b : Bool) (h : .decided id (.ok b) ∈ as)
  /-- There is no line for it. -/
  | unanswered (h : c.input = .closed) (hk : k + 1 = (questions as).length)
  | dropped (h : Dropped es c as id)

structure Ledger (p : Prompt) (es : List Event) (c : Console) (as : List Act) : Prop where
  prompt : c.prompt = p
  input : c.input.Owns (supply es) (questions as).length
  /-- The outcome that is being written is what the last line says. -/
  outcome : ∀ r b, c.holder = .held r (.reporting b) → ∃ k s, k + 1 = (questions as).length ∧
    (supply es).textAt k = some s ∧ b = p.affirms s
  /-- A read in progress is for the last question. -/
  owed : c.input.isReading = true → ∃ id, (questions as).getLast? = some id ∧
    ((∃ r, c.holder = .held r .awaiting ∧ r.id = id) ∨ Dropped es c as id)
  granted : ∀ id b, .decided id (.ok b) ∈ as → ∃ k s, (questions as)[k]? = some id ∧
    (supply es).textAt k = some s ∧ b = p.affirms s
  fates : ∀ k id, (questions as)[k]? = some id → Fate es c as k id
  discards : ∀ before s rest, as = before ++ .discarded s :: rest → ∃ k id,
    (questions before).length = k + 1 ∧ (questions as)[k]? = some id ∧
    (supply es).textAt k = some s ∧ Dropped es c as id

/-- No read finds anything undecodable in valid input. -/
theorem Input.Owns.decodable {fed rd rd' : Reader} {n : Nat} {f : Text.Utf8.Fault}
    (h : (Input.reading rd).Owns fed n) (hv : ∀ l ∈ fed.lines, Valid l) :
    rd.next? ≠ some (.undecodable f, rd') := by
  intro hn
  obtain ⟨used, hlen, hbooks⟩ := h
  obtain ⟨l, hl, hbad⟩ := Reader.next?_undecodable hn
  exact hbad (hv l (hbooks.lines ▸ List.mem_append_right _ hl))

theorem Dropped.turn (h : Dropped es c as id) (ht : Turn c e new c')
    (hn : (requestIds (es ++ [e])).Nodup) : Dropped (es ++ [e]) c' (as ++ new) id := by
  refine ⟨List.mem_append_left _ h.cancelled, ?_, ht.gone h.gone fun he => ?_, fun result hd => ?_⟩
  · rw [requestIds_concat]
    exact List.mem_append_left _ h.made
  · rw [requestIds_concat, he] at hn
    exact (List.nodup_append.1 hn).2.2 _ h.made _ (List.mem_singleton_self _) rfl
  · rcases List.mem_append.1 hd with hd | hd
    · exact h.undecided result hd
    · exact ht.not_concerns h.gone _ hd rfl

theorem dropped_of_held {r : Request} {q : Phase} (hr : Roster es c as) (h : c.holder = .held r q)
    (ht : Turn c (.cancel r.id) new c') :
    Dropped (es ++ [.cancel r.id]) c' (as ++ new) r.id := by
  obtain ⟨rfl, hgone⟩ := ht.cancelled
  refine ⟨List.mem_append_right _ (List.mem_singleton_self _), ?_, hgone, ?_⟩
  · rw [requestIds_concat]
    exact List.mem_append_left _ (hr.known r (mem_requests_of_held h))
  · rw [List.append_nil]
    exact hr.undecided r (mem_requests_of_held h)

/-- A read in progress is for the last question, whose request waits for it or was dropped. -/
def Owed (es : List Event) (c : Console) (as : List Act) : Prop :=
  c.input.isReading = true → ∃ id, (questions as).getLast? = some id ∧
    ((∃ r, c.holder = .held r .awaiting ∧ r.id = id) ∨ Dropped es c as id)

theorem Owed.start (p : Prompt) : Owed [] (ofPrompt p) [] := fun h => by cases h

theorem Owed.turn (h : Owed es c as) (hr : Roster es c as) (ht : Turn c e new c')
    (hn : (requestIds (es ++ [e])).Nodup) : Owed (es ++ [e]) c' (as ++ new) := by
  intro hi'
  have keep (hi : c.input.isReading = true) (hq : questions new = [])
      (hs : ∀ r, c.holder = .held r .awaiting → c'.holder = .held r .awaiting ∨
        Dropped (es ++ [e]) c' (as ++ new) r.id) : ∃ id,
      (questions (as ++ new)).getLast? = some id ∧
      ((∃ r, c'.holder = .held r .awaiting ∧ r.id = id) ∨
        Dropped (es ++ [e]) c' (as ++ new) id) := by
    obtain ⟨id, hl, ho⟩ := h hi
    refine ⟨id, by rw [Roster.questions_of_none hq, hl], ?_⟩
    rcases ho with ⟨r, hh, rfl⟩ | hd
    · exact (hs r hh).imp_left fun hh' => ⟨r, hh', rfl⟩
    · exact .inr (hd.turn ht hn)
  cases ht with
  | request | rest | drop => exact keep hi' rfl fun r hh => .inl hh
  | feed | close =>
    exact keep ((Input.isReading_mapReader ..).symm.trans hi') rfl fun r hh => .inl hh
  | leave r h' | give r _ h' | owe r h' | ready r h' | askClosed r h' | report r _ h'
  | notice _ h' | noticeFail _ _ h' =>
    exact keep hi' rfl fun r hh => by rw [h'] at hh; cases hh
  | retract r q h' hq =>
    refine keep hi' rfl fun r' hh => .inr ?_
    obtain ⟨rfl, rfl⟩ := Holder.held.inj (h'.symm.trans hh)
    exact dropped_of_held hr h' (.retract r _ h' hq)
  | ask r rd h' hi =>
    refine ⟨r.id, ?_, .inl ⟨r, rfl, rfl⟩⟩
    rw [questions_append]
    exact List.getLast?_concat
  | fail r q f h' hq =>
    refine keep hi' rfl fun r' hh => ?_
    rw [h'] at hh
    rcases hq with rfl | ⟨b, rfl⟩ <;> cases hh
  | discard | discardEnd | discardFault | collect | collectEnd | collectFault => cases hi'

theorem Owed.run (h : Owed es c as) (hr : Roster es c as)
    (hn : (requestIds (es ++ es')).Nodup) : Owed (es ++ es') (c.after es') (as ++ c.acts es') := by
  induction es' generalizing es c as with
  | nil => simpa [after, acts] using h
  | cons e es' ih =>
    rw [List.append_cons] at hn
    have ht := step_turn hr.fits e
    have := ih (h.turn hr ht (nodup_left hn)) (hr.turn ht (nodup_left hn)) hn
    rwa [List.append_assoc, List.append_assoc] at this

/-! ### Every turn keeps the ledger -/

theorem index_of_last {l : List Nat} {i : Nat} (hn : l.Nodup) (hl : l.getLast? = some i)
    (hk : l[k]? = some i) : k + 1 = l.length := by
  rw [List.getLast?_eq_getElem?] at hl
  obtain ⟨hlt, hk⟩ := List.getElem?_eq_some_iff.1 hk
  obtain ⟨hlt', hl⟩ := List.getElem?_eq_some_iff.1 hl
  by_cases heq : k + 1 = l.length
  · exact heq
  · have hne := List.pairwise_iff_getElem.1 hn k (l.length - 1) hlt hlt' (by omega)
    exact absurd (hk.trans hl.symm) hne

theorem Turn.discarded (ht : Turn c e new c') {s : String} (hs : .discarded s ∈ new) :
    new = [.discarded s] ∧ ∃ r rd rd', c.holder = .held r .discarding ∧ c.input = .reading rd ∧
      rd.next? = some (.line s, rd') := by
  cases ht with
  | discard r rd rd' line h hi hn =>
    obtain rfl : s = line := by simpa using hs
    exact ⟨rfl, r, rd, rd', h, hi, hn⟩
  | _ => simp at hs

namespace Ledger

theorem start (p : Prompt) : Ledger p [] (ofPrompt p) [] where
  prompt := rfl
  input := ⟨[], rfl, .refl _⟩
  outcome _ _ h := by cases h
  owed h := by cases h
  granted _ _ h := by cases h
  fates _ _ h := by simp [questions] at h
  discards _ _ _ h := by simp at h

theorem pairing (h : Ledger p es c as) : Pairing p es c as :=
  ⟨h.prompt, .inr h.input, h.outcome, h.granted⟩

theorem decodable (h : Ledger p es c as) (hp : Proper text es) {rd rd' : Reader}
    {f : Text.Utf8.Fault} (hi : c.input = .reading rd) : rd.next? ≠ some (.undecodable f, rd') := by
  have hin := h.input
  rw [hi] at hin
  exact hin.decodable hp.lines_valid

variable (h : Ledger p es c as) (hr : Roster es c as) (ht : Turn c e new c')
  (hp : Proper text (es ++ [e]))

include h ht hp

theorem input_turn : c'.input.Owns (supply (es ++ [e])) (questions (as ++ new)).length := by
  rw [supply_concat, questions_append, List.length_append]
  have hin := h.input
  cases ht with
  | feed bytes => exact hin.feed hp.sealed.feed
  | close => exact hin.close
  | rest e he => rcases he with rfl | ⟨f, rfl⟩ <;> exact hin
  | discard r rd rd' line _ hi hn | collect r rd rd' line _ hi hn =>
    rw [hi] at hin
    exact (hin.line hn).1
  | discardEnd r rd rd' _ hi hn | collectEnd r rd rd' _ hi hn =>
    rw [hi] at hin
    exact hin.ended hn
  | discardFault r rd rd' f _ hi hn | collectFault r rd rd' f _ hi hn =>
    exact absurd hn (h.decodable hp.left hi)
  | ask r rd _ hi =>
    rw [hi] at hin
    obtain ⟨used, hn, hbooks⟩ := hin
    exact ⟨used, by rw [hn]; rfl, hbooks⟩
  | request | drop | leave | retract | give | owe | ready | askClosed | report | fail | notice
  | noticeFail => exact hin

theorem discards_turn {before rest : List Act} {s : String}
    (hd : as ++ new = before ++ .discarded s :: rest) : ∃ k id,
    (questions before).length = k + 1 ∧ (questions (as ++ new))[k]? = some id ∧
    (supply (es ++ [e])).textAt k = some s ∧ Dropped (es ++ [e]) c' (as ++ new) id := by
  have old {m : List Act} (hm : as = before ++ .discarded s :: m) : ∃ k id,
      (questions before).length = k + 1 ∧ (questions (as ++ new))[k]? = some id ∧
      (supply (es ++ [e])).textAt k = some s ∧ Dropped (es ++ [e]) c' (as ++ new) id := by
    obtain ⟨k, id, hlen, hk, hs, hdrop⟩ := h.discards before s m hm
    refine ⟨k, id, hlen, ?_, hp.sealed.textAt hs, hdrop.turn ht hp.distinct⟩
    rw [questions_append]
    exact getElem?_append_of_some hk
  have fresh {m : List Act} (hb : before = as ++ m) (hm : new = m ++ .discarded s :: rest) : ∃ k id,
      (questions before).length = k + 1 ∧ (questions (as ++ new))[k]? = some id ∧
      (supply (es ++ [e])).textAt k = some s ∧ Dropped (es ++ [e]) c' (as ++ new) id := by
    have hmem : .discarded s ∈ new := hm ▸ List.mem_append_right _ (List.mem_cons_self ..)
    obtain ⟨hone, r, rd, rd', hh, hi, hn⟩ := ht.discarded hmem
    have hmnil : m = [] := by
      rw [hone] at hm
      cases m with
      | nil => rfl
      | cons a m => simp at hm
    have hin := h.input
    rw [hi] at hin
    obtain ⟨-, k, hlen, hs⟩ := hin.line hn
    obtain ⟨id, hlast, howed⟩ := h.owed (by rw [hi]; rfl)
    have hk : (questions as)[k]? = some id := by
      rw [← hlast, List.getLast?_eq_getElem?, ← hlen, Nat.add_sub_cancel]
    refine ⟨k, id, ?_, ?_, hp.sealed.textAt hs, ?_⟩
    · rw [hb, hmnil, List.append_nil, hlen]
    · rw [questions_append]
      exact getElem?_append_of_some hk
    · rcases howed with ⟨r', hh', -⟩ | hdrop
      · rw [hh] at hh'
        cases hh'
      · exact hdrop.turn ht hp.distinct
  rcases List.append_eq_append_iff.1 hd with ⟨m, hb, hm⟩ | ⟨m, ha, hm⟩
  · exact fresh hb hm
  · cases m with
    | nil => exact fresh (m := []) (by simpa using ha.symm) hm.symm
    | cons a m =>
      obtain ⟨rfl, -⟩ := List.cons.inj hm
      exact old ha

include hr

theorem fate_turn {id : Nat} (hk : (questions as)[k]? = some id) (hf : Fate es c as k id) :
    Fate (es ++ [e]) c' (as ++ new) k id := by
  cases hf with
  | dropped hd => exact .dropped (hd.turn ht hp.distinct)
  | decided b hd => exact .decided b (List.mem_append_left _ hd)
  | unanswered hc hlen =>
    obtain ⟨hc', hq⟩ := ht.closed hc
    exact .unanswered hc' (by rw [Roster.questions_of_none hq, hlen])
  | standing r hh hid =>
    subst hid
    cases ht with
    | request | feed | close | rest | drop => exact .standing r hh rfl
    | retract r' q h' hq =>
      obtain ⟨rfl, rfl⟩ := Holder.held.inj (h'.symm.trans hh)
      exact .dropped (dropped_of_held hr h' (.retract r' _ h' hq))
    | collect r' rd rd' line h' hi hn =>
      obtain ⟨rfl, -⟩ := Holder.held.inj (h'.symm.trans hh)
      exact .reporting r' _ rfl rfl
    | collectEnd r' rd rd' h' hi hn =>
      refine .unanswered rfl ?_
      rw [Roster.questions_of_none rfl]
      exact index_of_last hr.once (hr.last r _ hh rfl) hk
    | collectFault r' rd rd' f _ hi hn => exact absurd hn (h.decodable hp.left hi)
    | leave r' h' | give r' _ h' | owe r' h' | ready r' h' | discard r' _ _ _ h'
    | discardEnd r' _ _ h' | discardFault r' _ _ _ h' | ask r' _ h' | askClosed r' h'
    | report r' _ h' | notice _ h' | noticeFail _ _ h' =>
      rw [hh] at h'
      cases h'
    | fail r' q f h' hq =>
      exact absurd (List.mem_append_right _ (List.mem_singleton_self _)) (hp.writes f)
  | reporting r b hh hid =>
    subst hid
    cases ht with
    | request | feed | close | rest | drop => exact .reporting r b hh rfl
    | retract r' q h' hq =>
      obtain ⟨rfl, rfl⟩ := Holder.held.inj (h'.symm.trans hh)
      exact .dropped (dropped_of_held hr h' (.retract r' _ h' hq))
    | report r' b' h' =>
      obtain ⟨rfl, -⟩ := Holder.held.inj (h'.symm.trans hh)
      exact .decided b' (by simp)
    | leave r' h' | give r' _ h' | owe r' h' | ready r' h' | discard r' _ _ _ h'
    | discardEnd r' _ _ h' | discardFault r' _ _ _ h' | ask r' _ h' | askClosed r' h'
    | collect r' _ _ _ h' | collectEnd r' _ _ h' | collectFault r' _ _ _ h' | notice _ h'
    | noticeFail _ _ h' =>
      rw [hh] at h'
      cases h'
    | fail r' q f h' hq =>
      exact absurd (List.mem_append_right _ (List.mem_singleton_self _)) (hp.writes f)

theorem fates_turn {id : Nat} (hk : (questions (as ++ new))[k]? = some id) :
    Fate (es ++ [e]) c' (as ++ new) k id := by
  rw [questions_append] at hk
  rcases ht.questions with hq | ⟨r, -, hh', -, hq⟩
  · rw [hq, List.append_nil] at hk
    exact h.fate_turn hr ht hp hk (h.fates k id hk)
  · by_cases hlt : k < (questions as).length
    · rw [List.getElem?_append_left hlt] at hk
      exact h.fate_turn hr ht hp hk (h.fates k id hk)
    · -- the question is the new one
      rw [hq, List.getElem?_append_right (Nat.not_lt.1 hlt)] at hk
      obtain ⟨hlen, rfl⟩ := List.getElem?_eq_some_iff.1 hk
      exact .standing r hh' (by simp)

theorem turn : Ledger p (es ++ [e]) c' (as ++ new) where
  prompt := ht.prompt.trans h.prompt
  input := h.input_turn ht hp
  outcome _ _ hh := h.pairing.outcome_turn ht hp.sealed hh
  owed := Owed.turn h.owed hr ht hp.distinct
  granted _ _ hd := h.pairing.granted_turn hr ht hp.sealed hd
  fates _ _ hk := h.fates_turn hr ht hp hk
  discards _ _ _ hd := h.discards_turn ht hp hd

end Ledger

theorem Ledger.run (h : Ledger p es c as) (hr : Roster es c as) (hp : Proper text (es ++ es')) :
    Ledger p (es ++ es') (c.after es') (as ++ c.acts es') := by
  induction es' generalizing es c as with
  | nil => simpa [after, acts] using h
  | cons e es' ih =>
    rw [List.append_cons] at hp
    have ht := step_turn hr.fits e
    have := ih (h.turn hr ht hp.left) (hr.turn ht hp.left.distinct) hp
    rwa [List.append_assoc, List.append_assoc] at this

/-! ### Runs -/

theorem Proper.ledger (h : Proper text es) (p : Prompt) :
    Roster es ((ofPrompt p).after es) ((ofPrompt p).acts es) ∧
      Ledger p es ((ofPrompt p).after es) ((ofPrompt p).acts es) :=
  ⟨(Roster.start p).run h.distinct, (Ledger.start p).run (Roster.start p) h⟩

/-- A settled console whose request waits for its line has no line left. -/
theorem settled_awaiting (hr : Roster es c as) (hl : Ledger p es c as) {r : Request}
    (hh : c.holder = .held r .awaiting) (h : move? none c = none) :
    (supply es).lines.length + 1 = (questions as).length := by
  have hc : c.collect? r = none := by
    rcases settled_cases h hh with ⟨hq, -⟩ | ⟨-, hc⟩
    · cases hq
    · exact hc
  have hfits := hr.fits
  rw [hh] at hfits
  cases hi : c.input with
  | reading rd =>
    rw [collect?, hi] at hc
    have hin := hl.input
    rw [hi] at hin
    obtain ⟨used, hlen, hbooks⟩ := hin
    rw [hbooks.lines, Reader.next?_none (Option.map_eq_none_iff.1 hc), List.append_nil, hlen]
  | idle | closed => rw [hi] at hfits; cases hfits

theorem textAt_lt {r : Reader} {s : String} (h : r.textAt k = some s) : k < r.lines.length := by
  obtain ⟨l, hl, -⟩ := Option.bind_eq_some_iff.1 h
  exact (List.getElem?_eq_some_iff.1 hl).1

theorem index_unique {l : List Nat} {i j : Nat} (hn : l.Nodup) (hj : l[j]? = some i)
    (hk : l[k]? = some i) : j = k := by
  obtain ⟨hlj, hj⟩ := List.getElem?_eq_some_iff.1 hj
  obtain ⟨hlk, hk⟩ := List.getElem?_eq_some_iff.1 hk
  have hp := List.pairwise_iff_getElem.1 hn
  rcases Nat.lt_trichotomy j k with hlt | heq | hlt
  · exact absurd (hj.trans hk.symm) (hp j k hlj hlk hlt)
  · exact heq
  · exact absurd (hk.trans hj.symm) (hp k j hlk hlj hlt)

/-- The accounts of a console that was asked and fed by the events `es`. The questions are numbered
in the order in which their reads were started, and the lines of the input in their order. -/
structure Accounts (start : Console) (answers : List String) (es : List Event) : Prop where
  /-- No request has two questions. -/
  once : (questions (start.acts es)).Nodup
  /-- A decision is what the line with the number of the question says. -/
  own_line : ∀ id b, .decided id (.ok b) ∈ start.acts es → ∃ k s,
    (questions (start.acts es))[k]? = some id ∧ (supply es).textAt k = some s ∧
    (b = true ↔ Prompt.normalize s ∈ answers.map Prompt.normalize)
  /-- When the console can do nothing by itself, the requests that were not dropped and have a
  decision are those whose line is there. -/
  arrived : move? none (start.after es) = none → ∀ k id,
    (questions (start.acts es))[k]? = some id → .cancel id ∉ es →
    ((∃ b, .decided id (.ok b) ∈ start.acts es) ↔ k < (supply es).lines.length)
  /-- It comes to that without anything from outside. -/
  settles : ∃ es', (∀ e ∈ es', e = .advance ∨ e = .written none) ∧
    move? none (start.after (es ++ es')) = none
  /-- The reader has the lines after those of the questions, and still that of the last question
  while its read is in progress. -/
  in_order : match (start.after es).input with
    | .idle rd => (questions (start.acts es)).length ≤ (supply es).lines.length ∧
      rd.lines = (supply es).lines.drop (questions (start.acts es)).length
    | .reading rd => (questions (start.acts es)).length ≤ (supply es).lines.length + 1 ∧
      rd.lines = (supply es).lines.drop ((questions (start.acts es)).length - 1)
    | .closed => (questions (start.acts es)).length = (supply es).lines.length + 1
  /-- No read is in progress while a question is being written. -/
  cleared : ∀ r, (start.after es).holder = .held r .asking →
    (start.after es).input.isReading = false
  /-- A line that is thrown away is that of the last question before, which was dropped and has no
  decision. -/
  thrown_away : ∀ before s rest, start.acts es = before ++ .discarded s :: rest → ∃ k id,
    (questions before).length = k + 1 ∧ (questions (start.acts es))[k]? = some id ∧
    (supply es).textAt k = some s ∧ .cancel id ∈ es ∧
    ∀ result, .decided id result ∉ start.acts es
  /-- A request that is dropped is neither asked nor decided after that. -/
  dropped : ∀ before id rest, es = before ++ .cancel id :: rest → id ∈ requestIds before →
    ∃ more, start.acts es = start.acts before ++ more ∧ ∀ a ∈ more, ¬ a.Concerns id

variable {answers : List String}

theorem Ledger.in_order (h : Ledger p es c as) : match c.input with
    | .idle rd => (questions as).length ≤ (supply es).lines.length ∧
      rd.lines = (supply es).lines.drop (questions as).length
    | .reading rd => (questions as).length ≤ (supply es).lines.length + 1 ∧
      rd.lines = (supply es).lines.drop ((questions as).length - 1)
    | .closed => (questions as).length = (supply es).lines.length + 1 := by
  have hin := h.input
  generalize c.input = i at hin
  cases i with
  | idle rd =>
    obtain ⟨used, hlen, hbooks⟩ := hin
    rw [hbooks.lines, List.length_append, ← hlen, List.drop_left]
    exact ⟨Nat.le_add_right .., rfl⟩
  | reading rd =>
    obtain ⟨used, hlen, hbooks⟩ := hin
    rw [hbooks.lines, List.length_append, ← hlen, Nat.add_sub_cancel, List.drop_left]
    exact ⟨by omega, rfl⟩
  | closed => exact hin.1.symm

/-- In a settled console each question whose line is there is decided, unless it was dropped. -/
theorem settled_decided (hr : Roster es c as) (hl : Ledger p es c as) (hs : move? none c = none)
    {id : Nat} (hk : (questions as)[k]? = some id) (hcancel : .cancel id ∉ es)
    (hlt : k < (supply es).lines.length) : ∃ b, .decided id (.ok b) ∈ as := by
  cases hl.fates k id hk with
  | standing r hh hid =>
    have hlen := settled_awaiting hr hl hh hs
    have hlast := hr.last r _ hh rfl
    rw [hid] at hlast
    have := index_of_last hr.once hlast hk
    omega
  | reporting r b hh hid => rcases settled_cases hs hh with ⟨hq, -⟩ | ⟨hq, -⟩ <;> cases hq
  | decided b hd => exact ⟨b, hd⟩
  | unanswered hc hlen =>
    have hin := hl.input
    rw [hc] at hin
    have hn := hin.1
    omega
  | dropped hd => exact absurd hd.cancelled hcancel

/-- In a run in which every write succeeds and the input is valid, however it is cut into pieces,
the questions and the lines of the input are paired in order. -/
theorem line_accounts (p : Prompt) (answers : List String) (text : List UInt8) (es : List Event)
    (h : Proper text es) : Accounts (ofPrompt (p.withAffirmatives answers)) answers es := by
  obtain ⟨hr, hl⟩ := h.ledger (p.withAffirmatives answers)
  refine ⟨hr.once, fun id b hd => ?_, fun hs k id hk hcancel => ⟨?_, ?_⟩, ?_, hl.in_order,
    fun r hh => ?_, fun before s rest hd => ?_, fun before id rest he hid => ?_⟩
  · obtain ⟨k, s, hk, hs, rfl⟩ := hl.granted id b hd
    refine ⟨k, s, hk, hs, ?_⟩
    simp [Prompt.affirms, Prompt.withAffirmatives]
  · rintro ⟨b, hd⟩
    obtain ⟨j, s, hj, hs', -⟩ := hl.granted id b hd
    rw [← index_unique hr.once hj hk]
    exact textAt_lt hs'
  · exact settled_decided hr hl hs hk hcancel
  · obtain ⟨es', hes, hs⟩ := exists_settled ((ofPrompt (p.withAffirmatives answers)).after es)
    exact ⟨es', hes, by rw [after_append, hs]⟩
  · have hfits := hr.fits
    rw [hh] at hfits
    exact hfits
  · obtain ⟨k, id, hlen, hk, hs, hdrop⟩ := hl.discards before s rest hd
    exact ⟨k, id, hlen, hk, hs, hdrop.cancelled, hdrop.undecided⟩
  · subst he
    have hb := (Roster.start (p.withAffirmatives answers)).run h.left.distinct
    have ht := cancel_turn ((ofPrompt (p.withAffirmatives answers)).after before) id
    have hrest : id ∉ requestIds rest := by
      have hn := h.distinct
      rw [requestIds, List.filterMap_append] at hn
      exact fun hmem => (List.nodup_append.1 hn).2.2 _ hid _ hmem rfl
    have hgone := gone_acts (ht.fits hb.fits) ht.cancelled.2 hrest
    exact ⟨_, acts_append .., hgone⟩

/-- A question is dropped between two halves of its line, and another one is asked. -/
def droppedAnswer : List Event :=
  [.request ⟨0, "rm", ∅⟩, .advance, .advance, .written none, .feed [121], .cancel 0, .written none,
    .request ⟨1, "mv", ∅⟩, .advance, .advance, .feed [10, 110], .advance, .written none,
    .feed [10], .advance, .written none]

theorem line_accounts_droppedAnswer : Proper [121, 10, 110, 10] droppedAnswer ∧
    Accounts (ofPrompt (Prompt.default.withAffirmatives ["y"])) ["y"] droppedAnswer := by
  have h : Proper [121, 10, 110, 10] droppedAnswer := by
    refine ⟨by simp [droppedAnswer], by decide, ?_, ⟨[], rfl⟩, fun before rest he => ?_⟩
    · exact Text.Utf8.fault?_eq_none_iff.2
        (.cons rfl (.cons rfl (.cons rfl (.cons rfl .nil))))
    · have : .close ∈ droppedAnswer := he ▸ List.mem_append_right _ (List.mem_cons_self ..)
      simp [droppedAnswer] at this
  exact ⟨h, line_accounts Prompt.default ["y"] _ _ h⟩

end GatedCalls.Console
