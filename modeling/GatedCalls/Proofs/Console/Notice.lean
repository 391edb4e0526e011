import GatedCalls.Proofs.Console.Account
import GatedCalls.Proofs.Console.Closing
import GatedCalls.Proofs.Console.Verdicts
import GatedCalls.Proofs.Dispatch.Gate

/-!
# What the notice about a dropped request is worth

The notice says that the call will not run and that the next line is thrown away. The first holds
wherever the request was when it was dropped. The second holds if that line is owed
(`Input.Owing`): a read that was started for a question, this one or one that was dropped before, is
still to find it. A request that is dropped while its question or its outcome is being written
leaves no read behind, so the next line answers a later question, and so does the next line if the
one that was owed came before the notice was out. A line that is owed and is no text is not just
thrown away either: it fails the next request that has its turn, and closes the input (`Spends`).
-/

namespace GatedCalls.Console

open Text.Utf8 (fault?)

/-- A read is in progress whose line is not there yet. -/
def Input.Owing : Input → Prop
  | .reading rd => rd.lines = []
  | .idle _ | .closed => False

/-- A read is in progress, and nobody waits for its line. -/
structure Stale (c : Console) : Prop where
  reading : c.input.isReading = true
  unclaimed : ∀ r, c.holder ≠ .held r .awaiting

/-- What is done when such a line is collected by the request that comes next. -/
def thrownAway (r : Request) : LineRead → List Act
  | .line s => [.discarded s]
  | .ended => []
  | .undecodable f => [.decided r.id (.error (undecodableInput f))]

/-- What is done from the moment when the line with the number `n` of `fed` is owed, and nobody
waits for it. -/
inductive Spends (p : Prompt) (fed : Reader) (n : Nat) : List Act → Prop
  /-- Nobody has collected it. -/
  | left : Spends p fed n []
  | notice (name : String) (as : List Act) (h : Spends p fed n as) :
    Spends p fed n (.wrote (p.notice name) :: as)
  | thrown (s : String) (as : List Act) (hs : fed.textAt n = some s) :
    Spends p fed n (.discarded s :: as)
  /-- It is no text, which fails the request that collects it and is the end of all reading. -/
  | failed (id : Nat) (f : Text.Utf8.Fault) (l : List UInt8) (as : List Act)
    (hl : fed.lines[n]? = some l) (hf : fault? l = some f) (has : ∀ a ∈ as, ¬ a.NeedsLine) :
    Spends p fed n (.decided id (.error (undecodableInput f)) :: as)
  /-- The input ended instead. -/
  | ended (as : List Act) (hl : fed.lines.length = n) (has : ∀ a ∈ as, ¬ a.NeedsLine) :
    Spends p fed n as

/-- The request `id` was granted or refused, for what the line with the number `k` says. -/
structure DecidedBy (start : Console) (es : List Event) (k id : Nat) (b : Bool) : Prop where
  decided : .decided id (.ok b) ∈ start.acts es
  question : (questions (start.acts es))[k]? = some id
  line : ∃ s, (supply es).textAt k = some s ∧ b = start.prompt.affirms s

variable {c c' : Console} {e : Event} {es es' before mid rest : List Event} {as new : List Act}
  {p : Prompt} {r : Request} {q : Phase} {i : Input} {id n : Nat} {name : String} {b : Bool}

/-! ### While the notice is being written -/

theorem Turn.retracting (ht : Turn c e new c') (hh : c.holder = .retracting name)
    (he : ∀ f, e ≠ .written f) :
    c'.holder = .retracting name ∧ c'.input.isReading = c.input.isReading ∧ new = [] := by
  cases ht with
  | request | rest | drop => exact ⟨hh, rfl, rfl⟩
  | feed | close => exact ⟨hh, Input.isReading_mapReader .., rfl⟩
  | ask | askClosed | report | fail | notice | noticeFail => exact absurd rfl (he _)
  | leave _ h | retract _ _ h | give _ _ h | owe _ h | ready _ h | discard _ _ _ _ h
  | discardEnd _ _ _ h | discardFault _ _ _ _ h | collect _ _ _ _ h | collectEnd _ _ _ h
  | collectFault _ _ _ _ h =>
    rw [hh] at h
    cases h

theorem retracting_run (hf : c.holder.Fits c.input) (hh : c.holder = .retracting name)
    (hmid : ∀ f, .written f ∉ mid) : (c.after mid).holder = .retracting name ∧
      (c.after mid).input.isReading = c.input.isReading ∧ c.acts mid = [] := by
  induction mid generalizing c with
  | nil => exact ⟨hh, rfl, rfl⟩
  | cons e mid ih =>
    have ht := step_turn hf e
    obtain ⟨hh', hi', hnew⟩ := ht.retracting hh fun f he => hmid f (he ▸ List.mem_cons_self ..)
    obtain ⟨hend, hi, hacts⟩ :=
      ih (ht.fits hf) hh' fun f hmem => hmid f (List.mem_cons_of_mem _ hmem)
    exact ⟨hend, hi.trans hi', by rw [acts, hnew, hacts]; rfl⟩

/-- When the notice about a request that is dropped is about to be out, nothing was done since it
was dropped. -/
theorem retracted (hh : c.holder = .held r q) (hq : q ≠ .admitted)
    (hmid : ∀ f, .written f ∉ mid) : (c.after (.cancel r.id :: mid)).holder = .retracting r.name ∧
      (c.after (.cancel r.id :: mid)).input.isReading = c.input.isReading ∧
      c.acts (.cancel r.id :: mid) = [] := by
  have hcancel : (c.step (.cancel r.id)).1 =
      { c.without r.id with holder := .retracting r.name } := by
    simp [step, cancel, hh, hq, without]
  have hholder : (c.step (.cancel r.id)).1.holder = .retracting r.name := by rw [hcancel]
  have hfits : (c.step (.cancel r.id)).1.holder.Fits (c.step (.cancel r.id)).1.input := by
    rw [hholder]
    trivial
  obtain ⟨hend, hi, hacts⟩ := retracting_run hfits hholder hmid
  refine ⟨hend, hi.trans (by rw [hcancel]; rfl), ?_⟩
  rw [acts, hacts]
  rfl

theorem acts_of_retracting (hh : c.holder = .retracting name) :
    c.acts [.written none] = [.wrote (c.prompt.notice name)] := by
  simp [acts, step, written?, hh]

/-! ### While a line is owed -/

/-- A turn leaves the line that nobody waits for alone, or collects it for the request that has the
console. -/
theorem Turn.stale (ht : Turn c e new c') (hf : c.holder.Fits c.input) (hc : c.Stale) :
    (c'.Stale ∧ (new = [] ∨ ∃ name, new = [.wrote (c.prompt.notice name)])) ∨
      ∃ r rd rd' found, c.input = .reading rd ∧ rd.next? = some (found, rd') ∧
        new = thrownAway r found := by
  obtain ⟨hi, hh⟩ := hc
  cases ht with
  | request | rest | drop => exact .inl ⟨⟨hi, hh⟩, .inl rfl⟩
  | feed | close => exact .inl ⟨⟨(Input.isReading_mapReader ..).trans hi, hh⟩, .inl rfl⟩
  | leave | retract | give | owe | noticeFail =>
    exact .inl ⟨⟨hi, fun r h => by cases h⟩, .inl rfl⟩
  | notice name => exact .inl ⟨⟨hi, fun r h => by cases h⟩, .inr ⟨name, rfl⟩⟩
  | discard r rd rd' s _ hi' hn => exact .inr ⟨r, rd, rd', _, hi', hn, rfl⟩
  | discardEnd r rd rd' _ hi' hn => exact .inr ⟨r, rd, rd', _, hi', hn, rfl⟩
  | discardFault r rd rd' f _ hi' hn => exact .inr ⟨r, rd, rd', _, hi', hn, rfl⟩
  | ready _ _ h => exact absurd (h.symm.trans hi) Bool.false_ne_true
  | collect r _ _ _ h | collectEnd r _ _ h | collectFault r _ _ _ h => exact absurd h (hh r)
  -- who writes has no read in progress
  | ask r _ h | askClosed r h | report r _ h =>
    rw [h] at hf
    exact absurd (hf.symm.trans hi) Bool.false_ne_true
  | fail r q _ h hq =>
    rw [h] at hf
    rcases hq with rfl | ⟨b, rfl⟩ <;> exact absurd (hf.symm.trans hi) Bool.false_ne_true

theorem spends_run (hs : Sealed (before ++ rest)) (hd : (requestIds (before ++ rest)).Nodup)
    (hc : ((ofPrompt p).after before).Stale)
    (hn : n + 1 = (questions ((ofPrompt p).acts before)).length) :
    Spends p (supply (before ++ rest)) n (((ofPrompt p).after before).acts rest) := by
  induction rest generalizing before with
  | nil => exact .left
  | cons e rest ih =>
    obtain ⟨hr, hp, -⟩ := kept p hs.left (nodup_left hd)
    rcases (step_turn hr.fits e).stale hr.fits hc with ⟨hc', hnew⟩ |
      ⟨r, rd, rd', found, hi, hx, hnew⟩
    · have hafter : (ofPrompt p).after (before ++ [e]) = (((ofPrompt p).after before).step e).1 :=
        after_append ..
      have hacts : (ofPrompt p).acts (before ++ [e]) =
          (ofPrompt p).acts before ++ (((ofPrompt p).after before).step e).2 := by
        rw [acts_append]
        simp [acts]
      have hq : questions (((ofPrompt p).after before).step e).2 = [] := by
        rcases hnew with hnew | ⟨name, hnew⟩ <;> rw [hnew] <;> rfl
      have hrest := @ih (before ++ [e]) (by rwa [← List.append_cons])
        (by rwa [← List.append_cons]) (by rwa [hafter])
        (by rw [hacts, Roster.questions_of_none hq, hn])
      rw [hafter, ← List.append_cons] at hrest
      rw [acts]
      rcases hnew with hnew | ⟨name, hnew⟩
      · rw [hnew]
        exact hrest
      · rw [hnew, hp.prompt]
        exact .notice name _ hrest
    · have hin := hp.owns (by rw [hi]; simp)
      rw [hi] at hin
      have hspent (hfound : ∀ s, found ≠ .line s) :=
        (spent_run hs hd (by rw [hi]; exact ⟨found, rd', hx, hfound⟩)).2
      cases found with
      | line s =>
        obtain ⟨-, k, hk, htext⟩ := hin.line hx
        obtain rfl : n = k := by omega
        rw [acts, hnew]
        exact .thrown s _ (hs.textAt htext)
      | ended =>
        obtain ⟨hlen, hended⟩ := hin.ended hx
        refine .ended _ ?_ (hspent (by simp))
        rw [hs.supply_ended hended]
        omega
      | undecodable f =>
        obtain ⟨used, hlen, hbooks⟩ := hin
        obtain ⟨l, htake, hne, hf⟩ := Reader.next?_fault hx
        have hl : (supply before).lines[n]? = some l := by
          obtain rfl : n = used.length := by omega
          rw [hbooks.lines, (Reader.take?_line htake hne).1,
            List.getElem?_append_right (Nat.le_refl _), Nat.sub_self]
          rfl
        have hbarren := hspent (by simp)
        rw [acts, hnew] at hbarren ⊢
        exact .failed r.id f l _ (hs.lines_at hl) hf fun a ha =>
          hbarren a (List.mem_append_right _ ha)

/-! ### Who is decided by the line -/

theorem Dropped.undecided_run (h : Dropped es c as id) (hf : c.holder.Fits c.input)
    (hn : (requestIds (es ++ es')).Nodup) (result : Except ConfirmationError Bool) :
    .decided id result ∉ as ++ c.acts es' := by
  have hnew : id ∉ requestIds es' := fun hmem => by
    rw [requestIds, List.filterMap_append] at hn
    exact (List.nodup_append.1 hn).2.2 _ h.made _ hmem rfl
  intro hmem
  rcases List.mem_append.1 hmem with hmem | hmem
  · exact h.undecided result hmem
  · exact gone_acts hf h.gone hnew _ hmem rfl

/-- Nothing is decided by a line before it is there. -/
theorem DecidedBy.late (h : DecidedBy (ofPrompt p) (es ++ es') (supply es).lines.length id b)
    (hs : Sealed (es ++ es')) (hd : (requestIds (es ++ es')).Nodup) :
    .decided id (.ok b) ∈ ((ofPrompt p).after es).acts es' := by
  have hdec := h.decided
  rw [acts_append] at hdec
  rcases List.mem_append.1 hdec with hdec | hdec
  · obtain ⟨-, hp, -⟩ := kept p hs.left (nodup_left hd)
    obtain ⟨k, s, hk, htext, -⟩ := hp.granted id b hdec
    have hk' : (questions ((ofPrompt p).acts (es ++ es')))[k]? = some id := by
      rw [acts_append, questions_append]
      exact getElem?_append_of_some hk
    have hsame := index_unique (kept p hs hd).1.once hk' h.question
    have hlt := textAt_lt htext
    omega
  · exact hdec

theorem not_decidedBy_closed (hs : Sealed (es ++ es')) (hd : (requestIds (es ++ es')).Nodup)
    (hc : ((ofPrompt p).after es).input = .closed) (id : Nat) (b : Bool) :
    ¬ DecidedBy (ofPrompt p) (es ++ es') (supply es).lines.length id b := fun h =>
  (spent_run hs hd (by rw [hc]; trivial)).2 _ (h.late hs hd) trivial

/-- The line that is owed has the number of the last question. -/
theorem Input.Owing.number (h : c.input.Owing) (hp : Pairing p es c as) :
    (supply es).lines.length + 1 = (questions as).length := by
  cases hi : c.input with
  | idle | closed => rw [hi] at h; exact h.elim
  | reading rd =>
    rw [hi] at h
    obtain ⟨used, hlen, hbooks⟩ := hp.books hi
    have hnone : rd.lines = [] := h
    rw [hbooks.lines, hnone, List.append_nil, hlen]

theorem Input.Owing.reading {i : Input} (h : i.Owing) : i.isReading = true := by
  cases i with
  | reading => rfl
  | idle | closed => exact h.elim

/-- Nothing is decided by a line that is owed for a question that was dropped. -/
theorem not_decidedBy_owing (hs : Sealed (es ++ es')) (hd : (requestIds (es ++ es')).Nodup)
    (ho : ((ofPrompt p).after es).input.Owing)
    (hc : ∀ r, ((ofPrompt p).after es).holder ≠ .held r .awaiting) (id : Nat) (b : Bool) :
    ¬ DecidedBy (ofPrompt p) (es ++ es') (supply es).lines.length id b := by
  intro h
  obtain ⟨hr, hp, -⟩ := kept p hs.left (nodup_left hd)
  have hn := ho.number hp
  have howed : Owed es ((ofPrompt p).after es) ((ofPrompt p).acts es) :=
    (Owed.start p).run (Roster.start p) (nodup_left hd)
  obtain ⟨last, hlast, ⟨r, hh, -⟩ | hdropped⟩ := howed ho.reading
  · exact hc r hh
  · have hk : (questions ((ofPrompt p).acts (es ++ es')))[(supply es).lines.length]? =
        some last := by
      rw [acts_append, questions_append]
      refine getElem?_append_of_some ?_
      rw [← hlast, List.getLast?_eq_getElem?, ← hn, Nat.add_sub_cancel]
    obtain rfl : last = id := Option.some.inj (hk.symm.trans h.question)
    have hnot := hdropped.undecided_run hr.fits hd (.ok b)
    rw [← acts_append] at hnot
    exact hnot h.decided

/-! ### The notice -/

/-- What the notice about the request `r` is worth, which was dropped in the phase `q` after the
events `before`. The events `upto` end between that and the notice being out, and `later` come
after them; so the number of the line that is entered next is the number of lines that `upto`
supplied. -/
structure Notice (start : Console) (before upto later : List Event) (r : Request) (q : Phase) :
    Prop where
  /-- Nothing is done before it is out. -/
  shown : start.acts (upto ++ [.written none]) =
    start.acts before ++ [.wrote (start.prompt.notice r.name)]
  /-- The request gets no result. -/
  undecided : ∀ result, .decided r.id result ∉ start.acts (upto ++ later)
  /-- A call that gets no answer but what the request gets never has its tool set to work. -/
  unexecuted : ∀ (β : Type) (registry : Registry) (as : List (Action β)) (call : Nat),
    asks call (Engine.record ∅ registry as) ≠ [] →
    (∀ result ∈ answers call (Engine.record ∅ registry as),
      .decided r.id result ∈ start.acts (upto ++ later)) →
    executions call (Engine.record ∅ registry as) = []
  /-- Who is granted or refused is so for the line of its own question. -/
  lines : ∀ id b, .decided id (.ok b) ∈ start.acts (upto ++ later) →
    ∃ k, DecidedBy start (upto ++ later) k id b
  /-- The next line is owed just if the request waited for a line, and fewer lines than questions
  have come. -/
  owing_iff : (start.after upto).input.Owing ↔ (q = .discarding ∨ q = .awaiting) ∧
    (supply upto).lines.length < (questions (start.acts before)).length
  /-- If it is owed it decides no request, and becomes of it what `Spends` says. -/
  owed : (start.after upto).input.Owing →
    Spends start.prompt (supply (upto ++ later)) (supply upto).lines.length
      ((start.after upto).acts later) ∧
    ∀ id b, ¬ DecidedBy start (upto ++ later) (supply upto).lines.length id b
  /-- If nothing can be read any more it decides no request either. -/
  closed : (start.after upto).input = .closed →
    (∀ a ∈ (start.after upto).acts later, ¬ a.NeedsLine) ∧
    ∀ id b, ¬ DecidedBy start (upto ++ later) (supply upto).lines.length id b
  /-- Else whoever it decides is asked later, and it does decide the request whose question has its
  number, if that is not dropped. -/
  unowed : ¬ (start.after upto).input.Owing → (start.after upto).input ≠ .closed →
    (∀ id b, DecidedBy start (upto ++ later) (supply upto).lines.length id b →
      id ∉ questions (start.acts upto)) ∧
    ∀ text, Proper text (upto ++ later) → move? none (start.after (upto ++ later)) = none →
      ∀ id, (questions (start.acts (upto ++ later)))[(supply upto).lines.length]? = some id →
        .cancel id ∉ upto ++ later →
        (supply upto).lines.length < (supply (upto ++ later)).lines.length →
        ∃ b, DecidedBy start (upto ++ later) (supply upto).lines.length id b

theorem questions_le_lines (hp : Pairing p es c as) (ho : ¬ c.input.Owing)
    (hc : c.input ≠ .closed) : (questions as).length ≤ (supply es).lines.length := by
  have hin := hp.owns hc
  cases hi : c.input with
  | closed => exact absurd hi hc
  | idle rd =>
    rw [hi] at hin
    obtain ⟨used, hlen, hbooks⟩ := hin
    rw [hbooks.lines, List.length_append, hlen]
    exact Nat.le_add_right ..
  | reading rd =>
    rw [hi] at hin ho
    obtain ⟨used, hlen, hbooks⟩ := hin
    have hpos : 0 < rd.lines.length := List.length_pos_iff.2 ho
    rw [hbooks.lines, List.length_append]
    omega

/-- A line decides the request whose question has its number, unless that is dropped. -/
theorem decidedBy_of_settled {text : List UInt8} (h : Proper text es)
    (hrest : move? none ((ofPrompt p).after es) = none) {k : Nat}
    (hk : (questions ((ofPrompt p).acts es))[k]? = some id) (hcancel : .cancel id ∉ es)
    (hlt : k < (supply es).lines.length) : ∃ b, DecidedBy (ofPrompt p) es k id b := by
  obtain ⟨hr, hl⟩ := h.ledger p
  obtain ⟨b, hd⟩ := settled_decided hr hl hrest hk hcancel hlt
  obtain ⟨j, s, hj, hs, hb⟩ := hl.granted id b hd
  obtain rfl := index_unique hr.once hj hk
  exact ⟨b, hd, hk, s, hs, hb⟩

theorem DecidedBy.not_asked {k : Nat} (h : DecidedBy (ofPrompt p) (es ++ es') k id b)
    (hd : (requestIds (es ++ es')).Nodup)
    (hk : (questions ((ofPrompt p).acts es)).length ≤ k) :
    id ∉ questions ((ofPrompt p).acts es) := by
  intro hmem
  obtain ⟨j, hj⟩ := List.getElem?_of_mem hmem
  have hj' : (questions ((ofPrompt p).acts (es ++ es')))[j]? = some id := by
    rw [acts_append, questions_append]
    exact getElem?_append_of_some hj
  have honce : (questions ((ofPrompt p).acts (es ++ es'))).Nodup := ((Roster.start p).run hd).once
  have hsame := index_unique honce hj' h.question
  obtain ⟨hlt, -⟩ := List.getElem?_eq_some_iff.1 hj
  omega

theorem undecided_of_cancelled (hd : (requestIds (before ++ .cancel r.id :: rest)).Nodup)
    (hh : ((ofPrompt p).after before).holder = .held r q) (result : Except ConfirmationError Bool) :
    .decided r.id result ∉ (ofPrompt p).acts (before ++ .cancel r.id :: rest) := by
  have hr : Roster before ((ofPrompt p).after before) ((ofPrompt p).acts before) :=
    (Roster.start p).run (nodup_left hd)
  have ht := cancel_turn ((ofPrompt p).after before) r.id
  rw [List.append_cons] at hd
  have hnot := (dropped_of_held hr hh ht).undecided_run (ht.fits hr.fits) hd result
  rw [List.append_nil] at hnot
  rw [acts_append]
  exact hnot

/-- A line is owed, when the notice is about to be out, just if the request that was dropped waited
for a line, and fewer lines than questions have come. -/
theorem owing_iff (hf : (Holder.held r q).Fits i) (hq : q ≠ .admitted)
    (hi : c.input.isReading = i.isReading) (hp : Pairing p es c as) :
    c.input.Owing ↔ (q = .discarding ∨ q = .awaiting) ∧
      (supply es).lines.length < (questions as).length := by
  constructor
  · intro ho
    have hreading := hi.symm.trans ho.reading
    refine ⟨?_, Nat.lt_of_succ_le (Nat.le_of_eq (ho.number hp))⟩
    cases q with
    | admitted => exact absurd rfl hq
    | discarding => exact .inl rfl
    | awaiting => exact .inr rfl
    | asking | reporting => exact absurd (hf.symm.trans hreading) Bool.false_ne_true
  · rintro ⟨hq, hlt⟩
    have hreading : c.input.isReading = true := by
      rcases hq with rfl | rfl <;> exact hi.trans hf
    cases hc : c.input with
    | idle | closed => rw [hc] at hreading; cases hreading
    | reading rd =>
      obtain ⟨used, hlen, hbooks⟩ := hp.books hc
      rw [hbooks.lines, List.length_append] at hlt
      exact List.eq_nil_of_length_eq_zero (by omega)

/-- In every run, whatever is typed and whichever writes fail, a request that is dropped when it has
the console gets no result, and its call does not run. The line that is entered next after its
notice decides no request if it is owed, or if nothing can be read any more; else it is the answer
to a later question. -/
theorem cancellation_notice (p : Prompt) (before mid later : List Event) (r : Request) (q : Phase)
    (hs : Sealed (before ++ .cancel r.id :: mid ++ later))
    (hd : (requestIds (before ++ .cancel r.id :: mid ++ later)).Nodup)
    (hh : ((ofPrompt p).after before).holder = .held r q) (hq : q ≠ .admitted)
    (hmid : ∀ f, .written f ∉ mid) :
    Notice (ofPrompt p) before (before ++ .cancel r.id :: mid) later r q := by
  have hfits : (Holder.held r q).Fits ((ofPrompt p).after before).input :=
    hh ▸ fits_after (fits_ofPrompt p) before
  have hundecided : ∀ result,
      .decided r.id result ∉ (ofPrompt p).acts (before ++ .cancel r.id :: mid ++ later) := by
    rw [List.append_assoc, List.cons_append] at hd ⊢
    exact undecided_of_cancelled hd hh
  obtain ⟨hholder, hreading, hquiet⟩ := retracted hh hq hmid
  rw [← after_append] at hholder hreading
  have hacts : (ofPrompt p).acts (before ++ .cancel r.id :: mid) = (ofPrompt p).acts before := by
    rw [acts_append, hquiet, List.append_nil]
  generalize before ++ .cancel r.id :: mid = upto at *
  obtain ⟨-, hpairing, -⟩ := kept p hs.left (nodup_left hd)
  have hwaits : ∀ r', ((ofPrompt p).after upto).holder ≠ .held r' .awaiting := fun r' h => by
    rw [hholder] at h
    cases h
  exact {
    shown := by
      rw [acts_append, hacts, acts_of_retracting hholder, hpairing.prompt]
      rfl
    undecided := hundecided
    unexecuted := fun β registry as call hasked hans => by
      refine Engine.unapproved hasked fun h => hundecided (.ok true) (hans _ ?_)
      rw [h]
      exact List.mem_singleton_self _
    lines := fun id b h => by
      obtain ⟨-, hwhole, -⟩ := kept p hs hd
      obtain ⟨k, s, hk, hread, hb⟩ := hwhole.granted id b h
      exact ⟨k, h, hk, s, hread, hb⟩
    owing_iff := by
      rw [← hacts]
      exact owing_iff hfits hq hreading hpairing
    owed := fun ho =>
      ⟨spends_run hs hd ⟨ho.reading, hwaits⟩ (ho.number hpairing),
        not_decidedBy_owing hs hd ho hwaits⟩
    closed := fun hc =>
      ⟨(spent_run hs hd (by rw [hc]; trivial)).2, not_decidedBy_closed hs hd hc⟩
    unowed := fun ho hc =>
      ⟨fun id b h => h.not_asked hd (questions_le_lines hpairing ho hc),
        fun text ht hrest id hk hcancel hlt => decidedBy_of_settled ht hrest hk hcancel hlt⟩ }

/-- A question is dropped while it is being written; the next line consents to the next one. -/
def unaskedDrop : List Event :=
  [.request ⟨0, "rm", ∅⟩, .advance, .advance] ++ .cancel 0 :: [] ++
    [.written none, .request ⟨1, "mv", ∅⟩, .advance, .advance, .written none, .feed [121, 10],
      .advance, .written none]

theorem cancellation_notice_unaskedDrop :
    let before := unaskedDrop.take 3
    let upto := before ++ [.cancel 0]
    let later := unaskedDrop.drop 4
    unaskedDrop = upto ++ later ∧ (supply upto).lines.length = 0 ∧
      Notice (ofPrompt .default) before upto later ⟨0, "rm", ∅⟩ .asking ∧
      DecidedBy (ofPrompt .default) unaskedDrop 0 1 true := by
  intro before upto later
  have hclose : .close ∉ unaskedDrop := by simp [unaskedDrop]
  have hs : Sealed unaskedDrop := fun before rest he =>
    absurd (he ▸ List.mem_append_right _ (List.mem_cons_self ..)) hclose
  have hnotice := cancellation_notice .default before [] later ⟨0, "rm", ∅⟩ .asking hs (by decide)
    rfl (by simp) (by simp)
  refine ⟨rfl, by decide, hnotice, ?_⟩
  have htext : Proper [121, 10] unaskedDrop :=
    ⟨by simp [unaskedDrop], by decide, Text.Utf8.fault?_eq_none_iff.2 (.cons rfl (.cons rfl .nil)),
      ⟨[], rfl⟩, fun before rest he =>
        absurd (he ▸ List.mem_append_right _ (List.mem_cons_self ..)) hclose⟩
  obtain ⟨-, hdecides⟩ := hnotice.unowed id (by decide)
  obtain ⟨b, hb⟩ : ∃ b, DecidedBy (ofPrompt .default) unaskedDrop 0 1 b :=
    hdecides [121, 10] htext (by decide +kernel) 1 rfl (by decide) (by decide)
  obtain ⟨s, hread, haffirms⟩ := hb.line
  have hline : (supply unaskedDrop).textAt 0 = some "y\n" := by decide +kernel
  have htyped : s = "y\n" := Option.some.inj (hread.symm.trans hline)
  have hyes : (ofPrompt .default).prompt.affirms "y\n" = true := by decide +kernel
  have htrue : b = true := by rw [haffirms, htyped, hyes]
  exact htrue ▸ hb

/-- A line that is owed and is no text fails the next request. -/
example :
    let dropped : List Event :=
      [.request ⟨0, "rm", ∅⟩, .advance, .advance, .written none, .cancel 0, .written none]
    let later : List Event :=
      [.feed [255, 10], .request ⟨1, "mv", ∅⟩, .advance, .advance, .advance]
    ((ofPrompt .default).after dropped).input.Owing ∧
      (decisions ((ofPrompt .default).acts (dropped ++ later))).map (fun d => (d.1, d.2.isOk)) =
        [(1, false)] :=
  ⟨rfl, by decide +kernel⟩

end GatedCalls.Console
