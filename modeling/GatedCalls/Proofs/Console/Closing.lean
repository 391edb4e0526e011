import GatedCalls.Proofs.Console.Pairing
import GatedCalls.Proofs.Console.Screen

/-!
# Failing closed

Writes may fail, and the input may end or hold what is no text. A read that found no line is the
last: from then on the input is spent (`Input.Spent`), nothing is read and nothing granted
(`Turn.spent`). A request whose turn comes then fails, and so does one whose question cannot be
written. When the input has ended, nobody is left waiting for it (`settled_closed`).
-/

namespace GatedCalls.Console

/-- No line will be read any more: the input is closed, or its read has ended without a line. -/
def Input.Spent : Input → Prop
  | .idle _ => False
  | .reading rd => ∃ found rd', rd.next? = some (found, rd') ∧ ∀ s, found ≠ .line s
  | .closed => True

/-- A read is started, or what a read found is made use of. -/
def Act.NeedsLine : Act → Prop
  | .asked _ | .discarded _ | .decided _ (.ok _) => True
  | .wrote _ | .decided _ (.error _) => False

/-- What the request that has the console has done. -/
structure Poised (c : Console) (as : List Act) : Prop where
  /-- The outcome that is being written comes from a read that found a line. -/
  idle : ∀ r b, c.holder = .held r (.reporting b) → ∃ rd, c.input = .idle rd
  /-- Its question was on the screen when its read was started. -/
  shown : ∀ r q, c.holder = .held r q → q.isAsked = true →
    [.wrote (c.prompt.question r.name r.args), .asked r.id] <:+: as

variable {c c' : Console} {e : Event} {es es' before rest : List Event} {as new : List Act}
  {p : Prompt} {r : Request} {q : Phase} {id : Nat}

theorem Poised.start (p : Prompt) : Poised (ofPrompt p) [] where
  idle _ _ h := by cases h
  shown _ _ h := by cases h

theorem Poised.turn (h : Poised c as) (ht : Turn c e new c') : Poised c' (as ++ new) where
  idle r b hh := by
    cases ht with
    | request | rest | drop => exact h.idle r b hh
    | feed | close =>
      obtain ⟨rd, hi⟩ := h.idle r b hh
      exact ⟨_, by rw [withInput, hi]; rfl⟩
    | collect r' rd rd' line => exact ⟨rd', rfl⟩
    | _ => cases hh
  shown r q hh hq := by
    rw [ht.prompt]
    have keep (q' : Phase) (hc : c.holder = .held r q') (hq' : q'.isAsked = true) :
        [.wrote (c.prompt.question r.name r.args), .asked r.id] <:+: as ++ new :=
      (h.shown r q' hc hq').trans (List.prefix_append as new).isInfix
    cases ht with
    | ask r' rd hc hi =>
      obtain ⟨rfl, -⟩ := Holder.held.inj hh
      exact (List.suffix_append as _).isInfix
    | request | feed | close | rest | drop => exact keep q hh hq
    | collect r' rd rd' line hc =>
      obtain ⟨rfl, -⟩ := Holder.held.inj hh
      exact keep _ hc rfl
    | give | owe | ready | discard | discardEnd =>
      obtain ⟨-, rfl⟩ := Holder.held.inj hh
      cases hq
    | _ => cases hh

theorem Poised.run (h : Poised c as) (hf : c.holder.Fits c.input) (es : List Event) :
    Poised (c.after es) (as ++ c.acts es) := by
  induction es generalizing c as with
  | nil => simpa [after, acts] using h
  | cons e es ih =>
    have ht := step_turn hf e
    have := ih (h.turn ht) (ht.fits hf)
    rwa [List.append_assoc] at this

/-! ### A read that found no line -/

theorem Input.Spent.feed {i : Input} {bytes : List UInt8} (h : i.Spent)
    (hb : ∀ rd, i = .reading rd → rd.ended = true → bytes = []) : (i.feed bytes).Spent := by
  cases i with
  | idle rd => exact h.elim
  | closed => trivial
  | reading rd =>
    obtain ⟨found, rd', hn, hl⟩ := h
    exact ⟨found, _, Reader.next?_feed hn (hb rd rfl), hl⟩

theorem Input.Spent.close {i : Input} (h : i.Spent) : i.close.Spent := by
  cases i with
  | idle rd => exact h.elim
  | closed => trivial
  | reading rd =>
    obtain ⟨found, rd', hn, hl⟩ := h
    exact ⟨found, _, Reader.next?_close hn, hl⟩

/-- Once the input is spent it stays so, and nothing is done that needs a line. -/
theorem Turn.spent (ht : Turn c e new c') (hp : Poised c as) (h : c.input.Spent)
    (hb : ∀ rd, c.input = .reading rd → rd.ended = true → ∀ bytes, e = .feed bytes → bytes = []) :
    c'.input.Spent ∧ ∀ a ∈ new, ¬ a.NeedsLine := by
  -- a spent input has no line to be discarded or collected
  have found {rd rd' : Reader} {s : String} (hi : c.input = .reading rd)
      (hn : rd.next? = some (.line s, rd')) : False := by
    rw [hi] at h
    obtain ⟨x, _, hx, hl⟩ := h
    obtain ⟨rfl, -⟩ := Prod.mk.inj (Option.some.inj (hn.symm.trans hx))
    exact hl s rfl
  cases ht with
  | feed bytes => exact ⟨h.feed fun rd hi he => hb rd hi he bytes rfl, by simp⟩
  | close => exact ⟨h.close, by simp⟩
  | discard _ _ _ _ _ hi hn | collect _ _ _ _ _ hi hn => exact (found hi hn).elim
  | ask _ _ _ hi => rw [hi] at h; exact h.elim
  | report r b hh =>
    obtain ⟨rd, hi⟩ := hp.idle r b hh
    rw [hi] at h
    exact h.elim
  | discardEnd | discardFault | collectEnd | collectFault =>
    exact ⟨trivial, by simp [Act.NeedsLine]⟩
  | request | rest | drop | leave | retract | give | owe | ready | askClosed | fail | notice
  | noticeFail => exact ⟨h, by simp [Act.NeedsLine]⟩

theorem closed_of_spent (hf : c.holder.Fits c.input) (hh : c.holder = .held r q)
    (hq : q = .discarding ∨ q = .awaiting) (hs : c.input.Spent) :
    (c.step .advance).1.input = .closed := by
  rw [hh] at hf
  cases hi : c.input with
  | idle | closed => rcases hq with rfl | rfl <;> rw [hi] at hf <;> cases hf
  | reading rd =>
    rw [hi] at hs
    obtain ⟨found, rd', hn, hl⟩ := hs
    cases found with
    | line s => exact absurd rfl (hl s)
    | ended | undecodable =>
      rcases hq with rfl | rfl <;>
        simp [step, advance?, hh, discard?, collect?, hi, hn, closeInput, enter, conclude]

/-! ### Results and their causes -/

/-- The request finds out that the input has ended. -/
inductive FindsEnd (c : Console) (r : Request) : Event → Prop
  /-- It has put its question, but nobody can answer. -/
  | closed (h : c.holder = .held r .asking) (hi : c.input = .closed) : FindsEnd c r (.written none)
  /-- The input ends where its line would be. -/
  | ended (rd rd' : Reader) (h : c.holder = .held r .awaiting) (hi : c.input = .reading rd)
    (hn : rd.next? = some (.ended, rd')) : FindsEnd c r .advance

theorem FindsEnd.decided (h : FindsEnd c r e) :
    .decided r.id (.error inputClosed) ∈ (c.step e).2 := by
  cases h with
  | closed h hi => simp [step, written?, h, startRead, hi, conclude, andThen]
  | ended rd rd' h hi hn => simp [step, advance?, h, collect?, hi, hn, conclude]

theorem Turn.decided_ends (ht : Turn c e new c') {result : Except ConfirmationError Bool}
    (hd : .decided id result ∈ new) :
    ∃ b, Ends c e new b ∧ b.request.id = id ∧ b.ending.result? = some result := by
  rcases ht.block_cases with ⟨-, hnone⟩ | ⟨b, -, h⟩
  · exact absurd hd (hnone id result)
  · obtain ⟨rfl, hres⟩ := h.decided_mem_iff.1 hd
    exact ⟨b, h, rfl, hres⟩

/-- In a run every result is the end of a block. -/
theorem decided_ends (hf : c.holder.Fits c.input) {result : Except ConfirmationError Bool}
    (hd : .decided id result ∈ c.acts es) : ∃ before e rest b, es = before ++ e :: rest ∧
      Ends (c.after before) e ((c.after before).step e).2 b ∧ b.request.id = id ∧
      b.ending.result? = some result := by
  obtain ⟨before, e, rest, rfl, hstep⟩ := step_of_mem_acts hd
  obtain ⟨b, hb⟩ := (step_turn (fits_after hf before) e).decided_ends hstep
  exact ⟨before, e, rest, b, rfl, hb⟩

/-! ### What became of each request -/

theorem Turn.stays (ht : Turn c e new c') (hr : r ∈ c.requests) :
    r ∈ c'.requests ∨ (∃ result, .decided r.id result ∈ new) ∨ e = .cancel r.id := by
  -- dropping `id` takes no other request from those that wait
  have kept {id : Nat} (hw : r ∈ c.waiting) :
      r ∈ c.waiting.filter (·.id != id) ∨ Event.cancel id = .cancel r.id := by
    by_cases hid : r.id = id
    · exact .inr (by rw [hid])
    · exact .inl (List.mem_filter.2 ⟨hw, by simpa using hid⟩)
  cases ht with
  | request r' =>
    refine .inl ?_
    show r ∈ c.holder.request?.toList ++ (c.waiting ++ [r'])
    rw [← List.append_assoc]
    exact List.mem_append_left _ hr
  | feed | close | rest => exact .inl hr
  | drop id h =>
    rcases List.mem_append.1 hr with hr | hr
    · exact .inl (List.mem_append_left _ hr)
    · exact (kept hr).imp (List.mem_append_right _) .inr
  | leave r' h | retract r' q h =>
    rw [requests_of_held h] at hr
    rcases List.mem_cons.1 hr with rfl | hr
    · exact .inr (.inr rfl)
    · exact (kept hr).imp_right .inr
  | give r' more h hw =>
    refine .inl ?_
    rw [Console.requests, h, hw] at hr
    exact hr
  | notice _ h | noticeFail _ _ h =>
    refine .inl ?_
    rw [Console.requests, h] at hr
    exact hr
  | owe r' h | ready r' h | discard r' _ _ _ h | discardEnd r' _ _ h | ask r' _ h
  | collect r' _ _ _ h =>
    rw [requests_of_held h] at hr
    exact .inl hr
  | discardFault r' _ _ _ h | collectFault r' _ _ _ h | collectEnd r' _ _ h | fail r' _ _ h =>
    rw [requests_of_held h] at hr
    rcases List.mem_cons.1 hr with rfl | hr
    · exact .inr (.inl ⟨_, List.mem_singleton_self _⟩)
    · exact .inl hr
  | askClosed r' h | report r' _ h =>
    rw [requests_of_held h] at hr
    rcases List.mem_cons.1 hr with rfl | hr
    · exact .inr (.inl ⟨_, List.mem_cons_of_mem _ (List.mem_singleton_self _)⟩)
    · exact .inl hr

/-- A request in flight is still so at the end of a run, or it has a result, or was dropped. -/
theorem fate_of_request (hf : c.holder.Fits c.input) (hr : r ∈ c.requests) (es : List Event) :
    r ∈ (c.after es).requests ∨ (∃ result, .decided r.id result ∈ c.acts es) ∨
      ∃ before rest, es = before ++ .cancel r.id :: rest ∧ r ∈ (c.after before).requests := by
  induction es generalizing c with
  | nil => exact .inl hr
  | cons e es ih =>
    have ht := step_turn hf e
    rcases ht.stays hr with hr' | ⟨result, hd⟩ | rfl
    · rcases ih (ht.fits hf) hr' with h | ⟨result, hd⟩ | ⟨before, rest, rfl, hb⟩
      · exact .inl h
      · exact .inr (.inl ⟨result, List.mem_append_right _ hd⟩)
      · exact .inr (.inr ⟨e :: before, rest, rfl, hb⟩)
    · exact .inr (.inl ⟨result, List.mem_append_left _ hd⟩)
    · exact .inr (.inr ⟨[], es, rfl, hr⟩)

theorem fate_of_made (hf : c.holder.Fits c.input) (hr : r ∈ made es) :
    r ∈ (c.after es).requests ∨ (∃ result, .decided r.id result ∈ c.acts es) ∨
      ∃ before rest, es = before ++ .cancel r.id :: rest ∧ r ∈ (c.after before).requests := by
  obtain ⟨e, he, hmade⟩ := List.mem_filterMap.1 hr
  obtain ⟨before, rest, rfl⟩ := List.append_of_mem he
  obtain rfl : e = .request r := by cases e <;> simp_all [Event.made?]
  have hin : r ∈ ((c.after before).step (.request r)).1.requests := by
    simp [step, requests]
  rw [after_append, acts_append]
  rcases fate_of_request ((step_turn (fits_after hf before) (.request r)).fits
    (fits_after hf before)) hin rest with h | ⟨result, hd⟩ | ⟨mid, last, rfl, hm⟩
  · exact .inl h
  · exact .inr (.inl ⟨result, List.mem_append_right _ (List.mem_append_right _ hd)⟩)
  · refine .inr (.inr ⟨before ++ .request r :: mid, last, by simp, ?_⟩)
    rw [after_append]
    exact hm

/-! ### Coming to rest -/

/-- A console that rests, and whose input has nothing more to come, serves nobody. -/
theorem settled_closed (hf : c.holder.Fits c.input) (hs : move? none c = none)
    (hend : ∀ rd, c.input = .reading rd → rd.next? ≠ none) : c.requests = [] := by
  cases hh : c.holder with
  | free =>
    have ha := (Option.or_eq_none_iff.1 hs).2
    cases hw : c.waiting with
    | nil => simp [requests, hh, hw, Holder.request?]
    | cons r more => simp [advance?, hh, hw] at ha
  | retracting name =>
    have hw := (Option.or_eq_none_iff.1 hs).1
    simp [written?, hh] at hw
  | held r q =>
    rw [hh] at hf
    rcases settled_cases hs hh with ⟨rfl, hd⟩ | ⟨rfl, hd⟩ <;>
    · cases hi : c.input with
      | idle | closed => rw [hi] at hf; cases hf
      | reading rd =>
        simp only [discard?, collect?, hi, Option.map_eq_none_iff] at hd
        exact absurd hd (hend rd hi)

/-! ### Runs -/

theorem kept (p : Prompt) (hs : Sealed es) (hd : (requestIds es).Nodup) :
    Roster es ((ofPrompt p).after es) ((ofPrompt p).acts es) ∧
      Pairing p es ((ofPrompt p).after es) ((ofPrompt p).acts es) ∧
      Poised ((ofPrompt p).after es) ((ofPrompt p).acts es) :=
  ⟨(Roster.start p).run hd, (Pairing.start p).run (Roster.start p) hs hd,
    (Poised.start p).run (fits_ofPrompt p) es⟩

theorem closed_after (hf : c.holder.Fits c.input) (h : c.input = .closed) (es : List Event) :
    (c.after es).input = .closed := by
  induction es generalizing c with
  | nil => exact h
  | cons e es ih =>
    have ht := step_turn hf e
    exact ih (ht.fits hf) (ht.closed h).1

theorem spent_run (hs : Sealed (before ++ rest)) (hd : (requestIds (before ++ rest)).Nodup)
    (h : ((ofPrompt p).after before).input.Spent) :
    ((ofPrompt p).after (before ++ rest)).input.Spent ∧
      ∀ a ∈ ((ofPrompt p).after before).acts rest, ¬ a.NeedsLine := by
  induction rest generalizing before with
  | nil => simpa [acts] using h
  | cons e rest ih =>
    rw [List.append_cons] at hs hd ⊢
    obtain ⟨hr, hp, hpoised⟩ := kept p hs.left.left (nodup_left (nodup_left hd))
    obtain ⟨hspent, hnew⟩ := (step_turn hr.fits e).spent hpoised h fun rd hi he bytes hfeed => by
      subst hfeed
      obtain ⟨used, -, hbooks⟩ := hp.books hi
      exact hs.left.feed (hbooks.ended ▸ he)
    obtain ⟨hend, hrest⟩ := ih hs hd (by rw [after_append]; exact hspent)
    refine ⟨hend, fun a ha => ?_⟩
    rcases List.mem_append.1 ha with ha | ha
    · exact hnew a ha
    · refine hrest a ?_
      rw [after_append]
      exact ha

/-- How a console fares, be its writes and its input as they may, when it was asked and fed by the
events `es`. -/
structure FailsClosed (start : Console) (es : List Event) : Prop where
  /-- A request that is granted or refused had its question and its outcome on the screen, and is
  granted just if the line of its question affirms it. -/
  granted : ∀ id b, .decided id (.ok b) ∈ start.acts es → ∃ r ∈ made es, r.id = id ∧
    [.wrote (start.prompt.question r.name r.args), .asked id] <:+: start.acts es ∧
    [.wrote (start.prompt.outcome b), .decided id (.ok b)] <:+: start.acts es ∧
    ∃ k s, (questions (start.acts es))[k]? = some id ∧ (supply es).textAt k = some s ∧
      b = start.prompt.affirms s
  /-- Once a read has found no line, none is found any more, and nothing is granted or refused. -/
  for_good : ∀ before rest, es = before ++ rest → (start.after before).input.Spent →
    (start.after es).input.Spent ∧
      ∃ more, start.acts es = start.acts before ++ more ∧ ∀ a ∈ more, ¬ a.NeedsLine
  /-- Whoever waits for such a read closes the input for good. -/
  closes : ∀ before rest r q, es = before ++ .advance :: rest →
    (start.after before).holder = .held r q → (q = .discarding ∨ q = .awaiting) →
    (start.after before).input.Spent → (start.after es).input = .closed
  /-- A request whose question cannot be written fails, and no read is started for it. -/
  unwritten : ∀ before f rest r, es = before ++ .written (some f) :: rest →
    (start.after before).holder = .held r .asking →
    .decided r.id (.error (.io f)) ∈ start.acts es ∧ r.id ∉ questions (start.acts es) ∧
      ((start.after before).step (.written (some f))).1.input = (start.after before).input
  /-- Nobody is told that the input has ended but those that find it out, and all of them are. -/
  exhausted : ∀ id, .decided id (.error inputClosed) ∈ start.acts es ↔
    ∃ before e rest r, es = before ++ e :: rest ∧ FindsEnd (start.after before) r e ∧ r.id = id
  /-- Any other failure is that of a write, or there is a line that cannot be made out. -/
  failures : ∀ id error, .decided id (.error error) ∈ start.acts es → error = inputClosed ∨
    (∃ f, .written (some f) ∈ es ∧ error = .io f) ∨
    (∃ f, error = undecodableInput f) ∧ ∃ l ∈ (supply es).lines, ¬ Text.Utf8.Valid l
  /-- It does not go on by itself for ever, and does not stop before it rests. -/
  halts : ∀ more, (start.after es).Goes more → more.length ≤ (start.after es).rank ∧
    (move? none (start.after (es ++ more)) = none ∨ ∀ f, ∃ e, (e = .advance ∨ e = .written f) ∧
      (start.after (es ++ more)).Goes [e])
  /-- When it rests, and the input has ended or is spent, every request has a result or was dropped
  before it had one. -/
  resolved : move? none (start.after es) = none →
    (.close ∈ es ∨ (start.after es).input.Spent) →
    (start.after es).requests = [] ∧
      ∀ r ∈ made es, (∃ result, .decided r.id result ∈ start.acts es) ∨
        ∃ before rest, es = before ++ .cancel r.id :: rest ∧ r ∈ (start.after before).requests

theorem granted_run (hs : Sealed es) (hd : (requestIds es).Nodup) {b : Bool}
    (hdec : .decided id (.ok b) ∈ (ofPrompt p).acts es) : ∃ r ∈ made es, r.id = id ∧
      [.wrote (p.question r.name r.args), .asked id] <:+: (ofPrompt p).acts es ∧
      [.wrote (p.outcome b), .decided id (.ok b)] <:+: (ofPrompt p).acts es := by
  obtain ⟨before, e, rest, blk, rfl, hends, hid, hres⟩ := decided_ends (fits_ofPrompt p) hdec
  obtain ⟨-, hp, hpoised⟩ := kept p hs.left (nodup_left hd)
  have hacts : (ofPrompt p).acts (before ++ e :: rest) = (ofPrompt p).acts before ++
      ((((ofPrompt p).after before).step e).2 ++
        (((ofPrompt p).after before).step e).1.acts rest) := acts_append _ _
  have hmade : ∀ r ∈ ((ofPrompt p).after before).requests, r ∈ made (before ++ e :: rest) := by
    intro r hr
    have hbefore := (blocks_in_order (fits_ofPrompt p) before).subset (List.mem_append_right _ hr)
    rw [made, List.filterMap_append]
    exact List.mem_append_left _ hbefore
  rw [hacts]
  generalize (((ofPrompt p).after before).step e).2 = new at hends
  cases hends with
  | decided r b' h =>
    obtain rfl : b' = b := by simpa [Ending.result?] using hres
    subst hid
    rw [hp.prompt]
    have hshown := hpoised.shown r _ h rfl
    rw [hp.prompt] at hshown
    refine ⟨r, hmade r (mem_requests_of_held h), rfl, ?_, ?_⟩
    · exact hshown.trans (List.prefix_append _ _).isInfix
    · exact List.infix_append' ..
  | _ => cases hres

/-- A failed question leaves its request without a read, and the input as it was. -/
theorem unwritten_run {f : String} (hd : (requestIds (before ++ .written (some f) :: rest)).Nodup)
    (hh : ((ofPrompt p).after before).holder = .held r .asking) :
    .decided r.id (.error (.io f)) ∈ (ofPrompt p).acts (before ++ .written (some f) :: rest) ∧
      r.id ∉ questions ((ofPrompt p).acts (before ++ .written (some f) :: rest)) ∧
      (((ofPrompt p).after before).step (.written (some f))).1.input =
        ((ofPrompt p).after before).input := by
  have hr : Roster before ((ofPrompt p).after before) ((ofPrompt p).acts before) :=
    (Roster.start p).run (nodup_left hd)
  have hstep : ((ofPrompt p).after before).step (.written (some f)) =
      (((ofPrompt p).after before).release, [.decided r.id (.error (.io f))]) := by
    simp [step, written?, hh, conclude, release]
  have hacts : (ofPrompt p).acts (before ++ .written (some f) :: rest) = (ofPrompt p).acts before ++
      (.decided r.id (.error (.io f)) :: ((ofPrompt p).after before).release.acts rest) := by
    rw [acts_append, acts, hstep]
    rfl
  -- the request has its result, so nothing is asked in its name again
  have hgone : ∀ a ∈ ((ofPrompt p).after before).release.acts rest, ¬ a.Concerns r.id := by
    refine gone_acts trivial (fun r' hr' => hr.waits_ne hh hr') fun hmem => ?_
    rw [requestIds, List.filterMap_append] at hd
    exact (List.nodup_append.1 hd).2.2 _ (hr.known_held hh) _ hmem rfl
  refine ⟨?_, fun hq => ?_, by rw [hstep]; rfl⟩
  · rw [hacts]
    exact List.mem_append_right _ (List.mem_cons_self ..)
  · rw [hacts, questions_append] at hq
    rcases List.mem_append.1 hq with hq | hq
    · exact hr.unasked r _ hh rfl hq
    · obtain ⟨a, ha, hid⟩ := List.mem_filterMap.1 hq
      cases a with
      | asked id =>
        obtain rfl := Option.some.inj hid
        exact hgone (.asked r.id) (by simpa using ha) rfl
      | _ => cases hid

theorem failures_run (hs : Sealed es) (hd : (requestIds es).Nodup) {error : ConfirmationError}
    (hdec : .decided id (.error error) ∈ (ofPrompt p).acts es) :
    (∃ before e rest r, es = before ++ e :: rest ∧ FindsEnd ((ofPrompt p).after before) r e ∧
      r.id = id ∧ error = inputClosed) ∨
    (∃ f, .written (some f) ∈ es ∧ error = .io f) ∨
    (∃ f, error = undecodableInput f) ∧ ∃ l ∈ (supply es).lines, ¬ Text.Utf8.Valid l := by
  obtain ⟨before, e, rest, blk, rfl, hends, hid, hres⟩ := decided_ends (fits_ofPrompt p) hdec
  obtain ⟨-, hp, -⟩ := kept p hs.left (nodup_left hd)
  generalize (((ofPrompt p).after before).step e).2 = new at hends
  cases hends with
  | closed r h hi =>
    obtain rfl : inputClosed = error := by simpa [Ending.result?] using hres
    exact .inl ⟨before, _, rest, r, rfl, .closed h hi, hid, rfl⟩
  | ended r rd rd' h hi hn =>
    obtain rfl : inputClosed = error := by simpa [Ending.result?] using hres
    exact .inl ⟨before, _, rest, r, rfl, .ended rd rd' h hi hn, hid, rfl⟩
  | garbled r q rd rd' f h hq hi hn =>
    obtain rfl : undecodableInput f = error := by simpa [Ending.result?] using hres
    obtain ⟨used, -, hbooks⟩ := hp.books hi
    obtain ⟨l, hl, hbad⟩ := Reader.next?_undecodable hn
    have hmem : l ∈ (supply before).lines := hbooks.lines ▸ List.mem_append_right _ hl
    exact .inr (.inr ⟨⟨f, rfl⟩, l, hs.lines_prefix.subset hmem, hbad⟩)
  | unwritten r q f h hq =>
    obtain rfl : .io f = error := by simpa [Ending.result?] using hres
    exact .inr (.inl ⟨f, by simp, rfl⟩)
  | decided | dropped => cases hres

theorem resolved_run (hs : Sealed es) (hd : (requestIds es).Nodup)
    (hrest : move? none ((ofPrompt p).after es) = none)
    (hend : .close ∈ es ∨ ((ofPrompt p).after es).input.Spent) :
    ((ofPrompt p).after es).requests = [] := by
  obtain ⟨hr, hp, -⟩ := kept p hs hd
  refine settled_closed hr.fits hrest fun rd hi hn => ?_
  rcases hend with hclose | hspent
  · obtain ⟨used, -, hbooks⟩ := hp.books hi
    have hended := hbooks.ended.trans (ended_of_close hclose)
    rw [(Reader.take?_none (Option.map_eq_none_iff.1 hn)).2] at hended
    cases hended
  · rw [hi] at hspent
    obtain ⟨found, rd', hfound, -⟩ := hspent
    rw [hn] at hfound
    cases hfound

/-- In every run, whatever is typed and whichever writes fail, a console grants a request only for
its own line, and when the input has ended it leaves none without a result. -/
theorem fails_closed (p : Prompt) (es : List Event) (hs : Sealed es) (hd : (requestIds es).Nodup) :
    FailsClosed (ofPrompt p) es := by
  obtain ⟨hroster, hpairing, -⟩ := kept p hs hd
  refine ⟨fun id b hdec => ?_, ?_, ?_, ?_, fun id => ⟨fun hdec => ?_, ?_⟩, fun id error hdec => ?_,
    fun more hmore => ⟨hmore.length_le, ?_⟩, fun hrest hend => ?_⟩
  · obtain ⟨r, hmade, hid, hasked, htold⟩ := granted_run hs hd hdec
    exact ⟨r, hmade, hid, hasked, htold, hpairing.granted id b hdec⟩
  · rintro before rest rfl hspent
    obtain ⟨hstill, hbarren⟩ := spent_run hs hd hspent
    exact ⟨hstill, _, acts_append .., hbarren⟩
  · rintro before rest r q rfl hh hq hspent
    have hf := fits_after (fits_ofPrompt p) before
    rw [after_append]
    exact closed_after ((step_turn hf _).fits hf) (closed_of_spent hf hh hq hspent) rest
  · rintro before f rest r rfl hh
    exact unwritten_run hd hh
  · rcases failures_run hs hd hdec with ⟨before, e, rest, r, he, hfinds, hid, -⟩ | ⟨f, -, hf⟩ |
      ⟨⟨f, hf⟩, -⟩
    · exact ⟨before, e, rest, r, he, hfinds, hid⟩
    · cases hf
    · cases hf
  · rintro ⟨before, e, rest, r, rfl, hfinds, rfl⟩
    rw [acts_append]
    exact List.mem_append_right _ (List.mem_append_left _ hfinds.decided)
  · refine (failures_run hs hd hdec).imp_left fun hend => ?_
    obtain ⟨-, -, -, -, -, -, -, herror⟩ := hend
    exact herror
  · exact (Decidable.em _).imp_right goes_of_move?
  · have hnone := resolved_run hs hd hrest hend
    refine ⟨hnone, fun r hr => ?_⟩
    rcases fate_of_made (fits_ofPrompt p) hr with hin | hfate
    · rw [hnone] at hin
      cases hin
    · exact hfate

/-- Four requests: the question of the first cannot be written, the second is granted, the third
waits when the input ends, and the fourth comes after that. -/
def lastLine : List Event :=
  [.request ⟨0, "rm", ∅⟩, .request ⟨1, "mv", ∅⟩, .request ⟨2, "cp", ∅⟩, .request ⟨3, "ls", ∅⟩,
    .advance, .advance, .written (some "broken pipe"),
    .advance, .advance, .written none, .feed [121, 10], .advance, .written none,
    .advance, .advance, .written none] ++
  .close :: [.advance, .advance, .advance, .written none]

theorem fails_closed_lastLine : Sealed lastLine ∧ (requestIds lastLine).Nodup ∧
    FailsClosed (ofPrompt .default) lastLine ∧ ((ofPrompt .default).after lastLine).requests = [] ∧
    ∃ result, .decided 3 result ∈ (ofPrompt .default).acts lastLine := by
  have hs : Sealed lastLine := .of_close (by simp) (by simp)
  have hd : (requestIds lastLine).Nodup := by decide
  have h := fails_closed .default lastLine hs hd
  obtain ⟨hnone, hmade⟩ := h.resolved (by decide +kernel) (.inl (by simp [lastLine]))
  refine ⟨hs, hd, h, hnone, ?_⟩
  rcases hmade ⟨3, "ls", ∅⟩ (by simp [lastLine, made, Event.made?]) with hd | ⟨before, rest, he, -⟩
  · exact hd
  · have hmem : .cancel 3 ∈ lastLine := he ▸ List.mem_append_right _ (List.mem_cons_self ..)
    simp [lastLine] at hmem

end GatedCalls.Console
