import GatedCalls.Proofs.Dispatch.Story

/-!
# Gated tools run only when they were approved

What a run does for one call: it may ask the handler (`asks`), be answered (`answers`) and set the
tool to work (`executions`). All three can be read off the story of the call, so it is enough to
look at stories. When a tool is set to work, the story before is one of `Entry.Clear`; after that
the call is `Standing.Spent`, and asks and executes nothing more. A call that is over shows nothing
at all.
-/

namespace GatedCalls

variable {β : Type}

/-- Whether the handler is asked on behalf of the call. -/
def Effect.asks (id : Nat) : Effect β → Bool
  | .asked i _ _ _ => i == id
  | _ => false

/-- Whether the tool of the call is set to work. -/
def Effect.executes (id : Nat) : Effect β → Bool
  | .ran i _ _ | .forwarded i _ _ _ => i == id
  | _ => false

namespace Moment

/-- A caller starts the call `id` of the tool `name`, which is `entry`. -/
structure Starts (m : Moment β) (id : Nat) (name : String) (args : Args) (entry : Entry β) :
    Prop where
  action : m.action = .invoke name args ∨
    ∃ v, m.action = .invokeValue name v ∧ v.asArgs? = some args
  number : m.engine.next = id
  found : m.engine.lookup name = .ok entry

/-- The handler that the call waits for answers. -/
structure Answers (m : Moment β) (id : Nat) (result : Except ConfirmationError Bool) : Prop where
  action : m.action = .answer id result
  awaited : m.engine.awaitsAnswer id = true

/-- The caller gives the call up while it is suspended. -/
structure Cancels (m : Moment β) (id : Nat) : Prop where
  action : m.action = .cancel id
  suspended : ∃ c, m.engine.call? id = some c ∧ c.stage.isSuspended = true

/-- The answer that the call waits for. -/
def answer? (m : Moment β) (id : Nat) : Option (Except ConfirmationError Bool) :=
  match m.action with
  | .answer i result => if i = id ∧ m.engine.awaitsAnswer id then some result else none
  | _ => none

end Moment

/-- The questions that a run asks on behalf of the call. -/
def asks (id : Nat) (ms : List (Moment β)) : List (Effect β) :=
  (ms.flatMap Moment.effects).filter (Effect.asks id)

/-- The times a run sets the tool of the call to work. -/
def executions (id : Nat) (ms : List (Moment β)) : List (Effect β) :=
  (ms.flatMap Moment.effects).filter (Effect.executes id)

/-- The answers that reach the call. -/
def answers (id : Nat) (ms : List (Moment β)) : List (Except ConfirmationError Bool) :=
  ms.filterMap (·.answer? id)

/-- In a run of which `before` is the part so far, the handler was asked once on behalf of the call,
with the name and the arguments; it answered after that, once, and that the tool may run. -/
def Approved (run before : List (Moment β)) (id : Nat) (name : String) (args : Args) : Prop :=
  ∃ handler first m rest, before = first ++ m :: rest ∧ m.Answers id (.ok true) ∧
    asks id first = [.asked id handler name args] ∧ asks id run = [.asked id handler name args] ∧
    answers id run = [.ok true]

/-! ### Reading a story -/

namespace Note

def ask? (id : Nat) : Note β → Option (Effect β)
  | .asked h name args => some (.asked id h name args)
  | _ => none

def execution? : Note β → Option (Effect β)
  | .executed x => some x
  | _ => none

def answer? : Note β → Option (Except ConfirmationError Bool)
  | .answered result => some result
  | _ => none

end Note

variable {id : Nat} {m : Moment β} {ms : List (Moment β)} {r : Registry} {e : Engine β}
  {c : Call β} {s : List (Note β)} {x y : Standing β} {n : Note β}

namespace Effect

theorem ask?_note? (x : Effect β) :
    (x.note? id).bind (Note.ask? id) = Option.guard (asks id) x := by
  cases x with
  | emitted event =>
    by_cases h : event.call = id <;> simp [note?, Note.ask?, asks, Option.guard, h]
  | asked i | ran i | forwarded i | returned i =>
    by_cases h : i = id <;> simp [note?, Note.ask?, asks, Option.guard, h]
  | _ => rfl

theorem execution?_note? (x : Effect β) :
    (x.note? id).bind Note.execution? = Option.guard (executes id) x := by
  cases x with
  | emitted event =>
    by_cases h : event.call = id <;> simp [note?, Note.execution?, executes, Option.guard, h]
  | asked i | ran i | forwarded i | returned i =>
    by_cases h : i = id <;> simp [note?, Note.execution?, executes, Option.guard, h]
  | _ => rfl

theorem answer?_note? (x : Effect β) : (x.note? id).bind Note.answer? = none := by
  cases x with
  | emitted event => by_cases h : event.call = id <;> simp [note?, Note.answer?, h]
  | asked i | ran i | forwarded i | returned i =>
    by_cases h : i = id <;> simp [note?, Note.answer?, h]
  | _ => rfl

end Effect

namespace Moment

theorem mem_callNote {name : String} {args : Args} (h : n ∈ e.callNote id name args) :
    ∃ entry, n = .called name args entry ∧ e.next = id ∧ e.lookup name = .ok entry := by
  unfold Engine.callNote at h
  split at h
  · rename_i entry hl
    split at h
    · rename_i hid
      exact ⟨entry, List.mem_singleton.1 h, hid, hl⟩
    · cases h
  · cases h

theorem mem_given (h : n ∈ m.given id) :
    (∃ name args entry, n = .called name args entry ∧ m.Starts id name args entry) ∨
    (∃ result, n = .answered result ∧ m.Answers id result) ∨
    (∃ result, n = .finished result) ∨ n = .cancelled := by
  unfold given at h
  split at h
  · rename_i name args ha
    obtain ⟨entry, rfl, hid, hl⟩ := mem_callNote h
    exact .inl ⟨name, args, entry, rfl, .inl ha, hid, hl⟩
  · rename_i name v ha
    split at h
    · rename_i args hv
      obtain ⟨entry, rfl, hid, hl⟩ := mem_callNote h
      exact .inl ⟨name, args, entry, rfl, .inr ⟨v, ha, hv⟩, hid, hl⟩
    · cases h
  · rename_i i result ha
    split at h
    · rename_i hw
      obtain ⟨rfl, hw⟩ := hw
      exact .inr (.inl ⟨result, List.mem_singleton.1 h, ha, hw⟩)
    · cases h
  · split at h
    · exact .inr (.inr (.inl ⟨_, List.mem_singleton.1 h⟩))
    · cases h
  · split at h
    · exact .inr (.inr (.inl ⟨_, List.mem_singleton.1 h⟩))
    · cases h
  · split at h
    · exact .inr (.inr (.inr (List.mem_singleton.1 h)))
    · cases h
  · cases h

theorem given_of_answer {i : Nat} {result : Except ConfirmationError Bool}
    (h : m.action = .answer i result) :
    m.given id = if i = id ∧ m.engine.awaitsAnswer id then [.answered result] else [] := by
  unfold given
  rw [h]

theorem effects_of_answer {i : Nat} {result : Except ConfirmationError Bool}
    (h : m.action = .answer i result) : m.effects = [] := by
  unfold effects outcome
  rw [h]
  rfl

theorem answers_notes : (m.notes id).filterMap Note.answer? = (m.answer? id).toList := by
  have hx : (m.effects.filterMap (Effect.note? id)).filterMap Note.answer? = [] := by
    rw [List.filterMap_filterMap]
    exact List.filterMap_eq_nil_iff.2 fun x _ => Effect.answer?_note? x
  rw [notes, List.filterMap_append, hx, List.append_nil]
  by_cases ha : ∃ i result, m.action = .answer i result
  · obtain ⟨i, result, ha⟩ := ha
    rw [given_of_answer ha, answer?, ha]
    dsimp only
    split <;> rfl
  · have hn : m.answer? id = none := by
      unfold answer?
      split
      · rename_i i result h
        exact absurd ⟨i, result, h⟩ ha
      · rfl
    rw [hn]
    refine List.filterMap_eq_nil_iff.2 fun n hn => ?_
    rcases mem_given hn with ⟨_, _, _, rfl, _⟩ | ⟨result, rfl, h⟩ | ⟨_, rfl⟩ | rfl
    · rfl
    · exact absurd ⟨id, result, h.action⟩ ha
    · rfl
    · rfl

theorem notes_of_answered {result : Except ConfirmationError Bool}
    (h : .answered result ∈ m.notes id) :
    m.Answers id result ∧ m.notes id = [.answered result] := by
  have hg : .answered result ∈ m.given id := by
    rcases List.mem_append.1 h with h | h
    · exact h
    · obtain ⟨x, -, hx⟩ := List.mem_filterMap.1 h
      cases x <;> simp [Effect.note?] at hx
  rcases mem_given hg with ⟨_, _, _, h', _⟩ | ⟨_, h', ha⟩ | ⟨_, h'⟩ | h' <;> cases h'
  refine ⟨ha, ?_⟩
  rw [notes, effects_of_answer ha.action, given_of_answer ha.action, if_pos ⟨rfl, ha.awaited⟩]
  rfl

theorem starts_of_called {name : String} {args : Args} {entry : Entry β}
    (h : .called name args entry ∈ m.notes id) : m.Starts id name args entry := by
  rcases List.mem_append.1 h with h | h
  · rcases mem_given h with ⟨_, _, _, h', hs⟩ | ⟨_, h', _⟩ | ⟨_, h'⟩ | h' <;> cases h'
    exact hs
  · obtain ⟨x, -, hx⟩ := List.mem_filterMap.1 h
    cases x <;> simp [Effect.note?] at hx

theorem Cancels.notes (h : m.Cancels id) : .cancelled ∈ m.notes id := by
  obtain ⟨c, hc, hst⟩ := h.suspended
  refine List.mem_append_left _ ?_
  unfold given
  rw [h.action]
  simp [hc, hst]

end Moment

/-- What a run shows of the call, read by a function that takes nothing from what comes from
outside. -/
theorem shown_story {α : Type} {f : Note β → Option α} {g : Effect β → Option α}
    (hgiven : ∀ m : Moment β, ∀ n ∈ m.given id, f n = none)
    (hshown : ∀ z : Effect β, (z.note? id).bind f = g z) :
    (story id ms).filterMap f = (ms.flatMap Moment.effects).filterMap g := by
  have hnotes (m : Moment β) : (m.notes id).filterMap f = m.effects.filterMap g := by
    rw [Moment.notes, List.filterMap_append, List.filterMap_eq_nil_iff.2 (hgiven m),
      List.nil_append, List.filterMap_filterMap]
    exact congrArg (List.filterMap · _) (funext hshown)
  simp only [story, List.filterMap_flatMap, hnotes]

theorem asks_story : asks id ms = (story id ms).filterMap (Note.ask? id) := by
  rw [asks, ← List.filterMap_eq_filter]
  refine (shown_story (fun m n hn => ?_) Effect.ask?_note?).symm
  rcases Moment.mem_given hn with ⟨_, _, _, rfl, _⟩ | ⟨_, rfl, _⟩ | ⟨_, rfl⟩ | rfl <;> rfl

theorem executions_story : executions id ms = (story id ms).filterMap Note.execution? := by
  rw [executions, ← List.filterMap_eq_filter]
  refine (shown_story (fun m n hn => ?_) Effect.execution?_note?).symm
  rcases Moment.mem_given hn with ⟨_, _, _, rfl, _⟩ | ⟨_, rfl, _⟩ | ⟨_, rfl⟩ | rfl <;> rfl

/-- What reaches the call from outside in a run, read by a function that takes at most one thing
from each step. -/
theorem given_story {α : Type} {f : Note β → Option α} {g : Moment β → Option α}
    (h : ∀ m : Moment β, (m.notes id).filterMap f = (g m).toList) :
    (story id ms).filterMap f = ms.filterMap g := by
  unfold story
  induction ms with
  | nil => rfl
  | cons m ms ih =>
    rw [List.flatMap_cons, List.filterMap_append, h, ih, List.filterMap_cons]
    cases g m <;> rfl

theorem answers_story : answers id ms = (story id ms).filterMap Note.answer? :=
  (given_story fun _ => Moment.answers_notes).symm

theorem story_split {s₁ s₂ : List (Note β)} (h : story id ms = s₁ ++ n :: s₂) :
    ∃ before m after n₁ n₂, ms = before ++ m :: after ∧ m.notes id = n₁ ++ n :: n₂ ∧
      s₁ = story id before ++ n₁ ∧ s₂ = n₂ ++ story id after := by
  induction ms generalizing s₁ with
  | nil => simp [story] at h
  | cons m ms ih =>
    have h : m.notes id ++ story id ms = s₁ ++ n :: s₂ := h
    rcases List.append_eq_append_iff.1 h with ⟨t, rfl, ht⟩ | ⟨t, hm, ht⟩
    · obtain ⟨before, m', after, n₁, n₂, rfl, hn, rfl, rfl⟩ := ih ht
      exact ⟨m :: before, m', after, n₁, n₂, rfl, hn, (List.append_assoc ..).symm, rfl⟩
    · cases t with
      | nil =>
        obtain ⟨before, m', after, n₁, n₂, rfl, hn, hs₁, rfl⟩ :=
          ih (show story id ms = [] ++ n :: s₂ by simpa using ht.symm)
        obtain ⟨hb, rfl⟩ := List.append_eq_nil_iff.1 hs₁.symm
        refine ⟨m :: before, m', after, [], n₂, rfl, hn, ?_, rfl⟩
        show s₁ = (m.notes id ++ story id before) ++ []
        rw [hb, hm]
        simp
      | cons a t =>
        obtain ⟨rfl, rfl⟩ := List.cons.inj ht
        exact ⟨[], m, ms, s₁, t, rfl, hm, rfl, rfl⟩

/-! ### Before the tool is set to work -/

namespace Entry.Clear

variable {b : Entry β} {args : Args}

theorem executions (h : b.Clear args s) : s.filterMap Note.execution? = [] := by
  cases h <;> rfl

theorem called (h : b.Clear args s) : ∃ t, s = .called b.name args b :: t := by
  cases h
  · exact ⟨_, rfl⟩
  · exact ⟨_, rfl⟩

theorem asks (h : b.Clear args s) (hg : b.gated = false) : s.filterMap (Note.ask? id) = [] := by
  cases h with
  | ungated => rfl
  | granted h' => rw [hg] at h'; cases h'

theorem not_cancelled (h : b.Clear args s) : .cancelled ∉ s := by
  cases h <;> simp [requested, opening, answered, asked, presented]

theorem answered (h : b.Clear args s) (hg : b.gated = true) :
    ∃ handler, s = b.asked args handler ++ .answered (.ok true) ::
      [.told b.name .confirmationGranted] := by
  cases h with
  | ungated h' => rw [hg] at h'; cases h'
  | granted _ handler => exact ⟨handler, by simp [Entry.answered]⟩

end Entry.Clear

/-! ### After the tool was set to work -/

/-- Whether the tool of the call was set to work, or never will be. -/
def Standing.Spent : Standing β → Prop
  | .fresh => False
  | .active c => c.stage = .running ∨ ∃ result, c.stage = .ended result
  | .over => True

/-- Whether the note is of the kind that is shown after the tool was set to work. -/
def Note.isLate : Note β → Bool
  | .told .. | .finished _ | .returned _ | .cancelled => true
  | .called .. | .asked .. | .answered _ | .executed _ => false

theorem Move.spent {ns : List (Note β)} (hm : Move id r x ns y) (hx : x.Spent) :
    y.Spent ∧ ∀ n ∈ ns, n.isLate = true := by
  cases hm with
  | rest => exact ⟨hx, by simp⟩
  | spend | begin | refuse => exact hx.elim
  | finish c result h => exact ⟨.inr ⟨result, rfl⟩, by simp [Note.isLate]⟩
  | complete c output h => exact ⟨trivial, by simp [Note.isLate]⟩
  | «break» c err h => exact ⟨trivial, by simp [Note.isLate]⟩
  | cancel c h => exact ⟨trivial, by simp [Note.isLate]⟩
  | request c h | miss c h | present c _ h | ask c _ h | answer c _ _ h | grant c h | decline c h
  | fail c _ h | execute c h | choose c h =>
    exfalso
    rcases hx with hx | ⟨result, hx⟩ <;> rw [hx] at h <;> simp at h

theorem Engine.story_spent (hs : e.Sound) (hx : (e.standing id).Spent) (as : List (Action β)) :
    ∀ n ∈ story id (e.record r as), n.isLate = true := by
  induction as generalizing e r with
  | nil => intro n hn; cases hn
  | cons a rest ih =>
    obtain ⟨hy, hl⟩ := (step_move (r := r) hs a).spent hx
    intro n hn
    rcases List.mem_append.1 hn with hn | hn
    · exact hl n hn
    · exact ih (hs.step a) hy n hn

theorem Engine.story_over (hs : e.Sound) (hx : e.standing id = .over) (as : List (Action β)) :
    story id (e.record r as) = [] := by
  induction as generalizing e r with
  | nil => rfl
  | cons a rest ih =>
    have hm : Move id r (e.standing id) _ _ := step_move hs a
    rw [hx] at hm
    generalize hy : (e.step r a).engine.standing id = y at hm
    generalize hn : (Moment.mk e r a).notes id = ns at hm
    cases hm
    show (Moment.mk e r a).notes id ++ _ = []
    rw [hn, List.nil_append]
    exact ih (hs.step a) hy

theorem filterMap_late {α : Type} {f : Note β → Option α} {s : List (Note β)}
    (hs : ∀ n ∈ s, n.isLate = true) (hf : ∀ n, n.isLate = true → f n = none) :
    s.filterMap f = [] :=
  List.filterMap_eq_nil_iff.2 fun n hn => hf n (hs n hn)

theorem Note.ask?_late (n : Note β) (h : n.isLate = true) : n.ask? id = none := by
  cases n with
  | asked => cases h
  | _ => rfl

theorem Note.execution?_late (n : Note β) (h : n.isLate = true) : n.execution? = none := by
  cases n with
  | executed => cases h
  | _ => rfl

theorem Note.answer?_late (n : Note β) (h : n.isLate = true) : n.answer? = none := by
  cases n with
  | answered => cases h
  | _ => rfl

/-! ### The moment when the tool is set to work -/

theorem Move.executed {ns : List (Note β)} {z : Effect β} (hm : Move id r x ns y)
    (h : .executed z ∈ ns) :
    ∃ c, x = .active c ∧ c.stage = .cleared ∧ z = Engine.run c ∧ ns = [.executed z] ∧
      y = .active (c.at .running) := by
  cases hm with
  | execute c hc =>
    obtain rfl : z = Engine.run c := by simpa using h
    exact ⟨c, rfl, hc, rfl, rfl, rfl⟩
  | _ => simp at h

theorem Move.cancelled {ns : List (Note β)} (hm : Move id r x ns y) (h : .cancelled ∈ ns) :
    y = .over := by
  cases hm with
  | cancel => rfl
  | _ => simp at h

theorem Effect.note?_of_executes {z : Effect β} (h : z.executes id = true) :
    z.note? id = some (.executed z) := by
  cases z with
  | ran i | forwarded i =>
    have hi : i = id := by simpa [executes] using h
    simp [note?, hi]
  | _ => cases h

namespace Engine

/-- What a run that sets the tool of a call to work shows of the call: nothing stood between the
call and its tool before, and the call is spent after. -/
theorem execution_story {as : List (Action β)} {before after : List (Moment β)} {z : Effect β}
    (h : record ∅ r as = before ++ m :: after) (hz : z ∈ m.effects) (hid : z.executes id = true) :
    ∃ entry args, z = run ⟨id, entry, args, .cleared⟩ ∧ m.notes id = [.executed z] ∧
      entry.Clear args (story id before) ∧ ∀ n ∈ story id after, n.isLate = true := by
  obtain ⟨hs, ht⟩ := tells_before id h
  have hn : .executed z ∈ m.notes id :=
    List.mem_append_right _ (List.mem_filterMap.2 ⟨z, hz, Effect.note?_of_executes hid⟩)
  obtain ⟨c, hx, hst, rfl, hns, hy⟩ := (step_move (r := m.registry) hs m.action).executed hn
  rw [hx] at ht
  have hc : c.id = id := call?_id (call?_of_standing hx)
  obtain ⟨i, entry, args, stage⟩ := c
  obtain rfl : i = id := hc
  obtain rfl : stage = .cleared := hst
  refine ⟨entry, args, rfl, hns, ht, ?_⟩
  obtain ⟨rest, rfl⟩ := record_after h
  refine story_spent (hs.step m.action) ?_ rest
  rw [hy]
  exact .inl rfl

theorem cancelled_story {as : List (Action β)} {before after : List (Moment β)}
    (h : record ∅ r as = before ++ m :: after) (hc : m.Cancels id) : story id after = [] := by
  obtain ⟨hs, -⟩ := tells_before id h
  obtain ⟨rest, rfl⟩ := record_after h
  exact story_over (hs.step m.action) ((step_move (r := m.registry) hs m.action).cancelled hc.notes)
    rest

theorem advance_ungated {as : List (Action β)} {before after : List (Moment β)}
    (h : record ∅ r as = before ++ m :: after) (hc : m.engine.call? id = some c)
    (hg : c.entry.gated = false) (r' : Registry) : m.engine.step r' (.advance id) =
      ⟨(m.engine.step m.registry (.advance id)).engine, r',
        (m.engine.step m.registry (.advance id)).effects⟩ := by
  obtain ⟨hs, ht⟩ := tells_before id h
  rw [hs.standing hc] at ht
  simp only [step, advance, hc, advanceCall]
  cases hst : c.stage with
  | gate | unset | chosen | answered =>
    have hg' : c.entry.gated = true := ((Call.tells_at hst).1 ht).1
    exact Bool.noConfusion (hg.symm.trans hg')
  | ended result => cases result <;> rfl
  | _ => rfl

end Engine

/-! ### The gate -/

/-- What stands behind `z`, which sets the tool of the call `id` to work in a run after the part
`before`: its caller asked for the tool `name`, which is `entry`, with the arguments that the tool
receives; it is the only time, the call was not given up, and the handler approved it if the tool is
gated, and was never asked if not. -/
structure Sanctioned (run before : List (Moment β)) (id : Nat) (name : String) (args : Args)
    (entry : Entry β) (z : Effect β) : Prop where
  works : z = Engine.run ⟨id, entry, args, .cleared⟩
  named : entry.name = name
  started : ∃ first m rest, before = first ++ m :: rest ∧ m.Starts id name args entry
  once : executions id run = [z]
  kept : ∀ m ∈ before, ¬ m.Cancels id
  approved : entry.gated = true → Approved run before id name args
  unasked : entry.gated = false → asks id run = []

theorem story_append (a b : List (Moment β)) : story id (a ++ b) = story id a ++ story id b :=
  List.flatMap_append

theorem story_cons (m : Moment β) (b : List (Moment β)) :
    story id (m :: b) = m.notes id ++ story id b :=
  List.flatMap_cons

theorem Engine.sanctioned {as : List (Action β)} {before after : List (Moment β)} {z : Effect β}
    (h : record ∅ r as = before ++ m :: after) (hz : z ∈ m.effects) (hid : z.executes id = true) :
    ∃ name args entry, Sanctioned (record ∅ r as) before id name args entry z := by
  obtain ⟨entry, args, hw, hn, hc, hl⟩ := execution_story h hz hid
  have hs : story id (record ∅ r as) = story id before ++ .executed z :: story id after := by
    rw [h, story_append, story_cons, hn]
    rfl
  have hask : asks id (record ∅ r as) = (story id before).filterMap (Note.ask? id) := by
    rw [asks_story, hs, List.filterMap_append, List.filterMap_cons,
      filterMap_late hl Note.ask?_late]
    exact List.append_nil _
  have hans : answers id (record ∅ r as) = (story id before).filterMap Note.answer? := by
    rw [answers_story, hs, List.filterMap_append, List.filterMap_cons,
      filterMap_late hl Note.answer?_late]
    exact List.append_nil _
  refine ⟨entry.name, args, entry, hw, rfl, ?_, ?_, ?_, ?_, ?_⟩
  · obtain ⟨t, ht⟩ := hc.called
    rw [← List.nil_append (.called _ _ _ :: t)] at ht
    obtain ⟨first, m₀, rest, n₁, n₂, hb, hm, -, -⟩ := story_split ht
    refine ⟨first, m₀, rest, hb, Moment.starts_of_called ?_⟩
    rw [hm]
    exact List.mem_append_right _ (List.mem_cons_self ..)
  · rw [executions_story, hs, List.filterMap_append, List.filterMap_cons, hc.executions,
      filterMap_late hl Note.execution?_late]
    rfl
  · intro m' hm' hcancel
    exact hc.not_cancelled (List.mem_flatMap.2 ⟨m', hm', hcancel.notes⟩)
  · intro hg
    obtain ⟨handler, ht⟩ := hc.answered hg
    obtain ⟨first, d, rest, n₁, n₂, hb, hd, h₁, -⟩ := story_split ht
    have hmem : .answered (.ok true) ∈ d.notes id := by
      rw [hd]
      exact List.mem_append_right _ (List.mem_cons_self ..)
    obtain ⟨hans', hd'⟩ := Moment.notes_of_answered hmem
    obtain rfl : n₁ = [] := by
      rw [hd'] at hd
      cases n₁ with
      | nil => rfl
      | cons n n₁ => simp at hd
    rw [List.append_nil] at h₁
    refine ⟨handler, first, d, rest, hb, hans', ?_, ?_, ?_⟩
    · rw [asks_story, ← h₁]
      rfl
    · rw [hask, ht]
      rfl
    · rw [hans, ht]
      rfl
  · intro hg
    rw [hask]
    exact hc.asks hg

theorem Engine.unapproved {as : List (Action β)} (ha : asks id (record ∅ r as) ≠ [])
    (hn : answers id (record ∅ r as) ≠ [.ok true]) : executions id (record ∅ r as) = [] := by
  refine List.eq_nil_iff_forall_not_mem.2 fun z hz => ?_
  obtain ⟨hz, hid⟩ := List.mem_filter.1 hz
  obtain ⟨m, hm, hz⟩ := List.mem_flatMap.1 hz
  obtain ⟨before, after, h⟩ := List.append_of_mem hm
  obtain ⟨name, args, entry, hs⟩ := Engine.sanctioned h hz hid
  cases hg : entry.gated with
  | true =>
    obtain ⟨-, -, -, -, -, -, -, -, happroved⟩ := hs.approved hg
    exact hn happroved
  | false => exact ha (hs.unasked hg)

/-- In every run, a tool is set to work only if that is sanctioned. A call whose handler was asked
and did not answer that its tool may run never has its tool set to work; after a call was given up
its handler is not asked and its tool is not set to work, whatever is answered then; and a call of a
tool that is not gated goes on in the same way whatever the registry holds. -/
theorem gate_safety (r : Registry) (as : List (Action β)) (id : Nat) :
    let run := Engine.record ∅ r as
    (∀ before m after z, run = before ++ m :: after → z ∈ m.effects → z.executes id = true →
      ∃ name args entry, Sanctioned run before id name args entry z) ∧
    (asks id run ≠ [] → answers id run ≠ [.ok true] → executions id run = []) ∧
    (∀ before m after, run = before ++ m :: after → m.Cancels id →
      asks id after = [] ∧ executions id after = []) ∧
    (∀ before m after c, run = before ++ m :: after → m.engine.call? id = some c →
      c.entry.gated = false → ∀ r', m.engine.step r' (.advance id) =
        ⟨(m.engine.step m.registry (.advance id)).engine, r',
          (m.engine.step m.registry (.advance id)).effects⟩) := by
  intro run
  refine ⟨fun before m after z h hz hid => Engine.sanctioned h hz hid, Engine.unapproved,
    fun before m after h hc => ?_, fun before m after c h hc hg => Engine.advance_ungated h hc hg⟩
  · rw [asks_story, executions_story, Engine.cancelled_story h hc]
    exact ⟨rfl, rfl⟩

/-- A gated tool is called, and is set to work once the handler has answered. -/
def approvedCall : List (Action Unit) :=
  [.register ⟨"rm", defaultGroup, "", true, ⟨"rm", "", .null, .own ()⟩⟩, .invoke "rm" ∅,
    .advance 0, .advance 0, .advance 0, .advance 0, .advance 0, .answer 0 (.ok true), .advance 0,
    .advance 0]

theorem gate_safety_approvedCall :
    let run := Engine.record ∅ (Registry.empty 0) approvedCall
    ∃ name args entry, Sanctioned run (run.take 9) 0 name args entry (.ran 0 () ∅) := by
  intro run
  refine (gate_safety (Registry.empty 0) approvedCall 0).1 (run.take 9) run[9] [] _ ?_ ?_ rfl
  · rfl
  · exact List.mem_singleton.2 rfl

end GatedCalls
