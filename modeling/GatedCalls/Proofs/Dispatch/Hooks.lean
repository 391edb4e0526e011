import GatedCalls.Proofs.Dispatch.Chronicle
import GatedCalls.Proofs.Dispatch.Protocol

/-!
# What hooks are told

`Engine.bare` is an engine without its hooks. A step that is not about hooks does with them what it
does without, and every event that it emits is delivered to each of them (`step_bare`). So a run
does the same, but for its hooks, if all that is done with hooks is left out of it
(`effects_record_bare`), and what one hook is told is settled by the time in which it is registered
(`Numbered.absent`, `Numbered.present`).
-/

namespace GatedCalls

variable {β : Type} {e : Engine β} {r : Registry} {a : Action β} {as : List (Action β)}
  {m : Moment β} {ms : List (Moment β)} {hook : Nat}

/-- Whether the action adds or removes a hook. -/
def Action.tunes : Action β → Bool
  | .addHook | .removeHook _ => true
  | _ => false

theorem Action.hook_cases (a : Action β) :
    a = .addHook ∨ (∃ h, a = .removeHook h) ∨ a.tunes = false := by
  cases a <;> simp [tunes]

namespace Effect

/-- Whether the effect is there for a hook alone. -/
def ofHooks : Effect β → Bool
  | hookAdded _ | hookRemoved .. | delivered .. => true
  | _ => false

def emitted? : Effect β → Option DispatchEvent
  | emitted event => some event
  | _ => none

def delivered? (hook : Nat) : Effect β → Option DispatchEvent
  | delivered h event => if h = hook then some event else none
  | _ => none

def hookAdded? : Effect β → Option Nat
  | hookAdded h => some h
  | _ => none

/-- Whether the hook was found when it was to be removed. -/
def hookRemoved? (hook : Nat) : Effect β → Option Bool
  | hookRemoved h found => if h = hook then some found else none
  | _ => none

/-- What is done in the presence of the hooks. -/
def heard (hooks : List Nat) : Effect β → List (Effect β)
  | emitted event => emitted event :: hooks.map fun h => delivered h event
  | hookAdded _ | hookRemoved .. | delivered .. => []
  | z => [z]

end Effect

/-- The caller removes the hook. -/
def Moment.removes (m : Moment β) (hook : Nat) : Bool :=
  match m.action with
  | .removeHook h => h == hook
  | _ => false

theorem Moment.removes_iff : m.removes hook = true ↔ m.action = .removeHook hook := by
  obtain ⟨e, r, a⟩ := m
  cases a <;> simp [removes]

theorem Moment.removes_of_others (h : m.action.tunes = false) : m.removes hook = false := by
  refine Bool.eq_false_iff.2 fun hr => ?_
  rw [removes_iff.1 hr] at h
  cases h

def emissions (ms : List (Moment β)) : List DispatchEvent :=
  (ms.flatMap Moment.effects).filterMap Effect.emitted?

/-- What the hook is told in a run. -/
def deliveries (hook : Nat) (ms : List (Moment β)) : List DispatchEvent :=
  (ms.flatMap Moment.effects).filterMap (Effect.delivered? hook)

def hooksAdded (ms : List (Moment β)) : List Nat :=
  (ms.flatMap Moment.effects).filterMap Effect.hookAdded?

/-- The answers to those who remove the hook. -/
def removals (hook : Nat) (ms : List (Moment β)) : List Bool :=
  (ms.flatMap Moment.effects).filterMap (Effect.hookRemoved? hook)

/-- The answers to `n` removals of a hook that is registered: it is found once. -/
def foundOnce : Nat → List Bool
  | 0 => []
  | n + 1 => true :: List.replicate n false

theorem gather_cons {α : Type} (f : Effect β → Option α) (m : Moment β) (ms : List (Moment β)) :
    ((m :: ms).flatMap Moment.effects).filterMap f =
      m.effects.filterMap f ++ (ms.flatMap Moment.effects).filterMap f := by
  rw [List.flatMap_cons, List.filterMap_append]

/-! ### A step without its hooks -/

namespace Engine

def withHooks (e : Engine β) (hooks : List Nat) (nextHook : Nat) : Engine β :=
  { e with hooks := hooks, nextHook := nextHook }

def bare (e : Engine β) : Engine β := e.withHooks [] 0

def among (e : Engine β) (o : Outcome β) : Outcome β :=
  ⟨o.engine.withHooks e.hooks e.nextHook, o.registry, o.effects.flatMap (Effect.heard e.hooks)⟩

theorem emit_bare (event : DispatchEvent) :
    (e.bare.emit event).flatMap (Effect.heard e.hooks) = e.emit event := by
  simp [emit, bare, withHooks, Effect.heard]

/-- What is not about hooks and emits no event is done in the same way among hooks. -/
theorem flatMap_heard {effects : List (Effect β)}
    (h : ∀ z ∈ effects, z.ofHooks = false ∧ z.emitted? = none) (hooks : List Nat) :
    effects.flatMap (Effect.heard hooks) = effects := by
  induction effects with
  | nil => rfl
  | cons z rest ih =>
    obtain ⟨⟨hz, he⟩, hrest⟩ := List.forall_mem_cons.1 h
    rw [List.flatMap_cons, ih hrest]
    cases z with
    | emitted event => cases he
    | hookAdded | hookRemoved | delivered => cases hz
    | _ => rfl

theorem advanceCall_bare (r : Registry) (c : Call β) :
    e.advanceCall r c = e.among (e.bare.advanceCall r c) := by
  have tell (event : DispatchEvent) (result : Except DispatchError Response) :
      (e.bare.emit event ++ [Effect.returned c.id result]).flatMap (Effect.heard e.hooks) =
        e.emit event ++ [.returned c.id result] := by
    rw [List.flatMap_append, emit_bare]
    rfl
  have hrun : [run c].flatMap (Effect.heard e.hooks) = [run c] := by
    refine flatMap_heard (fun z hz => ?_) e.hooks
    rw [List.mem_singleton.1 hz, run]
    split <;> exact ⟨rfl, rfl⟩
  cases hst : c.stage with
  | found | chosen h =>
    simp only [advanceCall, hst, among, emit_bare]
    rfl
  | gate =>
    simp only [advanceCall, hst]
    cases r.look <;> rfl
  | unset | presented h | asking h | running =>
    simp only [advanceCall, hst]
    rfl
  | answered result =>
    rcases result with err | - | -
    · simp only [advanceCall, hst, among, conclude, tell]
      rfl
    · simp only [advanceCall, hst, among, conclude, tell]
      rfl
    · simp only [advanceCall, hst, among, emit_bare]
      rfl
  | cleared =>
    simp only [advanceCall, hst, among, hrun]
    rfl
  | ended result =>
    cases result <;>
    · simp only [advanceCall, hst, among, conclude, tell]
      rfl

theorem advanceEnrolment_bare (x : Enrolment) : e.advanceEnrolment x =
    ((e.bare.advanceEnrolment x).1.withHooks e.hooks e.nextHook,
      (e.bare.advanceEnrolment x).2.flatMap (Effect.heard e.hooks)) := by
  have hcatalog : e.bare.catalog = e.catalog := rfl
  cases hst : x.stage with
  | listed result =>
    cases result with
    | error err =>
      simp only [advanceEnrolment, hst]
      rfl
    | ok ds =>
      simp only [advanceEnrolment, hst, hcatalog]
      cases e.catalog.registerAll (Declaration.entries β x.source x.group x.gated ds) <;> rfl
  | _ =>
    simp only [advanceEnrolment, hst]
    rfl

theorem advance_bare (r : Registry) (id : Nat) :
    e.advance r id = e.among (e.bare.advance r id) := by
  have hcall : e.bare.call? id = e.call? id := rfl
  have henrolment : e.bare.enrolment? id = e.enrolment? id := rfl
  have hclosing : e.bare.closing? id = e.closing? id := rfl
  simp only [advance, hcall, henrolment, hclosing]
  cases e.call? id with
  | some c => exact advanceCall_bare r c
  | none =>
    cases e.enrolment? id with
    | some x => simp only [advanceEnrolment_bare (e := e), among]
    | none =>
      cases e.closing? id with
      | some x =>
        simp only [advanceClosing]
        split <;> rfl
      | none => rfl

theorem invoke_bare (name : String) (args : Args) : e.invoke name args =
    ((e.bare.invoke name args).1.withHooks e.hooks e.nextHook,
      (e.bare.invoke name args).2.flatMap (Effect.heard e.hooks)) := by
  have hlookup : e.bare.lookup name = e.lookup name := rfl
  simp only [invoke, hlookup]
  cases e.lookup name <;> rfl

theorem step_bare (ha : a.tunes = false) (r : Registry) :
    e.step r a = e.among (e.bare.step r a) := by
  have hcall (id : Nat) : e.bare.call? id = e.call? id := rfl
  cases a with
  | addHook | removeHook h => cases ha
  | register entry =>
    have hcatalog : e.bare.catalog = e.catalog := rfl
    simp only [step, register, hcatalog]
    cases e.catalog.register entry <;> rfl
  | invoke name args => simp only [step, invoke_bare (e := e), among]
  | invokeValue name v =>
    simp only [step, invokeValue]
    cases v.asArgs? with
    | none => rfl
    | some args => simp only [invoke_bare (e := e), among]
  | shutdown =>
    have hquiet : ∀ z ∈ e.shutdown.2, z.ofHooks = false ∧ z.emitted? = none := by
      intro z hz
      obtain ⟨source, -, rfl⟩ := List.mem_map.1 hz
      exact ⟨rfl, rfl⟩
    have hsilent : e.shutdown.2.flatMap (Effect.heard e.hooks) = e.shutdown.2 :=
      flatMap_heard hquiet e.hooks
    show (⟨_, r, e.shutdown.2⟩ : Outcome β) = ⟨_, r, e.shutdown.2.flatMap _⟩
    rw [hsilent]
    rfl
  | answer id result =>
    have hstage : e.bare.stage? id = e.stage? id := rfl
    simp only [step, answer, hstage]
    split <;> rfl
  | finish id result | reply id result =>
    simp only [step, finish, hcall]
    split
    · split <;> rfl
    · rfl
  | list id result =>
    have hstage : e.bare.enrolStage? id = e.enrolStage? id := rfl
    simp only [step, list, hstage]
    split <;> rfl
  | disconnected id source =>
    have hstage : e.bare.enrolStage? id = e.enrolStage? id := rfl
    simp only [step, disconnected, hstage]
    split <;> rfl
  | advance id => exact advance_bare r id
  | setHandler h | enrol source group gated | cancel id => rfl

theorem effects_bare (ha : a.tunes = false) (r : Registry) :
    (e.bare.step r a).effects.filter (!·.ofHooks) = (e.bare.step r a).effects := by
  have heard_nil (effects : List (Effect β)) :
      effects.flatMap (Effect.heard []) = effects.filter (!·.ofHooks) := by
    induction effects with
    | nil => rfl
    | cons z rest ih =>
      rw [List.flatMap_cons, ih, List.filter_cons]
      cases z <;> rfl
  have hsame : e.bare.step r a = e.bare.among (e.bare.step r a) := step_bare ha r
  rw [← heard_nil]
  exact (congrArg Outcome.effects hsame).symm

end Engine

/-! ### What is done among hooks -/

namespace Effect

variable {hooks : List Nat} {effects : List (Effect β)}

theorem read_heard {α : Type} {f : Effect β → Option α}
    (hf : ∀ z : Effect β, z.ofHooks = true → f z = none) (effects : List (Effect β))
    (hooks : List Nat) :
    (effects.flatMap (heard hooks)).filterMap f = effects.filterMap f := by
  have hdelivered (event : DispatchEvent) :
      (hooks.map fun h => (delivered h event : Effect β)).filterMap f = [] := by
    refine List.filterMap_eq_nil_iff.2 fun z hz => ?_
    obtain ⟨h, -, rfl⟩ := List.mem_map.1 hz
    exact hf _ rfl
  have hone (z : Effect β) : [z].filterMap f = (f z).toList := by
    rw [List.filterMap_cons]
    cases f z <;> rfl
  induction effects with
  | nil => rfl
  | cons z rest ih =>
    have hfirst : (heard hooks z).filterMap f = (f z).toList := by
      cases z with
      | emitted event =>
        rw [heard, List.filterMap_cons, hdelivered]
        cases f (emitted event) <;> rfl
      | hookAdded | hookRemoved | delivered =>
        rw [hf _ rfl]
        rfl
      | _ => exact hone _
    rw [List.flatMap_cons, List.filterMap_append, ih, hfirst, ← hone, ← List.filterMap_append]
    rfl

theorem filter_heard (effects : List (Effect β)) (hooks : List Nat) :
    (effects.flatMap (heard hooks)).filter (!·.ofHooks) = effects.filter (!·.ofHooks) := by
  rw [← List.filterMap_eq_filter]
  exact read_heard (fun z hz => by simp [Option.guard, hz]) effects hooks

theorem emitted?_heard (effects : List (Effect β)) (hooks : List Nat) :
    (effects.flatMap (heard hooks)).filterMap emitted? = effects.filterMap emitted? := by
  refine read_heard (fun z hz => ?_) effects hooks
  cases z with
  | emitted => cases hz
  | _ => rfl

theorem delivered?_heard (effects : List (Effect β)) (hn : hooks.Nodup) :
    (effects.flatMap (heard hooks)).filterMap (delivered? hook) =
      if hook ∈ hooks then effects.filterMap emitted? else [] := by
  have hdelivered (event : DispatchEvent) :
      (hooks.map fun h => (delivered h event : Effect β)).filterMap (delivered? hook) =
        if hook ∈ hooks then [event] else [] := by
    induction hooks with
    | nil => rfl
    | cons h rest ih =>
      obtain ⟨hfresh, hrest⟩ := List.nodup_cons.1 hn
      rw [List.map_cons, List.filterMap_cons, delivered?, ih hrest]
      by_cases hh : h = hook
      · subst hh
        simp [hfresh]
      · simp [hh, Ne.symm hh]
  induction effects with
  | nil => simp
  | cons z rest ih =>
    rw [List.flatMap_cons, List.filterMap_append, ih, List.filterMap_cons]
    cases z with
    | emitted event =>
      rw [heard, List.filterMap_cons_none rfl, hdelivered]
      by_cases hmem : hook ∈ hooks <;> simp [hmem, emitted?]
    | _ => rfl

theorem filterMap_heard {α : Type} {f : Effect β → Option α}
    (hf : ∀ z : Effect β, z.ofHooks = false → f z = none)
    (hd : ∀ h event, f (delivered h event) = none) (effects : List (Effect β))
    (hooks : List Nat) : (effects.flatMap (heard hooks)).filterMap f = [] := by
  refine List.filterMap_eq_nil_iff.2 fun z hz => ?_
  obtain ⟨w, -, hz⟩ := List.mem_flatMap.1 hz
  cases w with
  | emitted event =>
    rcases List.mem_cons.1 hz with rfl | hz
    · exact hf _ rfl
    · obtain ⟨h, -, rfl⟩ := List.mem_map.1 hz
      exact hd h event
  | hookAdded | hookRemoved | delivered => cases hz
  | _ =>
    rw [List.mem_singleton.1 hz]
    exact hf _ rfl

theorem hookAdded?_of_others (z : Effect β) (h : z.ofHooks = false) : z.hookAdded? = none := by
  cases z with
  | hookAdded => cases h
  | _ => rfl

theorem hookRemoved?_of_others (z : Effect β) (h : z.ofHooks = false) :
    z.hookRemoved? hook = none := by
  cases z with
  | hookRemoved => cases h
  | _ => rfl

end Effect

/-! ### A hook from its addition to its removal -/

namespace Engine

/-- Every hook has a number of its own that was given out. -/
structure Numbered (e : Engine β) : Prop where
  distinct : e.hooks.Nodup
  below : ∀ h ∈ e.hooks, h < e.nextHook

theorem numbered_empty : (∅ : Engine β).Numbered := ⟨List.nodup_nil, fun _ h => by cases h⟩

theorem hooks_step (ha : a.tunes = false) (r : Registry) :
    (e.step r a).engine.hooks = e.hooks ∧ (e.step r a).engine.nextHook = e.nextHook := by
  rw [step_bare ha]
  exact ⟨rfl, rfl⟩

theorem Numbered.step (h : e.Numbered) (r : Registry) (a : Action β) :
    (e.step r a).engine.Numbered := by
  rcases a.hook_cases with rfl | ⟨k, rfl⟩ | ha
  · have hfresh : e.nextHook ∉ e.hooks := fun hmem => Nat.lt_irrefl _ (h.below _ hmem)
    refine ⟨List.nodup_append.2 ⟨h.distinct, List.nodup_singleton _, ?_⟩, fun k hk => ?_⟩
    · rintro k hk k' hk' rfl
      rw [List.mem_singleton] at hk'
      exact hfresh (hk' ▸ hk)
    · show k < e.nextHook + 1
      rcases List.mem_append.1 hk with hk | hk
      · have hlt := h.below k hk
        omega
      · rw [List.mem_singleton] at hk
        omega
  · exact ⟨h.distinct.filter _, fun k' hk' => h.below k' (List.mem_filter.1 hk').1⟩
  · obtain ⟨hhooks, hnext⟩ := hooks_step (e := e) ha r
    constructor
    · rw [hhooks]
      exact h.distinct
    · rw [hhooks, hnext]
      exact h.below

theorem numbered_after (r : Registry) (as : List (Action β)) : (after ∅ r as).1.Numbered :=
  inv_after (fun _ r a h => h.step r a) numbered_empty r as

theorem unread_step {α : Type} {f : Effect β → Option α}
    (hf : ∀ z : Effect β, z.ofHooks = false → f z = none)
    (hd : ∀ h event, f (.delivered h event) = none) (ha : a.tunes = false) (r : Registry) :
    (e.step r a).effects.filterMap f = [] := by
  rw [step_bare ha]
  exact Effect.filterMap_heard hf hd _ _

/-- What a step delivers to a hook: the events it emits, if the hook is registered. -/
theorem deliveries_step (h : e.Numbered) (hook : Nat) (r : Registry) (a : Action β) :
    (e.step r a).effects.filterMap (Effect.delivered? hook) =
      if hook ∈ e.hooks then (e.step r a).effects.filterMap Effect.emitted? else [] := by
  rcases a.hook_cases with rfl | ⟨k, rfl⟩ | ha
  · split <;> rfl
  · split <;> rfl
  · rw [step_bare ha, among]
    dsimp only
    rw [Effect.delivered?_heard _ h.distinct, Effect.emitted?_heard]

theorem action_of_hookAdded (h : .hookAdded hook ∈ (e.step r a).effects) : a = .addHook := by
  rcases a.hook_cases with rfl | ⟨k, rfl⟩ | ha
  · rfl
  · simp [Engine.step] at h
  · have hnone := unread_step (e := e) Effect.hookAdded?_of_others (fun _ _ => rfl) ha r
    have hread := List.filterMap_eq_nil_iff.1 hnone _ h
    cases hread

theorem mem_hooks_step (r : Registry) (a : Action β) : hook ∈ (e.step r a).engine.hooks ↔
    hook ∈ e.hooks ∧ (Moment.mk e r a).removes hook = false ∨
      .hookAdded hook ∈ (e.step r a).effects := by
  rcases a.hook_cases with rfl | ⟨k, rfl⟩ | ha
  · simp [Engine.step, addHook, Moment.removes]
  · by_cases hk : k = hook
    · subst hk
      simp [Engine.step, removeHook, Moment.removes]
    · simp [Engine.step, removeHook, Moment.removes, hk, Ne.symm hk]
  · have hadded : Effect.hookAdded hook ∉ (e.step r a).effects := fun hmem => by
      rw [action_of_hookAdded hmem] at ha
      cases ha
    rw [(hooks_step ha r).1]
    simp [Moment.removes_of_others (m := ⟨e, r, a⟩) ha, hadded]

theorem removals_step (hook : Nat) (r : Registry) (a : Action β) :
    (e.step r a).effects.filterMap (Effect.hookRemoved? hook) =
      if (Moment.mk e r a).removes hook then [decide (hook ∈ e.hooks)] else [] := by
  rcases a.hook_cases with rfl | ⟨k, rfl⟩ | ha
  · rfl
  · by_cases hk : k = hook
    · subst hk
      simp [Engine.step, removeHook, Moment.removes, Effect.hookRemoved?]
    · simp [Engine.step, removeHook, Moment.removes, Effect.hookRemoved?, hk]
  · rw [unread_step Effect.hookRemoved?_of_others (fun _ _ => rfl) ha,
      Moment.removes_of_others (m := ⟨e, r, a⟩) ha]
    rfl

/-- The numbers that a run gives out are the next ones. -/
theorem hooksAdded_record (e : Engine β) (r : Registry) (as : List (Action β)) :
    ∃ n, hooksAdded (e.record r as) = List.range' e.nextHook n := by
  induction as generalizing e r with
  | nil => exact ⟨0, rfl⟩
  | cons a as ih =>
    obtain ⟨n, hn⟩ := ih (e.step r a).engine (e.step r a).registry
    rw [hooksAdded] at hn
    rw [hooksAdded, record, gather_cons, hn]
    rcases a.hook_cases with rfl | ⟨k, rfl⟩ | ha
    · exact ⟨n + 1, rfl⟩
    · exact ⟨n, rfl⟩
    · have hnone := unread_step (e := e) Effect.hookAdded?_of_others (fun _ _ => rfl) ha r
      refine ⟨n, ?_⟩
      show (e.step r a).effects.filterMap _ ++ _ = _
      rw [hnone, (hooks_step ha r).2]
      rfl

theorem not_mem_hooksAdded : hook ∉ hooksAdded (e.record r (a :: as)) ↔
    .hookAdded hook ∉ (e.step r a).effects ∧
      hook ∉ hooksAdded ((e.step r a).engine.record (e.step r a).registry as) := by
  have hmem : hook ∈ (e.step r a).effects.filterMap Effect.hookAdded? ↔
      .hookAdded hook ∈ (e.step r a).effects := by
    rw [List.mem_filterMap]
    constructor
    · rintro ⟨z, hz, hread⟩
      cases z with
      | hookAdded k =>
        obtain rfl : k = hook := Option.some.inj hread
        exact hz
      | _ => cases hread
    · intro hz
      exact ⟨_, hz, rfl⟩
  rw [hooksAdded, record, gather_cons, List.mem_append, not_or]
  exact and_congr_left fun _ => not_congr hmem

/-- As long as a hook is not registered it is told nothing and is not found. -/
theorem Numbered.absent (h : e.Numbered) (hfresh : hook ∉ hooksAdded (e.record r as))
    (habsent : hook ∉ e.hooks) : deliveries hook (e.record r as) = [] ∧
      removals hook (e.record r as) =
        List.replicate ((e.record r as).countP (·.removes hook)) false := by
  induction as generalizing e r with
  | nil => exact ⟨rfl, rfl⟩
  | cons a as ih =>
    obtain ⟨hnow, hlater⟩ := not_mem_hooksAdded.1 hfresh
    have hstill : hook ∉ (e.step r a).engine.hooks := by
      rw [mem_hooks_step]
      rintro (⟨hmem, -⟩ | hmem)
      · exact habsent hmem
      · exact hnow hmem
    obtain ⟨hdelivered, hremoved⟩ := ih (h.step r a) hlater hstill
    rw [deliveries] at hdelivered
    rw [removals] at hremoved
    constructor
    · rw [deliveries, record, gather_cons, hdelivered, List.append_nil]
      show (e.step r a).effects.filterMap _ = []
      rw [deliveries_step h, if_neg habsent]
    · rw [removals, record, gather_cons, hremoved, List.countP_cons]
      show (e.step r a).effects.filterMap _ ++ _ = _
      rw [removals_step]
      split <;> simp [habsent, List.replicate_succ]

/-- A hook that is registered is told every event until it is removed, and is found once. -/
theorem Numbered.present (h : e.Numbered) (hfresh : hook ∉ hooksAdded (e.record r as))
    (hpresent : hook ∈ e.hooks) : deliveries hook (e.record r as) =
        emissions ((e.record r as).takeWhile fun m => !m.removes hook) ∧
      removals hook (e.record r as) = foundOnce ((e.record r as).countP (·.removes hook)) := by
  induction as generalizing e r with
  | nil => exact ⟨rfl, rfl⟩
  | cons a as ih =>
    obtain ⟨hnow, hlater⟩ := not_mem_hooksAdded.1 hfresh
    have hdelivered := deliveries_step h hook r a
    have hremoved := removals_step (e := e) hook r a
    rw [if_pos hpresent] at hdelivered
    rw [deliveries, removals, record, gather_cons, gather_cons, List.takeWhile_cons,
      List.countP_cons]
    show (e.step r a).effects.filterMap _ ++ _ = _ ∧ (e.step r a).effects.filterMap _ ++ _ = _
    rw [hdelivered, hremoved]
    cases hr : (Moment.mk e r a).removes hook with
    | true =>
      -- it is found now, and from now on it is absent
      have hgone : hook ∉ (e.step r a).engine.hooks := by
        rw [mem_hooks_step, hr]
        simpa using hnow
      obtain ⟨hnone, hfalse⟩ := (h.step r a).absent hlater hgone
      obtain rfl : a = .removeHook hook := Moment.removes_iff.1 hr
      rw [deliveries] at hnone
      rw [removals] at hfalse
      rw [hnone, hfalse]
      refine ⟨rfl, ?_⟩
      simp [hpresent, foundOnce]
    | false =>
      have hstill : hook ∈ (e.step r a).engine.hooks := (mem_hooks_step r a).2 (.inl ⟨hpresent, hr⟩)
      obtain ⟨hrest, hfound⟩ := ih (h.step r a) hlater hstill
      rw [deliveries] at hrest
      rw [removals] at hfound
      rw [hrest, hfound]
      refine ⟨?_, by simp⟩
      simp [emissions, Moment.effects, Moment.outcome]

/-! ### Without hooks -/

theorem tunes_step (ha : a.tunes = true) (r : Registry) :
    (e.step r a).engine.bare = e.bare ∧ (e.step r a).registry = r ∧
      (e.step r a).effects.filter (!·.ofHooks) = [] := by
  cases a with
  | addHook | removeHook k => exact ⟨rfl, rfl, rfl⟩
  | _ => cases ha

/-- All that a run does, but for hooks, is what it does without any. -/
theorem effects_record_bare (e : Engine β) (r : Registry) (as : List (Action β)) :
    ((e.record r as).flatMap Moment.effects).filter (!·.ofHooks) =
      (e.bare.record r (as.filter (!·.tunes))).flatMap Moment.effects := by
  induction as generalizing e r with
  | nil => rfl
  | cons a as ih =>
    rw [record, List.flatMap_cons, List.filter_append, ih]
    show (e.step r a).effects.filter _ ++ _ = _
    cases ha : a.tunes with
    | true =>
      obtain ⟨hbare, hregistry, hnone⟩ := tunes_step (e := e) ha r
      rw [hbare, hregistry, hnone, List.filter_cons_of_neg (by simp [ha])]
      rfl
    | false =>
      have hstep := step_bare (e := e) ha r
      have hsame : e.bare.step r a = e.bare.among (e.bare.step r a) := step_bare ha r
      have hengine : (e.step r a).engine.bare = (e.bare.step r a).engine := by
        rw [hsame, hstep]
        rfl
      have hregistry : (e.step r a).registry = (e.bare.step r a).registry := by
        rw [hstep]
        rfl
      have heffects : (e.step r a).effects.filter (!·.ofHooks) = (e.bare.step r a).effects := by
        rw [← effects_bare ha, hstep]
        exact Effect.filter_heard _ _
      rw [hengine, hregistry, heffects, List.filter_cons_of_pos (by simp [ha])]
      rfl

end Engine

/-- In every run, whatever calls are in flight: no two hooks are given the same number; a hook is
told exactly the events between its addition and its removal, each once and in order; it is found by
the first who removes it after it was added, and by nobody else; and all that the run does but for
hooks, and with it what every call returns, is what the run does if no hook is ever added or
removed. -/
theorem hook_delivery (r : Registry) (as : List (Action β)) :
    let run := Engine.record ∅ r as
    let bare := Engine.record ∅ r (as.filter (!·.tunes))
    (hooksAdded run).Nodup ∧
    (∀ before m later hook, run = before ++ m :: later → .hookAdded hook ∈ m.effects →
      deliveries hook run = emissions (later.takeWhile fun z => !z.removes hook) ∧
      removals hook before = List.replicate (before.countP (·.removes hook)) false ∧
      removals hook later = foundOnce (later.countP (·.removes hook))) ∧
    (∀ hook, hook ∉ hooksAdded run → deliveries hook run = [] ∧
      removals hook run = List.replicate (run.countP (·.removes hook)) false) ∧
    (run.flatMap Moment.effects).filter (!·.ofHooks) = bare.flatMap Moment.effects ∧
    ∀ id, returns id run = returns id bare := by
  intro run bare
  have hnodup : (hooksAdded run).Nodup := by
    obtain ⟨n, hn⟩ := Engine.hooksAdded_record ∅ r as
    rw [hn]
    exact List.nodup_range'
  have heffects : (run.flatMap Moment.effects).filter (!·.ofHooks) = bare.flatMap Moment.effects :=
    Engine.effects_record_bare ∅ r as
  refine ⟨hnodup, fun before m later hook hrun hadded => ?_, fun hook hnever => ?_, heffects,
    fun id => ?_⟩
  · obtain ⟨done, rest, -, rfl, he, rfl, -⟩ := Engine.record_split hrun
    have hnumbered : m.engine.Numbered := he ▸ Engine.numbered_after r done
    -- its number is given out here, so neither before nor later
    have hsplit : hooksAdded run = hooksAdded (Engine.record ∅ r done) ++
        (m.effects.filterMap Effect.hookAdded? ++
          hooksAdded (m.outcome.engine.record m.outcome.registry rest)) := by
      rw [hooksAdded, hrun, List.flatMap_append, List.filterMap_append, gather_cons]
      rfl
    have hmem : hook ∈ m.effects.filterMap Effect.hookAdded? :=
      List.mem_filterMap.2 ⟨_, hadded, rfl⟩
    rw [hsplit] at hnodup
    obtain ⟨-, hrest, hapart⟩ := List.nodup_append.1 hnodup
    have hbefore : hook ∉ hooksAdded (Engine.record ∅ r done) := fun hb =>
      hapart hook hb hook (List.mem_append_left _ hmem) rfl
    have hlater : hook ∉ hooksAdded (m.outcome.engine.record m.outcome.registry rest) := fun hl =>
      (List.nodup_append.1 hrest).2.2 hook hmem hook hl rfl
    have hpresent : hook ∈ m.outcome.engine.hooks :=
      (Engine.mem_hooks_step m.registry m.action).2 (.inr hadded)
    obtain ⟨hsilent, hunfound⟩ := Engine.numbered_empty.absent hbefore List.not_mem_nil
    obtain ⟨htold, hfound⟩ := (hnumbered.step m.registry m.action).present hlater hpresent
    have hnow : m.effects.filterMap (Effect.delivered? hook) = [] := by
      rw [Moment.effects, Moment.outcome, Engine.action_of_hookAdded hadded]
      rfl
    refine ⟨?_, hunfound, hfound⟩
    rw [deliveries] at hsilent htold
    rw [deliveries, hrun, List.flatMap_append, List.filterMap_append, gather_cons, hsilent, hnow]
    exact htold
  · exact Engine.numbered_empty.absent hnever List.not_mem_nil
  · rw [returns, returns, ← heffects, List.filterMap_filter]
    refine List.filterMap_congr fun z _ => ?_
    cases z <;> rfl

/-- A hook is added while a call is on its way and removed before the call is over, a second time in
vain; another stays. -/
def overheardCall : List (Action Unit) :=
  [.register gatedShellTool, .addHook, .invoke "rm" ∅, .advance 0, .addHook, .advance 0, .advance 0,
    .advance 0, .removeHook 1, .advance 0, .answer 0 (.ok false), .removeHook 1, .removeHook 7,
    .advance 0]

theorem hook_delivery_overheardCall :
    let run := Engine.record ∅ (.empty 0) overheardCall
    (deliveries 0 run).map (·.kind.label) =
        ["tool_requested", "confirmation_requested", "confirmation_declined"] ∧
      (deliveries 1 run).map (·.kind.label) = ["confirmation_requested"] ∧
      removals 1 run = [true, false] ∧ deliveries 7 run = [] ∧ removals 7 run = [false] ∧
      returns 0 run = [.ok (Response.declined "rm")] := by
  intro run
  obtain ⟨-, hadded, hnever, -, -⟩ := hook_delivery (.empty 0) overheardCall
  obtain ⟨hfirst, -, -⟩ := hadded (run.take 1) run[1] (run.drop 2) 0 rfl (List.mem_singleton_self _)
  obtain ⟨hsecond, -, -⟩ := hadded (run.take 4) run[4] (run.drop 5) 1 rfl
    (List.mem_singleton_self _)
  obtain ⟨hnothing, hunfound⟩ := hnever 7 (by decide +kernel)
  refine ⟨?_, ?_, by decide +kernel, hnothing, hunfound, rfl⟩
  · show (deliveries 0 (Engine.record ∅ (.empty 0) overheardCall)).map _ = _
    rw [hfirst]
    decide +kernel
  · show (deliveries 1 (Engine.record ∅ (.empty 0) overheardCall)).map _ = _
    rw [hsecond]
    decide +kernel

end GatedCalls
