import GatedCalls.Proofs.Dispatch.Chronicle

/-!
# How sources change hands

A source is with its registration, which has it disconnected or hands it over to the engine; the
engine keeps it until a shutdown takes it. `Moment.Flow` lists all that a step can do to the sources
that are kept, with what it shows: `flow` says there is nothing else. `closing_step` does the same
for the shutdowns in flight, and `Engine.awaits` follows from it: a shutdown returns only when each
source it took has answered.
-/

namespace GatedCalls

variable {β : Type} {e e' : Engine β} {r : Registry} {x : Enrolment} {m : Moment β}
  {i id source : Nat}

/-- On behalf of which operation the source is disconnected. -/
def Effect.parting? (source : Nat) : Effect β → Option Nat
  | .disconnecting i s => if s = source then some i else none
  | .added .. | .hookAdded _ | .hookRemoved .. | .emitted _ | .delivered .. | .asked .. | .ran ..
  | .forwarded .. | .returned .. | .listed .. | .enrolled .. | .shutDown _ => none

/-- Whether a source leaves its registration, or the engine, with the effect. -/
def Effect.isHandover : Effect β → Bool
  | .disconnecting .. | .enrolled _ (.ok _) => true
  | _ => false

/-- Whether the source leaves its registration with the deed. -/
def Deed.isHandover : Deed → Bool
  | .disconnecting _ | .returned (.ok _) => true
  | _ => false

/-- For which operations the source is disconnected in the step. -/
def Moment.partings (m : Moment β) (source : Nat) : List Nat :=
  m.effects.filterMap (Effect.parting? source)

/-- For which operations the source is disconnected in a run. -/
def partings (source : Nat) (ms : List (Moment β)) : List Nat := ms.flatMap (·.partings source)

theorem partings_append (a b : List (Moment β)) :
    partings source (a ++ b) = partings source a ++ partings source b :=
  List.flatMap_append

theorem partings_effects (ms : List (Moment β)) :
    partings source ms = (ms.flatMap Moment.effects).filterMap (Effect.parting? source) :=
  List.filterMap_flatMap.symm

theorem partings_singleton (m : Moment β) : partings source [m] = m.partings source :=
  List.flatMap_singleton ..

/-! ### The sources that are kept -/

/-- What a step does to the sources that are kept. -/
inductive Moment.Flow (m : Moment β) : Prop
  | rest (he : ∀ fx ∈ m.effects, fx.isHandover = false)
    (hk : m.outcome.engine.kept = m.engine.kept)
  | close (ha : m.action = .shutdown)
    (he : m.effects = m.engine.kept.map fun s => .disconnecting m.engine.next s)
    (hk : m.outcome.engine.kept = [])
  | keep (x : Enrolment) (n : Nat) (hx : x ∈ m.engine.enrolments) (hst : x.stage = .committed n)
    (ha : m.action = .advance x.id) (he : m.effects = [.enrolled x.id (.ok n)])
    (hk : m.outcome.engine.kept = m.engine.kept ++ [x.source])
  | refuse (x : Enrolment) (ds : List Declaration) (hx : x ∈ m.engine.enrolments)
    (hst : x.stage = .listed (.ok ds)) (ha : m.action = .advance x.id)
    (he : m.effects = [.disconnecting x.id x.source])
    (hk : m.outcome.engine.kept = m.engine.kept)

theorem Moment.partings_of_rest (h : ∀ fx ∈ m.effects, fx.isHandover = false) (source : Nat) :
    m.partings source = [] := by
  refine List.filterMap_eq_nil_iff.2 fun fx hfx => ?_
  have hno := h fx hfx
  cases fx with
  | disconnecting i s => cases hno
  | _ => rfl

namespace Engine

theorem not_handover_of_frame {o : Outcome β} (h : ∀ id, e.Frame id o) {fx : Effect β}
    (hfx : fx ∈ o.effects) : fx.isHandover = false := by
  have silent (id : Nat) : fx.deed? id = none := by
    have hs := (h id).silent
    rw [List.filterMap_eq_nil_iff] at hs
    exact hs fx hfx
  cases fx with
  | disconnecting i s => simpa [Effect.deed?] using silent i
  | enrolled i result => simpa [Effect.deed?] using silent i
  | _ => rfl

theorem flow_of_frame {a : Action β} (h : ∀ id, e.Frame id (e.step r a)) :
    (Moment.mk e r a).Flow :=
  .rest (fun _ hfx => not_handover_of_frame h hfx) (h 0).kept

theorem flow_advance (r : Registry) (i : Nat) : (Moment.mk e r (.advance i)).Flow := by
  cases hc : e.call? i with
  | some c =>
    refine flow_of_frame fun id => ?_
    simp only [step, advance, hc]
    exact frame_advanceCall r c
  | none =>
    cases hx : e.enrolment? i with
    | none =>
      refine flow_of_frame fun id => ?_
      simp only [step, advance, hc, hx]
      cases e.closing? i with
      | some y => exact frame_advanceClosing r y
      | none => exact frame_refl r
    | some x =>
      have hmem : x ∈ e.enrolments := List.mem_of_find?_eq_some hx
      obtain rfl := enrolment?_id hx
      have hstep : e.step r (.advance x.id) =
          ⟨(e.advanceEnrolment x).1, r, (e.advanceEnrolment x).2⟩ := by
        simp only [step, advance, hc, hx]
      have rests (he : ∀ fx ∈ (e.advanceEnrolment x).2, fx.isHandover = false)
          (hk : (e.advanceEnrolment x).1.kept = e.kept) :
          (Moment.mk e r (.advance x.id)).Flow := by
        refine .rest ?_ ?_
        · rwa [Moment.effects, Moment.outcome, hstep]
        · rwa [Moment.outcome, hstep]
      cases hst : x.stage with
      | listing | rejecting err =>
        refine rests ?_ ?_ <;> simp [advanceEnrolment, hst]
      | rejected err =>
        refine rests ?_ ?_ <;> simp [advanceEnrolment, hst, Effect.isHandover, dropEnrolment]
      | committed n =>
        refine .keep x n hmem hst rfl ?_ ?_
        · rw [Moment.effects, Moment.outcome, hstep, advanceEnrolment, hst]
        · rw [Moment.outcome, hstep, advanceEnrolment, hst]
          rfl
      | listed result =>
        cases result with
        | error err =>
          refine rests ?_ ?_ <;> simp [advanceEnrolment, hst, Effect.isHandover, dropEnrolment]
        | ok ds =>
          cases hr : e.catalog.registerAll
              (Declaration.entries β x.source x.group x.gated ds) with
          | ok p =>
            refine rests ?_ ?_ <;> simp [advanceEnrolment, hst, hr, setEnrolStage]
          | error err =>
            refine .refuse x ds hmem hst rfl ?_ ?_
            · simp only [Moment.effects, Moment.outcome, hstep, advanceEnrolment, hst, hr]
            · simp only [Moment.outcome, hstep, advanceEnrolment, hst, hr]
              rfl

/-- A step does one of these things to the sources that are kept. -/
theorem flow (r : Registry) (a : Action β) : (Moment.mk e r a).Flow := by
  cases a with
  | register entry =>
    cases hr : e.catalog.register entry with
    | ok t =>
      refine .rest ?_ ?_
      · rw [Moment.effects, Moment.outcome, step_register hr]
        simp [Effect.isHandover]
      · rw [Moment.outcome, step_register hr]
    | error err =>
      refine .rest ?_ ?_
      · rw [Moment.effects, Moment.outcome, step_register_error hr]
        simp [Effect.isHandover]
      · rw [Moment.outcome, step_register_error hr]
  | enrol source group gated =>
    exact .rest (by simp [Moment.effects, Moment.outcome, step, enrol, Effect.isHandover]) rfl
  | shutdown => exact .close rfl rfl rfl
  | list i result =>
    refine .rest (by simp [Moment.effects, Moment.outcome, step]) ?_
    simp only [Moment.outcome, step, list]
    split <;> rfl
  | disconnected i source =>
    refine .rest (by simp [Moment.effects, Moment.outcome, step]) ?_
    simp only [Moment.outcome, step, disconnected]
    split <;> rfl
  | cancel i => exact .rest (by simp [Moment.effects, Moment.outcome, step]) rfl
  | advance i => exact flow_advance r i
  | _ => exact flow_of_frame fun id => frame_step r rfl

/-! ### Shutdowns in flight -/

/-- The step leaves the shutdowns in flight as they are, and none returns. -/
structure Keeping (e : Engine β) (o : Outcome β) : Prop where
  closings : o.engine.closings = e.closings
  silent : ∀ i, .shutDown i ∉ o.effects

theorem not_shutDown_emit (event : DispatchEvent) (i : Nat) : .shutDown i ∉ e.emit event := by
  simp [emit]

theorem keeping_refl (r : Registry) : e.Keeping ⟨e, r, []⟩ := ⟨rfl, fun _ h => by cases h⟩

theorem keeping_setStage (r : Registry) (i : Nat) (s : Stage) :
    e.Keeping ⟨e.setStage i s, r, []⟩ := ⟨rfl, fun _ h => by cases h⟩

theorem keeping_invoke (r : Registry) (name : String) (args : Args) :
    e.Keeping ⟨(e.invoke name args).1, r, (e.invoke name args).2⟩ := by
  unfold invoke
  split <;> exact ⟨rfl, by simp⟩

theorem keeping_finish (r : Registry) (i : Nat) (remote : Bool)
    (result : Except ToolError Response) : e.Keeping ⟨e.finish i remote result, r, []⟩ := by
  unfold finish
  split
  · split
    · exact keeping_setStage r i _
    · exact keeping_setStage r i _
    · exact keeping_refl r
  · exact keeping_refl r

theorem keeping_advanceCall (r : Registry) (c : Call β) : e.Keeping (e.advanceCall r c) := by
  have conclude (kind : DispatchEvent.Kind) (result : Except DispatchError Response) (i : Nat) :
      .shutDown i ∉ (e.conclude c kind result).2 := by
    simp [Engine.conclude, not_shutDown_emit]
  have runs (i : Nat) : .shutDown i ∉ [run c] := by
    unfold run
    split <;> simp
  cases hst : c.stage with
  | found | chosen h =>
    simp only [advanceCall, hst]
    exact ⟨rfl, not_shutDown_emit _⟩
  | gate =>
    simp only [advanceCall, hst]
    split <;> exact ⟨rfl, by simp⟩
  | cleared =>
    simp only [advanceCall, hst]
    exact ⟨rfl, runs⟩
  | answered result =>
    rcases result with err | - | -
    · simp only [advanceCall, hst]
      exact ⟨rfl, conclude _ _⟩
    · simp only [advanceCall, hst]
      exact ⟨rfl, conclude _ _⟩
    · simp only [advanceCall, hst]
      exact ⟨rfl, not_shutDown_emit _⟩
  | ended result =>
    cases result <;>
    · simp only [advanceCall, hst]
      exact ⟨rfl, conclude _ _⟩
  | unset | presented h | asking h | running =>
    simp only [advanceCall, hst]
    exact ⟨rfl, by simp⟩

theorem keeping_advanceEnrolment (r : Registry) (x : Enrolment) :
    e.Keeping ⟨(e.advanceEnrolment x).1, r, (e.advanceEnrolment x).2⟩ := by
  unfold advanceEnrolment
  split
  · exact ⟨rfl, by simp⟩
  · split <;> exact ⟨rfl, by simp⟩
  · exact ⟨rfl, by simp⟩
  · exact ⟨rfl, by simp⟩
  · exact keeping_refl r
  · exact keeping_refl r

theorem keeping_step {a : Action β} (r : Registry) (ha : a.isAside = true) :
    e.Keeping (e.step r a) := by
  cases a with
  | addHook | removeHook _ | setHandler _ => exact ⟨rfl, by simp [step]⟩
  | invoke name args => exact keeping_invoke r name args
  | invokeValue name v =>
    dsimp only [step, invokeValue]
    split
    · exact keeping_invoke r name _
    · exact ⟨rfl, by simp⟩
  | answer i result =>
    dsimp only [step, answer]
    split
    · exact keeping_setStage r i _
    · exact keeping_refl r
  | finish i result => exact keeping_finish r i false result
  | reply i result => exact keeping_finish r i true _
  | _ => cases ha

/-- What a step does to a shutdown in flight: it begins with the sources that are kept, or one of
its sources answers; and it returns when all have. -/
structure Closes (e : Engine β) (a : Action β) (o : Outcome β) : Prop where
  pending : ∀ y ∈ o.engine.closings, y ∈ e.closings ∨ (a = .shutdown ∧ y = ⟨e.next, e.kept⟩) ∨
    ∃ z ∈ e.closings, ∃ source, a = .disconnected z.id source ∧
      y = ⟨z.id, z.pending.erase source⟩
  returns : ∀ i, .shutDown i ∈ o.effects → ⟨i, []⟩ ∈ e.closings

theorem Keeping.closes {o : Outcome β} (h : e.Keeping o) (a : Action β) : e.Closes a o where
  pending _ hy := .inl (h.closings ▸ hy)
  returns i hi := absurd hi (h.silent i)

theorem closes_advance (r : Registry) (i : Nat) :
    e.Closes (.advance i) (e.step r (.advance i)) := by
  cases hc : e.call? i with
  | some c =>
    simp only [step, advance, hc]
    exact (keeping_advanceCall r c).closes _
  | none =>
    cases hx : e.enrolment? i with
    | some x =>
      simp only [step, advance, hc, hx]
      exact (keeping_advanceEnrolment r x).closes _
    | none =>
      cases hy : e.closing? i with
      | none =>
        simp only [step, advance, hc, hx, hy]
        exact (keeping_refl r).closes _
      | some y =>
        have hmem : y ∈ e.closings := List.mem_of_find?_eq_some hy
        simp only [step, advance, hc, hx, hy, advanceClosing]
        split
        · rename_i hp
          refine ⟨fun z hz => .inl (List.mem_filter.1 hz).1, fun j hj => ?_⟩
          obtain rfl : j = y.id := by simpa using hj
          rwa [← List.isEmpty_iff.1 hp]
        · exact (keeping_refl r).closes _

theorem closes_step (r : Registry) (a : Action β) : e.Closes a (e.step r a) := by
  cases a with
  | register entry =>
    cases hr : e.catalog.register entry with
    | ok t => rw [step_register hr]; exact ⟨fun _ hy => .inl hy, by simp⟩
    | error err => rw [step_register_error hr]; exact ⟨fun _ hy => .inl hy, by simp⟩
  | enrol source group gated => exact ⟨fun _ hy => .inl hy, by simp [step, enrol]⟩
  | shutdown =>
    refine ⟨fun y hy => ?_, by simp [step, shutdown]⟩
    rcases List.mem_append.1 hy with hy | hy
    · exact .inl hy
    · exact .inr (.inl ⟨rfl, List.mem_singleton.1 hy⟩)
  | list i result =>
    refine ⟨fun y hy => ?_, by simp [step]⟩
    simp only [step, list] at hy
    split at hy <;> exact .inl hy
  | disconnected i source =>
    refine ⟨fun y hy => ?_, by simp [step]⟩
    simp only [step, disconnected] at hy
    split at hy
    · exact .inl hy
    · obtain ⟨z, hz, rfl⟩ := List.mem_map.1 hy
      split
      · rename_i hid
        exact .inr (.inr ⟨z, hz, source, by rw [hid], rfl⟩)
      · exact .inl hz
  | cancel i => exact ⟨fun y hy => .inl (List.mem_filter.1 hy).1, by simp [step]⟩
  | advance i => exact closes_advance r i
  | _ => exact (keeping_step r rfl).closes _

/-! ### A shutdown waits for its sources -/

/-- Every shutdown in flight with the number waits for the source. -/
def Waits (e : Engine β) (id source : Nat) : Prop :=
  ∀ y ∈ e.closings, y.id = id → source ∈ y.pending

theorem closings_below (r : Registry) (as : List (Action β)) :
    ∀ y ∈ (after ∅ r as).1.closings, y.id < (after ∅ r as).1.next := by
  induction as using List.reverseRecOn with
  | nil => intro y hy; cases hy
  | append_singleton as a ih =>
    rw [after_append]
    intro y hy
    have hnext := (sound_after r as).next_le (after ∅ r as).2 a
    rcases (closes_step (after ∅ r as).2 a).pending y hy with hy | ⟨rfl, rfl⟩ | ⟨z, hz, s, -, rfl⟩
    · exact Nat.lt_of_lt_of_le (ih y hy) hnext
    · exact Nat.lt_succ_self _
    · exact Nat.lt_of_lt_of_le (ih z hz) hnext

theorem Waits.after (h : e.Waits id source) (hs : e.Sound) (hid : id < e.next) (r : Registry)
    (as : List (Action β)) (hno : .disconnected id source ∉ as) :
    (e.after r as).1.Waits id source := by
  induction as generalizing e r with
  | nil => exact h
  | cons a as ih =>
    rw [List.mem_cons, not_or] at hno
    refine ih (fun y hy hyid => ?_) (hs.step a) (Nat.lt_of_lt_of_le hid (hs.next_le r a)) _ hno.2
    rcases (closes_step r a).pending y hy with hy | ⟨rfl, rfl⟩ | ⟨z, hz, s, rfl, rfl⟩
    · exact h y hy hyid
    · exact absurd hyid (Nat.ne_of_gt hid)
    · -- the answer is that of another source
      have hz' := h z hz hyid
      refine (List.mem_erase_of_ne fun hsame => hno.1 ?_).2 hz'
      rw [hsame, show z.id = id from hyid]

/-- A shutdown returns only after each source it took has answered. -/
theorem awaits {as : List (Action β)} {before later first rest : List (Moment β)} {z : Moment β}
    (h : record ∅ r as = before ++ m :: later) (hm : m.action = .shutdown)
    (hs : source ∈ m.engine.kept) (hl : later = first ++ z :: rest)
    (hz : .shutDown m.engine.next ∈ z.effects) :
    ∃ y ∈ first, y.action = .disconnected m.engine.next source := by
  obtain ⟨done, more, -, -, he, rfl, -⟩ := record_split h
  obtain ⟨done', more', -, rfl, he', -, -⟩ := record_split hl
  have hsound : m.engine.Sound := he ▸ sound_after r done
  by_contra hno
  have hnot : Action.disconnected m.engine.next source ∉ done' := by
    rw [← actions_record (e := m.outcome.engine) m.outcome.registry done']
    intro hmem
    obtain ⟨y, hy, ha⟩ := List.mem_map.1 hmem
    exact hno ⟨y, hy, ha⟩
  have hbegin : m.outcome.engine.Waits m.engine.next source ∧
      m.engine.next < m.outcome.engine.next := by
    have hbelow : ∀ y ∈ m.engine.closings, y.id < m.engine.next := he ▸ closings_below r done
    obtain ⟨e, r', a⟩ := m
    obtain rfl : a = .shutdown := hm
    refine ⟨fun y hy hid => ?_, Nat.lt_succ_self _⟩
    rcases List.mem_append.1 hy with hy | hy
    · exact absurd hid (Nat.ne_of_lt (hbelow y hy))
    · rw [List.mem_singleton.1 hy]
      exact hs
  have hw := hbegin.1.after (hsound.step _) hbegin.2 m.outcome.registry done' hnot
  rw [← he'] at hw
  cases hw _ ((closes_step z.registry z.action).returns _ hz) rfl

end Engine

end GatedCalls
