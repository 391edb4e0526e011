import GatedCalls.Proofs.Catalog.Upkeep
import GatedCalls.Proofs.Dispatch.Story

/-!
# The life of one registration

What a step of the engine means for the registration of a remote source with one number.
`Moment.deeds` is what a step shows of it: that the source has listed its tools, that the caller
gives it up, that the source is to be disconnected, and that it returns. `Enrolment.Move` lists
every way in which it can go on, with what goes with it: only one of them adds to the catalog, and
only one adds to the sources that are kept. `Bears.step` says that each step of the engine is one of
them or leaves the registration where it is.
-/

namespace GatedCalls

variable {β : Type} {e e' : Engine β} {r : Registry} {x : Enrolment} {o : Option Enrolment}
  {m : Moment β} {i id : Nat}

/-- Something that a run shows of one registration. -/
inductive Deed
  /-- The source has listed its tools, or failed to. -/
  | heard (result : Except SourceError (List Declaration))
  /-- The caller has given the registration up. -/
  | dropped
  | disconnecting (source : Nat)
  | returned (result : Except ReportedError Nat)

/-- The deed of the registration `id` in an effect. -/
def Effect.deed? (id : Nat) : Effect β → Option Deed
  | .disconnecting i source => if i = id then some (.disconnecting source) else none
  | .enrolled i result => if i = id then some (.returned result) else none
  | .added .. | .hookAdded _ | .hookRemoved .. | .emitted _ | .delivered .. | .asked .. | .ran ..
  | .forwarded .. | .returned .. | .listed .. | .shutDown _ => none

/-- Whether the action is for a call, a hook or the registry of handlers, and for nothing else. -/
def Action.isAside : Action β → Bool
  | .addHook | .removeHook _ | .setHandler _ | .invoke .. | .invokeValue .. | .answer ..
  | .finish .. | .reply .. => true
  | .register _ | .enrol .. | .shutdown | .list .. | .disconnected .. | .cancel _
  | .advance _ => false

def EnrolStage.isListing : EnrolStage → Bool
  | .listing => true
  | _ => false

namespace Moment

/-- What happens to the registration `id` from outside. -/
def received (m : Moment β) (id : Nat) : List Deed :=
  match m.action with
  | .list i result =>
    if i = id ∧ (m.engine.enrolment? id).any (·.stage.isListing) then [.heard result] else []
  | .cancel i =>
    if i = id ∧ (m.engine.enrolment? id).any (·.stage.isSuspended) then [.dropped] else []
  | _ => []

/-- All that the step shows of the registration `id`. -/
def deeds (m : Moment β) (id : Nat) : List Deed :=
  m.received id ++ m.effects.filterMap (Effect.deed? id)

/-- Whether the step is one of the registration `id`, once that has begun. -/
def serves (m : Moment β) (id : Nat) : Bool :=
  match m.action with
  | .list i _ | .disconnected i _ | .cancel i | .advance i => i == id
  | _ => false

/-- The step changes neither the catalog nor the sources that are kept. -/
structure Leaves (m : Moment β) : Prop where
  catalog : m.outcome.engine.catalog = m.engine.catalog
  kept : m.outcome.engine.kept = m.engine.kept

/-- The step adds the batch, whose names are free, to the catalog, in order. -/
structure Commits (m : Moment β) (batch : List (Entry β)) : Prop where
  admitted : m.engine.catalog.Admits batch
  adds : Catalog.Adds m.engine.catalog batch m.outcome.engine.catalog
  listed : m.outcome.engine.catalog.all = m.engine.catalog.all ++ batch
  ordered : m.outcome.engine.catalog.order = m.engine.catalog.order ++ batch.map Entry.name
  kept : m.outcome.engine.kept = m.engine.kept

/-- The step adds the source to those that are kept. -/
structure Keeps (m : Moment β) (source : Nat) : Prop where
  catalog : m.outcome.engine.catalog = m.engine.catalog
  kept : m.outcome.engine.kept = m.engine.kept ++ [source]

end Moment

def Enrolment.at (x : Enrolment) (s : EnrolStage) : Enrolment := { x with stage := s }

namespace Enrolment

/-- The entries of the tools that the source has listed. -/
def batch (β : Type) (x : Enrolment) (ds : List Declaration) : List (Entry β) :=
  Declaration.entries β x.source x.group x.gated ds

/-- One way in which a registration goes on in a step: what is shown of it, and its next stage, if
it is not over. -/
inductive Move (x : Enrolment) (m : Moment β) : List Deed → Option EnrolStage → Prop
  | hear (result : Except SourceError (List Declaration)) (h : x.stage = .listing)
    (hl : m.Leaves) : Move x m [.heard result] (some (.listed result))
  | drop (h : x.stage.isSuspended = true) (hl : m.Leaves) : Move x m [.dropped] none
  | fail (err : SourceError) (h : x.stage = .listed (.error err)) (hl : m.Leaves) :
    Move x m [.returned (.error err.report)] none
  | add (ds : List Declaration) (h : x.stage = .listed (.ok ds)) (hc : m.Commits (x.batch β ds)) :
    Move x m [] (some (.committed (x.batch β ds).length))
  | refuse (ds : List Declaration) (name : String) (h : x.stage = .listed (.ok ds))
    (hr : m.engine.catalog.Refuses (x.batch β ds) name) (hl : m.Leaves) :
    Move x m [.disconnecting x.source] (some (.rejecting (.duplicateName name)))
  | keep (n : Nat) (h : x.stage = .committed n) (hk : m.Keeps x.source) :
    Move x m [.returned (.ok n)] none
  | part (err : CatalogError) (h : x.stage = .rejecting err) (hl : m.Leaves) :
    Move x m [] (some (.rejected err))
  | decline (err : CatalogError) (h : x.stage = .rejected err) (hl : m.Leaves) :
    Move x m [.returned (.error err.report)] none

namespace Move

variable {ds : List Deed} {next : Option EnrolStage} {err : CatalogError}

theorem of_rejected (hm : x.Move m ds next) (hx : x.stage = .rejected err) :
    next = none ∧ ds = [.returned (.error err.report)] ∧ m.Leaves := by
  cases hm with
  | decline err' h hl =>
    obtain rfl : err' = err := by simpa [hx] using h.symm
    exact ⟨rfl, rfl, hl⟩
  | drop h => rw [hx] at h; cases h
  | _ => simp_all

theorem of_rejecting (hm : x.Move m ds next) (hx : x.stage = .rejecting err) :
    m.Leaves ∧ (next = none ∧ ds = [.dropped] ∨ next = some (.rejected err) ∧ ds = []) := by
  cases hm with
  | drop h hl => exact ⟨hl, .inl ⟨rfl, rfl⟩⟩
  | part err' h hl =>
    obtain rfl : err' = err := by simpa [hx] using h.symm
    exact ⟨hl, .inr ⟨rfl, rfl⟩⟩
  | _ => simp_all

theorem of_committed {n : Nat} (hm : x.Move m ds next) (hx : x.stage = .committed n) :
    next = none ∧ ds = [.returned (.ok n)] ∧ m.Keeps x.source := by
  cases hm with
  | keep n' h hk =>
    obtain rfl : n' = n := by simpa [hx] using h.symm
    exact ⟨rfl, rfl, hk⟩
  | drop h => rw [hx] at h; cases h
  | _ => simp_all

theorem of_failed {err : SourceError} (hm : x.Move m ds next)
    (hx : x.stage = .listed (.error err)) :
    next = none ∧ ds = [.returned (.error err.report)] ∧ m.Leaves := by
  cases hm with
  | fail err' h hl =>
    obtain rfl : err' = err := by simpa [hx] using h.symm
    exact ⟨rfl, rfl, hl⟩
  | drop h => rw [hx] at h; cases h
  | _ => simp_all

theorem of_listed {listing : List Declaration} (hm : x.Move m ds next)
    (hx : x.stage = .listed (.ok listing)) :
    (next = some (.committed (x.batch β listing).length) ∧ ds = [] ∧
      m.Commits (x.batch β listing)) ∨
    ∃ name, next = some (.rejecting (.duplicateName name)) ∧ ds = [.disconnecting x.source] ∧
      m.engine.catalog.Refuses (x.batch β listing) name ∧ m.Leaves := by
  cases hm with
  | add listing' h hc =>
    obtain rfl : listing' = listing := by simpa [hx] using h.symm
    exact .inl ⟨rfl, rfl, hc⟩
  | refuse listing' name h hr hl =>
    obtain rfl : listing' = listing := by simpa [hx] using h.symm
    exact .inr ⟨name, rfl, rfl, hr, hl⟩
  | drop h => rw [hx] at h; cases h
  | _ => simp_all

theorem of_listing (hm : x.Move m ds next) (hx : x.stage = .listing) :
    m.Leaves ∧ ((∃ result, next = some (.listed result) ∧ ds = [.heard result]) ∨
      next = none ∧ ds = [.dropped]) := by
  cases hm with
  | hear result h hl => exact ⟨hl, .inl ⟨result, rfl, rfl⟩⟩
  | drop h hl => exact ⟨hl, .inr ⟨rfl, rfl⟩⟩
  | _ => simp_all

theorem of_over (hm : x.Move m ds next) (hn : next = none) :
    .dropped ∈ ds ∨ ∃ result, .returned result ∈ ds := by
  cases hm <;> simp_all

theorem of_next {s : EnrolStage} (hm : x.Move m ds next) (hn : next = some s) :
    s.isListing = false := by
  cases hm <;> cases hn <;> rfl

end Move

end Enrolment

namespace Engine

/-- The catalog is coherent, and registrations in flight bear numbers that were given out. -/
structure Orderly (e : Engine β) : Prop where
  catalog : e.catalog.Coherent
  below : ∀ x ∈ e.enrolments, x.id < e.next

theorem orderly_empty : (∅ : Engine β).Orderly where
  catalog := Catalog.Coherent.empty
  below _ h := by cases h

/-! ### What a step does to registrations -/

/-- What a step leaves as it is that is none of a registration. -/
structure Frame (e : Engine β) (id : Nat) (o : Outcome β) : Prop where
  enrolments : o.engine.enrolments = e.enrolments
  catalog : o.engine.catalog = e.catalog
  kept : o.engine.kept = e.kept
  next : e.next ≤ o.engine.next
  silent : o.effects.filterMap (Effect.deed? id) = []

theorem deeds_emit (event : DispatchEvent) :
    (e.emit event).filterMap (Effect.deed? id) = [] := by
  simp [emit, Effect.deed?]

theorem deeds_run (c : Call β) : [run c].filterMap (Effect.deed? id) = [] := by
  unfold run
  split <;> rfl

theorem frame_advanceCall (r : Registry) (c : Call β) : e.Frame id (e.advanceCall r c) := by
  have conclude (kind : DispatchEvent.Kind) (result : Except DispatchError Response) :
      (e.conclude c kind result).2.filterMap (Effect.deed? id) = [] := by
    rw [Engine.conclude, List.filterMap_append, deeds_emit]
    rfl
  cases hst : c.stage with
  | found | chosen h =>
    simp only [advanceCall, hst]
    exact ⟨rfl, rfl, rfl, Nat.le_refl _, deeds_emit _⟩
  | gate =>
    simp only [advanceCall, hst]
    split <;> exact ⟨rfl, rfl, rfl, Nat.le_refl _, rfl⟩
  | cleared =>
    simp only [advanceCall, hst]
    exact ⟨rfl, rfl, rfl, Nat.le_refl _, deeds_run c⟩
  | answered result =>
    rcases result with err | - | -
    · simp only [advanceCall, hst]
      exact ⟨rfl, rfl, rfl, Nat.le_refl _, conclude _ _⟩
    · simp only [advanceCall, hst]
      exact ⟨rfl, rfl, rfl, Nat.le_refl _, conclude _ _⟩
    · simp only [advanceCall, hst]
      exact ⟨rfl, rfl, rfl, Nat.le_refl _, deeds_emit _⟩
  | ended result =>
    cases result <;>
    · simp only [advanceCall, hst]
      exact ⟨rfl, rfl, rfl, Nat.le_refl _, conclude _ _⟩
  | unset | presented h | asking h | running =>
    simp only [advanceCall, hst]
    exact ⟨rfl, rfl, rfl, Nat.le_refl _, rfl⟩

theorem frame_advanceClosing (r : Registry) (x : Closing) :
    e.Frame id ⟨(e.advanceClosing x).1, r, (e.advanceClosing x).2⟩ := by
  unfold advanceClosing
  split <;> exact ⟨rfl, rfl, rfl, Nat.le_refl _, rfl⟩

theorem frame_invoke (r : Registry) (name : String) (args : Args) :
    e.Frame id ⟨(e.invoke name args).1, r, (e.invoke name args).2⟩ := by
  unfold invoke
  split <;> exact ⟨rfl, rfl, rfl, Nat.le_succ _, rfl⟩

theorem frame_finish (r : Registry) (i : Nat) (remote : Bool) (result : Except ToolError Response) :
    e.Frame id ⟨e.finish i remote result, r, []⟩ := by
  unfold finish
  split
  · split <;> exact ⟨rfl, rfl, rfl, Nat.le_refl _, rfl⟩
  · exact ⟨rfl, rfl, rfl, Nat.le_refl _, rfl⟩

theorem frame_step {a : Action β} (r : Registry) (ha : a.isAside = true) :
    e.Frame id (e.step r a) := by
  cases a with
  | addHook | removeHook _ | setHandler _ => exact ⟨rfl, rfl, rfl, Nat.le_refl _, rfl⟩
  | invoke name args => exact frame_invoke r name args
  | invokeValue name v =>
    dsimp only [step, invokeValue]
    split
    · exact frame_invoke r name _
    · exact ⟨rfl, rfl, rfl, Nat.le_succ _, rfl⟩
  | answer i result =>
    dsimp only [step, answer]
    split <;> exact ⟨rfl, rfl, rfl, Nat.le_refl _, rfl⟩
  | finish i result => exact frame_finish r i false result
  | reply i result => exact frame_finish r i true _
  | _ => cases ha

/-- The registration `id` is `o`, or there is none. -/
structure Bears (e : Engine β) (id : Nat) (o : Option Enrolment) : Prop where
  sound : e.Sound
  orderly : e.Orderly
  ended : e.standing id = .over
  own : e.enrolments.filter (·.id == id) = o.toList

theorem Bears.enrolment? (h : e.Bears id o) : e.enrolment? id = o := by
  unfold Engine.enrolment?
  rw [← List.head?_filter, h.own]
  cases o <;> rfl

theorem enrolment?_id (h : e.enrolment? id = some x) : x.id = id := by
  simpa using List.find?_some h

theorem Bears.id_eq (h : e.Bears id (some x)) : x.id = id := by
  have hx : x ∈ e.enrolments.filter (·.id == id) := h.own ▸ List.mem_singleton_self x
  simpa using (List.mem_filter.1 hx).2

theorem own_setEnrolStage (i : Nat) (s : EnrolStage) :
    (e.setEnrolStage i s).enrolments.filter (·.id == id) =
      (e.enrolments.filter (·.id == id)).map fun x => if x.id = i then x.at s else x := by
  show (e.enrolments.map fun x => if x.id = i then x.at s else x).filter (·.id == id) = _
  rw [List.filter_map]
  congr 2
  funext x
  simp only [Function.comp]
  split <;> rfl

theorem own_filter {p : Enrolment → Bool} (h : ∀ x, x.id = id → p x = true) :
    (e.enrolments.filter p).filter (·.id == id) = e.enrolments.filter (·.id == id) := by
  rw [List.filter_filter]
  refine List.filter_congr fun x _ => ?_
  by_cases hx : x.id = id
  · simp [hx, h x hx]
  · simp [hx]

theorem own_setEnrolStage_ne (h : i ≠ id) (s : EnrolStage) :
    (e.setEnrolStage i s).enrolments.filter (·.id == id) = e.enrolments.filter (·.id == id) := by
  rw [own_setEnrolStage]
  refine (List.map_congr_left fun x hx => ?_).trans (List.map_id _)
  have hid : x.id = id := by simpa using (List.mem_filter.1 hx).2
  exact if_neg fun hi => h (hi.symm.trans hid)

theorem own_dropEnrolment_ne (h : i ≠ id) :
    (e.dropEnrolment i).enrolments.filter (·.id == id) = e.enrolments.filter (·.id == id) :=
  own_filter fun x hx => by simpa [hx] using h.symm

theorem Bears.own_setEnrolStage (h : e.Bears id (some x)) (s : EnrolStage) :
    (e.setEnrolStage id s).enrolments.filter (·.id == id) = (some (x.at s)).toList := by
  rw [Engine.own_setEnrolStage, h.own]
  simp [h.id_eq]

theorem own_dropEnrolment :
    (e.dropEnrolment id).enrolments.filter (·.id == id) = (none : Option Enrolment).toList := by
  show (e.enrolments.filter _).filter _ = []
  rw [List.filter_filter]
  refine List.filter_eq_nil_iff.2 fun x _ => by simp

/-- When another registration goes on, this one stays where it is and nothing is shown of it. -/
theorem advanceEnrolment_ne (h : x.id ≠ id) :
    (e.advanceEnrolment x).1.enrolments.filter (·.id == id) = e.enrolments.filter (·.id == id) ∧
      (e.advanceEnrolment x).2.filterMap (Effect.deed? id) = [] := by
  unfold advanceEnrolment
  split
  · exact ⟨own_dropEnrolment_ne h, by simp [Effect.deed?, h]⟩
  · split
    · exact ⟨own_setEnrolStage_ne h _, rfl⟩
    · exact ⟨own_setEnrolStage_ne h _, by simp [Effect.deed?, h]⟩
  · exact ⟨own_dropEnrolment_ne h, by simp [Effect.deed?, h]⟩
  · exact ⟨own_dropEnrolment_ne h, by simp [Effect.deed?, h]⟩
  · exact ⟨rfl, rfl⟩
  · exact ⟨rfl, rfl⟩

/-! ### Order is kept -/

theorem Orderly.of_ids (h : e.Orderly) (hc : e'.catalog.Coherent) (hn : e.next ≤ e'.next)
    (hx : e'.enrolments.map Enrolment.id ⊆ e.enrolments.map Enrolment.id) : e'.Orderly := by
  refine ⟨hc, fun x hmem => ?_⟩
  obtain ⟨y, hy, hid⟩ := List.mem_map.1 (hx (List.mem_map_of_mem hmem))
  exact Nat.lt_of_lt_of_le (hid ▸ h.below y hy) hn

theorem Orderly.of_frame (h : e.Orderly) {o : Outcome β} (ho : e.Frame id o) :
    o.engine.Orderly :=
  h.of_ids (ho.catalog ▸ h.catalog) ho.next (by rw [ho.enrolments]; exact List.Subset.refl _)

theorem ids_setEnrolStage (i : Nat) (s : EnrolStage) :
    (e.setEnrolStage i s).enrolments.map Enrolment.id = e.enrolments.map Enrolment.id := by
  show (e.enrolments.map _).map Enrolment.id = _
  rw [List.map_map]
  refine List.map_congr_left fun x _ => ?_
  dsimp only [Function.comp]
  split <;> rfl

theorem Orderly.setEnrolStage (h : e.Orderly) (i : Nat) (s : EnrolStage) :
    (e.setEnrolStage i s).Orderly :=
  h.of_ids h.catalog (Nat.le_refl _) (by rw [ids_setEnrolStage]; exact List.Subset.refl _)

theorem Orderly.filter (h : e.Orderly) (p : Enrolment → Bool) (hc : e'.catalog = e.catalog)
    (hn : e'.next = e.next) (hx : e'.enrolments = e.enrolments.filter p) : e'.Orderly := by
  refine h.of_ids (hc ▸ h.catalog) (Nat.le_of_eq hn.symm) ?_
  rw [hx]
  exact List.map_subset _ (List.filter_subset_self _)

theorem Orderly.advanceEnrolment (h : e.Orderly) (x : Enrolment) :
    (e.advanceEnrolment x).1.Orderly := by
  unfold Engine.advanceEnrolment
  split
  · exact h.filter (·.id != x.id) rfl rfl rfl
  · split
    · rename_i hr
      obtain ⟨-, hf, -⟩ := Catalog.admits_of_registerAll hr
      refine h.of_ids (h.catalog.foldlM hf).1 (Nat.le_refl _) ?_
      rw [ids_setEnrolStage]
      exact List.Subset.refl _
    · exact h.setEnrolStage _ _
  · exact h.filter (·.id != x.id) rfl rfl rfl
  · exact h.filter (·.id != x.id) rfl rfl rfl
  · exact h
  · exact h

theorem Orderly.advance (h : e.Orderly) (i : Nat) : (e.advance r i).engine.Orderly := by
  unfold Engine.advance
  cases e.call? i with
  | some c => exact h.of_frame (frame_advanceCall r c : e.Frame i _)
  | none =>
    cases e.enrolment? i with
    | some x => exact h.advanceEnrolment x
    | none =>
      cases e.closing? i with
      | some x => exact h.of_frame (frame_advanceClosing r x : e.Frame i _)
      | none => exact h

theorem Orderly.step (h : e.Orderly) (r : Registry) (a : Action β) :
    (e.step r a).engine.Orderly := by
  cases a with
  | register entry =>
    cases hr : e.catalog.register entry with
    | ok t =>
      rw [step_register hr]
      exact h.of_ids (h.catalog.register hr) (Nat.le_refl _) (List.Subset.refl _)
    | error err => rw [step_register_error hr]; exact h
  | enrol source group gated =>
    refine ⟨h.catalog, fun x hx => ?_⟩
    rcases List.mem_append.1 hx with hx | hx
    · exact Nat.lt_succ_of_lt (h.below x hx)
    · rw [List.mem_singleton.1 hx]
      exact Nat.lt_succ_self _
  | shutdown => exact h.of_ids h.catalog (Nat.le_succ _) (List.Subset.refl _)
  | list i result =>
    dsimp only [Engine.step, Engine.list]
    split
    · exact h.setEnrolStage i _
    · exact h
  | disconnected i source =>
    dsimp only [Engine.step, Engine.disconnected]
    split
    · exact h.setEnrolStage i _
    · exact h.of_ids h.catalog (Nat.le_refl _) (List.Subset.refl _)
  | cancel i =>
    exact h.filter (fun x => !(x.id == i && x.stage.isSuspended)) rfl rfl rfl
  | advance i => exact h.advance i
  | _ => exact h.of_frame (frame_step r rfl : e.Frame e.next _)

end Engine

/-! ### Steps of a registration -/

/-- The step leaves the registration where it is. -/
structure Moment.Passes (m : Moment β) (id : Nat) (o : Option Enrolment) : Prop where
  silent : m.deeds id = []
  leaves : m.serves id = true → m.Leaves
  bears : m.outcome.engine.Bears id o

/-- The registration goes on in the step. -/
structure Moment.Moves (m : Moment β) (id : Nat) (x : Enrolment) (next : Option EnrolStage) :
    Prop where
  serves : m.serves id = true
  move : x.Move m (m.deeds id) next
  bears : m.outcome.engine.Bears id (next.map x.at)

/-- The step leaves the registration where it is, or the registration goes on. -/
def Moment.Follows (m : Moment β) (id : Nat) (o : Option Enrolment) : Prop :=
  m.Passes id o ∨ ∃ x next, o = some x ∧ m.Moves id x next

namespace Engine

theorem Bears.call? (h : e.Bears id o) : e.call? id = none := by
  cases hc : e.call? id with
  | none => rfl
  | some c =>
    have hs := h.sound.standing hc
    rw [h.ended] at hs
    cases hs

theorem Bears.next (h : e.Bears id o) (r : Registry) (a : Action β) {o' : Option Enrolment}
    (ho : (e.step r a).engine.enrolments.filter (·.id == id) = o'.toList) :
    (Moment.mk e r a).outcome.engine.Bears id o' := by
  refine ⟨h.sound.step a, h.orderly.step r a, ?_, ho⟩
  have hm : GatedCalls.Move id r (e.standing id) _ _ := step_move h.sound a
  rw [h.ended] at hm
  show (e.step r a).engine.standing id = .over
  generalize (e.step r a).engine.standing id = y at hm
  generalize (Moment.mk e r a).notes id = ns at hm
  cases hm
  rfl

theorem Bears.commits (h : e.Bears id o) {a : Action β} {batch : List (Entry β)}
    {c : Catalog β} {n : Nat} (hr : e.catalog.registerAll batch = .ok (c, n))
    (hc : (e.step r a).engine.catalog = c) (hk : (e.step r a).engine.kept = e.kept) :
    (Moment.mk e r a).Commits batch ∧ n = batch.length := by
  obtain ⟨ha, hf, hn⟩ := Catalog.admits_of_registerAll hr
  subst hc
  exact ⟨⟨ha, .foldlM hf, (h.orderly.catalog.foldlM hf).2, Catalog.order_foldlM hf, hk⟩, hn⟩

theorem Bears.advance_eq (h : e.Bears id (some x)) :
    e.step r (.advance id) = ⟨(e.advanceEnrolment x).1, r, (e.advanceEnrolment x).2⟩ := by
  simp only [Engine.step, Engine.advance, h.call?, h.enrolment?]

theorem leaves_of {a : Action β} (he : (e.step r a).engine = e') (hc : e'.catalog = e.catalog)
    (hk : e'.kept = e.kept) : (Moment.mk e r a).Leaves :=
  ⟨(congrArg Engine.catalog he).trans hc, (congrArg Engine.kept he).trans hk⟩

/-- What `advanceEnrolment` does is how the registration goes on. -/
theorem Bears.goes (h : e.Bears id (some x)) {fx : List (Effect β)} (ds : List Deed)
    (next : Option EnrolStage) (ha : e.advanceEnrolment x = (e', fx))
    (hd : fx.filterMap (Effect.deed? id) = ds)
    (ho : e'.enrolments.filter (·.id == id) = (next.map x.at).toList)
    (hm : (e.step r (.advance id)).engine = e' → x.Move (Moment.mk e r (.advance id)) ds next) :
    (Moment.mk e r (.advance id)).Moves id x next := by
  have hstep := h.advance_eq (r := r)
  rw [ha] at hstep
  have he : (e.step r (.advance id)).engine = e' := by rw [hstep]
  have hds : (Moment.mk e r (.advance id)).deeds id = ds := by
    show (e.step r (.advance id)).effects.filterMap _ = ds
    rw [hstep]
    exact hd
  exact ⟨beq_self_eq_true id, hds ▸ hm he, h.next r _ (by rw [he]; exact ho)⟩

theorem Bears.advance_listed (h : e.Bears id (some x)) (r : Registry) {ds : List Declaration}
    (hst : x.stage = .listed (.ok ds)) :
    ∃ next, (Moment.mk e r (.advance id)).Moves id x next := by
  have hid := h.id_eq
  have hbatch : Declaration.entries β x.source x.group x.gated ds = x.batch β ds := rfl
  cases hr : e.catalog.registerAll (x.batch β ds) with
  | ok p =>
    have ha : e.advanceEnrolment x =
        ({ e with catalog := p.1 }.setEnrolStage x.id (.committed p.2), []) := by
      simp only [advanceEnrolment, hst, hbatch, hr]
    refine ⟨_, h.goes [] (some (.committed p.2)) ha rfl ?_ fun he => ?_⟩
    · rw [hid]
      exact h.own_setEnrolStage (.committed p.2)
    · have hk : (e.step r (.advance id)).engine.kept = e.kept := by rw [he]; rfl
      obtain ⟨hc, hn⟩ := h.commits hr (congrArg Engine.catalog he) hk
      rw [hn]
      exact .add ds hst hc
  | error err =>
    have ha : e.advanceEnrolment x =
        (e.setEnrolStage x.id (.rejecting err), [.disconnecting x.id x.source]) := by
      simp only [advanceEnrolment, hst, hbatch, hr]
    obtain ⟨name, hrefused, rfl⟩ := Catalog.registerAll_eq_error.1 hr
    refine ⟨_, h.goes [.disconnecting x.source]
      (some (.rejecting (.duplicateName name))) ha ?_ ?_ fun he => ?_⟩
    · exact List.filterMap_cons_some (if_pos hid)
    · rw [hid]
      exact h.own_setEnrolStage _
    · exact .refuse ds name hst hrefused (leaves_of he rfl rfl)

theorem Bears.advance (h : e.Bears id (some x)) (r : Registry)
    (hx : x.stage.isSuspended = false) :
    ∃ next, (Moment.mk e r (.advance id)).Moves id x next := by
  have hid := h.id_eq
  -- a registration that returns is gone
  have returns (e' : Engine β) (result : Except ReportedError Nat)
      (ha : e.advanceEnrolment x = (e'.dropEnrolment x.id, [.enrolled x.id result]))
      (hm : (e.step r (.advance id)).engine = e'.dropEnrolment x.id →
        x.Move (Moment.mk e r (.advance id)) [.returned result] none) :
      ∃ next, (Moment.mk e r (.advance id)).Moves id x next := by
    refine ⟨none, h.goes [.returned result] none ha ?_ ?_ hm⟩
    · exact List.filterMap_cons_some (if_pos hid)
    · rw [hid]
      exact own_dropEnrolment
  cases hst : x.stage with
  | listing | rejecting err => rw [hst] at hx; cases hx
  | listed result =>
    cases result with
    | error err =>
      refine returns e (.error err.report) (by simp only [advanceEnrolment, hst]) fun he => ?_
      exact .fail err hst (leaves_of he rfl rfl)
    | ok ds => exact h.advance_listed r hst
  | committed n =>
    refine returns { e with kept := e.kept ++ [x.source] } (.ok n)
      (by simp only [advanceEnrolment, hst]) fun he => ?_
    exact .keep n hst ⟨by rw [Moment.outcome, he]; rfl, by rw [Moment.outcome, he]; rfl⟩
  | rejected err =>
    refine returns e (.error err.report) (by simp only [advanceEnrolment, hst]) fun he => ?_
    exact .decline err hst (leaves_of he rfl rfl)

theorem Bears.advance_suspended (h : e.Bears id (some x)) (r : Registry)
    (hx : x.stage.isSuspended = true) : e.step r (.advance id) = ⟨e, r, []⟩ := by
  rw [h.advance_eq]
  cases hst : x.stage with
  | listing | rejecting err => simp only [advanceEnrolment, hst]
  | listed result | committed n | rejected err => rw [hst] at hx; cases hx

theorem Bears.disconnected (h : e.Bears id (some x)) (r : Registry) {err : CatalogError}
    (hst : x.stage = .rejecting err) (source : Nat) :
    (Moment.mk e r (.disconnected id source)).Moves id x (some (.rejected err)) := by
  have he : (e.step r (.disconnected id source)).engine = e.setEnrolStage id (.rejected err) := by
    simp only [Engine.step, Engine.disconnected, enrolStage?, h.enrolment?, Option.map_some, hst]
  refine ⟨beq_self_eq_true id, .part err hst (leaves_of he rfl rfl), h.next r _ ?_⟩
  rw [he]
  exact h.own_setEnrolStage _

theorem Bears.id_lt (h : e.Bears id o) : id < e.next := by
  refine Nat.lt_of_not_le fun hle => ?_
  have hf : e.standing id = .fresh := if_pos hle
  rw [h.ended] at hf
  cases hf

theorem Bears.pass (h : e.Bears id o) {a : Action β}
    (hr : (Moment.mk e r a).received id = []) (hf : e.Frame id (e.step r a)) :
    (Moment.mk e r a).Follows id o := by
  refine .inl ⟨?_, fun _ => ⟨hf.catalog, hf.kept⟩, h.next r a ?_⟩
  · rw [Moment.deeds, hr]
    exact hf.silent
  · rw [hf.enrolments]
    exact h.own

theorem Bears.pass_other (h : e.Bears id o) {a : Action β}
    (hs : (Moment.mk e r a).serves id = false) (hd : (Moment.mk e r a).deeds id = [])
    (ho : (e.step r a).engine.enrolments.filter (·.id == id) =
      e.enrolments.filter (·.id == id)) : (Moment.mk e r a).Follows id o :=
  .inl ⟨hd, fun hm => absurd (hs.symm.trans hm) Bool.false_ne_true,
    h.next r a (ho.trans h.own)⟩

theorem frame_refl (r : Registry) : e.Frame id ⟨e, r, []⟩ := ⟨rfl, rfl, rfl, Nat.le_refl _, rfl⟩

theorem Bears.step_list (h : e.Bears id o) (r : Registry) (i : Nat)
    (result : Except SourceError (List Declaration)) :
    (Moment.mk e r (.list i result)).Follows id o := by
  by_cases hx : ∃ x, e.enrolment? i = some x ∧ x.stage = .listing
  · obtain ⟨x, hx, hst⟩ := hx
    have he : e.list i result = e.setEnrolStage i (.listed result) := by
      simp only [Engine.list, enrolStage?, hx, Option.map_some, hst]
    have hstep : e.step r (.list i result) = ⟨e.setEnrolStage i (.listed result), r, []⟩ := by
      simp only [Engine.step, he]
    by_cases hi : i = id
    · subst hi
      obtain rfl : o = some x := h.enrolment?.symm.trans hx
      have hd : (Moment.mk e r (.list i result)).deeds i = [.heard result] := by
        simp [Moment.deeds, Moment.received, Moment.effects, Moment.outcome, hstep, hx, hst,
          EnrolStage.isListing]
      refine .inr ⟨x, some (.listed result), rfl, beq_self_eq_true i, ?_, h.next r _ ?_⟩
      · rw [hd]
        exact .hear result hst (leaves_of (congrArg Outcome.engine hstep) rfl rfl)
      · rw [hstep]
        exact h.own_setEnrolStage _
    · refine h.pass_other (by simpa [Moment.serves] using hi) ?_ ?_
      · simp [Moment.deeds, Moment.received, Moment.effects, Moment.outcome, hstep, hi]
      · rw [hstep]
        exact own_setEnrolStage_ne hi _
  · have he : e.list i result = e := by
      unfold Engine.list enrolStage?
      split
      · rename_i heq
        exact absurd (Option.map_eq_some_iff.1 heq) hx
      · rfl
    have hstep : e.step r (.list i result) = ⟨e, r, []⟩ := by simp only [Engine.step, he]
    refine h.pass ?_ (hstep ▸ frame_refl r)
    refine if_neg fun hserves => hx ?_
    obtain ⟨rfl, hany⟩ := hserves
    cases hxi : e.enrolment? i with
    | none => rw [hxi] at hany; cases hany
    | some x =>
      rw [hxi] at hany
      cases hst : x.stage <;> simp [hst, EnrolStage.isListing] at hany
      exact ⟨x, rfl, hst⟩

theorem Bears.step_disconnected (h : e.Bears id o) (r : Registry) (i source : Nat) :
    (Moment.mk e r (.disconnected i source)).Follows id o := by
  by_cases hx : ∃ x, e.enrolment? i = some x ∧ ∃ err, x.stage = .rejecting err
  · obtain ⟨x, hx, err, hst⟩ := hx
    by_cases hi : i = id
    · subst hi
      obtain rfl : o = some x := h.enrolment?.symm.trans hx
      exact .inr ⟨x, _, rfl, h.disconnected r hst source⟩
    · refine h.pass_other (by simpa [Moment.serves] using hi) rfl ?_
      simp only [Engine.step, Engine.disconnected, enrolStage?, hx, Option.map_some, hst]
      exact own_setEnrolStage_ne hi _
  · refine h.pass rfl ?_
    simp only [Engine.step, Engine.disconnected]
    split
    · rename_i err heq
      obtain ⟨x, hx', hst⟩ := Option.map_eq_some_iff.1 heq
      exact absurd ⟨x, hx', err, hst⟩ hx
    · exact ⟨rfl, rfl, rfl, Nat.le_refl _, rfl⟩

theorem Bears.step_cancel (h : e.Bears id o) (r : Registry) (i : Nat) :
    (Moment.mk e r (.cancel i)).Follows id o := by
  have hown : (e.cancel i).enrolments.filter (·.id == id) =
      (e.enrolments.filter (·.id == id)).filter fun x => !(x.id == i && x.stage.isSuspended) := by
    show (e.enrolments.filter _).filter _ = _
    rw [List.filter_filter, List.filter_filter]
    exact List.filter_congr fun x _ => Bool.and_comm ..
  have hleaves : (Moment.mk e r (.cancel i)).Leaves := ⟨rfl, rfl⟩
  have hd : (Moment.mk e r (.cancel i)).deeds id =
      if i = id ∧ o.any (·.stage.isSuspended) then [.dropped] else [] := by
    rw [← h.enrolment?]
    exact List.append_nil _
  rw [h.own] at hown
  by_cases hx : i = id ∧ o.any (·.stage.isSuspended) = true
  · rw [if_pos hx] at hd
    obtain ⟨rfl, hany⟩ := hx
    cases o with
    | none => cases hany
    | some x =>
      have hst : x.stage.isSuspended = true := hany
      refine .inr ⟨x, none, rfl, beq_self_eq_true i, hd ▸ .drop hst hleaves,
        h.next r _ (hown.trans ?_)⟩
      simp [h.id_eq, hst]
  · rw [if_neg hx] at hd
    refine .inl ⟨hd, fun _ => hleaves, h.next r _ (hown.trans ?_)⟩
    refine List.filter_eq_self.2 fun x hmem => ?_
    obtain rfl := Option.mem_toList.1 hmem
    have hid := h.id_eq
    simp only [Option.any_some] at hx
    grind

theorem Bears.step_advance (h : e.Bears id o) (r : Registry) (i : Nat) :
    (Moment.mk e r (.advance i)).Follows id o := by
  have closing (hc : e.call? i = none) (hx : e.enrolment? i = none) :
      (Moment.mk e r (.advance i)).Follows id o := by
    refine h.pass rfl ?_
    simp only [Engine.step, Engine.advance, hc, hx]
    cases e.closing? i with
    | some x => exact frame_advanceClosing r x
    | none => exact frame_refl r
  cases hc : e.call? i with
  | some c =>
    refine h.pass rfl ?_
    simp only [Engine.step, Engine.advance, hc]
    exact frame_advanceCall r c
  | none =>
    cases hx : e.enrolment? i with
    | none => exact closing hc hx
    | some x =>
      by_cases hi : i = id
      · subst hi
        obtain rfl : o = some x := h.enrolment?.symm.trans hx
        cases hst : x.stage.isSuspended with
        | false =>
          obtain ⟨next, hm⟩ := h.advance r hst
          exact .inr ⟨x, next, rfl, hm⟩
        | true =>
          refine h.pass rfl ?_
          rw [h.advance_suspended r hst]
          exact frame_refl r
      · have hid : x.id ≠ id := fun he => hi ((enrolment?_id hx).symm.trans he)
        obtain ⟨ho, hd⟩ := advanceEnrolment_ne (e := e) hid
        have hstep : e.step r (.advance i) =
            ⟨(e.advanceEnrolment x).1, r, (e.advanceEnrolment x).2⟩ := by
          simp only [Engine.step, Engine.advance, hc, hx]
        refine h.pass_other (by simpa [Moment.serves] using hi) ?_ ?_
        · show (e.step r (.advance i)).effects.filterMap _ = []
          rw [hstep]
          exact hd
        · rw [hstep]
          exact ho

/-- A step leaves the registration where it is, or the registration goes on. -/
theorem Bears.step (h : e.Bears id o) (r : Registry) (a : Action β) :
    (Moment.mk e r a).Follows id o := by
  have hne : e.next ≠ id := Nat.ne_of_gt h.id_lt
  cases a with
  | register entry =>
    cases hr : e.catalog.register entry with
    | ok t =>
      refine h.pass_other rfl ?_ ?_
      · rw [Moment.deeds, Moment.effects, Moment.outcome, step_register hr]
        rfl
      · rw [step_register hr]
    | error err =>
      refine h.pass rfl ?_
      rw [step_register_error hr]
      exact ⟨rfl, rfl, rfl, Nat.le_refl _, rfl⟩
  | enrol source group gated =>
    refine h.pass_other rfl rfl ?_
    show (e.enrolments ++ [_]).filter _ = _
    rw [List.filter_append, List.filter_cons_of_neg (by simpa using hne)]
    exact List.append_nil _
  | shutdown =>
    refine h.pass_other rfl ?_ rfl
    simp [Moment.deeds, Moment.received, Moment.effects, Moment.outcome, Engine.step,
      Engine.shutdown, Effect.deed?, hne]
  | list i result => exact h.step_list r i result
  | disconnected i source => exact h.step_disconnected r i source
  | cancel i => exact h.step_cancel r i
  | advance i => exact h.step_advance r i
  | _ => exact h.pass rfl (frame_step r rfl)

end Engine

end GatedCalls
