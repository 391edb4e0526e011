import GatedCalls.Proofs.Dispatch.Commit
import Mathlib.Data.List.Induction

/-!
# What a registration has shown so far

`Course` says what the rest of a run can show of a registration. Here the run is read from its
start: `Chronicle` lists which deeds, and which batches put into the catalog, go with each stage a
registration can be at. A step adds its deeds and its commit to the chronicle (`Tracks.step`), so at
every moment the chronicle goes with where the registration is (`tracks_record`).
-/

namespace GatedCalls

variable {β : Type} {e e' : Engine β} {r : Registry} {x : Enrolment} {o : Option Enrolment}
  {m : Moment β} {i id : Nat}

/-! ### The chronicle -/

/-- What a run has shown of a registration that is at a stage, or over, and what it has put into the
catalog. -/
inductive Chronicle (source : Nat) (offer : List Declaration → List (Entry β)) :
    Option EnrolStage → List Deed → List (Catalog.Op β) → Prop
  | listing : Chronicle source offer (some .listing) [] []
  | listed (result : Except SourceError (List Declaration)) :
    Chronicle source offer (some (.listed result)) [.heard result] []
  | committed (ds : List Declaration) :
    Chronicle source offer (some (.committed (offer ds).length)) [.heard (.ok ds)]
      [.registerAll (offer ds)]
  | rejecting (ds : List Declaration) (name : String) :
    Chronicle source offer (some (.rejecting (.duplicateName name)))
      [.heard (.ok ds), .disconnecting source] []
  | rejected (ds : List Declaration) (name : String) :
    Chronicle source offer (some (.rejected (.duplicateName name)))
      [.heard (.ok ds), .disconnecting source] []
  /-- Given up before the source answered. -/
  | withdrawn : Chronicle source offer none [.dropped] []
  | failed (err : SourceError) :
    Chronicle source offer none [.heard (.error err), .returned (.error err.report)] []
  | kept (ds : List Declaration) :
    Chronicle source offer none [.heard (.ok ds), .returned (.ok (offer ds).length)]
      [.registerAll (offer ds)]
  /-- Given up while the source of a refused batch is disconnected. -/
  | abandoned (ds : List Declaration) :
    Chronicle source offer none [.heard (.ok ds), .disconnecting source, .dropped] []
  | refused (ds : List Declaration) (name : String) :
    Chronicle source offer none
      [.heard (.ok ds), .disconnecting source, .returned (.error (.duplicateName name))] []

namespace Chronicle

variable {source : Nat} {offer : List Declaration → List (Entry β)} {st : Option EnrolStage}
  {ds : List Deed} {ops : List (Catalog.Op β)}

theorem of_op {op : Catalog.Op β} (h : Chronicle source offer st ds ops) (hop : op ∈ ops) :
    ∃ listing, .heard (.ok listing) ∈ ds ∧ ops = [.registerAll (offer listing)] := by
  cases h with
  | committed listing | kept listing => exact ⟨listing, List.mem_cons_self, rfl⟩
  | _ => cases hop

/-- A registration whose batch was refused, or that failed, has put nothing into the catalog. -/
theorem unadded (h : Chronicle source offer st ds ops)
    (hd : .disconnecting source ∈ ds ∨ ∃ err, .returned (.error err) ∈ ds) : ops = [] := by
  cases h with
  | committed listing | kept listing => simp at hd
  | _ => rfl

end Chronicle

namespace Engine

variable {source : Nat} {offer : List Declaration → List (Entry β)} {ds : List Deed}
  {ops : List (Catalog.Op β)}

/-- The registration `id` is one of the source, which offers entries for what it lists, and the
deeds and the batches go with where it is. -/
structure Tracks (e : Engine β) (id source : Nat) (offer : List Declaration → List (Entry β))
    (o : Option Enrolment) (ds : List Deed) (ops : List (Catalog.Op β)) : Prop where
  bears : e.Bears id o
  ours : ∀ x, o = some x → x.source = source ∧ x.batch β = offer
  chronicle : Chronicle source offer (o.map Enrolment.stage) ds ops

theorem Tracks.move (h : e.Tracks id source offer (some x) ds ops) {a : Action β}
    {next : Option EnrolStage} (hm : (Moment.mk e r a).Moves id x next) :
    Chronicle source offer next (ds ++ (Moment.mk e r a).deeds id)
      (ops ++ (Moment.mk e r a).commitsOf id) := by
  obtain ⟨rfl, rfl⟩ := h.ours x rfl
  -- only a listing that is admitted goes into the catalog
  have idle (hx : ∀ ds, x.stage = .listed (.ok ds) → ¬ e.catalog.Admits (x.batch β ds)) :
      (Moment.mk e r a).commitsOf id = [] := by
    rcases h.bears.commitsOf_cases r a with hc | ⟨x', ds, hx', hst, ha, -⟩
    · exact hc
    · obtain rfl := Option.some.inj hx'
      exact absurd ha (hx ds hst)
  have hch := h.chronicle
  have hmove := hm.move
  simp only [Option.map_some] at hch
  generalize hd : (Moment.mk e r a).deeds id = new at hmove ⊢
  cases hmove with
  | hear result hst hl =>
    rw [idle fun ds hx => by simp [hst] at hx]
    rw [hst] at hch
    cases hch
    exact .listed result
  | drop hst hl =>
    rw [idle fun ds hx => by simp [hx, EnrolStage.isSuspended] at hst]
    cases hstage : x.stage with
    | listing =>
      rw [hstage] at hch
      cases hch
      exact .withdrawn
    | rejecting err =>
      rw [hstage] at hch
      cases hch with
      | rejecting ds name => exact .abandoned ds
    | listed | committed | rejected => rw [hstage] at hst; cases hst
  | fail err hst hl =>
    rw [idle fun ds hx => by simp [hst] at hx]
    rw [hst] at hch
    cases hch
    exact .failed err
  | add listing hst hc =>
    obtain rfl := h.bears.advance_of_committed (by simp [hst]) hm.bears
    rw [h.bears.commitsOf_advance r hst hc.admitted]
    rw [hst] at hch
    cases hch
    exact .committed listing
  | refuse listing name hst hr hl =>
    have hrefused (ds : List Declaration) (hx : x.stage = .listed (.ok ds)) :
        ¬ e.catalog.Admits (x.batch β ds) := by
      obtain rfl : listing = ds := by simpa [hst] using hx
      exact hr.not_admits
    rw [idle hrefused]
    rw [hst] at hch
    cases hch
    exact .rejecting listing name
  | keep n hst hk =>
    rw [idle fun ds hx => by simp [hst] at hx]
    rw [hst] at hch
    cases hch with
    | committed ds => exact .kept ds
  | part err hst hl =>
    rw [idle fun ds hx => by simp [hst] at hx]
    rw [hst] at hch
    cases hch with
    | rejecting ds name => exact .rejected ds name
  | decline err hst hl =>
    rw [idle fun ds hx => by simp [hst] at hx]
    rw [hst] at hch
    cases hch with
    | rejected ds name => exact .refused ds name

theorem Tracks.step (h : e.Tracks id source offer o ds ops) (r : Registry) (a : Action β) :
    ∃ o', (e.step r a).engine.Tracks id source offer o' (ds ++ (Moment.mk e r a).deeds id)
      (ops ++ (Moment.mk e r a).commitsOf id) := by
  rcases h.bears.step r a with hp | ⟨x, next, rfl, hm⟩
  · refine ⟨o, hp.bears, h.ours, ?_⟩
    rw [hp.silent, h.bears.commitsOf_pass hp, List.append_nil, List.append_nil]
    exact h.chronicle
  · refine ⟨next.map x.at, hm.bears, fun y hy => ?_, ?_⟩
    · obtain ⟨s, -, rfl⟩ := Option.map_eq_some_iff.1 hy
      exact h.ours x rfl
    · have hch := h.move hm
      rw [Option.map_map]
      cases next <;> exact hch

/-! ### Runs -/

/-- The engine and the registry at the end of a run. -/
def after (e : Engine β) (r : Registry) : List (Action β) → Engine β × Registry
  | [] => (e, r)
  | a :: rest => (e.step r a).engine.after (e.step r a).registry rest

theorem record_append (e : Engine β) (r : Registry) (as bs : List (Action β)) :
    e.record r (as ++ bs) = e.record r as ++ (e.after r as).1.record (e.after r as).2 bs := by
  induction as generalizing e r with
  | nil => rfl
  | cons a as ih => exact congrArg _ (ih _ _)

theorem actions_record (r : Registry) (as : List (Action β)) :
    (e.record r as).map Moment.action = as := by
  induction as generalizing e r with
  | nil => rfl
  | cons a as ih => exact congrArg _ (ih _)

theorem after_append (e : Engine β) (r : Registry) (as bs : List (Action β)) :
    e.after r (as ++ bs) = (e.after r as).1.after (e.after r as).2 bs := by
  induction as generalizing e r with
  | nil => rfl
  | cons a as ih => exact ih _ _

/-- A moment of a run is what a first part of the actions has led to. -/
theorem record_split {as : List (Action β)} {before later : List (Moment β)}
    (h : e.record r as = before ++ m :: later) : ∃ done rest, as = done ++ m.action :: rest ∧
      before = e.record r done ∧ m.engine = (e.after r done).1 ∧
      later = m.outcome.engine.record m.outcome.registry rest ∧
      e.after r as = m.outcome.engine.after m.outcome.registry rest := by
  induction as generalizing e r before with
  | nil => simp [record] at h
  | cons a as ih =>
    cases before with
    | nil =>
      obtain ⟨rfl, rfl⟩ := List.cons.inj h
      exact ⟨[], as, rfl, rfl, rfl, rfl, rfl⟩
    | cons m₀ before =>
      obtain ⟨rfl, hrest⟩ := List.cons.inj h
      obtain ⟨done, rest, rfl, rfl, he, hl, ha⟩ := ih hrest
      exact ⟨a :: done, rest, rfl, rfl, he, hl, ha⟩

theorem inv_after {P : Engine β → Prop} (hP : ∀ e r a, P e → P (e.step r a).engine) (he : P e)
    (r : Registry) (as : List (Action β)) : P (e.after r as).1 := by
  induction as generalizing e r with
  | nil => exact he
  | cons a as ih => exact ih (hP e r a he) _

theorem orderly_after (r : Registry) (as : List (Action β)) : (after ∅ r as).1.Orderly :=
  inv_after (fun _ r a h => h.step r a) orderly_empty r as

theorem sound_after (r : Registry) (as : List (Action β)) : (after ∅ r as).1.Sound :=
  inv_after (fun _ _ a h => h.step a) sound_empty r as

theorem Tracks.after (h : e.Tracks id source offer o ds ops) (r : Registry)
    (as : List (Action β)) :
    ∃ o', (e.after r as).1.Tracks id source offer o' (ds ++ deeds id (e.record r as))
      (ops ++ commitsBy id (e.record r as)) := by
  induction as generalizing e r o ds ops with
  | nil =>
    refine ⟨o, ?_⟩
    rw [show deeds id (e.record r []) = [] from rfl,
      show commitsBy id (e.record r []) = [] from rfl, List.append_nil, List.append_nil]
    exact h
  | cons a as ih =>
    obtain ⟨o', h'⟩ := h.step r a
    obtain ⟨o'', h''⟩ := ih h' (e.step r a).registry
    refine ⟨o'', ?_⟩
    rw [List.append_assoc, List.append_assoc] at h''
    rw [record, deeds_cons, commitsBy_cons]
    exact h''

/-! ### The number of a registration -/

theorem standing_eq_fresh : e.standing id = .fresh ↔ e.next ≤ id := by
  unfold standing
  split
  · exact iff_of_true rfl ‹_›
  · refine iff_of_false (fun h => ?_) ‹_›
    split at h <;> cases h

theorem Sound.next_le (h : e.Sound) (r : Registry) (a : Action β) :
    e.next ≤ (e.step r a).engine.next := by
  have hm : ∀ i, Move i r (e.standing i) ((Moment.mk e r a).notes i)
      ((e.step r a).engine.standing i) := fun _ => step_move h a
  specialize hm (e.step r a).engine.next
  rw [standing_eq_fresh.2 (Nat.le_refl _)] at hm
  generalize hx : e.standing _ = x at hm
  generalize (Moment.mk e r a).notes _ = ns at hm
  cases hm
  exact standing_eq_fresh.1 hx

theorem Sound.next_le_after (h : e.Sound) (r : Registry) (as : List (Action β)) :
    e.next ≤ (e.after r as).1.next := by
  induction as generalizing e r with
  | nil => exact Nat.le_refl _
  | cons a as ih => exact Nat.le_trans (h.next_le r a) (ih (h.step a) _)

theorem Orderly.commitsOf_fresh (h : e.Orderly) (hid : e.next ≤ id) (r : Registry)
    (a : Action β) : (Moment.mk e r a).commitsOf id = [] := by
  refine Moment.commitsOf_of_party fun c hat hp => ?_
  obtain rfl : a = .advance id := Moment.action_of_party hat hp
  have hx : e.enrolment? id = none := by
    cases hx : e.enrolment? id with
    | none => rfl
    | some x =>
      have hlt := h.below x (List.mem_of_find?_eq_some hx)
      rw [enrolment?_id hx] at hlt
      omega
  simp only [Moment.attempt?, hx] at hat
  split at hat <;> simp_all

theorem commitsBy_fresh (hs : e.Sound) (ho : e.Orderly) (r : Registry) (as : List (Action β))
    (hid : (e.after r as).1.next ≤ id) : commitsBy id (e.record r as) = [] := by
  induction as generalizing e r with
  | nil => rfl
  | cons a as ih =>
    have hnext := Nat.le_trans ((hs.step a).next_le_after (e.step r a).registry as) hid
    have hfirst := ho.commitsOf_fresh (Nat.le_trans (hs.next_le r a) hnext) r a
    have hrest := ih (hs.step a) (ho.step r a) (e.step r a).registry hid
    rw [record, commitsBy_cons, hfirst]
    exact hrest

theorem tracks_enrol (hs : e.Sound) (ho : e.Orderly) (r : Registry) (source : Nat)
    (group : String) (gated : NameSet) :
    (e.step r (.enrol source group gated)).engine.Tracks e.next source
      (Declaration.entries β source group gated)
      (some ⟨e.next, source, group, gated, .listing⟩) [] [] := by
  refine ⟨bears_enrol hs ho r source group gated, fun x hx => ?_, .listing⟩
  obtain rfl := Option.some.inj hx
  exact ⟨rfl, rfl⟩

/-- At the end of a run the chronicle of each registration goes with where it is; its batches are
all that the run has put into the catalog for its number. -/
theorem tracks_record {as : List (Action β)} {before later : List (Moment β)} {group : String}
    {gated : NameSet} (h : record ∅ r as = before ++ m :: later)
    (hm : m.action = .enrol source group gated) :
    ∃ o, (after ∅ r as).1.Tracks m.engine.next source
      (Declaration.entries β source group gated) o (deeds m.engine.next later)
      (commitsBy m.engine.next (record ∅ r as)) := by
  obtain ⟨done, rest, -, rfl, he, rfl, hafter⟩ := record_split h
  have hs : m.engine.Sound := he ▸ sound_after r done
  have ho : m.engine.Orderly := he ▸ orderly_after r done
  have hbefore : commitsBy m.engine.next (record ∅ r done) = [] :=
    commitsBy_fresh sound_empty orderly_empty r done (he ▸ Nat.le_refl _)
  have hnow : m.commitsOf m.engine.next = [] := ho.commitsOf_fresh (Nat.le_refl _) _ _
  have hrun : commitsBy m.engine.next (record ∅ r as) =
      commitsBy m.engine.next (m.outcome.engine.record m.outcome.registry rest) := by
    rw [h, commitsBy_append, commitsBy_cons, hbefore, hnow]
    rfl
  obtain ⟨e, r', a⟩ := m
  obtain rfl : a = .enrol source group gated := hm
  rw [hafter, hrun]
  exact (tracks_enrol hs ho r' source group gated).after _ rest

theorem enrolled_after (r : Registry) (as : List (Action β))
    (hx : x ∈ (after ∅ r as).1.enrolments) :
    ∃ m ∈ record ∅ r as, m.action = .enrol x.source x.group x.gated ∧ m.engine.next = x.id := by
  induction as using List.reverseRecOn generalizing x with
  | nil => cases hx
  | append_singleton as a ih =>
    rw [after_append] at hx
    rw [record_append]
    rcases enrolment_step hx with hold | ⟨ha, hid, -⟩ | ⟨z, hz, hat, -⟩
    · obtain ⟨m, hm, h⟩ := ih hold
      exact ⟨m, List.mem_append_left _ hm, h⟩
    · exact ⟨_, List.mem_append_right _ (List.mem_singleton_self _), ha, hid.symm⟩
    · obtain ⟨m, hm, h⟩ := ih hz
      rw [← hat]
      exact ⟨m, List.mem_append_left _ hm, h⟩

end Engine

end GatedCalls
