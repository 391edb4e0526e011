import GatedCalls.Proofs.Dispatch.Remote

/-!
# What goes into the catalog

`Moment.attempt?` is what a step puts before the catalog: a single tool, or the batch of a
registration whose source has listed. It accounts for every change of the catalog, whatever the
state (`catalog_step`), and it goes through exactly if the catalog admits its entries
(`Moment.commit?_eq_some`). `Bears.commitsOf_cases` says when the batch of one registration does.
-/

namespace GatedCalls

variable {β : Type} {e e' : Engine β} {r : Registry} {x : Enrolment} {m : Moment β} {i id : Nat}

/-- A registration as it is put before the catalog; `party` is the number of a source's
registration, none for a single tool. -/
structure Commit (β : Type) where
  party : Option Nat
  op : Catalog.Op β

/-- What the source has listed, while nothing was done about it. -/
def Enrolment.listing? (x : Enrolment) : Option (List Declaration) :=
  match x.stage with
  | .listed (.ok ds) => some ds
  | _ => none

theorem Enrolment.listing?_eq_some {ds : List Declaration} :
    x.listing? = some ds ↔ x.stage = .listed (.ok ds) := by
  unfold listing?
  split <;> simp_all

namespace Moment

/-- The registration that is put before the catalog in the step. -/
def attempt? (m : Moment β) : Option (Commit β) :=
  match m.action with
  | .register entry => some ⟨none, .register entry⟩
  | .advance i =>
    match m.engine.call? i, m.engine.enrolment? i with
    | none, some x => x.listing?.map fun ds => ⟨some i, .registerAll (x.batch β ds)⟩
    | _, _ => none
  | _ => none

/-- The registration that goes through in the step. -/
def commit? (m : Moment β) : Option (Commit β) :=
  m.attempt?.filter fun c => (c.op.apply m.engine.catalog).2.isOk

/-- What the registration `id` adds to the catalog in the step. -/
def commitsOf (m : Moment β) (id : Nat) : List (Catalog.Op β) :=
  match m.commit? with
  | some c => if c.party = some id then [c.op] else []
  | none => []

end Moment

/-- The registrations that go through in a run, in order. -/
def commits (ms : List (Moment β)) : List (Commit β) := ms.filterMap Moment.commit?

/-- What the registration `id` adds to the catalog in a run. -/
def commitsBy (id : Nat) (ms : List (Moment β)) : List (Catalog.Op β) :=
  ((commits ms).filter (·.party == some id)).map Commit.op

theorem commits_append (a b : List (Moment β)) : commits (a ++ b) = commits a ++ commits b :=
  List.filterMap_append

theorem commits_singleton (m : Moment β) : commits [m] = m.commit?.toList := by
  rw [commits, List.filterMap_cons]
  cases m.commit? <;> rfl

theorem commitsBy_append (a b : List (Moment β)) :
    commitsBy id (a ++ b) = commitsBy id a ++ commitsBy id b := by
  rw [commitsBy, commits_append, List.filter_append, List.map_append]
  rfl

theorem commitsBy_cons (m : Moment β) (b : List (Moment β)) :
    commitsBy id (m :: b) = m.commitsOf id ++ commitsBy id b := by
  rw [commitsBy, commits, Moment.commitsOf]
  cases hc : m.commit? with
  | none => rw [List.filterMap_cons_none hc]; rfl
  | some c =>
    rw [List.filterMap_cons_some hc]
    dsimp only
    by_cases hp : c.party = some id
    · rw [if_pos hp, List.filter_cons_of_pos (by simpa using hp)]
      rfl
    · rw [if_neg hp, List.filter_cons_of_neg (by simpa using hp)]
      rfl

/-! ### The catalog -/

namespace Catalog.Op

variable {c : Catalog β} {op : Op β}

theorem isOk_apply_iff : (op.apply c).2.isOk = true ↔ c.Admits op.entries := by
  cases op with
  | register entry =>
    cases hc : c.contains entry.name with
    | true =>
      simp only [apply, register_of_taken hc, entries]
      constructor
      · intro h
        cases h
      · intro h
        rw [h.free entry (List.mem_singleton_self _)] at hc
        cases hc
    | false =>
      simp only [apply, register_of_free hc, entries]
      refine iff_of_true rfl ⟨fun x hx => ?_, List.nodup_singleton _⟩
      rw [List.mem_singleton.1 hx, hc]
  | registerAll batch =>
    rw [apply_registerAll]
    cases hr : c.registerAll batch with
    | ok p => exact iff_of_true rfl (admits_of_registerAll hr).1
    | error err =>
      refine iff_of_false Bool.false_ne_true fun h => ?_
      have ha : c.Admits batch := h
      obtain ⟨c', hok, -⟩ := registerAll_of_admits ha
      rw [hr] at hok
      cases hok

theorem apply_of_refused (h : (op.apply c).2.isOk = false) : (op.apply c).1 = c := by
  rcases op.apply_cases c with ⟨c', n, ha, -⟩ | ⟨err, ha⟩
  · rw [ha] at h
    cases h
  · rw [ha]

end Catalog.Op

namespace Engine

theorem attempt?_advance_call {c : Call β} (h : e.call? i = some c) :
    (Moment.mk e r (.advance i)).attempt? = none := by
  simp only [Moment.attempt?, h]

theorem attempt?_advance (hc : e.call? i = none) (hx : e.enrolment? i = some x) :
    (Moment.mk e r (.advance i)).attempt? =
      x.listing?.map fun ds => ⟨some i, .registerAll (x.batch β ds)⟩ := by
  simp only [Moment.attempt?, hc, hx]

theorem catalog_advanceEnrolment (x : Enrolment) : (e.advanceEnrolment x).1.catalog =
    match x.listing? with
    | some ds => ((Catalog.Op.registerAll (x.batch β ds)).apply e.catalog).1
    | none => e.catalog := by
  cases hst : x.stage with
  | listed result =>
    cases result with
    | error err => simp only [advanceEnrolment, Enrolment.listing?, hst]; rfl
    | ok ds =>
      have hb : Declaration.entries β x.source x.group x.gated ds = x.batch β ds := rfl
      simp only [advanceEnrolment, Enrolment.listing?, hst, hb, Catalog.Op.apply_registerAll]
      cases e.catalog.registerAll (x.batch β ds) <;> rfl
  | committed n | rejected err => simp only [advanceEnrolment, Enrolment.listing?, hst]; rfl
  | listing | rejecting err => simp only [advanceEnrolment, Enrolment.listing?, hst]

/-- A step changes the catalog by what is put before it, and by nothing else. -/
theorem catalog_step (e : Engine β) (r : Registry) (a : Action β) :
    (e.step r a).engine.catalog =
      match (Moment.mk e r a).attempt? with
      | some c => (c.op.apply e.catalog).1
      | none => e.catalog := by
  cases a with
  | register entry =>
    simp only [Moment.attempt?, Catalog.Op.apply]
    cases hr : e.catalog.register entry with
    | ok t => rw [step_register hr]
    | error err => rw [step_register_error hr]
  | advance i =>
    cases hc : e.call? i with
    | some c =>
      rw [attempt?_advance_call hc]
      simp only [step, advance, hc]
      exact (frame_advanceCall r c : e.Frame i _).catalog
    | none =>
      cases hx : e.enrolment? i with
      | some x =>
        rw [attempt?_advance hc hx]
        simp only [step, advance, hc, hx, catalog_advanceEnrolment]
        cases x.listing? <;> rfl
      | none =>
        simp only [Moment.attempt?, hc, hx, step, advance]
        cases e.closing? i with
        | some y => exact (frame_advanceClosing r y : e.Frame i _).catalog
        | none => rfl
  | list i result =>
    simp only [Moment.attempt?, step, list]
    split <;> rfl
  | disconnected i source =>
    simp only [Moment.attempt?, step, disconnected]
    split <;> rfl
  | enrol source group gated => rfl
  | shutdown => rfl
  | cancel i => rfl
  | _ => exact (frame_step r rfl : e.Frame e.next _).catalog

end Engine

/-! ### Commits of one registration -/

theorem Moment.commit?_eq_some {c : Commit β} : m.commit? = some c ↔
    m.attempt? = some c ∧ m.engine.catalog.Admits c.op.entries := by
  rw [commit?, Option.filter_eq_some_iff, Catalog.Op.isOk_apply_iff]

theorem Moment.commitsOf_of_party (h : ∀ c, m.attempt? = some c → c.party ≠ some id) :
    m.commitsOf id = [] := by
  unfold commitsOf
  split
  · rename_i c hc
    rw [if_neg (h c (commit?_eq_some.1 hc).1)]
  · rfl

theorem Moment.action_of_party {c : Commit β} (h : m.attempt? = some c)
    (hp : c.party = some id) : m.action = .advance id := by
  unfold attempt? at h
  split at h
  · cases h
    cases hp
  · rename_i i ha
    split at h
    · obtain ⟨ds, -, rfl⟩ := Option.map_eq_some_iff.1 h
      cases hp
      exact ha
    · cases h
  · cases h

namespace Engine

theorem mem_setEnrolStage {y : Enrolment} {s : EnrolStage}
    (h : y ∈ (e.setEnrolStage i s).enrolments) :
    y ∈ e.enrolments ∨ ∃ z ∈ e.enrolments, z.id = i ∧ z.at s = y := by
  obtain ⟨z, hz, rfl⟩ := List.mem_map.1 h
  split
  · rename_i hid
    exact .inr ⟨z, hz, hid, rfl⟩
  · exact .inl hz

/-- How a registration comes to be in flight after an action. -/
inductive Arises (e : Engine β) (a : Action β) (y : Enrolment) : Prop
  | stays (hy : y ∈ e.enrolments)
  | begins (ha : a = .enrol y.source y.group y.gated) (hid : y.id = e.next)
    (hst : y.stage = .listing)
  /-- It has come to another stage; its tools come into the catalog only when it goes on by
  itself. -/
  | moves (z : Enrolment) (hz : z ∈ e.enrolments) (hat : z.at y.stage = y)
    (hc : (∃ n, y.stage = .committed n) → a = .advance y.id)

theorem arises_setEnrolStage {a : Action β} {y : Enrolment} {s : EnrolStage} {i : Nat}
    (hs : ∀ n, s ≠ .committed n) (hy : y ∈ (e.setEnrolStage i s).enrolments) : e.Arises a y := by
  rcases mem_setEnrolStage hy with hy | ⟨z, hz, -, rfl⟩
  · exact .stays hy
  · exact .moves z hz rfl fun ⟨n, hn⟩ => absurd hn (hs n)

theorem enrolment_step {a : Action β} {y : Enrolment}
    (hy : y ∈ (e.step r a).engine.enrolments) : e.Arises a y := by
  cases a with
  | register entry =>
    cases hr : e.catalog.register entry with
    | ok t => rw [step_register hr] at hy; exact .stays hy
    | error err => rw [step_register_error hr] at hy; exact .stays hy
  | enrol source group gated =>
    rcases List.mem_append.1 hy with hy | hy
    · exact .stays hy
    · obtain rfl := List.mem_singleton.1 hy
      exact .begins rfl rfl rfl
  | shutdown => exact .stays hy
  | list i result =>
    simp only [step, list] at hy
    split at hy
    · exact arises_setEnrolStage (by simp) hy
    · exact .stays hy
  | disconnected i source =>
    simp only [step, disconnected] at hy
    split at hy
    · exact arises_setEnrolStage (by simp) hy
    · exact .stays hy
  | cancel i => exact .stays (List.mem_filter.1 hy).1
  | advance i =>
    cases hc : e.call? i with
    | some c =>
      simp only [step, advance, hc, (frame_advanceCall r c : e.Frame i _).enrolments] at hy
      exact .stays hy
    | none =>
      cases hx : e.enrolment? i with
      | none =>
        simp only [step, advance, hc, hx] at hy
        cases hcl : e.closing? i with
        | some z =>
          have hf := (frame_advanceClosing r z : e.Frame i _).enrolments
          simp only [hcl] at hy
          exact .stays (hf ▸ hy)
        | none => simp only [hcl] at hy; exact .stays hy
      | some x =>
        have hid := enrolment?_id hx
        simp only [step, advance, hc, hx] at hy
        unfold advanceEnrolment at hy
        split at hy
        · exact .stays (List.mem_filter.1 hy).1
        · split at hy
          · rcases mem_setEnrolStage hy with hy | ⟨z, hz, hzid, rfl⟩
            · exact .stays hy
            · exact .moves z hz rfl fun _ => congrArg _ (hzid.trans hid).symm
          · exact arises_setEnrolStage (by simp) hy
        · exact .stays (List.mem_filter.1 hy).1
        · exact .stays (List.mem_filter.1 hy).1
        · exact .stays hy
        · exact .stays hy
  | _ =>
    rw [(frame_step r rfl : e.Frame e.next _).enrolments] at hy
    exact .stays hy

/-- A registration puts tools into the catalog only if they were listed and the catalog admits
them, in the step in which it goes on. -/
theorem Bears.commitsOf_cases (h : e.Bears id o) (r : Registry) (a : Action β) :
    (Moment.mk e r a).commitsOf id = [] ∨ ∃ x ds, o = some x ∧ x.stage = .listed (.ok ds) ∧
      e.catalog.Admits (x.batch β ds) ∧ a = .advance id ∧
      (Moment.mk e r a).commitsOf id = [.registerAll (x.batch β ds)] := by
  cases hc : (Moment.mk e r a).commit? with
  | none => exact .inl (by simp only [Moment.commitsOf, hc])
  | some c =>
    by_cases hp : c.party = some id
    · obtain ⟨hat, ha⟩ := Moment.commit?_eq_some.1 hc
      obtain rfl : a = .advance id := Moment.action_of_party hat hp
      cases hx : o with
      | none =>
        subst hx
        simp [Moment.attempt?, h.call?, h.enrolment?] at hat
      | some x =>
        subst hx
        rw [attempt?_advance h.call? h.enrolment?] at hat
        obtain ⟨ds, hds, rfl⟩ := Option.map_eq_some_iff.1 hat
        refine .inr ⟨x, ds, rfl, Enrolment.listing?_eq_some.1 hds, ha, rfl, ?_⟩
        simp only [Moment.commitsOf, hc, if_pos]
    · exact .inl (by simp only [Moment.commitsOf, hc, if_neg hp])

theorem Bears.commitsOf_advance (h : e.Bears id (some x)) (r : Registry) {ds : List Declaration}
    (hx : x.stage = .listed (.ok ds)) (ha : e.catalog.Admits (x.batch β ds)) :
    (Moment.mk e r (.advance id)).commitsOf id = [.registerAll (x.batch β ds)] := by
  have hat : (Moment.mk e r (.advance id)).attempt? =
      some ⟨some id, .registerAll (x.batch β ds)⟩ := by
    rw [attempt?_advance h.call? h.enrolment?, Enrolment.listing?_eq_some.2 hx]
    rfl
  have hc := Moment.commit?_eq_some.2 ⟨hat, ha⟩
  simp only [Moment.commitsOf, hc, if_pos]

theorem Bears.commitsOf_pass (h : e.Bears id o) {a : Action β}
    (hp : (Moment.mk e r a).Passes id o) : (Moment.mk e r a).commitsOf id = [] := by
  rcases h.commitsOf_cases r a with hc | ⟨x, ds, rfl, hst, ha, rfl, -⟩
  · exact hc
  · -- it would not have stayed where it was
    obtain ⟨next, hm⟩ := h.advance_listed r hst
    have hsame : some x = next.map x.at := hp.bears.enrolment?.symm.trans hm.bears.enrolment?
    rcases hm.move.of_listed hst with ⟨rfl, -, -⟩ | ⟨name, rfl, -, -, -⟩
    · have hx : x.stage = .committed _ := congrArg Enrolment.stage (Option.some.inj hsame)
      rw [hst] at hx
      cases hx
    · have hx : x.stage = .rejecting _ := congrArg Enrolment.stage (Option.some.inj hsame)
      rw [hst] at hx
      cases hx

theorem Bears.advance_of_committed (h : e.Bears id (some x)) {a : Action β} {n : Nat}
    (hx : ∀ n, x.stage ≠ .committed n)
    (hb : (Moment.mk e r a).outcome.engine.Bears id (some (x.at (.committed n)))) :
    a = .advance id := by
  have hy : x.at (.committed n) ∈ (e.step r a).engine.enrolments :=
    List.mem_of_find?_eq_some hb.enrolment?
  rcases enrolment_step hy with hold | ⟨-, -, hst⟩ | ⟨z, -, -, ha⟩
  · have hown : x.at (.committed n) ∈ e.enrolments.filter (·.id == id) :=
      List.mem_filter.2 ⟨hold, beq_iff_eq.2 h.id_eq⟩
    rw [h.own] at hown
    have hsame : x.at (.committed n) = x := List.mem_singleton.1 hown
    exact absurd (congrArg Enrolment.stage hsame).symm (hx n)
  · cases hst
  · rw [ha ⟨n, rfl⟩]
    exact congrArg _ h.id_eq

end Engine

end GatedCalls
