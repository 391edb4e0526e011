import GatedCalls.Proofs.Dispatch.Flow

/-!
# Each source is disconnected once

With a source of its own a registration is the only one that can hand the source over. `Custody`
says where a source is after a part of a run, and how often it was disconnected: at first it is with
its registration; then it was refused, or it is kept, or a shutdown took it. A step keeps it where
it is or hands it on (`Custody.step`), so in a run it goes one of these ways (`custody_record`).
-/

namespace GatedCalls

variable {β : Type} {e e' : Engine β} {r : Registry} {x : Enrolment} {o : Option Enrolment}
  {m : Moment β} {id source : Nat} {ms : List (Moment β)} {kept : List Nat}

/-- The source of a registration that begins. -/
def Action.source? : Action β → Option Nat
  | .enrol source .. => some source
  | _ => none

/-! ### What is shown when a source changes hands -/

namespace Chronicle

variable {offer : List Declaration → List (Entry β)} {st : Option EnrolStage} {ds : List Deed}
  {ops : List (Catalog.Op β)}

theorem held_listed {listing : List Declaration}
    (h : Chronicle source offer (some (.listed (.ok listing))) ds ops) :
    ∀ d ∈ ds, d.isHandover = false := by
  cases h
  simp [Deed.isHandover]

theorem held_committed {n : Nat} (h : Chronicle source offer (some (.committed n)) ds ops) :
    ∀ d ∈ ds, d.isHandover = false := by
  cases h
  simp [Deed.isHandover]

theorem held_failed {err : SourceError} (h : Chronicle source offer st ds ops)
    (hd : .heard (.error err) ∈ ds) : ∀ d ∈ ds, d.isHandover = false := by
  cases h <;> simp_all [Deed.isHandover]

theorem not_both {n s : Nat} (h : Chronicle source offer st ds ops)
    (hd : .disconnecting s ∈ ds) : .returned (.ok n) ∉ ds := by
  cases h <;> simp_all

theorem disconnecting_of_duplicate {name : String} (h : Chronicle source offer st ds ops)
    (hd : .returned (.error (.duplicateName name)) ∈ ds) : .disconnecting source ∈ ds := by
  cases h with
  | failed err => cases err <;> simp [SourceError.report] at hd
  | _ => simp_all

end Chronicle

theorem isHandover_received {d : Deed} (h : d ∈ m.received id) : d.isHandover = false := by
  unfold Moment.received at h
  split at h
  · split at h
    · rw [List.mem_singleton.1 h]
      rfl
    · cases h
  · split at h
    · rw [List.mem_singleton.1 h]
      rfl
    · cases h
  · cases h

theorem Effect.isHandover_deed? {fx : Effect β} {d : Deed} (h : fx.deed? id = some d) :
    d.isHandover = fx.isHandover := by
  unfold Effect.deed? at h
  split at h
  · split at h
    · cases h
      rfl
    · cases h
  · split at h
    · rename_i result _
      cases h
      cases result <;> rfl
    · cases h
  all_goals cases h

theorem partings_shutdown (l : List Nat) (i : Nat) :
    (l.map (Effect.disconnecting (β := β) i)).filterMap (Effect.parting? source) =
      List.replicate (l.count source) i := by
  induction l with
  | nil => rfl
  | cons s rest ih =>
    rw [List.map_cons, List.count_cons]
    by_cases hs : s = source
    · simp [Effect.parting?, hs, ih, List.replicate_succ]
    · simp [Effect.parting?, hs, ih]

/-! ### Where a source is -/

theorem deeds_snoc (m : Moment β) : deeds id (ms ++ [m]) = deeds id ms ++ m.deeds id := by
  rw [deeds_append, deeds_cons]
  exact congrArg _ (List.append_nil _)

theorem deeds_of_effects {i : Nat} {fx : Effect β} (ha : m.action = .advance i)
    (he : m.effects = [fx]) : m.deeds id = (fx.deed? id).toList := by
  rw [Moment.deeds, Moment.received, ha, he, List.filterMap_cons]
  cases fx.deed? id <;> rfl

theorem partings_snoc (m : Moment β) :
    partings source (ms ++ [m]) = partings source ms ++ m.partings source := by
  rw [partings_append, partings_singleton]

/-- Where the source of the registration `id` is after the part of a run since that began, `kept`
being the sources that the engine keeps, and for which operations it was disconnected. -/
inductive Custody (id source : Nat) (ms : List (Moment β)) (kept : List Nat) : Prop
  /-- With its registration, if that has not let go of it. -/
  | own (hd : ∀ d ∈ deeds id ms, d.isHandover = false) (hp : partings source ms = [])
    (hk : kept.count source = 0)
  | refused (hd : .disconnecting source ∈ deeds id ms) (hp : partings source ms = [id])
    (hk : kept.count source = 0)
  | kept (n : Nat) (hd : .returned (.ok n) ∈ deeds id ms) (hp : partings source ms = [])
    (hk : kept.count source = 1)
  /-- A shutdown took it. -/
  | closed (n : Nat) (hd : .returned (.ok n) ∈ deeds id ms) (before : List (Moment β))
    (t : Moment β) (after : List (Moment β)) (hms : ms = before ++ t :: after)
    (ht : t.action = .shutdown) (hs : source ∈ t.engine.kept)
    (hp : partings source ms = [t.engine.next]) (hk : kept.count source = 0)

namespace Custody

variable {kept' : List Nat}

theorem length_le (h : Custody id source ms kept) : (partings source ms).length ≤ 1 := by
  cases h <;> simp_all

theorem pass (h : Custody id source ms kept) (hp : m.partings source = [])
    (hd : ∀ d ∈ m.deeds id, d.isHandover = false) (hk : kept'.count source = kept.count source) :
    Custody id source (ms ++ [m]) kept' := by
  have hps : partings source (ms ++ [m]) = partings source ms := by
    rw [partings_snoc, hp, List.append_nil]
  have more {d : Deed} (hmem : d ∈ deeds id ms) : d ∈ deeds id (ms ++ [m]) := by
    rw [deeds_snoc]
    exact List.mem_append_left _ hmem
  cases h with
  | own hold hpold hkold =>
    refine .own (fun d hmem => ?_) (hps.trans hpold) (hk.trans hkold)
    rw [deeds_snoc] at hmem
    exact (List.mem_append.1 hmem).elim (hold d) (hd d)
  | refused hold hpold hkold => exact .refused (more hold) (hps.trans hpold) (hk.trans hkold)
  | kept n hold hpold hkold => exact .kept n (more hold) (hps.trans hpold) (hk.trans hkold)
  | closed n hold before t after hms ht hs hpold hkold =>
    refine .closed n (more hold) before t (after ++ [m]) ?_ ht hs (hps.trans hpold)
      (hk.trans hkold)
    rw [hms, List.append_assoc]
    rfl

end Custody

namespace Engine

variable {offer : List Declaration → List (Entry β)} {ds : List Deed} {ops : List (Catalog.Op β)}

/-- The registration `id`, if it is in flight, is the only one of the source. -/
def Sole (e : Engine β) (id source : Nat) : Prop :=
  ∀ x ∈ e.enrolments, x.source = source → x.id = id

theorem Sole.step (h : e.Sole id source) {a : Action β} (ha : a.source? ≠ some source)
    (r : Registry) : (e.step r a).engine.Sole id source := by
  intro y hy hsource
  rcases enrolment_step hy with hy | ⟨rfl, -, -⟩ | ⟨z, hz, hat, -⟩
  · exact h y hy hsource
  · exact absurd (congrArg some hsource) ha
  · rw [← hat] at hsource ⊢
    exact h z hz hsource

theorem Bears.eq_of_mem (h : e.Bears id o) (hx : x ∈ e.enrolments) (hid : x.id = id) :
    o = some x := by
  have hown : x ∈ e.enrolments.filter (·.id == id) :=
    List.mem_filter.2 ⟨hx, beq_iff_eq.2 hid⟩
  rw [h.own] at hown
  exact Option.mem_toList.1 hown

/-- A registration in flight is this one exactly if its source is. -/
theorem Tracks.id_iff (h : e.Tracks id source offer o ds ops) (hs : e.Sole id source)
    (hx : x ∈ e.enrolments) : x.id = id ↔ x.source = source :=
  ⟨fun hid => (h.ours x (h.bears.eq_of_mem hx hid)).1, hs x hx⟩

theorem Tracks.own (h : e.Tracks id source offer (some x) (deeds id ms) ops)
    (hx : (∃ listing, x.stage = .listed (.ok listing)) ∨ ∃ n, x.stage = .committed n)
    (hc : Custody id source ms kept) : (∀ d ∈ deeds id ms, d.isHandover = false) ∧
      partings source ms = [] ∧ kept.count source = 0 := by
  have hds : ∀ d ∈ deeds id ms, d.isHandover = false := by
    have hch := h.chronicle
    rw [Option.map_some] at hch
    rcases hx with ⟨listing, hst⟩ | ⟨n, hst⟩
    · rw [hst] at hch
      exact hch.held_listed
    · rw [hst] at hch
      exact hch.held_committed
  refine ⟨hds, ?_⟩
  cases hc with
  | own hd hp hk => exact ⟨hp, hk⟩
  | refused hd hp hk => cases hds _ hd
  | kept n hd hp hk => cases hds _ hd
  | closed n hd => cases hds _ hd

end Engine

namespace Custody

theorem shutdown (h : Custody id source ms e.kept) (hid : id < e.next) (r : Registry) :
    Custody id source (ms ++ [⟨e, r, .shutdown⟩]) (e.step r .shutdown).engine.kept := by
  have hd : (Moment.mk e r .shutdown).deeds id = [] := by
    refine List.filterMap_eq_nil_iff.2 fun fx hfx => ?_
    obtain ⟨s, -, rfl⟩ := List.mem_map.1 hfx
    exact if_neg (Nat.ne_of_gt hid)
  have hp : (Moment.mk e r .shutdown).partings source =
      List.replicate (e.kept.count source) e.next := partings_shutdown e.kept e.next
  have stays (hk : e.kept.count source = 0) :
      Custody id source (ms ++ [⟨e, r, .shutdown⟩]) (e.step r .shutdown).engine.kept := by
    refine h.pass (by rw [hp, hk]; rfl) (by simp [hd]) ?_
    rw [hk]
    rfl
  cases h with
  | own _ _ hk | refused _ _ hk | closed _ _ _ _ _ _ _ _ _ hk => exact stays hk
  | kept n hold hpold hk =>
    have hmem : source ∈ e.kept := List.count_pos_iff.1 (by omega)
    refine .closed n ?_ ms ⟨e, r, .shutdown⟩ [] rfl rfl hmem ?_ rfl
    · rw [deeds_snoc]
      exact List.mem_append_left _ hold
    · rw [partings_snoc, hpold, hp, hk]
      rfl

theorem keep {offer : List Declaration → List (Entry β)} {ops : List (Catalog.Op β)} {n : Nat}
    (h : Custody id source ms kept) (ht : e.Tracks id source offer o (deeds id ms) ops)
    (hs : e.Sole id source) (hx : x ∈ e.enrolments) (hst : x.stage = .committed n)
    (hd : m.deeds id = ((Effect.enrolled x.id (.ok n) : Effect β).deed? id).toList)
    (hp : m.partings source = []) : Custody id source (ms ++ [m]) (kept ++ [x.source]) := by
  by_cases hid : x.id = id
  · have hsource := (ht.id_iff hs hx).1 hid
    obtain rfl := ht.bears.eq_of_mem hx hid
    obtain ⟨-, hpold, hkold⟩ := ht.own (.inr ⟨n, hst⟩) h
    refine .kept n ?_ ?_ ?_
    · rw [deeds_snoc, hd]
      simp [Effect.deed?, hid]
    · rw [partings_snoc, hpold, hp]
      rfl
    · rw [List.count_append, hkold, hsource]
      simp
  · have hsource : x.source ≠ source := fun hsource => hid ((ht.id_iff hs hx).2 hsource)
    refine h.pass hp (by simp [hd, Effect.deed?, hid]) ?_
    rw [List.count_append]
    simp [hsource]

theorem refuse {offer : List Declaration → List (Entry β)} {ops : List (Catalog.Op β)}
    {listing : List Declaration} (h : Custody id source ms kept)
    (ht : e.Tracks id source offer o (deeds id ms) ops) (hs : e.Sole id source)
    (hx : x ∈ e.enrolments) (hst : x.stage = .listed (.ok listing))
    (hd : m.deeds id = ((Effect.disconnecting x.id x.source : Effect β).deed? id).toList)
    (hp : m.partings source =
      ([.disconnecting x.id x.source] : List (Effect β)).filterMap (Effect.parting? source)) :
    Custody id source (ms ++ [m]) kept := by
  by_cases hid : x.id = id
  · have hsource := (ht.id_iff hs hx).1 hid
    obtain rfl := ht.bears.eq_of_mem hx hid
    obtain ⟨-, hpold, hkold⟩ := ht.own (.inl ⟨listing, hst⟩) h
    refine .refused ?_ ?_ hkold
    · rw [deeds_snoc, hd]
      simp [Effect.deed?, hid, hsource]
    · rw [partings_snoc, hpold, hp]
      simp [Effect.parting?, hid, hsource]
  · have hsource : x.source ≠ source := fun hsource => hid ((ht.id_iff hs hx).2 hsource)
    refine h.pass ?_ (by simp [hd, Effect.deed?, hid]) rfl
    rw [hp]
    simp [Effect.parting?, hsource]

/-- A step leaves the source where it is or hands it on. -/
theorem step {offer : List Declaration → List (Entry β)} {ops : List (Catalog.Op β)}
    (h : Custody id source ms e.kept) (ht : e.Tracks id source offer o (deeds id ms) ops)
    (hs : e.Sole id source) (r : Registry) (a : Action β) :
    Custody id source (ms ++ [⟨e, r, a⟩]) (e.step r a).engine.kept := by
  cases Engine.flow (e := e) r a with
  | rest he hk =>
    refine h.pass (Moment.partings_of_rest he source) (fun d hd => ?_) (congrArg _ hk)
    rcases List.mem_append.1 hd with hd | hd
    · exact isHandover_received hd
    · obtain ⟨fx, hfx, hd⟩ := List.mem_filterMap.1 hd
      rw [Effect.isHandover_deed? hd]
      exact he fx hfx
  | close ha he hk =>
    obtain rfl : a = .shutdown := ha
    exact h.shutdown ht.bears.id_lt r
  | keep x n hx hst ha he hk =>
    have hk : (e.step r a).engine.kept = e.kept ++ [x.source] := hk
    rw [hk]
    refine h.keep ht hs hx hst (deeds_of_effects ha he) ?_
    rw [Moment.partings, he]
    rfl
  | refuse x listing hx hst ha he hk =>
    have hk : (e.step r a).engine.kept = e.kept := hk
    rw [hk]
    refine h.refuse ht hs hx hst (deeds_of_effects ha he) ?_
    rw [Moment.partings, he]

theorem run {offer : List Declaration → List (Entry β)} {ops : List (Catalog.Op β)}
    (h : Custody id source ms e.kept) (ht : e.Tracks id source offer o (deeds id ms) ops)
    (hs : e.Sole id source) (r : Registry) (as : List (Action β))
    (has : ∀ a ∈ as, a.source? ≠ some source) :
    Custody id source (ms ++ e.record r as) (e.after r as).1.kept := by
  induction as generalizing e r o ms ops with
  | nil => rwa [Engine.record, List.append_nil]
  | cons a as ih =>
    obtain ⟨ha, has⟩ := List.forall_mem_cons.1 has
    obtain ⟨o', ht'⟩ := ht.step r a
    rw [← deeds_snoc] at ht'
    have hrest := ih (h.step ht hs r a) ht' (hs.step ha r) (e.step r a).registry has
    rwa [List.append_assoc] at hrest

end Custody

/-! ### Before the registration begins -/

namespace Engine

/-- The source is with no registration, and it is not kept. -/
structure Unknown (e : Engine β) (source : Nat) : Prop where
  enrolments : ∀ x ∈ e.enrolments, x.source ≠ source
  kept : source ∉ e.kept

theorem unknown_empty : (∅ : Engine β).Unknown source where
  enrolments _ h := by cases h
  kept := List.not_mem_nil

theorem Unknown.step (h : e.Unknown source) {a : Action β} (ha : a.source? ≠ some source)
    (r : Registry) :
    (e.step r a).engine.Unknown source ∧ (Moment.mk e r a).partings source = [] := by
  have hx : ∀ y ∈ (e.step r a).engine.enrolments, y.source ≠ source := by
    intro y hy hsource
    rcases enrolment_step hy with hy | ⟨rfl, -, -⟩ | ⟨z, hz, hat, -⟩
    · exact h.enrolments y hy hsource
    · exact ha (congrArg some hsource)
    · rw [← hat] at hsource
      exact h.enrolments z hz hsource
  cases flow (e := e) r a with
  | rest he hk => exact ⟨⟨hx, hk ▸ h.kept⟩, Moment.partings_of_rest he source⟩
  | close ha he hk =>
    refine ⟨⟨hx, hk ▸ List.not_mem_nil⟩, ?_⟩
    rw [Moment.partings, he, partings_shutdown, List.count_eq_zero.2 h.kept]
    rfl
  | keep x n hmem hst ha he hk =>
    refine ⟨⟨hx, hk ▸ fun hin => ?_⟩, by rw [Moment.partings, he]; rfl⟩
    rcases List.mem_append.1 hin with hin | hin
    · exact h.kept hin
    · exact h.enrolments x hmem (List.mem_singleton.1 hin).symm
  | refuse x listing hmem hst ha he hk =>
    refine ⟨⟨hx, hk ▸ h.kept⟩, ?_⟩
    rw [Moment.partings, he]
    simp [Effect.parting?, h.enrolments x hmem]

theorem Unknown.after (h : e.Unknown source) (r : Registry) (as : List (Action β))
    (has : ∀ a ∈ as, a.source? ≠ some source) :
    (e.after r as).1.Unknown source ∧ partings source (e.record r as) = [] := by
  induction as generalizing e r with
  | nil => exact ⟨h, rfl⟩
  | cons a as ih =>
    obtain ⟨ha, has⟩ := List.forall_mem_cons.1 has
    obtain ⟨h', hp⟩ := h.step ha r
    obtain ⟨hrest, hps⟩ := ih h' (e.step r a).registry has
    exact ⟨hrest, congrArg₂ _ hp hps⟩

/-- In a run in which no other registration has the source it is where `Custody` says, and nobody
disconnected it before its registration began. -/
theorem custody_record {as : List (Action β)} {before later : List (Moment β)} {group : String}
    {gated : NameSet} (hown : (as.filterMap Action.source?).Nodup)
    (h : record ∅ r as = before ++ m :: later) (hm : m.action = .enrol source group gated) :
    Custody m.engine.next source later (after ∅ r as).1.kept ∧
      partings source (record ∅ r as) = partings source later := by
  obtain ⟨done, rest, has, rfl, he, rfl, hafter⟩ := record_split h
  have hsource : m.action.source? = some source := congrArg Action.source? hm
  rw [has, List.filterMap_append, List.filterMap_cons_some hsource, List.nodup_append,
    List.nodup_cons] at hown
  obtain ⟨-, ⟨hrest, -⟩, hdone⟩ := hown
  have hbefore : ∀ a ∈ done, a.source? ≠ some source := fun a ha hs =>
    hdone source (List.mem_filterMap.2 ⟨a, ha, hs⟩) source List.mem_cons_self rfl
  have hafterwards : ∀ a ∈ rest, a.source? ≠ some source := fun a ha hs =>
    hrest (List.mem_filterMap.2 ⟨a, ha, hs⟩)
  obtain ⟨hunknown, hp⟩ := unknown_empty.after r done hbefore
  have hs : m.engine.Sound := he ▸ sound_after r done
  have ho : m.engine.Orderly := he ▸ orderly_after r done
  rw [← he] at hunknown
  obtain ⟨e, r', a⟩ := m
  obtain rfl : a = .enrol source group gated := hm
  have hbegin : Custody e.next source ([] : List (Moment β))
      (e.step r' (.enrol source group gated)).engine.kept :=
    .own (fun d hd => by cases hd) rfl (List.count_eq_zero.2 hunknown.kept)
  have hsole : (e.step r' (.enrol source group gated)).engine.Sole e.next source := by
    intro y hy hsource
    rcases enrolment_step hy with hy | ⟨-, hid, -⟩ | ⟨z, hz, hat, -⟩
    · exact absurd hsource (hunknown.enrolments y hy)
    · exact hid
    · rw [← hat] at hsource
      exact absurd hsource (hunknown.enrolments z hz)
  refine ⟨?_, ?_⟩
  · rw [hafter]
    exact hbegin.run (tracks_enrol hs ho r' source group gated) hsole _ rest hafterwards
  · rw [h, partings_append, hp]
    rfl

theorem bears_shutdown (hs : e.Sound) (ho : e.Orderly) (r : Registry) :
    (e.step r .shutdown).engine.Bears e.next none := by
  refine ⟨hs.step _, ho.step r _, hs.standing_spent rfl rfl, ?_⟩
  exact List.filter_eq_nil_iff.2 fun x hx => by simpa using Nat.ne_of_lt (ho.below x hx)

end Engine

/-! ### The account -/

/-- The shutdown does not return before the source has answered that it is disconnected, or could
not be. -/
def WaitsFor (id source : Nat) (ms : List (Moment β)) : Prop :=
  ∀ first z rest, ms = first ++ z :: rest → .shutDown id ∈ z.effects →
    ∃ y ∈ first, y.action = .disconnected id source

/-- How often the source of the registration `id` is disconnected in a run, `later` being what
follows the beginning of the registration. -/
structure Accounted (id source : Nat) (run later : List (Moment β)) : Prop where
  /-- Never if its discovery failed. -/
  failed : ∀ err, .heard (.error err) ∈ deeds id later → partings source run = []
  /-- Once, by its registration, if its batch was refused. -/
  refused : ∀ name, .returned (.error (.duplicateName name)) ∈ deeds id later →
    partings source run = [id]
  /-- Once if a shutdown begins after its registration succeeded: by that one or an earlier one,
  which waits for the source. -/
  closed : ∀ first s rest n, later = first ++ s :: rest → .returned (.ok n) ∈ deeds id first →
    s.action = .shutdown → ∃ before t mid, first ++ [s] = before ++ t :: mid ∧
      t.action = .shutdown ∧ partings source run = [t.engine.next] ∧
      WaitsFor t.engine.next source (mid ++ rest)

/-- A shutdown has all sources that are kept disconnected in one step, whatever comes of any of
them, and changes the catalog neither then nor later. -/
structure ShutsDown (s : Moment β) (later : List (Moment β)) : Prop where
  asks : s.effects = s.engine.kept.map fun source => .disconnecting s.engine.next source
  empties : s.outcome.engine.kept = []
  catalog : s.outcome.engine.catalog = s.engine.catalog
  idle : Idle s.engine.next later

namespace Engine

theorem shutsDown_record {as : List (Action β)} {before later : List (Moment β)}
    (h : record ∅ r as = before ++ m :: later) (hm : m.action = .shutdown) :
    ShutsDown m later := by
  obtain ⟨done, rest, -, rfl, he, rfl, -⟩ := record_split h
  have hs : m.engine.Sound := he ▸ sound_after r done
  have ho : m.engine.Orderly := he ▸ orderly_after r done
  obtain ⟨e, r', a⟩ := m
  obtain rfl : a = .shutdown := hm
  exact ⟨rfl, rfl, rfl, ((bears_shutdown hs ho r').gone _ rest).2⟩

theorem accounted_record {as : List (Action β)} {before later : List (Moment β)} {group : String}
    {gated : NameSet} (hown : (as.filterMap Action.source?).Nodup)
    (h : record ∅ r as = before ++ m :: later) (hm : m.action = .enrol source group gated) :
    Accounted m.engine.next source (record ∅ r as) later := by
  obtain ⟨hc, hp⟩ := custody_record hown h hm
  obtain ⟨o, ht⟩ := tracks_record h hm
  refine ⟨fun err herr => ?_, fun name hname => ?_, ?_⟩
  · have hd := ht.chronicle.held_failed herr
    rw [hp]
    cases hc with
    | own _ hp _ => exact hp
    | refused hno => cases hd _ hno
    | kept n hno => cases hd _ hno
    | closed n hno => cases hd _ hno
  · have hd := ht.chronicle.disconnecting_of_duplicate hname
    rw [hp]
    cases hc with
    | own hno => cases hno _ hd
    | refused _ hp _ => exact hp
    | kept n hno => exact absurd hno (ht.chronicle.not_both hd)
    | closed n hno => exact absurd hno (ht.chronicle.not_both hd)
  · rintro first s rest n rfl hret hshut
    have hle := hc.length_le
    rw [List.append_cons, partings_append, partings_snoc] at hp hle
    -- the run up to the shutdown
    rw [← List.cons_append, ← List.append_assoc] at h
    obtain ⟨done, more, has, hfirst, he, -, -⟩ := record_split h
    have hown' : (done.filterMap Action.source?).Nodup := by
      rw [has, List.filterMap_append] at hown
      exact hown.of_append_left
    obtain ⟨hc', -⟩ := custody_record hown' hfirst.symm hm
    obtain ⟨o', ht'⟩ := tracks_record hfirst.symm hm
    rw [← he] at hc'
    cases hc' with
    | own hno => cases hno _ hret
    | refused hno => exact absurd hret (ht'.chronicle.not_both hno)
    | kept n _ hpold hk =>
      have hnow : s.partings source = [s.engine.next] := by
        rw [Moment.partings, (shutsDown_record h hshut).asks, partings_shutdown, hk]
        rfl
      have hmem : source ∈ s.engine.kept := List.count_pos_iff.1 (by omega)
      refine ⟨first, s, [], rfl, hshut, ?_, fun _ _ _ hl hz => awaits h hshut hmem hl hz⟩
      rw [hpold, hnow] at hp hle
      rw [hp, List.eq_nil_of_length_eq_zero (l := partings source rest) (by simpa using hle)]
      rfl
    | closed n _ before' t mid hms htshut hts hpold hk =>
      have hrun : record ∅ r as =
          (before ++ m :: before') ++ t :: (mid ++ [s] ++ rest) := by
        rw [h, hms]
        simp
      refine ⟨before', t, mid ++ [s], by rw [hms, List.append_assoc]; rfl, htshut, ?_,
        fun _ _ _ hl hz => awaits hrun htshut hts hl hz⟩
      rw [hpold] at hp hle
      simp only [List.length_append, List.length_singleton] at hle
      rw [hp, List.eq_nil_of_length_eq_zero (l := s.partings source) (by omega),
        List.eq_nil_of_length_eq_zero (l := partings source rest) (by omega)]
      rfl

theorem partings_le_one (r : Registry) (as : List (Action β))
    (hown : (as.filterMap Action.source?).Nodup) (source : Nat) :
    (partings source (record ∅ r as)).length ≤ 1 := by
  by_cases hex : ∃ a ∈ as, a.source? = some source
  · obtain ⟨a, hmem, hsource⟩ := hex
    rw [← actions_record (e := ∅) r as] at hmem
    obtain ⟨m, hm, rfl⟩ := List.mem_map.1 hmem
    obtain ⟨before, later, hrun⟩ := List.append_of_mem hm
    have haction : ∃ group gated, m.action = .enrol source group gated := by
      cases ha : m.action with
      | enrol s group gated =>
        rw [ha] at hsource
        obtain rfl := Option.some.inj hsource
        exact ⟨group, gated, rfl⟩
      | _ => rw [ha] at hsource; cases hsource
    obtain ⟨group, gated, ha⟩ := haction
    obtain ⟨hc, hp⟩ := custody_record hown hrun ha
    rw [hp]
    exact hc.length_le
  · rw [(unknown_empty.after r as fun a ha hs => hex ⟨a, ha, hs⟩).2]
    exact Nat.zero_le _

end Engine

/-- If each registration has a source of its own then each source is disconnected once at most:
never if its discovery failed, once if its batch was refused, and once as soon as a shutdown has
begun after its registration succeeded. -/
theorem disconnect_accounting (r : Registry) (as : List (Action β))
    (hown : (as.filterMap Action.source?).Nodup) :
    let run := Engine.record ∅ r as
    (∀ source, (partings source run).length ≤ 1) ∧
    (∀ before m later source group gated, run = before ++ m :: later →
      m.action = .enrol source group gated → Accounted m.engine.next source run later) ∧
    ∀ before s later, run = before ++ s :: later → s.action = .shutdown → ShutsDown s later := by
  intro run
  refine ⟨fun source => ?_, fun before m later source group gated hrun ha => ?_,
    fun before s later hrun ha => Engine.shutsDown_record hrun ha⟩
  · exact Engine.partings_le_one r as hown source
  · exact Engine.accounted_record hown hrun ha

/-- Two sources, and two shutdowns that overlap: the first begins when only one of the
registrations has returned. -/
def overlappingShutdowns : List (Action Unit) :=
  [.enrol 7 "one" ∅, .enrol 8 "two" ∅, .list 0 (.ok [.ofName "ls"]), .list 1 (.ok [.ofName "rm"]),
    .advance 0, .advance 0, .shutdown, .advance 1, .advance 1, .shutdown, .disconnected 3 8,
    .advance 3, .disconnected 2 7, .advance 2]

theorem disconnect_accounting_overlappingShutdowns :
    let run := Engine.record ∅ (Registry.empty 0) overlappingShutdowns
    (overlappingShutdowns.filterMap Action.source?).Nodup ∧ (∀ s, (partings s run).length ≤ 1) ∧
      Accounted 0 7 run (run.drop 1) ∧ Accounted 1 8 run (run.drop 2) ∧
      partings 7 run = [2] ∧ partings 8 run = [3] := by
  intro run
  have hown : (overlappingShutdowns.filterMap Action.source?).Nodup := by decide
  obtain ⟨honce, haccount, -⟩ :=
    disconnect_accounting (Registry.empty 0) overlappingShutdowns hown
  exact ⟨hown, honce, haccount [] run[0] _ 7 "one" ∅ rfl rfl,
    haccount (run.take 1) run[1] _ 8 "two" ∅ rfl rfl, rfl, rfl⟩

end GatedCalls
