import GatedCalls.Proofs.Dispatch.Chronicle

/-!
# Registrations are serializable

Discoveries overlap, and names that were free when a source was asked may be taken when it has
answered. What counts is the one step in which a registration goes through: the catalog is at every
moment what the registrations that have gone through make of the empty one, one after the other in
the order of those steps (`serial_after`). A single tool goes through in the step that answers its
caller (`registers_of_action`); a batch does in a step after which its registration can only return
(`Tracks.settles`).
-/

namespace GatedCalls

variable {β : Type} {e e' : Engine β} {r : Registry} {o : Option Enrolment} {m : Moment β}
  {id source : Nat}

namespace Catalog

variable {c c' c'' : Catalog β} {op : Op β} {ops more : List (Op β)}

/-- The operations make one catalog of another, one after the other, and none is refused. -/
inductive Serial : Catalog β → List (Op β) → Catalog β → Prop
  | nil (c : Catalog β) : Serial c [] c
  | cons {c c' c'' : Catalog β} {op : Op β} {ops : List (Op β)} (n : Nat)
    (h : op.apply c = (c', .ok n)) (hr : Serial c' ops c'') : Serial c (op :: ops) c''

namespace Serial

theorem snoc (h : Serial c ops c') {n : Nat} (ha : op.apply c' = (c'', .ok n)) :
    Serial c (ops ++ [op]) c'' := by
  induction h with
  | nil c => exact .cons n ha (.nil _)
  | cons k hk _ ih => exact .cons k hk (ih ha)

/-- It is what the operations make of it in any case, and they are all accepted. -/
theorem run (h : Serial c ops c') : c.run ops = c' ∧ accepted c ops = ops.flatMap Op.entries := by
  induction h with
  | nil c => exact ⟨rfl, rfl⟩
  | cons n ha _ ih =>
    simp only [Catalog.run, accepted, ha]
    exact ⟨ih.1, by rw [ih.2]; rfl⟩

theorem listing (h : Serial ∅ ops c) : c.Coherent ∧ c.list none = ops.flatMap Op.entries := by
  obtain ⟨rfl, ha⟩ := h.run
  obtain ⟨hc, hall⟩ := Coherent.empty.run ops
  refine ⟨hc, ?_⟩
  rw [list_none, hall, ha]
  rfl

end Serial

/-- The catalog is what registrations have made of the empty one, one after the other. -/
structure Serialized (c : Catalog β) (past : List (Commit β)) : Prop where
  serial : Serial ∅ (past.map Commit.op) c
  listing : c.list none = past.flatMap (·.op.entries)
  /-- Each batch stands in the listing without a gap. -/
  whole : ∀ x ∈ past, x.op.entries <:+: c.list none
  distinct : ((c.list none).map Entry.name).Nodup
  apart : past.Pairwise fun x y => ∀ a ∈ x.op.entries, ∀ b ∈ y.op.entries, a.name ≠ b.name

theorem Serial.serialized {past : List (Commit β)} (h : Serial ∅ (past.map Commit.op) c) :
    c.Serialized past := by
  obtain ⟨hc, hl⟩ := h.listing
  have hlisting : c.list none = past.flatMap (·.op.entries) := by
    rw [hl, List.flatMap_map]
  have hnames : ((c.list none).map Entry.name).Nodup := by
    rw [list_none, hc.names_all]
    exact hc.distinct
  refine ⟨h, hlisting, fun x hx => ?_, hnames, ?_⟩
  · obtain ⟨first, rest, rfl⟩ := List.append_of_mem hx
    rw [hlisting, List.flatMap_append, List.flatMap_cons]
    exact ⟨_, _, List.append_assoc ..⟩
  · rw [hlisting] at hnames
    clear h hl hlisting
    induction past with
    | nil => exact .nil
    | cons x rest ih =>
      rw [List.flatMap_cons, List.map_append, List.nodup_append] at hnames
      refine List.pairwise_cons.2 ⟨fun y hy a ha b hb => ?_, ih hnames.2.1⟩
      refine hnames.2.2 _ (List.mem_map_of_mem ha) _ (List.mem_map_of_mem ?_)
      exact List.mem_flatMap.2 ⟨y, hy, hb⟩

end Catalog

/-! ### The catalog of a run -/

namespace Engine

theorem commit_step (e : Engine β) (r : Registry) (a : Action β) :
    match (Moment.mk e r a).commit? with
    | some c => ∃ n, c.op.apply e.catalog = ((e.step r a).engine.catalog, .ok n)
    | none => (e.step r a).engine.catalog = e.catalog := by
  have hstep := e.catalog_step r a
  cases hat : (Moment.mk e r a).attempt? with
  | none =>
    have hc : (Moment.mk e r a).commit? = none := by rw [Moment.commit?, hat]; rfl
    rw [hat] at hstep
    rw [hc]
    exact hstep
  | some c =>
    rw [hat] at hstep
    dsimp only at hstep
    cases hr : (c.op.apply e.catalog).2 with
    | ok n =>
      have hc : (Moment.mk e r a).commit? = some c := by
        simp [Moment.commit?, hat, hr, Except.isOk, Except.toBool]
      rw [hc]
      exact ⟨n, Prod.ext hstep.symm hr⟩
    | error err =>
      have hc : (Moment.mk e r a).commit? = none := by
        simp [Moment.commit?, hat, hr, Except.isOk, Except.toBool]
      rw [hc]
      rw [hstep]
      exact Catalog.Op.apply_of_refused (by rw [hr]; rfl)

theorem serial_after (r : Registry) (as : List (Action β)) :
    Catalog.Serial ∅ ((commits (record ∅ r as)).map Commit.op) (after ∅ r as).1.catalog := by
  induction as using List.reverseRecOn with
  | nil => exact .nil ∅
  | append_singleton as a ih =>
    rw [record_append, after_append, commits_append, List.map_append]
    have hstep := (after ∅ r as).1.commit_step (after ∅ r as).2 a
    show Catalog.Serial ∅ (_ ++ (commits [Moment.mk _ _ a]).map _)
      ((after ∅ r as).1.step (after ∅ r as).2 a).engine.catalog
    rw [commits_singleton]
    generalize (Moment.mk (after ∅ r as).1 (after ∅ r as).2 a).commit? = c at hstep
    cases c with
    | none =>
      rw [hstep, Option.toList_none, List.map_nil, List.append_nil]
      exact ih
    | some c =>
      obtain ⟨n, hn⟩ := hstep
      exact ih.snoc hn

theorem commits_prefix (r : Registry) (done rest : List (Action β)) :
    commits (e.record r done) <+: commits (e.record r (done ++ rest)) := by
  rw [record_append, commits_append]
  exact List.prefix_append _ _

end Engine

/-! ### The registrations of a run -/

/-- The step registers the tool and says so, or it says that it does not and leaves the catalog as
it is. -/
inductive Moment.Registers (m : Moment β) (entry : Entry β) : Prop
  | added (he : m.effects = [.added entry.name (.ok ())])
    (hc : m.commit? = some ⟨none, .register entry⟩)
  | refused (err : CatalogError) (he : m.effects = [.added entry.name (.error err)])
    (hc : m.commit? = none) (hl : m.outcome.engine.catalog = m.engine.catalog)

theorem Moment.registers_of_action {entry : Entry β} (h : m.action = .register entry) :
    m.Registers entry := by
  obtain ⟨e, r, a⟩ := m
  obtain rfl : a = .register entry := h
  cases hr : e.catalog.register entry with
  | ok t =>
    refine .added ?_ ?_
    · rw [effects, outcome, Engine.step_register hr]
    · simp [commit?, attempt?, Catalog.Op.apply, hr, Except.isOk, Except.toBool]
  | error err =>
    refine .refused err ?_ ?_ ?_
    · rw [effects, outcome, Engine.step_register_error hr]
    · simp [commit?, attempt?, Catalog.Op.apply, hr, Except.isOk, Except.toBool]
    · rw [outcome, Engine.step_register_error hr]

/-- How the registration `id` stands after a run that `ends`: `run` are its moments, and `later`
those since it began. -/
inductive Settles (id : Nat) (offer : List Declaration → List (Entry β))
    (ends : Engine β × Registry) (run later : List (Moment β)) : Prop
  /-- It has not returned a count, and nothing of it is in the catalog. -/
  | out (hc : commitsBy id run = []) (hn : ∀ n, .returned (.ok n) ∉ deeds id later)
  /-- Its batch is in the catalog, and it has returned the count, or does when it goes on. -/
  | within (ds : List Declaration) (hc : commitsBy id run = [.registerAll (offer ds)])
    (hh : deeds id later = [.heard (.ok ds), .returned (.ok (offer ds).length)] ∨
      deeds id later = [.heard (.ok ds)] ∧
        (Moment.mk ends.1 ends.2 (.advance id)).deeds id = [.returned (.ok (offer ds).length)])

theorem Engine.Tracks.settles {offer : List Declaration → List (Entry β)}
    {run later : List (Moment β)} (h : e.Tracks id source offer o (deeds id later)
      (commitsBy id run)) (r : Registry) : Settles id offer (e, r) run later := by
  have hch := h.chronicle
  generalize hds : deeds id later = ds at hch
  generalize hops : commitsBy id run = ops at hch
  have out (ho : ops = []) (hn : ∀ n, .returned (.ok n) ∉ ds) :
      Settles id offer (e, r) run later :=
    .out (hops.trans ho) (hds ▸ hn)
  generalize hst : o.map Enrolment.stage = st at hch
  cases hch with
  | committed listing =>
    refine .within listing hops (.inr ⟨hds, ?_⟩)
    obtain ⟨x, rfl, hx⟩ := Option.map_eq_some_iff.1 hst
    obtain ⟨next, hm⟩ := h.bears.advance r (by rw [hx]; rfl)
    exact (hm.move.of_committed hx).2.1
  | kept listing => exact .within listing hops (.inl hds)
  | _ => exact out rfl (by simp)

/-- Where a commit comes from: the call that registers a tool, or a registration of a source. -/
inductive Commit.From (run : List (Moment β)) : Commit β → Prop
  | tool (m : Moment β) (hm : m ∈ run) (entry : Entry β) (ha : m.action = .register entry) :
    From run ⟨none, .register entry⟩
  | source (m : Moment β) (hm : m ∈ run) (source : Nat) (group : String) (gated : NameSet)
    (ds : List Declaration) (ha : m.action = .enrol source group gated) :
    From run ⟨some m.engine.next, .registerAll (Declaration.entries β source group gated ds)⟩

namespace Engine

theorem commit_from {as : List (Action β)} {c : Commit β} (hc : c ∈ commits (record ∅ r as)) :
    c.From (record ∅ r as) := by
  obtain ⟨m, hm, hcm⟩ := List.mem_filterMap.1 hc
  obtain ⟨before, later, hrun⟩ := List.append_of_mem hm
  have hat := (Moment.commit?_eq_some.1 hcm).1
  unfold Moment.attempt? at hat
  split at hat
  · rename_i entry ha
    obtain rfl := Option.some.inj hat
    exact .tool m hm entry ha
  · rename_i i ha
    split at hat
    · rename_i x _ hx
      obtain ⟨ds, -, rfl⟩ := Option.map_eq_some_iff.1 hat
      obtain ⟨done, rest, -, rfl, he, -, -⟩ := record_split hrun
      rw [he] at hx
      obtain ⟨m₀, hm₀, ha₀, hid⟩ := enrolled_after r done (List.mem_of_find?_eq_some hx)
      have hmem : m₀ ∈ record ∅ r as := hrun ▸ List.mem_append_left _ hm₀
      rw [← enrolment?_id hx, ← hid]
      exact .source m₀ hmem x.source x.group x.gated ds ha₀
    · cases hat
  · cases hat

end Engine

/-- At every point of a run the catalog is what the registrations that have gone through make of the
empty one in the order in which they did; of those that share a name one goes through at most. A
tool is registered if its caller was told so, and a batch if its registration returns its count. -/
theorem registrations_serializable (r : Registry) (as : List (Action β)) :
    let run := Engine.record ∅ r as
    (∀ done rest, as = done ++ rest →
      (Engine.after ∅ r done).1.catalog.Serialized (commits (Engine.record ∅ r done)) ∧
        commits (Engine.record ∅ r done) <+: commits run) ∧
    (∀ m ∈ run, ∀ entry, m.action = .register entry → m.Registers entry) ∧
    (∀ before m later source group gated, run = before ++ m :: later →
      m.action = .enrol source group gated →
        Settles m.engine.next (Declaration.entries β source group gated) (Engine.after ∅ r as) run
          later) ∧
    ∀ c ∈ commits run, c.From run := by
  intro run
  refine ⟨?_, ?_, ?_, fun c hc => Engine.commit_from hc⟩
  · rintro done rest rfl
    exact ⟨(Engine.serial_after r done).serialized, Engine.commits_prefix r done rest⟩
  · intro m _ entry ha
    exact Moment.registers_of_action ha
  · intro before m later source group gated hrun ha
    obtain ⟨o, ht⟩ := Engine.tracks_record hrun ha
    exact ht.settles (Engine.after ∅ r as).2

/-- Two sources are asked for their tools at the same time, and both offer the same tool. -/
def overlappingSources : List (Action Unit) :=
  [.enrol 7 "one" ∅, .enrol 8 "two" ∅, .list 1 (.ok [.ofName "rm"]),
    .list 0 (.ok [.ofName "ls", .ofName "rm"]), .advance 1, .register (Catalog.shellTool "ls"),
    .advance 0, .advance 1, .disconnected 0 7, .advance 0]

theorem registrations_serializable_overlappingSources :
    let run := Engine.record ∅ (Registry.empty 0) overlappingSources
    let c := (Engine.after ∅ (Registry.empty 0) overlappingSources).1.catalog
    c.Serialized (commits run) ∧ (c.list none).map Entry.name = ["rm", "ls"] ∧
      (commits run).map Commit.party = [some 1, none] ∧ commitsBy 0 run = [] ∧
      deeds 0 run = [.heard (.ok [.ofName "ls", .ofName "rm"]), .disconnecting 7,
        .returned (.error (.duplicateName "ls"))] := by
  intro run c
  obtain ⟨hat, -⟩ := registrations_serializable (Registry.empty 0) overlappingSources
  exact ⟨(hat overlappingSources [] (List.append_nil _).symm).1, rfl, rfl, rfl, rfl⟩

end GatedCalls
