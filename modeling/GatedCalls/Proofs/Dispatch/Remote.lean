import GatedCalls.Proofs.Dispatch.Enrolment
import GatedCalls.Proofs.Text.Blank

/-!
# The tools of a source are registered all or not at all

Between any two steps of a registration other things happen, and other registrations change the
catalog. `Course` lists what a run can show of one registration: until the step in which its batch
is added it changes nothing, and from then on it cannot be given up and goes on to keep the source.
In a run a registration waits up to a step in which it goes on (`Bears.wait`), so there is one lemma
for each stage, from the last to the first. That it does return, if it is let, is
`Engine.Bears.returns`.
-/

namespace GatedCalls

variable {β : Type} {e : Engine β} {r : Registry} {x : Enrolment} {o : Option Enrolment}
  {m : Moment β} {id source : Nat}

/-! ### Runs -/

/-- All that a run shows of the registration `id`. -/
def deeds (id : Nat) (ms : List (Moment β)) : List Deed := ms.flatMap (·.deeds id)

/-- No step of the registration `id` changes the catalog or the sources that are kept. -/
def Idle (id : Nat) (ms : List (Moment β)) : Prop := ∀ m ∈ ms, m.serves id = true → m.Leaves

theorem deeds_append (a b : List (Moment β)) : deeds id (a ++ b) = deeds id a ++ deeds id b :=
  List.flatMap_append

theorem deeds_cons (m : Moment β) (b : List (Moment β)) :
    deeds id (m :: b) = m.deeds id ++ deeds id b :=
  List.flatMap_cons

theorem Idle.cons {ms : List (Moment β)} (hm : m.serves id = true → m.Leaves) (h : Idle id ms) :
    Idle id (m :: ms) :=
  List.forall_mem_cons.2 ⟨hm, h⟩

theorem Idle.append {a b : List (Moment β)} (ha : Idle id a) (hb : Idle id b) : Idle id (a ++ b) :=
  List.forall_mem_append.2 ⟨ha, hb⟩

/-- What a run shows of a registration whose `n` tools are in the catalog: the source is kept in the
step in which it returns, and it cannot be given up. -/
inductive Finishes (id source n : Nat) (ms : List (Moment β)) : Prop
  | waiting (hd : deeds id ms = []) (hi : Idle id ms)
  | kept (before : List (Moment β)) (m : Moment β) (after : List (Moment β))
    (hms : ms = before ++ m :: after) (hb : deeds id before = []) (hbi : Idle id before)
    (hm : m.serves id = true) (hk : m.Keeps source) (hd : m.deeds id = [.returned (.ok n)])
    (ha : deeds id after = []) (hai : Idle id after)

/-- What a run shows of the registration `id` of a source that offers entries for what it lists. -/
inductive Course (id source : Nat) (offer : List Declaration → List (Entry β))
    (ms : List (Moment β)) : Prop
  /-- The source has not answered. -/
  | waiting (hd : deeds id ms = []) (hi : Idle id ms)
  /-- The caller gave up before the source answered. -/
  | withdrawn (hd : deeds id ms = [.dropped]) (hi : Idle id ms)
  | failed (err : SourceError) (hd : deeds id ms = [.heard (.error err)] ∨
      deeds id ms = [.heard (.error err), .returned (.error err.report)]) (hi : Idle id ms)
  /-- The source has answered, and nothing was done about it. -/
  | heard (ds : List Declaration) (hd : deeds id ms = [.heard (.ok ds)]) (hi : Idle id ms)
  | added (ds : List Declaration) (before : List (Moment β)) (m : Moment β)
    (after : List (Moment β)) (hms : ms = before ++ m :: after)
    (hb : deeds id before = [.heard (.ok ds)]) (hi : Idle id before) (hm : m.serves id = true)
    (hc : m.Commits (offer ds)) (hd : m.deeds id = [])
    (ha : Finishes id source (offer ds).length after)
  | refused (ds : List Declaration) (name : String) (before : List (Moment β)) (m : Moment β)
    (after : List (Moment β)) (hms : ms = before ++ m :: after)
    (hb : deeds id before = [.heard (.ok ds)]) (hm : m.serves id = true)
    (hn : ¬ m.engine.catalog.Admits (offer ds))
    (hr : m.engine.catalog.Refuses (offer ds) name) (hd : m.deeds id = [.disconnecting source])
    (ha : deeds id after = [] ∨ deeds id after = [.dropped] ∨
      deeds id after = [.returned (.error (.duplicateName name))]) (hi : Idle id ms)

namespace Engine

/-- A run in which a registration goes on: it waits, and goes on at one step. -/
structure Goes (e : Engine β) (r : Registry) (as : List (Action β)) (id : Nat) (x : Enrolment)
    (before : List (Moment β)) (m : Moment β) (next : Option EnrolStage)
    (rest : List (Action β)) : Prop where
  run : e.record r as = before ++ m :: m.outcome.engine.record m.outcome.registry rest
  silent : deeds id before = []
  idle : Idle id before
  moves : m.Moves id x next

/-- In a run a registration waits all the time, or up to a step in which it goes on. -/
theorem Bears.wait (h : e.Bears id o) (r : Registry) (as : List (Action β)) :
    (deeds id (e.record r as) = [] ∧ Idle id (e.record r as)) ∨
      ∃ x before m next rest, o = some x ∧ e.Goes r as id x before m next rest := by
  -- as long as it waits it is the same registration, whatever the rest of the engine has become
  induction as generalizing e r with
  | nil => exact .inl ⟨rfl, fun m hm => by cases hm⟩
  | cons a as ih =>
    rcases h.step r a with ⟨hd, hl, hb⟩ | ⟨x, next, rfl, hm⟩
    · rcases ih hb (e.step r a).registry with ⟨hds, hi⟩ |
        ⟨x, before, m, next, rest, rfl, hrun, hs, hi, hm⟩
      · exact .inl ⟨(congrArg₂ _ hd hds), hi.cons hl⟩
      · exact .inr ⟨x, ⟨e, r, a⟩ :: before, m, next, rest, rfl, congrArg _ hrun,
          congrArg₂ _ hd hs, hi.cons hl, hm⟩
    · exact .inr ⟨x, [], ⟨e, r, a⟩, next, as, rfl, rfl, rfl, fun m hm => (by cases hm), hm⟩

/-- Nothing is shown of a registration that is over, and it changes nothing. -/
theorem Bears.gone (h : e.Bears id none) (r : Registry) (as : List (Action β)) :
    deeds id (e.record r as) = [] ∧ Idle id (e.record r as) := by
  rcases h.wait r as with h | ⟨x, -, -, -, -, hx, -⟩
  · exact h
  · cases hx

namespace Goes

variable {as rest : List (Action β)} {before : List (Moment β)} {next : Option EnrolStage}

theorem deeds_run (g : e.Goes r as id x before m next rest) : deeds id (e.record r as) =
    m.deeds id ++ deeds id (m.outcome.engine.record m.outcome.registry rest) := by
  rw [g.run, deeds_append, deeds_cons, g.silent]
  rfl

theorem idle_run (g : e.Goes r as id x before m next rest) (hl : m.Leaves)
    (hi : Idle id (m.outcome.engine.record m.outcome.registry rest)) :
    Idle id (e.record r as) := by
  rw [g.run]
  exact g.idle.append (hi.cons fun _ => hl)

theorem last (g : e.Goes r as id x before m none rest) {ds : List Deed} (hd : m.deeds id = ds)
    (hl : m.Leaves) : deeds id (e.record r as) = ds ∧ Idle id (e.record r as) := by
  obtain ⟨hr, hi⟩ := Bears.gone g.moves.bears m.outcome.registry rest
  refine ⟨?_, g.idle_run hl hi⟩
  rw [g.deeds_run, hr, hd, List.append_nil]

end Goes

namespace Bears

theorem awaits (h : e.Bears id (some x)) (r : Registry) (as : List (Action β)) :
    (deeds id (e.record r as) = [] ∧ Idle id (e.record r as)) ∨
      ∃ before m next rest, e.Goes r as id x before m next rest := by
  rcases h.wait r as with h | ⟨x', before, m, next, rest, hx, g⟩
  · exact .inl h
  · obtain rfl := Option.some.inj hx
    exact .inr ⟨before, m, next, rest, g⟩

theorem fails (h : e.Bears id (some x)) {err : ReportedError}
    (hx : ∀ m ds next, x.Move (β := β) m ds next →
      next = none ∧ ds = [.returned (.error err)] ∧ m.Leaves)
    (r : Registry) (as : List (Action β)) : Idle id (e.record r as) ∧
      (deeds id (e.record r as) = [] ∨ deeds id (e.record r as) = [.returned (.error err)]) := by
  rcases h.awaits r as with ⟨hd, hi⟩ | ⟨before, m, next, rest, g⟩
  · exact ⟨hi, .inl hd⟩
  · obtain ⟨rfl, hds, hl⟩ := hx m _ next g.moves.move
    obtain ⟨hd, hi⟩ := g.last hds hl
    exact ⟨hi, .inr hd⟩

theorem rejecting (h : e.Bears id (some x)) {err : CatalogError} (hx : x.stage = .rejecting err)
    (r : Registry) (as : List (Action β)) : Idle id (e.record r as) ∧
      (deeds id (e.record r as) = [] ∨ deeds id (e.record r as) = [.dropped] ∨
        deeds id (e.record r as) = [.returned (.error err.report)]) := by
  rcases h.awaits r as with ⟨hd, hi⟩ | ⟨before, m, next, rest, g⟩
  · exact ⟨hi, .inl hd⟩
  · obtain ⟨hl, ⟨rfl, hds⟩ | ⟨rfl, hds⟩⟩ := g.moves.move.of_rejecting hx
    · obtain ⟨hd, hi⟩ := g.last hds hl
      exact ⟨hi, .inr (.inl hd)⟩
    · obtain ⟨hi, hd⟩ := fails g.moves.bears (fun _ _ _ hm => hm.of_rejected rfl)
        m.outcome.registry rest
      rw [g.deeds_run, hds]
      exact ⟨g.idle_run hl hi, hd.imp_right .inr⟩

theorem committed (h : e.Bears id (some x)) {n : Nat} (hx : x.stage = .committed n)
    (r : Registry) (as : List (Action β)) : Finishes id x.source n (e.record r as) := by
  rcases h.awaits r as with ⟨hd, hi⟩ | ⟨before, m, next, rest, g⟩
  · exact .waiting hd hi
  · obtain ⟨rfl, hds, hk⟩ := g.moves.move.of_committed hx
    obtain ⟨hr, hi⟩ := gone g.moves.bears m.outcome.registry rest
    exact .kept before m _ g.run g.silent g.idle g.moves.serves hk hds hr hi

/-- What a run shows of a registration after the part `first`, in which its source listed tools. -/
theorem listed (h : e.Bears id (some x)) {ds : List Declaration} (hx : x.stage = .listed (.ok ds))
    {first : List (Moment β)} (hf : deeds id first = [.heard (.ok ds)]) (hfi : Idle id first)
    (r : Registry) (as : List (Action β)) :
    Course id x.source (x.batch β) (first ++ e.record r as) := by
  rcases h.awaits r as with ⟨hd, hi⟩ | ⟨before, m, next, rest, g⟩
  · refine .heard ds ?_ (hfi.append hi)
    rw [deeds_append, hf, hd]
    rfl
  · have hms : first ++ e.record r as =
        (first ++ before) ++ m :: m.outcome.engine.record m.outcome.registry rest := by
      rw [g.run, List.append_assoc]
    have hb : deeds id (first ++ before) = [.heard (.ok ds)] := by
      rw [deeds_append, hf, g.silent]
      rfl
    rcases g.moves.move.of_listed hx with ⟨rfl, hds, hc⟩ | ⟨name, rfl, hds, hr, hl⟩
    · exact .added ds _ m _ hms hb (hfi.append g.idle) g.moves.serves hc hds
        (committed g.moves.bears rfl m.outcome.registry rest)
    · obtain ⟨hi, hd⟩ := rejecting g.moves.bears rfl m.outcome.registry rest
      exact .refused ds name _ m _ hms hb g.moves.serves hr.not_admits hr hds hd
        (hfi.append (g.idle_run hl hi))

theorem course (h : e.Bears id (some x)) (hx : x.stage = .listing) (r : Registry)
    (as : List (Action β)) : Course id x.source (x.batch β) (e.record r as) := by
  rcases h.awaits r as with ⟨hd, hi⟩ | ⟨before, m, next, rest, g⟩
  · exact .waiting hd hi
  · obtain ⟨hl, ⟨result, rfl, hds⟩ | ⟨rfl, hds⟩⟩ := g.moves.move.of_listing hx
    · cases result with
      | error err =>
        obtain ⟨hi, hd⟩ := fails g.moves.bears (fun _ _ _ hm => hm.of_failed rfl)
          m.outcome.registry rest
        refine .failed err ?_ (g.idle_run hl hi)
        rw [g.deeds_run, hds]
        exact hd.imp (congrArg _) (congrArg _)
      | ok ds =>
        have hfirst : deeds id (before ++ [m]) = [.heard (.ok ds)] := by
          rw [deeds_append, g.silent, deeds_cons, hds]
          rfl
        have hidle : Idle id (before ++ [m]) :=
          g.idle.append (Idle.cons (fun _ => hl) fun m hm => by cases hm)
        rw [g.run, List.append_cons]
        exact listed g.moves.bears rfl hfirst hidle m.outcome.registry rest
    · obtain ⟨hd, hi⟩ := g.last hds hl
      exact .withdrawn hd hi

end Bears

/-! ### A registration returns -/

def Returns (id : Nat) (ms : List (Moment β)) : Prop := ∃ result, .returned result ∈ deeds id ms

theorem Returns.head {ms : List (Moment β)} {result : Except ReportedError Nat}
    (h : .returned result ∈ m.deeds id) : Returns id (m :: ms) :=
  ⟨result, List.mem_append_left _ h⟩

theorem Returns.tail {ms : List (Moment β)} (h : Returns id ms) : Returns id (m :: ms) := by
  obtain ⟨result, h⟩ := h
  exact ⟨result, List.mem_append_right _ h⟩

/-- What a registration whose source has answered takes to return, at most: to be moved on, to have
its source disconnected, and to be moved on again. -/
def ending (id source : Nat) : List (Action β) :=
  [.advance id, .disconnected id source, .advance id]

namespace Bears

theorem advance_returns (h : e.Bears id (some x)) (r : Registry) (as : List (Action β))
    (hx : (∃ n, x.stage = .committed n) ∨ ∃ err, x.stage = .rejected err) :
    Returns id (e.record r (.advance id :: as)) := by
  rcases hx with ⟨n, hx⟩ | ⟨err, hx⟩
  · obtain ⟨next, hm⟩ := h.advance r (by rw [hx]; rfl)
    obtain ⟨-, hds, -⟩ := hm.move.of_committed hx
    exact .head (hds ▸ List.mem_singleton_self _)
  · obtain ⟨next, hm⟩ := h.advance r (by rw [hx]; rfl)
    obtain ⟨-, hds, -⟩ := hm.move.of_rejected hx
    exact .head (hds ▸ List.mem_singleton_self _)

theorem rejecting_returns (h : e.Bears id (some x)) {err : CatalogError}
    (hx : x.stage = .rejecting err) (r : Registry) (source : Nat) :
    Returns id (e.record r [.disconnected id source, .advance id]) := by
  have hm := h.disconnected r hx source
  exact .tail (advance_returns hm.bears _ [] (.inr ⟨err, rfl⟩))

theorem committed_returns (h : e.Bears id (some x)) {n : Nat} (hx : x.stage = .committed n)
    (r : Registry) (source : Nat) :
    Returns id (e.record r [.disconnected id source, .advance id]) := by
  rcases h.step r (.disconnected id source) with hp | ⟨x', next, hx', hm⟩
  · exact .tail (advance_returns hp.bears _ [] (.inl ⟨n, hx⟩))
  · obtain rfl := Option.some.inj hx'
    obtain ⟨-, hds, -⟩ := hm.move.of_committed hx
    exact .head (hds ▸ List.mem_singleton_self _)

theorem ends (h : e.Bears id (some x)) (hx : x.stage.isListing = false) (r : Registry)
    (source : Nat) : Returns id (e.record r (ending id source)) := by
  cases hst : x.stage with
  | listing => rw [hst] at hx; cases hx
  | rejecting err =>
    have hstep := h.advance_suspended r (by rw [hst]; rfl)
    refine .tail ?_
    rw [hstep]
    exact h.rejecting_returns hst r source
  | committed n => exact h.advance_returns r _ (.inl ⟨n, hst⟩)
  | rejected err => exact h.advance_returns r _ (.inr ⟨err, hst⟩)
  | listed result =>
    obtain ⟨next, hm⟩ := h.advance r (by rw [hst]; rfl)
    cases result with
    | error err =>
      obtain ⟨-, hds, -⟩ := hm.move.of_failed hst
      exact .head (hds ▸ List.mem_singleton_self _)
    | ok ds =>
      rcases hm.move.of_listed hst with ⟨rfl, -, -⟩ | ⟨name, rfl, -, -, -⟩
      · exact .tail (committed_returns hm.bears rfl _ source)
      · exact .tail (rejecting_returns hm.bears rfl _ source)

/-- A registration whose source has answered, and that was not given up, returns if it is let. -/
theorem returns (h : e.Bears id (some x)) (r : Registry) (as : List (Action β))
    (hx : x.stage.isListing = true → ∃ result, .heard result ∈ deeds id (e.record r as))
    (source : Nat) : .dropped ∈ deeds id (e.record r as) ∨
      Returns id (e.record r (as ++ ending id source)) := by
  induction as generalizing e r x with
  | nil =>
    cases hl : x.stage.isListing with
    | true =>
      obtain ⟨result, hmem⟩ := hx hl
      cases hmem
    | false => exact .inr (h.ends hl r source)
  | cons a as ih =>
    rcases h.step r a with hp | ⟨x', next, hx', hm⟩
    · have hd : deeds id (e.record r (a :: as)) =
          deeds id ((e.step r a).engine.record (e.step r a).registry as) := by
        rw [record, deeds_cons, hp.silent]
        rfl
      rw [hd] at hx ⊢
      exact (ih hp.bears _ hx).imp_right .tail
    · obtain rfl := Option.some.inj hx'
      cases next with
      | none =>
        rcases hm.move.of_over rfl with hds | ⟨result, hds⟩
        · exact .inl (List.mem_append_left _ hds)
        · exact .inr (.head hds)
      | some s =>
        have hs : s.isListing = false := hm.move.of_next rfl
        refine (ih hm.bears (e.step r a).registry fun hl => ?_).imp
          (fun hd => List.mem_append_right _ hd) .tail
        rw [show (x.at s).stage = s from rfl, hs] at hl
        cases hl

end Bears

end Engine

/-! ### What a source offers -/

/-- The entries are those of the declarations that have a name which is not blank, in order, each
with that name, in the group, and gated if that very name is in the set; their tools are the tools
of that name at the source. -/
structure Offers (source : Nat) (group : String) (gated : NameSet) (ds : List Declaration)
    (batch : List (Entry β)) : Prop where
  infos : batch.map Entry.info = ds.filterMap fun d =>
    (d.name.filter fun name => Text.trim name ≠ "").map fun name =>
      ⟨name, group, d.description.getD "", gated.contains name⟩
  tools : ∀ e ∈ batch, e.tool.name = e.name ∧ e.tool.body = .remote source

theorem offers_entries (source : Nat) (group : String) (gated : NameSet) (ds : List Declaration) :
    Offers source group gated ds (Declaration.entries β source group gated ds) := by
  have usable (d : Declaration) :
      d.usableName? = d.name.filter fun name => Text.trim name ≠ "" := by
    refine congrArg (Option.filter · d.name) (funext fun name => ?_)
    rw [Bool.eq_iff_iff, Bool.not_eq_true', decide_eq_true_iff, ← Bool.not_eq_true,
      Text.isBlankText_iff]
  refine ⟨?_, fun e he => ?_⟩
  · rw [Declaration.entries, List.map_filterMap]
    refine List.filterMap_congr fun d _ => ?_
    rw [Declaration.entryIn, Option.map_map, usable]
    rfl
  · obtain ⟨d, -, hd⟩ := List.mem_filterMap.1 he
    obtain ⟨name, -, rfl⟩ := Option.map_eq_some_iff.1 hd
    exact ⟨rfl, rfl⟩

/-! ### All or nothing -/

namespace Engine

theorem inv_record {P : Engine β → Prop} (hP : ∀ e r a, P e → P (e.step r a).engine)
    {as : List (Action β)} {before after : List (Moment β)} (he : P e)
    (h : e.record r as = before ++ m :: after) : P m.engine := by
  induction as generalizing e r before with
  | nil => simp [record] at h
  | cons a as ih =>
    cases before with
    | nil =>
      obtain ⟨rfl, -⟩ := List.cons.inj h
      exact he
    | cons m₀ before => exact ih (hP e r a he) (List.cons.inj h).2

theorem bears_enrol (hs : e.Sound) (ho : e.Orderly) (r : Registry) (source : Nat)
    (group : String) (gated : NameSet) :
    (e.step r (.enrol source group gated)).engine.Bears e.next
      (some ⟨e.next, source, group, gated, .listing⟩) := by
  refine ⟨hs.step _, ho.step r _, hs.standing_spent rfl rfl, ?_⟩
  show (e.enrolments ++ [_]).filter _ = [_]
  have hold : e.enrolments.filter (·.id == e.next) = [] :=
    List.filter_eq_nil_iff.2 fun x hx => by simpa using Nat.ne_of_lt (ho.below x hx)
  rw [List.filter_append, hold]
  simp

end Engine

theorem Course.idle_of_dropped {offer : List Declaration → List (Entry β)} {ms : List (Moment β)}
    (h : Course id source offer ms) (hd : .dropped ∈ deeds id ms) : Idle id ms := by
  cases h with
  | added ds before m after hms hb hi hm hc hd' ha =>
    rw [hms, deeds_append, deeds_cons, hb, hd'] at hd
    cases ha with
    | waiting ha => simp [ha] at hd
    | kept b k rest hms' hb' _ _ _ hk ha =>
      rw [hms', deeds_append, deeds_cons, hb', hk, ha] at hd
      simp at hd
  | _ => assumption

/-- In every run the registration of a source takes one of the ways of `Course`, whatever else
happens. If it is given up, it has not changed and will not change anything; else it returns once
its source has answered, if it is let. -/
theorem remote_registration {as : List (Action β)} {before after : List (Moment β)}
    {group : String} {gated : NameSet} (h : Engine.record ∅ r as = before ++ m :: after)
    (hm : m.action = .enrol source group gated) (hid : m.engine.next = id) :
    m.Leaves ∧ m.effects = [.listed id source] ∧
    Course id source (Declaration.entries β source group gated) after ∧
    (∀ ds, Offers source group gated ds (Declaration.entries β source group gated ds)) ∧
    (.dropped ∈ deeds id after → Idle id after) ∧
    (∀ result, .heard result ∈ deeds id after → .dropped ∉ deeds id after →
      ∀ s, Engine.Returns id (Engine.record ∅ r (as ++ Engine.ending id s))) := by
  subst hid
  obtain ⟨e, r', a⟩ := m
  obtain rfl : a = .enrol source group gated := hm
  obtain ⟨hs, -⟩ := Engine.tells_before e.next h
  have ho : e.Orderly := Engine.inv_record (fun e r a ho => ho.step r a) Engine.orderly_empty h
  have hb := Engine.bears_enrol hs ho r' source group gated
  obtain ⟨rest, hafter, hmore⟩ := Engine.record_extend h
  have hcourse : Course e.next source (Declaration.entries β source group gated) after := by
    rw [hafter]
    exact Engine.Bears.course hb rfl _ rest
  refine ⟨⟨rfl, rfl⟩, rfl, hcourse, offers_entries source group gated, hcourse.idle_of_dropped,
    fun result hheard hkept s => ?_⟩
  rw [hafter] at hheard hkept
  obtain ⟨result, hr⟩ :=
    (Engine.Bears.returns hb _ rest (fun _ => ⟨result, hheard⟩) s).resolve_left hkept
  refine ⟨result, ?_⟩
  rw [hmore, deeds_append, deeds_cons]
  exact List.mem_append_right _ (List.mem_append_right _ hr)

/-- A source lists three tools, one of them without a name and one whose name is taken. -/
def clashingSource : List (Action Unit) :=
  [.register (Catalog.shellTool "rm"), .enrol 7 "fs" (.ofList ["rm"]),
    .list 0 (.ok [.ofName "ls", .ofName " ", .ofName "rm"]), .advance 0, .disconnected 0 7,
    .advance 0]

theorem remote_registration_clashingSource :
    let run := Engine.record ∅ (Registry.empty 0) clashingSource
    run = run.take 1 ++ run[1] :: run.drop 2 ∧
      run[1].action = .enrol 7 "fs" (.ofList ["rm"]) ∧ run[1].engine.next = 0 ∧
      Course 0 7 (Declaration.entries Unit 7 "fs" (.ofList ["rm"])) (run.drop 2) ∧
      deeds 0 (run.drop 2) = [.heard (.ok [.ofName "ls", .ofName " ", .ofName "rm"]),
        .disconnecting 7, .returned (.error (.duplicateName "rm"))] := by
  intro run
  have h : run = run.take 1 ++ run[1] :: run.drop 2 := rfl
  obtain ⟨-, -, hcourse, -⟩ := remote_registration h rfl rfl
  exact ⟨h, rfl, rfl, hcourse, rfl⟩

end GatedCalls
