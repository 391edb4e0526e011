import GatedCalls.Proofs.Dispatch.Custody
import GatedCalls.Proofs.Dispatch.Passage

/-!
# Calls and shutdowns that run alone

A call that is begun in any state and takes its turns alone is an `Errand`: it returns once and
leaves the engine as it was, but for the number it has used up, whether its tool was found, whether
it was confirmed, and however it ended. A shutdown to which nothing else happens takes what the
engine keeps, and is over when the sources have answered, in any order (`Sound.closing`).
-/

namespace GatedCalls

variable {β : Type} {e e' : Engine β} {r : Registry} {c : Call β} {o : Oracle β} {n source : Nat}
  {tool : String} {v : Json}

/-- The run is a call of the tool with the value, from its beginning to its return, and nothing
else. -/
structure Errand (e : Engine β) (r : Registry) (tool : String) (v : Json) (as : List (Action β))
    (result : Except DispatchError Response) : Prop where
  begins : ∃ turns, as = .invokeValue tool v :: turns ∧ ∀ a ∈ turns, a.concerns e.next = true
  returns : returns e.next (e.record r as) = [result]
  leaves : (e.after r as).1 = { e with next := e.next + 1 }
  spares : ∀ source, partings source (e.record r as) = []

theorem Oracle.concerns_turn (o : Oracle β) (c : Call β) : (o.turn c).concerns c.id = true := by
  unfold turn deliver
  split
  · exact beq_self_eq_true c.id
  · split <;> exact beq_self_eq_true c.id
  · exact beq_self_eq_true c.id

namespace Engine

/-- The engine with the call that was begun last, or with that call over. -/
inductive Begun (e : Engine β) : Engine β → Prop
  | active (c : Call β) (hc : c.id = e.next) : Begun e (e.push c)
  | done : Begun e { e with next := e.next + 1 }

/-- From `e'` on the actions are for the call that `e` begins next, and do nothing else. -/
structure Confined (e e' : Engine β) (r : Registry) (as : List (Action β)) : Prop where
  begun : e.Begun (e'.after r as).1
  own : ∀ a ∈ as, a.concerns e.next = true
  spares : ∀ source, partings source (e'.record r as) = []

/-- A shutdown, and the answers of the sources, in this order. -/
def closing (e : Engine β) (sources : List Nat) : List (Action β) :=
  .shutdown :: (sources.map (.disconnected e.next) ++ [.advance e.next])

/-! ### The turns of a call -/

theorem turns_of_over {id : Nat} (h : e.call? id = none) (r : Registry) (o : Oracle β) (n : Nat) :
    e.turns r o id n = [] := by
  cases n with
  | zero => rfl
  | succ n => rw [turns, h]

theorem advanceCall_engine (h : c.stage.isSuspended = false) (r : Registry) :
    (∃ s, (e.advanceCall r c).engine = e.setStage c.id s) ∨
      (e.advanceCall r c).engine = e.dropCall c.id := by
  cases hst : c.stage with
  | gate =>
    simp only [advanceCall, hst]
    split <;> exact .inl ⟨_, rfl⟩
  | answered result =>
    rcases result with err | - | -
    · exact .inr (by simp only [advanceCall, hst, conclude])
    · exact .inr (by simp only [advanceCall, hst, conclude])
    · exact .inl ⟨.cleared, by simp only [advanceCall, hst]⟩
  | ended result => cases result <;> exact .inr (by simp only [advanceCall, hst, conclude])
  | asking | running =>
    rw [hst] at h
    cases h
  | _ =>
    simp only [advanceCall, hst]
    exact .inl ⟨_, rfl⟩

theorem partings_of_frame {a : Action β} (h : ∀ id, e.Frame id (e.step r a)) (source : Nat) :
    (Moment.mk e r a).partings source = [] :=
  Moment.partings_of_rest (m := ⟨e, r, a⟩) (fun _ hfx => not_handover_of_frame h hfx) source

theorem Confined.nil (h : e.Begun e') (r : Registry) : e.Confined e' r [] :=
  ⟨h, fun _ ha => (List.not_mem_nil ha).elim, fun _ => rfl⟩

theorem Confined.cons {a : Action β} {as : List (Action β)}
    (h : e.Confined (e'.step r a).engine (e'.step r a).registry as)
    (ha : a.concerns e.next = true) (hf : ∀ id, e'.Frame id (e'.step r a)) :
    e.Confined e' r (a :: as) where
  begun := h.begun
  own := List.forall_mem_cons.2 ⟨ha, h.own⟩
  spares source := by
    rw [record, partings, List.flatMap_cons, partings_of_frame hf]
    exact h.spares source

/-- A turn moves the call on, or it is over, and nothing else comes of it. -/
theorem Sound.push_turn (hs : e.Sound) (hc : c.id = e.next) (o : Oracle β) (r : Registry) :
    e.Begun ((e.push c).step r (o.turn c)).engine ∧
      ∀ id, (e.push c).Frame id ((e.push c).step r (o.turn c)) := by
  have goes (s : Stage) : e.Begun (e.push (c.at s)) := .active (c.at s) hc
  by_cases hwaits : c.stage.isSuspended = true
  · rcases Stage.isSuspended_iff.1 hwaits with ⟨h, hst⟩ | hst
    · have hturn : o.turn c = .answer c.id (o.confirm h c.entry.name c.args) := by
        rw [Oracle.turn, hst]
      have hcall : (e.push c).call? c.id = some c := by
        rw [hc]
        exact hs.push_call? hc
      have hawaits : c.awaitsAnswer = true := by rw [Call.awaitsAnswer, hst]
      rw [hturn]
      refine ⟨?_, fun id => frame_step r rfl⟩
      show e.Begun ((e.push c).answer c.id _)
      rw [answer_eq hcall, if_pos hawaits, hc, hs.push_setStage hc]
      exact goes _
    · have hturn : o.turn c = o.deliver c := by rw [Oracle.turn, hst]
      have haside : (o.deliver c).isAside = true := by
        unfold Oracle.deliver
        split <;> rfl
      rw [hturn]
      refine ⟨?_, fun id => frame_step r haside⟩
      rw [hs.push_deliver hc hst o r]
      exact goes _
  · have hturn : o.turn c = .advance e.next := by
      rw [← hc]
      cases hst : c.stage <;> simp_all [Oracle.turn, Stage.isSuspended]
    rw [hturn, hs.push_advance hc]
    refine ⟨?_, fun id => frame_advanceCall r c⟩
    rcases advanceCall_engine (e := e.push c) (by simpa using hwaits) r with ⟨s, hgoes⟩ | hends
    · rw [hgoes, hc, hs.push_setStage hc]
      exact goes s
    · rw [hends, hc, hs.push_dropCall hc]
      exact .done

theorem Begun.turns (h : e.Begun e') (hs : e.Sound) (o : Oracle β) (r : Registry) (n : Nat) :
    e.Confined e' r (e'.turns r o e.next n) := by
  induction n generalizing e' r with
  | zero => exact .nil h r
  | succ n ih =>
    cases h with
    | done =>
      have hnone : ({ e with next := e.next + 1 } : Engine β).call? e.next = none := hs.call?_next
      rw [turns_of_over hnone]
      exact .nil .done r
    | active c hc =>
      obtain ⟨hnext, hframe⟩ := hs.push_turn hc o r
      have hturns : (e.push c).turns r o e.next (n + 1) = o.turn c ::
          ((e.push c).step r (o.turn c)).engine.turns
            ((e.push c).step r (o.turn c)).registry o e.next n := by
        rw [Engine.turns, hs.push_call? hc]
      rw [hturns]
      exact (ih hnext _).cons (hc ▸ o.concerns_turn c) hframe

/-! ### A call that runs alone -/

theorem begun_invokeValue (e : Engine β) (r : Registry) (tool : String) (v : Json) :
    e.Begun (e.step r (.invokeValue tool v)).engine := by
  cases hv : v.asArgs? with
  | none =>
    simp only [step, invokeValue, hv]
    exact .done
  | some args =>
    cases hl : e.lookup tool with
    | error err =>
      simp only [step, invokeValue, hv, invoke, hl]
      exact .done
    | ok entry =>
      simp only [step, invokeValue, hv, invoke, hl]
      exact .active ⟨e.next, entry, args, .found⟩ rfl

theorem Begun.eq_of_over (h : e.Begun e') (hs : e.Sound) (hover : e'.standing e.next = .over) :
    e' = { e with next := e.next + 1 } := by
  cases h with
  | done => rfl
  | active c hc =>
    have hactive : (e.push c).standing e.next = .active c := by
      rw [hs.standing_push (c := c) rfl rfl hc]
      exact if_pos rfl
    rw [hactive] at hover
    cases hover

/-- A call that is begun and takes its turns alone is an errand. -/
theorem Sound.errand (hs : e.Sound) (o : Oracle β) (r : Registry) (tool : String) (v : Json) :
    ∃ result, Errand e r tool v (e.alone r o (.invokeValue tool v)) result := by
  have hname : (.invokeValue tool v : Action β).name? = some tool := rfl
  have hbegun := begun_invokeValue e r tool v
  have hturns := hbegun.turns hs o (e.step r (.invokeValue tool v)).registry 10
  have hsound : (e.step r (.invokeValue tool v)).engine.Sound := hs.step _
  have hover := (hsound.turns (o := o) (r := (e.step r (.invokeValue tool v)).registry)
    (next_lt_step hname) rfl (Standing.turnsLeft_le _)).2
  obtain ⟨result, hresult⟩ := o.whole_result r.fill.2 e e.next hname
  refine ⟨result, ⟨_, rfl, hturns.own⟩, ?_, hturns.begun.eq_of_over hs hover, fun source => ?_⟩
  · rw [returns_shows, hs.shows_alone o r hname, hresult]
  · rw [alone, record, partings, List.flatMap_cons, partings_of_frame fun id => frame_step r rfl]
    exact hturns.spares source

/-! ### A shutdown that runs alone -/

/-- The engine while its sources are disconnected, as far as they are left. -/
def shutting (e : Engine β) (left : List Nat) : Engine β :=
  { e with closings := e.closings ++ [⟨e.next, left⟩], kept := [], next := e.next + 1 }

theorem shutting_disconnected (hx : ∀ x ∈ e.enrolments, x.id < e.next)
    (hy : ∀ y ∈ e.closings, y.id < e.next) (left : List Nat) (source : Nat) :
    (e.shutting left).disconnected e.next source = e.shutting (left.erase source) := by
  have hnone : (e.shutting left).enrolStage? e.next = none := by
    have hfind : e.enrolments.find? (·.id == e.next) = none :=
      List.find?_eq_none.2 fun x hmem => by simpa using Nat.ne_of_lt (hx x hmem)
    exact congrArg (Option.map Enrolment.stage) hfind
  have hold : e.closings.map (fun y => if y.id = e.next then
      { y with pending := y.pending.erase source } else y) = e.closings := by
    refine (List.map_congr_left fun y hmem => ?_).trans (List.map_id _)
    exact if_neg (Nat.ne_of_lt (hy y hmem))
  rw [disconnected, hnone]
  simp only [shutting, List.map_append, hold, List.map_singleton, if_pos]

theorem shutting_answers (hx : ∀ x ∈ e.enrolments, x.id < e.next)
    (hy : ∀ y ∈ e.closings, y.id < e.next) (r : Registry) {left sources : List Nat}
    (hp : sources.Perm left) :
    (e.shutting left).after r (sources.map (.disconnected e.next)) = (e.shutting [], r) ∧
      ((e.shutting left).record r (sources.map (.disconnected e.next))).flatMap Moment.effects =
        [] := by
  induction sources generalizing left with
  | nil =>
    obtain rfl := List.nil_perm.1 hp
    exact ⟨rfl, rfl⟩
  | cons source sources ih =>
    have hstep : (e.shutting left).step r (.disconnected e.next source) =
        ⟨e.shutting (left.erase source), r, []⟩ := by
      rw [step, shutting_disconnected hx hy]
    obtain ⟨hafter, heffects⟩ := ih (List.cons_perm_iff_perm_erase.1 hp).2
    rw [List.map_cons, after, record, List.flatMap_cons, Moment.effects, Moment.outcome, hstep]
    exact ⟨hafter, heffects⟩

/-- A shutdown to which nothing else happens has each source that is kept disconnected once, and
leaves the engine without them. -/
theorem Sound.closing (hs : e.Sound) (hx : ∀ x ∈ e.enrolments, x.id < e.next)
    (hy : ∀ y ∈ e.closings, y.id < e.next) (r : Registry) {sources : List Nat}
    (hp : sources.Perm e.kept) :
    e.after r (e.closing sources) = ({ e with kept := [], next := e.next + 1 }, r) ∧
      (e.record r (e.closing sources)).flatMap Moment.effects =
        e.kept.map (.disconnecting e.next) ++ [.shutDown e.next] := by
  have hbegin : e.step r .shutdown =
      ⟨e.shutting e.kept, r, e.kept.map (.disconnecting e.next)⟩ := rfl
  have hend : (e.shutting []).step r (.advance e.next) =
      ⟨{ e with kept := [], next := e.next + 1 }, r, [.shutDown e.next]⟩ := by
    have hcall : (e.shutting []).call? e.next = none := hs.call?_next
    have henrolment : (e.shutting []).enrolment? e.next = none :=
      List.find?_eq_none.2 fun x hmem => by simpa using Nat.ne_of_lt (hx x hmem)
    have hnone : e.closings.find? (·.id == e.next) = none :=
      List.find?_eq_none.2 fun y hmem => by simpa using Nat.ne_of_lt (hy y hmem)
    have hclosing : (e.shutting []).closing? e.next = some ⟨e.next, []⟩ := by
      simp [closing?, shutting, List.find?_append, hnone]
    have hold : e.closings.filter (·.id != e.next) = e.closings :=
      List.filter_eq_self.2 fun y hmem => by simpa using Nat.ne_of_lt (hy y hmem)
    simp only [Engine.step, Engine.advance, hcall, henrolment, hclosing, advanceClosing,
      List.isEmpty_nil, if_true]
    simp [dropClosing, shutting, hold]
  obtain ⟨hafter, heffects⟩ := shutting_answers hx hy r hp
  rw [Engine.closing, after, record, List.flatMap_cons, Moment.effects, Moment.outcome, hbegin,
    after_append, record_append, List.flatMap_append, hafter, heffects]
  simp [after, record, Moment.effects, Moment.outcome, hend]

end Engine

end GatedCalls
