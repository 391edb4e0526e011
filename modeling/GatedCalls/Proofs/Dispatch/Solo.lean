import GatedCalls.Proofs.Dispatch.Story

/-!
# A call goes on by itself

`Call.react` says what an action shows of a call in flight and where it leaves it. It is a function
of the call, the action and the registry alone, and the rest of the engine has no part in it:
`step_react`. The registry has none either once the call is `Stage.isBound`, so that what is shown
of a bound call depends on the actions that concern it and on nothing else.
-/

namespace GatedCalls

variable {β : Type} {e e' : Engine β} {r r' : Registry} {c : Call β} {i id : Nat} {a : Action β}

def Call.awaitsAnswer (c : Call β) : Bool :=
  match c.stage with
  | .asking _ => true
  | _ => false

/-- What an action shows of a call in flight, and where the call is then. -/
def Call.react (r : Registry) (c : Call β) : Action β → List (Note β) × Standing β
  | .answer i result =>
    if i = c.id ∧ c.awaitsAnswer then ([.answered result], .active (c.at (.answered result)))
    else ([], .active c)
  | .finish i result =>
    if i = c.id ∧ c.awaitsTool false then ([.finished result], .active (c.at (.ended result)))
    else ([], .active c)
  | .reply i result =>
    if i = c.id ∧ c.awaitsTool true then
      ([.finished (remoteOutcome result)], .active (c.at (.ended (remoteOutcome result))))
    else ([], .active c)
  | .cancel i =>
    if i = c.id ∧ c.stage.isSuspended then ([.cancelled], .over) else ([], .active c)
  | .advance i => if i = c.id then c.next r else ([], .active c)
  | .register _ | .addHook | .removeHook _ | .setHandler _ | .invoke .. | .invokeValue ..
  | .enrol .. | .shutdown | .list .. | .disconnected .. => ([], .active c)

namespace Engine

/-! ### What happens to the call -/

theorem awaitsAnswer_eq (hc : e.call? id = some c) : e.awaitsAnswer id = c.awaitsAnswer := by
  unfold awaitsAnswer stage? Call.awaitsAnswer
  rw [hc, Option.map_some]
  cases c.stage <;> rfl

theorem Sound.react_advance (hs : e.Sound) (hc : e.call? id = some c) (i : Nat) :
    (e.advance r i).effects.filterMap (Effect.note? id) = (c.react r (.advance i)).1 ∧
      (e.advance r i).engine.standing id = (c.react r (.advance i)).2 := by
  have hid := call?_id hc
  unfold Engine.advance Call.react
  dsimp only
  cases hi : e.call? i with
  | some c' =>
    dsimp only
    by_cases hne : i = id
    · subst hne
      obtain rfl : c = c' := Option.some.inj (hc.symm.trans hi)
      rw [if_pos hid.symm]
      exact hs.next_advance hc
    · have hne' : c'.id ≠ id := by rw [call?_id hi]; exact hne
      rw [if_neg (hid ▸ hne), (advanceCall_ne hne').1, (advanceCall_ne hne').2]
      exact ⟨rfl, hs.standing hc⟩
  | none =>
    have hne : i ≠ c.id := by rintro rfl; rw [hid, hc] at hi; cases hi
    rw [if_neg hne]
    have frame {e' : Engine β} (hn : e'.next = e.next) (hcs : e'.calls = e.calls) :
        e'.standing id = .active c := by
      rw [standing_congr hn (by unfold call?; rw [hcs])]
      exact hs.standing hc
    cases e.enrolment? i with
    | some x =>
      obtain ⟨hn, hcs, hx⟩ := advanceEnrolment_frame (e := e) x id
      exact ⟨hx, frame hn hcs⟩
    | none =>
      cases e.closing? i with
      | some x =>
        obtain ⟨hn, hcs, hx⟩ := advanceClosing_frame (e := e) x id
        exact ⟨hx, frame hn hcs⟩
      | none => exact ⟨rfl, hs.standing hc⟩

theorem answer_eq (hc : e.call? i = some c) (result : Except ConfirmationError Bool) :
    e.answer i result = if c.awaitsAnswer then e.setStage i (.answered result) else e := by
  unfold answer Call.awaitsAnswer stage?
  rw [hc, Option.map_some]
  cases c.stage <;> rfl

theorem answer_ne (h : i ≠ id) (result : Except ConfirmationError Bool) :
    (e.answer i result).standing id = e.standing id := by
  unfold answer
  split
  · exact standing_setStage_ne h _
  · rfl

theorem finish_ne (h : i ≠ id) (remote : Bool) (result : Except ToolError Response) :
    (e.finish i remote result).standing id = e.standing id := by
  unfold finish
  split
  · split
    · exact standing_setStage_ne h _
    · exact standing_setStage_ne h _
    · rfl
  · rfl

theorem Sound.react_awaited (hs : e.Sound) (hc : e.call? id = some c) {w : Bool} {s : Stage}
    (hme : i = id → e' = if w then e.setStage i s else e)
    (hne : i ≠ id → e'.standing id = e.standing id) (n : Note β) :
    (if i = id ∧ w = true then [n] else [],  e'.standing id) =
      if i = c.id ∧ w = true then ([n], .active (c.at s)) else ([], .active c) := by
  rw [call?_id hc]
  by_cases hid : i = id
  · subst hid
    rw [hme rfl]
    cases w with
    | true => simp [hs.standing_setStage hc]
    | false => simp [hs.standing hc]
  · simp [hid, hne hid, hs.standing hc]

theorem Sound.react_cancel (hs : e.Sound) (hc : e.call? id = some c) (i : Nat) :
    (if i = id ∧ c.stage.isSuspended = true then [.cancelled] else [], (e.cancel i).standing id) =
      c.react r (.cancel i) := by
  have hf : (e.cancel i).call? id =
      (e.call? id).filter fun c => !(c.id == i && c.stage.isSuspended) := hs.call?_filter _
  have hlt : ¬ e.next ≤ id := Nat.not_le.2 (call?_id hc ▸ hs.below c (call?_mem hc))
  have hst : (e.cancel i).standing id =
      if i = id ∧ c.stage.isSuspended = true then .over else .active c := by
    unfold Engine.standing
    rw [hf, hc, if_neg (by exact hlt)]
    by_cases hw : i = id ∧ c.stage.isSuspended = true
    · rw [if_pos hw, Option.filter_some_neg (by simp [call?_id hc, hw.1, hw.2])]
    · rw [if_neg hw, Option.filter_some_pos (by rw [call?_id hc]; grind)]
  rw [hst, Call.react, call?_id hc]
  split <;> rfl

/-! ### What happens elsewhere -/

theorem notes_callNote (h : e.next ≠ id) (name : String) (args : Args) :
    e.callNote id name args = [] := by
  unfold callNote
  split
  · exact if_neg h
  · rfl

theorem Sound.idle_invoke (hs : e.Sound) (hid : e.next ≠ id) (name : String) (args : Args) :
    (e.invoke name args).2.filterMap (Effect.note? id) = [] ∧
      (e.invoke name args).1.standing id = e.standing id := by
  cases hl : e.lookup name with
  | ok entry =>
    have hi : e.invoke name args = ({ e with
        calls := e.calls ++ [⟨e.next, entry, args, .found⟩], next := e.next + 1 }, []) := by
      rw [Engine.invoke, hl]
    have hp : (e.invoke name args).1.standing id =
        if id = e.next then .active ⟨e.next, entry, args, .found⟩ else e.standing id :=
      hs.standing_push (by rw [hi]) (by rw [hi]) rfl
    exact ⟨by rw [hi]; rfl, by rw [hp, if_neg hid.symm]⟩
  | error err =>
    have hi : e.invoke name args =
        ({ e with next := e.next + 1 }, [.returned e.next (.error (.catalog err))]) := by
      rw [Engine.invoke, hl]
    rw [hi]
    exact ⟨by simp [Effect.note?, hid], standing_of_ne hid.symm rfl rfl⟩

/-- What an action shows of a call in flight and where it leaves it is a function of the call. -/
theorem step_react (hs : e.Sound) (hc : e.call? id = some c) (r : Registry) (a : Action β) :
    ((Moment.mk e r a).notes id, (e.step r a).engine.standing id) = c.react r a := by
  have hid : e.next ≠ id := fun h => by rw [← h, hs.call?_next] at hc; cases hc
  have hst := hs.standing hc
  have idle {a : Action β} (hn : (Moment.mk e r a).notes id = [])
      (hs' : (e.step r a).engine.standing id = e.standing id)
      (hr : c.react r a = ([], .active c)) :
      ((Moment.mk e r a).notes id, (e.step r a).engine.standing id) = c.react r a := by
    rw [hn, hs', hst, hr]
  cases a with
  | register entry =>
    cases h : e.catalog.register entry with
    | ok t =>
      refine idle ?_ ?_ rfl
      · rw [Moment.notes, Moment.effects, Moment.outcome, step_register h]
        rfl
      · rw [step_register h]
        rfl
    | error err =>
      refine idle ?_ ?_ rfl
      · rw [Moment.notes, Moment.effects, Moment.outcome, step_register_error h]
        rfl
      · rw [step_register_error h]
  | addHook => exact idle rfl rfl rfl
  | removeHook k => exact idle rfl rfl rfl
  | setHandler h => exact idle rfl rfl rfl
  | invoke name args =>
    obtain ⟨hn, hs'⟩ := hs.idle_invoke hid name args
    refine idle ?_ hs' rfl
    show e.callNote id name args ++ (e.invoke name args).2.filterMap (Effect.note? id) = []
    rw [notes_callNote hid, hn]
    rfl
  | invokeValue name v =>
    cases hv : v.asArgs? with
    | some args =>
      obtain ⟨hn, hs'⟩ := hs.idle_invoke hid name args
      refine idle ?_ ?_ rfl
      · simp [Moment.notes, Moment.given, Moment.effects, Moment.outcome, step, invokeValue, hv,
          notes_callNote hid, hn]
      · simpa [step, invokeValue, hv] using hs'
    | none =>
      refine idle ?_ ?_ rfl
      · simp [Moment.notes, Moment.given, Moment.effects, Moment.outcome, step, invokeValue, hv,
          Effect.note?, hid]
      · have hi : (e.step r (.invokeValue name v)).engine = { e with next := e.next + 1 } := by
          simp [step, invokeValue, hv]
        rw [hi]
        exact standing_of_ne hid.symm rfl rfl
  | enrol source group gated => exact idle rfl (standing_of_ne hid.symm rfl rfl) rfl
  | shutdown =>
    refine idle ?_ (standing_of_ne hid.symm rfl rfl) rfl
    simp [Moment.notes, Moment.given, Moment.effects, Moment.outcome, step, shutdown, Effect.note?]
  | list i result =>
    refine idle rfl (standing_congr ?_ ?_) rfl <;> simp only [step, list] <;> split <;> rfl
  | disconnected i source =>
    refine idle rfl (standing_congr ?_ ?_) rfl <;> simp only [step, disconnected] <;> split <;> rfl
  | answer i result =>
    have h := hs.react_awaited hc (fun h : i = id => answer_eq (h ▸ hc) result)
      (fun h => answer_ne h result) (.answered result)
    simpa [Moment.notes, Moment.given, Moment.effects, Moment.outcome, step, awaitsAnswer_eq hc,
      Call.react] using h
  | finish i result =>
    have h := hs.react_awaited hc (fun h : i = id => finish_eq (h ▸ hc) false result)
      (fun h => finish_ne h false result) (.finished result)
    simpa [Moment.notes, Moment.given, Moment.effects, Moment.outcome, step, hc, Call.react] using h
  | reply i result =>
    have h := hs.react_awaited hc (fun h : i = id => finish_eq (h ▸ hc) true (remoteOutcome result))
      (fun h => finish_ne h true _) (.finished (remoteOutcome result))
    simpa [Moment.notes, Moment.given, Moment.effects, Moment.outcome, step, hc, Call.react] using h
  | cancel i =>
    have h := hs.react_cancel (r := r) hc i
    simpa [Moment.notes, Moment.given, Moment.effects, Moment.outcome, step, hc] using h
  | advance i =>
    obtain ⟨hn, hs'⟩ := hs.react_advance (r := r) hc i
    exact Prod.ext hn hs'

end Engine

/-! ### Bound calls -/

/-- Whether the registry has no say any more in how a call at this stage goes on. -/
def Stage.isBound : Stage → Bool
  | .found | .gate | .unset => false
  | .chosen _ | .presented _ | .asking _ | .answered _ | .cleared | .running | .ended _ => true

/-- Whether the handler of the call is chosen, or none will be. -/
def Standing.Bound : Standing β → Prop
  | .fresh => False
  | .active c => c.stage.isBound = true
  | .over => True

def Action.concerns (id : Nat) : Action β → Bool
  | .answer i _ | .finish i _ | .reply i _ | .cancel i | .advance i => i == id
  | .register _ | .addHook | .removeHook _ | .setHandler _ | .invoke .. | .invokeValue ..
  | .enrol .. | .shutdown | .list .. | .disconnected .. => false

namespace Call

theorem react_other (h : a.concerns c.id = false) : c.react r a = ([], .active c) := by
  cases a with
  | answer i _ | finish i _ | reply i _ | cancel i | advance i =>
    have hi : i ≠ c.id := by simpa [Action.concerns] using h
    simp [react, hi]
  | _ => rfl

theorem react_bound (h : c.stage.isBound = true) (r r' : Registry) (a : Action β) :
    c.react r a = c.react r' a ∧ (c.react r a).2.Bound := by
  have next : c.next r = c.next r' ∧ (c.next r).2.Bound := by
    cases hst : c.stage with
    | found | gate | unset => rw [hst] at h; cases h
    | answered result =>
      match result with
      | .ok true | .ok false | .error err =>
        simp [Call.next, hst, Standing.Bound, Stage.isBound, Call.at]
    | ended result => cases result <;> simp [Call.next, hst, Standing.Bound]
    | _ => simp [Call.next, hst, Standing.Bound, Stage.isBound, Call.at]
  cases a with
  | advance i =>
    unfold react
    dsimp only
    split
    · exact next
    · exact ⟨rfl, h⟩
  | answer i result | finish i result | reply i result =>
    refine ⟨rfl, ?_⟩
    unfold react
    dsimp only
    split
    · exact rfl
    · exact h
  | cancel i =>
    refine ⟨rfl, ?_⟩
    unfold react
    dsimp only
    split
    · exact trivial
    · exact h
  | _ => exact ⟨rfl, h⟩

end Call

namespace Standing

variable {y : Standing β}

/-- What an action shows of a call that is bound or over, and where the call is then. -/
def react (r : Registry) (y : Standing β) (a : Action β) : List (Note β) × Standing β :=
  match y with
  | .active c => c.react r a
  | y => ([], y)

theorem react_bound (h : y.Bound) (r r' : Registry) (a : Action β) :
    y.react r a = y.react r' a ∧ (y.react r a).2.Bound := by
  cases y with
  | fresh => exact h.elim
  | active c => exact Call.react_bound h r r' a
  | «over» => exact ⟨rfl, trivial⟩

end Standing

namespace Engine

theorem step_bound (hs : e.Sound) (hb : (e.standing id).Bound) (r : Registry) (a : Action β) :
    ((Moment.mk e r a).notes id, (e.step r a).engine.standing id) = (e.standing id).react r a := by
  cases hy : e.standing id with
  | fresh => rw [hy] at hb; exact hb.elim
  | active c => exact step_react hs (call?_of_standing hy) r a
  | «over» =>
    have hm : Move id r _ _ _ := step_move hs a
    rw [hy] at hm
    generalize (e.step r a).engine.standing id = y at hm ⊢
    generalize (Moment.mk e r a).notes id = ns at hm ⊢
    cases hm
    rfl

/-- What does not concern a bound call shows nothing of it and leaves it. -/
theorem standing_react (hb : (e.standing id).Bound) (ha : a.concerns id = false) (r : Registry) :
    (e.standing id).react r a = ([], e.standing id) := by
  cases hy : e.standing id with
  | fresh => rw [hy] at hb; exact hb.elim
  | active c => exact Call.react_other (by rwa [call?_id (call?_of_standing hy)])
  | «over» => rfl

end Engine

end GatedCalls
