import GatedCalls.Proofs.Dispatch.Life

/-!
# Every step of the engine is a move

`Engine.Sound`: calls in flight bear different numbers that were given out, and the catalog is keyed
by the names of its entries. `step_move`: from a sound state a step changes the standing of each
number as `Move` says, and shows the notes that `Move` says; `Sound.step`: the state stays sound.
-/

namespace GatedCalls

variable {β : Type} {e e' : Engine β} {r : Registry} {c : Call β} {i id : Nat}

namespace Engine

/-- What holds of every state that a run reaches. -/
structure Sound (e : Engine β) : Prop where
  keyed : e.catalog.Keyed
  below : ∀ c ∈ e.calls, c.id < e.next
  distinct : (e.calls.map Call.id).Nodup

theorem sound_empty : Sound (∅ : Engine β) where
  keyed := Catalog.Keyed.empty
  below _ h := by cases h
  distinct := List.nodup_nil

/-! ### Looking a call up -/

theorem call?_id (h : e.call? id = some c) : c.id = id := by
  simpa using List.find?_some h

theorem call?_mem (h : e.call? id = some c) : c ∈ e.calls := List.mem_of_find?_eq_some h

theorem Sound.call?_of_mem (hs : e.Sound) (h : c ∈ e.calls) : e.call? c.id = some c := by
  unfold call?
  have hd := hs.distinct
  revert h hd
  generalize e.calls = l
  intro h hd
  induction l with
  | nil => cases h
  | cons x rest ih =>
    rw [List.map_cons, List.nodup_cons] at hd
    rcases List.mem_cons.1 h with rfl | h
    · simp
    · have hne : x.id ≠ c.id := fun he => hd.1 (he ▸ List.mem_map_of_mem h)
      rw [List.find?_cons_of_neg (by simpa using hne)]
      exact ih h hd.2

theorem Sound.call?_next (hs : e.Sound) : e.call? e.next = none := by
  cases h : e.call? e.next with
  | none => rfl
  | some c =>
    have hlt := hs.below c (call?_mem h)
    rw [call?_id h] at hlt
    exact absurd hlt (Nat.lt_irrefl _)

theorem call?_setStage (s : Stage) : (e.setStage i s).call? id =
    (e.call? id).map fun c => if i = id then c.at s else c := by
  have hf : ((fun c : Call β => c.id == id) ∘ fun c => if c.id = i then c.at s else c) =
      fun c => c.id == id := by
    funext c
    simp only [Function.comp]
    split <;> rfl
  show (e.calls.map fun c => if c.id = i then c.at s else c).find? (·.id == id) = _
  rw [List.find?_map, hf]
  cases h : e.call? id with
  | none => rw [show e.calls.find? (·.id == id) = none from h]; rfl
  | some c =>
    rw [show e.calls.find? (·.id == id) = some c from h, Option.map_some, Option.map_some,
      call?_id h]
    simp only [eq_comm]

theorem call?_filter {p : Call β → Bool} (h : ∀ c, c.id = id → p c = true) :
    (e.calls.filter p).find? (·.id == id) = e.call? id := by
  rw [List.find?_filter]
  unfold call?
  congr 1
  funext c
  by_cases hc : c.id = id
  · simp [hc, h c hc]
  · simp [hc]

theorem Sound.call?_filter (hs : e.Sound) (p : Call β → Bool) :
    (e.calls.filter p).find? (·.id == id) = (e.call? id).filter p := by
  have only : ∀ x ∈ e.calls, x.id = id → e.call? id = some x := fun x hx hid =>
    hid ▸ hs.call?_of_mem hx
  cases h : (e.call? id).filter p with
  | none =>
    refine List.find?_eq_none.2 fun x hx hid => ?_
    obtain ⟨hx, hp⟩ := List.mem_filter.1 hx
    rw [only x hx (by simpa using hid), Option.filter_some_pos hp] at h
    cases h
  | some c =>
    obtain ⟨hc, hp⟩ := Option.filter_eq_some_iff.1 h
    cases hf : (e.calls.filter p).find? (·.id == id) with
    | none =>
      have := List.find?_eq_none.1 hf c (List.mem_filter.2 ⟨call?_mem hc, hp⟩)
      exact absurd (by simpa using call?_id hc) this
    | some x =>
      have hx := (List.mem_filter.1 (List.mem_of_find?_eq_some hf)).1
      rw [← hc, only x hx (by simpa using List.find?_some hf)]

theorem call?_dropCall_ne (h : i ≠ id) : (e.dropCall i).call? id = e.call? id :=
  call?_filter fun c hc => by simpa [hc] using h.symm

theorem call?_dropCall : (e.dropCall id).call? id = none := by
  show (e.calls.filter _).find? _ = none
  simp

/-! ### Standings -/

theorem standing_congr (hn : e'.next = e.next) (hc : e'.call? id = e.call? id) :
    e'.standing id = e.standing id := by
  unfold standing
  rw [hn, hc]

theorem Sound.standing (hs : e.Sound) (h : e.call? id = some c) : e.standing id = .active c := by
  have hlt : id < e.next := call?_id h ▸ hs.below c (call?_mem h)
  unfold Engine.standing
  rw [if_neg (Nat.not_le.2 hlt), h]

theorem call?_of_standing (h : e.standing id = .active c) : e.call? id = some c := by
  unfold standing at h
  split at h
  · cases h
  · cases hc : e.call? id with
    | none => rw [hc] at h; cases h
    | some x => rw [hc] at h; cases h; rfl

theorem standing_next : e.standing e.next = .fresh := if_pos (Nat.le_refl _)

theorem Sound.standing_spent (hs : e.Sound) (hn : e'.next = e.next + 1)
    (hc : e'.call? e.next = e.call? e.next) : e'.standing e.next = .over := by
  unfold Engine.standing
  rw [if_neg (by omega), hc, hs.call?_next]

theorem standing_of_ne (hid : id ≠ e.next) (hn : e'.next = e.next + 1)
    (hc : e'.call? id = e.call? id) : e'.standing id = e.standing id := by
  unfold standing
  rw [hn, hc]
  congr 1
  exact propext ⟨fun h => by omega, fun h => by omega⟩

theorem Sound.move_spent (hs : e.Sound) (hn : e'.next = e.next + 1)
    (hc : e'.call? id = e.call? id) : Move id r (e.standing id) [] (e'.standing id) := by
  by_cases hid : id = e.next
  · subst hid
    rw [standing_next, hs.standing_spent hn hc]
    exact .spend
  · rw [standing_of_ne hid hn hc]
    exact .rest _

theorem Sound.move_refuse (hs : e.Sound) (err : DispatchError) (hn : e'.next = e.next + 1)
    (hc : e'.call? id = e.call? id) : Move id r (e.standing id)
      ([(.returned e.next (.error err) : Effect β)].filterMap (Effect.note? id))
      (e'.standing id) := by
  by_cases hid : e.next = id
  · subst hid
    rw [standing_next, hs.standing_spent hn hc]
    simpa [Effect.note?] using Move.refuse err
  · simpa [Effect.note?, hid] using hs.move_spent (r := r) hn hc

theorem call?_push (hcs : e'.calls = e.calls ++ [c]) :
    e'.call? id = (e.call? id).or (if c.id = id then some c else none) := by
  unfold call?
  rw [hcs, List.find?_append]
  congr 1
  by_cases hid : c.id = id <;> simp [hid]

theorem Sound.standing_push (hs : e.Sound) (hn : e'.next = e.next + 1)
    (hcs : e'.calls = e.calls ++ [c]) (hc : c.id = e.next) :
    e'.standing id = if id = e.next then .active c else e.standing id := by
  split
  · rename_i hid
    subst hid
    unfold Engine.standing
    rw [if_neg (by omega), call?_push hcs, hs.call?_next, if_pos hc]
    rfl
  · rename_i hid
    refine standing_of_ne hid hn ?_
    rw [call?_push hcs, if_neg (by omega), Option.or_none]

theorem Sound.standing_setStage (hs : e.Sound) (h : e.call? id = some c) (s : Stage) :
    (e.setStage id s).standing id = .active (c.at s) := by
  have hlt : id < e.next := call?_id h ▸ hs.below c (call?_mem h)
  have hc : (e.setStage id s).call? id = some (c.at s) := by
    rw [call?_setStage, h, Option.map_some, if_pos rfl]
  unfold Engine.standing
  rw [hc, if_neg (by exact Nat.not_le.2 hlt)]

theorem standing_setStage_ne (h : i ≠ id) (s : Stage) :
    (e.setStage i s).standing id = e.standing id :=
  standing_congr rfl (by rw [call?_setStage]; simp [h])

theorem Sound.standing_dropCall (hs : e.Sound) (h : e.call? id = some c) :
    (e.dropCall id).standing id = .over := by
  have hlt : id < e.next := call?_id h ▸ hs.below c (call?_mem h)
  unfold Engine.standing
  rw [call?_dropCall, if_neg (by exact Nat.not_le.2 hlt)]

theorem standing_dropCall_ne (h : i ≠ id) : (e.dropCall i).standing id = e.standing id :=
  standing_congr rfl (call?_dropCall_ne h)

/-! ### A call goes on -/

theorem notes_emit (event : DispatchEvent) : (e.emit event).filterMap (Effect.note? id) =
    if event.call = id then [.told event.name event.kind] else [] := by
  have h : (e.hooks.map fun k => (.delivered k event : Effect β)).filterMap (Effect.note? id) =
      [] := by simp [List.filterMap_map, Effect.note?]
  by_cases hid : event.call = id <;> simp [emit, Effect.note?, hid, h]

theorem notes_run : [run c].filterMap (Effect.note? id) =
    if c.id = id then [.executed (run c)] else [] := by
  unfold run
  by_cases hid : c.id = id <;> split <;> simp [Effect.note?, hid]

theorem notes_conclude (kind : DispatchEvent.Kind) (result : Except DispatchError Response) :
    (e.conclude c kind result).2.filterMap (Effect.note? id) =
      if c.id = id then [.told c.entry.name kind, .returned result] else [] := by
  by_cases hid : c.id = id <;> simp [conclude, notes_emit, Effect.note?, hid]

/-- When a call goes on, `Call.next` is shown of it and is where it stands. -/
theorem Sound.next_advance (hs : e.Sound) (hc : e.call? id = some c) :
    (e.advanceCall r c).effects.filterMap (Effect.note? id) = (c.next r).1 ∧
      (e.advanceCall r c).engine.standing id = (c.next r).2 := by
  obtain rfl := call?_id hc
  have goTo (s : Stage) : (e.setStage c.id s).standing c.id = .active (c.at s) :=
    hs.standing_setStage hc s
  have finish (kind : DispatchEvent.Kind) (result : Except DispatchError Response) :
      (e.conclude c kind result).1.standing c.id = .over := hs.standing_dropCall hc
  cases hst : c.stage with
  | found | chosen h =>
    simp only [Engine.advanceCall, Call.next, hst]
    exact ⟨by rw [notes_emit, if_pos rfl], goTo _⟩
  | gate =>
    simp only [Engine.advanceCall, Call.next, hst]
    cases r.look <;> exact ⟨rfl, goTo _⟩
  | unset =>
    simp only [Engine.advanceCall, Call.next, hst]
    exact ⟨rfl, goTo _⟩
  | presented h =>
    simp only [Engine.advanceCall, Call.next, hst]
    exact ⟨by simp [Effect.note?], goTo _⟩
  | answered result =>
    match result with
    | .ok true =>
      simp only [Engine.advanceCall, Call.next, hst]
      exact ⟨by rw [notes_emit, if_pos rfl], goTo _⟩
    | .ok false | .error err =>
      simp only [Engine.advanceCall, Call.next, hst]
      exact ⟨by rw [notes_conclude, if_pos rfl], finish _ _⟩
  | cleared =>
    simp only [Engine.advanceCall, Call.next, hst]
    exact ⟨by rw [notes_run, if_pos rfl], goTo _⟩
  | ended result =>
    cases result <;>
    · simp only [Engine.advanceCall, Call.next, hst]
      exact ⟨by rw [notes_conclude, if_pos rfl], finish _ _⟩
  | asking h | running =>
    simp only [Engine.advanceCall, Call.next, hst]
    exact ⟨rfl, hs.standing hc⟩

theorem advanceCall_ne (h : c.id ≠ id) :
    (e.advanceCall r c).effects.filterMap (Effect.note? id) = [] ∧
      (e.advanceCall r c).engine.standing id = e.standing id := by
  have goTo (s : Stage) : (e.setStage c.id s).standing id = e.standing id :=
    standing_setStage_ne h s
  have drop : (e.dropCall c.id).standing id = e.standing id := standing_dropCall_ne h
  unfold advanceCall
  dsimp only
  split
  · exact ⟨by rw [notes_emit, if_neg h], goTo _⟩
  · split <;> exact ⟨rfl, goTo _⟩
  · exact ⟨rfl, goTo _⟩
  · exact ⟨by rw [notes_emit, if_neg h], goTo _⟩
  · exact ⟨by simp [Effect.note?, h], goTo _⟩
  · exact ⟨by rw [notes_emit, if_neg h], goTo _⟩
  · exact ⟨by rw [notes_conclude, if_neg h], drop⟩
  · exact ⟨by rw [notes_conclude, if_neg h], drop⟩
  · exact ⟨by rw [notes_run, if_neg h], goTo _⟩
  · exact ⟨by rw [notes_conclude, if_neg h], drop⟩
  · exact ⟨by rw [notes_conclude, if_neg h], drop⟩
  · exact ⟨rfl, rfl⟩
  · exact ⟨rfl, rfl⟩

/-- A step that shows nothing of any call and leaves the calls and their numbers as they are. -/
theorem move_of_frame {o : Outcome β} (hn : o.engine.next = e.next) (hc : o.engine.calls = e.calls)
    (hx : o.effects.filterMap (Effect.note? id) = []) :
    Move id r (e.standing id) (o.effects.filterMap (Effect.note? id)) (o.engine.standing id) := by
  rw [hx, standing_congr hn (by unfold call?; rw [hc])]
  exact .rest _

theorem advanceEnrolment_frame (x : Enrolment) (id : Nat) : (e.advanceEnrolment x).1.next = e.next ∧
    (e.advanceEnrolment x).1.calls = e.calls ∧
    (e.advanceEnrolment x).2.filterMap (Effect.note? id) = [] := by
  unfold advanceEnrolment
  split
  · exact ⟨rfl, rfl, rfl⟩
  · split <;> exact ⟨rfl, rfl, rfl⟩
  all_goals exact ⟨rfl, rfl, rfl⟩

theorem advanceClosing_frame (x : Closing) (id : Nat) : (e.advanceClosing x).1.next = e.next ∧
    (e.advanceClosing x).1.calls = e.calls ∧
    (e.advanceClosing x).2.filterMap (Effect.note? id) = [] := by
  unfold advanceClosing
  split <;> exact ⟨rfl, rfl, rfl⟩

theorem Sound.move_advance (hs : e.Sound) :
    Move id r (e.standing id) ((e.advance r i).effects.filterMap (Effect.note? id))
      ((e.advance r i).engine.standing id) := by
  unfold advance
  cases hc : e.call? i with
  | some c =>
    dsimp only
    by_cases hid : i = id
    · subst hid
      obtain ⟨hn, hy⟩ := hs.next_advance (r := r) hc
      rw [hs.standing hc, hn, hy]
      exact c.next_move i r
    · have hne : c.id ≠ id := by rw [call?_id hc]; exact hid
      rw [(advanceCall_ne hne).1, (advanceCall_ne hne).2]
      exact .rest _
  | none =>
    cases e.enrolment? i with
    | some x =>
      obtain ⟨hn, hc, hx⟩ := advanceEnrolment_frame (e := e) x id
      exact move_of_frame (o := ⟨_, r, _⟩) hn hc hx
    | none =>
      cases e.closing? i with
      | some x =>
        obtain ⟨hn, hc, hx⟩ := advanceClosing_frame (e := e) x id
        exact move_of_frame (o := ⟨_, r, _⟩) hn hc hx
      | none => exact .rest _

/-! ### A call is begun, answered and given up -/

theorem Sound.move_invoke (hs : e.Sound) (name : String) (args : Args) :
    Move id r (e.standing id)
      (e.callNote id name args ++ (e.invoke name args).2.filterMap (Effect.note? id))
      ((e.invoke name args).1.standing id) := by
  cases hl : e.lookup name with
  | error err =>
    have hi : e.invoke name args =
        ({ e with next := e.next + 1 }, [.returned e.next (.error (.catalog err))]) := by
      rw [invoke, hl]
    rw [callNote, hl, hi]
    exact hs.move_refuse _ rfl rfl
  | ok entry =>
    have hi : e.invoke name args = ({ e with
        calls := e.calls ++ [⟨e.next, entry, args, .found⟩], next := e.next + 1 }, []) := by
      rw [invoke, hl]
    have hp : (e.invoke name args).1.standing id =
        if id = e.next then .active ⟨e.next, entry, args, .found⟩ else e.standing id :=
      hs.standing_push (by rw [hi]) (by rw [hi]) rfl
    rw [callNote, hl, hp, hi]
    by_cases hid : e.next = id
    · subst hid
      rw [standing_next, if_pos rfl]
      have hm : Move e.next r .fresh _ _ := .begin name args entry (hs.keyed.name_eq hl)
      simpa using hm
    · rw [if_neg (Ne.symm hid)]
      simp only [hid, if_false, List.filterMap_nil, List.append_nil]
      exact .rest _

theorem Sound.move_setStage (hs : e.Sound) (id : Nat) (hc : e.call? i = some c) {s : Stage}
    {ns : List (Note β)} (hm : Move i r (.active c) ns (.active (c.at s))) :
    Move id r (e.standing id) (if i = id then ns else []) ((e.setStage i s).standing id) := by
  by_cases hid : i = id
  · subst hid
    rw [if_pos rfl, hs.standing hc, hs.standing_setStage hc]
    exact hm
  · rw [if_neg hid, standing_setStage_ne hid]
    exact .rest _

theorem awaitsAnswer_iff : e.awaitsAnswer id = true ↔
    ∃ c h, e.call? id = some c ∧ c.stage = .asking h := by
  unfold awaitsAnswer stage?
  cases hc : e.call? id with
  | none => simp
  | some c => cases hst : c.stage <;> simp [hst]

theorem Sound.move_answer (hs : e.Sound) (r : Registry) (i id : Nat)
    (result : Except ConfirmationError Bool) :
    Move id r (e.standing id) (if i = id ∧ e.awaitsAnswer id then [.answered result] else [])
      ((e.answer i result).standing id) := by
  by_cases hw : e.awaitsAnswer i = true
  · obtain ⟨c, h, hc, hst⟩ := awaitsAnswer_iff.1 hw
    have ha : e.answer i result = e.setStage i (.answered result) := by
      simp [answer, stage?, hc, hst]
    rw [ha]
    have ho : Move i r (.active c) _ _ := .answer c h result hst
    have hm := hs.move_setStage id hc ho
    by_cases hid : i = id
    · subst hid
      simpa [hw] using hm
    · simpa [hid] using hm
  · have ha : e.answer i result = e := by
      unfold answer
      split
      · rename_i h hst
        exact absurd (by simp [awaitsAnswer, hst]) hw
      · rfl
    rw [ha, if_neg (by rintro ⟨rfl, h⟩; exact hw h)]
    exact .rest _

theorem awaitsTool_stage {remote : Bool} (h : c.awaitsTool remote = true) :
    c.stage = .running := by
  unfold Call.awaitsTool at h
  split at h <;> first | assumption | cases h

theorem finish_eq (hc : e.call? i = some c) (remote : Bool) (result : Except ToolError Response) :
    e.finish i remote result =
      if c.awaitsTool remote then e.setStage i (.ended result) else e := by
  obtain ⟨n, entry, args, stage⟩ := c
  unfold finish Call.awaitsTool
  rw [hc]
  cases stage <;> try rfl
  dsimp only
  cases entry.tool.body <;> cases remote <;> rfl

theorem Sound.move_finish (hs : e.Sound) (r : Registry) (i id : Nat) (remote : Bool)
    (result : Except ToolError Response) :
    Move id r (e.standing id)
      (if i = id ∧ (e.call? id).any (·.awaitsTool remote) then [.finished result] else [])
      ((e.finish i remote result).standing id) := by
  cases hc : e.call? i with
  | none =>
    have hf : e.finish i remote result = e := by simp [finish, hc]
    rw [hf, if_neg (by rintro ⟨rfl, h⟩; simp [hc] at h)]
    exact .rest _
  | some c =>
    rw [finish_eq hc]
    by_cases hw : c.awaitsTool remote = true
    · have ho : Move i r (.active c) _ _ := .finish c result (awaitsTool_stage hw)
      have hm := hs.move_setStage id hc ho
      rw [if_pos hw]
      by_cases hid : i = id
      · subst hid
        simpa [hc, hw] using hm
      · simpa [hid] using hm
    · rw [if_neg hw, if_neg (by rintro ⟨rfl, h⟩; exact hw (by simpa [hc] using h))]
      exact .rest _

theorem Sound.move_cancel (hs : e.Sound) (r : Registry) (i id : Nat) : Move id r (e.standing id)
    (if i = id ∧ (e.call? id).any (·.stage.isSuspended) then [.cancelled] else [])
    ((e.cancel i).standing id) := by
  have hf : (e.cancel i).call? id =
      (e.call? id).filter fun c => !(c.id == i && c.stage.isSuspended) := hs.call?_filter _
  cases hc : e.call? id with
  | none =>
    rw [hc] at hf
    have hn : (e.cancel i).standing id = e.standing id := standing_congr rfl (hf.trans hc.symm)
    rw [hn, if_neg (by simp)]
    exact .rest _
  | some c =>
    rw [hc] at hf
    by_cases hw : i = id ∧ c.stage.isSuspended = true
    · obtain ⟨rfl, hst⟩ := hw
      have ho : (e.cancel i).standing i = .over := by
        unfold Engine.standing
        rw [hf, Option.filter_some_neg (by simp [call?_id hc, hst]),
          if_neg (by exact Nat.not_le.2 (call?_id hc ▸ hs.below c (call?_mem hc)))]
      rw [ho, hs.standing hc, if_pos (by simpa using hst)]
      exact .cancel c hst
    · have hp : (!(c.id == i && c.stage.isSuspended)) = true := by
        rw [call?_id hc]
        grind
      have hn : (e.cancel i).standing id = e.standing id :=
        standing_congr rfl ((hf.trans (Option.filter_some_pos hp)).trans hc.symm)
      rw [hn, if_neg (by simpa using hw)]
      exact .rest _

/-! ### Sound states stay sound -/

theorem Sound.of_sublist (hs : e.Sound) (hk : e'.catalog.Keyed) (hn : e.next ≤ e'.next)
    (hl : (e'.calls.map Call.id).Sublist (e.calls.map Call.id)) : e'.Sound := by
  refine ⟨hk, fun c hc => ?_, hl.nodup hs.distinct⟩
  obtain ⟨x, hx, hid⟩ := List.mem_map.1 (hl.subset (List.mem_map_of_mem hc))
  have := hs.below x hx
  omega

theorem Sound.of_eq (hs : e.Sound) (hk : e'.catalog.Keyed) (hn : e.next ≤ e'.next)
    (hc : e'.calls = e.calls) : e'.Sound :=
  hs.of_sublist hk hn (hc ▸ List.Sublist.refl _)

theorem Sound.setStage (hs : e.Sound) (i : Nat) (s : Stage) : (e.setStage i s).Sound := by
  refine hs.of_sublist hs.keyed (Nat.le_refl _) ?_
  have h : (e.setStage i s).calls.map Call.id = e.calls.map Call.id := by
    rw [Engine.setStage, List.map_map]
    refine List.map_congr_left fun c _ => ?_
    simp only [Function.comp]
    split <;> rfl
  exact h ▸ List.Sublist.refl _

theorem Sound.filter (hs : e.Sound) (p : Call β → Bool) (hk : e'.catalog.Keyed)
    (hn : e.next ≤ e'.next) (hc : e'.calls = e.calls.filter p) : e'.Sound :=
  hs.of_sublist hk hn (hc ▸ List.filter_sublist.map Call.id)

theorem Sound.invoke (hs : e.Sound) (name : String) (args : Args) :
    (e.invoke name args).1.Sound := by
  unfold Engine.invoke
  split
  · rename_i entry _
    refine ⟨hs.keyed, fun c hc => ?_, ?_⟩
    · rcases List.mem_append.1 hc with hc | hc
      · exact Nat.lt_succ_of_lt (hs.below c hc)
      · obtain rfl := List.mem_singleton.1 hc
        exact Nat.lt_succ_self _
    · rw [List.map_append, List.nodup_append]
      refine ⟨hs.distinct, by simp, fun i hi j hj => ?_⟩
      obtain ⟨c, hc, rfl⟩ := List.mem_map.1 hi
      obtain rfl := List.mem_singleton.1 hj
      exact Nat.ne_of_lt (hs.below c hc)
  · exact hs.of_eq hs.keyed (Nat.le_succ _) rfl

theorem Sound.finish (hs : e.Sound) (i : Nat) (remote : Bool) (result : Except ToolError Response) :
    (e.finish i remote result).Sound := by
  cases hc : e.call? i with
  | none => rw [Engine.finish, hc]; exact hs
  | some c =>
    rw [finish_eq hc]
    split
    · exact hs.setStage _ _
    · exact hs

theorem Sound.advanceCall (hs : e.Sound) : (e.advanceCall r c).engine.Sound := by
  have drop : (e.dropCall c.id).Sound := hs.filter _ hs.keyed (Nat.le_refl _) rfl
  unfold Engine.advanceCall
  dsimp only
  split
  case h_2 => split <;> exact hs.setStage _ _
  case h_7 | h_8 | h_10 | h_11 => exact drop
  case h_12 | h_13 => exact hs
  all_goals exact hs.setStage _ _

theorem Sound.advanceEnrolment (hs : e.Sound) (x : Enrolment) : (e.advanceEnrolment x).1.Sound := by
  unfold Engine.advanceEnrolment
  split
  · exact hs.of_eq hs.keyed (Nat.le_refl _) rfl
  · split
    · rename_i hr
      exact hs.of_eq (hs.keyed.registerAll hr) (Nat.le_refl _) rfl
    · exact hs.of_eq hs.keyed (Nat.le_refl _) rfl
  all_goals exact hs.of_eq hs.keyed (Nat.le_refl _) rfl

theorem Sound.advance (hs : e.Sound) : (e.advance r i).engine.Sound := by
  unfold Engine.advance
  cases e.call? i with
  | some c => exact hs.advanceCall
  | none =>
    cases e.enrolment? i with
    | some x => exact hs.advanceEnrolment x
    | none =>
      cases e.closing? i with
      | some x =>
        have h := advanceClosing_frame (e := e) x i
        refine hs.of_eq ?_ (Nat.le_of_eq h.1.symm) h.2.1
        dsimp only [Engine.advanceClosing]
        split <;> exact hs.keyed
      | none => exact hs

theorem step_register {entry : Entry β} {t : Catalog β} (h : e.catalog.register entry = .ok t) :
    e.step r (.register entry) = ⟨{ e with catalog := t }, r, [.added entry.name (.ok ())]⟩ := by
  simp only [step, register, h, Except.map]

theorem step_register_error {entry : Entry β} {err : CatalogError}
    (h : e.catalog.register entry = .error err) :
    e.step r (.register entry) = ⟨e, r, [.added entry.name (.error err)]⟩ := by
  simp only [step, register, h, Except.map]

theorem Sound.step (hs : e.Sound) (a : Action β) : (e.step r a).engine.Sound := by
  cases a with
  | register entry =>
    cases h : e.catalog.register entry with
    | ok c => rw [step_register h]; exact hs.of_eq (hs.keyed.register h) (Nat.le_refl _) rfl
    | error err => rw [step_register_error h]; exact hs
  | addHook => exact hs.of_eq hs.keyed (Nat.le_refl _) rfl
  | removeHook k => exact hs.of_eq hs.keyed (Nat.le_refl _) rfl
  | setHandler h => exact hs
  | invoke name args => exact hs.invoke name args
  | invokeValue name v =>
    cases hv : v.asArgs? with
    | some args => simpa [Engine.step, Engine.invokeValue, hv] using hs.invoke name args
    | none =>
      simpa [Engine.step, Engine.invokeValue, hv] using
        (hs.of_eq hs.keyed (Nat.le_succ _) rfl : Sound { e with next := e.next + 1 })
  | enrol source group gated => exact hs.of_eq hs.keyed (Nat.le_succ _) rfl
  | shutdown => exact hs.of_eq hs.keyed (Nat.le_succ _) rfl
  | answer i result =>
    dsimp only [Engine.step, Engine.answer]
    split
    · exact hs.setStage _ _
    · exact hs
  | finish i result => exact hs.finish i false result
  | reply i result => exact hs.finish i true _
  | list i result =>
    dsimp only [Engine.step, Engine.list]
    split
    · exact hs.of_eq hs.keyed (Nat.le_refl _) rfl
    · exact hs
  | disconnected i source =>
    dsimp only [Engine.step, Engine.disconnected]
    split <;> exact hs.of_eq hs.keyed (Nat.le_refl _) rfl
  | cancel i => exact hs.filter _ hs.keyed (Nat.le_refl _) rfl
  | advance i => exact hs.advance

/-! ### Every step -/

/-- A step of the engine makes a move of the call with any number, and shows what the move shows. -/
theorem step_move (hs : e.Sound) (a : Action β) :
    Move id r (e.standing id) ((Moment.mk e r a).notes id) ((e.step r a).engine.standing id) := by
  -- an action that gives nothing to the call shows only what its effects show
  have idle (h : (Moment.mk e r a).given id = []) (hm : Move id r (e.standing id)
      ((e.step r a).effects.filterMap (Effect.note? id)) ((e.step r a).engine.standing id)) :
      Move id r (e.standing id) ((Moment.mk e r a).notes id) ((e.step r a).engine.standing id) := by
    rw [Moment.notes, h]
    exact hm
  cases a with
  | register entry =>
    refine idle rfl ?_
    cases h : e.catalog.register entry with
    | ok c => rw [step_register h]; exact move_of_frame rfl rfl rfl
    | error err => rw [step_register_error h]; exact move_of_frame rfl rfl rfl
  | addHook => exact idle rfl (move_of_frame rfl rfl rfl)
  | removeHook k => exact idle rfl (move_of_frame rfl rfl rfl)
  | setHandler h => exact idle rfl (move_of_frame rfl rfl rfl)
  | invoke name args => exact hs.move_invoke name args
  | invokeValue name v =>
    cases hv : v.asArgs? with
    | some args =>
      have h : (Moment.mk e r (.invokeValue name v)).notes id =
          (Moment.mk e r (.invoke name args)).notes id := by
        simp [Moment.notes, Moment.given, Moment.effects, Moment.outcome, step, invokeValue, hv]
      have h' : e.step r (.invokeValue name v) = e.step r (.invoke name args) := by
        simp [step, invokeValue, hv]
      rw [h, h']
      exact hs.move_invoke name args
    | none =>
      have h : e.step r (.invokeValue name v) = ⟨{ e with next := e.next + 1 }, r,
          [.returned e.next (.error (.invalidArguments name
            ("expected a JSON object, got " ++ v.kind)))]⟩ := by simp [step, invokeValue, hv]
      refine idle (by simp [Moment.given, hv]) ?_
      rw [h]
      exact hs.move_refuse _ rfl rfl
  | enrol source group gated =>
    refine idle rfl ?_
    show Move id r (e.standing id) [] ((e.enrol source group gated).1.standing id)
    exact hs.move_spent rfl rfl
  | shutdown =>
    refine idle rfl ?_
    have hx : (e.step r .shutdown).effects.filterMap (Effect.note? id) = [] := by
      simp [step, shutdown, Effect.note?]
    rw [hx]
    show Move id r (e.standing id) [] (e.shutdown.1.standing id)
    exact hs.move_spent rfl rfl
  | answer i result =>
    simpa [Moment.notes, Moment.given, Moment.effects, Moment.outcome, step] using
      hs.move_answer r i id result
  | finish i result =>
    simpa [Moment.notes, Moment.given, Moment.effects, Moment.outcome, step] using
      hs.move_finish r i id false result
  | reply i result =>
    simpa [Moment.notes, Moment.given, Moment.effects, Moment.outcome, step] using
      hs.move_finish r i id true (remoteOutcome result)
  | list i result =>
    refine idle rfl (move_of_frame ?_ ?_ rfl) <;> simp only [step, list] <;> split <;> rfl
  | disconnected i source =>
    refine idle rfl (move_of_frame ?_ ?_ rfl) <;> simp only [step, disconnected] <;> split <;> rfl
  | cancel i =>
    simpa [Moment.notes, Moment.given, Moment.effects, Moment.outcome, step] using
      hs.move_cancel r i id
  | advance i => exact idle rfl hs.move_advance

end Engine

end GatedCalls
