import GatedCalls.Proofs.Dispatch.Fleet
import GatedCalls.Proofs.Dispatch.Serial

/-!
# What lies ahead of a call

An `Oracle` gives the answers of handlers, tools and sources that depend on nothing but what they
are asked. With an oracle the stage of a call settles all that the engine will do for it
(`Oracle.ahead`), but for the handler that is in force as long as the call has none. A step does the
first part of what lies ahead and leaves the rest (`Oracle.ahead_react`), so in a run what was done
and what lies ahead add up to the same (`Sound.shows_rest`), whatever else goes on.
-/

namespace GatedCalls

variable {β : Type}

/-- Answers that depend on what is asked alone. -/
structure Oracle (β : Type) where
  confirm : Handler → String → Args → Except ConfirmationError Bool
  work : β → Args → Except ToolError Response
  serve : (source : Nat) → String → Args → Except SourceError Response

/-- How the tool of the entry ends. -/
def Oracle.outcome (o : Oracle β) (x : Entry β) (args : Args) : Except ToolError Response :=
  match x.tool.body with
  | .own code => o.work code args
  | .remote source => remoteOutcome (o.serve source x.tool.name args)

/-- Whether the action, if it answers the call, answers as the oracle says. -/
def Call.heeds (c : Call β) (o : Oracle β) (a : Action β) : Bool :=
  match a, c.stage, c.entry.tool.body with
  | .answer i result, .asking h, _ =>
    decide (i = c.id → result = o.confirm h c.entry.name c.args)
  | .finish i result, .running, .own code => decide (i = c.id → result = o.work code c.args)
  | .reply i result, .running, .remote source =>
    decide (i = c.id → result = o.serve source c.entry.tool.name c.args)
  | _, _, _ => true

/-! ### What the engine does for a call -/

/-- Whether the note is of something that the engine does. -/
def Note.isShown : Note β → Bool
  | .told .. | .asked .. | .executed _ | .returned _ => true
  | .called .. | .answered _ | .finished _ | .cancelled => false

/-- What the engine does for the call in a run. -/
def shows (id : Nat) (ms : List (Moment β)) : List (Note β) :=
  (ms.flatMap Moment.effects).filterMap (Effect.note? id)

/-- What observers are told of the call in a run: the names and what happened. -/
def told (id : Nat) (ms : List (Moment β)) : List (String × DispatchEvent.Kind) :=
  (events id ms).map fun event => (event.name, event.kind)

def Note.told? : Note β → Option (String × DispatchEvent.Kind)
  | .told name kind => some (name, kind)
  | _ => none

/-- The note, if the call bore the number `i`. -/
def Note.renumber (i : Nat) : Note β → Note β
  | .executed (.ran _ code args) => .executed (.ran i code args)
  | .executed (.forwarded _ source name args) => .executed (.forwarded i source name args)
  | n => n

variable {e e' : Engine β} {r r' : Registry} {m : Moment β} {ms : List (Moment β)} {c : Call β}
  {x : Entry β} {args : Args} {a : Action β} {as : List (Action β)} {i id : Nat} {h : Handler}
  {o : Oracle β} {y : Standing β} {name : String}

theorem Effect.isShown_note? {z : Effect β} {n : Note β} (hn : z.note? id = some n) :
    n.isShown = true := by
  cases z with
  | emitted event =>
    by_cases hid : event.call = id
    · simp only [note?, if_pos hid, Option.some.injEq] at hn
      subst hn
      rfl
    · simp [note?, hid] at hn
  | asked i | ran i | forwarded i | returned i =>
    by_cases hid : i = id
    · simp only [note?, if_pos hid, Option.some.injEq] at hn
      subst hn
      rfl
    · simp [note?, hid] at hn
  | _ => cases hn

theorem Moment.shown_notes :
    (m.notes id).filter Note.isShown = m.effects.filterMap (Effect.note? id) := by
  have hgiven : (m.given id).filter Note.isShown = [] := by
    refine List.filter_eq_nil_iff.2 fun n hn => ?_
    rcases mem_given hn with ⟨_, _, _, rfl, _⟩ | ⟨_, rfl, _⟩ | ⟨_, rfl⟩ | rfl <;>
      exact Bool.false_ne_true
  have heffects : (m.effects.filterMap (Effect.note? id)).filter Note.isShown =
      m.effects.filterMap (Effect.note? id) := by
    refine List.filter_eq_self.2 fun n hn => ?_
    obtain ⟨z, -, hz⟩ := List.mem_filterMap.1 hn
    exact Effect.isShown_note? hz
  rw [notes, List.filter_append, hgiven, heffects]
  rfl

theorem shows_append (a b : List (Moment β)) : shows id (a ++ b) = shows id a ++ shows id b := by
  rw [shows, List.flatMap_append, List.filterMap_append]
  rfl

theorem shows_cons (m : Moment β) (b : List (Moment β)) :
    shows id (m :: b) = (m.notes id).filter Note.isShown ++ shows id b := by
  rw [shows, List.flatMap_cons, List.filterMap_append, Moment.shown_notes]
  rfl

theorem shows_story : shows id ms = (story id ms).filter Note.isShown := by
  induction ms with
  | nil => rfl
  | cons m ms ih => rw [shows_cons, story_cons, List.filter_append, ih]

/-- What is read off the story of a call, but not off what comes from outside, is read off what the
engine does. -/
theorem read_shows {α : Type} {f : Note β → Option α}
    (hf : ∀ n : Note β, n.isShown = false → f n = none) :
    (shows id ms).filterMap f = (story id ms).filterMap f := by
  rw [shows_story, List.filterMap_filter]
  refine List.filterMap_congr fun n _ => ?_
  cases hn : n.isShown with
  | true => rfl
  | false => exact (hf n hn).symm

theorem returns_shows : returns id ms = (shows id ms).filterMap Note.result? := by
  rw [read_shows, returns_story]
  rintro (_ | _ | _ | _ | _ | _ | _ | _) hn <;> first | rfl | cases hn

theorem told_shows : told id ms = (shows id ms).filterMap Note.told? := by
  rw [read_shows, told, events_story, List.map_filterMap]
  · refine List.filterMap_congr fun n _ => ?_
    cases n <;> rfl
  · rintro (_ | _ | _ | _ | _ | _ | _ | _) hn <;> first | rfl | cases hn

namespace Note

theorem result?_renumber (k : Nat) (z : Note β) : (z.renumber k).result? = z.result? := by
  cases z with
  | executed fx => cases fx <;> rfl
  | _ => rfl

theorem told?_renumber (k : Nat) (z : Note β) : (z.renumber k).told? = z.told? := by
  cases z with
  | executed fx => cases fx <;> rfl
  | _ => rfl

end Note

/-! ### What lies ahead -/

namespace Oracle

/-- What is done for a call of the entry when its tool has ended. -/
def ending (x : Entry β) (outcome : Except ToolError Response) : List (Note β) :=
  [.told x.name (.ofOutcome outcome), .returned (x.result outcome)]

/-- What is done for a call that nothing stands in the way of. -/
def working (o : Oracle β) (c : Call β) : List (Note β) :=
  .executed (Engine.run c) :: ending c.entry (o.outcome c.entry c.args)

/-- What is done for a call when its handler has answered. -/
def settling (o : Oracle β) (c : Call β) : Except ConfirmationError Bool → List (Note β)
  | .ok true => .told c.entry.name .confirmationGranted :: o.working c
  | .ok false =>
    [.told c.entry.name .confirmationDeclined, .returned (.ok (Response.declined c.entry.name))]
  | .error err =>
    [.told c.entry.name (.confirmationFailed err.message),
      .returned (.error (.confirmation c.entry.name err))]

/-- What is done for a call that asks the handler. -/
def asking (o : Oracle β) (c : Call β) (h : Handler) : List (Note β) :=
  .told c.entry.name (.confirmationRequested h.name) :: .asked h c.entry.name c.args ::
    o.settling c (o.confirm h c.entry.name c.args)

/-- What is still to be done for a call in flight, if `h` is in force when it takes its handler. -/
def ahead (o : Oracle β) (h : Handler) (c : Call β) : List (Note β) :=
  match c.stage with
  | .found =>
    .told c.entry.name (.requested c.args) :: if c.entry.gated then o.asking c h else o.working c
  | .gate | .unset => o.asking c h
  | .chosen h' => o.asking c h'
  | .presented h' =>
    .asked h' c.entry.name c.args :: o.settling c (o.confirm h' c.entry.name c.args)
  | .asking h' => o.settling c (o.confirm h' c.entry.name c.args)
  | .answered result => o.settling c result
  | .cleared => o.working c
  | .running => ending c.entry (o.outcome c.entry c.args)
  | .ended outcome => ending c.entry outcome

/-- What is still to be done for a call, if it has begun. -/
def rest (o : Oracle β) (h : Handler) : Standing β → List (Note β)
  | .active c => o.ahead h c
  | .fresh | .over => []

theorem ahead_next (o : Oracle β) (c : Call β)
    (hr : c.stage = .gate ∨ c.stage = .unset → r.fill.2 = h) :
    (c.next r).1.filter Note.isShown ++ o.rest h (c.next r).2 = o.ahead h c := by
  cases hst : c.stage with
  | found =>
    simp only [Call.next, ahead, hst]
    cases c.entry.gated <;> simp [rest, ahead, Call.at] <;> rfl
  | gate =>
    have hh := hr (.inl hst)
    cases hl : r.look with
    | none => simp only [Call.next, ahead, hst, hl]; rfl
    | some h' =>
      have hf : r.fill.2 = h' := by rw [Registry.fill, show r.active = some h' from hl]
      obtain rfl : h' = h := hf.symm.trans hh
      simp only [Call.next, ahead, hst, hl]
      rfl
  | unset =>
    obtain rfl := hr (.inr hst)
    simp only [Call.next, ahead, hst]
    rfl
  | answered result =>
    rcases result with err | (_ | _) <;> simp only [Call.next, ahead, hst] <;> rfl
  | ended outcome => cases outcome <;> simp only [Call.next, ahead, hst] <;> rfl
  | chosen h' | presented h' | cleared =>
    simp only [Call.next, ahead, hst]
    rfl
  | asking h' | running =>
    simp only [Call.next, rest, ahead, hst]
    rfl

/-- What an action has done for a call, and what still lies ahead of it then, are what lay ahead of
it, if the call is answered as the oracle says and is not given up. -/
theorem ahead_react (o : Oracle β) (c : Call β) (a : Action β) (hheeds : c.heeds o a = true)
    (hkept : a = .cancel c.id → c.stage.isSuspended = false)
    (hr : c.stage = .gate ∨ c.stage = .unset → r.fill.2 = h) :
    (c.react r a).1.filter Note.isShown ++ o.rest h (c.react r a).2 = o.ahead h c := by
  cases a with
  | advance i =>
    rw [Call.react]
    split
    · exact o.ahead_next c hr
    · rfl
  | cancel i =>
    rw [Call.react]
    split
    · rename_i hi
      rw [hkept (by rw [hi.1])] at hi
      cases hi.2
    · rfl
  | answer i result =>
    rw [Call.react]
    split
    · rename_i hi
      obtain ⟨rfl, hw⟩ := hi
      unfold Call.awaitsAnswer at hw
      split at hw
      · rename_i h' hst
        simp only [Call.heeds, hst, true_imp_iff, decide_eq_true_eq] at hheeds
        rw [ahead, hst, hheeds]
        rfl
      · cases hw
    · rfl
  | finish i result =>
    rw [Call.react]
    split
    · rename_i hi
      obtain ⟨rfl, hw⟩ := hi
      cases hb : c.entry.tool.body with
      | remote source => cases hst : c.stage <;> simp [Call.awaitsTool, hst, hb] at hw
      | own code =>
        have hst := Engine.awaitsTool_stage hw
        simp only [Call.heeds, hst, hb, true_imp_iff, decide_eq_true_eq] at hheeds
        rw [ahead, hst, outcome, hb, hheeds]
        rfl
    · rfl
  | reply i result =>
    rw [Call.react]
    split
    · rename_i hi
      obtain ⟨rfl, hw⟩ := hi
      cases hb : c.entry.tool.body with
      | own code => cases hst : c.stage <;> simp [Call.awaitsTool, hst, hb] at hw
      | remote source =>
        have hst := Engine.awaitsTool_stage hw
        simp only [Call.heeds, hst, hb, true_imp_iff, decide_eq_true_eq] at hheeds
        rw [ahead, hst, outcome, hb, hheeds]
        rfl
    · rfl
  | _ => rfl

end Oracle

/-! ### Runs -/

/-- The step is one that leaves the prospect of the call `id` as it is: if it answers the call, it
answers as the oracle says, it does not give the call up, and `h` is in force if the call is about
to take its handler. -/
structure Moment.Fits (m : Moment β) (o : Oracle β) (h : Handler) (id : Nat) : Prop where
  heeds : ∀ c, m.engine.call? id = some c → c.heeds o m.action = true
  kept : ¬ m.Cancels id
  force : ∀ c, m.engine.call? id = some c → c.stage = .gate ∨ c.stage = .unset →
    m.registry.fill.2 = h

namespace Engine

theorem Sound.rest_step (hs : e.Sound) (hid : id < e.next)
    (hf : (Moment.mk e r a).Fits o h id) :
    ((Moment.mk e r a).notes id).filter Note.isShown ++ o.rest h ((e.step r a).engine.standing id) =
      o.rest h (e.standing id) := by
  cases hst : e.standing id with
  | fresh => exact absurd (standing_eq_fresh.1 hst) (Nat.not_le.2 hid)
  | active c =>
    have hc := call?_of_standing hst
    obtain ⟨hn, hy⟩ := Prod.ext_iff.1 (step_react hs hc r a)
    dsimp only at hn hy
    rw [hn, hy]
    refine o.ahead_react c a (hf.heeds c hc) (fun ha => ?_) (hf.force c hc)
    refine Bool.eq_false_iff.2 fun hsusp => hf.kept ⟨?_, c, hc, hsusp⟩
    rw [← call?_id hc]
    exact ha
  | «over» =>
    have hm : Move id r (e.standing id) _ _ := step_move hs a
    rw [hst] at hm
    generalize (e.step r a).engine.standing id = y at hm ⊢
    generalize (Moment.mk e r a).notes id = ns at hm ⊢
    cases hm
    rfl

/-- What a run does for a call, and what still lies ahead of it at the end, are what lay ahead of
it at the start. -/
theorem Sound.shows_rest (hs : e.Sound) (hid : id < e.next)
    (hf : ∀ m ∈ e.record r as, m.Fits o h id) :
    shows id (e.record r as) ++ o.rest h ((e.after r as).1.standing id) =
      o.rest h (e.standing id) := by
  -- what is done by a step comes off the front of what lay ahead before it
  induction as generalizing e r with
  | nil => rfl
  | cons a as ih =>
    have hrest := ih (hs.step a) (Nat.lt_of_lt_of_le hid (hs.next_le r a)) fun m hm =>
      hf m (List.mem_cons_of_mem _ hm)
    rw [record, shows_cons, List.append_assoc]
    exact (congrArg _ hrest).trans (hs.rest_step hid (hf _ List.mem_cons_self))

theorem Sound.shows_fresh (hs : e.Sound) (r : Registry) (as : List (Action β))
    (hid : (e.after r as).1.next ≤ id) : shows id (e.record r as) = [] := by
  induction as generalizing e r with
  | nil => rfl
  | cons a as ih =>
    have hnext := Nat.le_trans ((hs.step a).next_le_after (e.step r a).registry as) hid
    have hm : Move id r (e.standing id) ((Moment.mk e r a).notes id) _ := step_move hs a
    rw [standing_eq_fresh.2 (Nat.le_trans (hs.next_le r a) hnext),
      standing_eq_fresh.2 hnext] at hm
    rw [record, shows_cons, ih (hs.step a) _ hid, List.append_nil]
    generalize (Moment.mk e r a).notes id = ns at hm ⊢
    cases hm
    rfl

/-! ### The handler in force -/

theorem fill_step (hset : ∀ h, a ≠ .setHandler h) : (e.step r a).registry.fill.2 = r.fill.2 := by
  rcases step_registry (e := e) (r := r) hset with hr | hr <;> rw [hr]
  cases hactive : r.active with
  | none => simp [Registry.fill, hactive]
  | some h => simp [Registry.fill, hactive]

theorem fill_record (hset : ∀ h, .setHandler h ∉ as) :
    (∀ m ∈ e.record r as, m.registry.fill.2 = r.fill.2) ∧
      (e.after r as).2.fill.2 = r.fill.2 := by
  induction as generalizing e r with
  | nil => exact ⟨fun m hm => (by cases hm), rfl⟩
  | cons a as ih =>
    have hstep : (e.step r a).registry.fill.2 = r.fill.2 :=
      fill_step fun h ha => hset h (ha ▸ List.mem_cons_self)
    obtain ⟨hmoments, hafter⟩ := ih (e := (e.step r a).engine) (r := (e.step r a).registry)
      fun h ha => hset h (List.mem_cons_of_mem _ ha)
    refine ⟨List.forall_mem_cons.2 ⟨rfl, fun m hm => ?_⟩, hafter.trans hstep⟩
    rw [hmoments m hm, hstep]

/-! ### The catalog -/

theorem lookup_step (hother : ∀ c, (Moment.mk e r a).commit? = some c →
    ∀ x ∈ c.op.entries, x.name ≠ name) : (e.step r a).engine.lookup name = e.lookup name := by
  have hstep := e.commit_step r a
  cases hc : (Moment.mk e r a).commit? with
  | none =>
    rw [hc] at hstep
    exact congrArg (Catalog.lookup · name) hstep
  | some c =>
    rw [hc] at hstep
    obtain ⟨n, hn⟩ := hstep
    rcases c.op.apply_cases e.catalog with ⟨t, k, ha, hf⟩ | ⟨err, ha⟩
    · obtain rfl : t = (e.step r a).engine.catalog := congrArg Prod.fst (ha.symm.trans hn)
      exact (Catalog.Adds.foldlM hf).lookup_of_other (hother c hc)
    · rw [ha] at hn
      cases congrArg Prod.snd hn

/-- What a name stands for stays as long as no registration goes through that bears it. -/
theorem lookup_after (hother : ∀ c ∈ commits (e.record r as), ∀ x ∈ c.op.entries, x.name ≠ name) :
    (e.after r as).1.lookup name = e.lookup name := by
  induction as generalizing e r with
  | nil => rfl
  | cons a as ih =>
    have hrest := ih (e := (e.step r a).engine) (r := (e.step r a).registry) fun c hc =>
      hother c (List.mem_filterMap.2 ?_)
    · refine hrest.trans (lookup_step fun c hc => hother c ?_)
      exact List.mem_filterMap.2 ⟨_, List.mem_cons_self, hc⟩
    · obtain ⟨m, hm, hcm⟩ := List.mem_filterMap.1 hc
      exact ⟨m, List.mem_cons_of_mem _ hm, hcm⟩

end Engine

/-! ### A call from its start to its end -/

def Action.name? : Action β → Option String
  | .invoke name _ | .invokeValue name _ => some name
  | _ => none

namespace Oracle

/-- What is done for a call with the number `i` of what was found under its name. -/
def begun (o : Oracle β) (h : Handler) (i : Nat) (args : Args) :
    Except CatalogError (Entry β) → List (Note β)
  | .ok x => o.ahead h ⟨i, x, args, .found⟩
  | .error err => [.returned (.error (.catalog err))]

/-- All that is done for a call that is begun by the action. -/
def whole (o : Oracle β) (h : Handler) (e : Engine β) (i : Nat) : Action β → List (Note β)
  | .invoke name args => o.begun h i args (e.lookup name)
  | .invokeValue name v =>
    match v.asArgs? with
    | some args => o.begun h i args (e.lookup name)
    | none =>
      [.returned (.error (.invalidArguments name ("expected a JSON object, got " ++ v.kind)))]
  | _ => []

theorem whole_congr (hl : e.lookup name = e'.lookup name) (ha : a.name? = some name) (i : Nat) :
    o.whole h e i a = o.whole h e' i a := by
  cases a with
  | invoke n args =>
    obtain rfl : n = name := Option.some.inj ha
    rw [whole, whole, hl]
  | invokeValue n v =>
    obtain rfl : n = name := Option.some.inj ha
    rw [whole, whole, hl]
  | _ => cases ha

theorem renumber_working (o : Oracle β) (c : Call β) (j : Nat) :
    (o.working c).map (Note.renumber j) = o.working { c with id := j } := by
  rw [working, working, List.map_cons, Engine.run, Engine.run]
  dsimp only
  cases c.entry.tool.body <;> rfl

theorem renumber_settling (o : Oracle β) (c : Call β) (j : Nat)
    (result : Except ConfirmationError Bool) :
    (o.settling c result).map (Note.renumber j) = o.settling { c with id := j } result := by
  match result with
  | .ok true => exact congrArg (_ :: ·) (o.renumber_working c j)
  | .ok false | .error err => rfl

/-- Only the number of the call tells what is done for it from what is done for another. -/
theorem renumber_whole (o : Oracle β) (h : Handler) (e : Engine β) (i j : Nat) (a : Action β) :
    (o.whole h e i a).map (Note.renumber j) = o.whole h e j a := by
  have hbegun (args : Args) (found : Except CatalogError (Entry β)) :
      (o.begun h i args found).map (Note.renumber j) = o.begun h j args found := by
    cases found with
    | error err => rfl
    | ok x =>
      simp only [begun, ahead, List.map_cons]
      cases x.gated with
      | true => exact congrArg (_ :: _ :: _ :: ·) (o.renumber_settling ⟨i, x, args, .found⟩ j _)
      | false => exact congrArg (_ :: ·) (o.renumber_working ⟨i, x, args, .found⟩ j)
  cases a with
  | invoke name args => exact hbegun args _
  | invokeValue name v =>
    rw [whole, whole]
    split
    · exact hbegun _ _
    · rfl
  | _ => rfl

theorem settling_result (o : Oracle β) (c : Call β) (result : Except ConfirmationError Bool) :
    ∃ final, (o.settling c result).filterMap Note.result? = [final] := by
  match result with
  | .ok true | .ok false | .error err => exact ⟨_, rfl⟩

theorem ahead_result (o : Oracle β) (h : Handler) (c : Call β) :
    ∃ final, (o.ahead h c).filterMap Note.result? = [final] := by
  cases hst : c.stage with
  | found =>
    simp only [ahead, hst]
    cases c.entry.gated with
    | true => exact o.settling_result c _
    | false => exact ⟨_, rfl⟩
  | gate | unset | chosen h' | presented h' | asking h' | answered result =>
    simp only [ahead, hst]
    exact o.settling_result c _
  | cleared | running | ended outcome =>
    simp only [ahead, hst]
    exact ⟨_, rfl⟩

theorem rest_of_returned {done : List (Note β)} {final : Except DispatchError Response}
    (hfinal : (done ++ o.rest h y).filterMap Note.result? = [final])
    (hdone : done.filterMap Note.result? ≠ []) : o.rest h y = [] := by
  cases y with
  | fresh | «over» => rfl
  | active c =>
    obtain ⟨final', hahead⟩ := o.ahead_result h c
    rw [List.filterMap_append, rest, hahead] at hfinal
    exact absurd (List.append_eq_singleton_iff.1 hfinal) (by simp [hdone])

theorem whole_result (o : Oracle β) (h : Handler) (e : Engine β) (i : Nat)
    (ha : a.name? = some name) : ∃ final, (o.whole h e i a).filterMap Note.result? = [final] := by
  have hbegun (args : Args) (found : Except CatalogError (Entry β)) :
      ∃ final, (o.begun h i args found).filterMap Note.result? = [final] := by
    cases found with
    | error err => exact ⟨_, rfl⟩
    | ok x => exact o.ahead_result h ⟨i, x, args, .found⟩
  cases a with
  | invoke n args => exact hbegun args _
  | invokeValue n v =>
    rw [whole]
    split
    · exact hbegun _ _
    · exact ⟨_, rfl⟩
  | _ => cases ha

end Oracle

namespace Engine

theorem Sound.begun_invoke (hs : e.Sound) (o : Oracle β) (h : Handler) (name : String)
    (args : Args) :
    (e.invoke name args).2.filterMap (Effect.note? e.next) ++
      o.rest h ((e.invoke name args).1.standing e.next) =
      o.begun h e.next args (e.lookup name) := by
  cases hl : e.lookup name with
  | ok x =>
    have hi : e.invoke name args = ({ e with
        calls := e.calls ++ [⟨e.next, x, args, .found⟩], next := e.next + 1 }, []) := by
      rw [Engine.invoke, hl]
    have hp : (e.invoke name args).1.standing e.next =
        if e.next = e.next then .active ⟨e.next, x, args, .found⟩ else e.standing e.next :=
      hs.standing_push (by rw [hi]) (by rw [hi]) rfl
    rw [hp, if_pos rfl, hi]
    rfl
  | error err =>
    have hi : e.invoke name args =
        ({ e with next := e.next + 1 }, [.returned e.next (.error (.catalog err))]) := by
      rw [Engine.invoke, hl]
    have hp : (e.invoke name args).1.standing e.next = .over := by
      rw [hi]
      exact hs.standing_spent rfl rfl
    rw [hp, hi]
    simp [Effect.note?, Oracle.rest, Oracle.begun]

theorem Sound.whole_step (hs : e.Sound) (o : Oracle β) (h : Handler) (r : Registry)
    (ha : a.name? = some name) :
    ((Moment.mk e r a).notes e.next).filter Note.isShown ++
      o.rest h ((e.step r a).engine.standing e.next) = o.whole h e e.next a := by
  rw [Moment.shown_notes]
  cases a with
  | invoke n args => exact hs.begun_invoke o h n args
  | invokeValue n v =>
    simp only [Moment.effects, Moment.outcome, Engine.step, invokeValue, Oracle.whole]
    cases hv : v.asArgs? with
    | some args => exact hs.begun_invoke o h n args
    | none =>
      have hp : ({ e with next := e.next + 1 } : Engine β).standing e.next = .over :=
        hs.standing_spent rfl rfl
      simp [hp, Effect.note?, Oracle.rest]
  | _ => cases ha

end Engine

end GatedCalls
