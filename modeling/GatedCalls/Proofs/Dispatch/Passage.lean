import GatedCalls.Proofs.Dispatch.Schedule

/-!
# Ungated calls pass by

A call of a tool that is not gated goes from its start to its end without a look at the handlers: it
takes no step in which the registry is read (`Oracle.passing`), and if its tool is done at once it
leaves the engine and the registry as they were, but for the number it has used up
(`Sound.passage`). What other calls wait for, and what their handlers will answer, has no part in
it.
-/

namespace GatedCalls

variable {β : Type} {e : Engine β} {r : Registry} {m : Moment β} {c : Call β} {a : Action β}
  {as : List (Action β)} {id : Nat} {h : Handler} {o : Oracle β} {x : Entry β} {args : Args}

/-- The action is a call of the tool with the arguments. -/
def Action.Calls (a : Action β) (name : String) (args : Args) : Prop :=
  a = .invoke name args ∨ ∃ v, a = .invokeValue name v ∧ v.asArgs? = some args

/-- What is done for a call of a tool that is not gated. -/
def Oracle.passing (o : Oracle β) (x : Entry β) (args : Args) (i : Nat) : List (Note β) :=
  .told x.name (.requested args) :: o.working ⟨i, x, args, .cleared⟩

/-- The call that is begun by the action goes on by itself, and its tool is done at once. -/
def Engine.passage (e : Engine β) (o : Oracle β) (x : Entry β) (args : Args) (a : Action β) :
    List (Action β) :=
  [a, .advance e.next, .advance e.next, o.deliver ⟨e.next, x, args, .running⟩, .advance e.next]

/-- The run leaves everything but the number of the call as it was, and it does nothing but announce
the call, set its tool to work once, announce how the tool has ended, and return that. -/
structure Passes (e : Engine β) (r : Registry) (as : List (Action β)) (x : Entry β) (args : Args)
    (outcome : Except ToolError Response) : Prop where
  ends : e.after r as = ({ e with next := e.next + 1 }, r)
  beside : ∀ z ∈ e.record r as, z.registry = r
  does : (e.record r as).flatMap Moment.effects =
    e.emit ⟨e.next, x.name, .requested args⟩ ++ [Engine.run ⟨e.next, x, args, .cleared⟩] ++
      e.emit ⟨e.next, x.name, .ofOutcome outcome⟩ ++ [.returned e.next (x.result outcome)]

/-! ### The last call that was begun -/

namespace Engine

/-- The engine with a call more, which has taken its number. -/
def push (e : Engine β) (c : Call β) : Engine β :=
  { e with calls := e.calls ++ [c], next := e.next + 1 }

theorem Sound.push_call? (hs : e.Sound) (hc : c.id = e.next) :
    (e.push c).call? e.next = some c := by
  rw [call?_push (e := e) (c := c) rfl, hs.call?_next, if_pos hc]
  rfl

theorem Sound.push_setStage (hs : e.Sound) (hc : c.id = e.next) (s : Stage) :
    (e.push c).setStage e.next s = e.push (c.at s) := by
  have hold : e.calls.map (fun c => if c.id = e.next then c.at s else c) = e.calls := by
    refine (List.map_congr_left fun c hmem => ?_).trans (List.map_id _)
    exact if_neg (Nat.ne_of_lt (hs.below c hmem))
  have hcalls : (e.calls ++ [c]).map (fun c => if c.id = e.next then c.at s else c) =
      e.calls ++ [c.at s] := by
    rw [List.map_append, hold, List.map_singleton, if_pos hc]
  exact congrArg (fun calls => ({ e with calls := calls, next := e.next + 1 } : Engine β)) hcalls

theorem Sound.push_dropCall (hs : e.Sound) (hc : c.id = e.next) :
    (e.push c).dropCall e.next = { e with next := e.next + 1 } := by
  have hcalls : (e.calls ++ [c]).filter (·.id != e.next) = e.calls := by
    have hold : e.calls.filter (·.id != e.next) = e.calls :=
      List.filter_eq_self.2 fun c hmem => by simpa using Nat.ne_of_lt (hs.below c hmem)
    rw [List.filter_append, hold]
    simp [hc]
  exact congrArg (fun calls => ({ e with calls := calls, next := e.next + 1 } : Engine β)) hcalls

theorem step_calls (ha : a.Calls x.name args) (hl : e.lookup x.name = .ok x) (r : Registry) :
    e.step r a = ⟨e.push ⟨e.next, x, args, .found⟩, r, []⟩ := by
  have hinvoke : e.invoke x.name args = (e.push ⟨e.next, x, args, .found⟩, []) := by
    rw [invoke, hl]
    rfl
  rcases ha with rfl | ⟨v, rfl, hv⟩
  · simp only [step, hinvoke]
  · simp only [step, invokeValue, hv, hinvoke]

theorem Sound.push_advance (hs : e.Sound) (hc : c.id = e.next) (r : Registry) :
    (e.push c).step r (.advance e.next) = (e.push c).advanceCall r c := by
  simp only [Engine.step, Engine.advance, hs.push_call? hc]

theorem Sound.push_deliver (hs : e.Sound) (hc : c.id = e.next) (hst : c.stage = .running)
    (o : Oracle β) (r : Registry) : (e.push c).step r (o.deliver c) =
      ⟨e.push (c.at (.ended (o.outcome c.entry c.args))), r, []⟩ := by
  have hcall := hs.push_call? hc
  rw [← hc] at hcall
  unfold Oracle.deliver Oracle.outcome
  cases hb : c.entry.tool.body with
  | own code =>
    have hw : c.awaitsTool false = true := by simp [Call.awaitsTool, hst, hb]
    simp only [Engine.step, finish_eq hcall, hw, if_true]
    rw [hc, hs.push_setStage hc]
  | remote source =>
    have hw : c.awaitsTool true = true := by simp [Call.awaitsTool, hst, hb]
    simp only [Engine.step, finish_eq hcall, hw, if_true]
    rw [hc, hs.push_setStage hc]

/-- From every state a call of a tool that is not gated passes, if its tool is done at once. -/
theorem Sound.passage (hs : e.Sound) (o : Oracle β) (r : Registry) (hg : x.gated = false)
    (ha : a.Calls x.name args) (hl : e.lookup x.name = .ok x) :
    Passes e r (e.passage o x args a) x args (o.outcome x args) := by
  have hbegin := step_calls ha hl r
  have hrequest : (e.push ⟨e.next, x, args, .found⟩).step r (.advance e.next) =
      ⟨e.push ⟨e.next, x, args, .cleared⟩, r, e.emit ⟨e.next, x.name, .requested args⟩⟩ := by
    rw [hs.push_advance rfl]
    simp only [Engine.advanceCall, hs.push_setStage, hg]
    rfl
  have hexecute : (e.push ⟨e.next, x, args, .cleared⟩).step r (.advance e.next) =
      ⟨e.push ⟨e.next, x, args, .running⟩, r, [run ⟨e.next, x, args, .cleared⟩]⟩ := by
    rw [hs.push_advance rfl]
    simp only [Engine.advanceCall, hs.push_setStage]
    rfl
  have hdeliver : (e.push ⟨e.next, x, args, .running⟩).step r
      (o.deliver ⟨e.next, x, args, .running⟩) =
      ⟨e.push ⟨e.next, x, args, .ended (o.outcome x args)⟩, r, []⟩ :=
    hs.push_deliver rfl rfl o r
  have hreturn : (e.push ⟨e.next, x, args, .ended (o.outcome x args)⟩).step r (.advance e.next) =
      ⟨{ e with next := e.next + 1 }, r,
        e.emit ⟨e.next, x.name, .ofOutcome (o.outcome x args)⟩ ++
          [.returned e.next (x.result (o.outcome x args))]⟩ := by
    rw [hs.push_advance rfl]
    cases o.outcome x args <;>
    · simp only [Engine.advanceCall, conclude, hs.push_dropCall]
      rfl
  refine ⟨?_, ?_, ?_⟩
  · simp only [Engine.passage, after, hbegin, hrequest, hexecute, hdeliver, hreturn]
  · simp only [Engine.passage, record, hbegin, hrequest, hexecute, hdeliver]
    simp
  · simp only [Engine.passage, record, hbegin, hrequest, hexecute, hdeliver, hreturn,
      List.flatMap_cons, List.flatMap_nil, Moment.effects, Moment.outcome]
    simp

end Engine

theorem Passes.shows_eq (h : Passes e r as x args (o.outcome x args)) :
    shows e.next (e.record r as) = o.passing x args e.next := by
  rw [shows, h.does]
  simp only [List.filterMap_append, Engine.notes_emit, Engine.notes_run, if_true]
  simp [Effect.note?, Oracle.passing, Oracle.working, Oracle.ending]

theorem Oracle.renumber_passing (o : Oracle β) (x : Entry β) (args : Args) (i j : Nat) :
    (o.passing x args i).map (Note.renumber j) = o.passing x args j :=
  congrArg (_ :: ·) (o.renumber_working ⟨i, x, args, .cleared⟩ j)

theorem Oracle.outcome_congr {o' : Oracle β} (hwork : o'.work = o.work)
    (hserve : o'.serve = o.serve) (x : Entry β) (args : Args) :
    o'.outcome x args = o.outcome x args := by
  rw [outcome, outcome, hwork, hserve]

theorem Oracle.passing_congr {o' : Oracle β} (hwork : o'.work = o.work)
    (hserve : o'.serve = o.serve) (x : Entry β) (args : Args) (i : Nat) :
    o'.passing x args i = o.passing x args i := by
  rw [passing, passing, working, working, outcome_congr hwork hserve]

/-! ### Among other calls -/

theorem Moment.Starts.name? {name : String} (h : m.Starts id name args x) :
    m.action.name? = some name := by
  rcases h.action with ha | ⟨v, ha, -⟩ <;> rw [ha] <;> rfl

theorem Oracle.whole_of_starts (o : Oracle β) (hs : m.Starts id x.name args x)
    (hg : x.gated = false) (h : Handler) (i : Nat) :
    o.whole h m.engine i m.action = o.passing x args i := by
  have hbegun : o.begun h i args (m.engine.lookup x.name) = o.passing x args i := by
    rw [hs.found]
    simp only [begun, ahead, hg]
    rfl
  rcases hs.action with ha | ⟨v, ha, hv⟩
  · rw [ha]
    exact hbegun
  · rw [ha, whole, hv]
    exact hbegun

namespace Engine

theorem not_gate_of_ungated {before later : List (Moment β)} {z : Moment β}
    (hm : m ∈ record ∅ r as) (hs : m.Starts id x.name args x) (hg : x.gated = false)
    (hrun : record ∅ r as = before ++ z :: later) (hc : z.engine.call? id = some c) :
    ¬ (c.stage = .gate ∨ c.stage = .unset) := by
  intro hst
  obtain ⟨hsound, ht⟩ := tells_before id hrun
  rw [hsound.standing hc] at ht
  have hgated : c.entry.gated = true := by
    rcases hst with hst | hst <;> exact ((Call.tells_at hst).1 ht).1
  rw [((made_of_starts hm hs).2.entry_eq hrun hc).1, hg] at hgated
  cases hgated

theorem registry_of_ungated {before later : List (Moment β)} {z : Moment β}
    (hm : m ∈ record ∅ r as) (hs : m.Starts id x.name args x) (hg : x.gated = false)
    (hrun : record ∅ r as = before ++ z :: later) (hz : z.action.concerns id = true) :
    z.outcome.registry = z.registry := by
  have hmade := (made_of_starts hm hs).2
  obtain ⟨e, r', a⟩ := z
  cases a with
  | advance i =>
    obtain rfl : i = id := beq_iff_eq.1 hz
    cases hc : e.call? i with
    | some c =>
      have hentry : c.entry = x := (hmade.entry_eq hrun hc).1
      exact congrArg Outcome.registry (advance_ungated hrun hc (hentry ▸ hg) r')
    | none => simp only [Moment.outcome, step, advance, hc]
  | answer | finish | reply | cancel => rfl
  | _ => cases hz

end Engine

/-- A call of a tool that is not gated does not depend on confirmations. From every state it runs to
its end by itself if its tool is done at once, and then all that it has changed is that its number
is used up. From any two states in which the tool is found, whatever handlers are installed, calls
are in flight and answers their handlers will give, it does the same but for its number. And as one
call among others, in a run in which anything may be set, asked and answered, it does the same as
far as it has come, and its steps leave the registry as it is. -/
theorem ungated_independence (o : Oracle β) (x : Entry β) (args : Args) (hg : x.gated = false) :
    (∀ (e : Engine β) r a, e.Sound → e.lookup x.name = .ok x → a.Calls x.name args →
      Passes e r (e.passage o x args a) x args (o.outcome x args)) ∧
    (∀ (e e' : Engine β) r r' a (o' : Oracle β), e.Sound → e'.Sound → e.lookup x.name = .ok x →
      e'.lookup x.name = .ok x → a.Calls x.name args → o'.work = o.work → o'.serve = o.serve →
      let run := e.record r (e.passage o x args a)
      let run' := e'.record r' (e'.passage o' x args a)
      returns e'.next run' = returns e.next run ∧ told e'.next run' = told e.next run ∧
        shows e'.next run' = (shows e.next run).map (Note.renumber e'.next)) ∧
    ∀ r as before (m : Moment β) later, Engine.record ∅ r as = before ++ m :: later →
      m.Starts m.engine.next x.name args x →
      let id := m.engine.next
      let run := Engine.record ∅ r as
      let last := Engine.after ∅ r as
      (∀ z ∈ run, ¬ z.Cancels id ∧ ∀ c, z.engine.call? id = some c → c.heeds o z.action = true) →
      shows id run <+: o.passing x args id ∧
      shows id (Engine.record ∅ r (as ++ last.1.turns last.2 o id 10)) = o.passing x args id ∧
      ∀ z ∈ run, z = m ∨ z.action.concerns id = true → z.outcome.registry = z.registry := by
  refine ⟨fun e r a hs hl ha => hs.passage o r hg ha hl,
    fun e e' r r' a o' hs hs' hl hl' ha hwork hserve => ?_,
    fun r as before m later hrun hstarts => ?_⟩
  · intro run run'
    have hshows : shows e.next run = o.passing x args e.next := (hs.passage o r hg ha hl).shows_eq
    have hshows' : shows e'.next run' = (shows e.next run).map (Note.renumber e'.next) := by
      rw [hshows, o.renumber_passing, ← o.passing_congr hwork hserve]
      exact (hs'.passage o' r' hg ha hl').shows_eq
    refine ⟨?_, ?_, hshows'⟩
    · rw [returns_shows, hshows', List.filterMap_map, returns_shows]
      exact congrArg (List.filterMap · _) (funext (Note.result?_renumber e'.next))
    · rw [told_shows, hshows', List.filterMap_map, told_shows]
      exact congrArg (List.filterMap · _) (funext (Note.told?_renumber e'.next))
  · intro id run last hfair
    have hm : m ∈ Engine.record ∅ r as := hrun ▸ List.mem_append_right _ List.mem_cons_self
    have hfits : ∀ z ∈ later, z.Fits o last.2.fill.2 id := by
      intro z hz
      have hmem : z ∈ run := by
        show z ∈ Engine.record ∅ r as
        rw [hrun]
        exact List.mem_append_right _ (List.mem_cons_of_mem _ hz)
      obtain ⟨b, l, hsplit⟩ := List.append_of_mem hmem
      exact ⟨(hfair z hmem).2, (hfair z hmem).1, fun c hc hst =>
        absurd hst (Engine.not_gate_of_ungated hm hstarts hg hsplit hc)⟩
    have hbegun := Engine.sound_empty.shows_begun hrun hstarts.name? hfits
    rw [o.whole_of_starts hstarts hg] at hbegun
    have hturns := (Engine.sound_after r as).shows_turns
      (Engine.sound_empty.begun_below hrun hstarts.name?) o last.2
    refine ⟨hbegun ▸ List.prefix_append _ _, ?_, fun z hz hown => ?_⟩
    · rw [Engine.record_append, shows_append, ← hbegun]
      exact congrArg _ hturns
    · obtain ⟨b, l, hsplit⟩ := List.append_of_mem hz
      rcases hown with rfl | hown
      · rcases hstarts.action with ha | ⟨v, ha, hv⟩ <;> rw [Moment.outcome, ha] <;> rfl
      · exact Engine.registry_of_ungated hm hstarts hg hsplit hown

/-- A handler is asked about a call of the gated tool and has not answered. -/
def pendingCall : List (Action Unit) :=
  [.register gatedShellTool, .register (Catalog.shellTool "ls"), .setHandler ⟨.given 1, "desk"⟩,
    .invoke "rm" ∅, .advance 0, .advance 0, .advance 0, .advance 0]

theorem ungated_independence_pendingCall :
    let ls := Catalog.shellTool "ls"
    let done : Except ToolError Response := .ok (.ofText "done")
    let busy := Engine.after ∅ (.empty 0) pendingCall
    let run := twoTools.record (.empty 0) (twoTools.passage agreeable ls ∅ (.invoke "ls" ∅))
    let run' := busy.1.record busy.2 (busy.1.passage agreeable ls ∅ (.invoke "ls" ∅))
    busy.1.awaitsAnswer 0 = true ∧
      Passes twoTools (.empty 0) (twoTools.passage agreeable ls ∅ (.invoke "ls" ∅)) ls ∅ done ∧
      Passes busy.1 busy.2 (busy.1.passage agreeable ls ∅ (.invoke "ls" ∅)) ls ∅ done ∧
      returns 1 run' = returns 0 run ∧ told 1 run' = told 0 run ∧
      returns 0 run = [.ok (.ofText "done")] := by
  intro ls done busy run run'
  have hs : twoTools.Sound := Engine.sound_after _ _
  have hs' : busy.1.Sound := Engine.sound_after _ _
  obtain ⟨hpasses, hsame, -⟩ := ungated_independence agreeable ls ∅ rfl
  obtain ⟨hreturns, htold, -⟩ :=
    hsame twoTools busy.1 (.empty 0) busy.2 (.invoke "ls" ∅) agreeable hs hs' rfl rfl (.inl rfl)
      rfl rfl
  exact ⟨rfl, hpasses twoTools (.empty 0) (.invoke "ls" ∅) hs rfl (.inl rfl),
    hpasses busy.1 busy.2 (.invoke "ls" ∅) hs' rfl (.inl rfl), hreturns, htold, rfl⟩

end GatedCalls
