import GatedCalls.Proofs.Dispatch.Prospect

/-!
# The schedule does not matter

`Engine.turns` runs one call to its end, with the answers of an oracle and nothing else in between.
What is done for a call that is begun and run alone is all that lay ahead of it
(`Sound.shows_alone`), and this is the same in any run in which no handler is set and no
registration bears the name of its tool (`Sound.shows_call`): what the calls share, they read alike.
-/

namespace GatedCalls

variable {β : Type} {e : Engine β} {r : Registry} {m : Moment β} {c : Call β} {a : Action β}
  {as : List (Action β)} {id n : Nat} {h : Handler} {o : Oracle β} {name : String}

namespace Oracle

/-- The tool of the call is done. -/
def deliver (o : Oracle β) (c : Call β) : Action β :=
  match c.entry.tool.body with
  | .own code => .finish c.id (o.work code c.args)
  | .remote source => .reply c.id (o.serve source c.entry.tool.name c.args)

/-- What happens next to a call that is alone: it gets the answer it waits for, or goes on. -/
def turn (o : Oracle β) (c : Call β) : Action β :=
  match c.stage with
  | .asking h => .answer c.id (o.confirm h c.entry.name c.args)
  | .running => o.deliver c
  | _ => .advance c.id

end Oracle

/-- The turns of the call until it is over, `n` at most. -/
def Engine.turns (e : Engine β) (r : Registry) (o : Oracle β) (id : Nat) : Nat → List (Action β)
  | 0 => []
  | n + 1 =>
    match e.call? id with
    | none => []
    | some c => o.turn c :: (e.step r (o.turn c)).engine.turns (e.step r (o.turn c)).registry o id n

/-- How many turns a call takes at most. -/
def Stage.turnsLeft : Stage → Nat
  | found => 10
  | gate => 9
  | unset => 8
  | chosen _ => 7
  | presented _ => 6
  | asking _ => 5
  | answered _ => 4
  | cleared => 3
  | running => 2
  | ended _ => 1

def Standing.turnsLeft : Standing β → Nat
  | .active c => c.stage.turnsLeft
  | .fresh | .over => 0

/-- The action, and the turns of the call that it begins. -/
def Engine.alone (e : Engine β) (r : Registry) (o : Oracle β) (a : Action β) : List (Action β) :=
  a :: (e.step r a).engine.turns (e.step r a).registry o e.next 10

/-! ### Turns -/

theorem Stage.turnsLeft_pos (s : Stage) : 0 < s.turnsLeft := by
  cases s <;> simp [turnsLeft]

theorem Standing.turnsLeft_le (y : Standing β) : y.turnsLeft ≤ 10 := by
  cases y with
  | active c => cases hst : c.stage <;> simp [turnsLeft, hst, Stage.turnsLeft]
  | fresh | «over» => exact Nat.zero_le _

namespace Oracle

theorem heeds_turn (o : Oracle β) (c : Call β) : c.heeds o (o.turn c) = true := by
  cases hst : c.stage with
  | running => cases hb : c.entry.tool.body <;> simp [turn, deliver, Call.heeds, hst, hb]
  | _ => simp [turn, Call.heeds, hst]

theorem turn_ne_cancel (o : Oracle β) (c : Call β) (i : Nat) : o.turn c ≠ .cancel i := by
  unfold turn deliver
  split
  · simp
  · split <;> simp
  · simp

theorem turn_ne_setHandler (o : Oracle β) (c : Call β) (h : Handler) :
    o.turn c ≠ .setHandler h := by
  unfold turn deliver
  split
  · simp
  · split <;> simp
  · simp

theorem react_turn (o : Oracle β) (c : Call β) (r : Registry) :
    (c.react r (o.turn c)).2.turnsLeft < c.stage.turnsLeft := by
  cases hst : c.stage with
  | found =>
    cases hg : c.entry.gated <;>
      simp [turn, Call.react, Call.next, Standing.turnsLeft, Stage.turnsLeft, Call.at, hst, hg]
  | gate =>
    cases hl : r.look <;>
      simp [turn, Call.react, Call.next, Standing.turnsLeft, Stage.turnsLeft, Call.at, hst, hl]
  | answered result =>
    rcases result with err | (_ | _) <;>
      simp [turn, Call.react, Call.next, Standing.turnsLeft, Stage.turnsLeft, Call.at, hst]
  | running =>
    cases hb : c.entry.tool.body <;>
      simp [turn, deliver, Call.react, Call.awaitsTool, Standing.turnsLeft, Stage.turnsLeft,
        Call.at, hst, hb]
  | asking h' =>
    simp [turn, Call.react, Call.awaitsAnswer, Standing.turnsLeft, Stage.turnsLeft, Call.at, hst]
  | ended outcome =>
    cases outcome <;>
      simp [turn, Call.react, Call.next, Standing.turnsLeft, Stage.turnsLeft, hst]
  | _ => simp [turn, Call.react, Call.next, Standing.turnsLeft, Stage.turnsLeft, Call.at, hst]

end Oracle

namespace Engine

/-- The turns of a call leave its prospect, and in the end it is over. -/
theorem Sound.turns (hs : e.Sound) (hid : id < e.next) (hh : r.fill.2 = h)
    (hn : (e.standing id).turnsLeft ≤ n) :
    (∀ m ∈ e.record r (e.turns r o id n), m.Fits o h id) ∧
      (e.after r (e.turns r o id n)).1.standing id = .over := by
  -- each turn leaves fewer turns to take (`react_turn`), and none are left only when it is over
  induction n generalizing e r with
  | zero =>
    refine ⟨fun m hm => (by cases hm), ?_⟩
    show e.standing id = .over
    cases hy : e.standing id with
    | fresh => exact absurd (standing_eq_fresh.1 hy) (Nat.not_le.2 hid)
    | active c =>
      rw [hy] at hn
      exact absurd hn (Nat.not_le.2 c.stage.turnsLeft_pos)
    | «over» => rfl
  | succ n ih =>
    cases hc : e.call? id with
    | none =>
      have hturns : e.turns r o id (n + 1) = [] := by rw [Engine.turns, hc]
      rw [hturns]
      refine ⟨fun m hm => (by cases hm), ?_⟩
      show e.standing id = .over
      rw [Engine.standing, if_neg (Nat.not_le.2 hid), hc]
    | some c =>
      have hturns : e.turns r o id (n + 1) = o.turn c ::
          (e.step r (o.turn c)).engine.turns (e.step r (o.turn c)).registry o id n := by
        rw [Engine.turns, hc]
      have hy : (e.step r (o.turn c)).engine.standing id = (c.react r (o.turn c)).2 :=
        congrArg Prod.snd (step_react hs hc r (o.turn c))
      rw [hs.standing hc] at hn
      have hless : ((e.step r (o.turn c)).engine.standing id).turnsLeft ≤ n := by
        rw [hy]
        exact Nat.le_of_lt_succ (Nat.lt_of_lt_of_le (o.react_turn c r) hn)
      obtain ⟨hfits, hover⟩ := ih (hs.step (o.turn c))
        (Nat.lt_of_lt_of_le hid (hs.next_le r _)) ((fill_step (o.turn_ne_setHandler c)).trans hh)
        hless
      rw [hturns]
      refine ⟨List.forall_mem_cons.2
        ⟨⟨fun c' hc' => ?_, fun hcancel => ?_, fun _ _ _ => hh⟩, hfits⟩, hover⟩
      · obtain rfl : c = c' := Option.some.inj (hc.symm.trans hc')
        exact o.heeds_turn c
      · exact o.turn_ne_cancel c id hcancel.action

theorem Sound.shows_turns (hs : e.Sound) (hid : id < e.next) (o : Oracle β) (r : Registry) :
    shows id (e.record r (e.turns r o id 10)) = o.rest r.fill.2 (e.standing id) := by
  obtain ⟨hfits, hover⟩ := hs.turns (o := o) hid rfl (e.standing id).turnsLeft_le
  have hrest := hs.shows_rest hid hfits
  rw [hover] at hrest
  exact (List.append_nil _).symm.trans hrest

theorem next_lt_step (ha : a.name? = some name) : e.next < (e.step r a).engine.next := by
  have hinvoke (n : String) (args : Args) : e.next < (e.invoke n args).1.next := by
    unfold invoke
    split <;> exact Nat.lt_succ_self _
  cases a with
  | invoke n args => exact hinvoke n args
  | invokeValue n v =>
    dsimp only [step, invokeValue]
    split
    · exact hinvoke n _
    · exact Nat.lt_succ_self _
  | _ => cases ha

theorem Sound.shows_alone (hs : e.Sound) (o : Oracle β) (r : Registry)
    (ha : a.name? = some name) :
    shows e.next (e.record r (e.alone r o a)) = o.whole r.fill.2 e e.next a := by
  have hset : ∀ h, a ≠ .setHandler h := by
    rintro h rfl
    cases ha
  have hsound : (e.step r a).engine.Sound := hs.step a
  have hturns := hsound.shows_turns (next_lt_step ha) o (e.step r a).registry
  rw [fill_step hset] at hturns
  rw [alone, record, shows_cons, hturns]
  exact hs.whole_step o _ r ha

/-- What a run has done for a call that was begun in it, and what still lies ahead of it, are all
that is done for it. -/
theorem Sound.shows_begun {before later : List (Moment β)} (hs : e.Sound)
    (hrun : e.record r as = before ++ m :: later) (ha : m.action.name? = some name)
    (hfits : ∀ z ∈ later, z.Fits o h m.engine.next) :
    shows m.engine.next (e.record r as) ++
      o.rest h ((e.after r as).1.standing m.engine.next) =
      o.whole h m.engine m.engine.next m.action := by
  obtain ⟨done, more, -, rfl, he, rfl, hafter⟩ := record_split hrun
  have hsound : m.engine.Sound := he ▸ inv_after (fun _ _ a h => h.step a) hs r done
  have hbefore : shows m.engine.next (e.record r done) = [] :=
    hs.shows_fresh r done (he ▸ Nat.le_refl _)
  have hrest := (hsound.step m.action).shows_rest (r := m.outcome.registry)
    (next_lt_step (r := m.registry) ha) hfits
  rw [hafter, hrun, shows_append, shows_cons, hbefore, List.nil_append, List.append_assoc]
  exact (congrArg _ hrest).trans (hsound.whole_step o h m.registry ha)

theorem Sound.shows_call {before later : List (Moment β)} (hs : e.Sound)
    (hset : ∀ h, .setHandler h ∉ as)
    (hheeds : ∀ m ∈ e.record r as, ∀ c ∈ m.engine.calls, c.heeds o m.action = true)
    (hrun : e.record r as = before ++ m :: later) (ha : m.action.name? = some name)
    (hother : ∀ c ∈ commits before, ∀ x ∈ c.op.entries, x.name ≠ name)
    (hkept : ∀ z ∈ e.record r as, ¬ z.Cancels m.engine.next) :
    shows m.engine.next (e.record r as) ++
      o.rest r.fill.2 ((e.after r as).1.standing m.engine.next) =
      o.whole r.fill.2 e m.engine.next m.action := by
  obtain ⟨hforce, -⟩ := fill_record (e := e) (r := r) hset
  have hfits : ∀ z ∈ later, z.Fits o r.fill.2 m.engine.next := by
    intro z hz
    have hmem : z ∈ e.record r as := hrun ▸ List.mem_append_right _ (List.mem_cons_of_mem _ hz)
    exact ⟨fun c hc => hheeds z hmem c (call?_mem hc), hkept z hmem, fun _ _ _ => hforce z hmem⟩
  have hlookup : m.engine.lookup name = e.lookup name := by
    obtain ⟨done, more, -, rfl, he, -, -⟩ := record_split hrun
    rw [he]
    exact lookup_after hother
  exact (hs.shows_begun hrun ha hfits).trans (Oracle.whole_congr hlookup ha _)

theorem Sound.begun_below {before later : List (Moment β)} (hs : e.Sound)
    (hrun : e.record r as = before ++ m :: later) (ha : m.action.name? = some name) :
    m.engine.next < (e.after r as).1.next := by
  obtain ⟨done, more, -, -, he, -, hafter⟩ := record_split hrun
  have hsound : m.engine.Sound := he ▸ inv_after (fun _ _ a h => h.step a) hs r done
  rw [hafter]
  exact Nat.lt_of_lt_of_le (next_lt_step (r := m.registry) ha)
    ((hsound.step m.action).next_le_after m.outcome.registry more)

end Engine

/-- What is read of a call but for its number is the same whatever its number. -/
theorem Oracle.read_whole {α : Type} {f : Note β → Option α}
    (hf : ∀ (k : Nat) (z : Note β), f (z.renumber k) = f z) (i j : Nat) :
    (o.whole h e i a).filterMap f = (o.whole h e j a).filterMap f := by
  rw [← o.renumber_whole h e j i a, List.filterMap_map]
  exact congrArg (List.filterMap · _) (funext (hf i))

/-- A call in a run returns what it returns when it is begun and run alone, in the state at the
start of the run, and observers are told the same of it, but for its number: as far as it has come,
and in full once it has returned, which it does if it takes its turns. The answers may depend on
what is asked, no handler is set in the run, no registration that goes through before the call
begins bears the name of its tool, and the call is not given up. -/
theorem schedule_independence (o : Oracle β) (hs : e.Sound) (r : Registry) (as : List (Action β))
    (hset : ∀ h, .setHandler h ∉ as)
    (hheeds : ∀ m ∈ e.record r as, ∀ c ∈ m.engine.calls, c.heeds o m.action = true)
    (before : List (Moment β)) (m : Moment β) (later : List (Moment β)) (name : String)
    (hrun : e.record r as = before ++ m :: later) (ha : m.action.name? = some name)
    (hother : ∀ c ∈ commits before, ∀ x ∈ c.op.entries, x.name ≠ name)
    (hkept : ∀ z ∈ e.record r as, ¬ z.Cancels m.engine.next) :
    let id := m.engine.next
    let run := e.record r as
    let alone := e.record r (e.alone r o m.action)
    let ended := e.record r (as ++ (e.after r as).1.turns (e.after r as).2 o id 10)
    ∃ result, returns e.next alone = [result] ∧ told id run <+: told e.next alone ∧
      (returns id run ≠ [] → returns id run = [result] ∧ told id run = told e.next alone) ∧
      returns id ended = [result] ∧ told id ended = told e.next alone := by
  intro id run alone ended
  have hcall := hs.shows_call hset hheeds hrun ha hother hkept
  have halone : shows e.next alone = o.whole r.fill.2 e e.next m.action := hs.shows_alone o r ha
  have hended : shows id ended = o.whole r.fill.2 e id m.action := by
    have hsound : (e.after r as).1.Sound := Engine.inv_after (fun _ _ a h => h.step a) hs r as
    have hturns := hsound.shows_turns (hs.begun_below hrun ha) o (e.after r as).2
    rw [(Engine.fill_record (e := e) (r := r) hset).2] at hturns
    rw [← hcall, ← hturns, ← shows_append, ← Engine.record_append]
  -- the number of the call is nothing that observers or the caller are told
  obtain ⟨result, hresult⟩ := o.whole_result r.fill.2 e e.next ha
  have hreturns : (o.whole r.fill.2 e id m.action).filterMap Note.result? = [result] :=
    (o.read_whole Note.result?_renumber id e.next).trans hresult
  have htold : told e.next alone =
      (o.whole r.fill.2 e id m.action).filterMap Note.told? := by
    rw [told_shows, halone]
    exact o.read_whole Note.told?_renumber e.next id
  refine ⟨result, ?_, ?_, fun hreturned => ?_, ?_, ?_⟩
  · rw [returns_shows, halone, hresult]
  · rw [htold, told_shows, ← hcall, List.filterMap_append]
    exact List.prefix_append _ _
  · rw [returns_shows] at hreturned
    have hover := Oracle.rest_of_returned (hcall ▸ hreturns) hreturned
    have hshows : shows id run = o.whole r.fill.2 e id m.action := by
      rw [← hcall, hover, List.append_nil]
    exact ⟨by rw [returns_shows, hshows, hreturns], by rw [htold, told_shows, hshows]⟩
  · rw [returns_shows, hended, hreturns]
  · rw [htold, told_shows, hended]

/-- An engine with a gated tool and one that is not. -/
def twoTools : Engine Unit :=
  (Engine.after ∅ (.empty 0) [.register gatedShellTool, .register (Catalog.shellTool "ls")]).1

/-- Handlers that approve everything, and tools that do what they are asked to. -/
def agreeable : Oracle Unit where
  confirm _ _ _ := .ok true
  work _ _ := .ok (.ofText "done")
  serve _ _ _ := .error (.transport "reset")

/-- Two calls go on in turn, and a third tool is registered. -/
def interleavedCalls : List (Action Unit) :=
  [.invoke "ls" ∅, .register (Catalog.shellTool "mv"), .invoke "rm" ∅, .advance 1, .advance 0,
    .advance 1, .advance 0, .advance 1, .advance 1, .finish 0 (.ok (.ofText "done")), .advance 1,
    .answer 1 (.ok true), .advance 1, .advance 0, .advance 1, .finish 1 (.ok (.ofText "done")),
    .advance 1]

theorem schedule_independence_interleavedCalls :
    let run := twoTools.record (.empty 0) interleavedCalls
    let alone := twoTools.record (.empty 0)
      (twoTools.alone (.empty 0) agreeable (.invoke "rm" ∅))
    (∀ m ∈ run, ∀ c ∈ m.engine.calls, c.heeds agreeable m.action = true) ∧
      (commits (run.take 2)).map (·.op.entries) = [[Catalog.shellTool "mv"]] ∧
      returns 1 run = [.ok (.ofText "done")] ∧ returns 0 alone = [.ok (.ofText "done")] ∧
      told 1 run = told 0 alone ∧ (told 0 alone).map Prod.snd = [.requested ∅,
        .confirmationRequested "console", .confirmationGranted, .completed (.ofText "done")] := by
  intro run alone
  have hheeds : ∀ m ∈ run, ∀ c ∈ m.engine.calls, c.heeds agreeable m.action = true := by decide
  have hset : ∀ h, .setHandler h ∉ interleavedCalls := by simp [interleavedCalls]
  have hother : ∀ c ∈ commits (run.take 2), ∀ x ∈ c.op.entries, x.name ≠ "rm" := by
    intro c hc x hx
    obtain rfl : c = ⟨none, .register (Catalog.shellTool "mv")⟩ := List.mem_singleton.1 hc
    obtain rfl := List.mem_singleton.1 hx
    decide
  have hkept : ∀ z ∈ run, ¬ z.Cancels 1 := by
    intro z hz hcancel
    have hmem : z.action ∈ run.map Moment.action := List.mem_map_of_mem hz
    rw [Engine.actions_record, hcancel.action] at hmem
    simp [interleavedCalls] at hmem
  have hreturns : returns 1 run = [.ok (.ofText "done")] := rfl
  have hs : twoTools.Sound := Engine.sound_after _ _
  obtain ⟨result, halone, -, hreturned, -⟩ := schedule_independence agreeable hs (.empty 0)
    interleavedCalls hset hheeds (run.take 2) run[2] (run.drop 3) "rm" rfl rfl hother hkept
  have hsome : returns 1 run ≠ [] := hreturns ▸ List.cons_ne_nil _ _
  obtain ⟨hresult, htold⟩ := hreturned hsome
  obtain rfl : .ok (.ofText "done") = result :=
    List.singleton_inj.1 (hreturns.symm.trans hresult)
  exact ⟨hheeds, rfl, hreturns, halone, htold, rfl⟩

end GatedCalls
