import GatedCalls.Proofs.Dispatch.Fleet

/-!
# A call keeps the handler it was given

In a fleet any number of engines share registries in which handlers are swapped. `Decided` says what
a run shows of a gated call that has taken a handler: it took the one in force, that one is named,
asked and answers, and no swap after that makes any difference. The story of the call tells how far
it has come (`Entry.Asks`); that what it asks is what it took is `Fleet.traced_run`.
-/

namespace GatedCalls

variable {β : Type}

/-! ### Reading a story -/

/-- The handler that an event names. -/
def Note.named? : Note β → Option String
  | .told _ (.confirmationRequested handler) => some handler
  | _ => none

theorem named_story {id : Nat} {ms : List (Moment β)} :
    named id ms = (story id ms).filterMap Note.named? := by
  rw [named, events_story, List.filterMap_filterMap]
  refine congrArg (List.filterMap · _) (funext fun n => ?_)
  cases n with
  | told name kind => cases kind <;> rfl
  | _ => rfl

/-- How far a story of a gated call has come with its handler; `y` is where the call stands. -/
inductive Entry.Asks (x : Entry β) (args : Args) (id : Nat) (y : Standing β) :
    List (Note β) → Prop
  | ungated {s : List (Note β)} (h : x.gated = false) : Asks x args id y s
  | early {s : List (Note β)} (hn : s.filterMap Note.named? = [])
    (ha : s.filterMap (Note.ask? id) = []) (hr : s.filterMap Note.answer? = [])
    (hx : s.filterMap Note.execution? = []) : Asks x args id y s
  | presented (handler : Handler) (h : y.Heads handler) :
    Asks x args id y (x.presented args handler)
  | asked (handler : Handler) (more : List (Note β)) (hn : more.filterMap Note.named? = [])
    (ha : more.filterMap (Note.ask? id) = []) (hr : (more.filterMap Note.answer?).length ≤ 1) :
    Asks x args id y (x.asked args handler ++ more)

namespace Entry

variable {x : Entry β} {args : Args} {id : Nat} {y : Standing β} {s more : List (Note β)}

/-- Once nothing stands between a call and its tool, the handler is not asked again. -/
theorem Clear.question (h : x.Clear args s) (hn : more.filterMap Note.named? = [])
    (ha : more.filterMap (Note.ask? id) = []) (hr : more.filterMap Note.answer? = []) :
    x.Asks args id y (s ++ more) := by
  cases h with
  | ungated hg => exact .ungated hg
  | granted hg handler =>
    refine .asked handler (.answered (.ok true) :: .told x.name .confirmationGranted :: more) hn ha
      ?_
    show ((.ok true) :: more.filterMap Note.answer?).length ≤ 1
    rw [hr]
    exact Nat.le_refl 1

end Entry

theorem Call.Tells.question {c : Call β} {s : List (Note β)} (h : c.Tells s) (id : Nat) :
    c.entry.Asks c.args id (.active c) s := by
  obtain ⟨i, x, args, stage⟩ := c
  cases stage with
  | found =>
    obtain rfl : s = x.opening args := h
    exact .early rfl rfl rfl rfl
  | gate | unset | chosen handler =>
    obtain ⟨-, rfl⟩ : _ ∧ s = x.requested args := h
    exact .early rfl rfl rfl rfl
  | presented handler =>
    obtain ⟨-, rfl⟩ : _ ∧ s = x.presented args handler := h
    exact .presented handler ⟨_, rfl, .inr rfl⟩
  | asking handler =>
    obtain ⟨-, rfl⟩ : _ ∧ s = x.asked args handler := h
    exact .asked handler [] rfl rfl (Nat.zero_le _)
  | answered result =>
    obtain ⟨-, handler, rfl⟩ : _ ∧ ∃ handler, s = x.answered args handler result := h
    exact .asked handler [.answered result] rfl rfl (Nat.le_refl 1)
  | cleared =>
    have hc : x.Clear args s := h
    rw [← List.append_nil s]
    exact hc.question rfl rfl rfl
  | running =>
    obtain ⟨t, hc, rfl⟩ := h
    exact hc.question rfl rfl rfl
  | ended result =>
    obtain ⟨t, hc, rfl⟩ := h
    exact hc.question rfl rfl rfl

theorem Ended.question {s : List (Note β)} (h : Ended s) (id : Nat) (y : Standing β) :
    Unmade s ∨ ∃ x : Entry β, ∃ args, s.filterMap Note.called? = [(x.name, args, x)] ∧
      x.Asks args id y s := by
  cases h with
  | unused => exact .inl (.inl rfl)
  | refused err => exact .inl (.inr ⟨err, rfl⟩)
  | declined c hg handler =>
    exact .inr ⟨c.entry, c.args, rfl, .asked handler (.answered (.ok false) :: _) rfl rfl
      (Nat.le_refl 1)⟩
  | failed c hg handler err =>
    exact .inr ⟨c.entry, c.args, rfl, .asked handler (.answered (.error err) :: _) rfl rfl
      (Nat.le_refl 1)⟩
  | completed c hc output => exact .inr ⟨c.entry, c.args, hc.made rfl, hc.question rfl rfl rfl⟩
  | broken c hc err => exact .inr ⟨c.entry, c.args, hc.made rfl, hc.question rfl rfl rfl⟩
  | withdrawn c hg handler =>
    exact .inr ⟨c.entry, c.args, rfl, .asked handler [.cancelled] rfl rfl (Nat.zero_le _)⟩
  | abandoned c hc => exact .inr ⟨c.entry, c.args, hc.made rfl, hc.question rfl rfl rfl⟩

theorem Standing.Tells.question {y : Standing β} {s : List (Note β)} (h : y.Tells s) (id : Nat) :
    Unmade s ∨ ∃ x : Entry β, ∃ args, s.filterMap Note.called? = [(x.name, args, x)] ∧
      x.Asks args id y s := by
  cases y with
  | fresh => exact .inl (.inl h)
  | active c =>
    exact .inr ⟨c.entry, c.args, (Call.Tells.pending h id).1, Call.Tells.question h id⟩
  | «over» => exact Ended.question h id .over

/-! ### Isolation -/

namespace Fleet

variable {home : Nat → Nat} {f : Fleet β} {before xs : List (Happening β)} {x : Happening β}
  {i id : Nat} {m : Moment β} {handler : Handler}

theorem mem_moments (h : m ∈ f.moments home i xs) : ∃ before x after, xs = before ++ x :: after ∧
    m ∈ (f.run home before).seen home i x := by
  induction xs generalizing f with
  | nil => cases h
  | cons x rest ih =>
    rcases List.mem_append.1 h with h | h
    · exact ⟨[], x, rest, rfl, h⟩
    · obtain ⟨before, x', after, rfl, hm⟩ := ih h
      exact ⟨x :: before, x', after, rfl, hm⟩

theorem engine_of_seen (h : m ∈ f.seen home i x) : m.engine = f.engines i := by
  cases x with
  | act j a =>
    simp only [seen] at h
    split at h
    · rw [List.mem_singleton.1 h]
    · cases h
  | set k h' | fill k => cases h

/-- A call takes an answer only from the handler that was asked. -/
theorem asked_of_answers {result : Except ConfirmationError Bool}
    (hm : m ∈ start.moments home i xs) (h : m.Answers id result) :
    ∃ handler name args, m.engine.stage? id = some (.asking handler) ∧
      .asked id handler name args ∈ asks id (start.moments home i xs) := by
  obtain ⟨before, x, after, rfl, hseen⟩ := mem_moments hm
  obtain ⟨c, handler, hc, hst⟩ := Engine.awaitsAnswer_iff.1 h.awaited
  have hstage : m.engine.stage? id = some (.asking handler) := by
    rw [Engine.stage?, hc, Option.map_some, hst]
  refine ⟨handler, c.entry.name, c.args, hstage, ?_⟩
  rw [engine_of_seen hseen] at hc
  have ht := tells_run home before i id
  rw [standing, (sound_start.run home before i).standing hc] at ht
  obtain ⟨-, hs⟩ := (Call.tells_at hst).1 ht
  rw [asks_story, moments_append, story_append, hs, List.filterMap_append]
  exact List.mem_append_left _ (List.mem_singleton_self _)

theorem Happening.concerns_isSwap (h : x.concerns i id = true) :
    x.isSwap = false := by
  cases x with
  | act j a =>
    cases a with
    | setHandler handler => simp [Happening.concerns, Action.concerns] at h
    | _ => rfl
  | set k h' => cases h
  | fill k => rfl

theorem Takes.isolated (h : Takes home i id before x handler) {after after' : List (Happening β)}
    (ha : after'.filter (!·.isSwap) = after.filter (!·.isSwap)) :
    story id (start.moments home i (before ++ x :: after')) =
      story id (start.moments home i (before ++ x :: after)) := by
  have hf : (start.run home (before ++ [x]) : Fleet β).Sound := sound_start.run home _
  have hb : ((start.run home (before ++ [x])).standing i id).Bound := by
    have ht := h.taken
    rw [Engine.stage?, Option.map_eq_some_iff] at ht
    obtain ⟨c, hc, hst⟩ := ht
    rw [standing, (hf i).standing hc]
    show c.stage.isBound = true
    rw [hst]
    rfl
  have hfilter (l : List (Happening β)) :
      l.filter (·.concerns i id) = (l.filter (!·.isSwap)).filter (·.concerns i id) := by
    rw [List.filter_filter]
    refine List.filter_congr fun x _ => ?_
    cases hx : x.concerns i id with
    | true => simp [Happening.concerns_isSwap hx]
    | false => rfl
  have hstory (l : List (Happening β)) : story id (start.moments home i (before ++ x :: l)) =
      story id (start.moments home i (before ++ [x])) ++
        story id ((start.run home (before ++ [x])).moments home i
          ((l.filter (!·.isSwap)).filter (·.concerns i id))) := by
    rw [List.append_cons, moments_append, story_append, ← hfilter,
      hf.story_filter hf rfl hb l]
  rw [hstory after', hstory after, ha]

/-- What a run of the fleet shows of a call that has taken a handler. -/
structure Decided (home : Nat → Nat) (xs : List (Happening β)) (i id : Nat) (name : String)
    (args : Args) (handler : Handler) : Prop where
  /-- It took the one in force at the registry of its engine, and whatever is swapped after that,
  the same is shown of the call. -/
  chosen : ∃ before x after, xs = before ++ x :: after ∧ Takes home i id before x handler ∧
    ∀ after', after'.filter (!·.isSwap) = after.filter (!·.isSwap) →
      story id (start.moments home i (before ++ x :: after')) =
        story id (start.moments home i xs)
  named : named id (start.moments home i xs) = [handler.name]
  /-- No other handler is asked, and this one only once. -/
  asked : asks id (start.moments home i xs) <+: [.asked id handler name args]
  /-- It alone answers, and only once. -/
  answered : ∀ m ∈ start.moments home i xs, ∀ result, m.Answers id result →
    m.engine.stage? id = some (.asking handler)
  once : (answers id (start.moments home i xs)).length ≤ 1

theorem Chose.decided {name : String} {args : Args} (h : Chose home i id xs handler)
    (hn : named id (start.moments home i xs) = [handler.name])
    (ha : asks id (start.moments home i xs) <+: [.asked id handler name args])
    (hr : (answers id (start.moments home i xs)).length ≤ 1) :
    Decided home xs i id name args handler := by
  refine ⟨?_, hn, ha, fun m hm result h => ?_, hr⟩
  · obtain ⟨before, x, after, rfl, ht⟩ := h
    exact ⟨before, x, after, rfl, ht, fun after' hafter => ht.isolated hafter⟩
  · obtain ⟨handler', name', args', hst, hmem⟩ := asked_of_answers hm h
    obtain ⟨rfl, -, -⟩ : handler' = handler ∧ _ := by simpa using ha.subset hmem
    exact hst

/-- No handler was named or asked on behalf of the call, and its tool did not run. -/
structure Undecided (ms : List (Moment β)) (id : Nat) : Prop where
  named : GatedCalls.named id ms = []
  asked : asks id ms = []
  answered : answers id ms = []
  executed : executions id ms = []

theorem undecided_or_decided {y : Entry β} {args : Args} (hg : y.gated = true)
    (h : y.Asks args id ((start.run home xs).standing i id) (story id (start.moments home i xs))) :
    Undecided (start.moments home i xs) id ∨
      ∃ handler, Decided home xs i id y.name args handler := by
  have ht := traced_run home i id xs
  generalize hs : story id (start.moments home i xs) = s at h
  cases h with
  | ungated hu => rw [hg] at hu; cases hu
  | early hn ha hr hx =>
    refine .inl ⟨?_, ?_, ?_, ?_⟩
    · rw [named_story, hs, hn]
    · rw [asks_story, hs, ha]
    · rw [answers_story, hs, hr]
    · rw [executions_story, hs, hx]
  | presented handler hh =>
    refine .inr ⟨handler, (ht.heads handler hh).decided ?_ ?_ ?_⟩
    · rw [named_story, hs]
      rfl
    · rw [asks_story, hs]
      exact List.nil_prefix
    · rw [answers_story, hs]
      exact Nat.zero_le _
  | asked handler more hn ha hr =>
    have hmem : .asked handler y.name args ∈ story id (start.moments home i xs) := by
      rw [hs]
      exact List.mem_append_left _ (List.mem_append_right _ (List.mem_singleton_self _))
    refine .inr ⟨handler, (ht.asked handler _ _ hmem).decided ?_ ?_ ?_⟩
    · rw [named_story, hs, List.filterMap_append, hn]
      rfl
    · rw [asks_story, hs, List.filterMap_append, ha]
      exact List.prefix_rfl
    · rw [answers_story, hs, List.filterMap_append]
      exact hr

end Fleet

/-- In every run of every fleet, a gated call takes one handler, the one in force at the registry of
its engine at that step; the event names it, and it alone is asked and answers. What is put into any
registry after that does not change what is shown of the call, and what is put into other registries
does not change anything that the engine goes through. Until a handler is taken none is named or
asked, and the tool does not run. -/
theorem handler_isolation (home : Nat → Nat) (xs : List (Happening β)) (i id : Nat) :
    let run := Fleet.start.moments home i xs
    (∀ m ∈ run, ∀ name args x, m.Starts id name args x → Protocol run id x args ∧
      (x.gated = true →
        Fleet.Undecided run id ∨ ∃ handler, Fleet.Decided home xs i id name args handler)) ∧
    ∀ xs', (xs'.filter fun x => !x.swapsBeside home (home i)) =
        (xs.filter fun x => !x.swapsBeside home (home i)) →
      Fleet.start.moments home i xs' = run := by
  intro run
  refine ⟨fun m hm name args x h => ?_, fun xs' hxs => ?_⟩
  · have ht := Fleet.tells_run home xs i id
    have hc : .called name args x ∈ story id run := List.mem_flatMap.2 ⟨m, hm, h.called⟩
    have hin : (name, args, x) ∈ (story id run).filterMap Note.called? :=
      List.mem_filterMap.2 ⟨_, hc, rfl⟩
    have made {y : Entry β} {args' : Args}
        (hy : (story id run).filterMap Note.called? = [(y.name, args', y)]) :
        name = y.name ∧ args = args' ∧ x = y := by
      rw [hy, List.mem_singleton] at hin
      simpa using hin
    have unmade : ¬ Unmade (story id run) := by
      rintro (hu | ⟨err, hu⟩) <;> rw [hu] at hc <;> simp at hc
    refine ⟨?_, fun hg => ?_⟩
    · obtain ⟨y, args', hmade⟩ := (ht.read id).resolve_left unmade
      obtain ⟨rfl, rfl, rfl⟩ := made hmade.1
      exact hmade.protocol
    · obtain ⟨y, args', hy, hasks⟩ := (ht.question id).resolve_left unmade
      obtain ⟨rfl, rfl, rfl⟩ := made hy
      exact Fleet.undecided_or_decided hg hasks
  · have hagree : Fleet.Agree home (home i) Fleet.start (Fleet.start : Fleet β) :=
      ⟨fun _ _ => rfl, rfl⟩
    rw [Fleet.moments_filter hagree xs', hxs]
    exact (Fleet.moments_filter hagree xs).symm

/-- Two engines share a registry, and the handler is swapped through the second while a call of the
first is about to ask; another registry has a handler of its own. -/
def swappedCall : List (Happening Unit) :=
  [.act 0 (.register gatedShellTool), .set 1 ⟨.given 0, "elsewhere"⟩,
    .act 1 (.setHandler ⟨.given 1, "first"⟩), .act 0 (.invoke "rm" ∅), .act 0 (.advance 0),
    .act 0 (.advance 0), .act 1 (.setHandler ⟨.given 2, "second"⟩), .act 0 (.advance 0),
    .act 0 (.advance 0), .act 0 (.answer 0 (.ok false)), .act 0 (.advance 0)]

theorem handler_isolation_swappedCall :
    let home : Nat → Nat := fun _ => 0
    let run := Fleet.start.moments home 0 swappedCall
    (∃ handler, Fleet.Decided home swappedCall 0 0 "rm" ∅ handler ∧ handler.name = "first") ∧
      Protocol run 0 gatedShellTool ∅ ∧ (events 0 run).map (·.kind.label) =
        ["tool_requested", "confirmation_requested", "confirmation_declined"] ∧
      Fleet.start.moments home 0 (swappedCall.eraseIdx 1) = run := by
  intro home run
  obtain ⟨hcalls, hbeside⟩ := handler_isolation home swappedCall 0 0
  obtain ⟨hprotocol, hgated⟩ := hcalls run[1] (List.getElem_mem _) "rm" ∅ gatedShellTool
    ⟨.inl rfl, rfl, rfl⟩
  refine ⟨?_, hprotocol, by decide +kernel, hbeside _ rfl⟩
  have hnamed : named 0 run = ["first"] := by decide +kernel
  rcases hgated rfl with hu | ⟨handler, hd⟩
  · exact absurd (hnamed.symm.trans hu.named) (by simp)
  · exact ⟨handler, hd, (List.singleton_inj.1 (hnamed.symm.trans hd.named)).symm⟩

end GatedCalls
