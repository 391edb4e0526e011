import GatedCalls.Proofs.Dispatch.Protocol

/-!
# What a call returns

A call that returns was refused at once, or it came to its result in one of the ways that
`Entry.Conclusion` lists, together with what its handler and its tool answered and what set its tool
to work (`Engine.concluded`). Two questions of a caller are settled by looking at the ways: what the
mark of a declined call says about a response, and whether a call that failed may be made again
without its tool running twice.
-/

namespace GatedCalls

variable {β : Type}

namespace Entry

/-- How a call came to its result: the answers of its handler, what set its tool to work, and what
the tool answered. -/
inductive Conclusion (x : Entry β) : List (Except ConfirmationError Bool) → List (Effect β) →
    List (Except ToolError Response) → Except DispatchError Response → Prop
  | declined (h : x.gated = true) : Conclusion x [.ok false] [] [] (.ok (Response.declined x.name))
  | unconfirmed (h : x.gated = true) (err : ConfirmationError) :
    Conclusion x [.error err] [] [] (.error (.confirmation x.name err))
  | approved (h : x.gated = true) (z : Effect β) (outcome : Except ToolError Response) :
    Conclusion x [.ok true] [z] [outcome] (x.result outcome)
  | ungated (h : x.gated = false) (z : Effect β) (outcome : Except ToolError Response) :
    Conclusion x [] [z] [outcome] (x.result outcome)

end Entry

variable {id : Nat} {m : Moment β} {ms : List (Moment β)} {r : Registry} {e : Engine β}
  {s t : List (Note β)} {x : Entry β} {args : Args} {result : Except DispatchError Response}

namespace Entry.Conclusion

variable {a : List (Except ConfirmationError Bool)} {z : List (Effect β)}
  {o : List (Except ToolError Response)}

theorem of_ok {output : Response} (h : x.Conclusion a z o (.ok output)) :
    (x.gated = true ∧ a = [.ok false] ∧ z = [] ∧ output = Response.declined x.name) ∨
      z ≠ [] ∧ o = [.ok output] := by
  generalize hr : (Except.ok output : Except DispatchError Response) = result at h
  cases h with
  | declined hg => exact .inl ⟨hg, rfl, rfl, Except.ok.inj hr⟩
  | unconfirmed hg err => cases hr
  | approved hg w outcome | ungated hg w outcome =>
    cases outcome with
    | ok output' =>
      obtain rfl : output = output' := Except.ok.inj hr
      exact .inr ⟨List.cons_ne_nil _ _, rfl⟩
    | error err => cases hr

theorem of_error {err : DispatchError} (h : x.Conclusion a z o (.error err)) :
    (z = [] ∧ ∃ source, err = .confirmation x.name source) ∨
      ∃ source, o = [.error source] ∧ err = .tool x.name source := by
  generalize hr : (Except.error err : Except DispatchError Response) = result at h
  cases h with
  | declined hg => cases hr
  | unconfirmed hg source => exact .inl ⟨rfl, source, Except.error.inj hr⟩
  | approved hg w outcome | ungated hg w outcome =>
    cases outcome with
    | ok output => cases hr
    | error source => exact .inr ⟨source, rfl, Except.error.inj hr⟩

theorem of_execution (h : x.Conclusion a z o result) (hz : z ≠ []) :
    ∃ outcome, o = [outcome] ∧ result = x.result outcome := by
  cases h with
  | declined | unconfirmed => exact absurd rfl hz
  | approved hg w outcome | ungated hg w outcome => exact ⟨outcome, rfl, rfl⟩

end Entry.Conclusion

/-! ### Reading the story of a call that returned -/

/-- What is shown once nothing stood between a call and its tool, and the tool has ended. -/
theorem Entry.Clear.conclusion (h : x.Clear args t) (z : Effect β)
    (outcome : Except ToolError Response) {more : List (Note β)}
    (ha : more.filterMap Note.answer? = []) (he : more.filterMap Note.execution? = [z])
    (ho : more.filterMap Note.finish? = [outcome]) :
    x.Conclusion ((t ++ more).filterMap Note.answer?) ((t ++ more).filterMap Note.execution?)
      ((t ++ more).filterMap Note.finish?) (x.result outcome) := by
  simp only [List.filterMap_append, ha, he, ho]
  cases h with
  | ungated hg => exact .ungated hg z outcome
  | granted hg handler => exact .approved hg z outcome

/-- The story of a call that returned is that of a refusal, or leads to its result. -/
theorem Ended.conclusion (h : Ended s) (hr : result ∈ s.filterMap Note.result?) :
    s = [.returned result] ∨ ∃ x : Entry β, ∃ args, .called x.name args x ∈ s ∧
      x.Conclusion (s.filterMap Note.answer?) (s.filterMap Note.execution?)
        (s.filterMap Note.finish?) result := by
  cases h with
  | unused => cases hr
  | refused err =>
    obtain rfl := List.mem_singleton.1 hr
    exact .inl rfl
  | declined c hg handler =>
    obtain rfl := List.mem_singleton.1 hr
    exact .inr ⟨c.entry, c.args, List.mem_cons_self .., .declined hg⟩
  | failed c hg handler err =>
    obtain rfl := List.mem_singleton.1 hr
    exact .inr ⟨c.entry, c.args, List.mem_cons_self .., .unconfirmed hg err⟩
  | completed c hc output =>
    obtain rfl : .ok output = result := by
      simpa [List.filterMap_append, (hc.read 0).1, Note.result?] using hr
    obtain ⟨u, rfl⟩ := hc.called
    exact .inr ⟨c.entry, c.args, List.mem_cons_self .., hc.conclusion _ (.ok output) rfl rfl rfl⟩
  | broken c hc err =>
    obtain rfl : .error (.tool c.entry.name err) = result := by
      simpa [List.filterMap_append, (hc.read 0).1, Note.result?] using hr
    obtain ⟨u, rfl⟩ := hc.called
    exact .inr ⟨c.entry, c.args, List.mem_cons_self .., hc.conclusion _ (.error err) rfl rfl rfl⟩
  | withdrawn c hg handler => cases hr
  | abandoned c hc => simp [List.filterMap_append, (hc.read 0).1, Note.result?] at hr

theorem Standing.Tells.conclusion {y : Standing β} (h : y.Tells s)
    (hr : result ∈ s.filterMap Note.result?) :
    s = [.returned result] ∨ ∃ x : Entry β, ∃ args, .called x.name args x ∈ s ∧
      x.Conclusion (s.filterMap Note.answer?) (s.filterMap Note.execution?)
        (s.filterMap Note.finish?) result := by
  cases y with
  | fresh =>
    rw [show s = [] from h] at hr
    cases hr
  | active c =>
    rw [(Call.Tells.pending h 0).2.silent] at hr
    cases hr
  | «over» => exact Ended.conclusion h hr

/-! ### A tool that has answered -/

theorem Call.next_ended {c : Call β} {outcome : Except ToolError Response}
    (h : c.stage = .ended outcome) (r : Registry) : c.next r =
      ([.told c.entry.name (.ofOutcome outcome), .returned (c.entry.result outcome)], .over) := by
  cases outcome <;> simp only [Call.next, h] <;> rfl

theorem Standing.Tells.finished {y : Standing β}
    {outcome : Except ToolError Response} (h : y.Tells s)
    (ho : outcome ∈ s.filterMap Note.finish?) :
    (∃ c, y = .active c ∧ c.stage = .ended outcome ∧ s.filterMap Note.result? = []) ∨
      y = .over ∧ ∃ x : Entry β, ∃ args, s.filterMap Note.called? = [(x.name, args, x)] ∧
        s.filterMap Note.result? = [x.result outcome] := by
  cases y with
  | fresh =>
    rw [show s = [] from h] at ho
    cases ho
  | active c =>
    refine .inl ⟨c, rfl, ?_, (Call.Tells.pending h 0).2.silent⟩
    obtain ⟨i, x, args, stage⟩ := c
    cases stage with
    | found => rw [show s = x.opening args from h] at ho; cases ho
    | gate | unset | chosen handler => rw [h.2] at ho; cases ho
    | presented handler => rw [h.2] at ho; cases ho
    | asking handler => rw [h.2] at ho; cases ho
    | answered result =>
      obtain ⟨-, handler, rfl⟩ := h
      cases ho
    | cleared => rw [(Entry.Clear.read h 0).2.1] at ho; cases ho
    | running =>
      obtain ⟨t, ht, rfl⟩ := h
      rw [List.filterMap_append, (ht.read 0).2.1] at ho
      cases ho
    | ended result =>
      obtain ⟨t, ht, rfl⟩ := h
      rw [List.filterMap_append, (ht.read 0).2.1] at ho
      rw [List.mem_singleton.1 ho]
  | «over» =>
    refine .inr ⟨rfl, ?_⟩
    cases h with
    | unused | refused err => cases ho
    | declined c hg handler | failed c hg handler err | withdrawn c hg handler => cases ho
    | completed c hc output =>
      rw [List.filterMap_append, (hc.read 0).2.1] at ho
      obtain rfl := List.mem_singleton.1 ho
      have hd : c.entry.Done c.args 0 _ _ := hc.done (.ok output) (Engine.run c)
      exact ⟨c.entry, c.args, hc.made rfl, hd.returned⟩
    | broken c hc err =>
      rw [List.filterMap_append, (hc.read 0).2.1] at ho
      obtain rfl := List.mem_singleton.1 ho
      have hd : c.entry.Done c.args 0 _ _ := hc.done (.error err) (Engine.run c)
      exact ⟨c.entry, c.args, hc.made rfl, hd.returned⟩
    | abandoned c hc =>
      rw [List.filterMap_append, (hc.read 0).2.1] at ho
      cases ho

/-! ### Refusals -/

namespace Engine

theorem Sound.advance_fresh (hs : e.Sound) (hx : e.standing id = .fresh) (r : Registry) (i : Nat) :
    (e.advance r i).effects.filterMap (Effect.note? id) = [] := by
  unfold Engine.advance
  cases hc : e.call? i with
  | some c =>
    refine (advanceCall_ne fun hid => ?_).1
    rw [← hid, call?_id hc, hs.standing hc] at hx
    cases hx
  | none =>
    cases e.enrolment? i with
    | some y => exact (advanceEnrolment_frame y id).2.2
    | none =>
      cases e.closing? i with
      | some y => exact (advanceClosing_frame y id).2.2
      | none => rfl

end Engine

namespace Moment

theorem refuses_of_invoke {name : String} (ha : m.action = .invoke name args ∨
      ∃ v, m.action = .invokeValue name v ∧ v.asArgs? = some args)
    (h : .returned id result ∈ (m.engine.invoke name args).2) :
    ∃ err, m.Refuses id err ∧ result = .error err := by
  unfold Engine.invoke at h
  split at h
  · cases h
  · rename_i err hl
    obtain ⟨hid, rfl⟩ := Effect.returned.inj (List.mem_singleton.1 h)
    have hnone : ∀ entry, m.engine.lookup name ≠ .ok entry := by
      rw [hl]
      rintro entry ⟨⟩
    have herr : err = .notFound name :=
      Except.error.inj (hl.symm.trans (Catalog.lookup_of_absent hnone))
    exact ⟨_, .unknown name args hid.symm ha hnone, by rw [herr]⟩

theorem refuses_of_returned (hs : m.engine.Sound) (hx : m.engine.standing id = .fresh)
    (h : .returned result ∈ m.notes id) : ∃ err, m.Refuses id err ∧ result = .error err := by
  have hnote : .returned result ∈ m.effects.filterMap (Effect.note? id) := by
    rcases List.mem_append.1 h with h | h
    · rcases mem_given h with ⟨_, _, _, h, _⟩ | ⟨_, h, _⟩ | ⟨_, h⟩ | h <;> cases h
    · exact h
  have heffect : .returned id result ∈ m.effects := by
    obtain ⟨z, hz, hn⟩ := List.mem_filterMap.1 hnote
    cases z with
    | returned i result' =>
      by_cases hi : i = id
      · subst hi
        simp only [Effect.note?, if_true, Option.some.injEq, Note.returned.injEq] at hn
        exact hn ▸ hz
      · simp [Effect.note?, hi] at hn
    | emitted event | asked i | ran i | forwarded i => simp [Effect.note?] at hn
    | _ => cases hn
  unfold effects outcome at heffect
  cases ha : m.action with
  | invoke name args =>
    rw [ha] at heffect
    exact refuses_of_invoke (.inl ha) heffect
  | invokeValue name v =>
    rw [ha] at heffect
    cases hv : v.asArgs? with
    | some args =>
      simp only [Engine.step, Engine.invokeValue, hv] at heffect
      exact refuses_of_invoke (.inr ⟨v, ha, hv⟩) heffect
    | none =>
      simp only [Engine.step, Engine.invokeValue, hv, List.mem_singleton] at heffect
      obtain ⟨hid, rfl⟩ := Effect.returned.inj heffect
      refine ⟨_, .noObject name v hid.symm ha fun members hm => ?_, rfl⟩
      rw [hm] at hv
      cases hv
  | advance i =>
    rw [effects, outcome, ha] at hnote
    have hnil : (m.engine.step m.registry (.advance i)).effects.filterMap (Effect.note? id) = [] :=
      hs.advance_fresh hx m.registry i
    rw [hnil] at hnote
    cases hnote
  | register entry =>
    rw [ha] at heffect
    cases hr : m.engine.catalog.register entry with
    | ok c => simp [Engine.step_register hr] at heffect
    | error err => simp [Engine.step_register_error hr] at heffect
  | shutdown => simp [ha, Engine.step, Engine.shutdown] at heffect
  | _ => simp [ha, Engine.step, Engine.addHook, Engine.removeHook, Engine.enrol] at heffect

end Moment

/-! ### Runs -/

namespace Engine

theorem refused_of_story {as : List (Action β)}
    (h : story id (record ∅ r as) = [.returned result]) :
    ∃ m ∈ record ∅ r as, ∃ err, m.Refuses id err ∧ result = .error err := by
  rw [← List.nil_append [Note.returned result]] at h
  obtain ⟨before, m, after, n₁, n₂, hrun, hn, hb, -⟩ := story_split h
  obtain ⟨hbefore, rfl⟩ := List.append_eq_nil_iff.1 hb.symm
  obtain ⟨hs, ht⟩ := tells_before id hrun
  rw [hbefore] at ht
  have hreturned : .returned result ∈ m.notes id := by
    rw [hn]
    exact List.mem_cons_self ..
  have hm : Move id m.registry (m.engine.standing id) (m.notes id) (m.outcome.engine.standing id) :=
    step_move hs m.action
  refine ⟨m, hrun ▸ List.mem_append_right _ (List.mem_cons_self ..), ?_⟩
  cases hx : m.engine.standing id with
  | fresh => exact Moment.refuses_of_returned hs hx hreturned
  | active c =>
    rw [hx] at ht
    have := (Call.Tells.pending ht id).1
    cases this
  | «over» =>
    rw [hx] at hm
    generalize m.outcome.engine.standing id = y at hm
    generalize m.notes id = ns at hm hreturned
    cases hm
    cases hreturned

/-- A call that returned was refused, and nothing else is shown of it, or it was made and came to
its result. -/
theorem concluded {as : List (Action β)} (h : result ∈ returns id (record ∅ r as)) :
    (∃ m ∈ record ∅ r as, ∃ err, m.Refuses id err ∧ result = .error err ∧
      executions id (record ∅ r as) = []) ∨
    ∃ m ∈ record ∅ r as, ∃ name args x, m.Starts id name args x ∧ x.name = name ∧
      x.Conclusion (answers id (record ∅ r as)) (executions id (record ∅ r as))
        (outcomes id (record ∅ r as)) result := by
  obtain ⟨y, hy⟩ := tells_whole (β := β) id r as
  rw [returns_story] at h
  rcases hy.conclusion h with hs | ⟨x, args, hc, hx⟩
  · obtain ⟨m, hm, err, href, herr⟩ := refused_of_story hs
    refine .inl ⟨m, hm, err, href, herr, ?_⟩
    rw [executions_story, hs]
    rfl
  · obtain ⟨m, hm, hn⟩ := List.mem_flatMap.1 hc
    rw [← answers_story, ← executions_story, ← outcomes_story] at hx
    exact .inr ⟨m, hm, x.name, args, x, Moment.starts_of_called hn, rfl, hx⟩

theorem length_executions_le_one (r : Registry) (as : List (Action β)) (id : Nat) :
    (executions id (record ∅ r as)).length ≤ 1 := by
  cases hz : executions id (record ∅ r as) with
  | nil => exact Nat.zero_le 1
  | cons z more =>
    have hmem : z ∈ executions id (record ∅ r as) := hz ▸ List.mem_cons_self ..
    obtain ⟨hmem, hid⟩ := List.mem_filter.1 hmem
    obtain ⟨m, hm, hmem⟩ := List.mem_flatMap.1 hmem
    obtain ⟨before, after, hrun⟩ := List.append_of_mem hm
    obtain ⟨name, args, entry, hs⟩ := sanctioned hrun hmem hid
    rw [← hz, hs.once]
    exact Nat.le_refl 1

end Engine

/-! ### The mark of a declined call -/

/-- The handler of a call of a gated tool denied it, and the tool was not set to work. -/
structure Spared (run : List (Moment β)) (id : Nat) (x : Entry β) : Prop where
  gated : x.gated = true
  denied : answers id run = [.ok false]
  idle : executions id run = []

theorem Response.isDeclined_declined (name : String) :
    (Response.declined name).isDeclined = true := by
  have hne : declinedKey ≠ "tool_name" := by decide
  have hget : (Json.ofMembers [(declinedKey, .bool true), ("tool_name", .string name)]).get?
      declinedKey = some (.bool true) := by
    show (((∅ : Dict Json).insert declinedKey _).insert "tool_name" _).get? declinedKey = _
    rw [Dict.get?_insert, if_neg hne, Dict.get?_insert_self]
  rw [isDeclined, declined, withMetadata, Option.bind_some, hget]
  rfl

/-- A response that a caller gets stands in for a call that was spared, and then bears the mark, or
is what the tool gave. The mark tells these apart just if the tool did not itself give a response
that bears it. -/
theorem declined_mark (r : Registry) (as : List (Action β)) (id : Nat) (output : Response)
    (h : .ok output ∈ returns id (Engine.record ∅ r as)) :
    let run := Engine.record ∅ r as
    ∃ m ∈ run, ∃ name args x, m.Starts id name args x ∧
      (executions id run = [] ↔ Spared run id x) ∧
      (Spared run id x → output = Response.declined name ∧ output.isDeclined = true) ∧
      ((output.isDeclined = true ↔ Spared run id x) ↔
        ¬ (executions id run ≠ [] ∧ outcomes id run = [.ok output] ∧
          output.isDeclined = true)) := by
  intro run
  rcases Engine.concluded h with ⟨m, -, err, -, herr, -⟩ | ⟨m, hm, name, args, x, hs, hname, hc⟩
  · cases herr
  refine ⟨m, hm, name, args, x, hs, ?_⟩
  rcases hc.of_ok with ⟨hg, ha, hz, hout⟩ | ⟨hz, ho⟩
  · have hspared : Spared run id x := ⟨hg, ha, hz⟩
    have hmark : output.isDeclined = true := by
      rw [hout]
      exact Response.isDeclined_declined _
    refine ⟨iff_of_true hz hspared, fun _ => ⟨hname ▸ hout, hmark⟩, ?_⟩
    exact iff_of_true (iff_of_true hmark hspared) fun hran => hran.1 hz
  · have hspared : ¬ Spared run id x := fun hspared => hz hspared.idle
    refine ⟨iff_of_false hz hspared, fun hspared' => absurd hspared' hspared, ?_⟩
    refine ⟨fun htells hran => hspared (htells.1 hran.2.2), fun hno => ?_⟩
    exact iff_of_false (fun hmark => hno ⟨hz, ho, hmark⟩) hspared

/-- A response of a tool that bears the mark of a declined call. -/
def markedResponse : Response :=
  (Response.ofText "removed").withMetadata (.ofMembers [(Response.declinedKey, .bool true)])

/-- A gated tool is approved and set to work, and gives a response that bears the mark. -/
def markedCall : List (Action Unit) :=
  [.register gatedShellTool, .invoke "rm" ∅, .advance 0, .advance 0, .advance 0, .advance 0,
    .advance 0, .answer 0 (.ok true), .advance 0, .advance 0, .finish 0 (.ok markedResponse),
    .advance 0]

theorem declined_mark_markedCall :
    let run := Engine.record ∅ (Registry.empty 0) markedCall
    returns 0 run = [.ok markedResponse] ∧ executions 0 run = [.ran 0 () ∅] ∧
      ∃ x, ¬ Spared run 0 x ∧ ¬ (markedResponse.isDeclined = true ↔ Spared run 0 x) := by
  intro run
  have hr : returns 0 run = [.ok markedResponse] := rfl
  have hz : executions 0 run = [.ran 0 () ∅] := rfl
  have hran : executions 0 run ≠ [] := hz ▸ List.cons_ne_nil _ _
  obtain ⟨m, -, name, args, x, -, hidle, -, hmark⟩ := declined_mark (Registry.empty 0) markedCall 0
    markedResponse (hr ▸ List.mem_singleton_self _)
  exact ⟨hr, hz, x, fun hspared => hran (hidle.2 hspared),
    fun htells => hmark.1 htells ⟨hran, rfl, by decide⟩⟩

/-! ### Making a call again -/

/-- Only a call that was not confirmed may be made again, unless the handler is set up wrongly. -/
theorem DispatchError.retryable_report_iff {err : DispatchError} :
    err.report.retryable = true ↔
      ∃ name source, err = .confirmation name source ∧ ∀ text, source ≠ .config text := by
  cases err with
  | catalog source => cases source <;> simp [report, CatalogError.report, ReportedError.retryable]
  | confirmation name source =>
    cases source with
    | config text => simp [report, ReportedError.retryable]
    | _ => exact iff_of_true rfl ⟨name, _, rfl, by simp⟩
  | _ => simp [report, ReportedError.retryable]

namespace Engine

variable {as : List (Action β)} {err : DispatchError}

theorem idle_or_broken (h : .error err ∈ returns id (record ∅ r as)) :
    executions id (record ∅ r as) = [] ∨ ∃ name failure, err = .tool name failure ∧
      outcomes id (record ∅ r as) = [.error failure] := by
  rcases concluded h with ⟨m, -, _, -, -, hz⟩ | ⟨m, -, _, _, x, -, -, hc⟩
  · exact .inl hz
  · rcases hc.of_error with ⟨hz, -⟩ | ⟨failure, ho, herr⟩
    · exact .inl hz
    · exact .inr ⟨x.name, failure, herr, ho⟩

theorem idle_of_retryable (h : .error err ∈ returns id (record ∅ r as))
    (hr : err.report.retryable = true) : executions id (record ∅ r as) = [] := by
  rcases idle_or_broken h with hz | ⟨name, failure, rfl, -⟩
  · exact hz
  · cases hr

end Engine

/-- In every run, a call that fails is reported as one that may be made again just if it was not
confirmed, for another reason than the set-up of its handler, and its tool was not set to work then.
If the tool was set to work, be it code of its own or a tool at a source, the failure is reported as
the tool's. So of the attempts at a call that is made again as long as its failure allows that, at
most the last sets a tool to work, and at most once. -/
theorem retry_safety (r : Registry) (as : List (Action β)) :
    let run := Engine.record ∅ r as
    (∀ id err, .error err ∈ returns id run →
      (err.report.retryable = true ↔
        ∃ name source, err = .confirmation name source ∧ ∀ text, source ≠ .config text) ∧
      (err.report.retryable = true → executions id run = []) ∧
      (executions id run ≠ [] → ∃ name failure, err = .tool name failure ∧
        outcomes id run = [.error failure] ∧ err.report = .tool err.message)) ∧
    (∀ attempts last, (∀ id ∈ attempts, ∃ err, .error err ∈ returns id run ∧
      err.report.retryable = true) →
      ((attempts ++ [last]).flatMap fun id => executions id run).length ≤ 1) := by
  intro run
  refine ⟨fun id err h => ⟨DispatchError.retryable_report_iff, Engine.idle_of_retryable h, ?_⟩,
    fun attempts last h => ?_⟩
  · intro hran
    rcases Engine.idle_or_broken h with hz | ⟨name, failure, rfl, ho⟩
    · exact absurd hz hran
    · exact ⟨name, failure, rfl, ho, rfl⟩
  · have hidle : (attempts.flatMap fun id => executions id run) = [] := by
      refine List.flatMap_eq_nil_iff.2 fun id hid => ?_
      obtain ⟨err, herr, hr⟩ := h id hid
      exact Engine.idle_of_retryable herr hr
    rw [List.flatMap_append, hidle, List.flatMap_singleton]
    exact Engine.length_executions_le_one r as last

/-- The handler of a gated tool cannot be reached, and the call is made again, and approved. -/
def repeatedCall : List (Action Unit) :=
  [.register gatedShellTool, .invoke "rm" ∅, .advance 0, .advance 0, .advance 0, .advance 0,
    .advance 0, .answer 0 (.error (.unavailable "no terminal")), .advance 0, .invoke "rm" ∅,
    .advance 1, .advance 1, .advance 1, .advance 1, .answer 1 (.ok true), .advance 1, .advance 1]

theorem retry_safety_repeatedCall :
    let run := Engine.record ∅ (Registry.empty 0) repeatedCall
    returns 0 run = [.error (.confirmation "rm" (.unavailable "no terminal"))] ∧
      executions 0 run = [] ∧ executions 1 run = [.ran 1 () ∅] ∧
      (([0] ++ [1]).flatMap fun id => executions id run).length ≤ 1 := by
  intro run
  have hr : returns 0 run = [.error (.confirmation "rm" (.unavailable "no terminal"))] := rfl
  have herr : .error (.confirmation "rm" (.unavailable "no terminal")) ∈ returns 0 run :=
    hr ▸ List.mem_singleton_self _
  obtain ⟨hfails, hattempts⟩ := retry_safety (Registry.empty 0) repeatedCall
  refine ⟨hr, (hfails 0 _ herr).2.1 rfl, rfl, hattempts [0] 1 fun id hid => ?_⟩
  obtain rfl := List.mem_singleton.1 hid
  exact ⟨_, herr, rfl⟩

end GatedCalls
