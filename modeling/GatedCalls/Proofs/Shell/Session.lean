import GatedCalls.Proofs.Dispatch.Errand
import GatedCalls.Proofs.Shell.Lines

/-!
# What a session does with its engine

A session is a fold over the readings up to the one that ends it (`Session.run_eq`). A `Station` is
an engine that a session works with, among handlers, tools and sources that may answer each call as
they like. A reading that asks for a call is one errand there, and any other leaves the engine as it
is (`Station.takes_deal`), so that the readings alone settle which calls are made (`Station.leads`).
-/

namespace GatedCalls

variable {β : Type}

/-- The call that an action begins. -/
def Action.order? : Action β → Option (String × Json)
  | .invokeValue tool v => some (tool, v)
  | .invoke tool args => some (tool, .object args.toList)
  | .register _ | .addHook | .removeHook _ | .setHandler _ | .enrol .. | .shutdown | .answer ..
  | .finish .. | .reply .. | .list .. | .disconnected .. | .cancel _ | .advance _ => none

theorem Action.order?_of_concerns {a : Action β} {id : Nat} (h : a.concerns id = true) :
    a.order? = none := by
  cases a <;> first | rfl | cases h

/-- The calls that are begun in a run, in order. -/
def callsMade (ms : List (Moment β)) : List (String × Json) := ms.filterMap (·.action.order?)

theorem callsMade_append (a b : List (Moment β)) :
    callsMade (a ++ b) = callsMade a ++ callsMade b := List.filterMap_append

theorem callsMade_record (e : Engine β) (r : Registry) (as : List (Action β)) :
    callsMade (e.record r as) = as.filterMap Action.order? := by
  conv_rhs => rw [← Engine.actions_record (e := e) r as, List.filterMap_map]
  rfl

/-- What answers an engine: handlers, tools and sources, which may answer each call as they like,
and sources that are disconnected, in an order that they like. -/
structure Surroundings (β : Type) where
  call : Nat → Oracle β
  parting : List Nat → List Nat
  parting_perm (sources : List Nat) : (parting sources).Perm sources

namespace Shell

/-- The readings up to the one that ends the session. -/
def heeded : List Reading → List Reading
  | [] => []
  | x :: rest => if x.ends then [x] else x :: heeded rest

/-- The calls that readings ask for, in order. -/
def orders (xs : List Reading) : List (String × Json) := xs.filterMap Reading.order?

theorem orders_append (xs ys : List Reading) : orders (xs ++ ys) = orders xs ++ orders ys :=
  List.filterMap_append

/-- An engine that a session works with, what has happened to it, and what was printed. -/
structure Station (β : Type) where
  engine : Engine β
  registry : Registry
  ran : List (Moment β)
  printed : List Print

namespace Station

/-- Lets the actions happen to the engine. -/
def act (s : Station β) (as : List (Action β)) : Station β :=
  ⟨(s.engine.after s.registry as).1, (s.engine.after s.registry as).2,
    s.ran ++ s.engine.record s.registry as, s.printed⟩

def print (s : Station β) (p : Print) : Station β := { s with printed := s.printed ++ [p] }

/-- What is awaited of a call that does not return. -/
def noDecision (tool : String) : DispatchError := .confirmation tool (.unavailable "no decision")

def backend (w : Surroundings β) : Backend (Station β) where
  tools s group := s.engine.tools group
  groups s := s.engine.groups
  handlerName s := ({ s with registry := s.registry.current.1 }, s.registry.current.2.name)
  invoke s tool v :=
    let as := s.engine.alone s.registry (w.call s.engine.next) (.invokeValue tool v)
    (s.act as,
      (returns s.engine.next (s.engine.record s.registry as)).headD (.error (noDecision tool)))
  shutdown s := s.act (s.engine.closing (w.parting s.engine.kept))
  print := print

/-- What a reading does at a station: it asks for a call, which is an errand of the engine, and its
outcome is printed; or something is printed at most. -/
inductive Takes (s : Station β) (x : Reading) : Station β → Prop
  | call (tool : String) (v : Json) (as : List (Action β))
    (result : Except DispatchError Response) (h : x.order? = some (tool, v))
    (he : Errand s.engine s.registry tool v as result) :
    Takes s x ((s.act as).print (.ofResult result))
  | idle (h : x.order? = none) (ps : List Print) (hp : ps.length ≤ 1) :
    Takes s x { s with printed := s.printed ++ ps }

end Station

namespace Session

variable {σ : Type} {x : Reading} {xs before after : List Reading}

/-- Deals with a reading. -/
def deal (b : Backend σ) (s : σ) (x : Reading) : σ := (step b s x).1

/-- Where a session is that has dealt with readings. -/
def reached (b : Backend σ) (s : σ) (xs : List Reading) : σ := xs.foldl (deal b) (greet b s)

/-! ### A session of any kind -/

theorem step_eq (b : Backend σ) (s : σ) (x : Reading) : step b s x = (deal b s x, !x.ends) := by
  refine Prod.ext rfl ?_
  cases h : x.order? with
  | some call =>
    obtain ⟨tool, v⟩ := call
    rw [step_of_order h, Reading.ends_of_order h]
    rfl
  | none => rcases step_of_idle h b s with hstep | ⟨p, hstep⟩ <;> rw [hstep]

theorem converse_eq (b : Backend σ) (s : σ) (xs : List Reading) :
    converse b s xs = (heeded xs).foldl (deal b) s := by
  induction xs generalizing s with
  | nil => rfl
  | cons x rest ih =>
    rw [converse, step_eq, heeded]
    cases x.ends with
    | true => rfl
    | false => exact ih _

theorem run_eq (b : Backend σ) (s : σ) (xs : List Reading) :
    run b s xs = finish b (reached b s (heeded xs)) :=
  congrArg (finish b) (converse_eq b (greet b s) xs)

theorem heeded_append (h : ∀ y ∈ before, y.ends = false) (rest : List Reading) :
    heeded (before ++ rest) = before ++ heeded rest := by
  induction before with
  | nil => rfl
  | cons y before ih =>
    obtain ⟨hy, hbefore⟩ := List.forall_mem_cons.1 h
    rw [List.cons_append, heeded, hy, ih hbefore]
    rfl

/-- When a reading is taken, the ones before have been dealt with, and the rest has no part in it.
-/
theorem run_append (b : Backend σ) (s : σ) (h : ∀ y ∈ before, y.ends = false) (x : Reading)
    (after : List Reading) : run b s (before ++ x :: after) =
      finish b (if x.ends then deal b (reached b s before) x
        else converse b (deal b (reached b s before) x) after) := by
  rw [run_eq, heeded_append h, reached, List.foldl_append, heeded]
  cases x.ends with
  | true => rfl
  | false =>
    rw [converse_eq]
    rfl

end Session

namespace Station

variable {s s' s'' : Station β} {w : Surroundings β} {x : Reading} {xs ys : List Reading}
  {as : List (Action β)}

/-! ### A session with an engine -/

/-- Where readings lead a station: the calls they ask for are begun and over, and nothing else has
happened to its engine. -/
structure Leads (s : Station β) (xs : List Reading) (s' : Station β) : Prop where
  engine : s'.engine = { s.engine with next := s.engine.next + (orders xs).length }
  calls : callsMade s'.ran = callsMade s.ran ++ orders xs
  partings : ∀ source, partings source s'.ran = partings source s.ran

theorem takes_deal (hs : s.engine.Sound) (w : Surroundings β) (x : Reading) :
    s.Takes x (Session.deal (backend w) s x) := by
  cases h : x.order? with
  | some call =>
    obtain ⟨tool, v⟩ := call
    obtain ⟨result, he⟩ := hs.errand (w.call s.engine.next) s.registry tool v
    have hdeal : Session.deal (backend w) s x = (s.act (s.engine.alone s.registry
        (w.call s.engine.next) (.invokeValue tool v))).print (.ofResult result) := by
      rw [Session.deal, Session.step_of_order h]
      simp only [backend, he.returns]
      rfl
    rw [hdeal]
    exact .call tool v _ result h he
  | none =>
    rcases Session.step_of_idle h (backend w) s with hstep | ⟨p, hstep⟩
    · rw [Session.deal, hstep]
      simpa using Takes.idle (s := s) h [] (Nat.zero_le 1)
    · rw [Session.deal, hstep]
      exact .idle h [p] (Nat.le_refl 1)

theorem Takes.leads (h : s.Takes x s') : s.Leads [x] s' := by
  cases h with
  | call tool v as result h he =>
    have horders : orders [x] = [(tool, v)] := by rw [orders, List.filterMap_cons, h]; rfl
    obtain ⟨turns, rfl, hown⟩ := he.begins
    refine ⟨?_, ?_, fun source => ?_⟩
    · rw [horders]
      exact he.leaves
    · have hnone : turns.filterMap Action.order? = [] :=
        List.filterMap_eq_nil_iff.2 fun a ha => Action.order?_of_concerns (hown a ha)
      have hfirst : (.invokeValue tool v :: turns).filterMap Action.order? = [(tool, v)] :=
        congrArg ((tool, v) :: ·) hnone
      show callsMade (s.ran ++ _) = _
      rw [callsMade_append, callsMade_record, hfirst, horders]
    · show partings source (s.ran ++ _) = _
      rw [partings_append, he.spares, List.append_nil]
  | idle h ps hp =>
    have horders : orders [x] = [] := by rw [orders, List.filterMap_cons, h]; rfl
    refine ⟨?_, ?_, fun source => rfl⟩
    · rw [horders]
      rfl
    · rw [horders, List.append_nil]

theorem Leads.trans (h : s.Leads xs s') (h' : s'.Leads ys s'') : s.Leads (xs ++ ys) s'' where
  engine := by
    rw [h'.engine, h.engine, orders_append, List.length_append, ← Nat.add_assoc]
  calls := by rw [h'.calls, h.calls, orders_append, List.append_assoc]
  partings source := (h'.partings source).trans (h.partings source)

theorem Leads.sound (h : s.Leads xs s') (hs : s.engine.Sound) : s'.engine.Sound := by
  rw [h.engine]
  exact hs.of_eq hs.keyed (Nat.le_add_right _ _) rfl

/-- A session leaves the engine of its station as it was, but for the numbers of its calls. -/
theorem leads (hs : s.engine.Sound) (w : Surroundings β) (xs : List Reading) :
    s.Leads xs (xs.foldl (Session.deal (backend w)) s) := by
  induction xs generalizing s with
  | nil => exact ⟨rfl, (List.append_nil _).symm, fun _ => rfl⟩
  | cons x xs ih =>
    have hfirst := (takes_deal hs w x).leads
    exact hfirst.trans (ih (hfirst.sound hs))

theorem callsMade_finish (w : Surroundings β) (s : Station β) :
    callsMade (Session.finish (backend w) s).ran = callsMade s.ran := by
  have hnone : (s.engine.closing (w.parting s.engine.kept)).filterMap Action.order? = [] := by
    rw [Engine.closing, List.filterMap_cons, List.filterMap_append, List.filterMap_map]
    exact List.append_eq_nil_iff.2 ⟨List.filterMap_eq_nil_iff.2 fun _ _ => rfl, rfl⟩
  have hran : (Session.finish (backend w) s).ran = s.ran ++ s.engine.record s.registry
    (s.engine.closing (w.parting s.engine.kept)) := rfl
  rw [hran, callsMade_append, callsMade_record, hnone, List.append_nil]

/-- The calls that a session makes are those that are asked for before it ends. -/
theorem callsMade_run (hs : s.engine.Sound) (w : Surroundings β) (xs : List Reading) :
    callsMade (Session.run (backend w) s xs).ran = callsMade s.ran ++ orders (heeded xs) := by
  rw [Session.run_eq, callsMade_finish]
  exact (leads (s := Session.greet (backend w) s) hs w (heeded xs)).calls

theorem finish_ends (w : Surroundings β) (hs : s.engine.Sound)
    (hx : ∀ x ∈ s.engine.enrolments, x.id < s.engine.next)
    (hy : ∀ y ∈ s.engine.closings, y.id < s.engine.next) :
    let final := Session.finish (backend w) s
    final.engine = { s.engine with kept := [], next := s.engine.next + 1 } ∧
      callsMade final.ran = callsMade s.ran ∧
      ∀ source, partings source final.ran =
        partings source s.ran ++ List.replicate (s.engine.kept.count source) s.engine.next := by
  intro final
  obtain ⟨hafter, heffects⟩ := hs.closing hx hy s.registry (w.parting_perm s.engine.kept)
  refine ⟨congrArg Prod.fst hafter, callsMade_finish w s, fun source => ?_⟩
  have hran : final.ran = s.ran ++ s.engine.record s.registry
    (s.engine.closing (w.parting s.engine.kept)) := rfl
  have hclosing : partings source (s.engine.record s.registry
      (s.engine.closing (w.parting s.engine.kept))) =
        List.replicate (s.engine.kept.count source) s.engine.next := by
    rw [partings_effects, heffects, List.filterMap_append, partings_shutdown]
    exact List.append_nil _
  rw [hran, partings_append, hclosing]

end Station

/-- What a session does, whatever is typed, whatever the engine has been through and however its
handlers, tools and sources answer. The calls made are those that the readings ask for up to the one
that ends the session; then the sources kept are disconnected, each once, by one shutdown. A reading
finds the engine with no call under way, and whether it asks for a call that succeeds, for one that
is refused or fails, or for none, the session goes on unless the reading ends it. -/
theorem session_run (w : Surroundings β) (r : Registry) (as : List (Action β))
    (xs : List Reading) :
    let e := (Engine.after ∅ r as).1
    let start : Station β := ⟨e, (Engine.after ∅ r as).2, [], []⟩
    let b := Station.backend w
    let final := Session.run b start xs
    let calls := orders (heeded xs)
    callsMade final.ran = calls ∧
    (∀ source,
      partings source final.ran = List.replicate (e.kept.count source) (e.next + calls.length)) ∧
    final.engine = { e with kept := [], next := e.next + calls.length + 1 } ∧
    ∀ before x after, xs = before ++ x :: after → (∀ y ∈ before, y.ends = false) →
      let s := Session.reached b start before
      s.engine = { e with next := e.next + (orders before).length } ∧
      s.Takes x (Session.deal b s x) ∧
      final = Session.finish b
        (if x.ends then Session.deal b s x else Session.converse b (Session.deal b s x) after) := by
  intro e start b final calls
  have hsound : e.Sound := Engine.sound_after r as
  have hleads (ys : List Reading) :
      (Session.greet b start).Leads ys (Session.reached b start ys) :=
    Station.leads (s := Session.greet b start) hsound w ys
  have hheeded := hleads (heeded xs)
  have hnumbers (n : Nat) : e.next ≤ e.next + n := Nat.le_add_right _ _
  obtain ⟨hends, hcalls, hpartings⟩ := Station.finish_ends w (hheeded.sound hsound)
    (by
      rw [hheeded.engine]
      exact fun x hx => Nat.lt_of_lt_of_le ((Engine.orderly_after r as).below x hx) (hnumbers _))
    (by
      rw [hheeded.engine]
      exact fun y hy => Nat.lt_of_lt_of_le (Engine.closings_below r as y hy) (hnumbers _))
  rw [← Session.run_eq] at hends hcalls hpartings
  refine ⟨?_, fun source => ?_, ?_, ?_⟩
  · rw [hcalls, hheeded.calls]
    rfl
  · rw [hpartings, hheeded.partings, hheeded.engine]
    rfl
  · rw [hends, hheeded.engine]
    rfl
  · rintro before x after rfl hbefore s
    exact ⟨(hleads before).engine, Station.takes_deal ((hleads before).sound hsound) w x,
      Session.run_append b start hbefore x after⟩

/-- Every handler denies, and every tool does what it is asked to. -/
def refusing : Surroundings Unit where
  call _ := { agreeable with confirm := fun _ _ _ => .ok false }
  parting sources := sources.reverse
  parting_perm sources := sources.reverse_perm

/-- Two tools and a source are registered. -/
def furnished : List (Action Unit) :=
  [.register gatedShellTool, .register (Catalog.shellTool "ls"), .enrol 7 "remote" ∅,
    .list 0 (.ok [.ofName "fetch"]), .advance 0, .advance 0]

/-- What is typed: calls that succeed, are denied and fail, what calls nothing, and a call after the
end. -/
def typed : List Reading :=
  [.line "  ls ", .interrupted, .line "/tools basic", .line "", .line "rm \x7b\"force\": tru",
    .line "rm \t\x7b\"force\": true\x7d", .line "mv []", .line " /quit now", .line "ls"]

theorem session_run_typed :
    let e := (Engine.after ∅ (.empty 0) furnished).1
    let start : Station Unit := ⟨e, (Engine.after ∅ (.empty 0) furnished).2, [], []⟩
    let final := Session.run (Station.backend refusing) start typed
    e.kept = [7] ∧
      callsMade final.ran =
        [("ls", .object []), ("rm", .object [("force", .bool true)]), ("mv", .array [])] ∧
      partings 7 final.ran = [4] ∧ final.engine.kept = [] ∧ final.engine.next = 5 := by
  intro e start final
  obtain ⟨hcalls, hpartings, hends, -⟩ := session_run refusing (.empty 0) furnished typed
  have horders : orders (heeded typed) =
      [("ls", .object []), ("rm", .object [("force", .bool true)]), ("mv", .array [])] := by
    decide +kernel
  have hkept : e.kept = [7] := by decide +kernel
  have hnext : e.next = 1 := by decide +kernel
  have hparted : partings 7 final.ran = List.replicate (e.kept.count 7) (e.next + 3) := by
    rw [hpartings 7, horders]
    rfl
  have hlast : final.engine.next = e.next + 3 + 1 := by
    rw [hends, horders]
    rfl
  refine ⟨hkept, hcalls.trans horders, ?_, ?_, ?_⟩
  · rw [hparted, hkept, hnext]
    decide
  · rw [hends]
  · rw [hlast, hnext]

end Shell

end GatedCalls
