import GatedCalls.Dispatch.Step
import GatedCalls.Proofs.Catalog

/-!
# The life of one call

What a step of the engine means for the call with one number. `Standing` is where the number is: not
given out, a call in flight, or over. `Moment.notes` is what a step shows of the call: that it was
made, what observers are told, that its handler is asked and answers, that its tool runs and is
done, that it returns or is given up. `Move` lists every way in which a standing can change, with
the notes that go with it, and `step_move` says that each step of the engine is one of them for each
number; what holds of all runs is proved from `Move` alone. `Call.next` is the move of a call that
goes on by itself.
-/

namespace GatedCalls

/-- Something that a run shows of one call. -/
inductive Note (β : Type)
  | called (name : String) (args : Args) (entry : Entry β)
  /-- Observers were told. -/
  | told (name : String) (kind : DispatchEvent.Kind)
  | asked (handler : Handler) (name : String) (args : Args)
  | answered (result : Except ConfirmationError Bool)
  /-- The tool was set to work. -/
  | executed (x : Effect β)
  | finished (result : Except ToolError Response)
  | returned (result : Except DispatchError Response)
  | cancelled

/-- Where the call with a number is. -/
inductive Standing (β : Type)
  /-- The number was not given out. -/
  | fresh
  | active (c : Call β)
  /-- The call has ended, or the number went to something else. -/
  | over

variable {β : Type}

def Call.at (c : Call β) (s : Stage) : Call β := { c with stage := s }

/-- Whether the call waits for a tool: its own, or one at a source. -/
def Call.awaitsTool (c : Call β) (remote : Bool) : Bool :=
  match c.stage, c.entry.tool.body, remote with
  | .running, .own _, false | .running, .remote _, true => true
  | _, _, _ => false

/-- The note about the call `id` in an effect. -/
def Effect.note? (id : Nat) : Effect β → Option (Note β)
  | .emitted event => if event.call = id then some (.told event.name event.kind) else none
  | .asked i h name args => if i = id then some (.asked h name args) else none
  | .ran i code args => if i = id then some (.executed (.ran i code args)) else none
  | .forwarded i source name args =>
    if i = id then some (.executed (.forwarded i source name args)) else none
  | .returned i result => if i = id then some (.returned result) else none
  | .added .. | .hookAdded _ | .hookRemoved .. | .delivered .. | .listed .. | .disconnecting ..
  | .enrolled .. | .shutDown _ => none

/-- A step of a run: the engine and the registry before it, and what happens. -/
structure Moment (β : Type) where
  engine : Engine β
  registry : Registry
  action : Action β

namespace Engine

/-- Where the call with a number is. -/
def standing (e : Engine β) (id : Nat) : Standing β :=
  if e.next ≤ id then .fresh
  else match e.call? id with
    | some c => .active c
    | none => .over

/-- The call that a request for a tool starts. -/
def callNote (e : Engine β) (id : Nat) (name : String) (args : Args) : List (Note β) :=
  match e.lookup name with
  | .ok entry => if e.next = id then [.called name args entry] else []
  | .error _ => []

def awaitsAnswer (e : Engine β) (id : Nat) : Bool :=
  match e.stage? id with
  | some (.asking _) => true
  | _ => false

end Engine

namespace Moment

def outcome (m : Moment β) : Outcome β := m.engine.step m.registry m.action

def effects (m : Moment β) : List (Effect β) := m.outcome.effects

/-- What happens to the call `id` from outside. -/
def given (m : Moment β) (id : Nat) : List (Note β) :=
  match m.action with
  | .invoke name args => m.engine.callNote id name args
  | .invokeValue name v =>
    match v.asArgs? with
    | some args => m.engine.callNote id name args
    | none => []
  | .answer i result => if i = id ∧ m.engine.awaitsAnswer id then [.answered result] else []
  | .finish i result =>
    if i = id ∧ (m.engine.call? id).any (·.awaitsTool false) then [.finished result] else []
  | .reply i result =>
    if i = id ∧ (m.engine.call? id).any (·.awaitsTool true) then
      [.finished (remoteOutcome result)]
    else []
  | .cancel i =>
    if i = id ∧ (m.engine.call? id).any (·.stage.isSuspended) then [.cancelled] else []
  | _ => []

/-- All that the step shows of the call `id`. -/
def notes (m : Moment β) (id : Nat) : List (Note β) :=
  m.given id ++ m.effects.filterMap (Effect.note? id)

end Moment

/-- One change of a call's standing and the notes that go with it; `r` is the registry before. -/
inductive Move (id : Nat) (r : Registry) : Standing β → List (Note β) → Standing β → Prop
  | rest (x : Standing β) : Move id r x [] x
  /-- The number goes to a registration or a shutdown. -/
  | spend : Move id r .fresh [] .over
  | begin (name : String) (args : Args) (entry : Entry β) (h : entry.name = name) :
    Move id r .fresh [.called name args entry] (.active ⟨id, entry, args, .found⟩)
  | refuse (err : DispatchError) : Move id r .fresh [.returned (.error err)] .over
  | request (c : Call β) (h : c.stage = .found) :
    Move id r (.active c) [.told c.entry.name (.requested c.args)]
      (.active (c.at (if c.entry.gated then .gate else .cleared)))
  | miss (c : Call β) (h : c.stage = .gate) (hr : r.active = none) :
    Move id r (.active c) [] (.active (c.at .unset))
  | choose (c : Call β) (h : c.stage = .gate ∨ c.stage = .unset) :
    Move id r (.active c) [] (.active (c.at (.chosen r.fill.2)))
  | present (c : Call β) (handler : Handler) (h : c.stage = .chosen handler) :
    Move id r (.active c) [.told c.entry.name (.confirmationRequested handler.name)]
      (.active (c.at (.presented handler)))
  | ask (c : Call β) (handler : Handler) (h : c.stage = .presented handler) :
    Move id r (.active c) [.asked handler c.entry.name c.args] (.active (c.at (.asking handler)))
  | answer (c : Call β) (handler : Handler) (result : Except ConfirmationError Bool)
    (h : c.stage = .asking handler) :
    Move id r (.active c) [.answered result] (.active (c.at (.answered result)))
  | grant (c : Call β) (h : c.stage = .answered (.ok true)) :
    Move id r (.active c) [.told c.entry.name .confirmationGranted] (.active (c.at .cleared))
  | decline (c : Call β) (h : c.stage = .answered (.ok false)) :
    Move id r (.active c) [.told c.entry.name .confirmationDeclined,
      .returned (.ok (Response.declined c.entry.name))] .over
  | fail (c : Call β) (err : ConfirmationError) (h : c.stage = .answered (.error err)) :
    Move id r (.active c) [.told c.entry.name (.confirmationFailed err.message),
      .returned (.error (.confirmation c.entry.name err))] .over
  | execute (c : Call β) (h : c.stage = .cleared) :
    Move id r (.active c) [.executed (Engine.run c)] (.active (c.at .running))
  | finish (c : Call β) (result : Except ToolError Response) (h : c.stage = .running) :
    Move id r (.active c) [.finished result] (.active (c.at (.ended result)))
  | complete (c : Call β) (output : Response) (h : c.stage = .ended (.ok output)) :
    Move id r (.active c) [.told c.entry.name (.completed output), .returned (.ok output)] .over
  | break (c : Call β) (err : ToolError) (h : c.stage = .ended (.error err)) :
    Move id r (.active c) [.told c.entry.name (.failed err.message),
      .returned (.error (.tool c.entry.name err))] .over
  | cancel (c : Call β) (h : c.stage.isSuspended) : Move id r (.active c) [.cancelled] .over

/-- What is shown of a call that goes on, and where it is then. -/
def Call.next (r : Registry) (c : Call β) : List (Note β) × Standing β :=
  let goTo (s : Stage) (notes : List (Note β)) := (notes, .active (c.at s))
  let finish (kind : DispatchEvent.Kind) (result : Except DispatchError Response) :=
    ([.told c.entry.name kind, .returned result], .over)
  match c.stage with
  | .found =>
    goTo (if c.entry.gated then .gate else .cleared) [.told c.entry.name (.requested c.args)]
  | .gate =>
    match r.look with
    | some h => goTo (.chosen h) []
    | none => goTo .unset []
  | .unset => goTo (.chosen r.fill.2) []
  | .chosen h => goTo (.presented h) [.told c.entry.name (.confirmationRequested h.name)]
  | .presented h => goTo (.asking h) [.asked h c.entry.name c.args]
  | .answered (.ok true) => goTo .cleared [.told c.entry.name .confirmationGranted]
  | .answered (.ok false) =>
    finish .confirmationDeclined (.ok (Response.declined c.entry.name))
  | .answered (.error err) =>
    finish (.confirmationFailed err.message) (.error (.confirmation c.entry.name err))
  | .cleared => goTo .running [.executed (Engine.run c)]
  | .ended (.ok output) => finish (.completed output) (.ok output)
  | .ended (.error err) => finish (.failed err.message) (.error (.tool c.entry.name err))
  | .asking _ | .running => ([], .active c)

theorem Call.next_move (c : Call β) (id : Nat) (r : Registry) :
    Move id r (.active c) (c.next r).1 (c.next r).2 := by
  cases hst : c.stage with
  | found => simpa only [next, hst] using .request c hst
  | gate =>
    cases hr : r.look with
    | none => simpa only [next, hst, hr] using .miss c hst hr
    | some h =>
      have hf : r.fill.2 = h := by rw [Registry.fill, show r.active = some h from hr]
      simpa only [next, hst, hr, hf] using (.choose c (.inl hst) : Move id r _ _ _)
  | unset => simpa only [next, hst] using .choose c (.inr hst)
  | chosen h => simpa only [next, hst] using .present c h hst
  | presented h => simpa only [next, hst] using .ask c h hst
  | answered result =>
    match result with
    | .ok true => simpa only [next, hst] using .grant c hst
    | .ok false => simpa only [next, hst] using .decline c hst
    | .error err => simpa only [next, hst] using .fail c err hst
  | cleared => simpa only [next, hst] using .execute c hst
  | ended result =>
    cases result with
    | ok output => simpa only [next, hst] using .complete c output hst
    | error err => simpa only [next, hst] using .break c err hst
  | asking h | running => simpa only [next, hst] using .rest _

end GatedCalls
