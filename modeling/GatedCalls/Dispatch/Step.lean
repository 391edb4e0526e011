import GatedCalls.Dispatch.Engine

/-!
# The steps of the engine

`Engine.step` says how the engine and the registry it asks change when something happens, and what
the engine does in answer. Each operation in flight is moved on by steps of its own, so any number
of them may interleave; an answer from outside only changes the stage of the operation it is for. A
gated tool runs only from the stage `cleared`, which its call enters when its handler has answered
that it may.
-/

namespace GatedCalls

/-- What can happen to an engine. -/
inductive Action (β : Type)
  | register (entry : Entry β)
  | addHook
  | removeHook (hook : Nat)
  | setHandler (h : Handler)
  /-- A caller calls a tool. -/
  | invoke (name : String) (args : Args)
  /-- A caller calls a tool with any value for arguments. -/
  | invokeValue (name : String) (args : Json)
  /-- A caller registers the tools of a remote source. -/
  | enrol (source : Nat) (group : String) (gated : NameSet)
  /-- A caller asks for all sources to be disconnected. -/
  | shutdown
  /-- The handler of a call answers. -/
  | answer (id : Nat) (result : Except ConfirmationError Bool)
  /-- The tool of a call is done. -/
  | finish (id : Nat) (result : Except ToolError Response)
  /-- The source of a call's tool has answered. -/
  | reply (id : Nat) (result : Except SourceError Response)
  /-- The source of a registration has listed its tools. -/
  | list (id : Nat) (result : Except SourceError (List Declaration))
  /-- A source was disconnected, or could not be. -/
  | disconnected (id source : Nat)
  /-- The caller gives an operation up. -/
  | cancel (id : Nat)
  /-- An operation goes on, if it waits for nothing. -/
  | advance (id : Nat)

/-- What an engine does. -/
inductive Effect (β : Type)
  | added (name : String) (result : Except CatalogError Unit)
  | hookAdded (hook : Nat)
  | hookRemoved (hook : Nat) (found : Bool)
  | emitted (event : DispatchEvent)
  | delivered (hook : Nat) (event : DispatchEvent)
  /-- The handler is asked on behalf of a call. -/
  | asked (id : Nat) (handler : Handler) (name : String) (args : Args)
  /-- A tool is run. -/
  | ran (id : Nat) (code : β) (args : Args)
  /-- A tool is run by the source that declared it. -/
  | forwarded (id source : Nat) (name : String) (args : Args)
  | returned (id : Nat) (result : Except DispatchError Response)
  /-- A source is asked for its tools. -/
  | listed (id source : Nat)
  | disconnecting (id source : Nat)
  | enrolled (id : Nat) (result : Except ReportedError Nat)
  | shutDown (id : Nat)

/-- The outcome of a tool that ran at its source. -/
def remoteOutcome : Except SourceError Response → Except ToolError Response
  | .ok r => .ok r
  | .error e => .error (.custom ("remote tool error: " ++ e.message))

/-- What a value that is no object is called. -/
def Json.kind : Json → String
  | .null => "null"
  | .bool _ => "a boolean"
  | .number _ => "a number"
  | .string _ => "a string"
  | .array _ => "an array"
  | .object _ => "an object"

/-- The state after a step and what was done. -/
structure Outcome (β : Type) where
  engine : Engine β
  registry : Registry
  effects : List (Effect β)

namespace Engine

variable {β : Type}

/-- The effects of an event: it happens, and every hook is told. -/
def emit (e : Engine β) (event : DispatchEvent) : List (Effect β) :=
  .emitted event :: e.hooks.map fun h => .delivered h event

/-- Starts a call, unless there is no such tool. -/
def invoke (e : Engine β) (name : String) (args : Args) : Engine β × List (Effect β) :=
  match e.lookup name with
  | .ok entry =>
    ({ e with calls := e.calls ++ [⟨e.next, entry, args, .found⟩], next := e.next + 1 }, [])
  | .error err => ({ e with next := e.next + 1 }, [.returned e.next (.error (.catalog err))])

/-- Starts a call if the arguments are an object. -/
def invokeValue (e : Engine β) (name : String) (args : Json) : Engine β × List (Effect β) :=
  match args.asArgs? with
  | some args => e.invoke name args
  | none =>
    ({ e with next := e.next + 1 },
      [.returned e.next (.error (.invalidArguments name
        ("expected a JSON object, got " ++ args.kind)))])

def enrol (e : Engine β) (source : Nat) (group : String) (gated : NameSet) :
    Engine β × List (Effect β) :=
  ({ e with
      enrolments := e.enrolments ++ [⟨e.next, source, group, gated, .listing⟩],
      next := e.next + 1 },
    [.listed e.next source])

/-- Takes the sources that are kept and has them disconnected. -/
def shutdown (e : Engine β) : Engine β × List (Effect β) :=
  ({ e with closings := e.closings ++ [⟨e.next, e.kept⟩], kept := [], next := e.next + 1 },
    e.kept.map fun s => .disconnecting e.next s)

/-- Runs the tool of a call. -/
def run (c : Call β) : Effect β :=
  match c.entry.tool.body with
  | .own code => .ran c.id code c.args
  | .remote source => .forwarded c.id source c.entry.tool.name c.args

/-- The end of a call. -/
def conclude (e : Engine β) (c : Call β) (kind : DispatchEvent.Kind)
    (result : Except DispatchError Response) : Engine β × List (Effect β) :=
  (e.dropCall c.id, e.emit ⟨c.id, c.entry.name, kind⟩ ++ [.returned c.id result])

/-- Moves a call on. -/
def advanceCall (e : Engine β) (r : Registry) (c : Call β) : Outcome β :=
  let goTo (s : Stage) (effects : List (Effect β)) : Outcome β := ⟨e.setStage c.id s, r, effects⟩
  let finish (kind : DispatchEvent.Kind) (result : Except DispatchError Response) : Outcome β :=
    let (e', effects) := e.conclude c kind result
    ⟨e', r, effects⟩
  let name := c.entry.name
  match c.stage with
  | .found =>
    goTo (if c.entry.gated then .gate else .cleared) (e.emit ⟨c.id, name, .requested c.args⟩)
  | .gate =>
    match r.look with
    | some h => goTo (.chosen h) []
    | none => goTo .unset []
  | .unset =>
    let (r', h) := r.fill
    ⟨e.setStage c.id (.chosen h), r', []⟩
  | .chosen h => goTo (.presented h) (e.emit ⟨c.id, name, .confirmationRequested h.name⟩)
  | .presented h => goTo (.asking h) [.asked c.id h name c.args]
  | .answered (.ok true) => goTo .cleared (e.emit ⟨c.id, name, .confirmationGranted⟩)
  | .answered (.ok false) => finish .confirmationDeclined (.ok (Response.declined name))
  | .answered (.error err) =>
    finish (.confirmationFailed err.message) (.error (.confirmation name err))
  | .cleared => goTo .running [run c]
  | .ended (.ok output) => finish (.completed output) (.ok output)
  | .ended (.error err) => finish (.failed err.message) (.error (.tool name err))
  | .asking _ | .running => ⟨e, r, []⟩

/-- Moves a registration on. The tools of a source are added as one batch, and the source is kept if
they were. -/
def advanceEnrolment (e : Engine β) (x : Enrolment) : Engine β × List (Effect β) :=
  match x.stage with
  | .listed (.error err) => (e.dropEnrolment x.id, [.enrolled x.id (.error err.report)])
  | .listed (.ok declarations) =>
    match e.catalog.registerAll (Declaration.entries β x.source x.group x.gated declarations) with
    | .ok (catalog, count) =>
      ({ e with catalog := catalog }.setEnrolStage x.id (.committed count), [])
    | .error err => (e.setEnrolStage x.id (.rejecting err), [.disconnecting x.id x.source])
  | .committed count =>
    ({ e with kept := e.kept ++ [x.source] }.dropEnrolment x.id, [.enrolled x.id (.ok count)])
  | .rejected err => (e.dropEnrolment x.id, [.enrolled x.id (.error err.report)])
  | .listing | .rejecting _ => (e, [])

/-- Moves a shutdown on: it returns when every source has answered. -/
def advanceClosing (e : Engine β) (x : Closing) : Engine β × List (Effect β) :=
  if x.pending.isEmpty then (e.dropClosing x.id, [.shutDown x.id]) else (e, [])

/-- Moves an operation on. -/
def advance (e : Engine β) (r : Registry) (id : Nat) : Outcome β :=
  match e.call? id with
  | some c => e.advanceCall r c
  | none =>
    let (e', effects) := match e.enrolment? id, e.closing? id with
      | some x, _ => e.advanceEnrolment x
      | none, some x => e.advanceClosing x
      | none, none => (e, [])
    ⟨e', r, effects⟩

/-- Changes the stage of a call, if it waits for its handler. -/
def answer (e : Engine β) (id : Nat) (result : Except ConfirmationError Bool) : Engine β :=
  match e.stage? id with
  | some (.asking _) => e.setStage id (.answered result)
  | _ => e

/-- Changes the stage of a call, if it waits for a tool of the given kind. -/
def finish (e : Engine β) (id : Nat) (remote : Bool) (result : Except ToolError Response) :
    Engine β :=
  match e.call? id with
  | some ⟨_, entry, _, .running⟩ =>
    match entry.tool.body, remote with
    | .own _, false | .remote _, true => e.setStage id (.ended result)
    | _, _ => e
  | _ => e

def list (e : Engine β) (id : Nat) (result : Except SourceError (List Declaration)) : Engine β :=
  match e.enrolStage? id with
  | some .listing => e.setEnrolStage id (.listed result)
  | _ => e

/-- A source has answered that it is disconnected. -/
def disconnected (e : Engine β) (id source : Nat) : Engine β :=
  match e.enrolStage? id with
  | some (.rejecting err) => e.setEnrolStage id (.rejected err)
  | _ =>
    { e with
      closings := e.closings.map fun x =>
        if x.id = id then { x with pending := x.pending.erase source } else x }

/-- Gives an operation up where it is suspended. -/
def cancel (e : Engine β) (id : Nat) : Engine β :=
  { e with
    calls := e.calls.filter fun c => !(c.id == id && c.stage.isSuspended)
    enrolments := e.enrolments.filter fun x => !(x.id == id && x.stage.isSuspended)
    closings := e.closings.filter fun x => !(x.id == id && !x.pending.isEmpty) }

/-- One step of the engine and its registry. -/
def step (e : Engine β) (r : Registry) : Action β → Outcome β
  | .register entry =>
    match e.register entry with
    | .ok e' => ⟨e', r, [.added entry.name (.ok ())]⟩
    | .error err => ⟨e, r, [.added entry.name (.error err)]⟩
  | .addHook =>
    let (e', hook) := e.addHook
    ⟨e', r, [.hookAdded hook]⟩
  | .removeHook hook =>
    let (e', found) := e.removeHook hook
    ⟨e', r, [.hookRemoved hook found]⟩
  | .setHandler h => ⟨e, r.set h, []⟩
  | .invoke name args => let (e', effects) := e.invoke name args; ⟨e', r, effects⟩
  | .invokeValue name args => let (e', effects) := e.invokeValue name args; ⟨e', r, effects⟩
  | .enrol source group gated => let (e', effects) := e.enrol source group gated; ⟨e', r, effects⟩
  | .shutdown => let (e', effects) := e.shutdown; ⟨e', r, effects⟩
  | .answer id result => ⟨e.answer id result, r, []⟩
  | .finish id result => ⟨e.finish id false result, r, []⟩
  | .reply id result => ⟨e.finish id true (remoteOutcome result), r, []⟩
  | .list id result => ⟨e.list id result, r, []⟩
  | .disconnected id source => ⟨e.disconnected id source, r, []⟩
  | .cancel id => ⟨e.cancel id, r, []⟩
  | .advance id => e.advance r id

end Engine

end GatedCalls
