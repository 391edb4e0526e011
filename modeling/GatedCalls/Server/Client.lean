import GatedCalls.Http.Header
import GatedCalls.Server.Answer
import GatedCalls.Server.Transport

/-!
# The client of a tool server

A client starts its server when it is first needed and keeps it until it is told to disconnect. Its
operations share one lock: starting and stopping the server need it alone, while requests hold it
together with others until they are answered. A request first makes sure that there is a server,
gives the lock back, and takes it again to use the server it finds.

`Client.step` moves any number of operations, one at a time.
-/

namespace GatedCalls.Server

/-- What a client is asked to do. -/
inductive Demand
  | connect
  | list
  | call (tool : String) (args : Args)
  | disconnect
deriving DecidableEq

/-- How far an operation has come. -/
inductive Demand.Stage
  /-- It waits for the lock alone, to make sure that there is a server. -/
  | connecting
  /-- It has the lock alone while the server with this number starts. -/
  | starting (service : Nat)
  /-- It waits for a share of the lock. -/
  | entering
  /-- It has a share of the lock and waits for the answer of the server. -/
  | using (service : Nat)
  /-- It waits for the lock alone, to stop the server. -/
  | leaving
  /-- It has the lock alone while the server stops. -/
  | stopping (service : Nat)
deriving DecidableEq

namespace Demand.Stage

def holdsAlone : Stage → Bool
  | starting _ | stopping _ => true
  | _ => false

def holdsShare : Stage → Bool
  | .using _ => true
  | _ => false

end Demand.Stage

structure Operation where
  id : Nat
  demand : Demand
  stage : Demand.Stage
deriving DecidableEq

/-- A client: its server, if it runs, the number of servers it tried to start, the operations in
flight, and the number of the next one. -/
structure Client where
  config : Config
  service : Option Nat
  started : Nat
  operations : List Operation
  next : Nat

/-- Why a server does not run. -/
inductive StartFailure
  | spawn (text : String)
  | handshake (text : String)

/-- What a server is asked. -/
inductive Query
  | list
  | call (tool : String) (args : Args)
deriving DecidableEq

/-- What a server answers. -/
inductive Answer
  | tools (tools : List ListedTool)
  | result (value : Json)

/-- What an operation gives. -/
inductive Gain
  | done
  | declarations (ds : List Declaration)
  | response (r : Response)

namespace Client

inductive Action
  | demand (d : Demand)
  /-- A server has started, or could not. -/
  | started (id : Nat) (result : Except StartFailure Unit)
  | answered (id : Nat) (result : Except Refusal Answer)
  /-- A server has stopped, or stopping it failed. -/
  | stopped (id : Nat) (failure : Option String)
  | cancel (id : Nat)
  | advance (id : Nat)

inductive Effect
  | start (id service : Nat)
  | ask (id service : Nat) (query : Query)
  | stop (id service : Nat)
  | returned (id : Nat) (result : Except SourceError Gain)

def ofConfig (config : Config) : Client := ⟨config, none, 0, [], 0⟩

instance : Inhabited Client := ⟨ofConfig default⟩

def isConnected (c : Client) : Bool := c.service.isSome

/-- Nobody has the lock. -/
def isFree (c : Client) : Bool :=
  c.operations.all fun o => !o.stage.holdsAlone && !o.stage.holdsShare

/-- Nobody has the lock alone. -/
def isOpen (c : Client) : Bool := c.operations.all fun o => !o.stage.holdsAlone

def notConnected : SourceError := .connection "Not connected"

/-- What is wrong with the headers of the server's address. -/
def headerError? (t : Transport) : Option SourceError :=
  match t with
  | .stdio .. => none
  | .http _ headers =>
    headers.toList.findSome? fun e => (Http.headerFault? e.1 e.2).map fun f =>
      match f with
      | .name => .config ("Invalid header name '" ++ e.1 ++ "': " ++ f.message)
      | .value => .config ("Invalid header value for '" ++ e.1 ++ "': " ++ f.message)

/-- The error of a server that does not start. -/
def startError (config : Config) : StartFailure → SourceError
  | .spawn text =>
    match config.transport with
    | .stdio command .. => .transport ("Failed to spawn '" ++ command ++ "': " ++ text)
    | .http .. => .transport ("Failed to create HTTP client: " ++ text)
  | .handshake text =>
    match config.transport with
    | .stdio .. => .connection ("Failed to connect to '" ++ config.name ++ "': " ++ text)
    | .http url _ => .connection ("Failed to connect to " ++ url ++ ": " ++ text)

/-- What a demand asks the server, if it does. -/
def query? : Demand → Option Query
  | .list => some .list
  | .call tool args => some (.call tool args)
  | .connect | .disconnect => none

/-- The outcome of a request. -/
def gain (d : Demand) : Except Refusal Answer → Except SourceError Gain
  | .ok (.tools ts) => .ok (.declarations (ts.map ListedTool.declaration))
  | .ok (.result v) => (responseOfResult v).map .response
  | .error refusal =>
    match d with
    | .list => .error (.protocol ("Failed to list tools: " ++ refusal.text))
    | _ => .error (.toolExecution ("Tool execution failed: " ++ refusal.text))

def operation? (c : Client) (id : Nat) : Option Operation := c.operations.find? (·.id == id)

def setStage (c : Client) (id : Nat) (s : Demand.Stage) : Client :=
  { c with
    operations := c.operations.map fun o => if o.id = id then { o with stage := s } else o }

def drop (c : Client) (id : Nat) : Client :=
  { c with operations := c.operations.filter (·.id != id) }

def conclude (c : Client) (id : Nat) (result : Except SourceError Gain) : Client × List Effect :=
  (c.drop id, [.returned id result])

/-- Goes on once there is a server: a connection is all that was wanted, or the server is used. -/
def connected (c : Client) (o : Operation) : Client × List Effect :=
  match query? o.demand with
  | none => c.conclude o.id (.ok .done)
  | some _ => (c.setStage o.id .entering, [])

/-- Moves an operation on, if the lock lets it. -/
def advance (c : Client) (o : Operation) : Client × List Effect :=
  match o.stage with
  | .connecting =>
    if !c.isFree then (c, [])
    else if c.service.isSome then c.connected o
    else
      match headerError? c.config.transport with
      | some e => c.conclude o.id (.error e)
      | none =>
        ({ c with started := c.started + 1 }.setStage o.id (.starting c.started),
          [.start o.id c.started])
  | .entering =>
    if !c.isOpen then (c, [])
    else
      match c.service, query? o.demand with
      | some n, some q => (c.setStage o.id (.using n), [.ask o.id n q])
      | _, _ => c.conclude o.id (.error notConnected)
  | .leaving =>
    if !c.isFree then (c, [])
    else
      match c.service with
      | some n => ({ c with service := none }.setStage o.id (.stopping n), [.stop o.id n])
      | none => c.conclude o.id (.ok .done)
  | .starting _ | .using _ | .stopping _ => (c, [])

def start (c : Client) (d : Demand) : Client :=
  { c with
    operations := c.operations ++
      [⟨c.next, d, if d = .disconnect then .leaving else .connecting⟩]
    next := c.next + 1 }

def step (c : Client) : Action → Client × List Effect
  | .demand d => (c.start d, [])
  | .started id result =>
    match c.operation? id, result with
    | some ⟨id, d, .starting n⟩, .ok () =>
      { c with service := some n }.connected ⟨id, d, .starting n⟩
    | some ⟨_, _, .starting _⟩, .error f => c.conclude id (.error (startError c.config f))
    | _, _ => (c, [])
  | .answered id result =>
    match c.operation? id with
    | some ⟨_, d, .using _⟩ => c.conclude id (gain d result)
    | _ => (c, [])
  | .stopped id failure =>
    match c.operation? id with
    | some ⟨_, _, .stopping _⟩ =>
      c.conclude id (match failure with
        | none => .ok .done
        | some text => .error (.connection ("Failed to disconnect: " ++ text)))
    | _ => (c, [])
  | .cancel id => (c.drop id, [])
  | .advance id =>
    match c.operation? id with
    | some o => c.advance o
    | none => (c, [])

end Client

end GatedCalls.Server
