import GatedCalls.Bench.Script
import GatedCalls.Loading

/-!
# Remote sources on the bench

The sources that an engine deals with: stubs, whose answers are fixed and which note what they are
asked, and clients of scripted servers. They are numbered in the order they come up. The operations
of a client get its lock in the order in which they came to wait for it.
-/

namespace GatedCalls.Bench

open Server (Client Config Demand Gain)

/-- A source with fixed answers. -/
structure StubSource where
  name : String
  listing : Except SourceError (List Declaration)
  answers : Dict (Except SourceError Response)
  calls : List (String × Args)
  disconnects : Nat

namespace StubSource

/-- The answer to a call; unless one is fixed, the source says what was called. -/
def answer (s : StubSource) (tool : String) : Except SourceError Response :=
  (s.answers.get? tool).getD (.ok (.ofText (s.name ++ " " ++ tool)))

def call (s : StubSource) (tool : String) (args : Args) :
    StubSource × Except SourceError Response :=
  ({ s with calls := s.calls ++ [(tool, args)] }, s.answer tool)

def disconnect (s : StubSource) : StubSource := { s with disconnects := s.disconnects + 1 }

end StubSource

/-- What an operation of a client came to. -/
abbrev Return := Nat × Except SourceError Gain

/-- A client, the server it runs, the operations that wait for its lock, in order, and the answers
that take their time, with the operations they are for. -/
structure Connection where
  client : Client
  process : Option Process
  line : List Nat
  late : List (Nat × Except Server.Refusal Server.Answer)

namespace Connection

def ofConfig (config : Config) : Connection := ⟨.ofConfig config, none, [], []⟩

def stage? (c : Connection) (id : Nat) : Option Demand.Stage :=
  (c.client.operation? id).map (·.stage)

def waitsForLock : Demand.Stage → Bool
  | .connecting | .entering | .leaving => true
  | .starting _ | .using _ | .stopping _ => false

/-- Puts an operation at the end of the line if it waits for the lock, and else takes it out. -/
def requeue (c : Connection) (id : Nat) : Connection :=
  { c with
    line := c.line.filter (· != id) ++ if (c.stage? id).any waitsForLock then [id] else [] }

/-- Moves an operation. -/
def act (c : Connection) (id : Nat) (a : Client.Action) : Connection × List Client.Effect :=
  let (client, effects) := c.client.step a
  ({ c with client := client }.requeue id, effects)

/-- Carries out what the client does for an operation, until that waits or is over. -/
def follow (shop : Workshop) (id : Nat) :
    Nat → Connection → List Client.Effect → Connection × List Return
  | 0, c, _ => (c, [])
  | fuel + 1, c, effects =>
    let go (process : Option Process) (a : Client.Action) :=
      let (c, effects) := { c with process := process }.act id a
      follow shop id fuel c effects
    match effects with
    | [] => (c, [])
    | .returned _ result :: _ => (c, [(id, result)])
    | .start .. :: _ =>
      match shop.start c.client.config.transport with
      | .ok p => go (some p) (.started id (.ok ()))
      | .error f => go none (.started id (.error f))
    | .ask _ _ q :: _ =>
      match c.process with
      | some p =>
        let (next, answer) := p.answer q
        if p.isSlow q then ({ c with process := some next, late := c.late ++ [(id, answer)] }, [])
        else go (some next) (.answered id answer)
      | none => go none (.answered id (.error .closed))
    | .stop .. :: _ => go none (.stopped id none)

/-- More turns than one operation takes to get the lock and to go on from there. -/
def turnBound : Nat := 8

/-- Gives the lock to the operations in line, until the first has to wait for it. -/
def serve (shop : Workshop) : Nat → Connection → Connection × List Return
  | 0, c => (c, [])
  | fuel + 1, c =>
    match c.line with
    | [] => (c, [])
    | id :: _ =>
      let (moved, effects) := c.act id (.advance id)
      if moved.stage? id = c.stage? id then (c, [])
      else
        let (c, returns) := follow shop id turnBound moved effects
        let (c, more) := serve shop fuel c
        (c, returns ++ more)

/-- Gives the lock to the operations in line as far as it goes. -/
def serveAll (shop : Workshop) (c : Connection) : Connection × List Return :=
  serve shop (turnBound * (c.line.length + 1)) c

/-- Starts an operation, gives its number, and lets all go on. -/
def start (shop : Workshop) (c : Connection) (d : Demand) : Connection × Nat × List Return :=
  let id := c.client.next
  let (c, _) := c.act id (.demand d)
  let (c, returns) := c.serveAll shop
  (c, id, returns)

/-- Lets the next answer arrive that takes its time. -/
def wait? (shop : Workshop) (c : Connection) : Option (Connection × List Return) :=
  match c.late with
  | [] => none
  | (id, answer) :: rest =>
    let (c, effects) := { c with late := rest }.act id (.answered id answer)
    let (c, returns) := follow shop id turnBound c effects
    let (c, more) := c.serveAll shop
    some (c, returns ++ more)

/-- Gives an operation up. -/
def abandon (shop : Workshop) (c : Connection) (id : Nat) : Connection × List Return :=
  let (c, _) := { c with late := c.late.filter (·.1 != id) }.act id (.cancel id)
  c.serveAll shop

/-- Lets time pass until an operation is over; `returns` tells which are. -/
def await (shop : Workshop) (id : Nat) :
    Nat → Connection → List Return → Connection × Except SourceError Gain
  | 0, c, _ => (c, .error Client.notConnected)
  | fuel + 1, c, returns =>
    match returns.lookup id, c.wait? shop with
    | some result, _ => (c, result)
    | none, some (c, returns) => await shop id fuel c returns
    | none, none => (c, .error Client.notConnected)

/-- Runs one operation from start to end. -/
def demand (shop : Workshop) (c : Connection) (d : Demand) : Connection × Except SourceError Gain :=
  let (c, id, returns) := c.start shop d
  c.await shop id (c.client.operations.length + 1) returns

end Connection

/-- The declarations that an operation gave. -/
def declarations : Except SourceError Gain → Except SourceError (List Declaration)
  | .ok (.declarations ds) => .ok ds
  | .ok _ => .ok []
  | .error e => .error e

/-- The response that an operation gave. -/
def response : Except SourceError Gain → Except SourceError Response
  | .ok (.response r) => .ok r
  | .ok _ => .ok (.ofBlocks [])
  | .error e => .error e

inductive Remote
  | stub (s : StubSource)
  | connection (c : Connection)

structure Remotes where
  shop : Workshop
  next : Nat
  sources : List (Nat × Remote)

namespace Remotes

def ofWorkshop (shop : Workshop) : Remotes := ⟨shop, 0, []⟩

/-- Adds a source and gives its number. -/
def add (r : Remotes) (remote : Remote) : Remotes × Nat :=
  ({ r with next := r.next + 1, sources := r.sources ++ [(r.next, remote)] }, r.next)

def get? (r : Remotes) (n : Nat) : Option Remote := r.sources.lookup n

def set (r : Remotes) (n : Nat) (remote : Remote) : Remotes :=
  { r with sources := r.sources.map fun e => if e.1 = n then (n, remote) else e }

def noSource : SourceError := .connection "no such source"

/-- The client with a number. -/
def client? (r : Remotes) (n : Nat) : Option Client :=
  match r.get? n with
  | some (.connection c) => some c.client
  | _ => none

/-- Runs one operation of a client. -/
def demand (r : Remotes) (n : Nat) (d : Demand) : Remotes × Except SourceError Gain :=
  match r.get? n with
  | some (.connection c) =>
    let (c, result) := c.demand r.shop d
    (r.set n (.connection c), result)
  | _ => (r, .error noSource)

def list (r : Remotes) (n : Nat) : Remotes × Except SourceError (List Declaration) :=
  match r.get? n with
  | some (.stub s) => (r, s.listing)
  | some (.connection c) =>
    let (c, result) := c.demand r.shop .list
    (r.set n (.connection c), declarations result)
  | none => (r, .error noSource)

def call (r : Remotes) (n : Nat) (tool : String) (args : Args) :
    Remotes × Except SourceError Response :=
  match r.get? n with
  | some (.stub s) =>
    let (s, result) := s.call tool args
    (r.set n (.stub s), result)
  | some (.connection c) =>
    let (c, result) := c.demand r.shop (.call tool args)
    (r.set n (.connection c), response result)
  | none => (r, .error noSource)

def disconnect (r : Remotes) (n : Nat) : Remotes :=
  match r.get? n with
  | some (.stub s) => r.set n (.stub s.disconnect)
  | some (.connection c) => r.set n (.connection (c.demand r.shop .disconnect).1)
  | none => r

/-- Starts an operation of a client and gives its number. -/
def start? (r : Remotes) (n : Nat) (d : Demand) : Option (Remotes × Nat × List Return) :=
  match r.get? n with
  | some (.connection c) =>
    let (c, id, returns) := c.start r.shop d
    some (r.set n (.connection c), id, returns)
  | _ => none

/-- Lets the next answer arrive that takes its time, and says of which source it is. -/
def wait? (r : Remotes) : Option (Remotes × Nat × List Return) :=
  r.sources.findSome? fun
    | (n, .connection c) =>
      (c.wait? r.shop).map fun (c, returns) => (r.set n (.connection c), n, returns)
    | (_, .stub _) => none

/-- Gives an operation of a client up. -/
def abandon (r : Remotes) (n id : Nat) : Remotes × List Return :=
  match r.get? n with
  | some (.connection c) =>
    let (c, returns) := c.abandon r.shop id
    (r.set n (.connection c), returns)
  | _ => (r, [])

/-- The exchange with these sources. -/
def exchange : Exchange Remotes :=
  ⟨fun r config => r.add (.connection (.ofConfig config)), list, disconnect⟩

end Remotes

end GatedCalls.Bench
