import GatedCalls.Approval.Service
import GatedCalls.Bench.Terminal
import GatedCalls.Registry

/-!
# Handlers on the bench

What stands behind each handler: a fixed answer, a policy, a counter, a gate that holds its requests
until somebody decides, a console, or an approval service whose replies are fixed beforehand. A desk
holds the handlers by their keys.
-/

namespace GatedCalls.Bench

/-- Holds every request until there is a decision, and then lets all have it. -/
structure Gate where
  /-- The names that came in since the last look. -/
  unseen : List String
  decision : Option Bool
  /-- Whether nobody can decide any more. -/
  abandoned : Bool
  pending : List Nat

namespace Gate

def fresh : Gate := ⟨[], none, false, []⟩

def gateClosed : ConfirmationError := .unavailable "gate closed"

/-- The answer that a request gets at once. -/
def answer? (g : Gate) : Option (Except ConfirmationError Bool) :=
  match g.decision with
  | some b => some (.ok b)
  | none => if g.abandoned then some (.error gateClosed) else none

def request (g : Gate) (id : Nat) (name : String) : Gate :=
  { g with
    unseen := g.unseen ++ [name]
    pending := if g.answer?.isSome then g.pending else g.pending ++ [id] }

/-- Lets the pending requests have the answer there is now. -/
def release (g : Gate) : Gate × List Decision :=
  match g.answer? with
  | some r => ({ g with pending := [] }, g.pending.map fun id => (id, r))
  | none => (g, [])

def decide (g : Gate) (b : Bool) : Gate × List Decision := { g with decision := some b }.release

def abandon (g : Gate) : Gate × List Decision := { g with abandoned := true }.release

end Gate

/-- How the far end of an approval service answers a request. -/
inductive Reply
  | answer (status : Nat) (body : List UInt8)
  | drop
  | hang

/-- An approval service, the host at which somebody answers for it, if there is one, the replies
that are left and the requests that came in. -/
structure Office where
  service : Approval.Service
  host : Option String
  replies : List Reply
  received : List Approval.Post

namespace Office

/-- An approval service that nobody answers for. -/
def closed (service : Approval.Service) : Office := ⟨service, none, [], []⟩

/-- Whether an answer with this status never has a body. -/
def isBodiless (status : Nat) : Bool := status = 204 || status = 304

/-- Delivers a request: it is answered by the next reply, and nobody takes it when none is left.
Without any time it does not even arrive. -/
def deliver (o : Office) (p : Approval.Post) : Office × Approval.Delivery :=
  if o.service.timeout = 0 then (o, .late)
  else if p.url.scheme ≠ "http" ∨ o.host = none ∨ p.url.authority ≠ o.host then (o, .failed)
  else
    match o.replies with
    | [] => (o, .failed)
    | r :: rest =>
      ({ o with replies := rest, received := o.received ++ [p] },
        match r with
        | .answer status body => .answered status (if isBodiless status then [] else body)
        | .drop => .failed
        | .hang => .late)

def ask (o : Office) (name : String) (args : Args) : Office × Except ConfirmationError Bool :=
  match o.service.post (Nat.repr o.received.length) name args with
  | .error e => (o, .error e)
  | .ok p =>
    let (o, d) := o.deliver p
    (o, o.service.decide p d)

end Office

inductive Backend
  | fixed (approve : Bool)
  | counting (approve : Bool) (requests : List (String × Args))
  | failing (count : Nat)
  /-- Denies some tools, and calls of which one argument has a certain value. -/
  | policy (denied : List String) (key : String) (value : Json)
  | error (e : ConfirmationError)
  | gate (g : Gate)
  | terminal (t : Terminal)
  | office (o : Office)

namespace Backend

def backendDown : ConfirmationError := .unavailable "confirmation backend is down"

def policyAllows (denied : List String) (key : String) (value : Json) (name : String)
    (args : Args) : Bool :=
  !denied.contains name && (key == "" || args.get? key != some value)

/-- Asks about a call under a number. A decision that hangs on nobody comes at once; a console makes
none before it is resumed unless it cannot ask. -/
def ask (b : Backend) (id : Nat) (name : String) (args : Args) : Backend × List Decision :=
  match b with
  | fixed approve => (b, [(id, .ok approve)])
  | counting approve requests =>
    (counting approve (requests ++ [(name, args)]), [(id, .ok approve)])
  | failing count => (failing (count + 1), [(id, .error backendDown)])
  | policy denied key value => (b, [(id, .ok (policyAllows denied key value name args))])
  | error e => (b, [(id, .error e)])
  | gate g => (gate (g.request id name), g.answer?.toList.map fun r => (id, r))
  | terminal t =>
    let (t, ds) := t.request id name args
    (terminal t, ds)
  | office o =>
    let (o, r) := o.ask name args
    (office o, [(id, r)])

/-- Lets a console go on. -/
def resume (b : Backend) : Backend × List Decision :=
  match b with
  | terminal t =>
    let (t, ds) := t.resume
    (terminal t, ds)
  | b => (b, [])

/-- Drops a request. -/
def cancel (b : Backend) (id : Nat) : Backend × List Decision :=
  match b with
  | gate g => (gate { g with pending := g.pending.filter (· != id) }, [])
  | terminal t =>
    let (t, ds) := t.cancel id
    (terminal t, ds)
  | b => (b, [])

end Backend

/-- What somebody does at a handler from outside. -/
inductive Touch
  /-- Asks for the requests that came in. -/
  | inspect
  | decide (approve : Bool)
  /-- Leaves a gate without anybody who could decide. -/
  | abandon
  | feed (bytes : List UInt8)
  | close
  /-- Looks at what a console wrote. -/
  | look

/-- What shows to whoever touched a handler. -/
inductive Sight
  | requests (calls : List (String × Args))
  | count (n : Nat)
  | names (names : List String)
  /-- Whether there is somebody to take what was given. -/
  | taken (isUsed : Bool)
  | output (text : String)

namespace Backend

/-- What comes of a touch, if it fits the handler; `inUse` says whether anybody has to do with it.
-/
def touch (b : Backend) (inUse : Bool) (t : Touch) : Option (Sight × Backend × List Decision) :=
  match t, b with
  | .inspect, counting _ requests => some (.requests requests, b, [])
  | .inspect, failing n => some (.count n, b, [])
  | .inspect, gate g =>
    if g.abandoned then none else some (.names g.unseen, gate { g with unseen := [] }, [])
  | .decide approve, gate g =>
    if g.abandoned then none
    else
      let (g, ds) := g.decide approve
      some (.taken true, gate g, ds)
  | .abandon, gate g =>
    if g.abandoned then none
    else
      let (g, ds) := g.abandon
      some (.taken true, gate g, ds)
  | .feed bytes, terminal t =>
    if t.ended then none
    else
      let (t', ds) := t.feed bytes
      some (.taken (bytes.isEmpty || t.canRead inUse), terminal t', ds)
  | .close, terminal t =>
    if t.ended then none
    else
      let (t, ds) := t.close
      some (.taken true, terminal t, ds)
  | .look, terminal t =>
    let (t, text) := t.look
    some (.output text, terminal t, [])
  | _, _ => none

end Backend

abbrev Desk := List (HandlerKey × Backend)

namespace Desk

def get? (d : Desk) (k : HandlerKey) : Option Backend := d.lookup k

def set (d : Desk) (k : HandlerKey) (b : Backend) : Desk :=
  d.map fun e => if e.1 = k then (k, b) else e

def add (d : Desk) (k : HandlerKey) (b : Backend) : Desk := d ++ [(k, b)]

end Desk

end GatedCalls.Bench
