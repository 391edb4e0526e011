import GatedCalls.Catalog
import GatedCalls.Declaration
import GatedCalls.Dispatch.Event
import GatedCalls.Registry

/-!
# The state of the engine

The engine holds the catalog, the calls in flight, the registrations of remote sources and the
shutdowns that have not returned, the sources it keeps, and its hooks. A call goes from stage to
stage; it is suspended where it waits for an answer of its handler or for its tool, and only there
it can be cancelled.
-/

namespace GatedCalls

/-- How far a call has come. -/
inductive Stage
  /-- Its entry was looked up. -/
  | found
  /-- The request was announced, and the tool is gated. -/
  | gate
  /-- No handler was in force when it looked. -/
  | unset
  | chosen (handler : Handler)
  /-- It was announced that the handler will be asked. -/
  | presented (handler : Handler)
  /-- Suspended until the handler answers. -/
  | asking (handler : Handler)
  | answered (result : Except ConfirmationError Bool)
  /-- Nothing stands between the call and its tool. -/
  | cleared
  /-- Suspended until the tool is done. -/
  | running
  | ended (result : Except ToolError Response)

namespace Stage

/-- Whether the call waits for something outside the engine. -/
def isSuspended : Stage → Bool
  | asking _ | running => true
  | _ => false

end Stage

/-- A call in flight. -/
structure Call (β : Type) where
  id : Nat
  entry : Entry β
  args : Args
  stage : Stage

/-- How far the registration of a remote source has come. -/
inductive EnrolStage
  /-- Suspended until the source has listed its tools. -/
  | listing
  | listed (result : Except SourceError (List Declaration))
  /-- The tools are in the catalog. -/
  | committed (count : Nat)
  /-- The tools were refused; suspended until the source is disconnected. -/
  | rejecting (error : CatalogError)
  | rejected (error : CatalogError)

namespace EnrolStage

def isSuspended : EnrolStage → Bool
  | listing | rejecting _ => true
  | _ => false

end EnrolStage

/-- The registration of a remote source. -/
structure Enrolment where
  id : Nat
  source : Nat
  group : String
  gated : NameSet
  stage : EnrolStage

/-- A shutdown, with the sources that are being disconnected. -/
structure Closing where
  id : Nat
  pending : List Nat
deriving DecidableEq

/-- The state of the engine; `next` numbers calls, registrations and shutdowns, and `nextHook`
hooks. -/
structure Engine (β : Type) where
  catalog : Catalog β
  calls : List (Call β)
  enrolments : List Enrolment
  closings : List Closing
  kept : List Nat
  hooks : List Nat
  next : Nat
  nextHook : Nat

namespace Engine

variable {β : Type}

def empty : Engine β := ⟨∅, [], [], [], [], [], 0, 0⟩

instance : EmptyCollection (Engine β) := ⟨empty⟩
instance : Inhabited (Engine β) := ⟨empty⟩

/-- Adds a tool whose name is not taken. -/
def register (e : Engine β) (entry : Entry β) : Except CatalogError (Engine β) :=
  (e.catalog.register entry).map fun c => { e with catalog := c }

def tools (e : Engine β) (group : Option String) : List Info :=
  (e.catalog.list group).map Entry.info

def groups (e : Engine β) : List String := e.catalog.groups

def lookup (e : Engine β) (name : String) : Except CatalogError (Entry β) := e.catalog.lookup name

/-- Adds a hook and gives its number. -/
def addHook (e : Engine β) : Engine β × Nat :=
  ({ e with hooks := e.hooks ++ [e.nextHook], nextHook := e.nextHook + 1 }, e.nextHook)

/-- Removes a hook, and says whether it was there. -/
def removeHook (e : Engine β) (hook : Nat) : Engine β × Bool :=
  ({ e with hooks := e.hooks.filter (· != hook) }, e.hooks.contains hook)

/-! ## Calls in flight -/

def call? (e : Engine β) (id : Nat) : Option (Call β) := e.calls.find? (·.id == id)

def enrolment? (e : Engine β) (id : Nat) : Option Enrolment := e.enrolments.find? (·.id == id)

def closing? (e : Engine β) (id : Nat) : Option Closing := e.closings.find? (·.id == id)

/-- The stage of a call in flight. -/
def stage? (e : Engine β) (id : Nat) : Option Stage := (e.call? id).map Call.stage

/-- The stage of a registration in flight. -/
def enrolStage? (e : Engine β) (id : Nat) : Option EnrolStage :=
  (e.enrolment? id).map Enrolment.stage

def setStage (e : Engine β) (id : Nat) (s : Stage) : Engine β :=
  { e with calls := e.calls.map fun c => if c.id = id then { c with stage := s } else c }

def dropCall (e : Engine β) (id : Nat) : Engine β :=
  { e with calls := e.calls.filter (·.id != id) }

def setEnrolStage (e : Engine β) (id : Nat) (s : EnrolStage) : Engine β :=
  { e with enrolments := e.enrolments.map fun c => if c.id = id then { c with stage := s } else c }

def dropEnrolment (e : Engine β) (id : Nat) : Engine β :=
  { e with enrolments := e.enrolments.filter (·.id != id) }

def dropClosing (e : Engine β) (id : Nat) : Engine β :=
  { e with closings := e.closings.filter (·.id != id) }

/-- Whether the operation can go on by itself. -/
def canAdvance (e : Engine β) (id : Nat) : Bool :=
  (e.call? id).any (fun c => !c.stage.isSuspended) ||
    (e.enrolment? id).any (fun r => !r.stage.isSuspended) ||
    (e.closing? id).any (·.pending.isEmpty)

end Engine

end GatedCalls
