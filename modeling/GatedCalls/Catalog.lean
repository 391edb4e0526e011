import GatedCalls.Error
import GatedCalls.Json.Basic
import GatedCalls.Text.Quoted

/-!
# The catalog of tools

The registered tools: a table of entries by name, and the names in the order of registration. Names
are unique whatever the group, an entry never changes once it is in, and whether its tool needs a
confirmation is fixed when the entry is made.
-/

namespace GatedCalls

/-- What runs a tool: code of its own, or a remote source that knows the tool by its name. -/
inductive Body (β : Type)
  | own (code : β)
  | remote (source : Nat)
deriving DecidableEq, Inhabited

/-- A tool as it describes itself. -/
structure Tool (β : Type) where
  name : String
  description : String
  schema : Json
  body : Body β
deriving DecidableEq, Inhabited

/-- What is shown of an entry. -/
structure Info where
  name : String
  group : String
  description : String
  gated : Bool
deriving DecidableEq

/-- A tool under the name, group and description it is registered with; `gated` if each call of it
must be confirmed. -/
structure Entry (β : Type) where
  name : String
  group : String
  description : String
  gated : Bool
  tool : Tool β
deriving DecidableEq, Inhabited

/-- The group of tools that are registered without one. -/
def defaultGroup : String := "basic"

namespace Entry

variable {β : Type}

/-- An entry that says what the tool says, in the default group and not gated. -/
def ofTool (t : Tool β) : Entry β := ⟨t.name, defaultGroup, t.description, false, t⟩

def inGroup (e : Entry β) (group : String) : Entry β := { e with group := group }

def withDescription (e : Entry β) (text : String) : Entry β := { e with description := text }

def withConfirmation (e : Entry β) (gated : Bool) : Entry β := { e with gated := gated }

def info (e : Entry β) : Info := ⟨e.name, e.group, e.description, e.gated⟩

/-- The entry as diagnostics show it. -/
def describe (e : Entry β) : String :=
  "ToolEntry \x7b name: " ++ Text.quoted e.name ++ ", group: " ++ Text.quoted e.group ++
    ", description: " ++ Text.quoted e.description ++ ", needs_confirmation: " ++
    (if e.gated then "true" else "false") ++ ", .. \x7d"

end Entry

/-- The error as diagnostics show it. -/
def CatalogError.describe : CatalogError → String
  | duplicateName name => "DuplicateName(" ++ Text.quoted name ++ ")"
  | notFound name => "NotFound(" ++ Text.quoted name ++ ")"

structure Catalog (β : Type) where
  table : Dict (Entry β)
  order : List String

namespace Catalog

variable {β : Type}

def empty : Catalog β := ⟨.empty, []⟩

instance : EmptyCollection (Catalog β) := ⟨empty⟩
instance : Inhabited (Catalog β) := ⟨empty⟩

def contains (c : Catalog β) (name : String) : Bool := c.table.contains name

/-- Adds an entry whose name is not taken. -/
def register (c : Catalog β) (e : Entry β) : Except CatalogError (Catalog β) :=
  if c.contains e.name then .error (.duplicateName e.name)
  else .ok ⟨c.table.insert e.name e, c.order ++ [e.name]⟩

/-- The first name of a batch that is in the catalog or occurred in the batch before. -/
def firstTaken? (c : Catalog β) (seen : NameSet) : List (Entry β) → Option String
  | [] => none
  | e :: rest =>
    if c.contains e.name || seen.contains e.name then some e.name
    else firstTaken? c (seen.insert e.name) rest

/-- Adds a batch as one unit, and counts it; no entry is added if one of the names is taken. -/
def registerAll (c : Catalog β) (batch : List (Entry β)) : Except CatalogError (Catalog β × Nat) :=
  match c.firstTaken? ∅ batch with
  | some name => .error (.duplicateName name)
  | none => do return (← batch.foldlM register c, batch.length)

def lookup (c : Catalog β) (name : String) : Except CatalogError (Entry β) :=
  match c.table.get? name with
  | some e => .ok e
  | none => .error (.notFound name)

/-- All entries in the order of registration. -/
def all (c : Catalog β) : List (Entry β) := c.order.filterMap c.table.get?

/-- The entries in the order of registration, of one group if one is given. -/
def list (c : Catalog β) (group : Option String) : List (Entry β) :=
  c.all.filter fun e => group.all (e.group == ·)

/-- The groups in the order of their first entries. -/
def groups (c : Catalog β) : List String :=
  (c.list none).foldl (fun acc e => if acc.contains e.group then acc else acc ++ [e.group]) []

def size (c : Catalog β) : Nat := c.table.size

def isEmpty (c : Catalog β) : Bool := c.table.isEmpty

end Catalog

end GatedCalls
