import GatedCalls.Catalog
import GatedCalls.Json.Decoder
import GatedCalls.Text.Blank

/-!
# Declarations of remote tools

A remote source declares its tools by name, description and input schema, each of which it may leave
out. A declaration is usable if it has a name that is not blank; the name is then kept exactly as
declared. The entries made of a list of declarations gate the tools whose very names are in a given
set.
-/

namespace GatedCalls

structure Declaration where
  name : Option String
  description : Option String
  schema : Json
deriving DecidableEq, Inhabited

namespace Declaration

/-- A tool of which only the name is known: it takes any object. -/
def ofName (name : String) : Declaration :=
  ⟨some name, none, .ofMembers [("type", .string "object")]⟩

def withDescription (d : Declaration) (text : String) : Declaration :=
  { d with description := some text }

def withSchema (d : Declaration) (schema : Json) : Declaration := { d with schema := schema }

/-- The name under which the tool can be registered. -/
def usableName? (d : Declaration) : Option String := d.name.filter fun n => !Text.isBlankText n

/-- The parts of a declaration read so far. -/
structure Parts where
  name : Option (Option String)
  description : Option (Option String)
  schema : Option Json

open Json.Decoder in
def fields : List (Slot Parts) :=
  [⟨"name", (·.name.isSome),
      fun d p => do return { p with name := some (← optional text d) }, true⟩,
   ⟨"description", (·.description.isSome),
      fun d p => do return { p with description := some (← optional text d) }, true⟩,
   ⟨"inputSchema", (·.schema.isSome),
      fun d p => do return { p with schema := some (← d.any) }, true⟩]

/-- Reads a declaration; every part may be missing. -/
def decoder : Json.Decoder Declaration :=
  Json.Decoder.record "struct RemoteDeclaration" fields ⟨none, none, none⟩ fun p =>
    .ok ⟨p.name.getD none, p.description.getD none, p.schema.getD .null⟩

/-- The entry of a usable declaration. -/
def entryIn (β : Type) (source : Nat) (group : String) (gated : NameSet) (d : Declaration) :
    Option (Entry β) :=
  d.usableName?.map fun name =>
    ((Entry.ofTool ⟨name, d.description.getD "", d.schema, .remote source⟩).inGroup group)
      |>.withConfirmation (gated.contains name)

/-- The entries of all usable declarations, in order. -/
def entries (β : Type) (source : Nat) (group : String) (gated : NameSet) (ds : List Declaration) :
    List (Entry β) :=
  ds.filterMap (entryIn β source group gated)

end Declaration

end GatedCalls
