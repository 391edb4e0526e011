import GatedCalls.Catalog
import GatedCalls.Response

/-!
# Stub tools

Tools for trying out the gate: one that records its calls and answers the same each time, one that
answers with its arguments, one that always fails, and one with a typed input, which its arguments
must fit.
-/

namespace GatedCalls.Bench

/-- What a stub does; a recorder keeps its calls in the log with its number. -/
inductive Stub
  | record (log : Nat) (response : Response)
  | echo
  | fail (error : ToolError)
  | typed
deriving DecidableEq, Inhabited

inductive Mode
  | fast
  | slow
deriving DecidableEq

namespace Mode

def name : Mode → String
  | fast => "fast"
  | slow => "slow"

end Mode

/-- The input of the typed stub. -/
structure TypedInput where
  path : String
  force : Bool
  level : Option Nat
  tags : List String
  mode : Option Mode

namespace TypedInput

/-- The parts of an input read so far. -/
structure Parts where
  path : Option String
  force : Option Bool
  level : Option (Option Nat)
  tags : Option (List String)
  mode : Option (Option Mode)

open Json.Decoder in
def fields : List (Slot Parts) :=
  [⟨"path", (·.path.isSome), fun d p => do return { p with path := some (← text d) }, false⟩,
   ⟨"force", (·.force.isSome), fun d p => do return { p with force := some (← flag d) }, true⟩,
   ⟨"level", (·.level.isSome),
      fun d p => do return { p with level := some (← optional byte d) }, true⟩,
   ⟨"tags", (·.tags.isSome), fun d p => do return { p with tags := some (← list text d) }, true⟩,
   ⟨"mode", (·.mode.isSome),
      fun d p => do
        return { p with mode := some (← optional (choice "fast" "slow" Mode.fast Mode.slow) d) },
      true⟩]

/-- Reads an input; only the path must be there. -/
def decoder : Json.Decoder TypedInput :=
  Json.Decoder.record "struct TypedInput" fields ⟨none, none, none, none, none⟩ fun p => do
    return ⟨← Json.Decoder.require "path" p.path, p.force.getD false, p.level.getD none,
      p.tags.getD [], p.mode.getD none⟩

def describe (i : TypedInput) : String :=
  "path=" ++ i.path ++ " force=" ++ (if i.force then "true" else "false") ++
    " level=" ++ i.level.elim "-" Nat.repr ++ " tags=" ++ ",".intercalate i.tags ++
    " mode=" ++ i.mode.elim "-" Mode.name

/-- The schema of the input. -/
def schema : Json :=
  let s := Json.string
  let o := Json.ofMembers
  o [("$schema", s "https://json-schema.org/draft/2020-12/schema"), ("title", s "TypedInput"),
    ("type", s "object"), ("required", .ofStrings ["path"]),
    ("$defs", o [("Mode", o [("enum", .ofStrings ["fast", "slow"]), ("type", s "string")])]),
    ("properties", o
      [("path", o [("type", s "string")]),
       ("force", o [("default", .bool false), ("type", s "boolean")]),
       ("level", o [("format", s "uint8"), ("maximum", .ofNat 255), ("minimum", .ofNat 0),
          ("type", .ofStrings ["integer", "null"])]),
       ("mode", o [("anyOf", .array [o [("$ref", s "#/$defs/Mode")], o [("type", s "null")]])]),
       ("tags", o [("default", .array []), ("items", o [("type", s "string")]),
          ("type", s "array")])])]

end TypedInput

namespace Stub

/-- The outcome of a call, apart from its record. -/
def run (stub : Stub) (args : Args) : Except ToolError Response :=
  match stub with
  | record _ response => .ok response
  | echo => .ok (.ofJson (.ofDict args))
  | fail error => .error error
  | typed =>
    match TypedInput.decoder.ofValue (.ofDict args) with
    | .ok input => .ok (.ofText input.describe)
    | .error m => .error (.invalidInput ("Failed to deserialize input: " ++ m))

/-- The schema of a tool that takes any object. -/
def openSchema : Json := .ofMembers [("type", .string "object")]

/-- The tool that records its calls in the log `log`; it answers that it is done unless another
response is given. -/
def recorder (name : String) (log : Nat) (response : Option Response) : Tool Stub :=
  ⟨name, "Records its calls", openSchema,
    .own (.record log (response.getD (.ofText (name ++ " done"))))⟩

def typedTool (name : String) : Tool Stub :=
  ⟨name, "Typed tool", TypedInput.schema, .own .typed⟩

end Stub

end GatedCalls.Bench
