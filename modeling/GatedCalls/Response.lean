import GatedCalls.Json.Decoder

/-!
# Tool responses

What a tool call answers: blocks of text or JSON, and metadata for the caller that is not shown. A
declined call is answered by a response too, which its metadata tells apart.
-/

namespace GatedCalls

inductive Block
  | text (s : String)
  | json (v : Json)
deriving DecidableEq, Inhabited

structure Response where
  content : List Block
  metadata : Option Json
deriving DecidableEq, Inhabited

namespace Block

def asText : Block → String
  | text s => s
  | json v => v.render

end Block

namespace Response

def ofBlocks (blocks : List Block) : Response := ⟨blocks, none⟩

def ofText (s : String) : Response := ofBlocks [.text s]

def ofJson (v : Json) : Response := ofBlocks [.json v]

def withMetadata (r : Response) (v : Json) : Response := { r with metadata := some v }

def declinedKey : String := "confirmation_declined"

/-- Stands in for a call of the tool `name` that was declined. -/
def declined (name : String) : Response :=
  (ofText ("tool " ++ name ++ " execution was declined")).withMetadata
    (.ofMembers [(declinedKey, .bool true), ("tool_name", .string name)])

/-- Whether the response stands in for a declined call. -/
def isDeclined (r : Response) : Bool :=
  ((r.metadata.bind (·.get? declinedKey)).bind Json.asBool?).getD false

/-- The texts of the blocks, a line feed between two. -/
def asText (r : Response) : String := "\n".intercalate (r.content.map Block.asText)

end Response

/-! ## Wire format -/

namespace Block

def toJson : Block → Json
  | text s => .ofMembers [("type", .string "text"), ("text", .string s)]
  | json v => .ofMembers [("type", .string "json"), ("json", v)]

inductive Kind
  | text
  | json

open Json.Decoder in
def decodeText (b : Rest) : Except Json.Fault Block :=
  body "struct variant ContentBlock::Text"
    [⟨"text", Option.isSome, fun d _ => do return some (← Json.Decoder.text d), false⟩] none
    (fun p => (require "text" p).map Block.text) b

open Json.Decoder in
def decodeJson (b : Rest) : Except Json.Fault Block :=
  body "struct variant ContentBlock::Json"
    [⟨"json", Option.isSome, fun d _ => do return some (← d.any), false⟩] none
    (fun p => (require "json" p).map Block.json) b

def decoder : Json.Decoder Block := fun d => do
  match ← Json.Decoder.tagged "internally tagged enum ContentBlock" "type"
    (Json.Decoder.oneOf "text" "json" Kind.text Kind.json) d with
  | (.text, rest) => decodeText rest
  | (.json, rest) => decodeJson rest

end Block

namespace Response

def toJson (r : Response) : Json :=
  .ofMembers (("content", .array (r.content.map Block.toJson)) ::
    match r.metadata with
    | some v => [("metadata", v)]
    | none => [])

/-- The parts of a response read so far. -/
structure Parts where
  content : Option (List Block)
  metadata : Option (Option Json)

open Json.Decoder in
def fields : List (Slot Parts) :=
  [⟨"content", (·.content.isSome),
      fun d p => do return { p with content := some (← list Block.decoder d) }, false⟩,
   ⟨"metadata", (·.metadata.isSome),
      fun d p => do return { p with metadata := some (← optional Json.Doc.any d) }, true⟩]

/-- Reads a response; metadata may be missing, and null stands for none. -/
def decoder : Json.Decoder Response :=
  Json.Decoder.record "struct ToolResponse" fields ⟨none, none⟩ fun p => do
    return ⟨← Json.Decoder.require "content" p.content, p.metadata.getD none⟩

end Response

end GatedCalls
