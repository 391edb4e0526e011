import GatedCalls.Declaration
import GatedCalls.Error
import GatedCalls.Response

/-!
# Answers of tool servers

What a server sends back: the tools it has, the result of a call, or a refusal. A call result is
untrusted JSON; whatever it holds, the response made of it carries no metadata, so it never passes
for a declined call, and a result that is marked as an error is never a response.
-/

namespace GatedCalls.Server

/-- Why there is no result. -/
inductive Refusal
  | rpc (code : Int) (message : String) (data : Option Json)
  | closed
  | unexpected
deriving DecidableEq

namespace Refusal

def text : Refusal → String
  | rpc code message data =>
    "Mcp error: " ++ code.repr ++ ": " ++ message ++
      data.elim "" fun d => "(" ++ d.render ++ ")"
  | closed => "Transport closed"
  | unexpected => "Unexpected response type"

end Refusal

/-- A tool as a server lists it. -/
structure ListedTool where
  name : String
  description : Option String
  schema : Json
deriving DecidableEq

/-- A blank name is no name. -/
def ListedTool.declaration (t : ListedTool) : Declaration :=
  ⟨if Text.isBlankText t.name then none else some t.name, t.description, t.schema⟩

/-- A piece of content: a text block stays text, anything else is kept as it is. -/
def contentBlock (item : Json) : Block :=
  match item.get? "type", item.get? "text" with
  | some (.string "text"), some (.string s) => .text s
  | _, _ => .json item

/-- The pieces of content of a call result, and its structured content if there is any. -/
def resultBlocks (result : Json) : List Block :=
  (((result.get? "content").bind Json.asArray?).getD []).map contentBlock ++
    match (result.get? "structuredContent").filter fun v => !v.isNull with
    | some v => [.json v]
    | none => []

/-- Whether a call result is marked as an error. -/
def isErrorResult (result : Json) : Bool :=
  ((result.get? "isError").bind Json.asBool?).getD false

/-- The response of a call result. -/
def responseOfResult (result : Json) : Except SourceError Response :=
  let r := Response.ofBlocks (resultBlocks result)
  if isErrorResult result then .error (.toolExecution r.asText) else .ok r

end GatedCalls.Server
