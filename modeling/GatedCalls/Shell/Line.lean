import GatedCalls.Json.Decoder
import GatedCalls.Text.Blank

/-!
# Input lines

A line is a command, if it starts with a slash, or a call: the name of a tool and, after a blank,
its arguments as JSON text. No text means no arguments.
-/

namespace GatedCalls.Shell

inductive Line
  | command (name : String) (args : List String)
  | call (tool : String) (args : String)
deriving DecidableEq

namespace Line

/-- Reads a line that is trimmed and not empty. -/
def parse (s : String) : Line :=
  let asCall : Line := match Text.splitBlank? s.toList with
    | some (name, args) => .call (String.ofList name) (String.ofList (Text.trimChars args))
    | none => .call s ""
  if s.toList.head? = some '/' then
    match Text.words s with
    | name :: args => .command name args
    | [] => asCall
  else asCall

end Line

/-- The arguments of a call as a JSON value. -/
def parseArgs (text : String) : Except String Json :=
  if text = "" then .ok (.object [])
  else (Json.parse text).mapError fun m => "arguments are not valid JSON: " ++ m

end GatedCalls.Shell
