import GatedCalls.Json.Printer
import GatedCalls.Text.Blank
import GatedCalls.Text.Lowercase

/-!
# The confirmation prompt

What a human is shown before a gated tool runs, and what counts as consent. The question names the
tool and its arguments in the order of their keys, at most ten of them and long strings cut; it is
written plain or with terminal colours. Consent is one of a set of answers, letter case and blanks
around it aside.
-/

namespace GatedCalls

namespace Prompt

/-- How many arguments are shown. -/
def maxShown : Nat := 10

/-- How many characters of a string are shown. -/
def maxLength : Nat := 80

def defaultHeading : String := "Confirm tool execution"

def defaultAffirmatives : List String := ["y", "yes", "是", "确认"]

/-- A value as an argument is shown. -/
def preview : Json → String
  | .string s =>
    if maxLength < s.length then "\"" ++ String.ofList (s.toList.take maxLength) ++ "…\""
    else "\"" ++ s ++ "\""
  | .array items => "[" ++ Nat.repr items.length ++ " items]"
  | .object members => "\x7b" ++ Nat.repr members.length ++ " keys\x7d"
  | .null => "null"
  | .bool b => if b then "true" else "false"
  | .number n => n.render

/-- The tool and its arguments, plain. -/
def plainArgs (name : String) (args : Args) : String :=
  name ++
    String.join ((args.toList.take maxShown).map fun e => "\n  " ++ e.1 ++ ": " ++ preview e.2) ++
    if maxShown < args.size then "\n  … +" ++ Nat.repr (args.size - maxShown) ++ " more" else ""

/-- The tool and its arguments with colours: the name bold, the keys dim. -/
def colouredArgs (name : String) (args : Args) : String :=
  "\x1b[1m" ++ name ++ "\x1b[0m" ++
    String.join ((args.toList.take maxShown).map fun e =>
      "\n  \x1b[2m" ++ e.1 ++ ":\x1b[0m " ++ preview e.2) ++
    if maxShown < args.size then
      "\n  \x1b[2m… +" ++ Nat.repr (args.size - maxShown) ++ " more\x1b[0m"
    else ""

end Prompt

/-- How a prompt looks and which answers consent; the answers are trimmed and in lower case. -/
structure Prompt where
  heading : String
  affirmatives : List String
  coloured : Bool
deriving DecidableEq

namespace Prompt

def default : Prompt := ⟨defaultHeading, defaultAffirmatives, false⟩

instance : Inhabited Prompt := ⟨default⟩

/-- An answer as it is compared. -/
def normalize (answer : String) : String := Text.lowercase (Text.trim answer)

def withHeading (p : Prompt) (heading : String) : Prompt := { p with heading := heading }

def withAffirmatives (p : Prompt) (answers : List String) : Prompt :=
  { p with affirmatives := answers.map normalize }

def withColour (p : Prompt) (coloured : Bool) : Prompt := { p with coloured := coloured }

/-- Whether an answer consents. -/
def affirms (p : Prompt) (answer : String) : Bool := p.affirmatives.contains (normalize answer)

/-- The question about a call. -/
def question (p : Prompt) (name : String) (args : Args) : String :=
  if p.coloured then
    "\n\x1b[33m" ++ p.heading ++ ":\x1b[0m\n" ++ colouredArgs name args ++ "\nExecute? (y/n): "
  else "\n" ++ p.heading ++ ":\n" ++ plainArgs name args ++ "\nExecute? (y/n): "

/-- The line that states the decision. -/
def outcome (p : Prompt) (approved : Bool) : String :=
  match approved, p.coloured with
  | true, true => "  \x1b[32m✓\x1b[0m Approved\n"
  | false, true => "  \x1b[31m✗\x1b[0m Declined\n"
  | true, false => "  Approved\n"
  | false, false => "  Declined\n"

/-- The line that takes a question back. -/
def notice (p : Prompt) (name : String) : String :=
  (if p.coloured then "\n  \x1b[31m✗\x1b[0m Cancelled: " else "\n  Cancelled: ") ++ name ++
    " will not run. The next line entered is discarded.\n"

end Prompt

end GatedCalls
