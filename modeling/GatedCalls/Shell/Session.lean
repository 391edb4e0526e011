import GatedCalls.Shell.Line
import GatedCalls.Shell.Render
import GatedCalls.Text.Utf8

/-!
# A session of the shell

The shell greets, takes line after line, and disconnects the remote sources at its end. A blank
line is passed over, a command or a line with unreadable arguments calls no tool, and any other
line makes one call, which is over before the next line is taken. Denials and errors are printed
and the session goes on; it ends with the command to leave, with the end of the input, or when
reading fails.
-/

namespace GatedCalls.Shell

/-- What the shell prints, and where. -/
inductive Print
  | out (text : String)
  | err (text : String)
deriving DecidableEq

/-- What taking a line gives; the input ends after the last one. -/
inductive Reading
  | line (text : String)
  | interrupted
  /-- Reading failed with an error that diagnostics show like this. -/
  | failed (text : String)
deriving DecidableEq

/-- What the shell works with. -/
structure Backend (σ : Type) where
  tools : σ → Option String → List Info
  groups : σ → List String
  /-- The name of the handler in force. -/
  handlerName : σ → σ × String
  invoke : σ → String → Json → σ × Except DispatchError Response
  /-- Disconnects all remote sources. -/
  shutdown : σ → σ
  print : σ → Print → σ

namespace Session

variable {σ : Type}

def greet (b : Backend σ) (s : σ) : σ :=
  let tools := b.tools s none
  let (s, handler) := b.handlerName s
  b.print s (.out (welcome tools.length (tools.filter (·.gated)).length handler))

/-- Carries out a command, and says whether the session goes on. -/
def command (b : Backend σ) (s : σ) (name : String) (args : List String) : σ × Bool :=
  match name with
  | "/exit" | "/quit" => (s, false)
  | "/help" => (b.print s (.out help), true)
  | "/tools" => (b.print s (.out (toolList (b.tools s args.head?))), true)
  | "/groups" => (b.print s (.out (groupList (b.groups s))), true)
  | _ => (b.print s (.err (unknownCommand name)), true)

/-- Makes a call and prints what came of it. -/
def call (b : Backend σ) (s : σ) (tool args : String) : σ :=
  match parseArgs args with
  | .error message => b.print s (.err (paragraph message))
  | .ok v =>
    match b.invoke s tool v with
    | (s, .ok r) => b.print s (.out (paragraph (response r)))
    | (s, .error e) => b.print s (.err (paragraph (failure e)))

/-- Deals with a line, and says whether the session goes on. -/
def handle (b : Backend σ) (s : σ) (text : String) : σ × Bool :=
  let text := Text.trim text
  if text.isEmpty then (s, true)
  else
    match Line.parse text with
    | .command name args => command b s name args
    | .call tool args => (call b s tool args, true)

/-- Deals with what taking a line gave, and says whether the session goes on. -/
def step (b : Backend σ) (s : σ) : Reading → σ × Bool
  | .line text => handle b s text
  | .interrupted => (b.print s (.out "^C\n"), true)
  | .failed text => (b.print s (.err ("Error: " ++ text ++ "\n")), false)

/-- Deals with lines until the session or the input ends. -/
def converse (b : Backend σ) (s : σ) : List Reading → σ
  | [] => s
  | r :: rest =>
    match step b s r with
    | (s, true) => converse b s rest
    | (s, false) => s

def finish (b : Backend σ) (s : σ) : σ := b.print (b.shutdown s) (.out goodbye)

/-- A whole session. -/
def run (b : Backend σ) (s : σ) (readings : List Reading) : σ :=
  finish b (converse b (greet b s) readings)

end Session

namespace Reading

/-- A line without its line feed, and without a carriage return before that. -/
def stripEnd (bytes : List UInt8) : List UInt8 :=
  match bytes.reverse with
  | 10 :: 13 :: rest => rest.reverse
  | 10 :: rest => rest.reverse
  | _ => bytes

def undecodable : String :=
  "Io(Error \x7b kind: InvalidData, message: \"stream did not contain valid UTF-8\" \x7d)"

/-- What taking a line of these bytes gives. -/
def ofBytes (bytes : List UInt8) : Reading :=
  match Text.Utf8.decode? bytes with
  | some _ => .line ((Text.Utf8.decode? (stripEnd bytes)).getD "")
  | none => .failed undecodable

end Reading

end GatedCalls.Shell
