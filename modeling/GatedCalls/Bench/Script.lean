import GatedCalls.Bench.Editor
import GatedCalls.Host.Files
import GatedCalls.Server.Client
import GatedCalls.Server.ConfigFile

/-!
# Scripted servers

A tool server that follows a script, and the host that starts servers: one command stands for the
program that follows the script named by its second argument, one for the stream editor, one runs a
command for a limited time, and any other command is looked for among the files. Time passes only
while nothing else can happen, so a server has all the time it needs to answer, and one that leaves
a request without an answer is over before the next. Most answers take no time; those that do come
only when somebody waits for them.
-/

namespace GatedCalls.Bench

open Server (Answer ListedTool Query Refusal StartFailure Transport)

/-- What a scripted server does when one of its tools is called. -/
inductive Reaction
  /-- It answers with the name and the arguments. -/
  | echo
  /-- It answers with the variable that the argument `var` names. -/
  | environment
  /-- It ends. -/
  | exit
  | result (value : Json)
  | refuse (refusal : Refusal)

structure Script where
  tools : List ListedTool
  listRefusal : Option Refusal
  calls : Dict Reaction
  /-- Whether it ends before it is connected. -/
  exitsEarly : Bool

instance : Inhabited Script := ⟨⟨[], none, .empty, false⟩⟩

/-- What a server does. -/
inductive Program
  | script (s : Script)
  | editor (e : Editor)

/-- A server that was started. -/
structure Process where
  program : Program
  environment : Dict String
  ended : Bool

namespace Process

/-- The result that holds one text. -/
def textResult (s : String) : Json :=
  .ofMembers [("content",
    .array [.ofMembers [("type", .string "text"), ("text", .string s)]])]

/-- Whether a result holds nothing that could be shown. -/
def isHollow (result : Json) : Bool :=
  (((result.get? "content").bind Json.asArray?).getD []).isEmpty &&
    ((result.get? "structuredContent").getD .null).isNull

def unknownTool (name : String) : Refusal := .rpc (-32602) ("Unknown tool: " ++ name) none

/-- The value of the variable that a call asks for. -/
def lookUp (p : Process) (args : Args) : String :=
  (Server.Expansion.lookup? p.environment
    (((args.get? "var").bind Json.asString?).getD "").toList).getD "<unset>"

/-- What a scripted server that runs answers to a call, and whether it ends instead. -/
def react (p : Process) (s : Script) (tool : String) (args : Args) :
    Process × Except Refusal Answer :=
  match s.calls.get? tool with
  | none => (p, .error (unknownTool tool))
  | some .echo => (p, .ok (.result (textResult (tool ++ " " ++ (Json.ofDict args).render))))
  | some .environment => (p, .ok (.result (textResult (p.lookUp args))))
  | some .exit => ({ p with ended := true }, .error .closed)
  | some (.result v) => (p, if isHollow v then .error .unexpected else .ok (.result v))
  | some (.refuse refusal) => (p, .error refusal)

def answer (p : Process) (q : Query) : Process × Except Refusal Answer :=
  if p.ended then (p, .error .closed)
  else
    match p.program, q with
    | .script s, .list =>
      match s.listRefusal with
      | some refusal => (p, .error refusal)
      | none => (p, .ok (.tools s.tools))
    | .script s, .call tool args => p.react s tool args
    | .editor e, q =>
      match e.answer q with
      | (e, some answer) => ({ p with program := .editor e }, answer)
      | (e, none) => ({ p with program := .editor e, ended := true }, .error .closed)

/-- Whether time passes before a server has answered. -/
def isSlow (p : Process) (q : Query) : Bool :=
  match p.program with
  | .script _ => false
  | .editor e => !p.ended && e.isSlow q

end Process

/-- What servers are started from: the command that follows scripts, the scripts by name, the
environment, and the files. -/
structure Workshop where
  command : String
  scripts : Dict Script
  environment : Dict String
  files : Host.Files

namespace Workshop

/-- The command that follows scripts. -/
def scriptCommand : String := "/usr/bin/scripted-server"

def scriptFlag : String := "--mcp-server"

def configName : String := "mcp.json"

/-- A working folder with an empty folder and, if there is one, a configuration, in a tree with the
folders that every host has. -/
def homeFiles (config : Option (List UInt8)) : Host.Files :=
  let file := config.toList.map fun bytes => (configName, Host.FileNode.file bytes)
  let home := Host.FileNode.folder (("dir", .folder []) :: file)
  let other := ["etc", "tmp", "usr", "var"].map fun name => (name, Host.FileNode.folder [])
  let devices := Host.FileNode.folder [("null", .file [])]
  ⟨.folder ([("home", .folder [("user", home)]), ("dev", devices)] ++ other), ["home", "user"]⟩

def ofScripts (scripts : Dict Script) (environment : Dict String)
    (config : Option (List UInt8)) : Workshop :=
  ⟨scriptCommand, scripts, environment, homeFiles config⟩

/-- What reading the configuration gives. -/
def listings (w : Workshop) : Except SourceError (List Server.Listing) :=
  Server.ConfigFile.load w.environment w.files configName

/-- The way to the server that follows a script, or to none if the name is empty. -/
def transport (script : String) : Transport :=
  if script = "" then .ofCommand "/nonexistent/server"
  else (Transport.ofCommand scriptCommand).withArgs [scriptFlag, script]

def handshakeLost : String := "connection closed: initialize response"

/-- Why a command cannot be run. A bare name is looked for along the search path. -/
def commandFault (w : Workshop) (command : String) : String :=
  if command.any (· = '\x00') then "nul byte found in provided data"
  else if command = "." ∨ command = ".." then Host.FileError.notPermitted.message
  else if command.any (· = '/') then
    match w.files.resolve command with
    | .ok _ => Host.FileError.notPermitted.message
    | .error e => e.message
  else Host.FileError.notFound.message

/-- The command that runs the command behind it for a number of seconds. -/
def limitCommand : String := "timeout"

/-- Whether an argument is a time that a command may take. -/
def isLimit (arg : String) : Bool :=
  !arg.isEmpty && arg.all Char.isDigit && arg.any (· ≠ '0')

/-- The server that a command comes to be, if it does. -/
def program? (w : Workshop) (command : String) (args : List String) : Option Program :=
  if command = Editor.command then ((Editor.ofArgs? args).bind Editor.connect?).map .editor
  else if command = w.command then
    match args with
    | [flag, id] =>
      ((w.scripts.get? id).filter fun s => flag = scriptFlag && !s.exitsEarly).map .script
    | _ => none
  else if command = limitCommand then
    match args with
    | limit :: command :: args => if isLimit limit then w.program? command args else none
    | _ => none
  else none

/-- Starts a server. -/
def start (w : Workshop) : Transport → Except StartFailure Process
  | .http .. => .error (.handshake "error sending request")
  | .stdio command args env =>
    if command ∉ [Editor.command, w.command, limitCommand] then
      .error (.spawn (w.commandFault command))
    else
      match w.program? command args with
      | some p => .ok ⟨p, w.environment.insertMany env.toList, false⟩
      | none => .error (.handshake handshakeLost)

end Workshop

end GatedCalls.Bench
