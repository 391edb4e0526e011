import GatedCalls.Policy
import GatedCalls.Shell.Render

/-!
# The command line

What the arguments of the program ask for. They are read from left to right and the first that
cannot be read settles it, unless a question about the program itself came before. An option takes
the next argument or what follows its `=`; only a keyword may be given more than once, and what
says how confirmation is loaded goes with a configuration only.
-/

namespace GatedCalls.Shell

/-- What a launch is to be like. -/
structure Options where
  /-- The path of the configuration that lists tool servers. -/
  config : Option String
  /-- The address of the approval service that is asked instead of the terminal. -/
  approvalUrl : Option String
  /-- How long to wait for that service, in seconds. -/
  timeout : Option Nat
  prompt : Option String
  readOnlyKeywords : List String
  confirmAll : Bool
deriving DecidableEq, Inhabited

namespace Options

/-- The options of a launch without arguments. -/
def unset : Options := ⟨none, none, none, none, [], false⟩

def timeoutSeconds (o : Options) : Nat := o.timeout.getD 300

def policy (o : Options) : Policy := Policy.ofFlags o.readOnlyKeywords o.confirmAll

/-- Whether what goes with a configuration only comes with one. -/
def isComplete (o : Options) : Bool :=
  o.config.isSome || (o.readOnlyKeywords.isEmpty && !o.confirmAll)

/-- The options with the value of an option, unless it has one or the value does not fit. -/
def set? (o : Options) (name value : String) : Option Options :=
  match name with
  | "mcp-config" =>
    if o.config.isSome || value.isEmpty then none else some { o with config := some value }
  | "confirm-url" =>
    if o.approvalUrl.isSome then none else some { o with approvalUrl := some value }
  | "confirm-timeout" =>
    if o.timeout.isSome then none
    else (word? value).map fun n => { o with timeout := some n }
  | "prompt" => if o.prompt.isSome then none else some { o with prompt := some value }
  | "readonly-keyword" => some { o with readOnlyKeywords := o.readOnlyKeywords ++ [value] }
  | _ => none
where
  /-- A decimal number of 64 bits, perhaps after a plus. -/
  word? (s : String) : Option Nat :=
    let digits := match s.toList with
      | '+' :: rest => rest
      | cs => cs
    if digits.isEmpty || digits.any (fun c => !c.isDigit) then none
    else
      let n := digits.foldl (fun n c => n * 10 + (c.toNat - '0'.toNat)) 0
      if n < Nat.pow 2 64 then some n else none

end Options

/-- What the arguments ask for. -/
inductive Launch
  | help
  | version
  | start (options : Options)
deriving DecidableEq

namespace Launch

/-- A name and what follows its `=`. -/
def splitAssignment (cs : List Char) : String × Option String :=
  let value := match cs.dropWhile (· ≠ '=') with
    | [] => none
    | _ :: value => some (String.ofList value)
  (String.ofList (cs.takeWhile (· ≠ '=')), value)

/-- Whether an argument can be a value that stands alone: it does not look like an option. -/
def isLoose (arg : String) : Bool :=
  match arg.toList with
  | '-' :: _ :: _ => false
  | _ => true

/-- Reads arguments; nothing comes of them when one cannot be read. -/
def read (o : Options) : List String → Option Launch
  | [] => if o.isComplete then some (.start o) else none
  | arg :: rest =>
    match arg.toList with
    | ['-', '-'] => if rest.isEmpty && o.isComplete then some (.start o) else none
    | '-' :: '-' :: cs =>
      match splitAssignment cs with
      | ("help", none) => some .help
      | ("version", none) => some .version
      | ("confirm-all", none) =>
        if o.confirmAll then none else read { o with confirmAll := true } rest
      | (name, some value) => do read (← o.set? name value) rest
      | (name, none) =>
        match rest with
        | [] => none
        | value :: rest => if isLoose value then do read (← o.set? name value) rest else none
    | '-' :: 'h' :: _ => some .help
    | '-' :: 'V' :: _ => some .version
    | _ => none

def ofArgs (args : List String) : Option Launch := read .unset args

end Launch

/-! ## What a launch prints -/

def versionLine : String := "toolgate " ++ version ++ "\n"

def usage : String :=
  "Usage: toolgate [--mcp-config PATH] [--confirm-url URL] [--confirm-timeout SECONDS]\n" ++
  "                [--prompt TEXT] [--readonly-keyword KEYWORD]... [--confirm-all]\n"

/-- What failed when the configuration at a path could not be loaded. -/
def loadFailure (path : String) : String := "failed to load tool servers from " ++ path

/-- A line of the chain of causes; further lines of a text are set under the first. -/
def causeLine (n : Nat) (text : String) : String :=
  let number := Nat.repr n
  String.ofList (List.replicate (5 - number.length) ' ') ++ number ++ ": " ++
    "\n       ".intercalate (text.splitOn "\n")

/-- How an error that ends the program is shown: what failed, and the causes, the nearest first. -/
def report (what : String) (causes : List String) : String :=
  "Error: " ++ what ++ "\n\nCaused by:\n" ++
    "\n".intercalate (causes.zipIdx.map fun c => causeLine c.2 c.1) ++ "\n"

end GatedCalls.Shell
