import GatedCalls.Bench.Launch

/-!
# The program

Reads the arguments, the configuration and the lines of the session. It starts no servers itself:
the command of a server is looked for and not found, and loading a configuration that lists one
ends the program.
-/

open GatedCalls Bench

namespace GatedCalls.Program

/-- The values of the variables that a text refers to. -/
def environment (text : List Char) : IO (Dict String) := do
  let mut vars : Dict String := .empty
  for piece in Server.Expansion.pieces text do
    if let .reference ref := piece then
      let name := String.ofList (Server.Expansion.splitDefault ref).1
      if let some value ← IO.getEnv name then
        vars := vars.insert name value
  return vars

/-- The path with a leading `~` replaced by the home folder. -/
def expandHome (path : String) : IO String := do
  match path.toList with
  | ['~'] => return (← IO.getEnv "HOME").getD path
  | '~' :: '/' :: rest => return ((← IO.getEnv "HOME").getD "~") ++ "/" ++ String.ofList rest
  | _ => return path

/-- Why a file could not be read. -/
def fileError : IO.Error → SourceError
  | .noFileOrDirectory .. => .io Host.FileError.notFound.message
  | .permissionDenied .. => .io Host.FileError.notPermitted.message
  | .inappropriateType .. => .io Host.FileError.notFolder.message
  | e => .io e.toString

/-- What reading the configuration at a path gives. -/
def listings (path : String) : IO (Except SourceError (List Server.Listing)) := do
  try
    let bytes := (← IO.FS.readBinFile (← expandHome path)).toList
    let text := (Text.Utf8.decode? bytes).getD ""
    return Server.ConfigFile.ofBytes (← environment text.toList) bytes
  catch e => return .error (fileError e)

/-- Prints what a world has printed, and forgets it. -/
def flush (w : World) : IO World := do
  for p in w.printed do
    match p with
    | .out text => IO.print text
    | .err text => IO.eprint text
  (← IO.getStdout).flush
  return { w with printed := [] }

/-- Takes lines until the session or the input ends. -/
partial def converse (input : IO.FS.Stream) (w : World) : IO World := do
  let line ← input.getLine
  if line.isEmpty then return w
  let (w, goesOn) :=
    Shell.Session.step World.shellBackend w (.ofBytes (Text.Utf8.encode line))
  let w ← flush w
  if goesOn then converse input w else return w

def leave (e : Exit) : IO UInt32 := do
  IO.print e.stdout
  IO.eprint e.stderr
  return e.code.toUInt32

end GatedCalls.Program

open GatedCalls.Program in
def main (args : List String) : IO UInt32 := do
  let shop := Workshop.ofScripts .empty .empty none
  match Shell.Launch.ofArgs args with
  | some (.start o) =>
    let read ← match o.config with
      | some path => listings path
      | none => pure (.ok [])
    match (Scene.ofWorkshop shop false).prepare o read with
    | .error e => leave e
    | .ok s =>
      let w ← flush (Shell.Session.greet World.shellBackend s.world)
      let w ← converse (← IO.getStdin) w
      let _ ← flush (Shell.Session.finish World.shellBackend w)
      return 0
  | _ => leave (launch shop args [])
