import GatedCalls.Bench.Scene
import GatedCalls.Shell.CommandLine

/-!
# A launch on the bench

The whole program, from its arguments to its exit. The handler is chosen before anything is loaded;
a configuration that cannot be loaded ends the program before it greets, and arguments that cannot
be read end it before all else.
-/

namespace GatedCalls.Bench

/-- The end of the program, and what it printed. -/
structure Exit where
  code : Nat
  stdout : String
  stderr : String

namespace Exit

/-- How the program ends when its arguments cannot be read. -/
def misused : Exit := ⟨2, "", Shell.usage⟩

/-- How it ends when loading the configuration at a path failed. -/
def unloaded (path : String) (e : LoadError) : Exit :=
  ⟨1, "", Shell.report (Shell.loadFailure path) (e.message :: e.causes)⟩

end Exit

namespace Scene

/-- Puts the handler in force that the options ask for. -/
def withOptions (s : Scene) (o : Shell.Options) : Scene :=
  let (h, b) : Handler × Backend := match o.approvalUrl with
    | some url =>
      (⟨.given 0, Approval.Service.name⟩,
        .office (.closed ((Approval.Service.ofEndpoint url).withTimeout (1000 * o.timeoutSeconds))))
    | none =>
      let prompt := match o.prompt with
        | some p => Prompt.default.withHeading p
        | none => Prompt.default
      (⟨.standard 0 0, consoleName⟩, .terminal (.ofPrompt prompt none))
  { s with world := s.world.setHandler h b }

/-- The scene that the options ask for, with its servers loaded; `listings` is what reading the
configuration gives. -/
def prepare (s : Scene) (o : Shell.Options)
    (listings : Except SourceError (List Server.Listing)) : Except Exit Scene :=
  let s := s.withOptions o
  match o.config with
  | none => .ok s
  | some path =>
    match s.load o.policy listings with
    | (s, .ok _) => .ok s
    | (_, .error e) => .error (.unloaded path e)

/-- A session with an input, and the end of the program after it. -/
def exit (s : Scene) (input : List UInt8) : Exit :=
  let s := s.session input
  ⟨0, s.stdout, s.stderr⟩

end Scene

/-- The whole program: its arguments, and its input. -/
def launch (shop : Workshop) (args : List String) (input : List UInt8) : Exit :=
  match Shell.Launch.ofArgs args with
  | none => .misused
  | some .help => ⟨0, Shell.usage, ""⟩
  | some .version => ⟨0, Shell.versionLine, ""⟩
  | some (.start o) =>
    let listings := match o.config with
      | some path => Server.ConfigFile.load shop.environment shop.files path
      | none => .ok []
    match (Scene.ofWorkshop shop false).prepare o listings with
    | .ok s => s.exit input
    | .error e => e

end GatedCalls.Bench
