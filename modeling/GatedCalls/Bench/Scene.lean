import GatedCalls.Bench.Tasks
import GatedCalls.Bench.World

/-!
# A scene on the bench

A world whose parts go by names: its handlers, the logs of its recorders, its sources, its hooks and
the tasks in flight. A scene is set up with an engine and then touched step by step; whatever a step
starts runs until it ends or waits for something from outside.
-/

namespace GatedCalls.Bench

/-- A hook by its number. One that came with the engine cannot be removed. -/
structure Hook where
  id : Nat
  isRemovable : Bool

structure Scene where
  world : World
  /-- Whether requests that one decision releases go on in no certain order. -/
  isUnordered : Bool
  handlers : List (String × HandlerKey)
  /-- Handlers that somebody keeps after they were in force. -/
  held : List (String × Handler)
  logs : List (String × Nat)
  sources : List (String × Nat)
  hooks : List (String × Hook)
  tasks : Tasks
  /-- The calls that were seen in events, in the order they came up. -/
  seen : List Nat

namespace Scene

def ofWorkshop (shop : Workshop) (isUnordered : Bool) : Scene :=
  ⟨.ofWorkshop shop, isUnordered, [], [], [], [], [], [], []⟩

/-! ## Setting up -/

/-- Puts a handler in force that goes by `name` in the scene. -/
def setHandler (s : Scene) (name handlerName : String) (b : Backend) : Scene :=
  let key := HandlerKey.given s.handlers.length
  { s with
    world := s.world.setHandler ⟨key, handlerName⟩ b
    handlers := (name, key) :: s.handlers }

/-- Opens the log of a recorder. -/
def openLog (s : Scene) (name : String) : Scene × Nat :=
  ({ s with logs := (name, s.logs.length) :: s.logs }, s.logs.length)

/-- Names the hook that comes with the engine. -/
def withHook (s : Scene) (name : String) (isRemovable : Bool) : Scene :=
  { s with hooks := [(name, ⟨0, isRemovable⟩)] }

def withEngine (s : Scene) (e : Engine Stub) : Scene :=
  { s with world := { s.world with engine := e } }

/-- Gives the scene an engine with its hooks and these tools. -/
def assemble (s : Scene) (tools : List (Entry Stub)) : Except CatalogError Scene :=
  let e : Engine Stub := s.hooks.length.repeat (fun e => e.addHook.1) .empty
  (e.registerEach tools).map s.withEngine

/-- Has an engine built with the hooks of the scene, tools, servers, and the servers of files. -/
def build (s : Scene) (tools : List (Entry Stub)) (servers : List Server.Listing)
    (files : List (Except SourceError (List Server.Listing))) : Except ReportedError Scene :=
  let (remotes, result) :=
    Engine.build Remotes.exchange s.world.remotes s.hooks.length tools servers files
  result.map fun e => { s with world := { s.world with engine := e, remotes := remotes } }

/-- Loads the servers of a file by a policy. -/
def load (s : Scene) (policy : Policy) (file : Except SourceError (List Server.Listing)) :
    Scene × Except LoadError Nat :=
  let (remotes, e, result) :=
    Engine.loadServers Remotes.exchange s.world.remotes s.world.engine policy file
  ({ s with world := { s.world with engine := e, remotes := remotes } }, result)

/-! ## The engine -/

def register (s : Scene) (e : Entry Stub) : Scene × Except CatalogError Unit :=
  match s.world.engine.register e with
  | .ok engine => (s.withEngine engine, .ok ())
  | .error err => (s, .error err)

/-- Runs an operation and gives its end, if it comes by itself. -/
def complete (s : Scene) (a : Action Stub) : Scene × Option Ending :=
  let (w, id) := s.world.complete a
  ({ s with world := w }, w.ending? id)

/-- Runs operations together and gives the ends that come by themselves. -/
def completeAll (s : Scene) (actions : List (Action Stub)) : Scene × List (Option Ending) :=
  let (w, ids) := s.world.completeAll actions
  ({ s with world := w }, ids.map w.ending?)

/-- Starts an operation as a task and says whether it is in flight. -/
def start (s : Scene) (name : String) (a : Action Stub) : Scene × Bool :=
  let (w, id) := s.world.start a
  ({ s with world := w, tasks := s.tasks.start name id }, w.isPending id)

def poll (s : Scene) (name : String) : Scene × Glance :=
  let (tasks, glance) := s.tasks.poll s.world.isPending name
  ({ s with tasks := tasks }, glance)

def cancel (s : Scene) (name : String) : Scene :=
  match s.tasks.running? s.world.isPending name with
  | some id => { s with world := s.world.cancel id, tasks := s.tasks.cancel name }
  | none => s

/-! ## Hooks and logs -/

def addHook (s : Scene) (name : String) : Scene :=
  let (e, n) := s.world.engine.addHook
  { s.withEngine e with hooks := (name, ⟨n, true⟩) :: s.hooks }

def removeHook (s : Scene) (name : String) : Scene × Bool :=
  match s.hooks.lookup name with
  | some ⟨n, true⟩ =>
    let (e, found) := s.world.engine.removeHook n
    (s.withEngine e, found)
  | _ => (s, false)

/-- What a hook was told. -/
def told? (s : Scene) (hook : String) : Option (List DispatchEvent) :=
  (s.hooks.lookup hook).map fun h => World.notesOf s.world.told h.id

/-- The place of a call among those that were seen. -/
def placeOf (seen : List Nat) (call : Nat) : List Nat × Nat :=
  match seen.findIdx? (· == call) with
  | some n => (seen, n)
  | none => (seen ++ [call], seen.length)

/-- Events with the places of their calls; without a certain order they are grouped by call. -/
def place (s : Scene) (events : List DispatchEvent) : Scene × List (Nat × DispatchEvent) :=
  let (seen, placed) := events.foldl (fun (seen, placed) e =>
    let (seen, n) := placeOf seen e.call
    (seen, placed ++ [(n, e)])) (s.seen, [])
  ({ s with seen := seen },
    if s.isUnordered then placed.mergeSort fun a b => a.1 ≤ b.1 else placed)

/-- The arguments a recorder was called with; without a certain order they are sorted. -/
def callsOf (s : Scene) (log : Nat) : List Args :=
  let calls := World.notesOf s.world.logs log
  if s.isUnordered then
    calls.mergeSort fun a b => (Json.ofDict a).render ≤ (Json.ofDict b).render
  else calls

def calls? (s : Scene) (log : String) : Option (List Args) := (s.logs.lookup log).map s.callsOf

/-- The calls of all logs, by name. -/
def allCalls (s : Scene) : List (String × List Args) :=
  s.logs.reverse.map fun l => (l.1, s.callsOf l.2)

/-! ## Sources -/

def addSource (s : Scene) (name : String) (stub : StubSource) : Scene × Nat :=
  let (remotes, n) := s.world.remotes.add (.stub stub)
  ({ s with world := { s.world with remotes := remotes }, sources := (name, n) :: s.sources }, n)

def source? (s : Scene) (name : String) : Option StubSource :=
  match (s.sources.lookup name).bind s.world.remotes.get? with
  | some (.stub x) => some x
  | _ => none

/-- The entries that the tools of a source would have. -/
def discover (s : Scene) (source : Nat) (group : String) (gated : NameSet) :
    Except SourceError (List (Entry Stub)) :=
  (s.world.remotes.list source).2.map (Declaration.entries Stub source group gated)

/-! ## Handlers -/

/-- The handler in force. -/
def current (s : Scene) : Scene × Handler :=
  let (w, h) := s.world.currentHandler
  ({ s with world := w }, h)

/-- Keeps the handler in force under a name. -/
def hold (s : Scene) (name : String) : Scene :=
  let (s, h) := s.current
  { s with held := (name, h) :: s.held }

/-- Whether the handler in force is the one kept under a name. -/
def isStill? (s : Scene) (name : String) : Option (Scene × Bool) :=
  (s.held.lookup name).map fun h =>
    let (s, now) := s.current
    (s, decide (now.key = h.key))

/-- Asks a handler about a call; the decision may come at once. -/
def ask (s : Scene) (h : Handler) (name : String) (args : Args) :
    Scene × Option (Except ConfirmationError Bool) :=
  let (w, b) := s.world.backend h.key
  let id := w.engine.next
  let (b, ds) := b.ask id name args
  let (b, more) := b.resume
  let w := w.updateDesk h.key b
  let w := { w with engine := { w.engine with next := id + 1 } }
  ({ s with world := w }, (ds ++ more).lookup id)

/-- Whether anybody has to do with a handler. -/
def isInUse (s : Scene) (k : HandlerKey) : Bool :=
  s.world.isInUse k || s.held.any (·.2.key = k)

/-- Touches a handler by its name, if the touch fits it. -/
def touch? (s : Scene) (name : String) (t : Touch) : Option (Scene × Sight) := do
  let key ← s.handlers.lookup name
  let backend ← s.world.desk.get? key
  let (sight, b, ds) ← backend.touch (s.isInUse key) t
  return ({ s with world := s.world.happen key fun _ => (b, ds) }, sight)

/-! ## A session -/

/-- Runs a session of the shell with an input. -/
def session (s : Scene) (input : List UInt8) : Scene :=
  { s with world := { s.world with stdin := .ofBytes input, printed := [] }.session }

def stdout (s : Scene) : String :=
  String.join (s.world.printed.filterMap fun p => match p with
    | .out t => some t
    | .err _ => none)

def stderr (s : Scene) : String :=
  String.join (s.world.printed.filterMap fun p => match p with
    | .err t => some t
    | .out _ => none)

end Scene

end GatedCalls.Bench
