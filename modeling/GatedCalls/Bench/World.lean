import GatedCalls.Bench.Desk
import GatedCalls.Bench.Remotes
import GatedCalls.Bench.Stub
import GatedCalls.Dispatch.Step
import GatedCalls.Host.Stdin
import GatedCalls.Shell.Session

/-!
# An engine on the bench

An engine among stubs: everything it does to the outside is carried out here, and the answers are
given back to it. After each thing that happens, every operation that can go on does, in the order
they became ready, until all wait for something from outside. What a console reads and what a
server replies takes its way: it arrives when no operation is ready any more. Time passes only for
an operation whose end is waited for.
-/

namespace GatedCalls.Bench

/-- How an operation ended. -/
inductive Ending
  | returned (result : Except DispatchError Response)
  | enrolled (result : Except ReportedError Nat)
  | shutDown

/-- Something that a client does for an operation of the engine: the number that it goes by there,
the operation it is for, and what that is told in the end. -/
structure Errand where
  source : Nat
  id : Nat
  party : Nat
  report : Except SourceError Server.Gain → Action Stub

structure World where
  engine : Engine Stub
  registry : Registry
  desk : Desk
  remotes : Remotes
  /-- What the recorders were called with, by log. -/
  logs : List (Nat × List Args)
  /-- What each hook was told. -/
  told : List (Nat × List DispatchEvent)
  endings : List (Nat × Ending)
  /-- Operations that may be able to go on. -/
  ready : List Nat
  errands : List Errand
  /-- Replies of servers that are on their way, with the operations they are for. -/
  underway : List (Nat × Action Stub)
  stdin : Host.Stdin
  printed : List Shell.Print

namespace World

def ofWorkshop (shop : Workshop) : World :=
  ⟨∅, .empty 0, [], .ofWorkshop shop, [], [], [], [], [], [], .ofBytes [], []⟩

def print (w : World) (p : Shell.Print) : World := { w with printed := w.printed ++ [p] }

/-! ## Notes -/

/-- Appends to the notes under a number. -/
def addNote {α : Type} (notes : List (Nat × List α)) (n : Nat) (a : α) : List (Nat × List α) :=
  match notes with
  | [] => [(n, [a])]
  | (m, l) :: rest => if m = n then (m, l ++ [a]) :: rest else (m, l) :: addNote rest n a

def notesOf {α : Type} (notes : List (Nat × List α)) (n : Nat) : List α := (notes.lookup n).getD []

/-! ## Handlers -/

/-- The key of the console at the program's own input and output. -/
def isStandard : HandlerKey → Bool
  | .standard .. => true
  | .given _ => false

/-- What stands behind a handler; a registry's own console is set up when it is first needed. -/
def backend (w : World) (k : HandlerKey) : World × Backend :=
  match w.desk.get? k with
  | some b => (w, b)
  | none =>
    let b := Backend.terminal (.ofPrompt .default none)
    ({ w with desk := w.desk.add k b }, b)

/-- Gives the decisions to the engine. -/
def settle (w : World) (ds : List Decision) : World :=
  ds.foldl (fun w d =>
    let o := w.engine.step w.registry (.answer d.1 d.2)
    { w with engine := o.engine, registry := o.registry, ready := w.ready ++ [d.1] }) w

/-- Changes what stands behind a handler; what a console of the program's own writes is printed. -/
def updateDesk (w : World) (k : HandlerKey) (b : Backend) : World :=
  match b with
  | .terminal t =>
    if isStandard k then
      let (t, text) := t.look
      let w := if text.isEmpty then w else w.print (.out text)
      { w with desk := w.desk.set k (.terminal t) }
    else { w with desk := w.desk.set k b }
  | b => { w with desk := w.desk.set k b }

/-- Lets something happen at a handler. -/
def atDesk (w : World) (k : HandlerKey) (f : Backend → Backend × List Decision) : World :=
  let (w, b) := w.backend k
  let (b, ds) := f b
  (w.updateDesk k b).settle ds

/-! ## Effects -/

/-- Gives an answer back to the engine. -/
def answer (w : World) (a : Action Stub) : World :=
  let o := w.engine.step w.registry a
  { w with engine := o.engine, registry := o.registry }

/-- Sends on what the operations of a client came to. -/
def receive (w : World) (source : Nat) (returns : List Return) : World :=
  returns.foldl (fun w (id, result) =>
    let (done, errands) := w.errands.partition fun e => e.source = source && e.id = id
    { w with
      errands := errands
      underway := w.underway ++ done.map fun e => (e.party, e.report result) }) w

/-- Has a client do something for an operation of the engine. -/
def entrust (w : World) (source party : Nat) (d : Server.Demand)
    (report : Except SourceError Server.Gain → Action Stub) : World :=
  match w.remotes.start? source d with
  | some (remotes, id, returns) =>
    let errand : Errand := ⟨source, id, party, report⟩
    { w with remotes := remotes, errands := w.errands ++ [errand] }.receive source returns
  | none => w.answer (report (.error Remotes.noSource))

/-- Whether a source is the client of a server. -/
def hasServer (w : World) (source : Nat) : Bool := (w.remotes.client? source).isSome

def perform (w : World) : Effect Stub → World
  | .delivered hook event => { w with told := addNote w.told hook event }
  | .asked id h name args => w.atDesk h.key (·.ask id name args)
  | .ran id stub args =>
    let w := match stub with
      | .record log _ => { w with logs := addNote w.logs log args }
      | _ => w
    w.answer (.finish id (stub.run args))
  | .forwarded id source name args =>
    if w.hasServer source then
      w.entrust source id (.call name args) fun result => .reply id (response result)
    else
      let (remotes, result) := w.remotes.call source name args
      { w with remotes := remotes }.answer (.reply id result)
  | .listed id source =>
    if w.hasServer source then
      w.entrust source id .list fun result => .list id (declarations result)
    else
      let (remotes, result) := w.remotes.list source
      { w with remotes := remotes }.answer (.list id result)
  | .disconnecting id source =>
    if w.hasServer source then
      w.entrust source id .disconnect fun _ => .disconnected id source
    else { w with remotes := w.remotes.disconnect source }.answer (.disconnected id source)
  | .returned id result => { w with endings := w.endings ++ [(id, .returned result)] }
  | .enrolled id result => { w with endings := w.endings ++ [(id, .enrolled result)] }
  | .shutDown id => { w with endings := w.endings ++ [(id, .shutDown)] }
  | .added .. | .hookAdded _ | .hookRemoved .. | .emitted _ => w

/-- One step of the engine, with what it does carried out. -/
def step (w : World) (a : Action Stub) : World :=
  let o := w.engine.step w.registry a
  o.effects.foldl perform { w with engine := o.engine, registry := o.registry }

/-- Lets the operations that are ready go on. -/
def poll : Nat → World → World
  | 0, w => w
  | fuel + 1, w =>
    match w.ready with
    | [] => w
    | id :: rest =>
      if w.engine.canAdvance id then poll fuel (w.step (.advance id))
      else poll fuel { w with ready := rest }

/-- More steps than the operations in flight can make: each makes at most nine, and is made ready at
most three times on the way. -/
def stepBound (w : World) : Nat :=
  16 * (w.engine.calls.length + w.engine.enrolments.length + w.engine.closings.length +
    w.ready.length + 1)

def pollAll (w : World) : World := poll w.stepBound w

/-- Lets the consoles go on. -/
def resume (w : World) : World :=
  (w.desk.map Prod.fst).foldl (fun w k => w.atDesk k Backend.resume) w

/-- Lets the replies that are on their way arrive. -/
def deliver (w : World) : World :=
  w.underway.foldl (fun w u => { w.answer u.2 with ready := w.ready ++ [u.1] })
    { w with underway := [] }

/-- Lets operations go on and answers arrive, in turn. -/
def run : Nat → World → World
  | 0, w => w
  | fuel + 1, w =>
    let w := w.pollAll.resume
    if !w.ready.isEmpty then run fuel w
    else if w.underway.isEmpty then w
    else run fuel w.deliver

/-- More turns than answers can arrive: each operation waits for at most three. -/
def turnBound (w : World) : Nat :=
  4 * (w.engine.calls.length + w.engine.enrolments.length + w.engine.closings.length + 1)

def runAll (w : World) : World := run w.turnBound w

/-! ## The program's own input -/

/-- The console of the program that waits for input. -/
def hungry? (w : World) : Option (HandlerKey × Terminal) :=
  w.desk.findSome? fun (k, b) => match b with
    | .terminal t =>
      match t.console.holder, t.console.input with
      | .held .., .reading r => if isStandard k && r.take?.isNone then some (k, t) else none
      | _, _ => none
    | _ => none

/-- Feeds the program's input to its console as long as that waits. -/
def feedStandard : Nat → World → World
  | 0, w => w
  | fuel + 1, w =>
    match w.hungry? with
    | none => w
    | some (k, t) =>
      let (bytes, stdin) := w.stdin.block
      let (t, ds) := if bytes.isEmpty then t.close else t.feed bytes
      feedStandard fuel (({ w with stdin := stdin }.updateDesk k (.terminal t)).settle ds).runAll

/-- Lets everything run until all wait for something from outside. -/
def quiesce (w : World) : World :=
  let w := w.runAll
  feedStandard (w.stdin.left.length + w.engine.calls.length + 2) w

/-! ## What happens to the world -/

/-- Starts an operation and gives its number; it goes on until it waits for something. -/
def begin (w : World) (a : Action Stub) : World × Nat :=
  let id := w.engine.next
  let w := w.step a
  ({ w with ready := w.ready ++ [id] }.pollAll, id)

/-- Starts an operation, lets everything run, and gives its number. -/
def start (w : World) (a : Action Stub) : World × Nat :=
  let (w, id) := w.begin a
  (w.quiesce, id)

def ending? (w : World) (id : Nat) : Option Ending := w.endings.lookup id

/-- Whether an operation is still in flight. -/
def isPending (w : World) (id : Nat) : Bool :=
  (w.engine.call? id).isSome || (w.engine.enrolment? id).isSome || (w.engine.closing? id).isSome

/-- Drops an operation if it is still in flight. -/
def cancel (w : World) (id : Nat) : World :=
  let handler := match w.engine.stage? id with
    | some (.asking h) => some h
    | _ => none
  let w := w.step (.cancel id)
  let w := w.errands.foldl (fun w e =>
    if e.party = id then
      let (remotes, returns) := w.remotes.abandon e.source e.id
      { w with
        remotes := remotes
        errands := w.errands.filter fun o => o.source ≠ e.source || o.id ≠ e.id }.receive e.source
          returns
    else w) w
  match handler with
  | some h => (w.atDesk h.key (·.cancel id)).quiesce
  | none => w

/-- Lets something happen at a handler, and everything run. -/
def happen (w : World) (k : HandlerKey) (f : Backend → Backend × List Decision) : World :=
  (w.atDesk k f).quiesce

/-- Starts operations one after the other, lets everything run, and gives their numbers. -/
def startAll (w : World) (actions : List (Action Stub)) : World × List Nat :=
  let (w, ids) := actions.foldl (fun (w, ids) a =>
    let (w, id) := w.begin a
    (w, ids ++ [id])) (w, [])
  (w.quiesce, ids)

/-- Lets time pass until operations are over, or nothing is left to wait for. -/
def await (ids : List Nat) : Nat → World → World
  | 0, w => w
  | fuel + 1, w =>
    if ids.any w.isPending then
      match w.remotes.wait? with
      | some (remotes, source, returns) =>
        await ids fuel ({ w with remotes := remotes }.receive source returns).quiesce
      | none => w
    else w

/-- Starts operations together, lets everything run and time pass until they are over, and gives
their numbers. -/
def completeAll (w : World) (actions : List (Action Stub)) : World × List Nat :=
  let (w, ids) := w.startAll actions
  (w.await ids w.turnBound, ids)

/-- Starts an operation, lets everything run and time pass until it is over, and gives its number.
-/
def complete (w : World) (a : Action Stub) : World × Nat :=
  let (w, id) := w.start a
  (w.await [id] w.turnBound, id)

def invocationResult (w : World) (id : Nat) : Option (Except DispatchError Response) :=
  match w.ending? id with
  | some (.returned r) => some r
  | _ => none

/-- Puts a handler in force. -/
def setHandler (w : World) (h : Handler) (b : Backend) : World :=
  { w with desk := w.desk.add h.key b, registry := w.registry.set h }

/-- The handler in force. -/
def currentHandler (w : World) : World × Handler :=
  let (r, h) := w.registry.current
  ({ w with registry := r }, h)

/-- Whether a handler is in force, or a call has to do with it. -/
def isInUse (w : World) (k : HandlerKey) : Bool :=
  w.registry.active.any (·.key = k) ||
    w.engine.calls.any fun c => match c.stage with
      | .chosen h | .presented h | .asking h => h.key = k
      | _ => false

/-! ## The shell in the world -/

/-- What a call gives that never comes to an end. -/
def noDecision (name : String) : DispatchError := .confirmation name (.unavailable "no decision")

def shellBackend : Shell.Backend World where
  tools w group := w.engine.tools group
  groups w := w.engine.groups
  handlerName w :=
    let (w, h) := w.currentHandler
    (w, h.name)
  invoke w name v :=
    let (w, id) := w.complete (.invokeValue name v)
    (w, (w.invocationResult id).getD (.error (noDecision name)))
  shutdown w := (w.complete .shutdown).1
  print := World.print

/-- Takes lines from the program's input until the session or the input ends. -/
def converse : Nat → World → World
  | 0, w => w
  | fuel + 1, w =>
    match w.stdin.line with
    | (none, _) => w
    | (some bytes, stdin) =>
      match Shell.Session.step shellBackend { w with stdin := stdin } (.ofBytes bytes) with
      | (w, true) => converse fuel w
      | (w, false) => w

/-- A session with the program's input. -/
def session (w : World) : World :=
  Shell.Session.finish shellBackend
    (converse (w.stdin.left.length + 1) (Shell.Session.greet shellBackend w))

end World

end GatedCalls.Bench
