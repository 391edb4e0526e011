import GatedCalls.Bench.Desk
import GatedCalls.Bench.Tasks

/-!
# A sitting at one console

A console with nothing around it: requests are made to it as tasks, and its input and output are
touched in between.
-/

namespace GatedCalls.Bench

structure Sitting where
  terminal : Terminal
  /-- The number of the next request. -/
  next : Nat
  decided : List Decision
  tasks : Tasks

namespace Sitting

def ofTerminal (t : Terminal) : Sitting := ⟨t, 0, [], []⟩

/-- Whether a request waits for its decision. -/
def isPending (s : Sitting) (id : Nat) : Bool := (s.decided.lookup id).isNone

/-- The console after something happened, and what was decided. -/
def take (s : Sitting) (t : Terminal) (ds : List Decision) : Sitting :=
  { s with terminal := t, decided := s.decided ++ ds }

/-- Makes a request as a task and says whether it is in flight. -/
def start (s : Sitting) (task name : String) (args : Args) : Sitting × Bool :=
  let (t, ds) := s.terminal.request s.next name args
  let (t, more) := t.resume
  let s' := { s.take t (ds ++ more) with next := s.next + 1, tasks := s.tasks.start task s.next }
  (s', s'.isPending s.next)

def poll (s : Sitting) (task : String) : Sitting × Glance :=
  let (tasks, glance) := s.tasks.poll s.isPending task
  ({ s with tasks := tasks }, glance)

def cancel (s : Sitting) (task : String) : Sitting :=
  match s.tasks.running? s.isPending task with
  | some id =>
    let (t, ds) := s.terminal.cancel id
    { s.take t ds with tasks := s.tasks.cancel task }
  | none => s

/-- Touches the console, if the touch fits it. -/
def touch? (s : Sitting) (t : Touch) : Option (Sitting × Sight) :=
  match (Backend.terminal s.terminal).touch true t with
  | some (sight, .terminal t, ds) => some (s.take t ds, sight)
  | _ => none

end Sitting

end GatedCalls.Bench
