/-!
# Tasks by name

Work that was started under a name and may still be in flight. A task is polled until its end shows,
which it does once; a task that was cancelled shows that once.
-/

namespace GatedCalls.Bench

/-- What a task has come to, as far as its name knows. -/
inductive Task
  | started (id : Nat)
  | cancelled
  | polled
deriving DecidableEq

/-- What a poll shows. -/
inductive Glance
  | unknown
  | pending
  | cancelled
  | ended (id : Nat)
deriving DecidableEq

/-- The tasks by name, the newest first. -/
abbrev Tasks := List (String × Task)

namespace Tasks

def start (t : Tasks) (name : String) (id : Nat) : Tasks := (name, .started id) :: t

def cancel (t : Tasks) (name : String) : Tasks := (name, .cancelled) :: t

/-- The number of a task that is in flight. -/
def running? (t : Tasks) (isPending : Nat → Bool) (name : String) : Option Nat :=
  match t.lookup name with
  | some (.started id) => if isPending id then some id else none
  | _ => none

/-- Polls a task; an end that shows is not shown again. -/
def poll (t : Tasks) (isPending : Nat → Bool) (name : String) : Tasks × Glance :=
  match t.lookup name with
  | some (.started id) =>
    if isPending id then (t, .pending) else ((name, .polled) :: t, .ended id)
  | some .cancelled => ((name, .polled) :: t, .cancelled)
  | some .polled | none => (t, .unknown)

end Tasks

end GatedCalls.Bench
