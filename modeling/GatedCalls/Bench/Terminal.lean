import GatedCalls.Console

/-!
# A console on the bench

A console whose input is fed piece by piece and whose output is kept until it is looked at. After
each thing that happens to it, it runs until it waits for something from outside; writing succeeds
at once, or fails at once each time.
-/

namespace GatedCalls.Bench

structure Terminal where
  console : Console
  /-- Why writing fails, if it does. -/
  failure : Option String
  /-- What was written since the last look. -/
  unseen : String
  /-- Whether the input was ended. -/
  ended : Bool

/-- A decision about the request with a number. -/
abbrev Decision := Nat × Except ConfirmationError Bool

namespace Terminal

def ofPrompt (prompt : Prompt) (failure : Option String) : Terminal :=
  ⟨.ofPrompt prompt, failure, "", false⟩

/-- Notes what the console did. -/
def note (t : Terminal) : List Console.Act → Terminal × List Decision
  | [] => (t, [])
  | .wrote s :: rest => note { t with unseen := t.unseen ++ s } rest
  | .decided id result :: rest =>
    let (t, decisions) := note t rest
    (t, (id, result) :: decisions)
  | .asked _ :: rest | .discarded _ :: rest => note t rest

/-- Lets an event happen and the console run. -/
def happen (t : Terminal) (e : Console.Event) : Terminal × List Decision :=
  let (c, acts) := t.console.step e
  let (c, more) := c.settle t.failure
  note { t with console := c } (acts ++ more)

/-- Makes a request; its line is not collected before the console is resumed. -/
def request (t : Terminal) (id : Nat) (name : String) (args : Args) : Terminal × List Decision :=
  let (c, acts) := t.console.step (.request ⟨id, name, args⟩)
  let (c, more) := c.settleToRead t.failure
  note { t with console := c } (acts ++ more)

/-- Lets the console run on. -/
def resume (t : Terminal) : Terminal × List Decision := t.happen .advance

def cancel (t : Terminal) (id : Nat) : Terminal × List Decision := t.happen (.cancel id)

def feed (t : Terminal) (bytes : List UInt8) : Terminal × List Decision := t.happen (.feed bytes)

def close (t : Terminal) : Terminal × List Decision := { t with ended := true }.happen .close

/-- Whether there is somebody to read more input: a console that is in use, or else a read that has
not found its line. -/
def canRead (t : Terminal) (inUse : Bool) : Bool :=
  match t.console.input with
  | .idle _ => inUse
  | .reading r => inUse || r.take?.isNone
  | .closed => false

/-- Looks at the output. -/
def look (t : Terminal) : Terminal × String := ({ t with unseen := "" }, t.unseen)

end Terminal

end GatedCalls.Bench
