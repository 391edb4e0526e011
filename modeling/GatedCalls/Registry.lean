/-!
# The handler in force

A registry is one slot that holds the handler asked for confirmations. Setting replaces the
handler; a call that was given the old one keeps it. A slot that was never set is filled on first
use with a console. The first use takes two steps, and between them another caller may fill the
slot: `look` reads it, and `fill` puts a console in only if it is still empty.
-/

namespace GatedCalls

/-- Tells handlers apart: one that was given, or the console that a registry made for itself. -/
inductive HandlerKey
  | given (n : Nat)
  | standard (registry serial : Nat)
deriving DecidableEq, Inhabited

/-- A handler and the name it goes by. -/
structure Handler where
  key : HandlerKey
  name : String
deriving DecidableEq, Inhabited

/-- The name of every console. -/
def consoleName : String := "console"

/-- The slot, with the number of consoles made for it. -/
structure Registry where
  id : Nat
  active : Option Handler
  made : Nat
deriving DecidableEq, Inhabited

namespace Registry

def empty (id : Nat) : Registry := ⟨id, none, 0⟩

def set (r : Registry) (h : Handler) : Registry := { r with active := some h }

def isSet (r : Registry) : Bool := r.active.isSome

/-- The first step of a use: reads the slot. -/
def look (r : Registry) : Option Handler := r.active

/-- The console that the registry would make next. -/
def standard (r : Registry) : Handler := ⟨.standard r.id r.made, consoleName⟩

/-- The second step of a use: the handler in the slot, where a console is put if it is empty. -/
def fill (r : Registry) : Registry × Handler :=
  match r.active with
  | some h => (r, h)
  | none => ({ r with active := some r.standard, made := r.made + 1 }, r.standard)

/-- The handler in force, both steps at once. -/
def current (r : Registry) : Registry × Handler :=
  match r.look with
  | some h => (r, h)
  | none => r.fill

end Registry

end GatedCalls
