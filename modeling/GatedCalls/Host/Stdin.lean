import GatedCalls.Console.Input

/-!
# Standard input

An input with one buffer that several readers share. Whoever finds the buffer empty fills it with
the next block of the source. A reader of lines takes no more than its line; a reader of blocks
takes all that is in the buffer.
-/

namespace GatedCalls.Host

/-- The bytes in the buffer and those still in the source. -/
structure Stdin where
  buffer : List UInt8
  source : List UInt8
deriving DecidableEq, Inhabited

namespace Stdin

/-- The size of the buffer. -/
def blockSize : Nat := 8192

def ofBytes (bytes : List UInt8) : Stdin := ⟨[], bytes⟩

/-- All bytes that are left, in order. -/
def left (s : Stdin) : List UInt8 := s.buffer ++ s.source

def isExhausted (s : Stdin) : Bool := s.buffer.isEmpty && s.source.isEmpty

/-- Takes the next `n` bytes; blocks that were begun are in the buffer. -/
def drop (s : Stdin) (n : Nat) : Stdin :=
  if n ≤ s.buffer.length then { s with buffer := s.buffer.drop n }
  else
    let n := n - s.buffer.length
    let filled := (n + blockSize - 1) / blockSize * blockSize
    ⟨(s.source.take filled).drop n, s.source.drop filled⟩

/-- Takes a line with its line feed, or what is left at the end; nothing when nothing is left. -/
def line (s : Stdin) : Option (List UInt8) × Stdin :=
  if s.isExhausted then (none, s)
  else
    match Console.splitLine? s.left with
    | some (l, _) => (some l, s.drop l.length)
    | none => (some s.left, ⟨[], []⟩)

/-- Takes a block; an empty one says that the input has ended. -/
def block (s : Stdin) : List UInt8 × Stdin :=
  if s.buffer.isEmpty then (s.source.take blockSize, ⟨[], s.source.drop blockSize⟩)
  else (s.buffer, { s with buffer := [] })

end Stdin

end GatedCalls.Host
