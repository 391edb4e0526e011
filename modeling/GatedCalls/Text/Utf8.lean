/-!
# UTF-8

A byte sequence read as text. Every byte that is not part of the well-formed encoding of a
character stays in the text as a stray byte, so nothing is lost, and the bytes are valid UTF-8
exactly when none is stray.
-/

namespace GatedCalls.Text

/-- A character, or a byte that belongs to none. -/
inductive Symbol
  | char (c : Char)
  | stray (b : UInt8)
deriving DecidableEq, Inhabited

namespace Symbol

/-- The number of bytes the symbol takes. -/
def size : Symbol → Nat
  | char c => c.utf8Size
  | stray _ => 1

def char? : Symbol → Option Char
  | char c => some c
  | stray _ => none

end Symbol

namespace Utf8

/-- A byte that goes on with a character begun before it. -/
def isTail (b : UInt8) : Bool := 0x80 ≤ b && b ≤ 0xbf

/-- The six low bits of a byte that goes on with a character. -/
def tailBits (b : UInt8) : Nat := b.toNat - 0x80

/-- The character that starts with `b` and the number of bytes it takes of what follows. -/
def lead? (b : UInt8) (rest : List UInt8) : Option (Char × Nat) :=
  if b < 0x80 then some (Char.ofNat b.toNat, 0)
  else if 0xc2 ≤ b && b ≤ 0xdf then
    match rest with
    | b1 :: _ =>
      if isTail b1 then some (Char.ofNat ((b.toNat - 0xc0) * 64 + tailBits b1), 1) else none
    | _ => none
  else if 0xe0 ≤ b && b ≤ 0xef then
    match rest with
    | b1 :: b2 :: _ =>
      if isTail b1 && isTail b2 && (b != 0xe0 || 0xa0 ≤ b1) && (b != 0xed || b1 ≤ 0x9f) then
        some (Char.ofNat ((b.toNat - 0xe0) * 4096 + tailBits b1 * 64 + tailBits b2), 2)
      else none
    | _ => none
  else if 0xf0 ≤ b && b ≤ 0xf4 then
    match rest with
    | b1 :: b2 :: b3 :: _ =>
      if isTail b1 && isTail b2 && isTail b3 && (b != 0xf0 || 0x90 ≤ b1) &&
          (b != 0xf4 || b1 ≤ 0x8f) then
        some (Char.ofNat ((b.toNat - 0xf0) * 262144 + tailBits b1 * 4096 + tailBits b2 * 64 +
          tailBits b3), 3)
      else none
    | _ => none
  else none

def symbols : List UInt8 → List Symbol
  | [] => []
  | b :: rest =>
    match lead? b rest with
    | some (c, n) => .char c :: symbols (rest.drop n)
    | none => .stray b :: symbols rest
termination_by bytes => bytes.length
decreasing_by
  · simp only [List.length_drop, List.length_cons]
    omega
  · simp

/-! ## Where bytes are no text -/

/-- The first byte that belongs to no character, and the length of the sequence that it breaks off;
none if the bytes end within it. -/
structure Fault where
  index : Nat
  length : Option Nat
deriving DecidableEq, Inhabited

namespace Fault

def message (f : Fault) : String :=
  match f.length with
  | some n =>
    "invalid utf-8 sequence of " ++ Nat.repr n ++ " bytes from index " ++ Nat.repr f.index
  | none => "incomplete utf-8 byte sequence from index " ++ Nat.repr f.index

end Fault

/-- Whether `b1` can follow `b` at the start of a character of three or four bytes. -/
def isSecond (b b1 : UInt8) : Bool :=
  isTail b1 && (b != 0xe0 || 0xa0 ≤ b1) && (b != 0xed || b1 ≤ 0x9f) && (b != 0xf0 || 0x90 ≤ b1) &&
    (b != 0xf4 || b1 ≤ 0x8f)

/-- The length of the broken sequence that starts with `b`. -/
def brokenLength (b : UInt8) (rest : List UInt8) : Option Nat :=
  if b < 0xc2 || 0xf4 < b then some 1
  else
    match rest with
    | [] => none
    | b1 :: rest =>
      if b < 0xe0 || !isSecond b b1 then some 1
      else
        match rest with
        | [] => none
        | b2 :: rest =>
          if b < 0xf0 || !isTail b2 then some 2
          else if rest.isEmpty then none
          else some 3

/-- The first fault of bytes that come after `n` others. -/
def faultFrom? (n : Nat) : List UInt8 → Option Fault
  | [] => none
  | b :: rest =>
    match lead? b rest with
    | some (_, k) => faultFrom? (n + 1 + k) (rest.drop k)
    | none => some ⟨n, brokenLength b rest⟩
termination_by bytes => bytes.length
decreasing_by
  simp only [List.length_drop, List.length_cons]
  omega

/-- The first fault, if the bytes are not valid UTF-8. -/
def fault? (bytes : List UInt8) : Option Fault := faultFrom? 0 bytes

/-- The text that the bytes encode, if they are valid UTF-8. -/
def decode? (bytes : List UInt8) : Option String :=
  ((symbols bytes).mapM Symbol.char?).map String.ofList

def encode (s : String) : List UInt8 := s.toUTF8.data.toList

end Utf8

/-- A text as symbols, none of them stray. -/
def symbolsOf (s : String) : List Symbol := s.toList.map .char

end GatedCalls.Text
