import GatedCalls.Json.Basic
import GatedCalls.Decimal.Shortest

/-!
# Compact JSON text

The text of a value without blanks. A string escapes the quote, the backslash and the control
characters and nothing else. A double is written with its shortest digits, positionally while its
leading digit stands between the fifth decimal and the sixteenth whole place, and always with a
point or an exponent, so it never reads as a whole number.
-/

namespace GatedCalls

namespace Decimal

/-- The exponents of the leading digit that are written positionally. -/
def positional (e : Int) : Bool := -5 ≤ e && e ≤ 15

def zeros (n : Nat) : List Char := List.replicate n '0'

/-- The text of a positive decimal without zeros at its end. -/
def render (s : Scaled) : List Char :=
  let ds := Nat.toDigits 10 s.digits
  let e := s.exponent + ds.length - 1
  if positional e then
    if 0 ≤ s.exponent then ds ++ zeros s.exponent.toNat ++ ['.', '0']
    else if 0 ≤ e then ds.take (e.toNat + 1) ++ '.' :: ds.drop (e.toNat + 1)
    else '0' :: '.' :: zeros ((-e).toNat - 1) ++ ds
  else
    let mantissa := match ds with
      | [] => []
      | [d] => [d]
      | d :: rest => d :: '.' :: rest
    mantissa ++ 'e' :: (if e < 0 then '-' else '+') :: Nat.toDigits 10 e.natAbs

end Decimal

namespace Double

def chars (d : Double) : List Char :=
  (if d.negative then ['-'] else []) ++
    (if d.isZero then ['0', '.', '0'] else Decimal.render (Decimal.shortest d))

end Double

namespace Number

def chars : Number → List Char
  | int i => (if i < 0 then ['-'] else []) ++ Nat.toDigits 10 i.natAbs
  | double d => d.chars

def render (n : Number) : String := String.ofList n.chars

end Number

namespace Json

def hexDigit (n : Nat) : Char := Nat.digitChar n

/-- A character inside a string. -/
def escape (c : Char) : List Char :=
  if c = '"' then ['\\', '"']
  else if c = '\\' then ['\\', '\\']
  else if c = '\x08' then ['\\', 'b']
  else if c = '\x0c' then ['\\', 'f']
  else if c = '\n' then ['\\', 'n']
  else if c = '\r' then ['\\', 'r']
  else if c = '\t' then ['\\', 't']
  else if c.toNat < 0x20 then
    ['\\', 'u', '0', '0', hexDigit (c.toNat / 16), hexDigit (c.toNat % 16)]
  else [c]

def quote (s : String) : List Char := '"' :: s.toList.flatMap escape ++ ['"']

mutual

def chars : Json → List Char
  | .null => "null".toList
  | .bool true => "true".toList
  | .bool false => "false".toList
  | .number n => n.chars
  | .string s => quote s
  | .array [] => ['[', ']']
  | .array (x :: xs) => '[' :: chars x ++ charsItems xs ++ [']']
  | .object [] => ['\x7b', '\x7d']
  | .object ((k, x) :: xs) =>
    '\x7b' :: quote k ++ ':' :: chars x ++ charsMembers xs ++ ['\x7d']

def charsItems : List Json → List Char
  | [] => []
  | x :: xs => ',' :: chars x ++ charsItems xs

def charsMembers : List (String × Json) → List Char
  | [] => []
  | (k, x) :: xs => ',' :: quote k ++ ':' :: chars x ++ charsMembers xs

end

/-- The compact text of a value. -/
def render (j : Json) : String := String.ofList j.chars

end Json

end GatedCalls
