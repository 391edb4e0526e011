import GatedCalls.Json.Basic

/-!
# Reading numbers

The value of a number's digits. Digits are gathered into one 64-bit significand; digits that no
longer fit only move the decimal exponent. A number without point and exponent that fits is whole;
any other is the significand as a double, times or divided by one power of ten. The result can thus
differ from the nearest double.
-/

namespace GatedCalls.Number

def maxUnsigned : Nat := Nat.pow 2 64 - 1

/-- The greatest exponent that is followed; a longer one counts as overflow. -/
def maxExponent : Nat := Nat.pow 2 31 - 1

/-- Appends digits to `s` as long as the result has 64 bits; gives the result, the number of digits
used and the number left over. -/
def gather (s : Nat) : List Nat → Nat × Nat × Nat
  | [] => (s, 0, 0)
  | d :: rest =>
    if maxUnsigned < s * 10 + d then (s, 0, rest.length + 1)
    else
      let (s', used, surplus) := gather (s * 10 + d) rest
      (s', used + 1, surplus)

/-- Divides by `10 ^ n`, in strides that have a power of ten in the range of doubles. -/
def divTenPower (f : Double) (n : Nat) : Option Double :=
  if n ≤ 308 then (Double.tenPower? n).bind f.div?
  else if f.isZero then some f
  else (Double.tenPower? 308).bind fun p => (f.div? p).bind fun g => divTenPower g (n - 308)
termination_by n

/-- The double of `s · 10 ^ exponent`, none if it is out of range. -/
def scale? (s : Nat) (exponent : Int) : Option Double :=
  (Double.ofNat? s).bind fun f =>
    if exponent < 0 then divTenPower f exponent.natAbs
    else if exponent ≤ 308 then (Double.tenPower? exponent.toNat).bind f.mul?
    else if f.isZero then some f else none

/-- A number without point and exponent: its sign and its digits. -/
def ofWhole? (negative : Bool) (digits : List Nat) : Option Number :=
  let (s, _, surplus) := gather 0 digits
  if 0 < surplus then (scale? s surplus).map fun f => double (f.withSign negative)
  else if !negative then some (int s)
  else if s = 0 ∨ Nat.pow 2 63 < s then (Double.ofNat? s).map fun f => double f.neg
  else some (int (-s))

/-- A number with point or exponent. -/
def ofDecimal? (negative : Bool) (whole fraction : List Nat) (exponent : Int) : Option Number :=
  let (s, _, surplus) := gather 0 whole
  let (s, used, _) := gather s fraction
  (scale? s (surplus - used + exponent)).map fun f => double (f.withSign negative)

/-- The significand of the digits before the exponent. -/
def significand (whole fraction : List Nat) : Nat := (gather (gather 0 whole).1 fraction).1

end GatedCalls.Number
