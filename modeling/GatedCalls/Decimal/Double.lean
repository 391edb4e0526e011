/-!
# Double-precision numbers

A finite binary64 number as exact data: `± mantissa · 2 ^ (exponent − 1074)`. Each number has one
such form (`canonical`), so equality of the data is equality of the number and of the sign of zero.
Arithmetic is done on whole numbers and rounded once, to the nearest, ties to the even mantissa.
-/

namespace GatedCalls

/-- A finite double-precision number. -/
structure Double where
  negative : Bool
  mantissa : Nat
  exponent : Nat
  canonical : mantissa < Nat.pow 2 53 ∧ (Nat.pow 2 52 ≤ mantissa ∨ exponent = 0) ∧ exponent ≤ 2045
deriving DecidableEq

namespace Double

/-- The quotient rounded to the nearest whole number, a half to the even one. -/
def roundQuotient (num den : Nat) : Nat :=
  let q := num / den
  let r := num % den
  if 2 * r < den then q else if den < 2 * r then q + 1 else if q % 2 = 0 then q else q + 1

def zero (negative : Bool) : Double := ⟨negative, 0, 0, by decide⟩

instance : Inhabited Double := ⟨zero false⟩

/-- The double nearest to `num / den`, none if it is beyond the greatest. -/
def ofQuotient? (negative : Bool) (num den : Nat) : Option Double :=
  let scaled := num * Nat.pow 2 1074
  let e := (scaled / den).log2 + 1 - 53
  let m := roundQuotient scaled (den * Nat.pow 2 e)
  let (m, e) := if m = Nat.pow 2 53 then (Nat.pow 2 52, e + 1) else (m, e)
  if h : m < Nat.pow 2 53 ∧ (Nat.pow 2 52 ≤ m ∨ e = 0) ∧ e ≤ 2045 then some ⟨negative, m, e, h⟩
  else none

/-- The double nearest to a whole number. -/
def ofNat? (n : Nat) : Option Double := ofQuotient? false n 1

/-- The double nearest to a power of ten. -/
def tenPower? (n : Nat) : Option Double := ofNat? (Nat.pow 10 n)

def neg (d : Double) : Double := { d with negative := !d.negative }

def withSign (negative : Bool) (d : Double) : Double := { d with negative := negative }

def isZero (d : Double) : Bool := d.mantissa == 0

/-- The product, rounded once. -/
def mul? (a b : Double) : Option Double :=
  ofQuotient? (a.negative != b.negative)
    (a.mantissa * b.mantissa * Nat.pow 2 (a.exponent + b.exponent)) (Nat.pow 2 2148)

/-- The quotient, rounded once; none for a divisor of zero. -/
def div? (a b : Double) : Option Double :=
  if b.mantissa = 0 then none
  else ofQuotient? (a.negative != b.negative) (a.mantissa * Nat.pow 2 a.exponent)
    (b.mantissa * Nat.pow 2 b.exponent)

end Double

end GatedCalls
