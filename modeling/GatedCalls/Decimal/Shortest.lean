import GatedCalls.Decimal.Double

/-!
# Shortest decimals

The decimal of fewest digits among those that read back as a given double, and of several such the
one nearest to it. A decimal reads back if it lies between the midpoints to the two neighbouring
doubles, the midpoints included when the mantissa is even.
-/

namespace GatedCalls.Decimal

/-- The number `digits · 10 ^ exponent`. -/
structure Scaled where
  digits : Nat
  exponent : Int
deriving DecidableEq, Repr

/-- Twice twice a double and the midpoints around it, in units of `2 ^ (-1076)`. -/
structure Window where
  value : Nat
  low : Nat
  high : Nat
  closed : Bool

/-- The decimals that read back as `m · 2 ^ (e − 1074)`. The gap below a power of two is half as
wide as the one above it. -/
def window (m e : Nat) : Window where
  value := 4 * m * Nat.pow 2 e
  low :=
    4 * m * Nat.pow 2 e - (if m = Nat.pow 2 52 ∧ 0 < e then Nat.pow 2 e else 2 * Nat.pow 2 e)
  high := 4 * m * Nat.pow 2 e + 2 * Nat.pow 2 e
  closed := m % 2 = 0

namespace Window

/-- Whether `n / d` lies inside. -/
def holds (w : Window) (n d : Nat) : Bool :=
  if w.closed then w.low * d ≤ n && n ≤ w.high * d else w.low * d < n && n < w.high * d

end Window

def digitCount (n : Nat) : Nat := (Nat.toDigits 10 n).length

/-- The power of ten at or below the positive number `num / den`. -/
def leadingPower (num den : Nat) : Int :=
  if den ≤ num then (digitCount (num / den) : Int) - 1
  else
    let j := digitCount (den / num)
    if den ≤ num * Nat.pow 10 (j - 1) then -((j - 1 : Nat) : Int) else -(j : Int)

/-- How many units of a window make one. -/
def unit : Nat := Nat.pow 2 1076

/-- The nearer of the two multiples of `10 ^ power` around the value that read back. -/
def onGrid? (w : Window) (power : Int) : Option Scaled :=
  let up := Nat.pow 10 power.toNat
  let down := Nat.pow 10 (-power).toNat
  -- a multiple `c` of the grid is `c * step / down` in the units of the window
  let step := unit * up
  let below := w.value * down / step
  let offBelow := w.value * down - below * step
  let offAbove := (below + 1) * step - w.value * down
  let lower := w.holds (below * step) down
  let upper := w.holds ((below + 1) * step) down
  match lower, upper with
  | true, true =>
    if offBelow < offAbove || (offBelow == offAbove && below % 2 == 0) then some ⟨below, power⟩
    else some ⟨below + 1, power⟩
  | true, false => some ⟨below, power⟩
  | false, true => some ⟨below + 1, power⟩
  | false, false => none

/-- Without the zeros at the end. -/
def stripZeros : Nat → Scaled → Scaled
  | 0, s => s
  | fuel + 1, s =>
    if s.digits % 10 = 0 ∧ s.digits ≠ 0 then stripZeros fuel ⟨s.digits / 10, s.exponent + 1⟩ else s

/-- The shortest decimal of a positive double; seventeen digits always suffice. -/
def shortest (d : Double) : Scaled :=
  let w := window d.mantissa d.exponent
  let top := leadingPower w.value unit
  let found := (List.range 17).findSome? fun (n : Nat) => onGrid? w (top - n)
  stripZeros 20 (found.getD ⟨0, 0⟩)

end GatedCalls.Decimal
