/-!
# Ranges of code points

A character class is a table of closed ranges of code points in increasing order. The tables hold
the Unicode 17 properties of their names.
-/

namespace GatedCalls.Text

/-- Whether one of the ranges holds `c`. -/
def inRanges (table : Array (Nat × Nat)) (c : Char) : Bool :=
  table.any fun r => r.1 ≤ c.toNat && c.toNat ≤ r.2

end GatedCalls.Text
