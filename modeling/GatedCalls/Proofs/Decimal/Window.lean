import GatedCalls.Decimal.Shortest
import Mathlib.Algebra.Order.Field.Rat
import Mathlib.Data.Nat.Cast.Order.Field
import Mathlib.Tactic.Linarith
import Mathlib.Tactic.Positivity
import Mathlib.Tactic.Ring
import Mathlib.Tactic.FieldSimp

/-!
# The shortest decimal belongs to one double

A decimal reads back as a double if it lies in the window of the double. The windows of two doubles
do not meet (`window_disjoint`): where they touch, one of the two mantissas is odd and its window
leaves the midpoint out. The search for the shortest decimal ends inside the window
(`contains_shortest`), since with seventeen digits the grid is finer than the window is wide. So the
shortest decimals of two doubles differ in value (`shortest_injective`).
-/

namespace GatedCalls.Decimal

variable {w : Window} {m e n d : Nat} {q : ℚ} {s : Scaled} {p : Int}

def Scaled.value (s : Scaled) : ℚ := s.digits * 10 ^ s.exponent

def Window.Contains (w : Window) (q : ℚ) : Prop :=
  if w.closed then w.low ≤ q ∧ q ≤ w.high else w.low < q ∧ q < w.high

theorem Window.holds_iff (hd : 0 < d) : w.holds n d = true ↔ w.Contains (n / d) := by
  have hd' : (0 : ℚ) < d := by exact_mod_cast hd
  unfold holds Contains
  split
  · rw [Bool.and_eq_true, decide_eq_true_iff, decide_eq_true_iff, le_div_iff₀ hd', div_le_iff₀ hd']
    norm_cast
  · rw [Bool.and_eq_true, decide_eq_true_iff, decide_eq_true_iff, lt_div_iff₀ hd', div_lt_iff₀ hd']
    norm_cast

/-! ### The grid -/

theorem ten_zpow (p : Int) :
    (10 : ℚ) ^ p = (Nat.pow 10 p.toNat : ℕ) / (Nat.pow 10 (-p).toNat : ℕ) := by
  rw [Nat.pow_eq, Nat.pow_eq]
  push_cast
  rcases le_total 0 p with hp | hp
  · rw [Int.toNat_of_nonpos (by omega : -p ≤ 0), pow_zero, div_one, ← zpow_natCast,
      Int.toNat_of_nonneg hp]
  · rw [Int.toNat_of_nonpos hp, pow_zero, one_div, ← zpow_natCast, Int.toNat_of_nonneg (by omega),
      zpow_neg, inv_inv]

theorem pow_two_pos (k : ℕ) : 0 < Nat.pow 2 k := Nat.pow_pos (by decide)

theorem unit_pos : 0 < unit := by
  unfold unit
  apply pow_two_pos

/-- A step of the grid, in the units of the window. -/
theorem step_eq (p : Int) : (10 : ℚ) ^ p * unit =
    (unit * Nat.pow 10 p.toNat : ℕ) / (Nat.pow 10 (-p).toNat : ℕ) := by
  rw [ten_zpow]
  generalize unit = u
  push_cast
  ring

/-- A grid has a multiple inside every window that reaches half a step to both sides. -/
theorem exists_onGrid (hw : ∀ x : ℚ, |x - w.value| ≤ 10 ^ p * unit / 2 →
    w.Contains x) : ∃ s, onGrid? w p = some s := by
  have hdown : 0 < Nat.pow 10 (-p).toNat := Nat.pow_pos (by decide)
  have hstep : 0 < unit * Nat.pow 10 p.toNat := Nat.mul_pos unit_pos (Nat.pow_pos (by decide))
  rw [step_eq] at hw
  unfold onGrid?
  dsimp only
  generalize unit * Nat.pow 10 p.toNat = g at hw hstep ⊢
  generalize Nat.pow 10 (-p).toNat = down at hw hdown ⊢
  have hd : (0 : ℚ) < down := by exact_mod_cast hdown
  have hb : w.value * down / g * g ≤ w.value * down := Nat.div_mul_le_self ..
  have ha : w.value * down < (w.value * down / g + 1) * g := by
    rw [Nat.add_mul, Nat.one_mul]
    exact Nat.lt_div_mul_add hstep
  generalize w.value * down / g = below at ha hb ⊢
  have hb' : (below * g : ℚ) / down ≤ w.value := by
    rw [div_le_iff₀ hd]
    exact_mod_cast hb
  have ha' : (w.value : ℚ) < (below * g + g) / down := by
    rw [lt_div_iff₀ hd]
    have : (w.value * down : ℚ) < (below + 1) * g := by exact_mod_cast ha
    linarith
  rw [add_div] at ha'
  -- one of the two multiples is no further than half a step
  rcases le_total (w.value - (below * g : ℚ) / down) (g / down / 2) with hnear | hnear
  · have hl : w.holds (below * g) down = true := by
      rw [Window.holds_iff hdown]
      refine hw _ ?_
      push_cast
      rw [abs_sub_comm, abs_of_nonneg (by linarith)]
      exact hnear
    rw [hl]
    cases w.holds ((below + 1) * g) down
    · exact ⟨_, rfl⟩
    · dsimp only
      split <;> exact ⟨_, rfl⟩
  · have hu : w.holds ((below + 1) * g) down = true := by
      rw [Window.holds_iff hdown]
      refine hw _ ?_
      push_cast
      rw [add_mul, one_mul, add_div, abs_of_nonneg (by linarith)]
      linarith
    rw [hu]
    cases w.holds (below * g) down
    · exact ⟨_, rfl⟩
    · dsimp only
      split <;> exact ⟨_, rfl⟩

theorem contains_onGrid (h : onGrid? w p = some s) :
    w.Contains (s.value * unit) := by
  have hdown : 0 < Nat.pow 10 (-p).toNat := Nat.pow_pos (by decide)
  have hit {c : ℕ} (hc : w.holds (c * (unit * Nat.pow 10 p.toNat))
      (Nat.pow 10 (-p).toNat) = true) :
      w.Contains ((⟨c, p⟩ : Scaled).value * unit) := by
    rw [Window.holds_iff hdown] at hc
    rw [Scaled.value, ten_zpow]
    generalize unit = u at hc ⊢
    convert hc using 1
    push_cast
    ring
  unfold onGrid? at h
  dsimp only at h
  generalize hb : w.value * Nat.pow 10 (-p).toNat / (unit * Nat.pow 10 p.toNat) = below
    at h
  split at h
  · rename_i hl hu
    split at h
    · obtain rfl := Option.some.inj h
      exact hit hl
    · obtain rfl := Option.some.inj h
      exact hit hu
  · rename_i hl hu
    obtain rfl := Option.some.inj h
    exact hit hl
  · rename_i hl hu
    obtain rfl := Option.some.inj h
    exact hit hu
  · cases h

theorem value_stripZeros (fuel : ℕ) (s : Scaled) : (stripZeros fuel s).value = s.value := by
  induction fuel generalizing s with
  | zero => rfl
  | succ fuel ih =>
    rw [stripZeros]
    split
    · rename_i h
      rw [ih, Scaled.value, Scaled.value]
      obtain ⟨k, hk⟩ := Nat.dvd_of_mod_eq_zero h.1
      rw [hk, Nat.mul_div_cancel_left k (by decide), zpow_add₀ (by norm_num)]
      push_cast
      ring
    · rfl

/-! ### The leading power -/

theorem lt_pow_digitCount (n : ℕ) : n < 10 ^ digitCount n := by
  have h := Nat.length_toDigits_le_iff (b := 10) (n := n) (k := digitCount n) (by decide)
    Nat.length_toDigits_pos
  exact h.1 (Nat.le_refl _)

theorem pow_digitCount_le (hn : 0 < n) : 10 ^ (digitCount n - 1) ≤ n := by
  have hpos : 0 < digitCount n := Nat.length_toDigits_pos
  rcases Nat.eq_or_lt_of_le hpos with hone | hmore
  · rw [← hone]
    exact hn
  · have h := Nat.length_toDigits_le_iff (b := 10) (n := n) (k := digitCount n - 1) (by decide)
      (by omega)
    refine Nat.le_of_not_lt fun hlt => ?_
    have hle : digitCount n ≤ digitCount n - 1 := h.2 hlt
    omega

theorem leadingPower_le {num den : ℕ} (hn : 0 < num) (hd : 0 < den) :
    (10 : ℚ) ^ leadingPower num den ≤ num / den := by
  have hd' : (0 : ℚ) < den := by exact_mod_cast hd
  have below {k : ℕ} (h : den ≤ num * 10 ^ k) : (10 : ℚ) ^ (-(k : ℤ)) ≤ num / den := by
    rw [zpow_neg, zpow_natCast, le_div_iff₀ hd', inv_mul_le_iff₀ (by positivity), mul_comm]
    exact_mod_cast h
  unfold leadingPower
  split
  · rename_i hle
    have hq : 0 < num / den := Nat.div_pos hle hd
    have hpos : 0 < digitCount (num / den) := Nat.length_toDigits_pos
    rw [show (digitCount (num / den) : ℤ) - 1 = ((digitCount (num / den) - 1 : ℕ) : ℤ) by omega,
      zpow_natCast]
    calc (10 : ℚ) ^ (digitCount (num / den) - 1) ≤ ((num / den : ℕ) : ℚ) := by
          exact_mod_cast pow_digitCount_le hq
      _ ≤ num / den := Nat.cast_div_le
  · dsimp only
    split
    · rename_i hle
      exact below hle
    · refine below (Nat.le_of_lt ?_)
      rw [Nat.mul_comm]
      exact (Nat.div_lt_iff_lt_mul hn).1 (lt_pow_digitCount _)

/-! ### Windows -/

/-- How far the window of a double reaches below it, in quarters of the gap above it. -/
def reach (m e : ℕ) : ℕ := if m = Nat.pow 2 52 ∧ 0 < e then 1 else 2

theorem reach_le (m e : ℕ) : 1 ≤ reach m e ∧ reach m e ≤ 2 := by
  unfold reach
  split <;> omega

theorem window_value (m e : ℕ) : (window m e).value = 4 * m * 2 ^ e := rfl

theorem window_high (m e : ℕ) : (window m e).high = (4 * m + 2) * 2 ^ e := by
  rw [Nat.add_mul]
  rfl

theorem window_low (m e : ℕ) : (window m e).low = (4 * m - reach m e) * 2 ^ e := by
  rw [Nat.sub_mul, reach, window]
  split
  · rw [Nat.one_mul]
    rfl
  · rfl

/-- A number as near to a double as the seventeenth digit reads back. -/
theorem contains_of_near (hm : 0 < m) (hlt : m < Nat.pow 2 53) {x : ℚ}
    (hx : |x - (window m e).value| ≤ (window m e).value / 10 ^ 16 / 2) :
    (window m e).Contains x := by
  have hp : (0 : ℚ) < 2 ^ e := by positivity
  have hm' : (1 : ℚ) ≤ m := by exact_mod_cast hm
  have hlow : ((window m e).low : ℚ) = (4 * m - reach m e) * 2 ^ e := by
    rw [window_low, Nat.cast_mul, Nat.cast_sub (by have := (reach_le m e).2; omega)]
    push_cast
    ring
  -- the gap below a power of two is half as wide, but then the number is small
  have hgap : (m : ℚ) * 2 / 10 ^ 16 < reach m e := by
    unfold reach
    split
    · rename_i h
      rw [h.1]
      norm_num
    · have hbound : (m : ℚ) < 9007199254740992 := by exact_mod_cast hlt
      rw [div_lt_iff₀ (by positivity)]
      push_cast
      linarith
  have hgap' : (m : ℚ) * 2 / 10 ^ 16 < 2 :=
    lt_of_lt_of_le hgap (by exact_mod_cast (reach_le m e).2)
  rw [window_value] at hx
  push_cast at hx
  obtain ⟨hl, hh⟩ := abs_le.1 hx
  have inside : ((window m e).low : ℚ) < x ∧ x < (window m e).high := by
    rw [hlow, window_high]
    push_cast
    constructor <;> nlinarith
  unfold Window.Contains
  split
  · exact ⟨inside.1.le, inside.2.le⟩
  · exact inside

/-! ### Two doubles -/

/-- A double lies below another if its exponent is smaller, or its mantissa at the same exponent;
then their windows touch at most, and not where both are closed. -/
theorem window_lt {m' e' : ℕ} (hm : 0 < m) (hlt : m < Nat.pow 2 53)
    (hc : Nat.pow 2 52 ≤ m' ∨ e' = 0) (h : e < e' ∨ e = e' ∧ m < m') :
    (window m e).high < (window m' e').low ∨
      (window m e).high = (window m' e').low ∧ (m % 2 = 1 ∨ m' % 2 = 1) := by
  rw [window_high, window_low]
  have hreach := reach_le m' e'
  rcases h with hexp | ⟨rfl, hman⟩
  · obtain ⟨k, rfl⟩ := Nat.exists_eq_add_of_lt hexp
    have hp : 0 < 2 ^ e := Nat.pow_pos (by decide)
    have hk : 0 < 2 ^ k := Nat.pow_pos (by decide)
    have hlarge : 2 ^ 52 ≤ m' := hc.resolve_right (by omega)
    have hmax : m < 2 ^ 53 := hlt
    -- the last mantissa before the exponent changes is odd
    have hfar : 2 ^ 54 - 1 ≤ 4 * m' - reach m' (e + k + 1) := by
      rcases Nat.eq_or_lt_of_le hlarge with heq | hgt
      · have hone : reach m' (e + k + 1) = 1 := if_pos ⟨heq.symm, Nat.succ_pos _⟩
        omega
      · omega
    have hpow : 2 ^ (e + k + 1) = 2 * 2 ^ k * 2 ^ e := by
      rw [Nat.pow_succ, Nat.pow_add]
      ring
    have hhigh : 4 * m + 2 ≤ (4 * m' - reach m' (e + k + 1)) * (2 * 2 ^ k) :=
      calc 4 * m + 2 ≤ (2 ^ 54 - 1) * 2 := by omega
        _ ≤ (4 * m' - reach m' (e + k + 1)) * (2 * 2 ^ k) := Nat.mul_le_mul hfar (by omega)
    rw [hpow, ← Nat.mul_assoc]
    rcases Nat.lt_or_eq_of_le hhigh with hlt | heq
    · exact .inl (Nat.mul_lt_mul_of_pos_right hlt hp)
    · refine .inr ⟨congrArg (· * 2 ^ e) heq, .inl ?_⟩
      have hle : (2 ^ 54 - 1) * 2 ≤ 4 * m + 2 := heq ▸ Nat.mul_le_mul hfar (by omega)
      omega
  · have hp : 0 < 2 ^ e := Nat.pow_pos (by decide)
    rcases Nat.lt_or_eq_of_le (show 4 * m + 2 ≤ 4 * m' - reach m' e by omega) with hlt | heq
    · exact .inl (Nat.mul_lt_mul_of_pos_right hlt hp)
    · exact .inr ⟨congrArg (· * 2 ^ e) heq, by omega⟩

theorem window_disjoint {m' e' : ℕ} (hm : 0 < m) (hlt : m < Nat.pow 2 53)
    (hc : Nat.pow 2 52 ≤ m' ∨ e' = 0) (h : e < e' ∨ e = e' ∧ m < m')
    (hq : (window m e).Contains q) : ¬ (window m' e').Contains q := by
  intro hq'
  have hbounds : q ≤ (window m e).high ∧ (window m' e').low ≤ q := by
    constructor
    · unfold Window.Contains at hq
      split at hq
      · exact hq.2
      · exact hq.2.le
    · unfold Window.Contains at hq'
      split at hq'
      · exact hq'.1
      · exact hq'.1.le
  have hle : (window m' e').low ≤ (window m e).high := by
    exact_mod_cast hbounds.2.trans hbounds.1
  rcases window_lt hm hlt hc h with hw | ⟨hw, hodd | hodd⟩
  · omega
  · have hopen : (window m e).closed = false := by simp [window, hodd]
    rw [Window.Contains, hopen, hw] at hq
    exact absurd hq.2 (not_lt.2 hbounds.2)
  · have hopen : (window m' e').closed = false := by simp [window, hodd]
    rw [Window.Contains, hopen, ← hw] at hq'
    exact absurd hq'.1 (not_lt.2 hbounds.1)

theorem mantissa_pos {d : Double} (hd : d.isZero = false) : 0 < d.mantissa :=
  Nat.pos_of_ne_zero (by simpa [Double.isZero] using hd)

theorem exists_last_onGrid (hm : 0 < m) (hlt : m < Nat.pow 2 53) {top : ℤ}
    (htop : (10 : ℚ) ^ top ≤ (window m e).value / unit) :
    ∃ s, onGrid? (window m e) (top - 16) = some s := by
  have hunit : (0 : ℚ) < unit := Nat.cast_pos.2 unit_pos
  rw [le_div_iff₀ hunit] at htop
  refine exists_onGrid fun x hx => contains_of_near hm hlt (hx.trans ?_)
  rw [zpow_sub₀ (by norm_num), div_mul_eq_mul_div]
  generalize (10 : ℚ) ^ top * unit = step at htop
  have hten : (10 : ℚ) ^ (16 : ℤ) = 10 ^ 16 := by norm_num
  rw [hten]
  gcongr

/-- The search for the shortest decimal of a double ends inside its window. -/
theorem contains_shortest (d : Double) (hd : d.isZero = false) :
    (window d.mantissa d.exponent).Contains ((shortest d).value * unit) := by
  have hm := mantissa_pos hd
  have hvalue : 0 < (window d.mantissa d.exponent).value :=
    Nat.mul_pos (Nat.mul_pos (by decide) hm) (pow_two_pos _)
  obtain ⟨last, hlast⟩ := exists_last_onGrid hm d.canonical.1
    (leadingPower_le hvalue unit_pos)
  rw [shortest, value_stripZeros]
  cases hf : (List.range 17).findSome? fun (n : ℕ) => onGrid? (window d.mantissa d.exponent)
      (leadingPower (window d.mantissa d.exponent).value (unit) - n) with
  | none =>
    have hno := List.findSome?_eq_none_iff.1 hf 16 (by decide)
    rw [show ((16 : ℕ) : ℤ) = 16 from rfl, hlast] at hno
    cases hno
  | some s =>
    obtain ⟨n, -, hs⟩ := List.exists_of_findSome?_eq_some hf
    exact contains_onGrid hs

theorem shortest_injective {d d' : Double} (hd : d.isZero = false) (hd' : d'.isZero = false)
    (h : (shortest d).value = (shortest d').value) :
    d.mantissa = d'.mantissa ∧ d.exponent = d'.exponent := by
  have hc := contains_shortest d hd
  have hc' := contains_shortest d' hd'
  rw [← h] at hc'
  have hm := mantissa_pos hd
  have hm' := mantissa_pos hd'
  by_contra hne
  have hcases : (d.exponent < d'.exponent ∨ d.exponent = d'.exponent ∧ d.mantissa < d'.mantissa) ∨
      (d'.exponent < d.exponent ∨ d'.exponent = d.exponent ∧ d'.mantissa < d.mantissa) := by
    omega
  rcases hcases with hlt | hlt
  · exact window_disjoint hm d.canonical.1 d'.canonical.2.1 hlt hc hc'
  · exact window_disjoint hm' d'.canonical.1 d.canonical.2.1 hlt hc' hc

end GatedCalls.Decimal
