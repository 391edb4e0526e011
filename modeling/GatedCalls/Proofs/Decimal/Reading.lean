import GatedCalls.Json.Printer
import GatedCalls.Proofs.Decimal.Window
import Mathlib.Data.List.TakeWhile

/-!
# The text of a number says which number it is

`readDecimal` takes the text of a decimal apart at its exponent and its point. It gives back the
value that `render` was given (`read_render`), whichever of the four forms that has chosen, so two
doubles with the same text have shortest decimals of one value and are the same
(`Double.chars_injective`). A double is never written as a whole number is
(`Number.chars_injective`).
-/

namespace GatedCalls

namespace Decimal

variable {s : Scaled} {ds whole fraction tail : List Char} {c : Char} {n : ℕ}

/-! ### Reading -/

/-- The exponent in the text behind the letter `e`. -/
def readPower : List Char → ℤ
  | [] => 0
  | sign :: ds => if sign = '-' then -(Nat.ofDigitChars 10 ds 0 : ℤ) else Nat.ofDigitChars 10 ds 0

def readDecimal (cs : List Char) : ℚ :=
  let mantissa := cs.takeWhile (· != 'e')
  let whole := mantissa.takeWhile (· != '.')
  let fraction := (mantissa.dropWhile (· != '.')).drop 1
  Nat.ofDigitChars 10 (whole ++ fraction) 0 *
    10 ^ (readPower ((cs.dropWhile (· != 'e')).drop 1) - fraction.length)

def AllDigits (ds : List Char) : Prop := ∀ c ∈ ds, c.isDigit = true

theorem allDigits_toDigits (n : ℕ) : AllDigits (Nat.toDigits 10 n) := fun _ hc =>
  Nat.isDigit_of_mem_toDigits (by decide) (by decide) hc

theorem allDigits_zeros (n : ℕ) : AllDigits (zeros n) := by
  intro c hc
  rw [(List.mem_replicate.1 hc).2]
  rfl

theorem AllDigits.append {ds' : List Char} (h : AllDigits ds) (h' : AllDigits ds') :
    AllDigits (ds ++ ds') :=
  List.forall_mem_append.2 ⟨h, h'⟩

theorem AllDigits.sub {ds' : List Char} (h : AllDigits ds) (hs : ds' ⊆ ds) : AllDigits ds' :=
  fun c hc => h c (hs hc)

theorem AllDigits.ne (h : AllDigits ds) (hc : c.isDigit = false) : ∀ x ∈ ds, (x != c) = true := by
  intro x hx
  rw [bne_iff_ne]
  rintro rfl
  rw [h x hx] at hc
  cases hc

/-- A text ends, or goes on with an exponent. -/
def Ends (tail : List Char) : Prop := tail = [] ∨ ∃ power, tail = 'e' :: power

theorem split_at_power {cs : List Char} (h : ∀ x ∈ cs, (x != 'e') = true) (ht : Ends tail) :
    (cs ++ tail).takeWhile (· != 'e') = cs ∧ (cs ++ tail).dropWhile (· != 'e') = tail := by
  rw [List.takeWhile_append_of_pos h, List.dropWhile_append_of_pos h]
  rcases ht with rfl | ⟨power, rfl⟩
  · exact ⟨List.append_nil _, rfl⟩
  · exact ⟨List.append_nil _, rfl⟩

theorem read_whole (hw : AllDigits whole) (ht : Ends tail) : readDecimal (whole ++ tail) =
    Nat.ofDigitChars 10 whole 0 * 10 ^ readPower (tail.drop 1) := by
  obtain ⟨htake, hdrop⟩ := split_at_power (hw.ne rfl) ht
  have hpoint := hw.ne (c := '.') rfl
  rw [readDecimal, htake, hdrop]
  rw [List.takeWhile_eq_self_iff.2 hpoint, List.dropWhile_eq_nil_iff.2 hpoint]
  simp

theorem read_point (hw : AllDigits whole) (hf : AllDigits fraction) (ht : Ends tail) :
    readDecimal (whole ++ '.' :: fraction ++ tail) = Nat.ofDigitChars 10 (whole ++ fraction) 0 *
      10 ^ (readPower (tail.drop 1) - fraction.length) := by
  have hmantissa : ∀ x ∈ whole ++ '.' :: fraction, (x != 'e') = true := by
    refine List.forall_mem_append.2 ⟨hw.ne rfl, List.forall_mem_cons.2 ⟨rfl, hf.ne rfl⟩⟩
  obtain ⟨htake, hdrop⟩ := split_at_power hmantissa ht
  have hpoint := hw.ne (c := '.') rfl
  rw [readDecimal, htake, hdrop]
  rw [List.takeWhile_append_of_pos hpoint, List.dropWhile_append_of_pos hpoint]
  simp

/-! ### What is written -/

/-- The exponent of the leading digit. -/
def leading (s : Scaled) : ℤ := s.exponent + (Nat.toDigits 10 s.digits).length - 1

theorem render_cases (s : Scaled) :
    (0 ≤ s.exponent ∧
      render s = Nat.toDigits 10 s.digits ++ zeros s.exponent.toNat ++ '.' :: zeros 1) ∨
    (s.exponent < 0 ∧ 0 ≤ leading s ∧
      render s = (Nat.toDigits 10 s.digits).take ((leading s).toNat + 1) ++
        '.' :: (Nat.toDigits 10 s.digits).drop ((leading s).toNat + 1)) ∨
    (leading s < 0 ∧
      render s = zeros 1 ++ '.' :: (zeros ((-leading s).toNat - 1) ++ Nat.toDigits 10 s.digits)) ∨
    ∃ d rest, Nat.toDigits 10 s.digits = d :: rest ∧
      render s = (d :: if rest = [] then [] else '.' :: rest) ++
        'e' :: (if leading s < 0 then '-' else '+') :: Nat.toDigits 10 (leading s).natAbs := by
  have hne : Nat.toDigits 10 s.digits ≠ [] := Nat.toDigits_ne_nil
  unfold render
  dsimp only
  rw [← leading]
  split
  · split
    · exact .inl ⟨‹_›, List.append_assoc .. ▸ rfl⟩
    · split
      · exact .inr (.inl ⟨by omega, ‹_›, rfl⟩)
      · exact .inr (.inr (.inl ⟨by omega, rfl⟩))
  · refine .inr (.inr (.inr ?_))
    split
    · contradiction
    · rename_i d hd
      exact ⟨d, [], hd, rfl⟩
    · rename_i d rest hrest hd
      have hr : rest ≠ [] := fun h => hrest h
      refine ⟨d, rest, hd, ?_⟩
      rw [if_neg hr]

theorem readPower_sign (e : ℤ) :
    readPower ((if e < 0 then '-' else '+') :: Nat.toDigits 10 e.natAbs) = e := by
  by_cases he : e < 0
  · rw [if_pos he, readPower, if_pos rfl, Nat.ofDigitChars_ten_toDigits]
    omega
  · rw [if_neg he, readPower, if_neg (by decide), Nat.ofDigitChars_ten_toDigits]
    omega

theorem read_render (s : Scaled) : readDecimal (render s) = s.value := by
  have hds := allDigits_toDigits s.digits
  have hvalue := Nat.ofDigitChars_ten_toDigits (n := s.digits)
  have hlead : leading s = s.exponent + (Nat.toDigits 10 s.digits).length - 1 := rfl
  have hend : Ends [] := .inl rfl
  unfold Scaled.value
  rcases render_cases s with ⟨he, hr⟩ | ⟨he, hl, hr⟩ | ⟨hl, hr⟩ | ⟨d, rest, hd, hr⟩
  · have hdigits : Nat.ofDigitChars 10 (Nat.toDigits 10 s.digits ++ zeros s.exponent.toNat ++
        zeros 1) 0 = 10 * (10 ^ s.exponent.toNat * s.digits) := by
      rw [Nat.ofDigitChars_append, Nat.ofDigitChars_append, hvalue, zeros, zeros,
        Nat.ofDigitChars_replicate_zero, Nat.ofDigitChars_replicate_zero, pow_one]
    have hpow : (10 : ℚ) ^ s.exponent = 10 ^ s.exponent.toNat := by
      rw [← zpow_natCast, Int.toNat_of_nonneg he]
    rw [hr, ← List.append_nil (_ ++ '.' :: _),
      read_point (hds.append (allDigits_zeros _)) (allDigits_zeros 1) hend, hdigits, hpow]
    simp only [List.drop_nil, readPower, zeros, List.length_replicate]
    push_cast
    rw [zpow_neg, zpow_one]
    ring
  · rw [hr, ← List.append_nil (_ ++ '.' :: _), read_point (hds.sub (List.take_subset _ _))
      (hds.sub (List.drop_subset _ _)) hend, List.take_append_drop, hvalue, List.length_drop]
    congr 2
    simp only [List.drop_nil, readPower]
    omega
  · have hdigits : Nat.ofDigitChars 10 (zeros 1 ++ (zeros ((-leading s).toNat - 1) ++
        Nat.toDigits 10 s.digits)) 0 = s.digits := by
      rw [Nat.ofDigitChars_append, Nat.ofDigitChars_append, zeros, zeros,
        Nat.ofDigitChars_replicate_zero, Nat.ofDigitChars_replicate_zero, Nat.mul_zero, hvalue]
    rw [hr, ← List.append_nil (_ ++ '.' :: _), read_point (allDigits_zeros 1)
      ((allDigits_zeros _).append hds) hend, hdigits, List.length_append, zeros,
      List.length_replicate]
    congr 2
    simp only [List.drop_nil, readPower]
    omega
  · have hpower : Ends ('e' :: (if leading s < 0 then '-' else '+') ::
        Nat.toDigits 10 (leading s).natAbs) := .inr ⟨_, rfl⟩
    rw [hd] at hds hvalue hlead
    have hhead : AllDigits [d] := hds.sub (by simp)
    rw [hr]
    by_cases hrest : rest = []
    · subst hrest
      rw [if_pos rfl, read_whole hhead hpower, hvalue]
      congr 2
      rw [List.drop_one, List.tail_cons, readPower_sign, hlead]
      simp
    · have htail : AllDigits rest := hds.sub (List.subset_cons_self _ _)
      rw [if_neg hrest, show d :: '.' :: rest = [d] ++ '.' :: rest from rfl,
        read_point hhead htail hpower, List.singleton_append, hvalue]
      congr 2
      rw [List.drop_one, List.tail_cons, readPower_sign, hlead, List.length_cons]
      push_cast
      ring

/-! ### Its characters -/

def isNumeric (c : Char) : Bool := c.isDigit || c == '-' || c == '+' || c == '.' || c == 'e'

theorem AllDigits.isNumeric (h : AllDigits ds) : ∀ c ∈ ds, isNumeric c = true := by
  intro c hc
  simp [Decimal.isNumeric, h c hc]

theorem isNumeric_render (s : Scaled) : ∀ c ∈ render s, isNumeric c = true := by
  have hds := allDigits_toDigits s.digits
  have append {a b : List Char} (ha : AllDigits a) (hb : AllDigits b) :
      ∀ c ∈ a ++ '.' :: b, isNumeric c = true :=
    List.forall_mem_append.2 ⟨ha.isNumeric, List.forall_mem_cons.2 ⟨rfl, hb.isNumeric⟩⟩
  rcases render_cases s with ⟨-, hr⟩ | ⟨-, -, hr⟩ | ⟨-, hr⟩ | ⟨d, rest, hd, hr⟩
  · rw [hr]
    exact append (hds.append (allDigits_zeros _)) (allDigits_zeros 1)
  · rw [hr]
    exact append (hds.sub (List.take_subset _ _)) (hds.sub (List.drop_subset _ _))
  · rw [hr]
    exact append (allDigits_zeros 1) ((allDigits_zeros _).append hds)
  · rw [hd] at hds
    have hpower := (allDigits_toDigits (leading s).natAbs).isNumeric
    rw [hr]
    refine List.forall_mem_append.2 ⟨List.forall_mem_cons.2 ⟨?_, ?_⟩,
      List.forall_mem_cons.2 ⟨rfl, List.forall_mem_cons.2 ⟨?_, hpower⟩⟩⟩
    · exact hds.isNumeric d List.mem_cons_self
    · split
      · simp
      · exact List.forall_mem_cons.2
          ⟨rfl, (hds.sub (List.subset_cons_self _ _)).isNumeric⟩
    · split <;> rfl

/-- A text that begins with a digit and has a point or an exponent. -/
structure Marked (cs : List Char) : Prop where
  head : ∃ c rest, cs = c :: rest ∧ c.isDigit = true
  mark : '.' ∈ cs ∨ 'e' ∈ cs

theorem head_digits (h : AllDigits ds) (hne : ds ≠ []) (rest : List Char) :
    ∃ c rest', ds ++ rest = c :: rest' ∧ c.isDigit = true := by
  cases ds with
  | nil => exact absurd rfl hne
  | cons c ds => exact ⟨c, ds ++ rest, rfl, h c List.mem_cons_self⟩

theorem marked_render (s : Scaled) : Marked (render s) := by
  have hds := allDigits_toDigits s.digits
  have hne : Nat.toDigits 10 s.digits ≠ [] := Nat.toDigits_ne_nil
  rcases render_cases s with ⟨-, hr⟩ | ⟨-, -, hr⟩ | ⟨-, hr⟩ | ⟨d, rest, hd, hr⟩
  · rw [hr]
    refine ⟨head_digits (hds.append (allDigits_zeros _)) (by simp [hne]) _, .inl (by simp)⟩
  · rw [hr]
    exact ⟨head_digits (hds.sub (List.take_subset _ _)) (by simp [hne]) _, .inl (by simp)⟩
  · rw [hr]
    exact ⟨⟨'0', _, rfl, rfl⟩, .inl (by simp)⟩
  · rw [hd] at hds
    rw [hr]
    exact ⟨⟨d, _, rfl, hds d List.mem_cons_self⟩, .inr (by simp)⟩

end Decimal

open Decimal

/-! ### Doubles -/

namespace Double

variable {d d' : Double}

/-- The text of a double without its sign. -/
def magnitude (d : Double) : List Char :=
  if d.isZero then ['0', '.', '0'] else render (shortest d)

theorem marked_magnitude (d : Double) : Marked d.magnitude := by
  unfold magnitude
  split
  · exact ⟨⟨'0', _, rfl, rfl⟩, .inl (by decide)⟩
  · exact marked_render _

theorem isNumeric_chars (d : Double) : ∀ c ∈ d.chars, isNumeric c = true := by
  refine List.forall_mem_append.2 ⟨?_, ?_⟩
  · split <;> simp [isNumeric]
  · split
    · simp [isNumeric]
    · exact isNumeric_render _

theorem value_shortest_pos (hd : d.isZero = false) : 0 < (shortest d).value := by
  have hu : (0 : ℚ) < unit := Nat.cast_pos.2 unit_pos
  have hlow : 0 < (window d.mantissa d.exponent).low := by
    rw [window_low]
    have hm := mantissa_pos hd
    have hr := reach_le d.mantissa d.exponent
    exact Nat.mul_pos (by omega) (Nat.pow_pos (by decide))
  have hlow' : (0 : ℚ) < (window d.mantissa d.exponent).low := Nat.cast_pos.2 hlow
  have hc := contains_shortest d hd
  unfold Window.Contains at hc
  refine (mul_pos_iff_of_pos_right hu).1 ?_
  split at hc
  · exact hlow'.trans_le hc.1
  · exact hlow'.trans hc.1

theorem read_magnitude (hd : d.isZero = false) : readDecimal d.magnitude = (shortest d).value := by
  rw [magnitude, hd]
  exact read_render _

theorem read_zero : readDecimal ['0', '.', '0'] = 0 := by
  have h := read_point (allDigits_zeros 1) (allDigits_zeros 1) (.inl rfl : Ends [])
  rw [show Nat.ofDigitChars 10 (zeros 1 ++ zeros 1) 0 = 0 from rfl, Nat.cast_zero, zero_mul] at h
  exact h

theorem isZero_of_magnitude (h : d.magnitude = d'.magnitude) (hd : d.isZero = true) :
    d'.isZero = true := by
  by_contra hd'
  rw [Bool.not_eq_true] at hd'
  have hpos := value_shortest_pos hd'
  rw [← read_magnitude hd', ← h, magnitude, hd, if_pos rfl, read_zero] at hpos
  exact lt_irrefl _ hpos

/-- The text without the sign is that of one double, but for the sign. -/
theorem magnitude_injective (h : d.magnitude = d'.magnitude) :
    d.mantissa = d'.mantissa ∧ d.exponent = d'.exponent := by
  cases hd : d.isZero with
  | true =>
    have hd' := isZero_of_magnitude h hd
    simp only [isZero, beq_iff_eq] at hd hd'
    have he : d.exponent = 0 := d.canonical.2.1.resolve_left (by rw [hd]; decide)
    have he' : d'.exponent = 0 := d'.canonical.2.1.resolve_left (by rw [hd']; decide)
    exact ⟨hd.trans hd'.symm, he.trans he'.symm⟩
  | false =>
    have hd' : d'.isZero = false := by
      by_contra hd'
      rw [isZero_of_magnitude h.symm (by simpa using hd')] at hd
      cases hd
    refine shortest_injective hd hd' ?_
    rw [← read_magnitude hd, ← read_magnitude hd', h]

end Double

theorem sign_injective {b b' : Bool} {cs cs' : List Char}
    (hc : ∃ c rest, cs = c :: rest ∧ c.isDigit = true)
    (hc' : ∃ c rest, cs' = c :: rest ∧ c.isDigit = true)
    (h : (if b then ['-'] else []) ++ cs = (if b' then ['-'] else []) ++ cs') :
    b = b' ∧ cs = cs' := by
  obtain ⟨c, rest, rfl, hdigit⟩ := hc
  obtain ⟨c', rest', rfl, hdigit'⟩ := hc'
  cases b <;> cases b'
  · exact ⟨rfl, h⟩
  · obtain ⟨rfl, -⟩ := List.cons.inj h
    cases hdigit
  · obtain ⟨rfl, -⟩ := List.cons.inj h
    cases hdigit'
  · exact ⟨rfl, (List.cons.inj h).2⟩

theorem Double.chars_injective {d d' : Double} (h : d.chars = d'.chars) : d = d' := by
  obtain ⟨hs, hm⟩ := sign_injective d.marked_magnitude.head d'.marked_magnitude.head h
  obtain ⟨hmantissa, hexponent⟩ := magnitude_injective hm
  cases d
  cases d'
  simp_all

/-! ### Numbers -/

namespace Number

theorem isNumeric_chars (n : Number) : ∀ c ∈ n.chars, isNumeric c = true := by
  cases n with
  | int i =>
    refine List.forall_mem_append.2 ⟨?_, (allDigits_toDigits _).isNumeric⟩
    split <;> simp [isNumeric]
  | double d => exact d.isNumeric_chars

theorem chars_ne_nil (n : Number) : n.chars ≠ [] := by
  cases n with
  | int i =>
    have hne : Nat.toDigits 10 i.natAbs ≠ [] := Nat.toDigits_ne_nil
    simp [chars, hne]
  | double d =>
    obtain ⟨c, rest, hm, -⟩ := d.marked_magnitude.head
    have hchars : d.chars = _ ++ d.magnitude := rfl
    simp [chars, hchars, hm]

theorem chars_int (i : Int) :
    (int i).chars = (if decide (i < 0) then ['-'] else []) ++ Nat.toDigits 10 i.natAbs := by
  simp [chars]

theorem head_toDigits (n : ℕ) : ∃ c rest, Nat.toDigits 10 n = c :: rest ∧ c.isDigit = true := by
  simpa using head_digits (allDigits_toDigits n) Nat.toDigits_ne_nil []

theorem chars_int_ne_double (i : Int) (d : Double) : (int i).chars ≠ (double d).chars := by
  intro h
  rw [chars_int] at h
  obtain ⟨-, hm⟩ := sign_injective (head_toDigits _) d.marked_magnitude.head h
  rcases d.marked_magnitude.mark with hmark | hmark
  · cases allDigits_toDigits i.natAbs _ (hm ▸ hmark)
  · cases allDigits_toDigits i.natAbs _ (hm ▸ hmark)

/-- The text of a number is that of one number. -/
theorem chars_injective {n n' : Number} (h : n.chars = n'.chars) : n = n' := by
  cases n with
  | int i =>
    cases n' with
    | int j =>
      rw [chars_int, chars_int] at h
      obtain ⟨hs, hd⟩ := sign_injective (head_toDigits _) (head_toDigits _) h
      have habs : i.natAbs = j.natAbs := by
        rw [← Nat.ofDigitChars_ten_toDigits (n := i.natAbs), hd, Nat.ofDigitChars_ten_toDigits]
      rw [decide_eq_decide] at hs
      exact congrArg int (by omega)
    | double d => exact absurd h (chars_int_ne_double i d)
  | double d =>
    cases n' with
    | int j => exact absurd h.symm (chars_int_ne_double j d)
    | double d' => exact congrArg double (Double.chars_injective h)

end Number

end GatedCalls
