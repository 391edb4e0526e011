import Mathlib.Logic.Basic
import Mathlib.Tactic.SplitIfs
import GatedCalls.Proofs.Text.Utf8

/-!
# The bytes of a text

A character is encoded by a byte that goes on with none and bytes that go on with it, so the bytes
of a text are read back as that text (`decode?_encode`). Only the characters below `0x80` have a
byte below `0x80`, and that is then the only one. Texts are in the order of their bytes
(`encode_lt_iff`).
-/

namespace GatedCalls.Text.Utf8

variable {b b1 b2 b3 : UInt8} {rest : List UInt8} {c d : Char} {cs : List Char} {s t : String}

theorem isTail_iff : isTail b = true ↔ 0x80 ≤ b.toNat ∧ b.toNat ≤ 0xbf := by
  rw [isTail, Bool.and_eq_true, decide_eq_true_eq, decide_eq_true_eq, UInt8.le_iff_toNat_le,
    UInt8.le_iff_toNat_le]
  rfl

/-! ### One character -/

theorem lead?_two (h : 0xc2 ≤ b.toNat ∧ b.toNat ≤ 0xdf) (h1 : isTail b1 = true) :
    lead? b (b1 :: rest) = some (Char.ofNat ((b.toNat - 0xc0) * 64 + tailBits b1), 1) := by
  have hn : ¬ b.toNat < 128 := by omega
  simp [lead?, UInt8.lt_iff_toNat_lt, UInt8.le_iff_toNat_le, hn, h, h1]

theorem lead?_three (h : 0xe0 ≤ b.toNat ∧ b.toNat ≤ 0xef) (h1 : isTail b1 = true)
    (h2 : isTail b2 = true) (hlow : b.toNat = 0xe0 → 0xa0 ≤ b1.toNat)
    (hhigh : b.toNat = 0xed → b1.toNat ≤ 0x9f) :
    lead? b (b1 :: b2 :: rest) =
      some (Char.ofNat ((b.toNat - 0xe0) * 4096 + tailBits b1 * 64 + tailBits b2), 2) := by
  have hn : ¬ b.toNat < 128 ∧ ¬ b.toNat ≤ 223 := by omega
  have hl : ¬ b = 0xe0 ∨ 0xa0 ≤ b1.toNat := by
    rw [← UInt8.toNat_inj]
    exact or_iff_not_imp_left.2 fun h => hlow (not_not.1 h)
  have hh : ¬ b = 0xed ∨ b1.toNat ≤ 0x9f := by
    rw [← UInt8.toNat_inj]
    exact or_iff_not_imp_left.2 fun h => hhigh (not_not.1 h)
  simp [lead?, UInt8.lt_iff_toNat_lt, UInt8.le_iff_toNat_le, hn, h, h1, h2, hl, hh]

theorem lead?_four (h : 0xf0 ≤ b.toNat ∧ b.toNat ≤ 0xf4) (h1 : isTail b1 = true)
    (h2 : isTail b2 = true) (h3 : isTail b3 = true) (hlow : b.toNat = 0xf0 → 0x90 ≤ b1.toNat)
    (hhigh : b.toNat = 0xf4 → b1.toNat ≤ 0x8f) :
    lead? b (b1 :: b2 :: b3 :: rest) =
      some (Char.ofNat ((b.toNat - 0xf0) * 262144 + tailBits b1 * 4096 + tailBits b2 * 64 +
        tailBits b3), 3) := by
  have hn : ¬ b.toNat < 128 ∧ ¬ b.toNat ≤ 223 ∧ ¬ b.toNat ≤ 239 := by omega
  have hl : ¬ b = 0xf0 ∨ 0x90 ≤ b1.toNat := by
    rw [← UInt8.toNat_inj]
    exact or_iff_not_imp_left.2 fun h => hlow (not_not.1 h)
  have hh : ¬ b = 0xf4 ∨ b1.toNat ≤ 0x8f := by
    rw [← UInt8.toNat_inj]
    exact or_iff_not_imp_left.2 fun h => hhigh (not_not.1 h)
  simp [lead?, UInt8.lt_iff_toNat_lt, UInt8.le_iff_toNat_le, hn, h, h1, h2, h3, hl, hh]

theorem exists_byte {n : Nat} (h : n < 256) : ∃ b : UInt8, UInt8.ofNat n = b ∧ b.toNat = n :=
  ⟨_, rfl, UInt8.toNat_ofNat_of_lt' h⟩

theorem exists_tail {n : Nat} (h : n < 64) : ∃ b : UInt8, UInt8.ofNat (n + 128) = b ∧
    b.toNat = n + 128 ∧ isTail b = true ∧ tailBits b = n := by
  obtain ⟨b, hb, hn⟩ := exists_byte (n := n + 128) (by omega)
  refine ⟨b, hb, hn, isTail_iff.2 (by omega), ?_⟩
  unfold tailBits
  omega

/-- The bytes of a character are read as that character, and the first of them goes on with no
other one. -/
theorem exists_encodeChar (c : Char) : ∃ b tail, String.utf8EncodeChar c = b :: tail ∧
    isTail b = false ∧ ∀ rest, lead? b (tail ++ rest) = some (c, tail.length) := by
  have hv := c.valid
  rw [UInt32.isValidChar, Nat.isValidChar] at hv
  have hc := Char.ofNat_toNat c
  rw [Char.toNat] at hc
  have hnot {b : UInt8} (h : b.toNat < 0x80 ∨ 0xbf < b.toNat) : isTail b = false := by
    rw [← Bool.not_eq_true, isTail_iff]
    omega
  unfold String.utf8EncodeChar
  generalize c.val.toNat = v at hv hc
  dsimp only
  split
  · obtain ⟨b, hb, hn⟩ := exists_byte (n := v) (by omega)
    refine ⟨b, [], by rw [hb], hnot (by omega), fun rest => ?_⟩
    rw [lead?_ascii (UInt8.lt_iff_toNat_lt.2 (by rw [hn]; show v < 128; omega)), hn, hc]
    rfl
  split
  · obtain ⟨b, hb, hn⟩ := exists_byte (n := v / 64 % 32 + 192) (by omega)
    obtain ⟨b1, hb1, -, ht1, hn1⟩ := exists_tail (n := v % 64) (by omega)
    refine ⟨b, [b1], by rw [hb, hb1], hnot (by omega), fun rest => ?_⟩
    rw [List.singleton_append, lead?_two (by omega) ht1, hn, hn1,
      show (v / 64 % 32 + 192 - 192) * 64 + v % 64 = v by omega, hc]
    rfl
  split
  · obtain ⟨b, hb, hn⟩ := exists_byte (n := v / 4096 % 16 + 224) (by omega)
    obtain ⟨b1, hb1, hm1, ht1, hn1⟩ := exists_tail (n := v / 64 % 64) (by omega)
    obtain ⟨b2, hb2, -, ht2, hn2⟩ := exists_tail (n := v % 64) (by omega)
    refine ⟨b, [b1, b2], by rw [hb, hb1, hb2], hnot (by omega), fun rest => ?_⟩
    rw [List.cons_append, List.singleton_append,
      lead?_three (by omega) ht1 ht2 (by omega) (by omega), hn, hn1, hn2,
      show (v / 4096 % 16 + 224 - 224) * 4096 + v / 64 % 64 * 64 + v % 64 = v by omega, hc]
    rfl
  · obtain ⟨b, hb, hn⟩ := exists_byte (n := v / 262144 % 8 + 240) (by omega)
    obtain ⟨b1, hb1, hm1, ht1, hn1⟩ := exists_tail (n := v / 4096 % 64) (by omega)
    obtain ⟨b2, hb2, -, ht2, hn2⟩ := exists_tail (n := v / 64 % 64) (by omega)
    obtain ⟨b3, hb3, -, ht3, hn3⟩ := exists_tail (n := v % 64) (by omega)
    refine ⟨b, [b1, b2, b3], by rw [hb, hb1, hb2, hb3], hnot (by omega), fun rest => ?_⟩
    rw [List.cons_append, List.cons_append, List.singleton_append,
      lead?_four (by omega) ht1 ht2 ht3 (by omega) (by omega), hn, hn1, hn2, hn3,
      show (v / 262144 % 8 + 240 - 240) * 262144 + v / 4096 % 64 * 4096 + v / 64 % 64 * 64 +
        v % 64 = v by omega, hc]
    rfl

/-! ### Texts -/

def bytesOf (cs : List Char) : List UInt8 := cs.flatMap String.utf8EncodeChar

theorem encode_eq_bytesOf (s : String) : encode s = bytesOf s.toList := by
  rw [encode, String.toUTF8_eq_toByteArray, ← String.utf8Encode_toList, List.utf8Encode,
    List.data_toByteArray, bytesOf]

theorem bytesOf_append (as cs : List Char) : bytesOf (as ++ cs) = bytesOf as ++ bytesOf cs :=
  List.flatMap_append

theorem symbols_bytesOf (cs : List Char) : symbols (bytesOf cs) = cs.map .char := by
  induction cs with
  | nil => rw [bytesOf, List.flatMap_nil, symbols, List.map_nil]
  | cons c cs ih =>
    obtain ⟨b, tail, he, -, hlead⟩ := exists_encodeChar c
    have hbytes : bytesOf (c :: cs) = b :: (tail ++ bytesOf cs) := by
      rw [bytesOf, List.flatMap_cons, he]
      rfl
    rw [hbytes, symbols, hlead]
    dsimp only
    rw [List.drop_left, ih, List.map_cons]

theorem decode?_bytesOf (cs : List Char) : decode? (bytesOf cs) = some (String.ofList cs) := by
  have hchars : (cs.map Symbol.char).mapM Symbol.char? = some cs := by
    induction cs with
    | nil => rfl
    | cons c cs ih => simp [Symbol.char?, ih]
  rw [decode?, symbols_bytesOf, hchars, Option.map_some]

theorem decode?_encode (s : String) : decode? (encode s) = some s := by
  rw [encode_eq_bytesOf, decode?_bytesOf, String.ofList_toList]

theorem prefix_bytesOf_iff {as : List Char} : bytesOf as <+: bytesOf cs ↔ as <+: cs := by
  induction as generalizing cs with
  | nil => simp [bytesOf]
  | cons a as ih =>
    obtain ⟨b, tail, he, -, hlead⟩ := exists_encodeChar a
    have ha : bytesOf (a :: as) = b :: (tail ++ bytesOf as) := by
      rw [bytesOf, List.flatMap_cons, he]
      rfl
    cases cs with
    | nil => simp [bytesOf]
    | cons c cs =>
      obtain ⟨b', tail', he', -, hlead'⟩ := exists_encodeChar c
      have hc : bytesOf (c :: cs) = b' :: (tail' ++ bytesOf cs) := by
        rw [bytesOf, List.flatMap_cons, he']
        rfl
      rw [ha, hc, List.cons_prefix_cons, List.cons_prefix_cons]
      constructor
      · rintro ⟨rfl, z, hz⟩
        -- the same bytes are read, so they are those of the same character
        have hread := hlead' (bytesOf cs)
        rw [← hz, List.append_assoc, hlead] at hread
        obtain ⟨rfl, -⟩ := Prod.mk.inj (Option.some.inj hread)
        obtain rfl := (List.cons.inj (he.symm.trans he')).2
        rw [List.append_assoc] at hz
        exact ⟨rfl, ih.1 ⟨z, List.append_cancel_left hz⟩⟩
      · rintro ⟨rfl, hpre⟩
        obtain ⟨rfl, rfl⟩ := List.cons.inj (he.symm.trans he')
        exact ⟨rfl, (List.prefix_append_right_inj tail).2 (ih.2 hpre)⟩

/-! ### Order -/

theorem ofNat_lt_iff {m n : Nat} (hm : m < 256) (hn : n < 256) :
    UInt8.ofNat m < UInt8.ofNat n ↔ m < n := by
  rw [UInt8.lt_iff_toNat_lt, UInt8.toNat_ofNat_of_lt' hm, UInt8.toNat_ofNat_of_lt' hn]

theorem ofNat_inj {m n : Nat} (hm : m < 256) (hn : n < 256) :
    UInt8.ofNat m = UInt8.ofNat n ↔ m = n := by
  rw [← UInt8.toNat_inj, UInt8.toNat_ofNat_of_lt' hm, UInt8.toNat_ofNat_of_lt' hn]

theorem encodeChar_lt (h : c < d) (x y : List UInt8) :
    String.utf8EncodeChar c ++ x < String.utf8EncodeChar d ++ y := by
  have hlt : c.val.toNat < d.val.toNat := h
  have hd := d.valid
  rw [UInt32.isValidChar, Nat.isValidChar] at hd
  unfold String.utf8EncodeChar
  generalize c.val.toNat = v at hlt
  generalize d.val.toNat = w at hlt hd
  -- the digits of a number to the base 64 stand in each other
  have hdigits (n : Nat) (hn : n < 0x110000) : n / 262144 % 8 = n / 4096 / 64 ∧
      n / 64 / 64 = n / 4096 := by
    rw [Nat.div_div_eq_div_mul, Nat.div_div_eq_div_mul]
    exact ⟨Nat.mod_eq_of_lt (by omega), rfl⟩
  have hv := hdigits v (by omega)
  have hw := hdigits w (by omega)
  dsimp only
  split_ifs
  all_goals
    simp (disch := omega) only [List.cons_append, List.nil_append, List.cons_lt_cons_iff,
      ofNat_lt_iff, ofNat_inj]
    omega

theorem bytesOf_lt {as : List Char} (h : as < cs) : bytesOf as < bytesOf cs := by
  induction as generalizing cs with
  | nil =>
    cases cs with
    | nil => exact absurd h (List.lt_irrefl _)
    | cons c cs =>
      obtain ⟨b, tail, he, -⟩ := exists_encodeChar c
      rw [bytesOf, bytesOf, List.flatMap_cons, he]
      exact List.nil_lt_cons ..
  | cons a as ih =>
    cases cs with
    | nil => cases h
    | cons c cs =>
      rw [bytesOf, bytesOf, List.flatMap_cons, List.flatMap_cons]
      rcases List.cons_lt_cons_iff.1 h with hlt | ⟨rfl, hlt⟩
      · exact encodeChar_lt hlt ..
      · exact List.append_left_lt (ih hlt)

/-- Texts are in the order of their bytes. -/
theorem encode_lt_iff : encode s < encode t ↔ s < t := by
  have hmono {s t : String} (h : s < t) : encode s < encode t := by
    rw [encode_eq_bytesOf, encode_eq_bytesOf]
    exact bytesOf_lt (String.lt_iff.1 h)
  refine ⟨fun h => ?_, hmono⟩
  refine Decidable.byContradiction fun hn => ?_
  rcases Std.le_iff_lt_or_eq.1 (String.not_lt.1 hn) with hlt | rfl
  · exact List.lt_irrefl _ (List.lt_trans h (hmono hlt))
  · exact List.lt_irrefl _ h

end GatedCalls.Text.Utf8
