import GatedCalls.Json.Decoder

/-!
# How strings and numbers are spelled

The rules of JSON for strings and numbers, as relations between a text and what follows: `Spelt`
for a string and what it spells, `Loose` for a string that is only passed over, which may hold stray
bytes and halves of surrogate pairs, and `Unsigned` for a number. The readers of strings accept
these and no others; the reader of numbers takes as much as it can, so that it agrees with
`Unsigned` where the number cannot go on (`continues`).
-/

namespace GatedCalls.Json

/-! ### Strings -/

/-- A string without its first quotation mark, the characters it spells, and what follows it. -/
inductive Spelt : List Mark → List Char → List Mark → Prop
  | close {q : Mark} {rest : List Mark} (hq : q.is '"' = true) : Spelt (q :: rest) [] rest
  | plain {m : Mark} {ms rest : List Mark} {c : Char} {cs : List Char} (hm : m.symbol = .char c)
    (hq : c ≠ '"') (hb : c ≠ '\\') (hc : 0x20 ≤ c.toNat) (h : Spelt ms cs rest) :
    Spelt (m :: ms) (c :: cs) rest
  | escape {b e : Mark} {ms rest : List Mark} {c : Char} {cs : List Char} (hb : b.is '\\' = true)
    (he : shortEscape? e = some c) (h : Spelt ms cs rest) : Spelt (b :: e :: ms) (c :: cs) rest
  | unit {b u w x y z : Mark} {ms rest : List Mark} {n : Nat} {cs : List Char}
    (hb : b.is '\\' = true) (hu : u.is 'u' = true) (hn : codeUnit? w x y z = some n)
    (hl : isLeading n = false) (ht : isTrailing n = false) (h : Spelt ms cs rest) :
    Spelt (b :: u :: w :: x :: y :: z :: ms) (Char.ofNat n :: cs) rest
  | pair {b u w x y z b' u' w' x' y' z' : Mark} {ms rest : List Mark} {n n' : Nat} {cs : List Char}
    (hb : b.is '\\' = true) (hu : u.is 'u' = true) (hn : codeUnit? w x y z = some n)
    (hl : isLeading n = true) (hb' : b'.is '\\' = true) (hu' : u'.is 'u' = true)
    (hn' : codeUnit? w' x' y' z' = some n') (ht' : isTrailing n' = true) (h : Spelt ms cs rest) :
    Spelt (b :: u :: w :: x :: y :: z :: b' :: u' :: w' :: x' :: y' :: z' :: ms)
      (Char.ofNat (0x10000 + (n - 0xd800) * 1024 + (n' - 0xdc00)) :: cs) rest

/-- A string that need not spell anything, without its first quotation mark, and what follows it. -/
inductive Loose : List Mark → List Mark → Prop
  | close {q : Mark} {rest : List Mark} (hq : q.is '"' = true) : Loose (q :: rest) rest
  | plain {m : Mark} {ms rest : List Mark} {c : Char} (hm : m.symbol = .char c) (hq : c ≠ '"')
    (hb : c ≠ '\\') (hc : 0x20 ≤ c.toNat) (h : Loose ms rest) : Loose (m :: ms) rest
  | stray {m : Mark} {ms rest : List Mark} {b : UInt8} (hm : m.symbol = .stray b)
    (h : Loose ms rest) : Loose (m :: ms) rest
  | escape {b e : Mark} {ms rest : List Mark} (hb : b.is '\\' = true)
    (he : (shortEscape? e).isSome = true) (h : Loose ms rest) : Loose (b :: e :: ms) rest
  | unit {b u w x y z : Mark} {ms rest : List Mark} (hb : b.is '\\' = true) (hu : u.is 'u' = true)
    (hn : (codeUnit? w x y z).isSome = true) (h : Loose ms rest) :
    Loose (b :: u :: w :: x :: y :: z :: ms) rest

variable {ms rest : List Mark} {m : Mark} {cs : List Char}

theorem Mark.is_iff {c : Char} : m.is c = true ↔ m.symbol = .char c := by
  simp [Mark.is]

theorem Mark.is_eq_decide {c d : Char} (h : m.symbol = .char c) : m.is d = decide (c = d) := by
  rw [Mark.is, h, Bool.eq_iff_iff]
  simp

theorem shortEscape?_u (h : m.is 'u' = true) : shortEscape? m = none := by
  rw [Mark.is_iff] at h
  simp [shortEscape?, h]

theorem isLeading_of_isTrailing {n : Nat} (h : isTrailing n = true) : isLeading n = false := by
  simp only [isTrailing, isLeading, Bool.and_eq_true, decide_eq_true_eq, Bool.and_eq_false_iff,
    decide_eq_false_iff_not] at *
  omega

theorem Spelt.loose (h : Spelt ms cs rest) : Loose ms rest := by
  induction h with
  | close hq => exact .close hq
  | plain hm hq hb hc _ ih => exact .plain hm hq hb hc ih
  | escape hb he _ ih => exact .escape hb (by simp [he]) ih
  | unit hb hu hn _ _ _ ih => exact .unit hb hu (by simp [hn]) ih
  | pair hb hu hn _ hb' hu' hn' _ _ ih =>
    exact .unit hb hu (by simp [hn]) (.unit hb' hu' (by simp [hn']) ih)

theorem spelt_of_readString {acc : List Char} {s : String}
    (h : readString acc ms = .ok (s, rest)) :
    ∃ cs, Spelt ms cs rest ∧ s = String.ofList (acc.reverse ++ cs) := by
  fun_induction readString acc ms with
  | case2 acc q rest' hq =>
    cases h
    exact ⟨[], .close hq, by simp⟩
  | case4 acc b _ hb e more c he ih =>
    obtain ⟨cs, hcs, rfl⟩ := ih h
    exact ⟨c :: cs, .escape hb he hcs, by simp⟩
  | case8 acc b _ hb u _ hu w x y z after n hn ht hl ih =>
    obtain ⟨cs, hcs, rfl⟩ := ih h
    exact ⟨Char.ofNat n :: cs, .unit hb (by simpa using hu) hn (by simpa using hl)
      (by simpa using ht) hcs, by simp⟩
  | case14 acc b _ hb u _ hu w x y z n hn ht hl b' hb' u' hu' w' x' y' z' after n' hn' ht' ih =>
    obtain ⟨cs, hcs, rfl⟩ := ih h
    exact ⟨_ :: cs, .pair hb (by simpa using hu) hn (by simpa using hl) (by simpa using hb')
      (by simpa using hu') hn' ht' hcs, by simp⟩
  | case20 acc m more hq hb c hm hc ih =>
    obtain ⟨cs, hcs, rfl⟩ := ih h
    refine ⟨c :: cs, .plain hm ?_ ?_ (by omega) hcs, by simp⟩
    · rintro rfl
      exact hq (Mark.is_iff.2 hm)
    · rintro rfl
      exact hb (Mark.is_iff.2 hm)
  | _ => cases h

theorem readString_of_spelt {acc : List Char} (h : Spelt ms cs rest) :
    readString acc ms = .ok (String.ofList (acc.reverse ++ cs), rest) := by
  induction h generalizing acc with
  | close hq =>
    unfold readString
    rw [if_pos hq, List.append_nil]
  | plain hm hq hb hc _ ih =>
    unfold readString
    simp [Mark.is_eq_decide hm, hq, hb, hm, Nat.not_lt.2 hc, ih]
  | escape hb he _ ih =>
    unfold readString
    simp [Mark.is_eq_decide (Mark.is_iff.1 hb), he, ih]
  | unit hb hu hn hl ht _ ih =>
    unfold readString
    simp [Mark.is_eq_decide (Mark.is_iff.1 hb), hu, shortEscape?_u hu, hn, hl, ht, ih]
  | pair hb hu hn hl hb' hu' hn' ht' _ ih =>
    have ht := Bool.eq_false_iff.2 fun ht => Bool.eq_false_iff.1 (isLeading_of_isTrailing ht) hl
    unfold readString
    simp [Mark.is_eq_decide (Mark.is_iff.1 hb), hu, shortEscape?_u hu, hn, hl, ht, hb', hu', hn',
      ht', ih]

theorem skipString_iff : skipString ms = .ok rest ↔ Loose ms rest := by
  constructor
  · intro h
    fun_induction skipString ms with
    | case2 q rest' hq =>
      cases h
      exact .close hq
    | case4 b _ hb e more he ih => exact .escape hb he (ih h)
    | case6 b _ hb u _ hu w x y z after hn ih => exact .unit hb (by simpa using hu) hn (ih h)
    | case9 m more _ _ b hm ih => exact .stray hm (ih h)
    | case11 m more hq hb c hm hc ih =>
      refine .plain hm ?_ ?_ (by omega) (ih h)
      · rintro rfl
        exact hq (Mark.is_iff.2 hm)
      · rintro rfl
        exact hb (Mark.is_iff.2 hm)
    | _ => cases h
  · intro h
    induction h with
    | close hq =>
      unfold skipString
      rw [if_pos hq]
    | plain hm hq hb hc _ ih =>
      unfold skipString
      simp [Mark.is_eq_decide hm, hq, hb, hm, Nat.not_lt.2 hc, ih]
    | stray hm _ ih =>
      unfold skipString
      simp [Mark.is, hm, ih]
    | escape hb he _ ih =>
      unfold skipString
      simp [Mark.is_eq_decide (Mark.is_iff.1 hb), he, ih]
    | unit hb hu hn _ ih =>
      unfold skipString
      simp [Mark.is_eq_decide (Mark.is_iff.1 hb), hu, shortEscape?_u hu, hn, ih]

theorem Loose.length_lt (h : Loose ms rest) : rest.length < ms.length := by
  induction h with
  | close => exact Nat.lt_succ_self _
  | plain _ _ _ _ _ ih | stray _ _ ih | escape _ _ _ ih | unit _ _ _ _ ih =>
    simp only [List.length_cons]
    omega

/-! ### Numbers -/

/-- Digits, at least one, and what follows them. -/
inductive Digits : List Mark → List Mark → Prop
  | last {d : Mark} {rest : List Mark} (hd : d.isDigit = true) : Digits (d :: rest) rest
  | more {d : Mark} {ms rest : List Mark} (hd : d.isDigit = true) (h : Digits ms rest) :
    Digits (d :: ms) rest

/-- The part of a number before the point: digits of which only the last may be a leading zero. -/
inductive Whole : List Mark → List Mark → Prop
  | zero {z : Mark} {rest : List Mark} (hz : z.is '0' = true) : Whole (z :: rest) rest
  | digits {d : Mark} {ms rest : List Mark} (hd : d.is '0' = false) (h : Digits (d :: ms) rest) :
    Whole (d :: ms) rest

inductive Fraction : List Mark → List Mark → Prop
  | absent {rest : List Mark} : Fraction rest rest
  | digits {p : Mark} {ms rest : List Mark} (hp : p.is '.' = true) (h : Digits ms rest) :
    Fraction (p :: ms) rest

inductive Sign : List Mark → List Mark → Prop
  | absent {rest : List Mark} : Sign rest rest
  | sign {s : Mark} {rest : List Mark} (hs : (s.is '-' || s.is '+') = true) : Sign (s :: rest) rest

inductive Exponent : List Mark → List Mark → Prop
  | absent {rest : List Mark} : Exponent rest rest
  | digits {e : Mark} {ms ds rest : List Mark} (he : (e.is 'e' || e.is 'E') = true)
    (hs : Sign ms ds) (h : Digits ds rest) : Exponent (e :: ms) rest

/-- A number without a minus sign, and what follows it. -/
inductive Unsigned : List Mark → List Mark → Prop
  | parts {ms as bs rest : List Mark} (hw : Whole ms as) (hf : Fraction as bs)
    (he : Exponent bs rest) : Unsigned ms rest

/-- Whether a number could go on with the first symbol. -/
def continues (rest : List Mark) : Bool :=
  rest.head?.any fun m => m.isDigit || m.is '.' || m.is 'e' || m.is 'E'

abbrev startsDigit (rest : List Mark) : Bool := rest.head?.any Mark.isDigit

theorem Digits.startsDigit (h : Digits ms rest) : startsDigit ms = true := by
  cases h with
  | last hd => simpa [Json.startsDigit] using hd
  | more hd _ => simpa [Json.startsDigit] using hd

theorem dropWhile_isDigit (h : startsDigit rest = false) : rest.dropWhile Mark.isDigit = rest := by
  cases rest with
  | nil => rfl
  | cons m rest => exact List.dropWhile_cons_of_neg (by simpa [Json.startsDigit] using h)

theorem startsDigit_dropWhile : startsDigit (ms.dropWhile Mark.isDigit) = false := by
  cases h : ms.dropWhile Mark.isDigit with
  | nil => rfl
  | cons m rest =>
    have := List.head_dropWhile_not Mark.isDigit (l := ms) (by simp [h])
    simpa [Json.startsDigit, h] using this

theorem Digits.dropWhile (h : Digits ms rest) (hr : Json.startsDigit rest = false) :
    ms.dropWhile Mark.isDigit = rest := by
  induction h with
  | last hd => rw [List.dropWhile_cons_of_pos hd, dropWhile_isDigit hr]
  | more hd _ ih => rw [List.dropWhile_cons_of_pos hd, ih hr]

theorem digits_dropWhile (h : startsDigit ms = true) :
    Digits ms (ms.dropWhile Mark.isDigit) := by
  induction ms with
  | nil => cases h
  | cons d ms ih =>
    have hd : d.isDigit = true := by simpa [Json.startsDigit] using h
    rw [List.dropWhile_cons_of_pos hd]
    by_cases hm : startsDigit ms = true
    · exact .more hd (ih hm)
    · rw [dropWhile_isDigit (Bool.eq_false_iff.2 hm)]
      exact .last hd

theorem Mark.is_of_isDigit {c : Char} (h : m.isDigit = true) (hc : c.isDigit = false) :
    m.is c = false := by
  rw [Bool.eq_false_iff]
  intro hm
  rw [Mark.is_iff] at hm
  simp [Mark.isDigit, Mark.digit?, hm, hc] at h

theorem whole_of_readWhole {ds : List Nat} (h : readWhole ms = .ok (ds, rest)) :
    Whole ms rest ∧ startsDigit rest = false := by
  cases ms with
  | nil => cases h
  | cons m ms =>
    unfold readWhole at h
    dsimp only at h
    split at h
    · split at h
      · cases h
      · cases h
        exact ⟨.zero ‹_›, Bool.eq_false_iff.2 ‹_›⟩
    · split at h
      · cases h
        have hd : startsDigit (m :: ms) = true := by simpa [startsDigit] using ‹m.isDigit = true›
        exact ⟨.digits (Bool.eq_false_iff.2 ‹_›) (digits_dropWhile hd), startsDigit_dropWhile⟩
      · cases h

theorem readWhole_of_whole (h : Whole ms rest) (hr : startsDigit rest = false) :
    ∃ ds, readWhole ms = .ok (ds, rest) := by
  cases h with
  | zero hz =>
    refine ⟨[0], ?_⟩
    unfold readWhole
    simp only [hz, if_true]
    rw [if_neg (Bool.eq_false_iff.1 hr)]
  | @digits d _ _ hd h =>
    have hdigit : d.isDigit = true := by simpa [startsDigit] using h.startsDigit
    unfold readWhole
    simp [hd, hdigit, spanDigits, h.dropWhile hr]

theorem fraction_of_readFraction {f : Option (List Nat)} (h : readFraction ms = .ok (f, rest)) :
    Fraction ms rest ∧ (startsDigit ms = false → startsDigit rest = false) := by
  cases ms with
  | nil =>
    cases h
    exact ⟨.absent, id⟩
  | cons m ms =>
    unfold readFraction at h
    dsimp only at h
    split at h
    · split at h
      · cases h
        exact ⟨.digits ‹_› (digits_dropWhile ‹_›), fun _ => startsDigit_dropWhile⟩
      · cases h
    · cases h
      exact ⟨.absent, id⟩

theorem readFraction_of_fraction (h : Fraction ms rest) (hr : startsDigit rest = false)
    (hp : rest.head?.any (·.is '.') = false) : ∃ f, readFraction ms = .ok (f, rest) := by
  cases h with
  | absent =>
    cases ms with
    | nil => exact ⟨_, rfl⟩
    | cons m ms =>
      have hm : m.is '.' = false := by simpa using hp
      unfold readFraction
      simp [hm]
  | digits hp h =>
    have hd := h.startsDigit
    unfold readFraction
    simp only [hp, if_true]
    rw [if_pos hd]
    exact ⟨_, by rw [spanDigits, h.dropWhile hr]⟩

/-- What follows the sign of an exponent. -/
def afterSign (ms : List Mark) : Bool × List Mark :=
  match ms with
  | s :: more => if s.is '-' then (true, more) else if s.is '+' then (false, more) else (false, ms)
  | [] => (false, ms)

theorem sign_afterSign : Sign ms (afterSign ms).2 := by
  cases ms with
  | nil => exact .absent
  | cons s more =>
    unfold afterSign
    dsimp only
    split
    · exact .sign (by simp [*])
    · split
      · exact .sign (by simp [*])
      · exact .absent

theorem afterSign_of_digits {ds : List Mark} (h : Sign ms ds) (hd : startsDigit ds = true) :
    (afterSign ms).2 = ds := by
  cases h with
  | absent =>
    cases ms with
    | nil => rfl
    | cons s more =>
      have hs : s.isDigit = true := by simpa [startsDigit] using hd
      unfold afterSign
      simp [Mark.is_of_isDigit hs]
  | sign hs =>
    unfold afterSign
    dsimp only
    split
    · rfl
    · rw [if_pos (by simpa [*] using hs)]

theorem readExponent_cons {m : Mark} : readExponent (m :: ms) =
    if m.is 'e' || m.is 'E' then
      if startsDigit (afterSign ms).2 then
        .ok (some ((afterSign ms).1, (spanMarkedDigits (afterSign ms).2).1),
          (spanMarkedDigits (afterSign ms).2).2)
      else .error (.before (afterSign ms).2)
    else .ok (none, m :: ms) := rfl

theorem exponent_of_readExponent {x : Option (Bool × List (Nat × Nat))}
    (h : readExponent ms = .ok (x, rest)) :
    Exponent ms rest ∧ (startsDigit ms = false → startsDigit rest = false) := by
  cases ms with
  | nil =>
    cases h
    exact ⟨.absent, id⟩
  | cons m ms =>
    rw [readExponent_cons] at h
    split at h
    · split at h
      · cases h
        exact ⟨.digits ‹_› sign_afterSign (digits_dropWhile ‹_›), fun _ => startsDigit_dropWhile⟩
      · cases h
    · cases h
      exact ⟨.absent, id⟩

theorem readExponent_of_exponent (h : Exponent ms rest) (hr : startsDigit rest = false)
    (he : rest.head?.any (fun m => m.is 'e' || m.is 'E') = false) :
    ∃ x, readExponent ms = .ok (x, rest) := by
  cases h with
  | absent =>
    cases ms with
    | nil => exact ⟨_, rfl⟩
    | cons m ms =>
      rw [readExponent_cons, if_neg (Bool.eq_false_iff.1 (by simpa using he))]
      exact ⟨_, rfl⟩
  | digits he hs h =>
    have hds := afterSign_of_digits hs h.startsDigit
    rw [readExponent_cons, if_pos he, hds, if_pos h.startsDigit]
    exact ⟨_, by rw [spanMarkedDigits, h.dropWhile hr]⟩

theorem bind_ok_iff {ε α β : Type} {x : Except ε α} {f : α → Except ε β} {c : β} :
    x >>= f = .ok c ↔ ∃ a, x = .ok a ∧ f a = .ok c := by
  cases x <;> simp [bind, Except.bind]

theorem unsigned_of_readNumeral {negative : Bool} {x : Numeral}
    (h : readNumeral negative ms = .ok (x, rest)) :
    Unsigned ms rest ∧ startsDigit rest = false := by
  obtain ⟨⟨w, as⟩, hw, h⟩ := bind_ok_iff.1 h
  obtain ⟨⟨f, bs⟩, hf, h⟩ := bind_ok_iff.1 h
  obtain ⟨⟨e, cs⟩, he, h⟩ := bind_ok_iff.1 h
  cases h
  obtain ⟨hwhole, hd⟩ := whole_of_readWhole hw
  obtain ⟨hfraction, hd'⟩ := fraction_of_readFraction hf
  obtain ⟨hexponent, hd''⟩ := exponent_of_readExponent he
  exact ⟨.parts hwhole hfraction hexponent, hd'' (hd' hd)⟩

theorem startsDigit_of_is {c : Char} (h : m.is c = true) (hc : c.isDigit = false) :
    startsDigit (m :: ms) = false := by
  rw [Bool.eq_false_iff]
  intro hm
  rw [Mark.is_of_isDigit (by simpa [startsDigit] using hm) hc] at h
  cases h

theorem Fraction.startsDigit (h : Fraction ms rest) (hr : Json.startsDigit rest = false) :
    Json.startsDigit ms = false := by
  cases h with
  | absent => exact hr
  | digits hp _ => exact startsDigit_of_is hp rfl

theorem Exponent.start (h : Exponent ms rest) (hr : continues rest = false) :
    startsDigit ms = false ∧ ms.head?.any (·.is '.') = false := by
  cases h with
  | absent =>
    cases ms with
    | nil => exact ⟨rfl, rfl⟩
    | cons m ms =>
      simp only [continues, List.head?_cons, Option.any_some, Bool.or_eq_false_iff] at hr
      exact ⟨hr.1.1.1, hr.1.1.2⟩
  | @digits e ms _ _ he =>
    rcases Bool.or_eq_true_iff.1 he with he | he
    · refine ⟨startsDigit_of_is he rfl, ?_⟩
      rw [List.head?_cons, Option.any_some, Mark.is_eq_decide (Mark.is_iff.1 he)]
      rfl
    · refine ⟨startsDigit_of_is he rfl, ?_⟩
      rw [List.head?_cons, Option.any_some, Mark.is_eq_decide (Mark.is_iff.1 he)]
      rfl

theorem readNumeral_of_unsigned (negative : Bool) (h : Unsigned ms rest)
    (hr : continues rest = false) : ∃ x, readNumeral negative ms = .ok (x, rest) := by
  cases h with
  | parts hw hf he =>
    obtain ⟨hdigit, hpoint⟩ := he.start hr
    have hstop : startsDigit rest = false ∧
        rest.head?.any (fun m => m.is 'e' || m.is 'E') = false := by
      cases rest with
      | nil => exact ⟨rfl, rfl⟩
      | cons m rest =>
        simp only [continues, List.head?_cons, Option.any_some, Bool.or_eq_false_iff] at hr
        simp [startsDigit, hr]
    obtain ⟨w, hw⟩ := readWhole_of_whole hw (hf.startsDigit hdigit)
    obtain ⟨f, hf⟩ := readFraction_of_fraction hf hdigit hpoint
    obtain ⟨x, he⟩ := readExponent_of_exponent he hstop.1 hstop.2
    exact ⟨⟨negative, w, f, x⟩, by simp [readNumeral, hw, hf, he, bind, Except.bind, pure,
      Except.pure]⟩

theorem Unsigned.isDigit (h : Unsigned (m :: ms) rest) : m.isDigit = true := by
  cases h with
  | parts hw _ _ =>
    cases hw with
    | zero hz =>
      rw [Mark.is_iff] at hz
      simp [Mark.isDigit, Mark.digit?, hz]
    | digits _ h => simpa [startsDigit] using h.startsDigit

theorem Digits.length_lt (h : Digits ms rest) : rest.length < ms.length := by
  induction h with
  | last => exact Nat.lt_succ_self _
  | more _ _ ih => exact Nat.lt_succ_of_lt ih

theorem Whole.length_lt (h : Whole ms rest) : rest.length < ms.length := by
  cases h with
  | zero => exact Nat.lt_succ_self _
  | digits _ h => exact h.length_lt

theorem Fraction.length_le (h : Fraction ms rest) : rest.length ≤ ms.length := by
  cases h with
  | absent => exact Nat.le_refl _
  | digits _ h => exact Nat.le_succ_of_le (Nat.le_of_lt h.length_lt)

theorem Exponent.length_le (h : Exponent ms rest) : rest.length ≤ ms.length := by
  cases h with
  | absent => exact Nat.le_refl _
  | digits _ hs h =>
    have := h.length_lt
    cases hs <;> simp only [List.length_cons] <;> omega

theorem Unsigned.length_lt (h : Unsigned ms rest) : rest.length < ms.length := by
  cases h with
  | parts hw hf he =>
    exact Nat.lt_of_le_of_lt (Nat.le_trans he.length_le hf.length_le) hw.length_lt

end GatedCalls.Json
