import GatedCalls.Text.Utf8

/-!
# Valid UTF-8 and where it can be cut

`Valid` says along the characters what `fault?` and `decode?` say by recursion. A byte below `0x80`
is a character by itself and never goes on with one, so valid bytes can be cut after it, and both
parts are valid (`Valid.cut`).
-/

namespace GatedCalls.Text.Utf8

/-- The bytes are characters, one after the other. -/
inductive Valid : List UInt8 → Prop
  | nil : Valid []
  | cons {b : UInt8} {rest : List UInt8} {c : Char} {n : Nat} (h : lead? b rest = some (c, n))
    (hv : Valid (rest.drop n)) : Valid (b :: rest)

variable {b : UInt8} {rest a l : List UInt8} {c : Char} {n : Nat}

theorem lead?_ascii (h : b < 0x80) : lead? b rest = some (Char.ofNat b.toNat, 0) := by
  unfold lead?
  exact if_pos h

/-- A character takes bytes that go on with it, and reads no others. -/
theorem lead?_spec (h : lead? b rest = some (c, n)) :
    ∃ tail, rest = tail ++ rest.drop n ∧ tail.length = n ∧ (∀ x ∈ tail, isTail x = true) ∧
      ∀ more, lead? b (tail ++ more) = some (c, n) := by
  unfold lead? at h
  split at h
  · rename_i h₁
    cases h
    exact ⟨[], rfl, rfl, by simp, fun more => by simp [lead?, h₁]⟩
  rename_i h₁
  split at h
  · rename_i h₂
    split at h
    · rename_i b1 more
      split at h
      · rename_i ht
        obtain ⟨rfl, rfl⟩ := Prod.mk.inj (Option.some.inj h)
        exact ⟨[b1], rfl, rfl, by simpa using ht, fun more => by simp [lead?, h₁, h₂, ht]⟩
      · cases h
    · cases h
  rename_i h₂
  split at h
  · rename_i h₃
    split at h
    · rename_i b1 b2 more
      split at h
      · rename_i ht
        obtain ⟨rfl, rfl⟩ := Prod.mk.inj (Option.some.inj h)
        refine ⟨[b1, b2], rfl, rfl, ?_, fun more => by simp [lead?, h₁, h₂, h₃, ht]⟩
        simp only [Bool.and_eq_true] at ht
        simp [ht]
      · cases h
    · cases h
  rename_i h₃
  split at h
  · rename_i h₄
    split at h
    · rename_i b1 b2 b3 more
      split at h
      · rename_i ht
        obtain ⟨rfl, rfl⟩ := Prod.mk.inj (Option.some.inj h)
        refine ⟨[b1, b2, b3], rfl, rfl, ?_, fun more => by simp [lead?, h₁, h₂, h₃, h₄, ht]⟩
        simp only [Bool.and_eq_true] at ht
        simp [ht]
      · cases h
    · cases h
  · cases h

theorem faultFrom?_eq_none_iff : faultFrom? n l = none ↔ Valid l := by
  induction n, l using faultFrom?.induct with
  | case1 => simp [faultFrom?, Valid.nil]
  | case2 n b rest c k h ih =>
    rw [faultFrom?, h]
    refine ih.trans ⟨fun hv => .cons h hv, fun hv => ?_⟩
    cases hv with
    | cons h' hv =>
      obtain ⟨-, rfl⟩ := Prod.mk.inj (Option.some.inj (h.symm.trans h'))
      exact hv
  | case3 n b rest h =>
    rw [faultFrom?, h]
    refine ⟨fun hf => (by cases hf), fun hv => ?_⟩
    cases hv with
    | cons h' _ => rw [h] at h'; cases h'

theorem fault?_eq_none_iff : fault? l = none ↔ Valid l := faultFrom?_eq_none_iff

theorem Valid.decode? (h : Valid l) : ∃ s, decode? l = some s := by
  have hs : ∃ cs, (symbols l).mapM Symbol.char? = some cs := by
    induction h with
    | nil => exact ⟨[], by simp [symbols]⟩
    | @cons b rest c n h _ ih =>
      obtain ⟨cs, hcs⟩ := ih
      exact ⟨c :: cs, by rw [symbols, h]; simp [Symbol.char?, hcs]⟩
  obtain ⟨cs, hcs⟩ := hs
  exact ⟨String.ofList cs, by rw [Utf8.decode?, hcs, Option.map_some]⟩

theorem Valid.cut (h : Valid (a ++ l)) (ha : ∀ x, a.getLast? = some x → x < 0x80) :
    Valid a ∧ Valid l := by
  generalize hal : a ++ l = w at h
  induction h generalizing a with
  | nil =>
    obtain ⟨rfl, rfl⟩ := List.append_eq_nil_iff.1 hal
    exact ⟨.nil, .nil⟩
  | @cons b rest c n h hv ih =>
    cases a with
    | nil =>
      obtain rfl : l = b :: rest := hal
      exact ⟨.nil, .cons h hv⟩
    | cons x a =>
      obtain ⟨rfl, rfl⟩ := List.cons.inj hal
      obtain ⟨tail, hsplit, hlen, htail, hsame⟩ := lead?_spec h
      -- the character ends within `a`, since the last byte of `a` goes on with none
      obtain ⟨m, rfl⟩ : ∃ m, a = tail ++ m := by
        rcases List.append_eq_append_iff.1 hsplit with ⟨m, rfl, -⟩ | ⟨m, rfl, -⟩
        · cases hy : a.getLast? with
          | none =>
            obtain rfl := List.getLast?_eq_none_iff.1 hy
            have hn : n = 0 := by
              rw [lead?_ascii (ha x rfl)] at h
              exact (Prod.mk.inj (Option.some.inj h)).2.symm
            obtain rfl : m = [] := List.eq_nil_of_length_eq_zero (hlen.trans hn)
            exact ⟨[], rfl⟩
          | some y =>
            have ht : isTail y = true := htail y (List.mem_append_left _ (List.mem_of_getLast? hy))
            have hge : 0x80 ≤ y := of_decide_eq_true (Bool.and_eq_true_iff.1 ht).1
            have hlt : y < 0x80 := ha y (by rw [List.getLast?_cons, hy]; rfl)
            exact absurd hge (UInt8.not_le.2 hlt)
        · exact ⟨m, rfl⟩
      have hdrop : (tail ++ m ++ l).drop n = m ++ l := by
        rw [List.append_assoc, ← hlen, List.drop_left]
      have hm : ∀ x, m.getLast? = some x → x < 0x80 := by
        intro x hx
        refine ha x ?_
        rw [List.getLast?_cons, List.getLast?_append, hx]
        rfl
      obtain ⟨hvm, hvl⟩ := ih hm hdrop.symm
      refine ⟨.cons (hsame m) ?_, hvl⟩
      rw [← hlen, List.drop_left]
      exact hvm

end GatedCalls.Text.Utf8
