import Mathlib.Data.List.TakeWhile
import GatedCalls.Text.Lowercase

/-!
# The lower case of a part of a text

A text is lower-cased character by character, and only a capital sigma looks around itself, so a
part of a text can have another lower case at its place (`lowerIn`) than by itself: a sigma that
nothing but ignorable characters parts from an end of the part may look beyond that end. `Steady`
says that none of them sees anything there that changes its form, and `lowerIn_eq_iff` that this is
all that can make a difference.
-/

namespace GatedCalls.Text

variable {cs u v before after seen : List Char}

/-- The lower case of a text at its place after `before`, read backwards, and before `after`. -/
def lowerIn (before : List Char) : (cs after : List Char) → List Char
  | [], _ => []
  | c :: rest, after =>
    (if c = 'Σ' then [lowerSigma before (rest ++ after)] else lowerChar c) ++
      lowerIn (c :: before) rest after

theorem lowerAfter_append (before cs after : List Char) :
    lowerAfter before (cs ++ after) =
      lowerIn before cs after ++ lowerAfter (cs.reverse ++ before) after := by
  induction cs generalizing before with
  | nil => rfl
  | cons c cs ih =>
    rw [List.cons_append, lowerAfter, lowerIn, ih, List.append_assoc, List.reverse_cons,
      List.append_assoc, List.singleton_append]

theorem lowerAfter_eq_lowerIn (before cs : List Char) :
    lowerAfter before cs = lowerIn before cs [] := by
  have h := lowerAfter_append before cs []
  rwa [List.append_nil, lowerAfter, List.append_nil] at h

theorem lowerChar_ne_nil (c : Char) : lowerChar c ≠ [] := by
  unfold lowerChar
  split
  · simp
  · split
    · simp
    · split <;> simp

theorem lowerAfter_eq_nil_iff : lowerAfter before cs = [] ↔ cs = [] := by
  cases cs with
  | nil => simp [lowerAfter]
  | cons c cs =>
    have hc : (if c = 'Σ' then [lowerSigma before cs] else lowerChar c) ≠ [] := by
      split
      · simp
      · exact lowerChar_ne_nil c
    simp [lowerAfter, hc]

/-! ### What a sigma sees -/

theorem meetsCased_of_ignorable (h : ∀ c ∈ cs, isCaseIgnorable c = true) (ds : List Char) :
    meetsCased (cs ++ ds) = meetsCased ds := by
  rw [meetsCased, List.dropWhile_append, List.dropWhile_eq_nil_iff.2 h]
  rfl

theorem meetsCased_of_not_ignorable (h : ¬ ∀ c ∈ cs, isCaseIgnorable c = true) (ds : List Char) :
    meetsCased (cs ++ ds) = meetsCased cs := by
  rw [meetsCased, meetsCased, List.dropWhile_append]
  cases hd : cs.dropWhile isCaseIgnorable with
  | nil => exact absurd (List.dropWhile_eq_nil_iff.1 hd) h
  | cons c rest => rfl

theorem inRanges_eq_any (table : Array (Nat × Nat)) (c : Char) :
    inRanges table c = table.toList.any fun r => r.1 ≤ c.toNat && c.toNat ≤ r.2 := by
  rw [inRanges, Array.any_toList]

theorem meetsCased_of_letter {c : Char}
    (hcased : casedRanges.toList.any (fun r => r.1 ≤ c.toNat && c.toNat ≤ r.2) = true)
    (hplain : caseIgnorableRanges.toList.any (fun r => r.1 ≤ c.toNat && c.toNat ≤ r.2) = false)
    (cs : List Char) : meetsCased (c :: cs) = true := by
  have hignorable : isCaseIgnorable c = false := (inRanges_eq_any ..).trans hplain
  rw [meetsCased, List.dropWhile_cons_of_neg (by simp [hignorable])]
  exact (inRanges_eq_any ..).trans hcased

/-- A sigma of a text, after `u`, read backwards, and before `v` there, has the form that it has in
the text by itself unless it sees a cased letter before the text that makes it final, or one behind
the text that keeps it from being final. -/
theorem lowerSigma_eq_iff : lowerSigma (u ++ before) (v ++ after) = lowerSigma u v ↔
    ¬ ((∀ c ∈ u, isCaseIgnorable c = true) ∧ meetsCased before = true ∧
        meetsCased (v ++ after) = false) ∧
      ¬ (meetsCased u = true ∧ (∀ c ∈ v, isCaseIgnorable c = true) ∧ meetsCased after = true) := by
  have hnone {l : List Char} (h : ∀ c ∈ l, isCaseIgnorable c = true) : meetsCased l = false := by
    have hnil := meetsCased_of_ignorable h []
    rwa [List.append_nil] at hnil
  by_cases hu : ∀ c ∈ u, isCaseIgnorable c = true
  · rw [lowerSigma, lowerSigma, meetsCased_of_ignorable hu, hnone hu]
    cases meetsCased before <;> cases meetsCased (v ++ after) <;> simp
    exact hu
  · rw [lowerSigma, lowerSigma, meetsCased_of_not_ignorable hu]
    by_cases hv : ∀ c ∈ v, isCaseIgnorable c = true
    · rw [meetsCased_of_ignorable hv, hnone hv]
      cases meetsCased u <;> cases meetsCased after <;> simp [hu]
      exact hv
    · rw [meetsCased_of_not_ignorable hv]
      simp [hu, hv]

/-- Where a text stands after `before`, read backwards, and before `after`, no sigma of it sees
anything that gives it another form. -/
structure Steady (before cs after : List Char) : Prop where
  /-- None becomes final by a cased letter before the text. -/
  opening : ∀ u v, cs = u ++ 'Σ' :: v → ¬ ((∀ c ∈ u, isCaseIgnorable c = true) ∧
    meetsCased before = true ∧ meetsCased (v ++ after) = false)
  /-- None that ends a word of the text goes on with a cased letter behind it. -/
  closing : ∀ u v, cs = u ++ 'Σ' :: v → ¬ (meetsCased u.reverse = true ∧
    (∀ c ∈ v, isCaseIgnorable c = true) ∧ meetsCased after = true)

theorem lowerIn_seen_eq_iff : lowerIn (seen ++ before) cs after = lowerIn seen cs [] ↔
    ∀ u v, cs = u ++ 'Σ' :: v →
      lowerSigma (u.reverse ++ seen ++ before) (v ++ after) = lowerSigma (u.reverse ++ seen) v := by
  induction cs generalizing seen with
  | nil => simp [lowerIn]
  | cons c cs ih =>
    have hrest := @ih (c :: seen)
    rw [List.cons_append] at hrest
    rw [lowerIn, lowerIn, List.append_nil]
    by_cases hc : c = 'Σ'
    · subst hc
      rw [if_pos rfl, if_pos rfl, List.singleton_append, List.singleton_append, List.cons.injEq,
        hrest]
      constructor
      · rintro ⟨hhead, htail⟩ u v huv
        cases u with
        | nil =>
          obtain ⟨-, rfl⟩ := List.cons.inj huv
          exact hhead
        | cons d u =>
          obtain ⟨rfl, rfl⟩ := List.cons.inj huv
          simpa using htail u v rfl
      · intro h
        refine ⟨by simpa using h [] cs rfl, fun u v huv => ?_⟩
        simpa using h ('Σ' :: u) v (by rw [huv]; rfl)
    · rw [if_neg hc, if_neg hc, List.append_cancel_left_eq, hrest]
      constructor
      · intro h u v huv
        cases u with
        | nil => exact absurd (List.cons.inj huv).1 hc
        | cons d u =>
          obtain ⟨rfl, rfl⟩ := List.cons.inj huv
          simpa using h u v rfl
      · intro h u v huv
        simpa using h (c :: u) v (by rw [huv]; rfl)

/-- A text has at its place the lower case that it has by itself exactly if it is steady there. -/
theorem lowerIn_eq_iff : lowerIn before cs after = lowerAfter [] cs ↔ Steady before cs after := by
  have hseen := @lowerIn_seen_eq_iff cs before after []
  rw [List.nil_append] at hseen
  rw [lowerAfter_eq_lowerIn, hseen]
  simp only [List.append_nil, lowerSigma_eq_iff, List.mem_reverse]
  constructor
  · intro h
    exact ⟨fun u v huv => (h u v huv).1, fun u v huv => (h u v huv).2⟩
  · intro h u v huv
    exact ⟨h.opening u v huv, h.closing u v huv⟩

theorem steady_of_no_sigma (h : 'Σ' ∉ cs) (before after : List Char) : Steady before cs after := by
  constructor
  all_goals
    rintro u v rfl
    simp at h

end GatedCalls.Text
