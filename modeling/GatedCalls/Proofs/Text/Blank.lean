import Mathlib.Data.List.DropRight
import Mathlib.Data.List.TakeWhile
import GatedCalls.Text.Blank

/-!
# Blanks at the ends of a text

The blanks at the two ends are taken away in any order (`trimStart_trimEnd`), and blanks that are
put there change nothing of what is left (`trim_surround`).
-/

namespace GatedCalls.Text

variable {cs ds w : List Char} {b c : Char}

theorem trimEnd_append (cs ds : List Char) :
    trimEnd (cs ++ ds) = if trimEnd ds = [] then trimEnd cs else cs ++ trimEnd ds := by
  rw [trimEnd, List.reverse_append, List.dropWhile_append]
  cases h : ds.reverse.dropWhile isBlank with
  | nil => simp [trimEnd, h]
  | cons c rest => simp [trimEnd, h]

theorem trimEnd_of_word (hw : ∀ c ∈ w, isBlank c = false) : trimEnd w = w := by
  cases hr : w.reverse with
  | nil => rw [List.reverse_eq_nil_iff.1 hr]; rfl
  | cons c rest =>
    have hc : isBlank c = false := hw c (by rw [← List.mem_reverse, hr]; exact List.mem_cons_self)
    rw [trimEnd, hr, List.dropWhile_cons, if_neg (by simp [hc]), ← hr, List.reverse_reverse]

/-- The blanks at the two ends are taken away in any order. -/
theorem trimStart_trimEnd (cs : List Char) : trimStart (trimEnd cs) = trimEnd (trimStart cs) := by
  induction cs with
  | nil => rfl
  | cons c cs ih =>
    have hsplit : trimEnd (c :: cs) = if trimEnd cs = [] then trimEnd [c] else c :: trimEnd cs :=
      trimEnd_append [c] cs
    cases hc : isBlank c with
    | false =>
      have hsame (l : List Char) : trimStart (c :: l) = c :: l := by
        rw [trimStart, List.dropWhile_cons, if_neg (by simp [hc])]
      have hword : trimEnd [c] = [c] := trimEnd_of_word (by simpa using hc)
      rw [hsame, hsplit, hword]
      split <;> exact hsame _
    | true =>
      have hdrop (l : List Char) : trimStart (c :: l) = trimStart l := by
        rw [trimStart, List.dropWhile_cons, if_pos hc]
        rfl
      have hblank : trimEnd [c] = [] := by simp [trimEnd, hc]
      rw [hdrop, ← ih, hsplit, hblank]
      split
      · rename_i hnil
        rw [hnil]
      · exact hdrop _

theorem trimChars_trimEnd (cs : List Char) : trimChars (trimEnd cs) = trimChars cs := by
  have htwice (l : List Char) : trimEnd (trimEnd l) = trimEnd l :=
    List.rdropWhile_idempotent isBlank l
  rw [trimChars, trimStart_trimEnd, htwice]
  rfl

theorem trimChars_cons_blank (hb : isBlank b = true) (cs : List Char) :
    trimChars (b :: cs) = trimChars cs := by
  rw [trimChars, trimStart, List.dropWhile_cons, if_pos hb]
  rfl

theorem trimChars_blank_append (hb : ∀ c ∈ ds, isBlank c = true) (cs : List Char) :
    trimChars (ds ++ cs) = trimChars cs := by
  induction ds with
  | nil => rfl
  | cons b ds ih =>
    rw [List.forall_mem_cons] at hb
    rw [List.cons_append, trimChars_cons_blank hb.1, ih hb.2]

theorem trimChars_append_blank (hb : ∀ c ∈ ds, isBlank c = true) (cs : List Char) :
    trimChars (cs ++ ds) = trimChars cs := by
  have hnil : trimEnd ds = [] := by
    rw [trimEnd, List.reverse_eq_nil_iff, List.dropWhile_eq_nil_iff]
    intro c hc
    exact hb c (List.mem_reverse.1 hc)
  rw [← trimChars_trimEnd, trimEnd_append, if_pos hnil, trimChars_trimEnd]

theorem isBlankText_iff (s : String) : isBlankText s = true ↔ trim s = "" := by
  rw [isBlankText, List.all_eq_true]
  constructor
  · intro h
    have hstart : trimStart s.toList = [] := List.dropWhile_eq_nil_iff.2 h
    rw [trim, trimChars, hstart]
    rfl
  · intro h c hc
    have hchars : trimEnd (trimStart s.toList) = [] := by simpa [trim, trimChars] using h
    rw [trimEnd, List.reverse_eq_nil_iff, List.dropWhile_eq_nil_iff] at hchars
    rw [← List.takeWhile_append_dropWhile (p := isBlank) (l := s.toList), List.mem_append] at hc
    rcases hc with hc | hc
    · exact List.mem_takeWhile_imp hc
    · exact hchars c (List.mem_reverse.2 hc)

/-- Blanks around a text are no part of what is left of it. -/
theorem trim_surround {before after : String} (hb : isBlankText before = true)
    (ha : isBlankText after = true) (s : String) : trim (before ++ s ++ after) = trim s := by
  rw [isBlankText, List.all_eq_true] at hb ha
  rw [trim, trim, String.toList_append, String.toList_append, trimChars_append_blank ha,
    trimChars_blank_append hb]

end GatedCalls.Text
