import GatedCalls.Proofs.Text.Blank
import GatedCalls.Shell.Session

/-!
# What a line asks for

A line is read after its blanks at both ends are taken away. `Reading.order?` and `Reading.ends` say
what it asks for in terms of the line as it was typed: its first word, and what stands behind that.
`handle_eq` says that the session understands lines so, and `step_of_order` and `step_of_idle` are
all that it does with a reading: it makes the call and prints what came of it, or prints something
at most.
-/

namespace GatedCalls

namespace Text

variable {cs ds w rest : List Char} {b c : Char}

def firstWord (cs : List Char) : List Char := (trimStart cs).takeWhile (!isBlank ·)

/-- The text behind the first word, without the blanks at both ends. -/
def afterWord (cs : List Char) : List Char := trimChars ((trimStart cs).dropWhile (!isBlank ·))

/-! ### The first word -/

theorem firstWord_not_blank (h : c ∈ firstWord cs) : isBlank c = false := by
  simpa using List.mem_takeWhile_imp h

theorem exists_gap (cs : List Char) : ∃ gap, trimChars cs = firstWord cs ++ gap ∧
    trimChars gap = afterWord cs ∧ ∀ b ∈ gap.head?, isBlank b = true := by
  set rest := (trimStart cs).dropWhile (!isBlank ·) with hrest
  have hsplit : firstWord cs ++ rest = trimStart cs := List.takeWhile_append_dropWhile
  have hword : trimEnd (firstWord cs) = firstWord cs :=
    trimEnd_of_word fun c hc => firstWord_not_blank hc
  refine ⟨trimEnd rest, ?_, trimChars_trimEnd rest, fun b hb => ?_⟩
  · rw [trimChars, ← hsplit, trimEnd_append, hword]
    split
    · rename_i hnil
      rw [hnil, List.append_nil]
    · rfl
  · obtain ⟨more, hmore⟩ : trimEnd rest <+: rest := List.rdropWhile_prefix isBlank rest
    have hhead : rest.head? = some b := by rw [← hmore, List.head?_append, hb]; rfl
    have hnot := List.head?_dropWhile_not (!isBlank ·) (trimStart cs)
    rw [← hrest, hhead] at hnot
    simpa using hnot

theorem splitBlank?_word (hw : ∀ c ∈ w, isBlank c = false) : splitBlank? w = none := by
  induction w with
  | nil => rfl
  | cons c w ih =>
    obtain ⟨hc, hw⟩ := List.forall_mem_cons.1 hw
    rw [splitBlank?, if_neg (by simp [hc]), ih hw]
    rfl

theorem splitBlank?_append (hw : ∀ c ∈ w, isBlank c = false) (hb : isBlank b = true)
    (rest : List Char) : splitBlank? (w ++ b :: rest) = some (w, rest) := by
  induction w with
  | nil => exact if_pos hb
  | cons c w ih =>
    obtain ⟨hc, hw⟩ := List.forall_mem_cons.1 hw
    rw [List.cons_append, splitBlank?, if_neg (by simp [hc]), ih hw]
    rfl

theorem wordsFrom_cons (hc : isBlank c = false) (rest : List Char) : wordsFrom (c :: rest) =
    match rest, wordsFrom rest with
    | d :: _, w :: ws => if isBlank d then [c] :: w :: ws else (c :: w) :: ws
    | _, ws => [c] :: ws := by
  rw [wordsFrom.eq_def]
  exact if_neg (by simp [hc])

theorem wordsFrom_append (hne : w ≠ []) (hw : ∀ c ∈ w, isBlank c = false)
    (hgap : ∀ b ∈ rest.head?, isBlank b = true) : wordsFrom (w ++ rest) = w :: wordsFrom rest := by
  induction w with
  | nil => exact absurd rfl hne
  | cons c w ih =>
    obtain ⟨hc, hw⟩ := List.forall_mem_cons.1 hw
    rw [List.cons_append, wordsFrom_cons hc]
    cases w with
    | nil =>
      rw [List.nil_append]
      cases rest with
      | nil => rfl
      | cons b more =>
        have hb : isBlank b = true := hgap b rfl
        cases wordsFrom (b :: more) <;> simp [hb]
    | cons d w =>
      have hd : isBlank d = false := hw d List.mem_cons_self
      rw [ih (List.cons_ne_nil _ _) hw]
      simp [hd]

theorem firstWord_eq_nil_iff : firstWord cs = [] ↔ trimChars cs = [] := by
  constructor
  · intro hnil
    have hstart : trimStart cs = [] := by
      cases h : trimStart cs with
      | nil => rfl
      | cons c rest =>
        have hnot := List.head?_dropWhile_not isBlank cs
        rw [show cs.dropWhile isBlank = c :: rest from h] at hnot
        have hc : isBlank c = false := by simpa using hnot
        simp [firstWord, h, hc] at hnil
    rw [trimChars, hstart]
    rfl
  · intro hnil
    obtain ⟨gap, htrim, -⟩ := exists_gap cs
    rw [hnil] at htrim
    exact (List.append_eq_nil_iff.1 htrim.symm).1

end Text

namespace Shell

open Text (firstWord afterWord)

variable {σ : Type} {b : Backend σ} {s : σ} {x : Reading} {text tool : String} {v : Json}
  {cs : List Char}

/-! ### What is asked for -/

/-- The call that a reading asks for: the first word of a line, if that is no command, and the value
that stands behind it. -/
def Reading.order? : Reading → Option (String × Json)
  | .line text =>
    match firstWord text.toList with
    | [] | '/' :: _ => none
    | tool =>
      (parseArgs (String.ofList (afterWord text.toList))).toOption.map (String.ofList tool, ·)
  | .interrupted | .failed _ => none

/-- Whether the session ends with a reading. -/
def Reading.ends : Reading → Bool
  | .line text =>
    let word := String.ofList (firstWord text.toList)
    word = "/exit" || word = "/quit"
  | .interrupted => false
  | .failed _ => true

/-- What is printed of the outcome of a call. -/
def Print.ofResult : Except DispatchError Response → Print
  | .ok r => .out (paragraph (response r))
  | .error e => .err (paragraph (failure e))

theorem Reading.order?_call {c : Char} {w : List Char} (hw : firstWord text.toList = c :: w)
    (hc : c ≠ '/') : (Reading.line text).order? =
      (parseArgs (String.ofList (afterWord text.toList))).toOption.map
        (String.ofList (c :: w), ·) := by
  rw [order?, hw]
  split
  · contradiction
  · rename_i heq
    exact absurd (List.cons.inj heq).1 hc
  · rfl

theorem Reading.ends_call {c : Char} {w : List Char} (hw : firstWord text.toList = c :: w)
    (hc : c ≠ '/') : (Reading.line text).ends = false := by
  have differs (rest : List Char) : String.ofList (c :: w) ≠ String.ofList ('/' :: rest) :=
    fun h => hc (List.cons.inj (String.ofList_injective h)).1
  rw [ends, hw, Bool.or_eq_false_iff, decide_eq_false_iff_not, decide_eq_false_iff_not]
  exact ⟨differs "exit".toList, differs "quit".toList⟩

/-- What asks for a call is a line whose first word is no command. -/
theorem Reading.order?_eq_some (h : x.order? = some (tool, v)) : ∃ text c w, x = .line text ∧
    firstWord text.toList = c :: w ∧ c ≠ '/' ∧ tool = String.ofList (c :: w) ∧
    parseArgs (String.ofList (afterWord text.toList)) = .ok v := by
  cases x with
  | line text =>
    cases hw : firstWord text.toList with
    | nil => simp [Reading.order?, hw] at h
    | cons c w =>
      by_cases hc : c = '/'
      · simp [Reading.order?, hw, hc] at h
      · rw [Reading.order?_call hw hc] at h
        cases hargs : parseArgs (String.ofList (afterWord text.toList)) with
        | error message => rw [hargs] at h; cases h
        | ok value =>
          rw [hargs] at h
          obtain ⟨rfl, rfl⟩ : String.ofList (c :: w) = tool ∧ value = v := by
            simpa [Except.toOption] using h
          exact ⟨text, c, w, rfl, hw, hc, rfl, hargs⟩
  | interrupted => cases h
  | failed text => cases h

theorem Reading.ends_of_order {call : String × Json} (h : x.order? = some call) :
    x.ends = false := by
  obtain ⟨text, c, w, rfl, hw, hc, -⟩ := Reading.order?_eq_some h
  exact Reading.ends_call hw hc

/-! ### How it is understood -/

theorem Line.parse_command {w : List Char} (hw : firstWord cs = '/' :: w) :
    ∃ args, Line.parse (String.ofList (Text.trimChars cs)) =
      .command (String.ofList ('/' :: w)) args := by
  obtain ⟨gap, htrim, -, hgap⟩ := Text.exists_gap cs
  have hwords : Text.words (String.ofList (Text.trimChars cs)) =
      String.ofList ('/' :: w) :: (Text.wordsFrom gap).map String.ofList := by
    rw [Text.words, String.toList_ofList, htrim, hw,
      Text.wordsFrom_append (List.cons_ne_nil _ _) (hw ▸ fun c => Text.firstWord_not_blank) hgap]
    rfl
  have hslash : (String.ofList (Text.trimChars cs)).toList.head? = some '/' := by
    rw [String.toList_ofList, htrim, hw]
    rfl
  refine ⟨(Text.wordsFrom gap).map String.ofList, ?_⟩
  simp only [Line.parse, hwords, if_pos hslash]

theorem Line.parse_append {w gap : List Char} (hslash : w.head? ≠ some '/') (hne : w ≠ [])
    (hword : ∀ c ∈ w, Text.isBlank c = false) (hgap : ∀ b ∈ gap.head?, Text.isBlank b = true) :
    Line.parse (String.ofList (w ++ gap)) =
      .call (String.ofList w) (String.ofList (Text.trimChars gap)) := by
  have hhead : (w ++ gap).head? = w.head? := List.head?_append_of_ne_nil _ hne
  rw [Line.parse, String.toList_ofList, hhead, if_neg hslash]
  cases gap with
  | nil =>
    rw [List.append_nil, Text.splitBlank?_word hword]
    rfl
  | cons b more =>
    have hb : Text.isBlank b = true := hgap b rfl
    rw [Text.splitBlank?_append hword hb, Text.trimChars_cons_blank hb]

theorem Line.parse_call {c : Char} {w : List Char} (hw : firstWord cs = c :: w) (hc : c ≠ '/') :
    Line.parse (String.ofList (Text.trimChars cs)) =
      .call (String.ofList (c :: w)) (String.ofList (afterWord cs)) := by
  obtain ⟨gap, htrim, hafter, hgap⟩ := Text.exists_gap cs
  have hword : ∀ d ∈ c :: w, Text.isBlank d = false := hw ▸ fun c => Text.firstWord_not_blank
  rw [htrim, hw, Line.parse_append (by simpa using hc) (List.cons_ne_nil _ _) hword hgap, hafter]

namespace Session

theorem handle_cases (b : Backend σ) (s : σ) (text : String) :
    (firstWord text.toList = [] ∧ handle b s text = (s, true)) ∨
    (∃ w args, firstWord text.toList = '/' :: w ∧
      handle b s text = command b s (String.ofList ('/' :: w)) args) ∨
    ∃ c w, firstWord text.toList = c :: w ∧ c ≠ '/' ∧ handle b s text =
      (call b s (String.ofList (c :: w)) (String.ofList (afterWord text.toList)), true) := by
  have hempty : (Text.trim text).isEmpty = true ↔ firstWord text.toList = [] := by
    rw [Text.firstWord_eq_nil_iff]
    simp [Text.trim]
  cases hw : firstWord text.toList with
  | nil => exact .inl ⟨rfl, by rw [handle, if_pos (hempty.2 hw)]⟩
  | cons c w =>
    have hsome : ¬ (Text.trim text).isEmpty = true := by simp [hempty, hw]
    by_cases hc : c = '/'
    · subst hc
      obtain ⟨args, hparse⟩ := Line.parse_command hw
      refine .inr (.inl ⟨w, args, rfl, ?_⟩)
      rw [handle, if_neg hsome, Text.trim, hparse]
    · refine .inr (.inr ⟨c, w, rfl, hc, ?_⟩)
      rw [handle, if_neg hsome, Text.trim, Line.parse_call hw hc]

theorem command_cases (b : Backend σ) (s : σ) (name : String) (args : List String) :
    let leaves := decide (name = "/exit") || decide (name = "/quit")
    command b s name args = (s, !leaves) ∨ ∃ p, command b s name args = (b.print s p, !leaves) := by
  intro leaves
  by_cases hleaves : name = "/exit" ∨ name = "/quit"
  · left
    rcases hleaves with rfl | rfl <;> rfl
  · right
    have hstays : leaves = false := by simpa [leaves] using hleaves
    rw [not_or] at hleaves
    rw [hstays]
    unfold command
    split
    · exact absurd rfl hleaves.1
    · exact absurd rfl hleaves.2
    · exact ⟨_, rfl⟩
    · exact ⟨_, rfl⟩
    · exact ⟨_, rfl⟩
    · exact ⟨_, rfl⟩

theorem call_ok {args : String} (h : parseArgs args = .ok v) (b : Backend σ) (s : σ)
    (tool : String) : call b s tool args =
      b.print (b.invoke s tool v).1 (.ofResult (b.invoke s tool v).2) := by
  rw [call, h]
  rcases hresult : b.invoke s tool v with ⟨s', e | r⟩ <;> simp only [hresult, Print.ofResult]

/-- What a session does with a reading that asks for a call: it makes the call, prints what came of
it, and goes on. -/
theorem step_of_order (h : x.order? = some (tool, v)) (b : Backend σ) (s : σ) :
    step b s x = (b.print (b.invoke s tool v).1 (.ofResult (b.invoke s tool v).2), true) := by
  obtain ⟨text, c, w, rfl, hw, hc, rfl, hargs⟩ := Reading.order?_eq_some h
  show handle b s text = _
  rcases handle_cases b s text with ⟨hnil, -⟩ | ⟨w', args, hslash, -⟩ | ⟨c', w', hw', -, hhandle⟩
  · rw [hw] at hnil
    cases hnil
  · rw [hw] at hslash
    exact absurd (List.cons.inj hslash).1 hc
  · obtain ⟨rfl, rfl⟩ := List.cons.inj (hw.symm.trans hw')
    rw [hhandle, call_ok hargs]

theorem step_of_idle (h : x.order? = none) (b : Backend σ) (s : σ) :
    step b s x = (s, !x.ends) ∨ ∃ p, step b s x = (b.print s p, !x.ends) := by
  cases x with
  | line text =>
    rcases handle_cases b s text with
      ⟨hw, hhandle⟩ | ⟨w, args, hw, hhandle⟩ | ⟨c, w, hw, hc, hhandle⟩
    · left
      show handle b s text = _
      rw [hhandle, Reading.ends, hw]
      rfl
    · show handle b s text = _ ∨ ∃ p, handle b s text = _
      rw [hhandle, Reading.ends, hw]
      exact command_cases b s _ args
    · rw [Reading.order?_call hw hc] at h
      cases hargs : parseArgs (String.ofList (afterWord text.toList)) with
      | ok value =>
        rw [hargs] at h
        cases h
      | error message =>
        refine .inr ⟨.err (paragraph message), ?_⟩
        show handle b s text = _
        rw [hhandle, Reading.ends_call hw hc, call, hargs]
        rfl
  | interrupted => exact .inr ⟨_, rfl⟩
  | failed text => exact .inr ⟨_, rfl⟩

end Session

end Shell

end GatedCalls
