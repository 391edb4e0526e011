import GatedCalls.Proofs.Shell.Session

/-!
# The grammar of a line

A line that is trimmed and not empty reads in one way only. If it starts with a slash it is the
command that its words make (`Line.parse_eq_command`); if not, it is a call and laid out as one
(`Line.parse_eq_call`): a `Nameable` name, and the arguments behind blanks unless there are none.
So the nameable names are those that a session can call, whatever is registered: a catalog takes
names with blanks in them and names that start with a slash too, and no line reaches those.
-/

namespace GatedCalls

namespace Text

variable {cs gap w rest : List Char} {ws : List (List Char)} {b c : Char}

/-! ### Words -/

/-- The text has these words, with blanks between them and perhaps around them. -/
inductive Worded : List Char → List (List Char) → Prop
  | blank (gap : List Char) (hgap : ∀ c ∈ gap, isBlank c = true) : Worded gap []
  | word (gap w rest : List Char) (ws : List (List Char)) (hgap : ∀ c ∈ gap, isBlank c = true)
    (hne : w ≠ []) (hw : ∀ c ∈ w, isBlank c = false) (hrest : ∀ b ∈ rest.head?, isBlank b = true)
    (h : Worded rest ws) : Worded (gap ++ w ++ rest) (w :: ws)

theorem Worded.cons_blank (hb : isBlank b = true) (h : Worded cs ws) : Worded (b :: cs) ws := by
  cases h with
  | blank _ hgap => exact .blank (b :: cs) (List.forall_mem_cons.2 ⟨hb, hgap⟩)
  | word gap w rest ws hgap hne hw hrest h =>
    exact .word (b :: gap) w rest ws (List.forall_mem_cons.2 ⟨hb, hgap⟩) hne hw hrest h

theorem Worded.cons (hc : isBlank c = false) (h : Worded cs ws) : ∃ ws, Worded (c :: cs) ws := by
  have hone : ∀ d ∈ [c], isBlank d = false := by simpa using hc
  cases h with
  | blank _ hgap =>
    have hhead : ∀ b ∈ cs.head?, isBlank b = true := fun b hb => hgap b (List.mem_of_mem_head? hb)
    exact ⟨_, .word [] [c] cs [] (by simp) (by simp) hone hhead (.blank cs hgap)⟩
  | word gap w rest ws hgap hne hw hrest h =>
    cases gap with
    | nil =>
      have hword : ∀ d ∈ c :: w, isBlank d = false := List.forall_mem_cons.2 ⟨hc, hw⟩
      exact ⟨_, .word [] (c :: w) rest ws (by simp) (by simp) hword hrest h⟩
    | cons b gap =>
      have hhead : ∀ d ∈ (b :: gap ++ w ++ rest).head?, isBlank d = true := by
        simpa using hgap b List.mem_cons_self
      exact ⟨_, .word [] [c] (b :: gap ++ w ++ rest) (w :: ws) (by simp) (by simp) hone hhead
        (.word (b :: gap) w rest ws hgap hne hw hrest h)⟩

theorem exists_worded (cs : List Char) : ∃ ws, Worded cs ws := by
  induction cs with
  | nil => exact ⟨[], .blank [] (by simp)⟩
  | cons c cs ih =>
    obtain ⟨ws, h⟩ := ih
    cases hc : isBlank c with
    | true => exact ⟨ws, h.cons_blank hc⟩
    | false => exact h.cons hc

theorem wordsFrom_blank_append (hgap : ∀ c ∈ gap, isBlank c = true) (cs : List Char) :
    wordsFrom (gap ++ cs) = wordsFrom cs := by
  induction gap with
  | nil => rfl
  | cons b gap ih =>
    obtain ⟨hb, hgap⟩ := List.forall_mem_cons.1 hgap
    rw [List.cons_append, wordsFrom.eq_def]
    exact (if_pos hb).trans (ih hgap)

theorem Worded.wordsFrom (h : Worded cs ws) : wordsFrom cs = ws := by
  induction h with
  | blank gap hgap =>
    rw [← List.append_nil gap, wordsFrom_blank_append hgap]
    rfl
  | word gap w rest ws hgap hne hw hrest _ ih =>
    rw [List.append_assoc, wordsFrom_blank_append hgap, wordsFrom_append hne hw hrest, ih]

/-- The words of a text are the only ones it has. -/
theorem wordsFrom_eq_iff : wordsFrom cs = ws ↔ Worded cs ws := by
  refine ⟨?_, Worded.wordsFrom⟩
  rintro rfl
  obtain ⟨ws, h⟩ := exists_worded cs
  rwa [h.wordsFrom]

theorem Worded.ne_nil (h : Worded cs (w :: ws)) : w ≠ [] := by
  cases h
  assumption

theorem words_eq_iff {s : String} {ws : List String} :
    words s = ws ↔ Worded s.toList (ws.map String.toList) := by
  rw [words, ← wordsFrom_eq_iff]
  constructor
  · rintro rfl
    simp [Function.comp_def]
  · intro h
    rw [h]
    simp [Function.comp_def]

/-! ### Trimmed texts -/

theorem trimChars_eq_self (hstart : ∀ c ∈ cs.head?, isBlank c = false)
    (hend : ∀ c ∈ cs.getLast?, isBlank c = false) : trimChars cs = cs := by
  have hdrop : trimStart cs = cs := by
    cases cs with
    | nil => rfl
    | cons c cs => simp [trimStart, hstart c rfl]
  rw [trimChars, hdrop]
  refine List.rdropWhile_eq_self_iff.2 fun hne => ?_
  simp [hend _ (List.getLast?_eq_getLast_of_ne_nil hne)]

theorem trimChars_of_word (hw : ∀ c ∈ w, isBlank c = false) : trimChars w = w :=
  trimChars_eq_self (fun c hc => hw c (List.mem_of_mem_head? hc))
    (fun c hc => hw c (List.mem_of_mem_getLast? hc))

theorem trimChars_idem (cs : List Char) : trimChars (trimChars cs) = trimChars cs := by
  have htwice : trimStart (trimStart cs) = trimStart cs := List.dropWhile_idempotent isBlank cs
  calc trimChars (trimChars cs) = trimChars (trimStart cs) := trimChars_trimEnd (trimStart cs)
    _ = trimChars cs := congrArg trimEnd htwice

/-- Behind the first word of a trimmed text stands nothing, or blanks and what is behind them. -/
theorem exists_layout (h : trimChars cs = cs) : ∃ gap, (∀ b ∈ gap, isBlank b = true) ∧
    cs = firstWord cs ++ (gap ++ afterWord cs) ∧ (gap = [] ↔ afterWord cs = []) := by
  obtain ⟨rest, hsplit, hafter, hhead⟩ := exists_gap cs
  rw [h] at hsplit
  have hword : ∀ c ∈ firstWord cs, isBlank c = false := fun c => firstWord_not_blank
  have hend : trimEnd rest = rest := by
    have hcs : trimEnd (firstWord cs ++ rest) = firstWord cs ++ rest := by
      rw [← hsplit, ← h]
      exact List.rdropWhile_idempotent isBlank _
    rw [trimEnd_append, trimEnd_of_word hword] at hcs
    split at hcs
    · rw [List.self_eq_append_right.1 hcs]
      rfl
    · exact List.append_cancel_left hcs
  have hrest : rest.takeWhile isBlank ++ afterWord cs = rest := by
    rw [← hafter, trimChars, ← trimStart_trimEnd, hend]
    exact List.takeWhile_append_dropWhile
  refine ⟨rest.takeWhile isBlank, fun b => List.mem_takeWhile_imp, by rw [hrest, ← hsplit], ?_⟩
  constructor
  · intro hnil
    cases rest with
    | nil => exact hafter.symm
    | cons b rest => simp [hhead b rfl] at hnil
  · intro hnil
    rw [hnil, List.append_nil] at hrest
    have hblank : ∀ b ∈ rest, isBlank b = true := fun b hb =>
      List.mem_takeWhile_imp (hrest.symm ▸ hb)
    have hcs : firstWord cs ++ rest = firstWord cs :=
      calc firstWord cs ++ rest = trimChars (firstWord cs ++ rest) := by rw [← hsplit, h]
        _ = trimChars (firstWord cs) := trimChars_append_blank hblank _
        _ = firstWord cs := trimChars_of_word hword
    rw [hrest]
    exact List.append_right_eq_self.1 hcs

theorem firstWord_of_word (hw : ∀ c ∈ w, isBlank c = false) :
    firstWord w = w ∧ afterWord w = [] := by
  obtain ⟨gap, hgap, hsplit, hnil⟩ := exists_layout (trimChars_of_word hw)
  cases gap with
  | nil =>
    have hafter := hnil.1 rfl
    rw [hafter, List.append_nil, List.append_nil] at hsplit
    exact ⟨hsplit.symm, hafter⟩
  | cons b gap =>
    have hb : isBlank b = false := hw b (by rw [hsplit]; simp)
    rw [hgap b List.mem_cons_self] at hb
    cases hb

end Text

namespace Shell

open Text (isBlank Worded firstWord afterWord)

variable {β : Type} {s tool args name n : String}

/-! ### Commands -/

theorem Line.exists_command (hslash : s.toList.head? = some '/') :
    ∃ name args, Text.words s = name :: args ∧ Line.parse s = .command name args := by
  have hwords : Text.words s ≠ [] := by
    intro hnil
    have h := Text.words_eq_iff.1 hnil
    generalize s.toList = cs at h hslash
    cases h with
    | blank _ hgap =>
      have hblank : isBlank '/' = true := hgap '/' (List.mem_of_mem_head? hslash)
      revert hblank
      decide
  obtain ⟨name, args, hs⟩ := List.exists_cons_of_ne_nil hwords
  exact ⟨name, args, hs, by rw [Line.parse, if_pos hslash, hs]⟩

theorem Line.parse_eq_command {args : List String} : Line.parse s = .command name args ↔
    s.toList.head? = some '/' ∧ Worded s.toList ((name :: args).map String.toList) := by
  rw [← Text.words_eq_iff]
  by_cases hslash : s.toList.head? = some '/'
  · obtain ⟨name', args', hwords, hparse⟩ := Line.exists_command hslash
    simp [hslash, hwords, hparse]
  · rw [Line.parse, if_neg hslash]
    refine iff_of_false (fun h => ?_) fun h => hslash h.1
    split at h <;> cases h

/-! ### Calls -/

/-- A name that a line can have for a tool. -/
structure Nameable (n : String) : Prop where
  ne : n ≠ ""
  solid : ∀ c ∈ n.toList, isBlank c = false
  plain : n.toList.head? ≠ some '/'

/-- The line is laid out as a call: the name alone, or the name, blanks and the arguments. -/
inductive Calls : String → String → String → Prop
  | bare (tool : String) (h : Nameable tool) : Calls tool tool ""
  | gapped (tool gap args : String) (h : Nameable tool) (hne : gap ≠ "")
    (hgap : Text.isBlankText gap = true) (hargs : args ≠ "") (htrim : Text.trim args = args) :
    Calls (tool ++ gap ++ args) tool args

theorem trim_blank_append {gap : String} (hgap : Text.isBlankText gap = true) (text : String) :
    Text.trim (gap ++ text) = Text.trim text := by
  have hnone : Text.isBlankText "" = true := rfl
  simpa using Text.trim_surround hgap hnone text

theorem Nameable.parse (h : Nameable n) (text : String)
    (hgap : ∀ b ∈ text.toList.head?, isBlank b = true) :
    Line.parse (n ++ text) = .call n (Text.trim text) := by
  have hne : n.toList ≠ [] := by simpa using h.ne
  simpa [Text.trim] using Line.parse_append h.plain hne h.solid hgap

theorem Calls.parse (h : Calls s tool args) : Line.parse s = .call tool args := by
  cases h with
  | bare _ h =>
    have hnone : Text.trim "" = "" := rfl
    simpa [hnone] using h.parse "" (by simp)
  | gapped _ gap _ h hne hgap hargs htrim =>
    have hhead : ∀ b ∈ (gap ++ args).toList.head?, isBlank b = true := by
      have hne : gap.toList ≠ [] := by simpa using hne
      rw [String.toList_append, List.head?_append_of_ne_nil _ hne]
      exact fun b hb => List.all_eq_true.1 hgap b (List.mem_of_mem_head? hb)
    rw [String.append_assoc, h.parse _ hhead, trim_blank_append hgap, htrim]

theorem exists_calls (htrim : Text.trim s = s) (hne : s ≠ "") (hslash : s.toList.head? ≠ some '/') :
    ∃ tool args, Calls s tool args := by
  have hcs : Text.trimChars s.toList = s.toList := by
    simpa [Text.trim] using congrArg String.toList htrim
  obtain ⟨gap, hgap, hsplit, hnil⟩ := Text.exists_layout hcs
  have hword : firstWord s.toList ≠ [] := by
    rw [ne_eq, Text.firstWord_eq_nil_iff, hcs]
    simpa using hne
  set tool := String.ofList (firstWord s.toList) with htool
  set args := String.ofList (afterWord s.toList) with hargs
  have hname : Nameable tool := by
    refine ⟨by simpa [htool] using hword, ?_, ?_⟩
    · rw [htool, String.toList_ofList]
      exact fun c => Text.firstWord_not_blank
    · rw [htool, String.toList_ofList, ← List.head?_append_of_ne_nil _ hword, ← hsplit]
      exact hslash
  have hs : s = tool ++ String.ofList gap ++ args := by
    rw [htool, hargs, String.append_assoc, ← String.ofList_append, ← String.ofList_append,
      ← hsplit, String.ofList_toList]
  refine ⟨tool, args, ?_⟩
  by_cases hbare : gap = []
  · have hnone : args = "" := by rw [hargs, hnil.1 hbare]
    have htext : s = tool := by rw [hs, hnone, hbare]; simp
    rw [hnone, htext]
    exact .bare tool hname
  · have hgapne : String.ofList gap ≠ "" := by simpa using hbare
    have hgapblank : Text.isBlankText (String.ofList gap) = true := by
      simpa [Text.isBlankText] using hgap
    have hargsne : args ≠ "" := by simpa [hargs] using fun h => hbare (hnil.2 h)
    have hargstrim : Text.trim args = args := by
      rw [hargs, Text.trim, String.toList_ofList, afterWord, Text.trimChars_idem]
    rw [hs]
    exact .gapped tool _ args hname hgapne hgapblank hargsne hargstrim

/-- A line that is trimmed and not empty is a call in one way at most. -/
theorem Line.parse_eq_call (htrim : Text.trim s = s) (hne : s ≠ "") :
    Line.parse s = .call tool args ↔ Calls s tool args := by
  refine ⟨fun h => ?_, Calls.parse⟩
  have hslash : s.toList.head? ≠ some '/' := by
    intro hslash
    obtain ⟨name, args, -, hparse⟩ := Line.exists_command hslash
    rw [hparse] at h
    cases h
  obtain ⟨tool', args', hcalls⟩ := exists_calls htrim hne hslash
  obtain ⟨rfl, rfl⟩ := Line.call.inj (h.symm.trans hcalls.parse)
  exact hcalls

theorem Nameable.trim_line (h : Nameable n) (gap : String) {text : String} (hne : text ≠ "")
    (hend : ∀ c ∈ text.toList.getLast?, isBlank c = false) :
    Text.trim (n ++ gap ++ text) = n ++ gap ++ text := by
  have hname : n.toList ≠ [] := by simpa using h.ne
  have htext : text.toList ≠ [] := by simpa using hne
  rw [Text.trim, Text.trimChars_eq_self, String.ofList_toList]
  · rw [String.append_assoc, String.toList_append, List.head?_append_of_ne_nil _ hname]
    exact fun c hc => h.solid c (List.mem_of_mem_head? hc)
  · rw [String.toList_append, List.getLast?_append_of_ne_nil _ htext]
    exact hend

/-! ### The names that a session calls -/

theorem nameable_of_order {x : Reading} {v : Json} (h : x.order? = some (n, v)) : Nameable n := by
  obtain ⟨text, c, w, rfl, hw, hc, rfl, -⟩ := Reading.order?_eq_some h
  refine ⟨by simp, ?_, by simpa using hc⟩
  rw [String.toList_ofList, ← hw]
  exact fun c => Text.firstWord_not_blank

theorem Nameable.order (h : Nameable n) : (Reading.line n).order? = some (n, .object []) := by
  obtain ⟨hword, hafter⟩ := Text.firstWord_of_word h.solid
  cases hn : n.toList with
  | nil => exact absurd (by simpa using hn) h.ne
  | cons c w =>
    have hc : c ≠ '/' := by simpa [hn] using h.plain
    rw [Reading.order?_call (hword.trans hn) hc, hafter, ← hn, String.ofList_toList]
    rfl

section Called

variable {start : Station β} {v : Json}

theorem nameable_of_called (hs : start.engine.Sound) (hran : callsMade start.ran = [])
    {w : Surroundings β} {xs : List Reading}
    (h : (n, v) ∈ callsMade (Session.run (Station.backend w) start xs).ran) : Nameable n := by
  rw [Station.callsMade_run hs, hran] at h
  obtain ⟨x, -, hx⟩ := List.mem_filterMap.1 h
  exact nameable_of_order hx

theorem Nameable.called (h : Nameable n) (hs : start.engine.Sound)
    (hran : callsMade start.ran = []) (w : Surroundings β) :
    callsMade (Session.run (Station.backend w) start [.line n]).ran = [(n, .object [])] := by
  have hall : heeded [.line n] = [.line n] := by simp [heeded]
  rw [Station.callsMade_run hs, hran, hall, orders, List.filterMap_cons, h.order]
  rfl

end Called

/-- How a line reads that is trimmed and not empty: as a command just if it starts with a slash, and
then as its words; else as the call that it is laid out as. So the nameable names are those that a
line can call, and each is called with whatever text stands behind it. -/
theorem line_grammar :
    (∀ s, Text.trim s = s → s ≠ "" →
      ((∃ name args, Line.parse s = .command name args) ↔ s.toList.head? = some '/') ∧
      (∀ name args, Line.parse s = .command name args ↔ s.toList.head? = some '/' ∧ name ≠ "" ∧
        Worded s.toList ((name :: args).map String.toList)) ∧
      ∀ tool args, Line.parse s = .call tool args ↔ Calls s tool args) ∧
    (∀ (w : Surroundings β) (r : Registry) (as : List (Action β)) (n : String),
      let b := Station.backend w
      let start : Station β := ⟨(Engine.after ∅ r as).1, (Engine.after ∅ r as).2, [], []⟩
      ((∃ text v, callsMade (Session.run b start [.line text]).ran = [(n, v)]) ↔ Nameable n) ∧
      ((∃ xs v, (n, v) ∈ callsMade (Session.run b start xs).ran) ↔ Nameable n)) ∧
    ∀ n b text, Nameable n → isBlank b = true → Text.isBlankText text = false →
      (∀ c ∈ text.toList.getLast?, isBlank c = false) →
      let line := n ++ String.singleton b ++ text
      Text.trim line = line ∧ Line.parse line = .call n (Text.trim text) := by
  refine ⟨fun s htrim hne => ⟨?_, fun name args => ?_, fun tool args => ?_⟩, ?_, ?_⟩
  · constructor
    · rintro ⟨name, args, h⟩
      exact (Line.parse_eq_command.1 h).1
    · intro hslash
      obtain ⟨name, args, -, h⟩ := Line.exists_command hslash
      exact ⟨name, args, h⟩
  · rw [Line.parse_eq_command]
    refine and_congr_right fun _ => (and_iff_right_of_imp fun h => ?_).symm
    simpa using h.ne_nil
  · exact Line.parse_eq_call htrim hne
  · intro w r as n b start
    have hs : start.engine.Sound := Engine.sound_after r as
    have hcalled (h : Nameable n) := h.called hs rfl w
    refine ⟨⟨?_, fun h => ⟨n, _, hcalled h⟩⟩, ⟨?_, fun h => ⟨[.line n], .object [], ?_⟩⟩⟩
    · rintro ⟨text, v, h⟩
      exact nameable_of_called hs rfl (h ▸ List.mem_singleton_self _)
    · rintro ⟨xs, v, h⟩
      exact nameable_of_called hs rfl h
    · rw [hcalled h]
      exact List.mem_singleton_self _
  · intro n b text hn hb htext hend line
    have hne : text ≠ "" := by
      rintro rfl
      cases htext
    have hblank : Text.isBlankText (String.singleton b) = true := by
      simpa [Text.isBlankText] using hb
    have hhead : ∀ c ∈ (String.singleton b ++ text).toList.head?, isBlank c = true := by
      simpa using hb
    refine ⟨hn.trim_line _ hne hend, ?_⟩
    rw [← trim_blank_append hblank text, ← hn.parse _ hhead, ← String.append_assoc]

/-- The catalog takes a name with a blank in it, but no line calls that; and a name may be followed
by any blank. -/
theorem line_grammar_innerBlank :
    let as : List (Action Unit) := [.register (Catalog.shellTool "my tool")]
    let start : Station Unit :=
      ⟨(Engine.after ∅ (.empty 0) as).1, (Engine.after ∅ (.empty 0) as).2, [], []⟩
    start.engine.catalog.order = ["my tool"] ∧
      (¬ ∃ xs v, ("my tool", v) ∈ callsMade (Session.run (Station.backend refusing) start xs).ran) ∧
      Line.parse "my\u3000tool []" = .call "my" "tool []" ∧ Calls "my tool" "my" "tool" ∧
      ∃ name args, Line.parse "/my tool" = .command name args := by
  intro as start
  obtain ⟨hread, hnames, hline⟩ := line_grammar (β := Unit)
  have hmy : Nameable "my" := ⟨by decide, by simpa using ⟨rfl, rfl⟩, by decide⟩
  have hend : ∀ c ∈ "tool []".toList.getLast?, isBlank c = false := by
    rintro c ⟨⟩
    rfl
  refine ⟨by decide +kernel, fun hcalled => ?_, ?_, ?_, ?_⟩
  · obtain ⟨-, hsolid, -⟩ := (hnames refusing (.empty 0) as "my tool").2.1 hcalled
    have hspace : isBlank ' ' = false := hsolid ' ' (by simp)
    cases hspace
  · exact (hline "my" '\u3000' "tool []" hmy rfl rfl hend).2
  · exact ((hread "my tool" (by decide) (by decide)).2.2 "my" "tool").1 (by decide)
  · exact (hread "/my tool" (by decide) (by decide)).1.2 rfl

end Shell

end GatedCalls
