import GatedCalls.Proofs.Json.Likeness
import GatedCalls.Proofs.Json.Moving
import GatedCalls.Server.Expansion

/-!
# References in a file of servers

References to variables are replaced in the text of a file, before it is read as JSON. A file whose
references stand in its string values alone is laid out in `Part`s: blanks, signs and words, names
with their colon, and string values that are built from literal text and references. Replacing the
references in its text replaces them in its string values (`expand_source`), and as long as what is
put in can stand in a string as it is (`Quotable`), the text is still the same file but for those
values: its tokens are the ones it had, with other string values (`Laid.pairs_filled`).
-/

namespace GatedCalls.Server

open Json (Mark Token Piece)

/-- What a string value is built from. -/
inductive Segment
  | literal (text : List Char)
  | reference (name : List Char)

/-- A character that stands in a string for itself. -/
def Quotable (c : Char) : Prop := c ≠ '"' ∧ c ≠ '\\' ∧ 0x20 ≤ c.toNat

namespace Segment

/-- The segment as it stands in the file. -/
def source : Segment → List Char
  | literal text => text
  | reference name => '$' :: '\x7b' :: name ++ ['\x7d']

/-- The segment with the value of its variable, which is empty if the variable is not set. -/
def value (vars : Expansion.Variables) : Segment → List Char
  | literal text => text
  | reference name => ((Expansion.lookup? vars name).map String.toList).getD []

/-- Literal text is no reference, and a name has no default behind it. -/
def Sound : Segment → Prop
  | literal text => ∀ c ∈ text, Quotable c ∧ c ≠ '$'
  | reference name => ∀ c ∈ name, Quotable c ∧ c ≠ '\x7d' ∧ c ≠ ':'

end Segment

/-- The content of a string value as it stands in the file. -/
def template (segments : List Segment) : List Char := segments.flatMap Segment.source

/-- The content of a string value with the values of its variables. -/
def filled (vars : Expansion.Variables) (segments : List Segment) : List Char :=
  segments.flatMap (Segment.value vars)

/-- A part of a file. -/
inductive Part
  | blank (c : Char)
  /-- A sign, a word or a number. -/
  | plain (text : List Char) (piece : Piece)
  /-- The name of a member, what it spells, and the blanks before its colon. -/
  | name (text : List Char) (spelt : Option String) (gap : List Char)
  | value (segments : List Segment)

namespace Part

variable (content : List Segment → List Char)

/-- The text of a part, with this content of string values. -/
def text : Part → List Char
  | blank c => [c]
  | plain text _ => text
  | name text _ gap => text ++ gap ++ [':']
  | value segments => '"' :: content segments ++ ['"']

/-- The pieces of a part, with this content of string values. -/
def pieces : Part → List Piece
  | blank _ => []
  | plain _ piece => [piece]
  | name _ spelt _ => [.string spelt, .colon]
  | value segments => [.string (some (String.ofList (content segments)))]

def startsDigit : Part → Bool
  | plain text _ => text.head?.any Char.isDigit
  | _ => false

end Part

def blanks : List Char := [' ', '\t', '\n', '\r']

/-- The text is this piece. -/
def Says (text : List Char) (p : Piece) : Prop :=
  Json.Spells (Mark.ofSymbols (text.map .char)) p []

/-- No reference begins in the text. -/
def Unreferenced (text : List Char) : Prop :=
  ∀ before after, text = before ++ '$' :: after → ∃ c rest, after = c :: rest ∧ c ≠ '\x7b'

def Part.Sound : Part → Prop
  | blank c => c ∈ blanks
  | plain text piece =>
    piece ≠ .colon ∧ (∀ s, piece ≠ .string s) ∧ Says text piece ∧ Unreferenced text
  | name text spelt gap => Says text (.string spelt) ∧ Unreferenced text ∧ ∀ c ∈ gap, c ∈ blanks
  | value segments => ∀ s ∈ segments, s.Sound

/-- Parts one after the other; a number goes as far as it can. -/
inductive Laid : List Part → Prop
  | nil : Laid []
  | cons {part : Part} {rest : List Part} (hp : part.Sound)
    (hn : ∀ text, part = .plain text .number → rest.head?.any Part.startsDigit = false)
    (h : Laid rest) : Laid (part :: rest)

def source (parts : List Part) : List Char := parts.flatMap (Part.text template)

variable {vars : Expansion.Variables} {text rest name : List Char} {segments : List Segment}
  {parts : List Part}

/-! ### Replacing -/

section Replacing

open Expansion

theorem expandChars_cons {c : Char} (h : c = '$' → ∀ r, rest ≠ '\x7b' :: r) :
    expandChars vars (c :: rest) = c :: expandChars vars rest := by
  rw [expandChars]
  exact fun r hc hr => h hc r hr

theorem splitAt?_append (h : ∀ c ∈ name, c ≠ '\x7d') (rest : List Char) :
    splitAt? '\x7d' (name ++ '\x7d' :: rest) = some (name, rest) := by
  induction name with
  | nil => rfl
  | cons c name ih =>
    rw [List.forall_mem_cons] at h
    rw [List.cons_append, splitAt?, if_neg h.1, ih h.2]
    rfl

theorem splitDefault_of_name (h : ∀ c ∈ name, c ≠ ':') : splitDefault name = (name, []) := by
  induction name with
  | nil => rfl
  | cons c name ih =>
    rw [List.forall_mem_cons] at h
    rw [splitDefault, ih h.2]
    exact fun _ hc _ => h.1 hc

theorem expandChars_unreferenced (h : Unreferenced text) (rest : List Char) :
    expandChars vars (text ++ rest) = text ++ expandChars vars rest := by
  induction text with
  | nil => rfl
  | cons c text ih =>
    have htail : Unreferenced text := fun before after ht =>
      h (c :: before) after (congrArg (c :: ·) ht)
    rw [List.cons_append, expandChars_cons, ih htail]
    · rfl
    · rintro rfl r hr
      obtain ⟨c, more, rfl, hc⟩ := h [] text rfl
      exact hc (List.cons.inj hr).1

theorem unreferenced_of_ne (h : ∀ c ∈ text, c ≠ '$') : Unreferenced text := by
  rintro before after rfl
  exact absurd rfl (h '$' (by simp))

theorem expandChars_reference (h : ∀ c ∈ name, c ≠ '\x7d') (rest : List Char) :
    expandChars vars ('$' :: '\x7b' :: name ++ '\x7d' :: rest) =
      referenceValue vars name ++ expandChars vars rest := by
  have hsplit := splitAt?_append h rest
  rw [List.cons_append, List.cons_append, expandChars]
  split
  · rename_i hnone
    rw [hsplit] at hnone
    cases hnone
  · rename_i hsome
    rw [hsplit] at hsome
    cases hsome
    rfl

theorem referenceValue_of_name (h : ∀ c ∈ name, c ≠ ':') :
    referenceValue vars name = (Segment.reference name).value vars := by
  rw [referenceValue, splitDefault_of_name h]
  dsimp only
  rw [Segment.value]
  cases lookup? vars name <;> rfl

theorem expandChars_segment {s : Segment} (h : s.Sound) (rest : List Char) :
    expandChars vars (s.source ++ rest) = s.value vars ++ expandChars vars rest := by
  cases s with
  | literal text => exact expandChars_unreferenced (unreferenced_of_ne fun c hc => (h c hc).2) rest
  | reference name =>
    rw [← referenceValue_of_name fun c hc => (h c hc).2.2]
    rw [← expandChars_reference (fun c hc => (h c hc).2.1), Segment.source]
    simp

theorem expandChars_template (h : ∀ s ∈ segments, s.Sound) (rest : List Char) :
    expandChars vars (template segments ++ rest) =
      filled vars segments ++ expandChars vars rest := by
  induction segments with
  | nil => rfl
  | cons s segments ih =>
    rw [List.forall_mem_cons] at h
    rw [template, filled, List.flatMap_cons, List.flatMap_cons, List.append_assoc,
      List.append_assoc, expandChars_segment h.1]
    exact congrArg (s.value vars ++ ·) (ih h.2)

theorem expand_template (h : ∀ s ∈ segments, s.Sound) :
    expand vars (String.ofList (template segments)) = String.ofList (filled vars segments) := by
  have hchars : expandChars vars (template segments ++ []) = _ := expandChars_template h []
  rw [List.append_nil, expandChars, List.append_nil] at hchars
  rw [expand, String.toList_ofList, hchars]

theorem ne_dollar_of_blank {c : Char} (h : c ∈ blanks) : c ≠ '$' := by
  rintro rfl
  revert h
  decide

theorem expandChars_part {part : Part} (h : part.Sound) (rest : List Char) :
    expandChars vars (part.text template ++ rest) =
      part.text (filled vars) ++ expandChars vars rest := by
  cases part with
  | blank c =>
    exact expandChars_unreferenced
      (unreferenced_of_ne (by simpa [Part.text] using ne_dollar_of_blank h)) rest
  | plain text piece => exact expandChars_unreferenced h.2.2.2 rest
  | name text spelt gap =>
    obtain ⟨-, htext, hgap⟩ := h
    have hcolon : Unreferenced (gap ++ [':']) := unreferenced_of_ne fun c hc => by
      rcases List.mem_append.1 hc with hc | hc
      · exact ne_dollar_of_blank (hgap c hc)
      · rw [List.mem_singleton.1 hc]
        decide
    rw [Part.text, Part.text, List.append_assoc text, List.append_assoc text,
      expandChars_unreferenced htext, expandChars_unreferenced hcolon, List.append_assoc text]
  | value segments =>
    have hquote : Unreferenced ['"'] := unreferenced_of_ne (by simp)
    show expandChars vars ('"' :: (template segments ++ ['"'] ++ rest)) =
      '"' :: (filled vars segments ++ ['"'] ++ expandChars vars rest)
    rw [expandChars_cons fun hc => absurd hc (by decide), List.append_assoc,
      expandChars_template h, expandChars_unreferenced hquote, List.append_assoc]

/-- Replacing the references in a file replaces them in its string values. -/
theorem expand_source (h : Laid parts) :
    expand vars (String.ofList (source parts)) =
      String.ofList (parts.flatMap (Part.text (filled vars))) := by
  have hchars : expandChars vars (source parts) = parts.flatMap (Part.text (filled vars)) := by
    induction h with
    | nil => rw [source, List.flatMap_nil, List.flatMap_nil, expandChars]
    | cons hp _ _ ih =>
      rw [source, List.flatMap_cons, List.flatMap_cons, expandChars_part hp]
      exact congrArg _ ih
  rw [expand, String.toList_ofList, hchars]

end Replacing

/-! ### Pieces -/

open Json

variable {content : List Segment → List Char} {ms after : List Mark}

/-- The content of each string value can stand between quotation marks. -/
def Fits (content : List Segment → List Char) (parts : List Part) : Prop :=
  ∀ segments, .value segments ∈ parts → ∀ c ∈ content segments, Quotable c

theorem Mark.map_symbol_ofSymbols (symbols : List Text.Symbol) :
    (Mark.ofSymbols symbols).map Mark.symbol = symbols := by
  unfold Mark.ofSymbols
  induction symbols with
  | nil => rfl
  | cons s symbols ih => exact congrArg (s :: ·) ih

theorem Says.spells {p : Piece} (h : Says text p) (hms : ms.map Mark.symbol = text.map .char)
    (after : List Mark) : Spells (ms ++ after) p after := by
  have hmoves := Spells.moves h
  refine hmoves.read_append ?_ after
  rw [hms, Mark.map_symbol_ofSymbols]

theorem spelt_of_quotable {cs : List Char} (h : ∀ c ∈ cs, Quotable c)
    (hms : ms.map Mark.symbol = (cs ++ ['"']).map .char) (after : List Mark) :
    Spelt (ms ++ after) cs after := by
  induction cs generalizing ms with
  | nil =>
    obtain ⟨q, ms, rfl, hq, hms⟩ := List.map_eq_cons_iff.1 hms
    obtain rfl := List.map_eq_nil_iff.1 hms
    exact .close (Mark.is_iff.2 hq)
  | cons c cs ih =>
    rw [List.forall_mem_cons] at h
    obtain ⟨m, ms, rfl, hm, hms⟩ := List.map_eq_cons_iff.1 hms
    exact .plain hm h.1.1 h.1.2.1 h.1.2.2 (ih h.2 hms)

theorem isSpace_of_blank {c : Char} {m : Mark} (hc : c ∈ blanks) (hm : m.symbol = .char c) :
    m.isSpace = true := by
  have hblank : ∀ c ∈ blanks, c = ' ' ∨ c = '\t' ∨ c = '\n' ∨ c = '\r' := by simp [blanks]
  simpa [Mark.isSpace, Mark.is_eq_decide hm, or_assoc] using hblank c hc

theorem Written.blanks {gap : List Char} {ps : List Piece} (hgap : ∀ c ∈ gap, c ∈ blanks)
    (hms : ms.map Mark.symbol = gap.map .char) (h : Written after ps) :
    Written (ms ++ after) ps := by
  induction gap generalizing ms with
  | nil =>
    obtain rfl := List.map_eq_nil_iff.1 hms
    exact h
  | cons c gap ih =>
    rw [List.forall_mem_cons] at hgap
    obtain ⟨m, ms, rfl, hm, hms⟩ := List.map_eq_cons_iff.1 hms
    exact .blank (isSpace_of_blank hgap.1 hm) (ih hgap.2 hms)

theorem Part.Sound.written {part : Part} (h : part.Sound)
    (hfit : ∀ segments, part = .value segments → ∀ c ∈ content segments, Quotable c)
    (hms : ms.map Mark.symbol = (part.text content).map .char) {ps : List Piece}
    (hw : Written after ps)
    (hn : ∀ text, part = .plain text .number → Json.startsDigit after = false) :
    Written (ms ++ after) (part.pieces content ++ ps) := by
  cases part with
  | blank c =>
    have hgap : ∀ x ∈ [c], x ∈ blanks := List.forall_mem_singleton.2 h
    exact Written.blanks hgap hms hw
  | plain text piece =>
    refine .piece (h.2.2.1.spells hms after) ?_ hw
    rintro rfl
    exact continues_of_written hw (hn text rfl)
  | name text spelt gap =>
    obtain ⟨hpiece, -, hgap⟩ := h
    rw [Part.text, List.append_assoc, List.map_append, List.map_append] at hms
    obtain ⟨ks, ms, rfl, hks, hms⟩ := List.map_eq_append_iff.1 hms
    obtain ⟨bs, cs, rfl, hbs, hcs⟩ := List.map_eq_append_iff.1 hms
    obtain ⟨c, cs, rfl, hc, hcs⟩ := List.map_eq_cons_iff.1 hcs
    obtain rfl := List.map_eq_nil_iff.1 hcs
    have hcolon : Written (c :: after) (.colon :: ps) :=
      .piece (.sign (by decide) (Mark.is_iff.2 hc)) (by simp) hw
    rw [List.append_assoc, List.append_assoc]
    exact .piece (hpiece.spells hks _) (by simp) (Written.blanks hgap hbs hcolon)
  | value segments =>
    obtain ⟨q, ms, rfl, hq, hms⟩ := List.map_eq_cons_iff.1 hms
    exact .piece (.string (Mark.is_iff.2 hq) (spelt_of_quotable (hfit segments rfl) hms after))
      (by simp) hw

theorem Says.ne_nil {p : Piece} (h : Says text p) : ∃ c more, text = c :: more := by
  cases text with
  | nil =>
    have hlt := Spells.length_lt h
    cases hlt
  | cons c more => exact ⟨c, more, rfl⟩

theorem Says.quote {s : Option String} (h : Says text (.string s)) :
    ∃ more, text = '"' :: more := by
  obtain ⟨c, more, rfl⟩ := h.ne_nil
  have hsymbols := Mark.map_symbol_ofSymbols ((c :: more).map .char)
  unfold Says at h
  generalize Mark.ofSymbols ((c :: more).map .char) = ms at h hsymbols
  have hquote {q : Mark} {ms : List Mark} (hq : q.is '"' = true)
      (hms : (q :: ms).map Mark.symbol = (c :: more).map .char) : c = '"' := by
    have hc : q.symbol = .char c := (List.cons.inj hms).1
    exact Text.Symbol.char.inj (hc.symm.trans (Mark.is_iff.1 hq))
  cases h with
  | sign h => simp [signs] at h
  | word h => simp [words] at h
  | string hq => exact ⟨more, by rw [hquote hq hsymbols]⟩
  | loose hq => exact ⟨more, by rw [hquote hq hsymbols]⟩

theorem Part.Sound.head {part : Part} (h : part.Sound) (content : List Segment → List Char) :
    ∃ c more, part.text content = c :: more ∧ (part.startsDigit = false → c.isDigit = false) := by
  cases part with
  | blank c =>
    have hdigit : ∀ c ∈ blanks, c.isDigit = false := by simp [blanks]
    exact ⟨c, [], rfl, fun _ => hdigit c h⟩
  | plain text piece =>
    obtain ⟨c, more, rfl⟩ := h.2.2.1.ne_nil
    exact ⟨c, more, rfl, fun hd => by simpa [Part.startsDigit] using hd⟩
  | name text spelt gap =>
    obtain ⟨more, rfl⟩ := h.1.quote
    exact ⟨'"', _, rfl, fun _ => rfl⟩
  | value segments => exact ⟨'"', _, rfl, fun _ => rfl⟩

theorem Laid.written (h : Laid parts) (hfit : Fits content parts)
    (hms : ms.map Mark.symbol = (parts.flatMap (Part.text content)).map .char) :
    Written ms (parts.flatMap (Part.pieces content)) := by
  induction h generalizing ms with
  | nil =>
    obtain rfl := List.map_eq_nil_iff.1 hms
    exact .nil
  | @cons part rest hp hn h ih =>
    rw [List.flatMap_cons, List.map_append] at hms
    obtain ⟨front, after, rfl, hfront, hafter⟩ := List.map_eq_append_iff.1 hms
    have hw := ih (fun segments hs => hfit segments (List.mem_cons_of_mem _ hs)) hafter
    rw [List.flatMap_cons]
    refine hp.written (fun segments hs => hfit segments (hs ▸ List.mem_cons_self)) hfront hw
      fun text htext => ?_
    -- what comes next begins with the next part, which has a first character
    have hdigit := hn text htext
    cases h with
    | nil =>
      obtain rfl := List.map_eq_nil_iff.1 hafter
      rfl
    | cons hp' =>
      obtain ⟨c, more, hc, hd⟩ := hp'.head content
      rw [List.flatMap_cons, hc] at hafter
      obtain ⟨m, ms, rfl, hm, -⟩ := List.map_eq_cons_iff.1 hafter
      exact startsDigit_of_is (Mark.is_iff.2 hm) (hd (by simpa using hdigit))

/-- The tokens of two contents differ in the string values only. -/
theorem Laid.pairs {content' : List Segment → List Char} {g : String → String}
    {ts ts' : List Token} (h : Laid parts)
    (hg : ∀ segments, .value segments ∈ parts →
      g (String.ofList (content segments)) = String.ofList (content' segments))
    (hts : ts.map Token.piece? = (parts.flatMap (Part.pieces content)).map some)
    (hts' : ts'.map Token.piece? = (parts.flatMap (Part.pieces content')).map some)
    (hskip : ∀ t ∈ ts, t.skip = .ok ()) (hskip' : ∀ t ∈ ts', t.skip = .ok ()) :
    Pairs g ts ts' := by
  induction h generalizing ts ts' with
  | nil =>
    obtain rfl := List.map_eq_nil_iff.1 hts
    obtain rfl := List.map_eq_nil_iff.1 hts'
    exact .nil
  | @cons part rest hp _ h ih =>
    rw [List.flatMap_cons, List.map_append] at hts hts'
    have hg' : ∀ segments, .value segments ∈ rest →
        g (String.ofList (content segments)) = String.ofList (content' segments) :=
      fun segments hs => hg segments (List.mem_cons_of_mem _ hs)
    cases part with
    | blank c => exact ih hg' hts hts' hskip hskip'
    | plain text piece =>
      obtain ⟨t, ts, rfl, ht, hts⟩ := List.map_eq_cons_iff.1 hts
      obtain ⟨t', ts', rfl, ht', hts'⟩ := List.map_eq_cons_iff.1 hts'
      rw [List.forall_mem_cons] at hskip hskip'
      exact .same hp.1 hp.2.1 ⟨ht, hskip.1⟩ ⟨ht', hskip'.1⟩
        (ih hg' hts hts' hskip.2 hskip'.2)
    | name text spelt gap =>
      obtain ⟨k, ts, rfl, hk, hts⟩ := List.map_eq_cons_iff.1 hts
      obtain ⟨c, ts, rfl, hc, hts⟩ := List.map_eq_cons_iff.1 hts
      obtain ⟨k', ts', rfl, hk', hts'⟩ := List.map_eq_cons_iff.1 hts'
      obtain ⟨c', ts', rfl, hc', hts'⟩ := List.map_eq_cons_iff.1 hts'
      rw [List.forall_mem_cons, List.forall_mem_cons] at hskip hskip'
      exact .name ⟨hk, hskip.1⟩ ⟨hk', hskip'.1⟩ ⟨hc, hskip.2.1⟩ ⟨hc', hskip'.2.1⟩
        (ih hg' hts hts' hskip.2.2 hskip'.2.2)
    | value segments =>
      obtain ⟨t, ts, rfl, ht, hts⟩ := List.map_eq_cons_iff.1 hts
      obtain ⟨t', ts', rfl, ht', hts'⟩ := List.map_eq_cons_iff.1 hts'
      rw [List.forall_mem_cons] at hskip hskip'
      rw [← hg segments List.mem_cons_self] at ht'
      exact .value ⟨ht, hskip.1⟩ ⟨ht', hskip'.1⟩ (ih hg' hts hts' hskip.2 hskip'.2)

theorem Laid.sound (h : Laid parts) : ∀ part ∈ parts, part.Sound := by
  induction h with
  | nil => simp
  | cons hp _ _ ih => exact List.forall_mem_cons.2 ⟨hp, ih⟩

theorem Segment.Sound.source_quotable {s : Segment} (h : s.Sound) : ∀ c ∈ s.source, Quotable c := by
  cases s with
  | literal text => exact fun c hc => (h c hc).1
  | reference name =>
    have hsign : ∀ c ∈ ['$', '\x7b', '\x7d'], Quotable c := by simp [Quotable]
    intro c hc
    simp only [Segment.source, List.cons_append, List.mem_cons, List.mem_append,
      List.not_mem_nil, or_false] at hc
    obtain rfl | rfl | hc | rfl := hc
    · exact hsign _ (by simp)
    · exact hsign _ (by simp)
    · exact (h c hc).1
    · exact hsign _ (by simp)

theorem Laid.fits_template (h : Laid parts) : Fits template parts := by
  intro segments hs c hc
  obtain ⟨s, hmem, hc⟩ := List.mem_flatMap.1 hc
  have hsound : ∀ s ∈ segments, s.Sound := h.sound _ hs
  exact (hsound s hmem).source_quotable c hc

/-- The values of the variables that the file refers to can stand in a string as they are. -/
def QuotableValues (vars : Expansion.Variables) (parts : List Part) : Prop :=
  ∀ segments name v, .value segments ∈ parts → .reference name ∈ segments →
    Expansion.lookup? vars name = some v → ∀ c ∈ v.toList, Quotable c

theorem Laid.fits_filled (h : Laid parts) (hq : QuotableValues vars parts) :
    Fits (filled vars) parts := by
  intro segments hs c hc
  obtain ⟨s, hmem, hc⟩ := List.mem_flatMap.1 hc
  have hsound : ∀ s ∈ segments, s.Sound := h.sound _ hs
  cases s with
  | literal text => exact (hsound _ hmem c hc).1
  | reference name =>
    rw [Segment.value] at hc
    cases hv : Expansion.lookup? vars name with
    | none => rw [hv] at hc; cases hc
    | some v => rw [hv] at hc; exact hq segments name v hs hmem hv c hc

theorem Laid.pairs_filled (h : Laid parts) (hq : QuotableValues vars parts) :
    Pairs (Expansion.expand vars) (tokens ((source parts).map .char))
      (tokens ((parts.flatMap (Part.text (filled vars))).map .char)) := by
  have hw := h.written h.fits_template (Mark.map_symbol_ofSymbols _)
  have hw' := h.written (h.fits_filled hq) (Mark.map_symbol_ofSymbols _)
  exact h.pairs (fun segments hs => expand_template (h.sound _ hs)) (written_iff.1 hw)
    (written_iff.1 hw') hw.skip hw'.skip

end GatedCalls.Server
