import GatedCalls.Proofs.Json.Spelling

/-!
# The tokens that a text is written with

A reader sees of a token which kind it is and, for a string, what it spells: its `Piece`. `Written`
says which pieces a text consists of, blanks aside: signs, words, numbers that go as far as they
can, and strings, of which those that are not spelled properly spell nothing. The text is cut into
these pieces and no others (`written_iff`), and every one of them can be passed over
(`Written.skip`).
-/

namespace GatedCalls.Json

variable {ms rest : List Mark} {m : Mark}

/-! ### Pieces -/

/-- What a reader sees of a token. -/
inductive Piece
  | opening (b : Bracket)
  | closing (b : Bracket)
  | comma
  | colon
  | null
  | bool (b : Bool)
  | number
  /-- A string with what it spells, if it spells something. -/
  | string (value : Option String)
deriving DecidableEq

/-- What a lexeme is if some reader can use it or pass over it. -/
def Lexeme.piece? : Lexeme → Option Piece
  | .opening b => some (.opening b)
  | .closing b => some (.closing b)
  | .comma => some .comma
  | .colon => some .colon
  | .null => some .null
  | .bool b => some (.bool b)
  | .number (.error _) (.error _) => none
  | .number _ _ => some .number
  | .string (.ok s) _ => some (.string (some s))
  | .string (.error _) (.ok _) => some (.string none)
  | .string (.error _) (.error _) => none
  | .misspelt _ => none
  | .other => none

def Token.piece? (t : Token) : Option Piece := t.lexeme.piece?

/-- The pieces that are one symbol. -/
def signs : List (Char × Piece) :=
  [('[', .opening .square), (']', .closing .square), ('\x7b', .opening .curly),
    ('\x7d', .closing .curly), (',', .comma), (':', .colon)]

def words : List (List Char × Piece) :=
  [(['n', 'u', 'l', 'l'], .null), (['t', 'r', 'u', 'e'], .bool true),
    (['f', 'a', 'l', 's', 'e'], .bool false)]

/-- A word and what follows it. -/
inductive Letters : List Char → List Mark → List Mark → Prop
  | nil {rest : List Mark} : Letters [] rest rest
  | cons {m : Mark} {c : Char} {cs : List Char} {ms rest : List Mark} (hm : m.is c = true)
    (h : Letters cs ms rest) : Letters (c :: cs) (m :: ms) rest

/-- A piece at the front of a text, and what follows it. -/
inductive Spells : List Mark → Piece → List Mark → Prop
  | sign {m : Mark} {rest : List Mark} {c : Char} {p : Piece} (h : (c, p) ∈ signs)
    (hm : m.is c = true) : Spells (m :: rest) p rest
  | word {ms rest : List Mark} {cs : List Char} {p : Piece} (h : (cs, p) ∈ words)
    (hl : Letters cs ms rest) : Spells ms p rest
  | number {ms rest : List Mark} (h : Unsigned ms rest) : Spells ms .number rest
  | minus {m : Mark} {ms rest : List Mark} (hm : m.is '-' = true) (h : Unsigned ms rest) :
    Spells (m :: ms) .number rest
  | string {q : Mark} {ms rest : List Mark} {cs : List Char} (hq : q.is '"' = true)
    (h : Spelt ms cs rest) : Spells (q :: ms) (.string (some (String.ofList cs))) rest
  | loose {q : Mark} {ms rest : List Mark} (hq : q.is '"' = true) (h : Loose ms rest)
    (hn : ∀ cs rest', ¬ Spelt ms cs rest') : Spells (q :: ms) (.string none) rest

/-- The pieces of a text, with blanks between them. -/
inductive Written : List Mark → List Piece → Prop
  | nil : Written [] []
  | blank {m : Mark} {ms : List Mark} {ps : List Piece} (hm : m.isSpace = true)
    (h : Written ms ps) : Written (m :: ms) ps
  | piece {ms rest : List Mark} {p : Piece} {ps : List Piece} (hp : Spells ms p rest)
    (hn : p = .number → continues rest = false) (h : Written rest ps) : Written ms (p :: ps)

variable {p : Piece} {ps : List Piece} {l : Lexeme}

theorem letters_of_readWord {meaning : Lexeme} {letters : List Char}
    (h : readWord meaning letters ms = (l, rest)) (hp : l.piece? = some p) :
    Letters letters ms rest ∧ l = meaning := by
  induction letters generalizing ms with
  | nil =>
    cases h
    exact ⟨.nil, rfl⟩
  | cons c cs ih =>
    cases ms with
    | nil => cases h; cases hp
    | cons m ms =>
      unfold readWord at h
      split at h
      · obtain ⟨hl, rfl⟩ := ih h
        exact ⟨.cons ‹_› hl, rfl⟩
      · cases h; cases hp

theorem readWord_of_letters {meaning : Lexeme} {letters : List Char} (h : Letters letters ms rest) :
    readWord meaning letters ms = (meaning, rest) := by
  induction h with
  | nil => unfold readWord; rfl
  | cons hm _ ih =>
    unfold readWord
    rw [if_pos hm, ih]

theorem unsigned_of_numberLexeme {negative : Bool} (h : numberLexeme negative ms = (l, rest))
    (hp : l.piece? = some p) : Unsigned ms rest ∧ startsDigit rest = false ∧ p = .number := by
  unfold numberLexeme at h
  split at h
  · rename_i x rest' hx
    cases h
    obtain ⟨hu, hd⟩ := unsigned_of_readNumeral hx
    refine ⟨hu, hd, ?_⟩
    cases hv : x.value (bytesLeft rest) <;> simp_all [Lexeme.piece?]
  · cases h
    cases hp

theorem spells_of_stringLexeme {q : Mark} (hq : q.is '"' = true)
    (h : stringLexeme ms = (l, rest)) (hp : l.piece? = some p) :
    Spells (q :: ms) p rest ∧ p ≠ .number := by
  unfold stringLexeme at h
  split at h
  · rename_i rest' hskip
    cases h
    cases hread : readString [] ms with
    | ok r =>
      obtain ⟨s, after⟩ := r
      rw [hread] at hp
      cases hp
      obtain ⟨cs, hcs, rfl⟩ := spelt_of_readString hread
      obtain rfl := Except.ok.inj (hskip.symm.trans (skipString_iff.2 hcs.loose))
      exact ⟨.string hq hcs, by simp⟩
    | error f =>
      rw [hread] at hp
      cases hp
      refine ⟨.loose hq (skipString_iff.1 hskip) fun cs rest' hcs => ?_, by simp⟩
      rw [readString_of_spelt hcs] at hread
      cases hread
  · rename_i f hskip
    cases h
    cases hread : readString [] ms with
    | ok r =>
      obtain ⟨cs, hcs, -⟩ := spelt_of_readString hread
      rw [skipString_iff.2 hcs.loose] at hskip
      cases hskip
    | error f =>
      rw [hread] at hp
      cases hp

theorem spells_of_lexemeAt (h : lexemeAt m ms = (l, rest)) (hp : l.piece? = some p) :
    Spells (m :: ms) p rest ∧ (p = .number → startsDigit rest = false) := by
  unfold lexemeAt at h
  split at h
  case h_1 hm | h_2 hm | h_3 hm | h_4 hm | h_5 hm | h_6 hm =>
    cases h
    cases hp
    refine ⟨.sign ?_ (Mark.is_iff.2 hm), by simp⟩
    decide
  case h_7 hm =>
    obtain ⟨hs, hne⟩ := spells_of_stringLexeme (Mark.is_iff.2 hm) h hp
    exact ⟨hs, fun hn => absurd hn hne⟩
  case h_8 hm | h_9 hm | h_10 hm =>
    obtain ⟨hl, rfl⟩ := letters_of_readWord h hp
    cases hp
    refine ⟨.word ?_ (.cons (Mark.is_iff.2 hm) hl), by simp⟩
    decide
  case h_11 hm =>
    obtain ⟨hu, hd, rfl⟩ := unsigned_of_numberLexeme h hp
    exact ⟨.minus (Mark.is_iff.2 hm) hu, fun _ => hd⟩
  case h_12 =>
    split at h
    · obtain ⟨hu, hd, rfl⟩ := unsigned_of_numberLexeme h hp
      exact ⟨.number hu, fun _ => hd⟩
    · cases h; cases hp
  case h_13 =>
    cases h; cases hp

/-- A token that can be passed over, and what a reader sees of it. -/
def Token.Shows (t : Token) (p : Piece) : Prop := t.piece? = some p ∧ t.skip = .ok ()

theorem numberLexeme_of_unsigned (negative : Bool) (h : Unsigned ms rest)
    (hr : continues rest = false) :
    ∃ l, numberLexeme negative ms = (l, rest) ∧ ∀ a b, Token.Shows ⟨l, a, b⟩ .number := by
  obtain ⟨x, hx⟩ := readNumeral_of_unsigned negative h hr
  refine ⟨_, by rw [numberLexeme, hx], fun a b => ⟨?_, rfl⟩⟩
  cases hv : x.value (bytesLeft rest) <;> simp [Token.piece?, Lexeme.piece?]

theorem lexemeAt_of_isDigit (h : m.isDigit = true) :
    lexemeAt m ms = numberLexeme false (m :: ms) := by
  have hne {c : Char} (hm : m.symbol = .char c) : c.isDigit = true := by
    cases hc : c.isDigit with
    | true => rfl
    | false => exact absurd (Mark.is_iff.2 hm) (Bool.eq_false_iff.1 (Mark.is_of_isDigit h hc))
  unfold lexemeAt
  split
  case h_12 c hm => rw [if_pos (hne hm)]
  case h_13 b hm => simp [Mark.isDigit, Mark.digit?, hm] at h
  all_goals exact absurd (hne ‹_›) (by decide)

theorem lexemeAt_of_spells (h : Spells (m :: ms) p rest)
    (hn : p = .number → continues rest = false) :
    ∃ l, lexemeAt m ms = (l, rest) ∧ ∀ a b, Token.Shows ⟨l, a, b⟩ p := by
  obtain ⟨s, left⟩ := m
  cases h with
  | sign h hm =>
    obtain rfl := Mark.is_iff.1 hm
    simp only [signs, List.mem_cons, Prod.mk.injEq, List.not_mem_nil, or_false] at h
    obtain ⟨rfl, rfl⟩ | ⟨rfl, rfl⟩ | ⟨rfl, rfl⟩ | ⟨rfl, rfl⟩ | ⟨rfl, rfl⟩ | ⟨rfl, rfl⟩ := h <;>
      exact ⟨_, rfl, fun a b => ⟨rfl, rfl⟩⟩
  | word h hl =>
    simp only [words, List.mem_cons, Prod.mk.injEq, List.not_mem_nil, or_false] at h
    obtain ⟨rfl, rfl⟩ | ⟨rfl, rfl⟩ | ⟨rfl, rfl⟩ := h <;>
    · cases hl with
      | cons hm hl =>
        obtain rfl := Mark.is_iff.1 hm
        exact ⟨_, readWord_of_letters hl, fun a b => ⟨rfl, rfl⟩⟩
  | number h =>
    obtain ⟨l, hl, hshow⟩ := numberLexeme_of_unsigned false h (hn rfl)
    exact ⟨l, (lexemeAt_of_isDigit h.isDigit).trans hl, hshow⟩
  | minus hm h =>
    obtain rfl := Mark.is_iff.1 hm
    exact numberLexeme_of_unsigned true h (hn rfl)
  | string hq h =>
    obtain rfl := Mark.is_iff.1 hq
    refine ⟨.string (.ok _) (.ok ()), ?_, fun a b => ⟨rfl, rfl⟩⟩
    change stringLexeme ms = _
    rw [stringLexeme, skipString_iff.2 h.loose, readString_of_spelt h]
    rfl
  | loose hq h hspelt =>
    obtain rfl := Mark.is_iff.1 hq
    cases hread : readString [] ms with
    | ok r =>
      obtain ⟨cs, hcs, -⟩ := spelt_of_readString hread
      exact absurd hcs (hspelt cs _)
    | error f =>
      refine ⟨.string (.error f) (.ok ()), ?_, fun a b => ⟨rfl, rfl⟩⟩
      change stringLexeme ms = _
      rw [stringLexeme, skipString_iff.2 h, hread]
      rfl

/-! ### Texts -/

theorem Letters.length_add {letters : List Char} (h : Letters letters ms rest) :
    rest.length + letters.length = ms.length := by
  induction h with
  | nil => rfl
  | cons _ _ ih =>
    simp only [List.length_cons]
    omega

theorem Spells.length_lt (h : Spells ms p rest) : rest.length < ms.length := by
  cases h with
  | sign => exact Nat.lt_succ_self _
  | @word _ _ letters _ h hl =>
    have hadd := hl.length_add
    have hpos : ∀ w ∈ words, 0 < w.1.length := by decide
    have : 0 < letters.length := hpos _ h
    omega
  | number h => exact h.length_lt
  | minus _ h => exact Nat.lt_succ_of_lt h.length_lt
  | string _ h => exact Nat.lt_succ_of_lt h.loose.length_lt
  | loose _ h _ => exact Nat.lt_succ_of_lt h.length_lt

/-- The symbols that pieces start with, digits aside. -/
def starters : List Char := ['[', ']', '\x7b', '\x7d', ',', ':', '"', '-', 'n', 't', 'f']

theorem Spells.starts (h : Spells ms p rest) :
    ∃ m ns, ms = m :: ns ∧ (m.isDigit = true ∨ ∃ c ∈ starters, m.is c = true) := by
  cases h with
  | @sign m _ c _ h hm =>
    have hc : ∀ s ∈ signs, s.1 ∈ starters := by decide
    exact ⟨m, _, rfl, .inr ⟨c, hc _ h, hm⟩⟩
  | @word _ _ letters _ h hl =>
    have hc : ∀ w ∈ words, ∃ c ∈ starters, w.1.head? = some c := by simp [words, starters]
    obtain ⟨c, hc, hhead⟩ := hc _ h
    cases hl with
    | nil => cases hhead
    | cons hm _ =>
      obtain rfl := Option.some.inj hhead
      exact ⟨_, _, rfl, .inr ⟨_, hc, hm⟩⟩
  | number h =>
    cases ms with
    | nil => cases h.length_lt
    | cons m ns => exact ⟨m, ns, rfl, .inl h.isDigit⟩
  | minus hm _ => exact ⟨_, _, rfl, .inr ⟨'-', by decide, hm⟩⟩
  | string hq _ => exact ⟨_, _, rfl, .inr ⟨'"', by decide, hq⟩⟩
  | loose hq _ _ => exact ⟨_, _, rfl, .inr ⟨'"', by decide, hq⟩⟩

theorem Spells.not_blank (h : Spells (m :: ms) p rest) : m.isSpace = false := by
  obtain ⟨m, ns, hms, hm⟩ := h.starts
  obtain ⟨rfl, rfl⟩ := List.cons.inj hms
  rcases hm with hd | ⟨c, hc, hm⟩
  · simp [Mark.isSpace, Mark.is_of_isDigit hd]
  · have hspace : ∀ c ∈ starters, c ≠ ' ' ∧ c ≠ '\t' ∧ c ≠ '\n' ∧ c ≠ '\r' := by
      simp [starters]
    simp [Mark.isSpace, Mark.is_eq_decide (Mark.is_iff.1 hm), hspace c hc]

theorem continues_of_is {c : Char} (hm : m.is c = true)
    (hc : c.isDigit = false ∧ c ≠ '.' ∧ c ≠ 'e' ∧ c ≠ 'E') : continues (m :: ms) = false := by
  have hd : m.isDigit = false := by
    cases hd : m.isDigit with
    | false => rfl
    | true => exact absurd hm (Bool.eq_false_iff.1 (Mark.is_of_isDigit hd hc.1))
  simp [continues, hd, Mark.is_eq_decide (Mark.is_iff.1 hm), hc]

theorem continues_of_written (h : Written ms ps) (hd : startsDigit ms = false) :
    continues ms = false := by
  cases h with
  | nil => rfl
  | blank hm _ =>
    simp only [Mark.isSpace, Bool.or_eq_true] at hm
    rcases hm with ((hm | hm) | hm) | hm <;> exact continues_of_is hm (by decide)
  | piece hp _ _ =>
    obtain ⟨m, ns, rfl, hm⟩ := hp.starts
    rcases hm with hm | ⟨c, hc, hm⟩
    · have : m.isDigit = false := by simpa [startsDigit] using hd
      rw [hm] at this
      cases this
    · have hcont : ∀ c ∈ starters, c.isDigit = false ∧ c ≠ '.' ∧ c ≠ 'e' ∧ c ≠ 'E' := by
        simp [starters]
      exact continues_of_is hm (hcont c hc)

theorem written_dropWhile (h : Written (ms.dropWhile Mark.isSpace) ps) : Written ms ps := by
  induction ms with
  | nil => exact h
  | cons m ms ih =>
    by_cases hm : m.isSpace = true
    · rw [List.dropWhile_cons_of_pos hm] at h
      exact .blank hm (ih h)
    · rwa [List.dropWhile_cons_of_neg hm] at h

theorem written_of_cut {fuel : Nat} (hf : ms.length ≤ fuel)
    (h : (cut fuel ms).map Token.piece? = ps.map some) : Written ms ps := by
  induction fuel generalizing ms ps with
  | zero =>
    obtain rfl := List.eq_nil_of_length_eq_zero (Nat.le_zero.1 hf)
    obtain rfl : ps = [] := by simpa [cut] using h
    exact .nil
  | succ fuel ih =>
    refine written_dropWhile ?_
    have hle := (List.dropWhile_suffix Mark.isSpace (l := ms)).length_le
    unfold cut at h
    split at h
    · rename_i hms
      obtain rfl : ps = [] := by simpa using h
      rw [hms]
      exact .nil
    · rename_i m ns hms
      rw [hms] at hle ⊢
      cases hl : lexemeAt m ns with
      | mk l after =>
        rw [hl] at h
        obtain ⟨p, ps, rfl, hp, hps⟩ := List.map_eq_cons_iff.1 h.symm
        obtain ⟨hspells, hnumber⟩ := spells_of_lexemeAt hl hp.symm
        have hlt := hspells.length_lt
        have hw := ih (by omega) hps.symm
        exact .piece hspells (fun hn => continues_of_written hw (hnumber hn)) hw

theorem cut_of_written {fuel : Nat} (h : Written ms ps) (hf : ms.length ≤ fuel) :
    (cut fuel ms).map Token.piece? = ps.map some ∧ ∀ t ∈ cut fuel ms, t.skip = .ok () := by
  induction h generalizing fuel with
  | nil => cases fuel <;> simp [cut]
  | @blank m ms ps hm h ih =>
    obtain ⟨n, rfl⟩ : ∃ n, fuel = n + 1 := Nat.exists_eq_add_one_of_ne_zero (by
      simp only [List.length_cons] at hf
      omega)
    have hcut : cut (n + 1) (m :: ms) = cut (n + 1) ms := by
      simp only [cut, List.dropWhile_cons_of_pos hm]
    rw [hcut]
    exact ih (Nat.le_of_succ_le hf)
  | @piece ms rest p ps hp hn h ih =>
    have hlt := hp.length_lt
    obtain ⟨n, rfl⟩ : ∃ n, fuel = n + 1 := Nat.exists_eq_add_one_of_ne_zero (by omega)
    obtain ⟨m, ns, rfl, -⟩ := hp.starts
    obtain ⟨l, hl, hshow⟩ := lexemeAt_of_spells hp hn
    have hcut : cut (n + 1) (m :: ns) = ⟨l, m.left, bytesLeft rest⟩ :: cut n rest := by
      simp only [cut, List.dropWhile_cons_of_neg (Bool.eq_false_iff.1 hp.not_blank), hl]
    have hrest : rest.length ≤ n := by omega
    obtain ⟨hpieces, hskip⟩ := ih hrest
    rw [hcut]
    refine ⟨?_, List.forall_mem_cons.2 ⟨(hshow _ _).2, hskip⟩⟩
    rw [List.map_cons, List.map_cons, hpieces, (hshow _ _).1]

theorem Mark.length_ofSymbols (text : List Text.Symbol) :
    (ofSymbols text).length = text.length := by
  unfold ofSymbols
  induction text with
  | nil => rfl
  | cons s text ih => simpa using ih

/-- The tokens of a text are the pieces it is written with. -/
theorem written_iff {text : List Text.Symbol} :
    Written (Mark.ofSymbols text) ps ↔ (tokens text).map Token.piece? = ps.map some :=
  have hf := Nat.le_of_eq (Mark.length_ofSymbols text)
  ⟨fun h => (cut_of_written h hf).1, written_of_cut hf⟩

theorem Written.skip {text : List Text.Symbol} (h : Written (Mark.ofSymbols text) ps) :
    ∀ t ∈ tokens text, t.skip = .ok () :=
  (cut_of_written h (Nat.le_of_eq (Mark.length_ofSymbols text))).2

end GatedCalls.Json
