import GatedCalls.Proofs.Json.Lexing

/-!
# Pieces wherever they stand

A piece is read from the front of a text, and what it is does not depend on where the front stands
nor on what follows it (`Spells.moves`). A number is the one piece that could go on, so what follows
decides whether it ends there; that is asked for where pieces are put together (`Written`) and not
here.
-/

namespace GatedCalls.Json

/-- The same symbols with other numbers of bytes left. -/
def relabel (left : Nat → Nat) : List Mark → List Mark
  | [] => []
  | m :: ms => ⟨m.symbol, left 0⟩ :: relabel (fun n => left (n + 1)) ms

/-- `R` reads a front, and reads it wherever it stands and whatever follows it. -/
def Moves (R : List Mark → List Mark → Prop) (ms rest : List Mark) : Prop :=
  ∃ front, ms = front ++ rest ∧ ∀ left rest', R (relabel left front ++ rest') rest'

variable {R S T : List Mark → List Mark → Prop} {ms mid rest : List Mark}

theorem relabel_append (left : Nat → Nat) (ms rest : List Mark) :
    ∃ left', relabel left (ms ++ rest) = relabel left ms ++ relabel left' rest := by
  induction ms generalizing left with
  | nil => exact ⟨left, rfl⟩
  | cons m ms ih =>
    obtain ⟨left', h⟩ := ih fun n => left (n + 1)
    exact ⟨left', congrArg (_ :: ·) h⟩

theorem exists_relabel {ms' : List Mark} (h : ms'.map Mark.symbol = ms.map Mark.symbol) :
    ∃ left, ms' = relabel left ms := by
  induction ms generalizing ms' with
  | nil =>
    rw [List.map_nil, List.map_eq_nil_iff] at h
    exact ⟨id, h⟩
  | cons m ms ih =>
    obtain ⟨⟨s, n⟩, ms', rfl, rfl, hms⟩ := List.map_eq_cons_iff.1 h
    obtain ⟨left, rfl⟩ := ih hms
    exact ⟨fun i => i.casesOn n left, rfl⟩

theorem map_symbol_relabel (left : Nat → Nat) (ms : List Mark) :
    (relabel left ms).map Mark.symbol = ms.map Mark.symbol := by
  induction ms generalizing left with
  | nil => rfl
  | cons m ms ih => exact congrArg (m.symbol :: ·) (ih _)

namespace Moves

theorem append (hr : Moves R ms mid) (hs : Moves S mid rest)
    (h : ∀ {ms mid rest}, R ms mid → S mid rest → T ms rest) : Moves T ms rest := by
  obtain ⟨front, rfl, hr⟩ := hr
  obtain ⟨more, rfl, hs⟩ := hs
  refine ⟨front ++ more, (List.append_assoc ..).symm, fun left rest' => ?_⟩
  obtain ⟨left', hleft⟩ := relabel_append left front more
  rw [hleft, List.append_assoc]
  exact h (hr left _) (hs left' rest')

theorem cons {m : Mark} (hs : Moves S ms rest)
    (h : ∀ {left ms rest}, S ms rest → R (⟨m.symbol, left⟩ :: ms) rest) :
    Moves R (m :: ms) rest := by
  obtain ⟨front, rfl, hs⟩ := hs
  exact ⟨m :: front, rfl, fun left rest' => h (hs _ rest')⟩

/-- What is read alone is read before anything. -/
theorem read_append (h : Moves R ms []) {ms' : List Mark}
    (hs : ms'.map Mark.symbol = ms.map Mark.symbol) (rest : List Mark) : R (ms' ++ rest) rest := by
  obtain ⟨front, rfl, h⟩ := h
  rw [List.append_nil] at hs
  obtain ⟨left, rfl⟩ := exists_relabel hs
  exact h left rest

end Moves

theorem Digits.moves (h : Digits ms rest) : Moves Digits ms rest := by
  induction h with
  | @last d _ hd => exact ⟨[d], rfl, fun _ _ => .last hd⟩
  | more hd _ ih => exact ih.cons fun h => .more hd h

theorem Whole.moves (h : Whole ms rest) : Moves Whole ms rest := by
  cases h with
  | @zero z _ hz => exact ⟨[z], rfl, fun _ _ => .zero hz⟩
  | digits hd h =>
    have hlt := h.length_lt
    obtain ⟨front, hfront, hmoves⟩ := h.moves
    cases front with
    | nil => rw [hfront] at hlt; exact absurd hlt (Nat.lt_irrefl _)
    | cons d front =>
      obtain ⟨rfl, rfl⟩ := List.cons.inj hfront
      exact ⟨_ :: front, rfl, fun left rest' => .digits hd (hmoves left rest')⟩

theorem Fraction.moves (h : Fraction ms rest) : Moves Fraction ms rest := by
  cases h with
  | absent => exact ⟨[], rfl, fun _ _ => .absent⟩
  | digits hp h => exact h.moves.cons fun h => .digits hp h

theorem Sign.moves (h : Sign ms rest) : Moves Sign ms rest := by
  cases h with
  | absent => exact ⟨[], rfl, fun _ _ => .absent⟩
  | @sign s _ hs => exact ⟨[s], rfl, fun _ _ => .sign hs⟩

theorem Exponent.moves (h : Exponent ms rest) : Moves Exponent ms rest := by
  cases h with
  | absent => exact ⟨[], rfl, fun _ _ => .absent⟩
  | digits he hs h =>
    have hsigned : Moves (fun ms rest => ∃ ds, Sign ms ds ∧ Digits ds rest) _ rest :=
      hs.moves.append h.moves fun hs h => ⟨_, hs, h⟩
    exact hsigned.cons fun ⟨_, hs, h⟩ => .digits he hs h

theorem Unsigned.moves (h : Unsigned ms rest) : Moves Unsigned ms rest := by
  cases h with
  | parts hw hf he =>
    have hafter : Moves (fun ms rest => ∃ bs, Fraction ms bs ∧ Exponent bs rest) _ rest :=
      hf.moves.append he.moves fun hf he => ⟨_, hf, he⟩
    exact hw.moves.append hafter fun hw ⟨_, hf, he⟩ => .parts hw hf he

theorem Letters.moves {letters : List Char} (h : Letters letters ms rest) :
    Moves (Letters letters) ms rest := by
  induction h with
  | nil => exact ⟨[], rfl, fun _ _ => .nil⟩
  | cons hm _ ih => exact ih.cons fun h => .cons hm h

theorem Spelt.moves {cs : List Char} (h : Spelt ms cs rest) :
    Moves (Spelt · cs ·) ms rest := by
  induction h with
  | @close q _ hq => exact ⟨[q], rfl, fun _ _ => .close hq⟩
  | plain hm hq hb hc _ ih => exact ih.cons fun h => .plain hm hq hb hc h
  | escape hb he _ ih =>
    obtain ⟨front, rfl, ih⟩ := ih
    exact ⟨_ :: _ :: front, rfl, fun _ rest' => .escape hb he (ih _ rest')⟩
  | unit hb hu hn hl ht _ ih =>
    obtain ⟨front, rfl, ih⟩ := ih
    exact ⟨_ :: _ :: _ :: _ :: _ :: _ :: front, rfl,
      fun _ rest' => .unit hb hu hn hl ht (ih _ rest')⟩
  | pair hb hu hn hl hb' hu' hn' ht' _ ih =>
    obtain ⟨front, rfl, ih⟩ := ih
    exact ⟨_ :: _ :: _ :: _ :: _ :: _ :: _ :: _ :: _ :: _ :: _ :: _ :: front, rfl,
      fun _ rest' => .pair hb hu hn hl hb' hu' hn' ht' (ih _ rest')⟩

theorem Loose.moves (h : Loose ms rest) : Moves Loose ms rest := by
  induction h with
  | @close q _ hq => exact ⟨[q], rfl, fun _ _ => .close hq⟩
  | plain hm hq hb hc _ ih => exact ih.cons fun h => .plain hm hq hb hc h
  | stray hm _ ih => exact ih.cons fun h => .stray hm h
  | escape hb he _ ih =>
    obtain ⟨front, rfl, ih⟩ := ih
    exact ⟨_ :: _ :: front, rfl, fun _ rest' => .escape hb he (ih _ rest')⟩
  | unit hb hu hn _ ih =>
    obtain ⟨front, rfl, ih⟩ := ih
    exact ⟨_ :: _ :: _ :: _ :: _ :: _ :: front, rfl, fun _ rest' => .unit hb hu hn (ih _ rest')⟩

theorem Loose.unique {rest' : List Mark} (h : Loose ms rest) (h' : Loose ms rest') :
    rest = rest' :=
  Except.ok.inj ((skipString_iff.2 h).symm.trans (skipString_iff.2 h'))

theorem spelt_of_relabel {front : List Mark} {left : Nat → Nat} {cs : List Char}
    (h : Spelt (relabel left front ++ rest) cs rest) (rest' : List Mark) :
    Spelt (front ++ rest') cs rest' := by
  obtain ⟨front', hfront, h⟩ := h.moves
  obtain rfl := List.append_cancel_right hfront
  obtain ⟨left', hleft⟩ := exists_relabel (map_symbol_relabel left front).symm
  rw [hleft]
  exact h left' rest'

theorem Spells.moves {p : Piece} (h : Spells ms p rest) : Moves (Spells · p ·) ms rest := by
  cases h with
  | @sign m _ _ _ h hm => exact ⟨[m], rfl, fun _ _ => .sign h hm⟩
  | word h hl =>
    obtain ⟨front, rfl, hmoves⟩ := hl.moves
    exact ⟨front, rfl, fun left rest' => .word h (hmoves left rest')⟩
  | number h =>
    obtain ⟨front, rfl, hmoves⟩ := h.moves
    exact ⟨front, rfl, fun left rest' => .number (hmoves left rest')⟩
  | minus hm h => exact h.moves.cons fun h => .minus hm h
  | string hq h => exact h.moves.cons fun h => .string hq h
  | loose hq h hn =>
    obtain ⟨front, rfl, hmoves⟩ := h.moves
    refine ⟨_ :: front, rfl, fun left rest' => .loose hq (hmoves _ rest') fun cs rest₁ hs => ?_⟩
    obtain rfl := hs.loose.unique (hmoves _ rest')
    exact hn cs rest (spelt_of_relabel hs rest)

end GatedCalls.Json
