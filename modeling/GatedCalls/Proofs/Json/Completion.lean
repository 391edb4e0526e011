import GatedCalls.Proofs.Json.Grammar

/-!
# Values are read

Wherever a value stands at the front of tokens, a document with its pieces comes of it, and the
document can be passed over if its tokens can (`IsValue.completes`). An object comes with one member
for each of its entries (`object_complete`).
-/

namespace GatedCalls.Json

variable {ts rest : List Token} {ps qs : List Piece} {t : Token} {p : Piece} {d : Doc}

/-- The only lexeme that is seen as the piece, if there is only one. -/
def Piece.lexeme? : Piece → Option Lexeme
  | .opening b => some (.opening b)
  | .closing b => some (.closing b)
  | .comma => some .comma
  | .colon => some .colon
  | .null => some .null
  | .bool b => some (.bool b)
  | .number | .string _ => none

theorem lexeme_of_piece {l : Lexeme} (h : t.piece? = some p) (hl : p.lexeme? = some l) :
    t.lexeme = l := by
  unfold Token.piece? Lexeme.piece? at h
  split at h <;> cases h <;> cases hl <;> assumption

theorem lexeme_number (h : t.piece? = some .number) : ∃ s l, t.lexeme = .number s l := by
  unfold Token.piece? Lexeme.piece? at h
  split at h <;> cases h
  exact ⟨_, _, ‹_›⟩

theorem lexeme_string {s : Option String} (h : t.piece? = some (.string s)) :
    ∃ r l, t.lexeme = .string r l ∧ ∀ v, s = some v → r = .ok v := by
  unfold Token.piece? Lexeme.piece? at h
  split at h <;> cases h
  · exact ⟨_, _, ‹_›, fun v hv => by cases hv; rfl⟩
  · exact ⟨_, _, ‹_›, fun v hv => by cases hv⟩

theorem key_iff {t : Token} {k : String} :
    t.key = .ok k ↔ t.piece? = some (.string (some k)) := by
  constructor
  · intro h
    unfold Token.key at h
    split at h
    · rename_i hl
      rw [piece?_of_lexeme hl, h]
      rfl
    · cases h
  · intro h
    obtain ⟨strict, lenient, hl, hs⟩ := lexeme_string h
    rw [Token.key, hl]
    exact hs k rfl

/-- Wherever these pieces stand among tokens that can be passed over, a document comes of them. -/
def Completes (ps : List Piece) : Prop :=
  ∀ (fuel depth : Nat) {ts rest : List Token}, Front ts ps rest → (∀ t ∈ ts, t.skip = .ok ()) →
    2 * ps.length ≤ fuel + 1 →
    ∃ d, Doc.value fuel depth ts = (d, rest) ∧ d.pieces? = some ps ∧ d.skip = .ok ()

theorem completes_scalar (hp : ∀ t : Token, t.piece? = some p → ∀ fuel depth ts,
    Doc.value (fuel + 1) depth (t :: ts) = (.scalar t, ts)) : Completes [p] := by
  intro fuel depth ts rest h hskip hfuel
  cases h with
  | @cons t _ ts _ _ ht h =>
    cases h
    obtain ⟨n, rfl⟩ : ∃ n, fuel = n + 1 := ⟨fuel - 1, by simp at hfuel; omega⟩
    exact ⟨_, hp t ht n depth _, by simp [Doc.pieces?, ht], hskip t List.mem_cons_self⟩

theorem IsValue.head (h : IsValue ps) : ∃ p qs, ps = p :: qs ∧ ∀ b, p ≠ .closing b := by
  cases h with
  | null | number => exact ⟨_, _, rfl, by simp⟩
  | bool | string => exact ⟨_, _, rfl, by simp⟩
  | array | object => exact ⟨_, _, rfl, by simp⟩

theorem listed_cons (close : Piece) (v : List Piece) (vs : List (List Piece)) :
    ∃ next, listed close (v :: vs) = v ++ next := by
  cases vs with
  | nil => exact ⟨_, rfl⟩
  | cons w ws => exact ⟨_, rfl⟩

theorem Front.head (h : Front ts ps rest) (hp : ps = p :: qs) :
    ∃ t us, ts = t :: us ∧ t.piece? = some p := by
  cases h with
  | nil => cases hp
  | cons ht _ =>
    obtain ⟨rfl, rfl⟩ := List.cons.inj hp
    exact ⟨_, _, rfl, ht⟩

theorem IsValue.front_head (h : IsValue ps) (hf : Front ts (ps ++ qs) rest) :
    ∃ t us, ts = t :: us ∧ ∀ b, t.lexeme ≠ .closing b := by
  obtain ⟨p, qs, rfl, hp⟩ := h.head
  obtain ⟨t, us, rfl, ht⟩ := hf.head rfl
  refine ⟨t, us, rfl, fun b hb => hp b ?_⟩
  rw [piece?_of_lexeme hb] at ht
  exact (Option.some.inj ht).symm

theorem Doc.items_comma {fuel depth : Nat} {acc : List Doc} {n m : Token} {more : List Token}
    (hd : value fuel depth ts = (d, n :: m :: more)) (hn : n.lexeme = .comma)
    (hm : m.lexeme ≠ .closing .square) :
    items (fuel + 1) depth acc ts = items fuel depth (d :: acc) (m :: more) := by
  rw [items, hd]
  dsimp only
  rw [hn]
  dsimp only
  split
  · exact absurd ‹_› hm
  · rfl

theorem items_complete {v : List Piece} {vs : List (List Piece)}
    (h : ∀ w ∈ v :: vs, Completes w ∧ IsValue w) (fuel depth : Nat) (acc : List Doc)
    (hf : Front ts (listed (.closing .square) (v :: vs)) rest) (hskip : ∀ t ∈ ts, t.skip = .ok ())
    (hfuel : 2 * (listed (.closing .square) (v :: vs)).length ≤ fuel) :
    ∃ docs left, Doc.items fuel depth acc ts = (acc.reverse ++ docs, .closed left, rest) ∧
      Doc.itemPieces? docs = some (v :: vs) ∧ Doc.skipItems docs = .ok () := by
  induction vs generalizing v ts fuel acc with
  | nil =>
    obtain ⟨mid, hv, hclose⟩ := front_append.1 hf
    cases hclose with
    | @cons n _ more _ _ hn hend =>
      cases hend
      simp only [listed, List.length_append, List.length_cons, List.length_nil] at hfuel
      obtain ⟨k, rfl⟩ : ∃ k, fuel = k + 1 := ⟨fuel - 1, by omega⟩
      obtain ⟨d, hd, hpieces, hd'⟩ := (h v List.mem_cons_self).1 k depth hv hskip (by omega)
      refine ⟨[d], n.stop, ?_, by simp [Doc.itemPieces?, hpieces],
        by simp [Doc.skipItems, hd', bind, Except.bind]⟩
      unfold Doc.items
      simp [hd, lexeme_of_piece hn rfl]
  | cons w ws ih =>
    obtain ⟨mid, hv, hrest⟩ := front_append.1 hf
    cases hrest with
    | @cons n _ more _ _ hn hmore =>
      rw [listed, List.length_append, List.length_cons] at hfuel
      obtain ⟨k, rfl⟩ : ∃ k, fuel = k + 1 := ⟨fuel - 1, by omega⟩
      obtain ⟨hcomplete, hw⟩ := List.forall_mem_cons.1 h
      obtain ⟨next, hnext⟩ := listed_cons (.closing .square) w ws
      obtain ⟨m, ms, rfl, hm⟩ := (hw w List.mem_cons_self).2.front_head (hnext ▸ hmore)
      obtain ⟨d, hd, hpieces, hd'⟩ := hcomplete.1 k depth hv hskip (by omega)
      have hsuffix := (List.suffix_cons n _).trans hv.suffix
      obtain ⟨docs, left, hdocs, hvs, hdocs'⟩ := ih hw k (d :: acc) hmore
        (fun t ht => hskip t (hsuffix.subset ht)) (by omega)
      refine ⟨d :: docs, left, ?_, ?_, ?_⟩
      · rw [Doc.items_comma hd (lexeme_of_piece hn rfl) (hm _), hdocs]
        simp
      · rw [Doc.itemPieces?, hpieces, hvs]
        rfl
      · rw [Doc.skipItems, hd']
        exact hdocs'

theorem Doc.memberValue_colon {fuel depth : Nat} {c : Token} (hc : c.lexeme = .colon) :
    memberValue fuel depth (c :: ts) = value fuel depth ts := by
  rw [memberValue, hc]

theorem Front.entry {e : NamedValue} (h : Front ts (e.pieces ++ qs) rest) :
    ∃ k c more mid, ts = k :: c :: more ∧ k.piece? = some (.string e.1) ∧ c.lexeme = .colon ∧
      Front more e.2 mid ∧ Front mid qs rest := by
  obtain ⟨mid, hm, hrest⟩ := front_append.1 h
  cases hm with
  | cons hk hm =>
    cases hm with
    | cons hc hv => exact ⟨_, _, _, mid, rfl, hk, lexeme_of_piece hc rfl, hv, hrest⟩

theorem members_complete {e : NamedValue} {es : List NamedValue}
    (h : ∀ f ∈ e :: es, Completes f.2) (fuel depth : Nat)
    (acc : List (Token × Option Token × Doc))
    (hf : Front ts (listed (.closing .curly) ((e :: es).map NamedValue.pieces)) rest)
    (hskip : ∀ t ∈ ts, t.skip = .ok ())
    (hfuel : 2 * (listed (.closing .curly) ((e :: es).map NamedValue.pieces)).length ≤ fuel) :
    ∃ docs left, Doc.members fuel depth acc ts = (acc.reverse ++ docs, .closed left, rest) ∧
      Doc.entries? docs = some (e :: es) ∧ Doc.skipMembers docs = .ok () := by
  induction es generalizing e ts fuel acc with
  | nil =>
    obtain ⟨k, c, more, mid, rfl, hk, hc, hv, hclose⟩ := hf.entry
    cases hclose with
    | @cons n _ _ _ _ hn hend =>
      cases hend
      simp only [listed, NamedValue.pieces, List.map_cons, List.map_nil, List.length_append,
        List.length_cons, List.length_nil] at hfuel
      obtain ⟨i, rfl⟩ : ∃ i, fuel = i + 1 := ⟨fuel - 1, by omega⟩
      rw [List.forall_mem_cons, List.forall_mem_cons] at hskip
      obtain ⟨d, hd, hpieces, hd'⟩ := h e List.mem_cons_self i depth hv hskip.2.2 (by omega)
      refine ⟨[(k, some c, d)], n.stop, ?_, Doc.entries?_cons_of hk hpieces rfl, ?_⟩
      · rw [Doc.members_cons, Doc.memberValue_colon hc, hd]
        simp [lexeme_of_piece hn rfl]
      · rw [Doc.skipMembers, hskip.1, hd']
        rfl
  | cons e' es ih =>
    obtain ⟨k, c, cs, mid, rfl, hk, hc, hv, hrest⟩ := hf.entry
    cases hrest with
    | @cons n _ more _ _ hn hmore =>
      rw [List.map_cons, List.map_cons, listed, List.length_append, List.length_cons,
        ← List.map_cons] at hfuel
      simp only [NamedValue.pieces, List.length_cons] at hfuel
      obtain ⟨i, rfl⟩ : ∃ i, fuel = i + 1 := ⟨fuel - 1, by omega⟩
      rw [List.forall_mem_cons, List.forall_mem_cons] at hskip
      obtain ⟨hcomplete, hes⟩ := List.forall_mem_cons.1 h
      obtain ⟨next, hnext⟩ := listed_cons (.closing .curly) e'.pieces (es.map NamedValue.pieces)
      obtain ⟨m, ms, rfl, hm⟩ := Front.head hmore hnext
      obtain ⟨r, l, hm, -⟩ := lexeme_string hm
      obtain ⟨d, hd, hpieces, hd'⟩ := hcomplete i depth hv hskip.2.2 (by omega)
      have hsuffix := (List.suffix_cons n _).trans hv.suffix
      obtain ⟨docs, left, hdocs, hes', hdocs'⟩ := ih hes i
        ((k, some c, d) :: acc) hmore (fun t ht => hskip.2.2 t (hsuffix.subset ht)) (by omega)
      refine ⟨(k, some c, d) :: docs, left, ?_, Doc.entries?_cons_of hk hpieces hes', ?_⟩
      · rw [Doc.members_cons, Doc.memberValue_colon hc, hd]
        simp [lexeme_of_piece hn rfl, hm, hdocs]
      · rw [Doc.skipMembers, hskip.1, hd']
        exact hdocs'

theorem array_complete {items : List (List Piece)} (h : ∀ v ∈ items, Completes v ∧ IsValue v)
    (fuel depth : Nat) (hf : Front ts (arrayOf items) rest) (hskip : ∀ t ∈ ts, t.skip = .ok ())
    (hfuel : 2 * (arrayOf items).length ≤ fuel + 1) :
    ∃ start docs left,
      Doc.value fuel depth ts = (.array start (depth + 1) docs (.closed left), rest) ∧
      Doc.itemPieces? docs = some items ∧ Doc.skipItems docs = .ok () := by
  cases hf with
  | @cons o _ ts _ _ ho hf =>
    simp only [arrayOf, List.length_cons] at hfuel
    obtain ⟨k, rfl⟩ : ∃ k, fuel = k + 1 := ⟨fuel - 1, by omega⟩
    cases items with
    | nil =>
      cases hf with
      | @cons n _ _ _ _ hn hend =>
        cases hend
        refine ⟨o.start, [], n.stop, ?_, rfl, rfl⟩
        simp [Doc.value, lexeme_of_piece ho rfl, lexeme_of_piece hn rfl]
    | cons v vs =>
      obtain ⟨next, hnext⟩ := listed_cons (.closing .square) v vs
      obtain ⟨m, ms, rfl, hm⟩ := (h v List.mem_cons_self).2.front_head (hnext ▸ hf)
      obtain ⟨docs, left, hdocs, hvs, hskip'⟩ := items_complete h k (depth + 1) [] hf
        (List.forall_mem_cons.1 hskip).2 (by omega)
      refine ⟨o.start, docs, left, ?_, hvs, hskip'⟩
      rw [Doc.value, lexeme_of_piece ho rfl]
      dsimp only
      split
      · exact absurd ‹_› (hm _)
      · rw [hdocs]
        rfl

theorem object_complete {entries : List NamedValue} (h : ∀ e ∈ entries, Completes e.2)
    (fuel depth : Nat) (hf : Front ts (objectOf entries) rest) (hskip : ∀ t ∈ ts, t.skip = .ok ())
    (hfuel : 2 * (objectOf entries).length ≤ fuel + 1) :
    ∃ start docs left,
      Doc.value fuel depth ts = (.object start (depth + 1) docs (.closed left), rest) ∧
      Doc.entries? docs = some entries ∧ Doc.skipMembers docs = .ok () := by
  cases hf with
  | @cons o _ ts _ _ ho hf =>
    simp only [objectOf, List.length_cons] at hfuel
    obtain ⟨k, rfl⟩ : ∃ k, fuel = k + 1 := ⟨fuel - 1, by omega⟩
    cases entries with
    | nil =>
      cases hf with
      | @cons n _ _ _ _ hn hend =>
        cases hend
        refine ⟨o.start, [], n.stop, ?_, rfl, rfl⟩
        simp [Doc.value, lexeme_of_piece ho rfl, lexeme_of_piece hn rfl]
    | cons e es =>
      obtain ⟨next, hnext⟩ := listed_cons (.closing .curly) e.pieces (es.map NamedValue.pieces)
      obtain ⟨m, ms, rfl, hm⟩ := Front.head hf hnext
      obtain ⟨r, l, hm, -⟩ := lexeme_string hm
      obtain ⟨docs, left, hdocs, hes, hskip'⟩ := members_complete h k (depth + 1) [] hf
        (List.forall_mem_cons.1 hskip).2 (by omega)
      refine ⟨o.start, docs, left, ?_, hes, hskip'⟩
      simp [Doc.value, lexeme_of_piece ho rfl, hm, hdocs]

theorem IsValue.completes (h : IsValue ps) : Completes ps := by
  induction h with
  | null =>
    refine completes_scalar fun t ht fuel depth ts => ?_
    simp [Doc.value, lexeme_of_piece ht rfl]
  | bool b =>
    refine completes_scalar fun t ht fuel depth ts => ?_
    simp [Doc.value, lexeme_of_piece ht rfl]
  | number =>
    refine completes_scalar fun t ht fuel depth ts => ?_
    obtain ⟨s, l, ht⟩ := lexeme_number ht
    simp [Doc.value, ht]
  | string s =>
    refine completes_scalar fun t ht fuel depth ts => ?_
    obtain ⟨r, l, ht, -⟩ := lexeme_string ht
    simp [Doc.value, ht]
  | array items h ih =>
    intro fuel depth ts rest hf hskip hfuel
    obtain ⟨start, docs, left, hd, hvs, hskip'⟩ := array_complete
      (fun v hv => ⟨ih v hv, h v hv⟩) fuel depth hf hskip hfuel
    refine ⟨_, hd, by rw [Doc.pieces?, hvs]; rfl, ?_⟩
    rw [Doc.skip, hskip']
    rfl
  | object entries h ih =>
    intro fuel depth ts rest hf hskip hfuel
    obtain ⟨start, docs, left, hd, hes, hskip'⟩ := object_complete ih fuel depth hf hskip hfuel
    refine ⟨_, hd, by rw [Doc.pieces?, hes]; rfl, ?_⟩
    rw [Doc.skip, hskip']
    rfl

/-- A text that writes a value is a document with nothing missing and nothing behind it. -/
theorem IsValue.ofText (h : IsValue ps) {text : List Text.Symbol}
    (hw : Written (Mark.ofSymbols text) ps) :
    ∃ d, Doc.ofText text = (d, none) ∧ d.skip = .ok () := by
  have hpieces := written_iff.1 hw
  have hlength : (tokens text).length = ps.length := by
    simpa using congrArg List.length hpieces
  obtain ⟨d, hd, -, hskip⟩ := h.completes (2 * (tokens text).length + 2) 0
    (front_nil_iff.2 hpieces) hw.skip (by omega)
  refine ⟨d, ?_, hskip⟩
  unfold Doc.ofText
  dsimp only
  rw [hd]
  rfl

end GatedCalls.Json
