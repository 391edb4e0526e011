import GatedCalls.Proofs.Json.Lexing

/-!
# The documents that tokens make

`IsValue` is the grammar of JSON over pieces, and `Doc.pieces?` gives back the pieces of a document
in which nothing is missing. Such a document stands for a value (`Doc.Proper.isValue`), it takes up
just its pieces from the front of the tokens (`value_front`), and a document that can be passed over
is one (`Doc.Proper.pieces?_of_skip`).
-/

namespace GatedCalls.Json

/-! ### The grammar -/

/-- Parts with commas between them and a closing bracket behind them. -/
def listed (close : Piece) : List (List Piece) → List Piece
  | [] => [close]
  | [v] => v ++ [close]
  | v :: w :: rest => v ++ .comma :: listed close (w :: rest)

def arrayOf (items : List (List Piece)) : List Piece :=
  .opening .square :: listed (.closing .square) items

/-- A member of an object: its name, if that spells something, and the pieces of its value. -/
abbrev NamedValue := Option String × List Piece

def NamedValue.pieces (e : NamedValue) : List Piece := .string e.1 :: .colon :: e.2

def objectOf (entries : List NamedValue) : List Piece :=
  .opening .curly :: listed (.closing .curly) (entries.map NamedValue.pieces)

/-- The pieces of a value. -/
inductive IsValue : List Piece → Prop
  | null : IsValue [.null]
  | bool (b : Bool) : IsValue [.bool b]
  | number : IsValue [.number]
  | string (s : Option String) : IsValue [.string s]
  | array (items : List (List Piece)) (h : ∀ v ∈ items, IsValue v) : IsValue (arrayOf items)
  | object (entries : List NamedValue) (h : ∀ e ∈ entries, IsValue e.2) : IsValue (objectOf entries)

/-- The name that a token at the place of a key spells, if it spells something. -/
def Token.name? (t : Token) : Option (Option String) :=
  match t.piece? with
  | some (.string s) => some s
  | _ => none

namespace Doc

mutual

/-- The pieces of a document in which nothing is missing. -/
def pieces? : Doc → Option (List Piece)
  | scalar t => t.piece?.map fun p => [p]
  | array _ _ items (.closed _) => (itemPieces? items).map arrayOf
  | object _ _ members (.closed _) => (entries? members).map objectOf
  | _ => none

def itemPieces? : List Doc → Option (List (List Piece))
  | [] => some []
  | d :: rest => do return (← pieces? d) :: (← itemPieces? rest)

def entries? : List (Token × Option Token × Doc) → Option (List NamedValue)
  | [] => some []
  | (k, _, d) :: rest => do return (← k.name?, ← pieces? d) :: (← entries? rest)

end

theorem itemPieces?_cons {d : Doc} {docs : List Doc} {vs : List (List Piece)}
    (h : itemPieces? (d :: docs) = some vs) :
    ∃ v ws, vs = v :: ws ∧ d.pieces? = some v ∧ itemPieces? docs = some ws := by
  rw [itemPieces?] at h
  obtain ⟨v, hv, h⟩ := Option.bind_eq_some_iff.1 h
  obtain ⟨ws, hws, h⟩ := Option.bind_eq_some_iff.1 h
  exact ⟨v, ws, (Option.some.inj h).symm, hv, hws⟩

theorem entries?_cons {k : Token} {c : Option Token} {d : Doc}
    {members : List (Token × Option Token × Doc)} {es : List NamedValue}
    (h : entries? ((k, c, d) :: members) = some es) :
    ∃ s v fs, es = (s, v) :: fs ∧ k.piece? = some (.string s) ∧ d.pieces? = some v ∧
      entries? members = some fs := by
  rw [entries?] at h
  obtain ⟨s, hs, h⟩ := Option.bind_eq_some_iff.1 h
  obtain ⟨v, hv, h⟩ := Option.bind_eq_some_iff.1 h
  obtain ⟨fs, hfs, h⟩ := Option.bind_eq_some_iff.1 h
  refine ⟨s, v, fs, (Option.some.inj h).symm, ?_, hv, hfs⟩
  unfold Token.name? at hs
  split at hs
  · rename_i hp
    rw [hp, Option.some.inj hs]
  · cases hs

theorem mem_itemPieces? {docs : List Doc} {vs : List (List Piece)} {v : List Piece}
    (h : itemPieces? docs = some vs) (hv : v ∈ vs) : ∃ d ∈ docs, d.pieces? = some v := by
  induction docs generalizing vs with
  | nil => cases h; cases hv
  | cons d docs ih =>
    obtain ⟨w, ws, rfl, hw, hws⟩ := itemPieces?_cons h
    rcases List.mem_cons.1 hv with rfl | hv
    · exact ⟨d, List.mem_cons_self, hw⟩
    · obtain ⟨d, hd, hv⟩ := ih hws hv
      exact ⟨d, List.mem_cons_of_mem _ hd, hv⟩

theorem mem_entries? {members : List (Token × Option Token × Doc)} {es : List NamedValue}
    {e : NamedValue} (h : entries? members = some es) (he : e ∈ es) :
    ∃ m ∈ members, m.2.2.pieces? = some e.2 := by
  induction members generalizing es with
  | nil => cases h; cases he
  | cons m members ih =>
    obtain ⟨s, v, fs, rfl, -, hv, hfs⟩ := entries?_cons h
    rcases List.mem_cons.1 he with rfl | he
    · exact ⟨m, List.mem_cons_self, hv⟩
    · obtain ⟨m, hm, he⟩ := ih hfs he
      exact ⟨m, List.mem_cons_of_mem _ hm, he⟩

theorem exists_itemPieces? {docs : List Doc} (h : ∀ d ∈ docs, ∃ v, d.pieces? = some v) :
    ∃ vs, itemPieces? docs = some vs := by
  induction docs with
  | nil => exact ⟨[], rfl⟩
  | cons d docs ih =>
    rw [List.forall_mem_cons] at h
    obtain ⟨v, hv⟩ := h.1
    obtain ⟨vs, hvs⟩ := ih h.2
    exact ⟨v :: vs, by rw [itemPieces?, hv, hvs]; rfl⟩

theorem entries?_cons_of {k : Token} {c : Option Token} {d : Doc} {s : Option String}
    {v : List Piece} {members : List (Token × Option Token × Doc)} {es : List NamedValue}
    (hk : k.piece? = some (.string s)) (hd : d.pieces? = some v)
    (hes : entries? members = some es) :
    entries? ((k, c, d) :: members) = some ((s, v) :: es) := by
  rw [entries?, Token.name?, hk, hd, hes]
  rfl

theorem entries?_append_iff {members : List (Token × Option Token × Doc)}
    {es fs : List NamedValue} :
    entries? members = some (es ++ fs) ↔
      ∃ as bs, members = as ++ bs ∧ entries? as = some es ∧ entries? bs = some fs := by
  constructor
  · intro h
    induction es generalizing members with
    | nil => exact ⟨[], members, rfl, rfl, h⟩
    | cons e es ih =>
      cases members with
      | nil => cases h
      | cons m members =>
        obtain ⟨s, v, gs, hgs, hs, hv, h⟩ := entries?_cons h
        obtain ⟨rfl, rfl⟩ := List.cons.inj hgs
        obtain ⟨as, bs, rfl, has, hbs⟩ := ih h
        exact ⟨m :: as, bs, rfl, entries?_cons_of hs hv has, hbs⟩
  · rintro ⟨as, bs, rfl, has, hbs⟩
    induction as generalizing es with
    | nil =>
      cases has
      exact hbs
    | cons m as ih =>
      obtain ⟨s, v, gs, rfl, hs, hv, has⟩ := entries?_cons has
      exact entries?_cons_of hs hv (ih has)

theorem exists_entries? {members : List (Token × Option Token × Doc)}
    (h : ∀ m ∈ members, ∃ s v, m.1.piece? = some (.string s) ∧ m.2.2.pieces? = some v) :
    ∃ es, entries? members = some es := by
  induction members with
  | nil => exact ⟨[], rfl⟩
  | cons m members ih =>
    rw [List.forall_mem_cons] at h
    obtain ⟨s, v, hs, hv⟩ := h.1
    obtain ⟨es, hes⟩ := ih h.2
    exact ⟨(s, v) :: es, entries?_cons_of hs hv hes⟩

theorem skipItems_iff {docs : List Doc} :
    skipItems docs = .ok () ↔ ∀ d ∈ docs, d.skip = .ok () := by
  induction docs with
  | nil => simp [skipItems]
  | cons d docs ih =>
    rw [List.forall_mem_cons, ← ih, skipItems]
    cases d.skip <;> simp [bind, Except.bind]

theorem skipMembers_iff {members : List (Token × Option Token × Doc)} :
    skipMembers members = .ok () ↔ ∀ m ∈ members, m.1.skip = .ok () ∧ m.2.2.skip = .ok () := by
  induction members with
  | nil => simp [skipMembers]
  | cons m members ih =>
    rw [List.forall_mem_cons, ← ih, skipMembers]
    cases m.1.skip <;> cases m.2.2.skip <;> simp [bind, Except.bind]

end Doc

variable {ts rest : List Token} {ps qs : List Piece} {t : Token} {p : Piece} {d : Doc}

/-! ### Documents that come of tokens -/

/-- The lexemes that are a document by themselves. -/
def Lexeme.isScalar : Lexeme → Bool
  | .null | .bool _ | .number _ _ | .string _ _ | .misspelt _ => true
  | _ => false

/-- The token at the place of a key is a string. -/
def Token.isString (t : Token) : Prop := ∃ strict lenient, t.lexeme = .string strict lenient

/-- A document as it comes of tokens. -/
inductive Doc.Proper : Doc → Prop
  | scalar (t : Token) (h : t.lexeme.isScalar = true) : Proper (.scalar t)
  | array (start depth : Nat) (items : List Doc) (e : Ending) (h : ∀ d ∈ items, Proper d) :
    Proper (.array start depth items e)
  | object (start depth : Nat) (members : List (Token × Option Token × Doc)) (e : Ending)
    (hk : ∀ m ∈ members, m.1.isString) (h : ∀ m ∈ members, Proper m.2.2) :
    Proper (.object start depth members e)
  | noValue (next : Option Token) : Proper (.noValue next)
  | noColon (next : Option Token) : Proper (.noColon next)

theorem piece?_of_lexeme {l : Lexeme} (h : t.lexeme = l) : t.piece? = l.piece? := by
  rw [Token.piece?, h]

theorem isValue_of_isScalar (h : t.lexeme.isScalar = true) (hp : t.piece? = some p) :
    IsValue [p] := by
  unfold Token.piece? Lexeme.piece? at hp
  split at hp <;> cases hp
  case h_5 => exact .null
  case h_6 b _ => exact .bool b
  case h_8 => exact .number
  case h_9 s _ _ => exact .string (some s)
  case h_10 => exact .string none
  all_goals simp [Lexeme.isScalar, *] at h

theorem exists_piece?_of_isString (h : t.isString) (hskip : t.skip = .ok ()) :
    ∃ s, t.piece? = some (.string s) := by
  obtain ⟨strict, lenient, h⟩ := h
  rw [piece?_of_lexeme h]
  rw [Token.skip, h] at hskip
  cases hskip
  cases strict <;> exact ⟨_, rfl⟩

theorem exists_piece?_of_isScalar (h : t.lexeme.isScalar = true) (hskip : t.skip = .ok ()) :
    ∃ p, t.piece? = some p := by
  unfold Token.skip at hskip
  unfold Token.piece?
  split at hskip
  case h_1 strict _ hl =>
    subst hskip
    rw [hl]
    cases strict <;> exact ⟨_, rfl⟩
  case h_2 strict _ hl =>
    subst hskip
    rw [hl]
    cases strict <;> exact ⟨_, rfl⟩
  case h_3 => cases hskip
  case h_4 =>
    cases hl : t.lexeme <;> simp_all [Lexeme.isScalar, Lexeme.piece?]

theorem closed_of_listFault {e : Ending} (h : raise? e.skippedListFault? = .ok ()) :
    ∃ left, e = .closed left := by
  cases e with
  | closed left => exact ⟨left, rfl⟩
  | afterOpening n | afterItem n | afterComma n => cases n <;> cases h

theorem closed_of_objectFault {e : Ending} (h : raise? e.skippedObjectFault? = .ok ()) :
    ∃ left, e = .closed left := by
  cases e with
  | closed left => exact ⟨left, rfl⟩
  | afterOpening n | afterItem n | afterComma n => cases n <;> cases h

namespace Doc

/-- Nothing but a value is written with the pieces of a document. -/
theorem Proper.isValue (h : d.Proper) (hd : d.pieces? = some ps) : IsValue ps := by
  induction h generalizing ps with
  | scalar t h =>
    obtain ⟨p, hp, rfl⟩ := Option.map_eq_some_iff.1 hd
    exact isValue_of_isScalar h hp
  | array start depth items e h ih =>
    cases e with
    | closed left =>
      obtain ⟨vs, hvs, rfl⟩ := Option.map_eq_some_iff.1 hd
      refine .array vs fun v hv => ?_
      obtain ⟨d, hd, hpieces⟩ := mem_itemPieces? hvs hv
      exact ih d hd hpieces
    | _ => cases hd
  | object start depth members e hk h ih =>
    cases e with
    | closed left =>
      obtain ⟨es, hes, rfl⟩ := Option.map_eq_some_iff.1 hd
      refine .object es fun e he => ?_
      obtain ⟨m, hm, hpieces⟩ := mem_entries? hes he
      exact ih m hm hpieces
    | _ => cases hd
  | noValue | noColon => cases hd

theorem Proper.pieces?_of_skip (h : d.Proper) (hskip : d.skip = .ok ()) :
    ∃ ps, d.pieces? = some ps := by
  induction h with
  | scalar t h =>
    obtain ⟨p, hp⟩ := exists_piece?_of_isScalar h hskip
    exact ⟨[p], by rw [pieces?, hp]; rfl⟩
  | array start depth items e h ih =>
    rw [skip] at hskip
    cases hi : skipItems items with
    | error f => rw [hi] at hskip; cases hskip
    | ok u =>
      rw [hi] at hskip
      obtain ⟨vs, hvs⟩ := exists_itemPieces? fun d hd => ih d hd (skipItems_iff.1 hi d hd)
      obtain ⟨left, rfl⟩ := closed_of_listFault hskip
      exact ⟨_, by rw [pieces?, hvs]; rfl⟩
  | object start depth members e hk h ih =>
    rw [skip] at hskip
    cases hm : skipMembers members with
    | error f => rw [hm] at hskip; cases hskip
    | ok u =>
      rw [hm] at hskip
      obtain ⟨es, hes⟩ := exists_entries? fun m hmem => by
        obtain ⟨hkey, hvalue⟩ := skipMembers_iff.1 hm m hmem
        obtain ⟨s, hs⟩ := exists_piece?_of_isString (hk m hmem) hkey
        obtain ⟨v, hv⟩ := ih m hmem hvalue
        exact ⟨s, v, hs, hv⟩
      obtain ⟨left, rfl⟩ := closed_of_objectFault hskip
      exact ⟨_, by rw [pieces?, hes]; rfl⟩
  | noValue | noColon => cases hskip

end Doc

/-! ### Reading -/

/-- Pieces at the front of tokens, and the tokens that follow them. -/
inductive Front : List Token → List Piece → List Token → Prop
  | nil {ts : List Token} : Front ts [] ts
  | cons {t : Token} {p : Piece} {ts rest : List Token} {ps : List Piece} (ht : t.piece? = some p)
    (h : Front ts ps rest) : Front (t :: ts) (p :: ps) rest

theorem front_append :
    Front ts (ps ++ qs) rest ↔ ∃ mid, Front ts ps mid ∧ Front mid qs rest := by
  constructor
  · intro h
    induction ps generalizing ts with
    | nil => exact ⟨ts, .nil, h⟩
    | cons p ps ih =>
      cases h with
      | cons ht h =>
        obtain ⟨mid, hps, hqs⟩ := ih h
        exact ⟨mid, .cons ht hps, hqs⟩
  · rintro ⟨mid, hps, hqs⟩
    induction hps with
    | nil => exact hqs
    | cons ht _ ih => exact .cons ht (ih hqs)

theorem Front.single (ht : t.piece? = some p) : Front (t :: ts) [p] ts := .cons ht .nil

theorem Front.suffix (h : Front ts ps rest) : rest <:+ ts := by
  induction h with
  | nil => exact List.suffix_refl _
  | cons _ _ ih => exact ih.trans (List.suffix_cons _ _)

theorem front_nil_iff : Front ts ps [] ↔ ts.map Token.piece? = ps.map some := by
  constructor
  · intro h
    generalize hr : [] = rest at h
    induction h with
    | nil => rw [← hr]; rfl
    | cons ht _ ih => rw [List.map_cons, List.map_cons, ht, ih hr]
  · intro h
    induction ps generalizing ts with
    | nil =>
      obtain rfl := List.map_eq_nil_iff.1 h
      exact .nil
    | cons p ps ih =>
      obtain ⟨t, ts, rfl, ht, hts⟩ := List.map_eq_cons_iff.1 h
      exact .cons ht (ih hts)

/-- The value of a member, after its name. -/
def Doc.memberValue (fuel depth : Nat) (ts : List Token) : Doc × List Token :=
  match ts with
  | [] => (.noColon none, [])
  | c :: more =>
    match c.lexeme with
    | .colon => value fuel depth more
    | _ => (.noColon (some c), ts)

theorem Doc.members_cons (fuel depth : Nat) (acc : List (Token × Option Token × Doc)) (key : Token)
    (ts : List Token) : members (fuel + 1) depth acc (key :: ts) =
      let done := (key, ts.head?, (memberValue fuel depth ts).1) :: acc
      match (memberValue fuel depth ts).2 with
      | [] => (done.reverse, .afterItem none, [])
      | n :: more =>
        match n.lexeme with
        | .closing .curly => (done.reverse, .closed n.stop, more)
        | .comma =>
          match more with
          | [] => (done.reverse, .afterComma none, [])
          | m :: _ =>
            match m.lexeme with
            | .string .. => members fuel depth done more
            | _ => (done.reverse, .afterComma (some m), more)
        | _ => (done.reverse, .afterItem (some n), (memberValue fuel depth ts).2) := by
  rw [members.eq_def]
  rfl

theorem listed_cons_of_ne_nil {close : Piece} {v : List Piece} {vs : List (List Piece)}
    (h : vs ≠ []) : listed close (v :: vs) = v ++ .comma :: listed close vs := by
  cases vs with
  | nil => exact absurd rfl h
  | cons w ws => rfl

/-- Items that are added to those before, and the tokens that they take up if the list is closed
and nothing is missing. -/
def TakesItems (ts : List Token) (acc docs : List Doc) (e : Ending) (rest : List Token) : Prop :=
  ∃ new, docs = acc.reverse ++ new ∧ (∀ d ∈ new, d.Proper) ∧
    ∀ {left vs}, e = .closed left → Doc.itemPieces? new = some vs →
      vs ≠ [] ∧ Front ts (listed (.closing .square) vs) rest

/-- Members that are added to those before, and the tokens that they take up if the object is closed
and nothing is missing. -/
def TakesMembers (ts : List Token) (acc docs : List (Token × Option Token × Doc)) (e : Ending)
    (rest : List Token) : Prop :=
  ∃ new, docs = acc.reverse ++ new ∧ (∀ m ∈ new, m.1.isString ∧ m.2.2.Proper) ∧
    ∀ {left es}, e = .closed left → Doc.entries? new = some es →
      es ≠ [] ∧ Front ts (listed (.closing .curly) (es.map NamedValue.pieces)) rest

theorem takesItems_broken {acc : List Doc} {e : Ending} (hd : d.Proper)
    (he : ∀ left, e ≠ .closed left) : TakesItems ts acc (d :: acc).reverse e rest :=
  ⟨[d], by simp, by simpa using hd, fun hc => absurd hc (he _)⟩

theorem takesMembers_broken {m : Token × Option Token × Doc}
    {acc : List (Token × Option Token × Doc)} {e : Ending} (hk : m.1.isString)
    (hd : m.2.2.Proper) (he : ∀ left, e ≠ .closed left) :
    TakesMembers ts acc (m :: acc).reverse e rest :=
  ⟨[m], by simp, by simpa using ⟨hk, hd⟩, fun hc => absurd hc (he _)⟩

theorem TakesItems.array {docs : List Doc} {e : Ending} (h : TakesItems ts [] docs e rest)
    (ht : t.lexeme = .opening .square) (start depth : Nat) :
    (Doc.array start depth docs e).Proper ∧
      ∀ {ps}, (Doc.array start depth docs e).pieces? = some ps → Front (t :: ts) ps rest := by
  obtain ⟨new, rfl, hproper, hfront⟩ := h
  refine ⟨.array _ _ _ _ hproper, fun hd => ?_⟩
  cases e with
  | closed left =>
    obtain ⟨vs, hvs, rfl⟩ := Option.map_eq_some_iff.1 hd
    exact .cons (piece?_of_lexeme ht) (hfront rfl hvs).2
  | _ => cases hd

theorem TakesMembers.object {docs : List (Token × Option Token × Doc)} {e : Ending}
    (h : TakesMembers ts [] docs e rest) (ht : t.lexeme = .opening .curly) (start depth : Nat) :
    (Doc.object start depth docs e).Proper ∧
      ∀ {ps}, (Doc.object start depth docs e).pieces? = some ps → Front (t :: ts) ps rest := by
  obtain ⟨new, rfl, hproper, hfront⟩ := h
  refine ⟨.object _ _ _ _ (fun m hm => (hproper m hm).1) (fun m hm => (hproper m hm).2),
    fun hd => ?_⟩
  cases e with
  | closed left =>
    obtain ⟨es, hes, rfl⟩ := Option.map_eq_some_iff.1 hd
    exact .cons (piece?_of_lexeme ht) (hfront rfl hes).2
  | _ => cases hd

/-- What the readers make of the front of the tokens: documents as they come of tokens, and if
nothing is missing, with just the pieces that are there. -/
structure Reads (fuel : Nat) : Prop where
  value : ∀ {depth ts d rest}, Doc.value fuel depth ts = (d, rest) →
    d.Proper ∧ ∀ {ps}, d.pieces? = some ps → Front ts ps rest
  items : ∀ {depth acc ts docs e rest}, Doc.items fuel depth acc ts = (docs, e, rest) →
    TakesItems ts acc docs e rest
  members : ∀ {depth acc k ts docs e rest}, k.isString →
    Doc.members fuel depth acc (k :: ts) = (docs, e, rest) → TakesMembers (k :: ts) acc docs e rest

theorem Reads.items_succ {fuel : Nat} (ih : Reads fuel) {depth : Nat} {acc docs : List Doc}
    {e : Ending} (h : Doc.items (fuel + 1) depth acc ts = (docs, e, rest)) :
    TakesItems ts acc docs e rest := by
  unfold Doc.items at h
  cases hv : Doc.value fuel depth ts with
  | mk d after =>
    obtain ⟨hproper, hfront⟩ := ih.value hv
    rw [hv] at h
    dsimp only at h
    split at h
    · cases h
      exact takesItems_broken hproper (by simp)
    · rename_i n more
      split at h
      · rename_i hn
        cases h
        refine ⟨[d], by simp, by simpa using hproper, fun _ hvs => ?_⟩
        obtain ⟨v, ws, rfl, hd, hws⟩ := Doc.itemPieces?_cons hvs
        cases hws
        exact ⟨by simp, front_append.2 ⟨_, hfront hd, .single (piece?_of_lexeme hn)⟩⟩
      · rename_i hn
        split at h
        · cases h
          exact takesItems_broken hproper (by simp)
        · split at h
          · cases h
            exact takesItems_broken hproper (by simp)
          · obtain ⟨new, rfl, hnew, hrest⟩ := ih.items h
            refine ⟨d :: new, by simp, List.forall_mem_cons.2 ⟨hproper, hnew⟩, fun he hvs => ?_⟩
            obtain ⟨v, ws, rfl, hd, hws⟩ := Doc.itemPieces?_cons hvs
            obtain ⟨hne, hrest⟩ := hrest he hws
            rw [listed_cons_of_ne_nil hne]
            exact ⟨by simp, front_append.2 ⟨_, hfront hd, .cons (piece?_of_lexeme hn) hrest⟩⟩
      · cases h
        exact takesItems_broken hproper (by simp)

/-- A value is read behind a colon only. -/
theorem Reads.memberValue {fuel : Nat} (ih : Reads fuel) {depth : Nat}
    (h : Doc.memberValue fuel depth ts = (d, rest)) :
    d.Proper ∧ ∀ {v}, d.pieces? = some v → Front ts (.colon :: v) rest := by
  unfold Doc.memberValue at h
  split at h
  · cases h
    exact ⟨.noColon _, fun hv => (by cases hv)⟩
  · split at h
    · rename_i hc
      obtain ⟨hproper, hfront⟩ := ih.value h
      exact ⟨hproper, fun hv => .cons (piece?_of_lexeme hc) (hfront hv)⟩
    · cases h
      exact ⟨.noColon _, fun hv => (by cases hv)⟩

theorem Reads.members_succ {fuel : Nat} (ih : Reads fuel) {depth : Nat} {k : Token}
    {acc docs : List (Token × Option Token × Doc)} {e : Ending} (hk : k.isString)
    (h : Doc.members (fuel + 1) depth acc (k :: ts) = (docs, e, rest)) :
    TakesMembers (k :: ts) acc docs e rest := by
  rw [Doc.members_cons] at h
  cases hv : Doc.memberValue fuel depth ts with
  | mk v after =>
    obtain ⟨hproper, hfront⟩ := ih.memberValue hv
    rw [hv] at h
    dsimp only at h
    split at h
    · cases h
      exact takesMembers_broken hk hproper (by simp)
    · rename_i n more
      split at h
      · rename_i hn
        cases h
        refine ⟨[(k, ts.head?, v)], by simp, by simpa using ⟨hk, hproper⟩, fun _ hes => ?_⟩
        obtain ⟨s, v, fs, rfl, hs, hv, hfs⟩ := Doc.entries?_cons hes
        cases hfs
        have hclose : Front (n :: rest) [.closing .curly] rest := .single (piece?_of_lexeme hn)
        exact ⟨by simp, .cons hs (front_append.2 ⟨_, hfront hv, hclose⟩)⟩
      · rename_i hn
        split at h
        · cases h
          exact takesMembers_broken hk hproper (by simp)
        · split at h
          · rename_i hm
            obtain ⟨new, rfl, hnew, hrest⟩ := ih.members ⟨_, _, hm⟩ h
            refine ⟨(k, ts.head?, v) :: new, by simp,
              List.forall_mem_cons.2 ⟨⟨hk, hproper⟩, hnew⟩, fun he hes => ?_⟩
            obtain ⟨s, v, fs, rfl, hs, hv, hfs⟩ := Doc.entries?_cons hes
            obtain ⟨hne, hrest⟩ := hrest he hfs
            rw [List.map_cons, listed_cons_of_ne_nil (by simpa using hne)]
            have hcomma := Front.cons (piece?_of_lexeme hn) hrest
            exact ⟨by simp, .cons hs (front_append.2 ⟨_, hfront hv, hcomma⟩)⟩
          · cases h
            exact takesMembers_broken hk hproper (by simp)
      · cases h
        exact takesMembers_broken hk hproper (by simp)

theorem Reads.value_succ {fuel : Nat} (ih : Reads fuel) {depth : Nat}
    (h : Doc.value (fuel + 1) depth ts = (d, rest)) :
    d.Proper ∧ ∀ {ps}, d.pieces? = some ps → Front ts ps rest := by
  cases ts with
  | nil =>
    cases h
    exact ⟨.noValue _, fun hd => (by cases hd)⟩
  | cons t ts =>
    unfold Doc.value at h
    dsimp only at h
    split at h
    case h_1 ht =>
      split at h
      · cases h
        exact ⟨.array _ _ _ _ (by simp), fun hd => (by cases hd)⟩
      · rename_i n more
        split at h
        · rename_i hn
          cases h
          refine ⟨.array _ _ _ _ (by simp), fun hd => ?_⟩
          cases hd
          exact .cons (piece?_of_lexeme ht) (.single (piece?_of_lexeme hn))
        · cases hi : Doc.items fuel (depth + 1) [] (n :: more) with
          | mk items r =>
            obtain ⟨e, after⟩ := r
            rw [hi] at h
            cases h
            exact (ih.items hi).array ht _ _
    case h_2 ht =>
      split at h
      · cases h
        exact ⟨.object _ _ _ _ (by simp) (by simp), fun hd => (by cases hd)⟩
      · rename_i n more
        split at h
        · rename_i hn
          cases h
          refine ⟨.object _ _ _ _ (by simp) (by simp), fun hd => ?_⟩
          cases hd
          exact .cons (piece?_of_lexeme ht) (.single (piece?_of_lexeme hn))
        · rename_i hn
          cases hm : Doc.members fuel (depth + 1) [] (n :: more) with
          | mk members r =>
            obtain ⟨e, after⟩ := r
            rw [hm] at h
            cases h
            exact (ih.members ⟨_, _, hn⟩ hm).object ht _ _
        · cases h
          exact ⟨.object _ _ _ _ (by simp) (by simp), fun hd => (by cases hd)⟩
    case h_8 | h_9 | h_10 | h_11 =>
      cases h
      exact ⟨.noValue _, fun hd => (by cases hd)⟩
    all_goals
      rename_i ht
      cases h
      refine ⟨.scalar t (by rw [ht]; rfl), fun hd => ?_⟩
      obtain ⟨p, hp, rfl⟩ := Option.map_eq_some_iff.1 hd
      exact .single hp

theorem reads (fuel : Nat) : Reads fuel := by
  induction fuel with
  | zero =>
    refine ⟨fun h => ?_, fun h => ?_, fun _ h => ?_⟩
    · cases h
      exact ⟨.noValue _, fun hd => (by cases hd)⟩
    · cases h
      exact ⟨[], by simp, by simp, fun he => (by cases he)⟩
    · cases h
      exact ⟨[], by simp, by simp, fun he => (by cases he)⟩
  | succ fuel ih => exact ⟨ih.value_succ, ih.items_succ, ih.members_succ⟩

end GatedCalls.Json
