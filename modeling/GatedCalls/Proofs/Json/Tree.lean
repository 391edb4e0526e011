import GatedCalls.Proofs.Json.Completion

/-!
# The values that texts write

A `Tree` is a value as a text writes it: its members in their order, repeated ones included, and of
each string what it spells. A text writes one tree at most (`Tree.pieces_inj`), and it does so
exactly if the document that comes of it holds that tree (`writes_iff`).
-/

namespace GatedCalls.Json

/-- A value as it is written. A number stands for any number, and a string may spell nothing. -/
inductive Tree
  | null
  | bool (b : Bool)
  | number
  | string (s : Option String)
  | array (items : List Tree)
  | object (members : List (Option String × Tree))

namespace Tree

mutual

def pieces : Tree → List Piece
  | null => [.null]
  | bool b => [.bool b]
  | number => [.number]
  | string s => [.string s]
  | array items => arrayOf (itemPieces items)
  | object members => objectOf (memberPieces members)

def itemPieces : List Tree → List (List Piece)
  | [] => []
  | t :: rest => t.pieces :: itemPieces rest

def memberPieces : List (Option String × Tree) → List NamedValue
  | [] => []
  | (k, t) :: rest => (k, t.pieces) :: memberPieces rest

end

theorem sizeOf_lt_of_member {m : Option String × Tree} {members : List (Option String × Tree)}
    (h : m ∈ members) : sizeOf m.2 < sizeOf members := by
  have hlt := List.sizeOf_lt_of_mem h
  cases m
  simp only [Prod.mk.sizeOf_spec] at hlt ⊢
  omega

@[elab_as_elim]
theorem ind {motive : Tree → Prop} (null : motive null) (bool : ∀ b, motive (bool b))
    (number : motive number) (string : ∀ s, motive (string s))
    (array : ∀ items, (∀ t ∈ items, motive t) → motive (array items))
    (object : ∀ members : List (Option String × Tree), (∀ m ∈ members, motive m.2) →
      motive (object members)) : ∀ t, motive t
  | .null => null
  | .bool b => bool b
  | .number => number
  | .string s => string s
  | .array items => array items fun t ht =>
    have _hlt := List.sizeOf_lt_of_mem ht
    ind null bool number string array object t
  | .object members => object members fun m hm =>
    have _hlt := sizeOf_lt_of_member hm
    ind null bool number string array object m.2

theorem itemPieces_eq (items : List Tree) : itemPieces items = items.map pieces := by
  induction items with
  | nil => rfl
  | cons t rest ih => rw [itemPieces, ih, List.map_cons]

theorem memberPieces_eq (members : List (Option String × Tree)) :
    memberPieces members = members.map fun m => (m.1, m.2.pieces) := by
  induction members with
  | nil => rfl
  | cons m rest ih => rw [memberPieces, ih, List.map_cons]

theorem isValue_pieces (t : Tree) : IsValue t.pieces := by
  induction t using ind with
  | null => exact .null
  | bool b => exact .bool b
  | number => exact .number
  | string s => exact .string s
  | array items ih =>
    rw [pieces, itemPieces_eq]
    refine .array _ fun v hv => ?_
    obtain ⟨t, ht, rfl⟩ := List.mem_map.1 hv
    exact ih t ht
  | object members ih =>
    rw [pieces, memberPieces_eq]
    refine .object _ fun e he => ?_
    obtain ⟨m, hm, rfl⟩ := List.mem_map.1 he
    exact ih m hm

/-! ### One tree at most -/

section Unique

variable {α : Type} {f : α → List Piece} {close : Piece} {x y : List Piece} {as bs : List α}

/-- Nothing but `a` begins with the pieces of `a`. -/
def Unique (f : α → List Piece) (a : α) : Prop :=
  ∀ b x y, f a ++ x = f b ++ y → a = b ∧ x = y

/-- What comes behind the first part of a list. -/
def listedTail (close : Piece) : List (List Piece) → List Piece
  | [] => [close]
  | v :: vs => .comma :: listed close (v :: vs)

theorem listed_eq_tail (close : Piece) (v : List Piece) (vs : List (List Piece)) :
    listed close (v :: vs) = v ++ listedTail close vs := by
  cases vs <;> rfl

theorem listed_inj (hcomma : close ≠ .comma) (hhead : ∀ a, ∃ p qs, f a = p :: qs ∧ p ≠ close)
    (hu : ∀ a ∈ as, Unique f a)
    (h : listed close (as.map f) ++ x = listed close (bs.map f) ++ y) : as = bs ∧ x = y := by
  have hfirst (b : α) (z z' : List Piece) : close :: z ≠ f b ++ z' := by
    intro he
    obtain ⟨p, qs, hf, hp⟩ := hhead b
    rw [hf] at he
    exact hp (List.cons.inj he).1.symm
  induction as generalizing bs with
  | nil =>
    cases bs with
    | nil => exact ⟨rfl, (List.cons.inj h).2⟩
    | cons b bs =>
      rw [List.map_cons, listed_eq_tail, List.append_assoc] at h
      exact absurd h (hfirst b _ _)
  | cons a as ih =>
    rw [List.forall_mem_cons] at hu
    cases bs with
    | nil =>
      rw [List.map_cons, listed_eq_tail, List.append_assoc] at h
      exact absurd h.symm (hfirst a _ _)
    | cons b bs =>
      rw [List.map_cons, List.map_cons, listed_eq_tail, listed_eq_tail, List.append_assoc,
        List.append_assoc] at h
      obtain ⟨rfl, htail⟩ := hu.1 b _ _ h
      cases as with
      | nil =>
        cases bs with
        | nil => exact ⟨rfl, (List.cons.inj htail).2⟩
        | cons b bs => exact absurd (List.cons.inj htail).1 hcomma
      | cons a' as =>
        cases bs with
        | nil => exact absurd (List.cons.inj htail).1.symm hcomma
        | cons b bs =>
          obtain ⟨has, hxy⟩ := @ih (b :: bs) hu.2 (List.cons.inj htail).2
          exact ⟨by rw [has], hxy⟩

end Unique

theorem unique_pieces (t : Tree) : Unique pieces t := by
  induction t using ind with
  | null | bool | number | string =>
    intro b x y h
    cases b <;> simp_all [pieces, arrayOf, objectOf]
  | array items ih =>
    intro b x y h
    cases b with
    | array items' =>
      rw [pieces, pieces, itemPieces_eq, itemPieces_eq] at h
      have hhead (t : Tree) : ∃ p qs, t.pieces = p :: qs ∧ p ≠ .closing .square := by
        obtain ⟨p, qs, hp, hne⟩ := t.isValue_pieces.head
        exact ⟨p, qs, hp, hne _⟩
      obtain ⟨rfl, hxy⟩ := listed_inj (by simp) hhead ih (List.cons.inj h).2
      exact ⟨rfl, hxy⟩
    | _ => simp [pieces, arrayOf, objectOf] at h
  | object members ih =>
    intro b x y h
    cases b with
    | object members' =>
      rw [pieces, pieces, memberPieces_eq, memberPieces_eq, objectOf, objectOf, List.map_map,
        List.map_map] at h
      have hu : ∀ m ∈ members, Unique
          (NamedValue.pieces ∘ fun m : Option String × Tree => (m.1, m.2.pieces)) m := by
        rintro ⟨k, t⟩ hm ⟨k', t'⟩ x y h
        simp only [Function.comp_apply, NamedValue.pieces, List.cons_append, List.cons.injEq,
          true_and, Piece.string.injEq] at h
        obtain ⟨rfl, rfl⟩ := ih _ hm t' x y h.2
        exact ⟨by rw [h.1], rfl⟩
      obtain ⟨rfl, hxy⟩ := listed_inj (by simp) (fun m => ⟨_, _, rfl, by simp⟩) hu
        (List.cons.inj h).2
      exact ⟨rfl, hxy⟩
    | _ => simp [pieces, arrayOf, objectOf] at h

/-- A text writes one tree at most. -/
theorem pieces_inj {t t' : Tree} (h : t.pieces = t'.pieces) : t = t' :=
  (unique_pieces t t' [] [] (by rw [h])).1

end Tree

/-! ### The tree of a document -/

def Piece.tree? : Piece → Option Tree
  | .null => some .null
  | .bool b => some (.bool b)
  | .number => some .number
  | .string s => some (.string s)
  | _ => none

namespace Doc

mutual

/-- The tree of a document in which nothing is missing. -/
def tree? : Doc → Option Tree
  | scalar t => t.piece?.bind Piece.tree?
  | array _ _ items (.closed _) => (itemTrees? items).map .array
  | object _ _ members (.closed _) => (memberTrees? members).map .object
  | _ => none

def itemTrees? : List Doc → Option (List Tree)
  | [] => some []
  | d :: rest => do return (← tree? d) :: (← itemTrees? rest)

def memberTrees? : List (Token × Option Token × Doc) → Option (List (Option String × Tree))
  | [] => some []
  | (k, _, d) :: rest => do return (← k.name?, ← tree? d) :: (← memberTrees? rest)

end

variable {d : Doc}

theorem itemPieces?_eq {items : List Doc} (h : ∀ d ∈ items, d.pieces? = d.tree?.map Tree.pieces) :
    itemPieces? items = (itemTrees? items).map Tree.itemPieces := by
  induction items with
  | nil => rfl
  | cons d rest ih =>
    rw [List.forall_mem_cons] at h
    rw [itemPieces?, itemTrees?, h.1, ih h.2]
    cases d.tree? <;> cases itemTrees? rest <;> rfl

theorem entries?_eq {members : List (Token × Option Token × Doc)}
    (h : ∀ m ∈ members, m.2.2.pieces? = m.2.2.tree?.map Tree.pieces) :
    entries? members = (memberTrees? members).map Tree.memberPieces := by
  induction members with
  | nil => rfl
  | cons m rest ih =>
    rw [List.forall_mem_cons] at h
    rw [entries?, memberTrees?, h.1, ih h.2]
    cases m.1.name? <;> cases m.2.2.tree? <;> cases memberTrees? rest <;> rfl

theorem Proper.pieces?_eq (h : d.Proper) : d.pieces? = d.tree?.map Tree.pieces := by
  induction h with
  | scalar t h =>
    rw [pieces?, tree?]
    cases hp : t.piece? with
    | none => rfl
    | some p =>
      cases p with
      | null | bool | number | string => rfl
      | opening | closing | comma | colon =>
        rw [lexeme_of_piece hp rfl] at h
        cases h
  | array start depth items e h ih =>
    cases e with
    | closed left =>
      rw [pieces?, tree?, itemPieces?_eq ih, Option.map_map, Option.map_map]
      rfl
    | _ => rfl
  | object start depth members e hk h ih =>
    cases e with
    | closed left =>
      rw [pieces?, tree?, entries?_eq ih, Option.map_map, Option.map_map]
      rfl
    | _ => rfl
  | noValue | noColon => rfl

/-! ### Depth -/

/-- A document with `depth` brackets open around it. -/
inductive Level : Nat → Doc → Prop
  | scalar (depth : Nat) (t : Token) : Level depth (.scalar t)
  | array {depth : Nat} (start : Nat) {items : List Doc} (e : Ending)
    (h : ∀ d ∈ items, Level (depth + 1) d) : Level depth (.array start (depth + 1) items e)
  | object {depth : Nat} (start : Nat) {members : List (Token × Option Token × Doc)} (e : Ending)
    (h : ∀ m ∈ members, Level (depth + 1) m.2.2) :
    Level depth (.object start (depth + 1) members e)
  | noValue (depth : Nat) (next : Option Token) : Level depth (.noValue next)
  | noColon (depth : Nat) (next : Option Token) : Level depth (.noColon next)

/-- The readers count the brackets that are open. -/
structure Levels (fuel : Nat) : Prop where
  value : ∀ depth ts, (value fuel depth ts).1.Level depth
  items : ∀ depth acc ts, (∀ d ∈ acc, d.Level depth) →
    ∀ d ∈ (items fuel depth acc ts).1, d.Level depth
  members : ∀ depth (acc : List (Token × Option Token × Doc)) ts,
    (∀ m ∈ acc, m.2.2.Level depth) → ∀ m ∈ (members fuel depth acc ts).1, m.2.2.Level depth

theorem Levels.value_succ {fuel : Nat} (ih : Levels fuel) (depth : Nat) (ts : List Token) :
    (Doc.value (fuel + 1) depth ts).1.Level depth := by
  cases ts with
  | nil => exact .noValue ..
  | cons t ts =>
    unfold Doc.value
    dsimp only
    split
    · split
      · exact .array _ _ (by simp)
      · split
        · exact .array _ _ (by simp)
        · exact .array _ _ (ih.items _ [] _ (by simp))
    · split
      · exact .object _ _ (by simp)
      · split
        · exact .object _ _ (by simp)
        · exact .object _ _ (ih.members _ [] _ (by simp))
        · exact .object _ _ (by simp)
    all_goals first | exact .scalar .. | exact .noValue ..

theorem Levels.items_succ {fuel : Nat} (ih : Levels fuel) (depth : Nat) (acc : List Doc)
    (ts : List Token) (hacc : ∀ d ∈ acc, d.Level depth) :
    ∀ d ∈ (Doc.items (fuel + 1) depth acc ts).1, d.Level depth := by
  have hv := ih.value depth ts
  have hdone : ∀ d ∈ (Doc.value fuel depth ts).1 :: acc, d.Level depth :=
    List.forall_mem_cons.2 ⟨hv, hacc⟩
  have hreverse : ∀ d ∈ ((Doc.value fuel depth ts).1 :: acc).reverse, d.Level depth :=
    fun d hd => hdone d (List.mem_reverse.1 hd)
  unfold Doc.items
  dsimp only
  split
  · exact hreverse
  · split
    · exact hreverse
    · split
      · exact hreverse
      · split
        · exact hreverse
        · exact ih.items _ _ _ hdone
    · exact hreverse

theorem Levels.members_succ {fuel : Nat} (ih : Levels fuel) (depth : Nat)
    (acc : List (Token × Option Token × Doc)) (ts : List Token)
    (hacc : ∀ m ∈ acc, m.2.2.Level depth) :
    ∀ m ∈ (Doc.members (fuel + 1) depth acc ts).1, m.2.2.Level depth := by
  cases ts with
  | nil => exact fun m hm => hacc m (List.mem_reverse.1 hm)
  | cons k ts =>
    have hv : (Doc.memberValue fuel depth ts).1.Level depth := by
      unfold Doc.memberValue
      split
      · exact .noColon ..
      · split
        · exact ih.value ..
        · exact .noColon ..
    have hdone : ∀ m ∈ (k, ts.head?, (Doc.memberValue fuel depth ts).1) :: acc,
        m.2.2.Level depth := List.forall_mem_cons.2 ⟨hv, hacc⟩
    have hreverse : ∀ m ∈ ((k, ts.head?, (Doc.memberValue fuel depth ts).1) :: acc).reverse,
        m.2.2.Level depth := fun m hm => hdone m (List.mem_reverse.1 hm)
    rw [Doc.members_cons]
    dsimp only
    split
    · exact hreverse
    · split
      · exact hreverse
      · split
        · exact hreverse
        · split
          · exact ih.members _ _ _ hdone
          · exact hreverse
      · exact hreverse

theorem levels (fuel : Nat) : Levels fuel := by
  induction fuel with
  | zero =>
    exact ⟨fun _ _ => .noValue .., fun _ _ _ hacc d hd => hacc d (List.mem_reverse.1 hd),
      fun _ _ _ hacc m hm => hacc m (List.mem_reverse.1 hm)⟩
  | succ fuel ih => exact ⟨ih.value_succ, ih.items_succ, ih.members_succ⟩

end Doc

/-! ### Texts -/

/-- The text writes this value and nothing else. -/
def Writes (s : String) (t : Tree) : Prop := Written (Mark.ofSymbols (Text.symbolsOf s)) t.pieces

theorem Writes.unique {s : String} {t t' : Tree} (h : Writes s t) (h' : Writes s t') : t = t' := by
  have hp := (written_iff.1 h).symm.trans (written_iff.1 h')
  exact Tree.pieces_inj ((List.map_inj_right fun _ _ => Option.some.inj).1 hp)

theorem value_of_ofText {s : String} {d : Doc}
    (h : Doc.ofText (Text.symbolsOf s) = (d, none)) :
    Doc.value (2 * (tokens (Text.symbolsOf s)).length + 2) 0 (tokens (Text.symbolsOf s)) =
      (d, []) := by
  unfold Doc.ofText at h
  dsimp only at h
  obtain ⟨hd, hrest⟩ := Prod.mk.inj h
  exact Prod.ext hd (List.head?_eq_none_iff.1 hrest)

theorem proper_ofText {s : String} {d : Doc} (h : Doc.ofText (Text.symbolsOf s) = (d, none)) :
    d.Proper ∧ d.Level 0 := by
  have hv := value_of_ofText h
  refine ⟨((reads _).value hv).1, ?_⟩
  have hlevel := (Doc.levels (2 * (tokens (Text.symbolsOf s)).length + 2)).value 0
    (tokens (Text.symbolsOf s))
  rwa [hv] at hlevel

/-- A text writes a tree if it is a document that holds the tree, with nothing behind it. -/
theorem writes_iff {s : String} {t : Tree} : Writes s t ↔
    ∃ d, Doc.ofText (Text.symbolsOf s) = (d, none) ∧ d.tree? = some t := by
  constructor
  · intro h
    have hpieces := written_iff.1 h
    have hlength : (tokens (Text.symbolsOf s)).length = t.pieces.length := by
      simpa using congrArg List.length hpieces
    obtain ⟨d, hd, hps, -⟩ := t.isValue_pieces.completes
      (2 * (tokens (Text.symbolsOf s)).length + 2) 0 (front_nil_iff.2 hpieces) h.skip (by omega)
    have hof : Doc.ofText (Text.symbolsOf s) = (d, none) := by
      unfold Doc.ofText
      dsimp only
      rw [hd]
      rfl
    refine ⟨d, hof, ?_⟩
    rw [(proper_ofText hof).1.pieces?_eq] at hps
    obtain ⟨t', ht', he⟩ := Option.map_eq_some_iff.1 hps
    rw [ht', Tree.pieces_inj he]
  · rintro ⟨d, hd, ht⟩
    have hps : d.pieces? = some t.pieces := by
      rw [(proper_ofText hd).1.pieces?_eq, ht]
      rfl
    exact written_iff.2 (front_nil_iff.1 (((reads _).value (value_of_ofText hd)).2 hps))

end GatedCalls.Json
