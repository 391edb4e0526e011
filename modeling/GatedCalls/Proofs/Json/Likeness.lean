import GatedCalls.Proofs.Json.Completion

/-!
# Texts that differ in their string values

Two lists of tokens are `Pairs` if they differ in the strings only that are values, and a string is
known for a name by the colon behind it. If the first of them makes a document that can be passed
over, the second makes one of the same shape, nested as deep, with the same names, and with each
string value changed in the same way (`Alike`). The readers of documents take the same steps on both
(`Lockstep`); where a name stands in a value's place, they go on to a colon, which no document has
behind it.
-/

namespace GatedCalls.Json

variable {g : String → String}

/-- Tokens that are the same but for string values, which the second list has changed by `g`. -/
inductive Pairs (g : String → String) : List Token → List Token → Prop
  | nil : Pairs g [] []
  | same {t t' : Token} {ts ts' : List Token} {p : Piece} (hc : p ≠ .colon)
    (hs : ∀ s, p ≠ .string s) (ht : t.Shows p) (ht' : t'.Shows p) (h : Pairs g ts ts') :
    Pairs g (t :: ts) (t' :: ts')
  | name {k k' c c' : Token} {ts ts' : List Token} {s : Option String} (hk : k.Shows (.string s))
    (hk' : k'.Shows (.string s)) (hc : c.Shows .colon) (hc' : c'.Shows .colon)
    (h : Pairs g ts ts') : Pairs g (k :: c :: ts) (k' :: c' :: ts')
  | value {t t' : Token} {ts ts' : List Token} {s : String} (ht : t.Shows (.string (some s)))
    (ht' : t'.Shows (.string (some (g s)))) (h : Pairs g ts ts') : Pairs g (t :: ts) (t' :: ts')

/-- The same name stands before two members. -/
def Token.SameName (k k' : Token) : Prop := ∃ s, k.Shows (.string s) ∧ k'.Shows (.string s)

/-- Documents with nothing missing that are the same but for string values, which the second has
changed by `g`. -/
inductive Alike (g : String → String) : Doc → Doc → Prop
  | scalar {t t' : Token} {p : Piece} (hs : ∀ s, p ≠ .string s) (ht : t.Shows p)
    (ht' : t'.Shows p) : Alike g (.scalar t) (.scalar t')
  | string {t t' : Token} {s : String} (ht : t.Shows (.string (some s)))
    (ht' : t'.Shows (.string (some (g s)))) : Alike g (.scalar t) (.scalar t')
  | array {start start' depth left left' : Nat} (items : List (Doc × Doc))
    (h : ∀ p ∈ items, Alike g p.1 p.2) :
    Alike g (.array start depth (items.map Prod.fst) (.closed left))
      (.array start' depth (items.map Prod.snd) (.closed left'))
  | object {start start' depth left left' : Nat}
    (members : List ((Token × Option Token × Doc) × (Token × Option Token × Doc)))
    (hk : ∀ m ∈ members, m.1.1.SameName m.2.1) (h : ∀ m ∈ members, Alike g m.1.2.2 m.2.2.2) :
    Alike g (.object start depth (members.map Prod.fst) (.closed left))
      (.object start' depth (members.map Prod.snd) (.closed left'))

variable {ts ts' rest : List Token} {t t' n : Token} {p : Piece} {d d' : Doc} {fuel depth : Nat}

namespace Pairs

theorem length_eq (h : Pairs g ts ts') : ts.length = ts'.length := by
  induction h with
  | nil => rfl
  | same _ _ _ _ _ ih | value _ _ _ ih => exact congrArg (· + 1) ih
  | name _ _ _ _ _ ih => exact congrArg (· + 2) ih

theorem eq_nil (h : Pairs g [] ts') : ts' = [] :=
  List.eq_nil_of_length_eq_zero h.length_eq.symm

theorem step (h : Pairs g (t :: ts) ts') (ht : t.piece? = some p) (hs : ∀ s, p ≠ .string s) :
    ∃ t' us, ts' = t' :: us ∧ t'.piece? = some p ∧ Pairs g ts us := by
  cases h with
  | same _ _ ht₁ ht₁' h =>
    obtain rfl := Option.some.inj (ht₁.1.symm.trans ht)
    exact ⟨_, _, rfl, ht₁'.1, h⟩
  | name hk => exact absurd (Option.some.inj (ht.symm.trans hk.1)) (hs _)
  | value ht₁ => exact absurd (Option.some.inj (ht.symm.trans ht₁.1)) (hs _)

theorem step_string (h : Pairs g (t :: ts) ts') (ht : t.isString) :
    ∃ t' us, ts' = t' :: us ∧ t'.isString := by
  have hstring {k : Token} {s : Option String} (hk : k.Shows (.string s)) : k.isString := by
    obtain ⟨r, l, hl, -⟩ := lexeme_string hk.1
    exact ⟨r, l, hl⟩
  cases h with
  | same _ hs ht₁ =>
    obtain ⟨r, l, hl⟩ := ht
    rw [Token.Shows, piece?_of_lexeme hl] at ht₁
    cases r <;> cases l <;> cases ht₁.1 <;> exact absurd rfl (hs _)
  | name _ hk' => exact ⟨_, _, rfl, hstring hk'⟩
  | value _ ht' => exact ⟨_, _, rfl, hstring ht'⟩

theorem head_ne {l : Lexeme} (h : Pairs g (t :: ts) (t' :: ts')) (hl : p.lexeme? = some l)
    (hp : l.piece? = some p) (ht : t.lexeme ≠ l) : t'.lexeme ≠ l := by
  intro ht'
  have hp' : t'.piece? = some p := (piece?_of_lexeme ht').trans hp
  cases h with
  | same _ _ ht₁ ht₁' =>
    obtain rfl := Option.some.inj (hp'.symm.trans ht₁'.1)
    exact ht (lexeme_of_piece ht₁.1 hl)
  | name _ hk' =>
    obtain rfl := Option.some.inj (hp'.symm.trans hk'.1)
    cases hl
  | value _ ht₁' =>
    obtain rfl := Option.some.inj (hp'.symm.trans ht₁'.1)
    cases hl

end Pairs

/-! ### Skipping -/

theorem Alike.skip (h : Alike g d d') : d.skip = .ok () ∧ d'.skip = .ok () := by
  induction h with
  | scalar _ ht ht' | string ht ht' => exact ⟨ht.2, ht'.2⟩
  | array items _ ih =>
    have hfst : Doc.skipItems (items.map Prod.fst) = .ok () := by
      rw [Doc.skipItems_iff, List.forall_mem_map]
      exact fun p hp => (ih p hp).1
    have hsnd : Doc.skipItems (items.map Prod.snd) = .ok () := by
      rw [Doc.skipItems_iff, List.forall_mem_map]
      exact fun p hp => (ih p hp).2
    rw [Doc.skip, Doc.skip, hfst, hsnd]
    exact ⟨rfl, rfl⟩
  | object members hk _ ih =>
    have hfst : Doc.skipMembers (members.map Prod.fst) = .ok () := by
      rw [Doc.skipMembers_iff, List.forall_mem_map]
      intro m hm
      obtain ⟨s, hk, -⟩ := hk m hm
      exact ⟨hk.2, (ih m hm).1⟩
    have hsnd : Doc.skipMembers (members.map Prod.snd) = .ok () := by
      rw [Doc.skipMembers_iff, List.forall_mem_map]
      intro m hm
      obtain ⟨s, -, hk'⟩ := hk m hm
      exact ⟨hk'.2, (ih m hm).2⟩
    rw [Doc.skip, Doc.skip, hfst, hsnd]
    exact ⟨rfl, rfl⟩

theorem skipItems_of_array {start : Nat} {items : List Doc} {e : Ending}
    (h : (Doc.array start depth items e).skip = .ok ()) :
    Doc.skipItems items = .ok () ∧ ∃ left, e = .closed left := by
  rw [Doc.skip] at h
  cases hi : Doc.skipItems items with
  | error f => rw [hi] at h; cases h
  | ok u => rw [hi] at h; exact ⟨rfl, closed_of_listFault h⟩

theorem skipMembers_of_object {start : Nat} {members : List (Token × Option Token × Doc)}
    {e : Ending} (h : (Doc.object start depth members e).skip = .ok ()) :
    Doc.skipMembers members = .ok () ∧ ∃ left, e = .closed left := by
  rw [Doc.skip] at h
  cases hm : Doc.skipMembers members with
  | error f => rw [hm] at h; cases h
  | ok u => rw [hm] at h; exact ⟨rfl, closed_of_objectFault h⟩

/-! ### Reading both -/

/-- What is read as items after `acc'` is like what was read after `acc`, to the end of the list. -/
def LikeItems (g : String → String) (acc docs : List Doc) (rest : List Token) (acc' : List Doc)
    (r : List Doc × Ending × List Token) : Prop :=
  ∃ (new : List (Doc × Doc)) (left : Nat) (rest' : List Token),
    docs = acc.reverse ++ new.map Prod.fst ∧
    r = (acc'.reverse ++ new.map Prod.snd, .closed left, rest') ∧
    (∀ p ∈ new, Alike g p.1 p.2) ∧ Pairs g rest rest'

/-- What is read as members after `acc'` is like what was read after `acc`, to the end of the
object. -/
def LikeMembers (g : String → String) (acc docs : List (Token × Option Token × Doc))
    (rest : List Token) (acc' : List (Token × Option Token × Doc))
    (r : List (Token × Option Token × Doc) × Ending × List Token) : Prop :=
  ∃ (new : List ((Token × Option Token × Doc) × (Token × Option Token × Doc))) (left : Nat)
    (rest' : List Token), docs = acc.reverse ++ new.map Prod.fst ∧
    r = (acc'.reverse ++ new.map Prod.snd, .closed left, rest') ∧
    (∀ m ∈ new, m.1.1.SameName m.2.1 ∧ Alike g m.1.2.2 m.2.2.2) ∧ Pairs g rest rest'

/-- The readers take the same steps on both lists, as far as nothing is missing in the first. -/
structure Lockstep (g : String → String) (fuel : Nat) : Prop where
  value : ∀ {depth ts ts' d rest}, Pairs g ts ts' → Doc.value fuel depth ts = (d, rest) →
    d.skip = .ok () → (∃ c more, rest = c :: more ∧ c.lexeme = .colon) ∨
      ∃ d' rest', Doc.value fuel depth ts' = (d', rest') ∧ Alike g d d' ∧ Pairs g rest rest'
  items : ∀ {depth acc ts ts' docs left rest}, Pairs g ts ts' →
    Doc.items fuel depth acc ts = (docs, .closed left, rest) → Doc.skipItems docs = .ok () →
    ∀ acc', LikeItems g acc docs rest acc' (Doc.items fuel depth acc' ts')
  members : ∀ {depth acc k ts ts' docs left rest}, k.isString → Pairs g (k :: ts) ts' →
    Doc.members fuel depth acc (k :: ts) = (docs, .closed left, rest) →
    Doc.skipMembers docs = .ok () →
    ∀ acc', LikeMembers g acc docs rest acc' (Doc.members fuel depth acc' ts')

variable {left : Nat} {more : List Token} {l : Lexeme}

/-- Behind an item or the value of a member there is no colon. -/
theorem Lockstep.value_before (ih : Lockstep g fuel) (hp : Pairs g ts ts')
    (h : Doc.value fuel depth ts = (d, n :: more)) (hn : n.lexeme = l) (hl : l ≠ .colon)
    (hskip : d.skip = .ok ()) :
    ∃ d' rest', Doc.value fuel depth ts' = (d', rest') ∧ Alike g d d' ∧
      Pairs g (n :: more) rest' := by
  rcases ih.value hp h hskip with ⟨c, rest, hc, hcolon⟩ | hboth
  · obtain ⟨rfl, rfl⟩ := List.cons.inj hc
    exact absurd (hn.symm.trans hcolon) hl
  · exact hboth

theorem Lockstep.items_succ (ih : Lockstep g fuel) {acc docs : List Doc} (hp : Pairs g ts ts')
    (h : Doc.items (fuel + 1) depth acc ts = (docs, .closed left, rest))
    (hskip : Doc.skipItems docs = .ok ()) (acc' : List Doc) :
    LikeItems g acc docs rest acc' (Doc.items (fuel + 1) depth acc' ts') := by
  unfold Doc.items at h
  cases hv : Doc.value fuel depth ts with
  | mk d after =>
    rw [hv] at h
    dsimp only at h
    split at h
    · cases h
    · rename_i n more
      split at h
      · rename_i hn
        cases h
        -- the item is closed by a bracket, so no colon stands behind it
        have hd : d.skip = .ok () := Doc.skipItems_iff.1 hskip d (by simp)
        obtain ⟨d', _, hv', halike, hrest⟩ := ih.value_before hp hv hn (by simp) hd
        obtain ⟨n', more', rfl, hn', hmore⟩ := hrest.step (piece?_of_lexeme hn) (by simp)
        refine ⟨[(d, d')], n'.stop, more', by simp, ?_, by simpa using halike, hmore⟩
        unfold Doc.items
        simp [hv', lexeme_of_piece hn' rfl]
      · rename_i hn
        split at h
        · cases h
        · rename_i m more
          split at h
          · cases h
          · rename_i hm
            have hd : d.skip = .ok () := by
              obtain ⟨new, rfl, -, -⟩ := (reads fuel).items h
              exact Doc.skipItems_iff.1 hskip d (by simp)
            obtain ⟨d', _, hv', halike, hrest⟩ := ih.value_before hp hv hn (by simp) hd
            obtain ⟨n', us, rfl, hn', hmore⟩ := hrest.step (piece?_of_lexeme hn) (by simp)
            obtain ⟨new, left', rest', hdocs, hitems, hall, hrest'⟩ := ih.items hmore h hskip
              (d' :: acc')
            refine ⟨(d, d') :: new, left', rest', by simp [hdocs], ?_,
              List.forall_mem_cons.2 ⟨halike, hall⟩, hrest'⟩
            -- an item is read behind the comma only if no bracket stands there
            cases us with
            | nil => cases hmore.length_eq
            | cons m' us =>
              have hm' := hmore.head_ne (p := .closing .square) rfl rfl hm
              rw [Doc.items_comma hv' (lexeme_of_piece hn' rfl) hm', hitems]
              simp
      · cases h

theorem Lockstep.memberValue (ih : Lockstep g fuel) {k : Token} (hk : k.isString)
    (hp : Pairs g (k :: ts) ts') (h : Doc.memberValue fuel depth ts = (d, n :: more))
    (hn : n.lexeme = l) (hl : l ≠ .colon) (hskip : d.skip = .ok ()) :
    ∃ k' us d' rest', ts' = k' :: us ∧ Doc.memberValue fuel depth us = (d', rest') ∧
      k.SameName k' ∧ Alike g d d' ∧ Pairs g (n :: more) rest' := by
  -- any string is read as a name, but only a colon leads to a value
  have hcolon : ∃ c cs, ts = c :: cs ∧ c.lexeme = .colon ∧
      Doc.value fuel depth cs = (d, n :: more) := by
    unfold Doc.memberValue at h
    split at h
    · cases h
    · split at h
      · exact ⟨_, _, rfl, ‹_›, h⟩
      · cases h
        cases hskip
  obtain ⟨c, cs, rfl, hc, hv⟩ := hcolon
  have hc' : c.piece? = some .colon := piece?_of_lexeme hc
  cases hp with
  | @same _ k' _ us p _ hs ht =>
    obtain ⟨r, l, hl⟩ := hk
    rw [Token.Shows, piece?_of_lexeme hl] at ht
    cases r <;> cases l <;> cases ht.1 <;> exact absurd rfl (hs _)
  | @name _ k' _ c₁ _ us s hk hk' hc₁ hc₁' hp =>
    obtain ⟨d', rest', hv', halike, hrest⟩ := ih.value_before hp hv hn hl hskip
    refine ⟨k', c₁ :: us, d', rest', rfl, ?_, ⟨s, hk, hk'⟩, halike, hrest⟩
    rw [Doc.memberValue_colon (lexeme_of_piece hc₁'.1 rfl), hv']
  | value _ _ hp =>
    cases hp with
    | same hne _ ht => exact absurd (Option.some.inj (ht.1.symm.trans hc')) hne
    | name hk => cases hk.1.symm.trans hc'
    | value ht => cases ht.1.symm.trans hc'

theorem Lockstep.members_succ (ih : Lockstep g fuel) {k : Token}
    {acc docs : List (Token × Option Token × Doc)} (hk : k.isString) (hp : Pairs g (k :: ts) ts')
    (h : Doc.members (fuel + 1) depth acc (k :: ts) = (docs, .closed left, rest))
    (hskip : Doc.skipMembers docs = .ok ()) (acc' : List (Token × Option Token × Doc)) :
    LikeMembers g acc docs rest acc' (Doc.members (fuel + 1) depth acc' ts') := by
  rw [Doc.members_cons] at h
  cases hv : Doc.memberValue fuel depth ts with
  | mk d after =>
    rw [hv] at h
    dsimp only at h
    split at h
    · cases h
    · rename_i n more
      split at h
      · rename_i hn
        cases h
        have hd : d.skip = .ok () :=
          (Doc.skipMembers_iff.1 hskip (k, ts.head?, d) (by simp)).2
        obtain ⟨k', us, d', _, rfl, hv', hname, halike, hrest⟩ :=
          ih.memberValue hk hp hv hn (by simp) hd
        obtain ⟨n', more', rfl, hn', hmore⟩ := hrest.step (piece?_of_lexeme hn) (by simp)
        refine ⟨[((k, ts.head?, d), (k', us.head?, d'))], n'.stop, more', by simp, ?_,
          by simpa using ⟨hname, halike⟩, hmore⟩
        rw [Doc.members_cons, hv']
        simp [lexeme_of_piece hn' rfl]
      · rename_i hn
        split at h
        · cases h
        · rename_i m more
          split at h
          · rename_i hm
            have hd : d.skip = .ok () := by
              obtain ⟨new, rfl, -, -⟩ := (reads fuel).members ⟨_, _, hm⟩ h
              exact (Doc.skipMembers_iff.1 hskip (k, ts.head?, d) (by simp)).2
            obtain ⟨k', us, d', _, rfl, hv', hname, halike, hrest⟩ :=
              ih.memberValue hk hp hv hn (by simp) hd
            obtain ⟨n', us', rfl, hn', hmore⟩ := hrest.step (piece?_of_lexeme hn) (by simp)
            obtain ⟨new, left', rest', hdocs, hmembers, hall, hrest'⟩ :=
              ih.members ⟨_, _, hm⟩ hmore h hskip ((k', us.head?, d') :: acc')
            refine ⟨((k, ts.head?, d), (k', us.head?, d')) :: new, left', rest', by simp [hdocs],
              ?_, List.forall_mem_cons.2 ⟨⟨hname, halike⟩, hall⟩, hrest'⟩
            obtain ⟨m', us', rfl, r, l, hm'⟩ := hmore.step_string ⟨_, _, hm⟩
            rw [Doc.members_cons, hv']
            simp [lexeme_of_piece hn' rfl, hm', hmembers]
          · cases h
      · cases h

theorem Lockstep.array (ih : Lockstep g fuel) {start : Nat} {e : Ending} {docs : List Doc}
    (hp : Pairs g ts ts') (h : Doc.items fuel depth [] ts = (docs, e, rest))
    (hskip : (Doc.array start depth docs e).skip = .ok ()) (start' : Nat) :
    ∃ docs' e' rest', Doc.items fuel depth [] ts' = (docs', e', rest') ∧
      Alike g (.array start depth docs e) (.array start' depth docs' e') ∧
      Pairs g rest rest' := by
  obtain ⟨hitems, left, rfl⟩ := skipItems_of_array hskip
  obtain ⟨new, left', rest', rfl, h', hall, hrest⟩ := ih.items hp h hitems []
  exact ⟨_, _, rest', h', .array new hall, hrest⟩

theorem Lockstep.object (ih : Lockstep g fuel) {start : Nat} {e : Ending} {k : Token}
    {docs : List (Token × Option Token × Doc)} (hk : k.isString) (hp : Pairs g (k :: ts) ts')
    (h : Doc.members fuel depth [] (k :: ts) = (docs, e, rest))
    (hskip : (Doc.object start depth docs e).skip = .ok ()) (start' : Nat) :
    ∃ docs' e' rest', Doc.members fuel depth [] ts' = (docs', e', rest') ∧
      Alike g (.object start depth docs e) (.object start' depth docs' e') ∧
      Pairs g rest rest' := by
  obtain ⟨hmembers, left, rfl⟩ := skipMembers_of_object hskip
  obtain ⟨new, left', rest', rfl, h', hall, hrest⟩ := ih.members hk hp h hmembers []
  exact ⟨_, _, rest', h', .object new (fun m hm => (hall m hm).1) (fun m hm => (hall m hm).2),
    hrest⟩

theorem Lockstep.value_square (ih : Lockstep g fuel) (ht : t.lexeme = .opening .square)
    (ht' : t'.lexeme = .opening .square) (hp : Pairs g ts ts')
    (h : Doc.value (fuel + 1) depth (t :: ts) = (d, rest)) (hskip : d.skip = .ok ()) :
    ∃ d' rest', Doc.value (fuel + 1) depth (t' :: ts') = (d', rest') ∧ Alike g d d' ∧
      Pairs g rest rest' := by
  unfold Doc.value at h
  rw [ht] at h
  dsimp only at h
  split at h
  · cases h
    cases hskip
  · rename_i n more
    split at h
    · rename_i hn
      cases h
      obtain ⟨n', us, rfl, hn', hmore⟩ := hp.step (piece?_of_lexeme hn) (by simp)
      refine ⟨.array t'.start (depth + 1) [] (.closed n'.stop), us, ?_, .array [] (by simp), hmore⟩
      simp [Doc.value, ht', lexeme_of_piece hn' rfl]
    · rename_i hn
      cases hi : Doc.items fuel (depth + 1) [] (n :: more) with
      | mk docs r =>
        obtain ⟨e, after⟩ := r
        rw [hi] at h
        cases h
        obtain ⟨docs', e', rest', hi', halike, hrest⟩ := ih.array hp hi hskip t'.start
        cases ts' with
        | nil => cases hp.length_eq
        | cons n' us =>
          have hn' := hp.head_ne (p := .closing .square) rfl rfl hn
          refine ⟨.array t'.start (depth + 1) docs' e', rest', ?_, halike, hrest⟩
          rw [Doc.value, ht']
          dsimp only
          split
          · exact absurd ‹_› hn'
          · rw [hi']

theorem Lockstep.value_curly (ih : Lockstep g fuel) (ht : t.lexeme = .opening .curly)
    (ht' : t'.lexeme = .opening .curly) (hp : Pairs g ts ts')
    (h : Doc.value (fuel + 1) depth (t :: ts) = (d, rest)) (hskip : d.skip = .ok ()) :
    ∃ d' rest', Doc.value (fuel + 1) depth (t' :: ts') = (d', rest') ∧ Alike g d d' ∧
      Pairs g rest rest' := by
  unfold Doc.value at h
  rw [ht] at h
  dsimp only at h
  split at h
  · cases h
    cases hskip
  · rename_i n more
    split at h
    · rename_i hn
      cases h
      obtain ⟨n', us, rfl, hn', hmore⟩ := hp.step (piece?_of_lexeme hn) (by simp)
      refine ⟨.object t'.start (depth + 1) [] (.closed n'.stop), us, ?_,
        .object [] (by simp) (by simp), hmore⟩
      simp [Doc.value, ht', lexeme_of_piece hn' rfl]
    · rename_i hn
      cases hm : Doc.members fuel (depth + 1) [] (n :: more) with
      | mk docs r =>
        obtain ⟨e, after⟩ := r
        rw [hm] at h
        cases h
        obtain ⟨n', us, rfl, r', l', hn'⟩ := hp.step_string ⟨_, _, hn⟩
        obtain ⟨docs', e', rest', hm', halike, hrest⟩ := ih.object ⟨_, _, hn⟩ hp hm hskip t'.start
        refine ⟨.object t'.start (depth + 1) docs' e', rest', ?_, halike, hrest⟩
        simp [Doc.value, ht', hn', hm']
    · cases h
      cases hskip

theorem Doc.value_scalar (ht : t.lexeme.isScalar = true) :
    value (fuel + 1) depth (t :: ts) = (.scalar t, ts) := by
  unfold value
  cases hl : t.lexeme <;> simp_all [Lexeme.isScalar]

theorem isScalar_of_piece (hp : t.piece? = some p)
    (hs : p = .null ∨ (∃ b, p = .bool b) ∨ p = .number ∨ ∃ s, p = .string s) :
    t.lexeme.isScalar = true := by
  obtain rfl | ⟨b, rfl⟩ | rfl | ⟨s, rfl⟩ := hs
  · rw [lexeme_of_piece hp rfl, Lexeme.isScalar]
  · rw [lexeme_of_piece hp rfl, Lexeme.isScalar]
  · obtain ⟨s, l, hl⟩ := lexeme_number hp
    rw [hl, Lexeme.isScalar]
  · obtain ⟨r, l, hl, -⟩ := lexeme_string hp
    rw [hl, Lexeme.isScalar]

theorem Lockstep.value_succ (ih : Lockstep g fuel) (hp : Pairs g ts ts')
    (h : Doc.value (fuel + 1) depth ts = (d, rest)) (hskip : d.skip = .ok ()) :
    (∃ c more, rest = c :: more ∧ c.lexeme = .colon) ∨
      ∃ d' rest', Doc.value (fuel + 1) depth ts' = (d', rest') ∧ Alike g d d' ∧
        Pairs g rest rest' := by
  cases hp with
  | nil =>
    cases h
    cases hskip
  | @name k k' c c' ts ts' s hk hk' hc =>
    rw [Doc.value_scalar (isScalar_of_piece hk.1 (by simp))] at h
    cases h
    exact .inl ⟨c, ts, rfl, lexeme_of_piece hc.1 rfl⟩
  | value ht ht' hp =>
    rw [Doc.value_scalar (isScalar_of_piece ht.1 (by simp))] at h
    cases h
    exact .inr ⟨_, _, Doc.value_scalar (isScalar_of_piece ht'.1 (by simp)), .string ht ht', hp⟩
  | @same t t' ts ts' p hc hs ht ht' hp =>
    right
    have hscalar (hscalar : p = .null ∨ (∃ b, p = .bool b) ∨ p = .number ∨ ∃ s, p = .string s) :
        ∃ d' rest', Doc.value (fuel + 1) depth (t' :: ts') = (d', rest') ∧ Alike g d d' ∧
          Pairs g rest rest' := by
      rw [Doc.value_scalar (isScalar_of_piece ht.1 hscalar)] at h
      cases h
      exact ⟨_, _, Doc.value_scalar (isScalar_of_piece ht'.1 hscalar), .scalar hs ht ht', hp⟩
    cases p with
    | opening b =>
      have hl := lexeme_of_piece ht.1 rfl
      have hl' := lexeme_of_piece ht'.1 rfl
      cases b with
      | square => exact ih.value_square hl hl' hp h hskip
      | curly => exact ih.value_curly hl hl' hp h hskip
    | closing | comma =>
      simp only [Doc.value, lexeme_of_piece ht.1 rfl, Prod.mk.injEq] at h
      rw [← h.1] at hskip
      cases hskip
    | colon => exact absurd rfl hc
    | string s => exact absurd rfl (hs s)
    | null | bool | number => exact hscalar (by simp)

theorem lockstep (g : String → String) (fuel : Nat) : Lockstep g fuel := by
  induction fuel with
  | zero =>
    refine ⟨fun _ h hskip => ?_, fun _ h => ?_, fun _ _ h => ?_⟩
    · cases h
      cases hskip
    · cases h
    · cases h
  | succ fuel ih => exact ⟨ih.value_succ, ih.items_succ, ih.members_succ⟩

/-- If a text is a document that can be passed over, with nothing behind it, a text that differs
from it in string values only is a document like it. -/
theorem alike_ofText {text text' : List Text.Symbol} (hp : Pairs g (tokens text) (tokens text'))
    (h : Doc.ofText text = (d, none)) (hskip : d.skip = .ok ()) :
    ∃ d', Doc.ofText text' = (d', none) ∧ Alike g d d' := by
  unfold Doc.ofText at h ⊢
  dsimp only at h ⊢
  rw [← hp.length_eq]
  cases hv : Doc.value (2 * (tokens text).length + 2) 0 (tokens text) with
  | mk d₁ rest =>
    rw [hv] at h
    obtain ⟨rfl, hrest⟩ := Prod.mk.inj h
    obtain rfl := List.head?_eq_none_iff.1 hrest
    rcases (lockstep g _).value hp hv hskip with ⟨c, more, hc, -⟩ | ⟨d', rest', hv', halike, hp'⟩
    · cases hc
    · obtain rfl := hp'.eq_nil
      exact ⟨d', by rw [hv']; rfl, halike⟩

end GatedCalls.Json
