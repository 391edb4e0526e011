import Mathlib.Data.List.Forall2
import GatedCalls.Proofs.Loading.Template
import GatedCalls.Proofs.Text.Encoding

/-!
# The pieces of a text with references

A text has one decomposition into literals and references in turn (`Alternates`), the one that
`pieces` computes (`decomposes_iff`). Replacing the references puts a value in the place of each
piece (`Becomes`): a literal stays, a reference becomes the value of its variable or else its
default, and a reference that is not closed stays. No value is looked at again.

An `Environment` gives its variables bytes, which need not be text. `Environment.readable` are
those whose bytes are.
-/

namespace GatedCalls

/-! ### Two characters in a row -/

namespace Text

variable {a b c : Char} {text rest : List Char}

theorem not_pair_cons (h : ¬ [a, b] <:+: text) (hc : c = a → ∀ r, text ≠ b :: r) :
    ¬ [a, b] <:+: c :: text := by
  intro hin
  rcases List.infix_cons_iff.1 hin with hpre | hin
  · obtain ⟨hd, r, hr⟩ := List.cons_prefix_cons.1 hpre
    exact hc hd.symm r hr.symm
  · exact h hin

theorem not_pair_tail (h : ¬ [a, b] <:+: c :: text) : ¬ [a, b] <:+: text :=
  fun hin => h (List.infix_cons hin)

theorem not_pair_head (h : ¬ [a, b] <:+: c :: text) (hr : ∀ r, rest ≠ b :: r) (hc : c = a)
    (r : List Char) : text ++ rest ≠ b :: r := by
  intro he
  cases text with
  | nil => exact hr r he
  | cons d text =>
    obtain ⟨rfl, -⟩ := List.cons.inj he
    subst hc
    exact h (List.prefix_append [c, d] text).isInfix

end Text

namespace Server.Expansion

open Text (not_pair_cons not_pair_tail not_pair_head)

/-- What begins a reference. -/
def opening : List Char := ['$', '\x7b']

/-- What parts the name of a reference from its default. -/
def divider : List Char := [':', '-']

def Plain (text : List Char) : Prop := ¬ opening <:+: text

/-- A literal comes first, and last unless a reference stays open. -/
inductive Alternates : List Piece → Prop
  | last {text : List Char} (ht : Plain text) : Alternates [.literal text]
  | unclosed {text ref : List Char} (ht : Plain text) (hr : '\x7d' ∉ ref) :
    Alternates [.literal text, .unclosed (opening ++ ref)]
  | reference {text ref : List Char} {ps : List Piece} (ht : Plain text) (hr : '\x7d' ∉ ref)
    (h : Alternates ps) : Alternates (.literal text :: .reference ref :: ps)

structure Decomposes (text : List Char) (ps : List Piece) : Prop where
  alternates : Alternates ps
  source : ps.flatMap Piece.source = text

variable {vars : Variables} {text rest ref name fallback : List Char} {ps : List Piece} {c : Char}

/-! ### The decomposition -/

theorem pieces_cons (h : c = '$' → ∀ r, text ≠ '\x7b' :: r) :
    pieces (c :: text) = consLiteral c (pieces text) := by
  rw [pieces]
  exact fun r hc hr => h hc r hr

theorem source_consLiteral (c : Char) (ps : List Piece) :
    (consLiteral c ps).flatMap Piece.source = c :: ps.flatMap Piece.source := by
  unfold consLiteral
  split <;> rfl

theorem Alternates.consLiteral (h : Alternates ps)
    (hc : c = '$' → ∀ r, ps.flatMap Piece.source ≠ '\x7b' :: r) :
    Alternates (consLiteral c ps) := by
  have hplain {text : List Char} {more : List Piece} (ht : Plain text)
      (hc : c = '$' → ∀ r, (.literal text :: more).flatMap Piece.source ≠ '\x7b' :: r) :
      Plain (c :: text) := by
    refine not_pair_cons ht fun hd r hr => hc hd (r ++ more.flatMap Piece.source) ?_
    rw [List.flatMap_cons, Piece.source, hr]
    rfl
  cases h with
  | last ht => exact .last (hplain ht hc)
  | unclosed ht hr => exact .unclosed (hplain ht hc) hr
  | reference ht hr h => exact .reference (hplain ht hc) hr h

theorem splitAt?_none (h : splitAt? c text = none) : c ∉ text := by
  induction text with
  | nil => exact List.not_mem_nil
  | cons d text ih =>
    rw [splitAt?] at h
    split at h
    · cases h
    · rename_i hd
      rw [List.mem_cons, not_or]
      exact ⟨Ne.symm hd, ih (Option.map_eq_none_iff.1 h)⟩

theorem splitAt?_some {a b : List Char} (h : splitAt? c text = some (a, b)) :
    c ∉ a ∧ text = a ++ c :: b := by
  induction text generalizing a b with
  | nil => cases h
  | cons d text ih =>
    rw [splitAt?] at h
    split at h
    · rename_i hd
      cases h
      exact ⟨List.not_mem_nil, by rw [hd]; rfl⟩
    · rename_i hd
      obtain ⟨⟨x, y⟩, hxy, he⟩ := Option.map_eq_some_iff.1 h
      cases he
      obtain ⟨hx, rfl⟩ := ih hxy
      rw [List.mem_cons, not_or]
      exact ⟨⟨Ne.symm hd, hx⟩, rfl⟩

theorem splitAt?_of_not_mem (h : c ∉ text) : splitAt? c text = none := by
  cases hs : splitAt? c text with
  | none => rfl
  | some p => exact absurd ((splitAt?_some hs).2 ▸ by simp) h

theorem decomposes_pieces (text : List Char) : Decomposes text (pieces text) := by
  have hempty : Plain [] := by simp [Plain, opening]
  induction text using pieces.induct with
  | case1 =>
    rw [pieces]
    exact ⟨.last hempty, rfl⟩
  | case2 rest h =>
    rw [pieces]
    split
    · exact ⟨.unclosed hempty (splitAt?_none h), by simp [Piece.source]⟩
    · rename_i hs
      rw [h] at hs
      cases hs
  | case3 rest ref after h ih =>
    obtain ⟨hr, rfl⟩ := splitAt?_some h
    rw [pieces]
    split
    · rename_i hs
      rw [h] at hs
      cases hs
    · rename_i hs
      rw [h] at hs
      cases hs
      exact ⟨.reference hempty hr ih.alternates, by simp [Piece.source, ih.source]⟩
  | case4 c rest hc ih =>
    have hc' : c = '$' → ∀ r, rest ≠ '\x7b' :: r := fun hd r hr => hc r hd hr
    rw [pieces_cons hc']
    refine ⟨ih.alternates.consLiteral (by rwa [ih.source]), ?_⟩
    rw [source_consLiteral, ih.source]

theorem pieces_literal (h : Plain text) (hr : ∀ r, rest ≠ '\x7b' :: r)
    (hps : pieces rest = .literal [] :: ps) : pieces (text ++ rest) = .literal text :: ps := by
  induction text with
  | nil => exact hps
  | cons c text ih =>
    rw [List.cons_append, pieces_cons (not_pair_head h hr), ih (not_pair_tail h)]
    rfl

theorem Alternates.pieces_source (h : Alternates ps) : pieces (ps.flatMap Piece.source) = ps := by
  induction h with
  | last ht =>
    have hnil : pieces [] = [.literal []] := by rw [pieces]
    exact pieces_literal ht (by simp) hnil
  | unclosed ht hr =>
    rw [List.flatMap_cons, List.flatMap_cons, List.flatMap_nil, List.append_nil]
    refine pieces_literal ht (by simp [opening, Piece.source]) ?_
    rw [Piece.source, opening, List.cons_append, List.cons_append, List.nil_append, pieces]
    split
    · rfl
    · rename_i hs
      rw [splitAt?_of_not_mem hr] at hs
      cases hs
  | @reference text ref ps ht hr h ih =>
    rw [List.flatMap_cons, List.flatMap_cons]
    refine pieces_literal ht (by simp [Piece.source]) ?_
    have hsplit : splitAt? '\x7d' (ref ++ '\x7d' :: ps.flatMap Piece.source) =
        some (ref, ps.flatMap Piece.source) :=
      splitAt?_append (fun c hc hd => hr (hd ▸ hc)) _
    rw [Piece.source, List.append_assoc, List.singleton_append, List.cons_append,
      List.cons_append, pieces]
    split
    · rename_i hs
      rw [hsplit] at hs
      cases hs
    · rename_i hs
      rw [hsplit] at hs
      cases hs
      rw [ih]

/-- A text has one decomposition. -/
theorem decomposes_iff : Decomposes text ps ↔ ps = pieces text := by
  refine ⟨fun h => ?_, ?_⟩
  · rw [← h.source, h.alternates.pieces_source]
  · rintro rfl
    exact decomposes_pieces text

/-! ### What is put in its place -/

theorem expandChars_plain (h : Plain text) (hr : ∀ r, rest ≠ '\x7b' :: r) :
    expandChars vars (text ++ rest) = text ++ expandChars vars rest := by
  induction text with
  | nil => rfl
  | cons c text ih =>
    rw [List.cons_append, expandChars_cons (not_pair_head h hr), ih (not_pair_tail h)]
    rfl

theorem expandChars_opening (h : '\x7d' ∉ ref) :
    expandChars vars (opening ++ ref) = opening ++ ref := by
  rw [opening, List.cons_append, List.cons_append, List.nil_append, expandChars]
  split
  · rfl
  · rename_i hs
    rw [splitAt?_of_not_mem h] at hs
    cases hs

theorem Alternates.expandChars (h : Alternates ps) :
    expandChars vars (ps.flatMap Piece.source) = ps.flatMap (Piece.value vars) := by
  induction h with
  | @last text ht =>
    have hx : Expansion.expandChars vars _ = _ :=
      expandChars_plain ht fun r => (List.cons_ne_nil _ r).symm
    rw [Expansion.expandChars] at hx
    exact hx
  | @unclosed text ref ht hr =>
    rw [List.flatMap_cons, List.flatMap_cons, List.flatMap_nil, List.append_nil]
    refine (expandChars_plain ht (by simp [opening, Piece.source])).trans ?_
    rw [Piece.source, expandChars_opening hr]
    simp [Piece.value]
  | @reference text ref ps ht hr h ih =>
    rw [List.flatMap_cons, List.flatMap_cons]
    refine (expandChars_plain ht (by simp [Piece.source])).trans ?_
    rw [Piece.source, List.append_assoc, List.singleton_append,
      expandChars_reference fun c hc hd => hr (hd ▸ hc), ih]
    rfl

/-- Replacing the references puts in each place the value of the piece. -/
theorem Decomposes.expandChars (h : Decomposes text ps) :
    expandChars vars text = ps.flatMap (Piece.value vars) := by
  rw [← h.source, h.alternates.expandChars]

/-! ### References -/

/-- The name and the default of a reference; a reference without a divider is a name. -/
inductive Divides : (ref name fallback : List Char) → Prop
  | bare {name : List Char} (h : ¬ divider <:+: name) : Divides name name []
  | fallback {name : List Char} (h : ¬ divider <:+: name) (fallback : List Char) :
    Divides (name ++ divider ++ fallback) name fallback

theorem splitDefault_cons (h : c = ':' → ∀ r, text ≠ '-' :: r) :
    splitDefault (c :: text) = (c :: (splitDefault text).1, (splitDefault text).2) := by
  rw [splitDefault]
  exact fun r hc hr => h hc r hr

theorem splitDefault_append (h : ¬ divider <:+: name) (hr : ∀ r, rest ≠ '-' :: r) :
    splitDefault (name ++ rest) = (name ++ (splitDefault rest).1, (splitDefault rest).2) := by
  induction name with
  | nil => rfl
  | cons c name ih =>
    rw [List.cons_append, splitDefault_cons (not_pair_head h hr), ih (not_pair_tail h)]
    rfl

theorem Divides.cons (h : Divides ref name fallback) (hc : c = ':' → ∀ r, ref ≠ '-' :: r) :
    Divides (c :: ref) (c :: name) fallback := by
  cases h with
  | bare h => exact .bare (not_pair_cons h hc)
  | fallback h =>
    refine .fallback (not_pair_cons h fun hd r hr => ?_) fallback
    exact hc hd (r ++ divider ++ fallback) (by rw [hr]; rfl)

theorem divides_splitDefault (ref : List Char) :
    Divides ref (splitDefault ref).1 (splitDefault ref).2 := by
  induction ref using splitDefault.induct with
  | case1 => exact .bare (by simp [divider])
  | case2 rest =>
    exact (.fallback (by simp [divider]) rest : Divides ([] ++ divider ++ rest) [] rest)
  | case3 c rest hc name value h ih =>
    have hc' : c = ':' → ∀ r, rest ≠ '-' :: r := fun hd r hr => hc r hd hr
    rw [splitDefault_cons hc']
    exact ih.cons hc'

theorem divides_iff : Divides ref name fallback ↔ splitDefault ref = (name, fallback) := by
  refine ⟨fun h => ?_, fun h => ?_⟩
  · cases h with
    | bare h =>
      simpa [splitDefault] using splitDefault_append h fun r => (List.cons_ne_nil _ r).symm
    | fallback h =>
      rw [List.append_assoc, splitDefault_append h (by simp [divider])]
      simp [divider, splitDefault]
  · have hd := divides_splitDefault ref
    rwa [h] at hd

/-! ### The environment -/

/-- The variables of a process. A name is not empty and has no `=` in it. -/
structure Environment where
  values : Dict (List UInt8)
  named : ∀ name ∈ values.keys, name ≠ "" ∧ '=' ∉ name.toList ∧ '\x00' ∉ name.toList

namespace Environment

variable {env : Environment}

/-- The value of a variable, if it is set and its bytes are text. -/
def value? (env : Environment) (name : List Char) : Option String :=
  (env.values.get? (String.ofList name)).bind Text.Utf8.decode?

def texts (l : List (String × List UInt8)) : List (String × String) :=
  l.filterMap fun e => (Text.Utf8.decode? e.2).map fun v => (e.1, v)

theorem keys_texts (l : List (String × List UInt8)) :
    ((texts l).map Prod.fst).Sublist (l.map Prod.fst) := by
  induction l with
  | nil => exact .slnil
  | cons e l ih =>
    rw [texts, List.filterMap_cons]
    cases Text.Utf8.decode? e.2 with
    | none => exact ih.cons e.1
    | some v => exact ih.cons_cons e.1

/-- The variables whose values are text. -/
def readable (env : Environment) : Variables :=
  ⟨texts env.values.entries, env.values.sorted.sublist (keys_texts _)⟩

theorem lookup_texts {l : List (String × List UInt8)} (h : (l.map Prod.fst).Pairwise (· < ·))
    (name : String) : (texts l).lookup name = (l.lookup name).bind Text.Utf8.decode? := by
  induction l with
  | nil => rfl
  | cons e l ih =>
    obtain ⟨k, bytes⟩ := e
    rw [List.map_cons, List.pairwise_cons] at h
    rw [texts, List.filterMap_cons]
    by_cases hk : name = k
    · subst hk
      rw [List.lookup_cons_self, Option.bind_some]
      cases Text.Utf8.decode? bytes with
      | none =>
        refine (ih h.2).trans ?_
        rw [Dict.lookup_eq_none_of_lt h.1]
        rfl
      | some v => exact List.lookup_cons_self ..
    · rw [Dict.lookup_cons_ne hk, ← ih h.2]
      cases Text.Utf8.decode? bytes with
      | none => rfl
      | some v => exact Dict.lookup_cons_ne hk ..

theorem lookup?_readable (name : List Char) : lookup? env.readable name = env.value? name := by
  have hget : env.readable.get? (String.ofList name) = env.value? name :=
    lookup_texts env.values.sorted _
  rw [lookup?, hget]
  split
  · rename_i hname
    cases hv : env.values.get? (String.ofList name) with
    | none => rw [value?, hv]; rfl
    | some bytes =>
      obtain ⟨l, l', hl, -⟩ := List.lookup_eq_some_iff.1 hv
      have hkey : String.ofList name ∈ env.values.keys := by
        rw [Dict.keys, hl]
        simp
      obtain ⟨hempty, hsign, hnul⟩ := env.named _ hkey
      rw [String.toList_ofList] at hsign hnul
      have hne : name ≠ [] := fun hn => hempty (by rw [hn])
      simp [hne, hsign, hnul] at hname
  · rfl

end Environment

variable {env env' : Environment}

/-- What a piece becomes. -/
inductive Becomes (env : Environment) : Piece → List Char → Prop
  | literal (text : List Char) : Becomes env (.literal text) text
  | set {ref name fallback : List Char} {v : String} (h : Divides ref name fallback)
    (hv : env.value? name = some v) : Becomes env (.reference ref) v.toList
  | unset {ref name fallback : List Char} (h : Divides ref name fallback)
    (hv : env.value? name = none) : Becomes env (.reference ref) fallback
  | unclosed (text : List Char) : Becomes env (.unclosed text) text

theorem referenceValue_of_divides (h : Divides ref name fallback) :
    referenceValue env.readable ref = ((env.value? name).map String.toList).getD fallback := by
  rw [referenceValue, divides_iff.1 h]
  dsimp only
  rw [Environment.lookup?_readable]
  cases env.value? name <;> rfl

theorem becomes_iff {p : Piece} {v : List Char} :
    Becomes env p v ↔ v = p.value env.readable := by
  refine ⟨fun h => ?_, ?_⟩
  · cases h with
    | literal | unclosed => rfl
    | set h hv | unset h hv => rw [Piece.value, referenceValue_of_divides h, hv]; rfl
  · rintro rfl
    cases p with
    | literal text => exact .literal text
    | unclosed text => exact .unclosed text
    | reference ref =>
      have h := divides_splitDefault ref
      rw [Piece.value, referenceValue_of_divides h]
      cases hv : env.value? (splitDefault ref).1 with
      | some v => exact .set h hv
      | none => exact .unset h hv

theorem forall₂_becomes_iff {vs : List (List Char)} :
    List.Forall₂ (Becomes env) ps vs ↔ vs = ps.map (Piece.value env.readable) := by
  induction ps generalizing vs with
  | nil => simp
  | cons p ps ih => simp [List.forall₂_cons_left_iff, becomes_iff, ih]

/-- What the pieces become tells the text; variables that no reference names have no part in it. -/
theorem Decomposes.expand_congr (h : Decomposes text ps)
    (hsame : ∀ ref name fallback, .reference ref ∈ ps → Divides ref name fallback →
      env'.value? name = env.value? name) :
    Expansion.expandChars env'.readable text = Expansion.expandChars env.readable text := by
  rw [h.expandChars, h.expandChars]
  refine List.flatMap_congr fun p hp => ?_
  cases p with
  | literal | unclosed => rfl
  | reference ref =>
    have hd := divides_splitDefault ref
    rw [Piece.value, Piece.value, referenceValue_of_divides hd, referenceValue_of_divides hd,
      hsame ref _ _ hp hd]

end Server.Expansion

end GatedCalls
