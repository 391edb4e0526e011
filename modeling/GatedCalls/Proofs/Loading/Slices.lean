import GatedCalls.Proofs.Loading.Pieces

/-!
# Replacing references byte by byte

The bytes of a text are searched for the signs of a reference and cut where these begin and end
(`turn?`, `scan?`). A cut within a character fails, and none is ever made: a sign is found in the
bytes of a text where it stands in the text (`find?_bytesOf`), so each turn takes one literal and
one reference (`turn?_reference`), and the turns together give the bytes of the text with its
references replaced (`expansion_grammar`).
-/

namespace GatedCalls

namespace Text.Utf8

/-- The first place where `part` begins. -/
def find? {α : Type} [DecidableEq α] (part : List α) : List α → Option Nat
  | [] => none
  | x :: l => if part <+: x :: l then some 0 else (find? part l).map (· + 1)

/-- Whether no character goes on at the place `n`. -/
def isBoundary (l : List UInt8) (n : Nat) : Bool :=
  match l[n]? with
  | some b => !isTail b
  | none => n == l.length

def sliceTo? (l : List UInt8) (n : Nat) : Option (List UInt8) :=
  if isBoundary l n then some (l.take n) else none

def sliceFrom? (l : List UInt8) (n : Nat) : Option (List UInt8) :=
  if isBoundary l n then some (l.drop n) else none

section Find

variable {a b c : Char} {text rest part cs : List Char}

theorem find?_pair (h : ¬ [a, b] <:+: text) (hr : ∀ r, rest ≠ b :: r) :
    find? [a, b] (text ++ rest) = (find? [a, b] rest).map (· + text.length) := by
  induction text with
  | nil => simp
  | cons c text ih =>
    have hnot : ¬ [a, b] <+: c :: (text ++ rest) := by
      intro hpre
      obtain ⟨hc, r, hr'⟩ := List.cons_prefix_cons.1 hpre
      exact not_pair_head h hr hc.symm r hr'.symm
    rw [List.cons_append, find?, if_neg hnot, ih (not_pair_tail h),
      Option.map_map]
    rfl

theorem find?_single (h : c ∉ text) (rest : List Char) :
    find? [c] (text ++ rest) = (find? [c] rest).map (· + text.length) := by
  induction text with
  | nil => simp
  | cons d text ih =>
    rw [List.mem_cons, not_or] at h
    have hnot : ¬ [c] <+: d :: (text ++ rest) := fun hpre => h.1 (List.cons_prefix_cons.1 hpre).1
    rw [List.cons_append, find?, if_neg hnot, ih h.2, Option.map_map]
    rfl

/-- Nothing begins at a byte that goes on with a character. -/
theorem find?_tail {tail : List UInt8} (hp : part ≠ []) (ht : ∀ x ∈ tail, isTail x = true)
    (l : List UInt8) :
    find? (bytesOf part) (tail ++ l) = (find? (bytesOf part) l).map (· + tail.length) := by
  obtain ⟨p, ps, rfl⟩ := List.exists_cons_of_ne_nil hp
  obtain ⟨b, cont, he, hb, -⟩ := exists_encodeChar p
  induction tail with
  | nil => simp
  | cons x tail ih =>
    rw [List.forall_mem_cons] at ht
    have hnot : ¬ bytesOf (p :: ps) <+: x :: (tail ++ l) := by
      intro hpre
      rw [bytesOf, List.flatMap_cons, he] at hpre
      obtain ⟨rfl, -⟩ := List.cons_prefix_cons.1 hpre
      rw [ht.1] at hb
      cases hb
    rw [List.cons_append, find?, if_neg hnot, ih ht.2, Option.map_map]
    rfl

theorem find?_bytesOf (hp : part ≠ []) (cs : List Char) :
    find? (bytesOf part) (bytesOf cs) =
      (find? part cs).map fun n => (bytesOf (cs.take n)).length := by
  induction cs with
  | nil => rfl
  | cons c cs ih =>
    obtain ⟨b, tail, he, -, hlead⟩ := exists_encodeChar c
    have hread := hlead []
    rw [List.append_nil] at hread
    obtain ⟨tail', hsplit, -, htail, -⟩ := lead?_spec hread
    rw [List.drop_length, List.append_nil] at hsplit
    subst hsplit
    have hc : bytesOf (c :: cs) = b :: (tail ++ bytesOf cs) := by
      rw [bytesOf, List.flatMap_cons, he]
      rfl
    have hpre : bytesOf part <+: bytesOf (c :: cs) ↔ part <+: c :: cs := prefix_bytesOf_iff
    rw [hc] at hpre ⊢
    rw [find?, find?]
    by_cases h : part <+: c :: cs
    · rw [if_pos h, if_pos (hpre.2 h)]
      rfl
    · rw [if_neg h, if_neg (hpre.not.2 h), find?_tail hp htail, ih, Option.map_map, Option.map_map,
        Option.map_map]
      refine Option.map_congr fun n _ => ?_
      rw [Function.comp_apply, Function.comp_apply, Function.comp_apply, List.take_succ_cons,
        bytesOf, bytesOf, List.flatMap_cons, he]
      simp
      omega

theorem find?_self (hp : part ≠ []) (l : List Char) : find? part (part ++ l) = some 0 := by
  obtain ⟨x, part, rfl⟩ := List.exists_cons_of_ne_nil hp
  exact if_pos (List.prefix_append (x :: part) l)

/-- The places of the first pair and of the first sign in the bytes of a text. -/
theorem find?_pair_behind (h : ¬ [a, b] <:+: text) (hab : a ≠ b) (l : List Char) :
    find? (bytesOf [a, b]) (bytesOf (text ++ ([a, b] ++ l))) = some (bytesOf text).length := by
  have hfind := find?_pair h (show ∀ r, [a, b] ++ l ≠ b :: r by simp [hab])
  rw [find?_self (by simp)] at hfind
  rw [find?_bytesOf (by simp), hfind, Option.map_some, Option.map_some, Nat.zero_add,
    List.take_left]

theorem find?_pair_none (h : ¬ [a, b] <:+: text) :
    find? (bytesOf [a, b]) (bytesOf text) = none := by
  have hfind := find?_pair h fun r => (List.cons_ne_nil _ r).symm
  rw [List.append_nil] at hfind
  rw [find?_bytesOf (by simp), hfind]
  rfl

theorem find?_single_behind (h : c ∉ text) (l : List Char) :
    find? (bytesOf [c]) (bytesOf (text ++ ([c] ++ l))) = some (bytesOf text).length := by
  have hfind := find?_single h ([c] ++ l)
  rw [find?_self (by simp)] at hfind
  rw [find?_bytesOf (by simp), hfind, Option.map_some, Option.map_some, Nat.zero_add,
    List.take_left]

theorem find?_single_none (h : c ∉ text) : find? (bytesOf [c]) (bytesOf text) = none := by
  have hfind := find?_single h []
  rw [List.append_nil] at hfind
  rw [find?_bytesOf (by simp), hfind]
  rfl

theorem isBoundary_bytesOf (as cs : List Char) :
    isBoundary (bytesOf (as ++ cs)) (bytesOf as).length = true := by
  rw [isBoundary, bytesOf_append, List.getElem?_append_right (Nat.le_refl _), Nat.sub_self]
  cases cs with
  | nil => simp [bytesOf]
  | cons c cs =>
    obtain ⟨b, tail, he, hb, -⟩ := exists_encodeChar c
    rw [bytesOf, bytesOf, List.flatMap_cons, he]
    simp [hb]

theorem sliceTo?_bytesOf (as cs : List Char) :
    sliceTo? (bytesOf (as ++ cs)) (bytesOf as).length = some (bytesOf as) := by
  rw [sliceTo?, if_pos (isBoundary_bytesOf as cs), bytesOf_append, List.take_left]

theorem sliceFrom?_bytesOf (as cs : List Char) :
    sliceFrom? (bytesOf (as ++ cs)) (bytesOf as).length = some (bytesOf cs) := by
  rw [sliceFrom?, if_pos (isBoundary_bytesOf as cs), bytesOf_append, List.drop_left]

theorem sliceFrom?_behind (as part cs : List Char) :
    sliceFrom? (bytesOf (as ++ (part ++ cs))) ((bytesOf as).length + (bytesOf part).length) =
      some (bytesOf cs) := by
  have h := sliceFrom?_bytesOf (as ++ part) cs
  rwa [List.append_assoc, bytesOf_append as part, List.length_append] at h

end Find

end Text.Utf8

namespace Server.Expansion

open Text.Utf8

/-- The signs of a reference as bytes. -/
def openingBytes : List UInt8 := [0x24, 0x7b]

def closingBytes : List UInt8 := [0x7d]

def dividerBytes : List UInt8 := [0x3a, 0x2d]

/-- The name and the default of a reference. -/
def divide? (ref : List UInt8) : Option (List UInt8 × List UInt8) :=
  match find? dividerBytes ref with
  | none => some (ref, [])
  | some n => do return (← sliceTo? ref n, ← sliceFrom? ref (n + 2))

def value? (env : Environment) (ref : List UInt8) : Option (List UInt8) := do
  let (name, fallback) ← divide? ref
  let name ← decode? name
  return ((env.value? name.toList).map encode).getD fallback

/-- What a turn of the loop puts out, and what it leaves for the next one. -/
inductive Turn
  | last (out : List UInt8)
  | more (out rest : List UInt8)

/-- The turn that begins where `rest` does; none if it cuts within a character. -/
def turn? (env : Environment) (rest : List UInt8) : Option Turn :=
  match find? openingBytes rest with
  | none => some (.last rest)
  | some start => do
    let literal ← sliceTo? rest start
    let after ← sliceFrom? rest (start + 2)
    match find? closingBytes after with
    | none => return .last (literal ++ (← sliceFrom? rest start))
    | some stop => do
      let ref ← sliceTo? after stop
      return .more (literal ++ (← value? env ref)) (← sliceFrom? after (stop + 1))

theorem length_sliceFrom? {l l' : List UInt8} {n : Nat} (h : sliceFrom? l n = some l') :
    l'.length = l.length - n := by
  rw [sliceFrom?] at h
  split at h
  · cases h
    exact List.length_drop
  · cases h

theorem lt_of_find? {α : Type} [DecidableEq α] {part l : List α} {n : Nat}
    (h : find? part l = some n) : n < l.length := by
  induction l generalizing n with
  | nil => cases h
  | cons x l ih =>
    rw [find?] at h
    split at h
    · cases h
      exact Nat.succ_pos _
    · obtain ⟨m, hm, rfl⟩ := Option.map_eq_some_iff.1 h
      exact Nat.succ_lt_succ (ih hm)

theorem turn?_shorter {env : Environment} {rest out rest' : List UInt8}
    (h : turn? env rest = some (.more out rest')) : rest'.length < rest.length := by
  rw [turn?] at h
  split at h
  · cases h
  · rename_i start hstart
    obtain ⟨literal, -, h⟩ := Option.bind_eq_some_iff.1 h
    obtain ⟨after, hafter, h⟩ := Option.bind_eq_some_iff.1 h
    split at h
    · obtain ⟨tail, -, h⟩ := Option.bind_eq_some_iff.1 h
      cases h
    · obtain ⟨ref, -, h⟩ := Option.bind_eq_some_iff.1 h
      obtain ⟨value, -, h⟩ := Option.bind_eq_some_iff.1 h
      obtain ⟨more, hmore, h⟩ := Option.bind_eq_some_iff.1 h
      cases h
      have hlt := lt_of_find? hstart
      have hlen := length_sliceFrom? hafter
      have hlen' := length_sliceFrom? hmore
      omega

/-- The bytes with the references replaced; none if a cut is made within a character. -/
def scan? (env : Environment) (rest : List UInt8) : Option (List UInt8) :=
  match _h : turn? env rest with
  | none => none
  | some (.last out) => some out
  | some (.more out rest') => (scan? env rest').map (out ++ ·)
termination_by rest.length
decreasing_by exact turn?_shorter _h

variable {env : Environment} {text rest ref name fallback : List Char} {ps : List Piece}

theorem openingBytes_eq : openingBytes = bytesOf opening := by decide

theorem closingBytes_eq : closingBytes = bytesOf ['\x7d'] := by decide

theorem dividerBytes_eq : dividerBytes = bytesOf divider := by decide

theorem divide?_bytesOf (h : Divides ref name fallback) :
    divide? (bytesOf ref) = some (bytesOf name, bytesOf fallback) := by
  cases h with
  | bare h =>
    have hfind : find? dividerBytes (bytesOf ref) = none := dividerBytes_eq ▸ find?_pair_none h
    rw [divide?, hfind]
    rfl
  | fallback h =>
    have hfind : find? dividerBytes (bytesOf (name ++ (divider ++ fallback))) =
        some (bytesOf name).length := dividerBytes_eq ▸ find?_pair_behind h (by decide) fallback
    have hbehind : sliceFrom? (bytesOf (name ++ (divider ++ fallback)))
        ((bytesOf name).length + 2) = some (bytesOf fallback) := sliceFrom?_behind name divider _
    rw [divide?, List.append_assoc, hfind]
    dsimp only
    rw [sliceTo?_bytesOf, hbehind]
    rfl

theorem value?_bytesOf (env : Environment) (ref : List Char) :
    value? env (bytesOf ref) = some (bytesOf (referenceValue env.readable ref)) := by
  have hd := divides_splitDefault ref
  have hname := decode?_bytesOf (splitDefault ref).1
  simp only [value?, divide?_bytesOf hd, referenceValue_of_divides hd, hname, Option.bind_eq_bind,
    Option.bind_some, String.toList_ofList]
  cases env.value? (splitDefault ref).1 with
  | none => rfl
  | some v => exact congrArg some (encode_eq_bytesOf v)

theorem turn?_last (h : Plain text) : turn? env (bytesOf text) = some (.last (bytesOf text)) := by
  have hfind : find? openingBytes (bytesOf text) = none := openingBytes_eq ▸ find?_pair_none h
  rw [turn?, hfind]

section Opened

variable (h : Plain text)
include h

theorem find?_opening (rest : List Char) :
    find? openingBytes (bytesOf (text ++ (opening ++ rest))) = some (bytesOf text).length :=
  openingBytes_eq ▸ find?_pair_behind h (by decide) rest

theorem turn?_unclosed (hr : '\x7d' ∉ ref) : turn? env (bytesOf (text ++ (opening ++ ref))) =
    some (.last (bytesOf (text ++ (opening ++ ref)))) := by
  have hclose : find? closingBytes (bytesOf ref) = none := closingBytes_eq ▸ find?_single_none hr
  have hafter : sliceFrom? (bytesOf (text ++ (opening ++ ref))) ((bytesOf text).length + 2) =
      some (bytesOf ref) := sliceFrom?_behind text opening ref
  simp only [turn?, find?_opening h, sliceTo?_bytesOf, hafter, Option.bind_eq_bind,
    Option.bind_some, hclose, sliceFrom?_bytesOf]
  rw [bytesOf_append text]
  rfl

theorem turn?_reference (hr : '\x7d' ∉ ref) (rest : List Char) :
    turn? env (bytesOf (text ++ (opening ++ (ref ++ (['\x7d'] ++ rest))))) =
      some (.more (bytesOf (text ++ referenceValue env.readable ref)) (bytesOf rest)) := by
  have hclose : find? closingBytes (bytesOf (ref ++ (['\x7d'] ++ rest))) =
      some (bytesOf ref).length := closingBytes_eq ▸ find?_single_behind hr rest
  have hafter : sliceFrom? (bytesOf (text ++ (opening ++ (ref ++ (['\x7d'] ++ rest)))))
      ((bytesOf text).length + 2) = some (bytesOf (ref ++ (['\x7d'] ++ rest))) :=
    sliceFrom?_behind text opening _
  have hrest : sliceFrom? (bytesOf (ref ++ (['\x7d'] ++ rest))) ((bytesOf ref).length + 1) =
      some (bytesOf rest) := sliceFrom?_behind ref ['\x7d'] rest
  simp only [turn?, find?_opening h, sliceTo?_bytesOf, hafter, Option.bind_eq_bind,
    Option.bind_some, hclose, value?_bytesOf, hrest]
  rw [bytesOf_append text]
  rfl

end Opened

theorem scan?_last {l out : List UInt8} (h : turn? env l = some (.last out)) :
    scan? env l = some out := by
  rw [scan?]
  split <;> simp_all

theorem scan?_more {l out l' : List UInt8} (h : turn? env l = some (.more out l')) :
    scan? env l = (scan? env l').map (out ++ ·) := by
  rw [scan?]
  split <;> simp_all

/-- No cut is made within a character, and the bytes are those of the text with its references
replaced. -/
theorem Alternates.scan? (h : Alternates ps) :
    scan? env (bytesOf (ps.flatMap Piece.source)) =
      some (bytesOf (ps.flatMap (Piece.value env.readable))) := by
  induction h with
  | last ht => simpa [Piece.source, Piece.value] using scan?_last (turn?_last ht)
  | unclosed ht hr => simpa [Piece.source, Piece.value] using scan?_last (turn?_unclosed ht hr)
  | @reference text ref ps ht hr h ih =>
    have hturn : turn? env _ = _ := turn?_reference ht hr (ps.flatMap Piece.source)
    have hsource : (Piece.literal text :: .reference ref :: ps).flatMap Piece.source =
        text ++ (opening ++ (ref ++ (['\x7d'] ++ ps.flatMap Piece.source))) := by
      simp [Piece.source, opening]
    have hvalue : (Piece.literal text :: .reference ref :: ps).flatMap (Piece.value env.readable) =
        text ++ referenceValue env.readable ref ++ ps.flatMap (Piece.value env.readable) := by
      simp [Piece.value]
    rw [hsource, scan?_more hturn, ih, hvalue, bytesOf_append _ (ps.flatMap _)]
    rfl

/-- How the references of a text are replaced, in the environment `env`. -/
structure Replaced (env : Environment) (text : String) : Prop where
  decomposition : ∃! ps, Decomposes text.toList ps
  /-- What each piece becomes is one text, and these make up the result as they are. -/
  result : ∀ ps, Decomposes text.toList ps → ∃ vs, List.Forall₂ (Becomes env) ps vs ∧
    (∀ vs', List.Forall₂ (Becomes env) ps vs' → vs' = vs) ∧
    (expand env.readable text).toList = vs.flatten
  /-- The search comes to its end with no cut within a character. -/
  scanned : scan? env (encode text) = some (encode (expand env.readable text))
  /-- Only the variables that references name count. -/
  unnamed : ∀ ps (env' : Environment), Decomposes text.toList ps →
    (∀ ref name fallback, .reference ref ∈ ps → Divides ref name fallback →
      env'.value? name = env.value? name) →
    expand env'.readable text = expand env.readable text

/-- A text falls into its pieces in one way, and replacing its references puts in the place of each
piece what it becomes. -/
theorem expansion_grammar (env : Environment) (text : String) : Replaced env text where
  decomposition := ⟨_, decomposes_pieces _, fun _ h => decomposes_iff.1 h⟩
  result ps h := by
    refine ⟨ps.map (Piece.value env.readable), forall₂_becomes_iff.2 rfl,
      fun vs' h' => forall₂_becomes_iff.1 h', ?_⟩
    rw [expand, String.toList_ofList, h.expandChars, List.flatMap_def]
  scanned := by
    have h := decomposes_pieces text.toList
    have hscan : scan? env _ = _ := h.alternates.scan?
    rw [h.source, ← h.expandChars] at hscan
    rw [encode_eq_bytesOf, encode_eq_bytesOf, hscan, expand, String.toList_ofList]
  unnamed ps env' h hsame := congrArg String.ofList (h.expand_congr hsame)

/-- A variable that holds a reference to itself. -/
def selfReference : Environment where
  values := ⟨[("X", encode "$\x7bX\x7d")], List.pairwise_singleton ..⟩
  named := by decide

/-- The value stays as it is, between a sign that opens nothing and a reference that stays open. -/
theorem expansion_grammar_selfReference :
    (expand selfReference.readable "é$$\x7bX\x7d$\x7b").toList = "é$$\x7bX\x7d$\x7b".toList := by
  have hplain : Plain ['é', '$'] ∧ Plain [] := by
    unfold Plain
    decide
  have hps : Decomposes "é$$\x7bX\x7d$\x7b".toList
      [.literal ['é', '$'], .reference ['X'], .literal [], .unclosed (opening ++ [])] :=
    ⟨.reference hplain.1 (by decide) (.unclosed hplain.2 (by decide)), by decide⟩
  have hvalue : selfReference.value? ['X'] = some "$\x7bX\x7d" := decode?_encode _
  have hbecomes : List.Forall₂ (Becomes selfReference)
      [.literal ['é', '$'], .reference ['X'], .literal [], .unclosed (opening ++ [])]
      [['é', '$'], "$\x7bX\x7d".toList, [], opening] :=
    .cons (.literal _) (.cons (.set (.bare (by decide)) hvalue)
      (.cons (.literal _) (.cons (.unclosed _) .nil)))
  obtain ⟨vs, -, hvs, hresult⟩ := (expansion_grammar selfReference _).result _ hps
  rw [hresult, ← hvs _ hbecomes]
  decide

end Server.Expansion

end GatedCalls
