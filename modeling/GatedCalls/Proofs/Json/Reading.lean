import Mathlib.Data.List.Forall2
import GatedCalls.Proofs.Json.Following
import GatedCalls.Proofs.Json.Record
import GatedCalls.Proofs.Json.Tree

/-!
# Reading trees

What a decoder makes of a document depends on the tree that the document holds. `Tree.text?`,
`Tree.list?`, `Tree.dict?` and `Tree.record?` read trees as the decoders read documents, places and
the wording of faults aside: a decoder makes nothing of a document in which something is missing
(`Agrees.whole`), and of any other what its reader makes of the tree (`Agrees.read`).
-/

namespace GatedCalls.Json

namespace Tree

variable {α P : Type}

def text? : Tree → Option String
  | string s => s
  | _ => none

/-- Null stands for none. -/
def optional? (read : Tree → Option α) : Tree → Option (Option α)
  | null => some none
  | t => (read t).map some

def list? (read : Tree → Option α) : Tree → Option (List α)
  | array items => items.mapM read
  | _ => none

/-- The members of an object in their order. -/
def named? (read : Tree → Option α) : List (Option String × Tree) → Option (List (String × α))
  | [] => some []
  | m :: rest => do return (← m.1, ← read m.2) :: (← named? read rest)

def dict? (read : Tree → Option α) : Tree → Option (Dict α)
  | object members => (named? read members).map Dict.ofList
  | _ => none

/-- A field of a record whose parts are gathered in `P`. -/
structure Slot (P : Type) where
  name : String
  present : P → Bool
  read? : Tree → P → Option P
  mayEnd : Bool

/-- The field of this name; what is read becomes one of the parts. -/
def Slot.part (name : String) (present : P → Bool) (read : Tree → Option α) (put : P → α → P)
    (mayEnd : Bool) : Slot P :=
  ⟨name, present, fun t p => (read t).map (put p), mayEnd⟩

def readMember? (fields : List (Slot P)) (p : P) (m : Option String × Tree) : Option P := do
  let k ← m.1
  match fields.find? (·.name == k) with
  | some field => if field.present p then none else field.read? m.2 p
  | none => some p

def readMembers? (fields : List (Slot P)) (p : P) : List (Option String × Tree) → Option P
  | [] => some p
  | m :: rest => do readMembers? fields (← readMember? fields p m) rest

def readItems? (p : P) : List (Slot P) → List Tree → Option P
  | [], [] => some p
  | [], _ :: _ => none
  | field :: fields, t :: items => do readItems? (← field.read? t p) fields items
  | field :: fields, [] => if field.mayEnd then readItems? p fields [] else none

/-- A record as an object, or as the list of its fields. -/
def record? (fields : List (Slot P)) (start : P) (finish : P → Option α) : Tree → Option α
  | object members => (readMembers? fields start members).bind finish
  | array items => (readItems? start fields items).bind finish
  | _ => none

end Tree

variable {α P : Type} {depth : Nat} {d : Doc} {t : Tree} {tok : Token} {decoder : Decoder α}
  {read : Tree → Option α}

/-- With `depth` brackets open, the decoder makes of documents what `read` makes of their trees. -/
structure Agrees (depth : Nat) (decoder : Decoder α) (read : Tree → Option α) : Prop where
  whole {d : Doc} {a : α} (hd : d.Proper) (h : decoder d = .ok a) : ∃ t, d.tree? = some t
  read {d : Doc} {t : Tree} (ht : d.tree? = some t) (hs : d.skip = .ok ()) (hl : d.Level depth) :
    (decoder d).toOption = read t

/-! ### Documents with a tree -/

theorem name?_iff {k : Option String} : tok.name? = some k ↔ tok.piece? = some (.string k) := by
  unfold Token.name?
  constructor
  · intro h
    split at h
    · rename_i hp
      rw [hp, Option.some.inj h]
    · cases h
  · intro h
    rw [h]

theorem key_iff_name? {k : String} : tok.key = .ok k ↔ tok.name? = some (some k) := by
  rw [key_iff, name?_iff]

theorem scalar_tree?_iff : (Doc.scalar tok).tree? = some t ↔
    ∃ p, tok.piece? = some p ∧ p.tree? = some t := Option.bind_eq_some_iff

theorem itemTrees?_iff {ds : List Doc} {ts : List Tree} :
    Doc.itemTrees? ds = some ts ↔ List.Forall₂ (fun d t => d.tree? = some t) ds ts := by
  induction ds generalizing ts with
  | nil => simp [Doc.itemTrees?, eq_comm]
  | cons d ds ih =>
    rw [List.forall₂_cons_left_iff, Doc.itemTrees?]
    simp only [Option.bind_eq_bind, Option.bind_eq_some_iff, ih, Option.pure_def,
      Option.some.injEq]
    constructor
    · rintro ⟨t, ht, us, hus, rfl⟩
      exact ⟨t, us, ht, hus, rfl⟩
    · rintro ⟨t, us, ht, hus, rfl⟩
      exact ⟨t, ht, us, hus, rfl⟩

/-- The member holds this name and this tree. -/
def HoldsMember (m : Token × Option Token × Doc) (n : Option String × Tree) : Prop :=
  m.1.name? = some n.1 ∧ m.2.2.tree? = some n.2

theorem memberTrees?_iff {ms : List (Token × Option Token × Doc)}
    {ns : List (Option String × Tree)} :
    Doc.memberTrees? ms = some ns ↔ List.Forall₂ HoldsMember ms ns := by
  induction ms generalizing ns with
  | nil => simp [Doc.memberTrees?, eq_comm]
  | cons m ms ih =>
    obtain ⟨k, c, d⟩ := m
    rw [List.forall₂_cons_left_iff, Doc.memberTrees?]
    simp only [Option.bind_eq_bind, Option.bind_eq_some_iff, ih, Option.pure_def,
      Option.some.injEq]
    constructor
    · rintro ⟨s, hs, t, ht, ns, hns, rfl⟩
      exact ⟨(s, t), ns, ⟨hs, ht⟩, hns, rfl⟩
    · rintro ⟨n, ns, ⟨hs, ht⟩, hns, rfl⟩
      exact ⟨n.1, hs, n.2, ht, ns, hns, rfl⟩

theorem array_tree?_iff {start n : Nat} {items : List Doc} {e : Ending} :
    (Doc.array start n items e).tree? = some t ↔ ∃ left ts, e = .closed left ∧
      List.Forall₂ (fun d t => d.tree? = some t) items ts ∧ t = .array ts := by
  cases e with
  | closed left =>
    simp only [Doc.tree?, Option.map_eq_some_iff, itemTrees?_iff, Ending.closed.injEq,
      exists_and_left, exists_eq_left', eq_comm (a := t)]
  | _ => simp [Doc.tree?]

theorem object_tree?_iff {start n : Nat} {members : List (Token × Option Token × Doc)}
    {e : Ending} :
    (Doc.object start n members e).tree? = some t ↔ ∃ left ns, e = .closed left ∧
      List.Forall₂ HoldsMember members ns ∧ t = .object ns := by
  cases e with
  | closed left =>
    simp only [Doc.tree?, Option.map_eq_some_iff, memberTrees?_iff, Ending.closed.injEq,
      exists_and_left, exists_eq_left', eq_comm (a := t)]
  | _ => simp [Doc.tree?]

theorem exists_forall₂ {β γ : Type} {R : β → γ → Prop} {l : List β} (h : ∀ b ∈ l, ∃ c, R b c) :
    ∃ cs, List.Forall₂ R l cs := by
  induction l with
  | nil => exact ⟨[], .nil⟩
  | cons b l ih =>
    rw [List.forall_mem_cons] at h
    obtain ⟨c, hc⟩ := h.1
    obtain ⟨cs, hcs⟩ := ih h.2
    exact ⟨c :: cs, .cons hc hcs⟩

theorem Doc.Proper.tree?_of_skip (h : d.Proper) (hs : d.skip = .ok ()) :
    ∃ t, d.tree? = some t := by
  obtain ⟨ps, hps⟩ := h.pieces?_of_skip hs
  rw [h.pieces?_eq] at hps
  obtain ⟨t, ht, -⟩ := Option.map_eq_some_iff.1 hps
  exact ⟨t, ht⟩

/-! ### Texts and null -/

theorem found_string_iff {s : String} :
    (∃ left, (Doc.scalar tok).found = .ok (.string s, left)) ↔
      tok.piece? = some (.string (some s)) := by
  rw [Doc.found, Token.found, Token.piece?]
  cases hl : tok.lexeme with
  | string strict lenient | number strict lenient =>
    cases strict <;> cases lenient <;>
      simp [Lexeme.piece?, Except.map, bind, Except.bind, pure, Except.pure]
  | _ => simp [Lexeme.piece?, bind, Except.bind, pure, Except.pure]

theorem text_ok_iff {s : String} :
    Decoder.text d = .ok s ↔ ∃ left, d.found = .ok (.string s, left) := by
  constructor
  · intro h
    obtain ⟨⟨x, left⟩, hf, h⟩ := bind_ok_iff.1 h
    cases x with
    | string s' => cases h; exact ⟨left, hf⟩
    | _ => exact absurd h reject_ne_ok
  · rintro ⟨left, hf⟩
    rw [Decoder.text, hf]
    rfl

theorem agrees_text (depth : Nat) : Agrees depth Decoder.text Tree.text? where
  whole {d s} hd h := by
    cases hd with
    | scalar tok _ =>
      have hp := found_string_iff.1 (text_ok_iff.1 h)
      exact ⟨_, scalar_tree?_iff.2 ⟨_, hp, rfl⟩⟩
    | array | object | noValue | noColon => cases h
  read {d t} ht _ _ := by
    cases d with
    | scalar tok =>
      obtain ⟨p, hp, hpt⟩ := scalar_tree?_iff.1 ht
      have hnone (hne : ∀ s, p ≠ .string (some s)) :
          (Decoder.text (.scalar tok)).toOption = none := by
        refine text_of_found fun s left hf => hne s ?_
        exact Option.some.inj (hp.symm.trans (found_string_iff.1 ⟨left, hf⟩))
      cases p with
      | string s =>
        cases hpt
        cases s with
        | none => exact hnone (by simp)
        | some s => rw [text_ok_iff.2 (found_string_iff.2 hp)]; rfl
      | null | bool | number => cases hpt; exact hnone (by simp)
      | opening | closing | comma | colon => cases hpt
    | array =>
      obtain ⟨_, _, -, -, rfl⟩ := array_tree?_iff.1 ht
      rfl
    | object =>
      obtain ⟨_, _, -, -, rfl⟩ := object_tree?_iff.1 ht
      rfl
    | given | noValue | noColon => cases ht

/-- A document is read as null if its tree is. -/
theorem found_null_of_tree? (ht : d.tree? = some t) :
    (∃ left, d.found = .ok (.null, left)) ↔ t = .null := by
  cases d with
  | scalar tok =>
    obtain ⟨p, hp, hpt⟩ := scalar_tree?_iff.1 ht
    rw [found_null_iff, hp]
    cases p <;> cases hpt <;> simp
  | array =>
    obtain ⟨_, _, -, -, rfl⟩ := array_tree?_iff.1 ht
    simp [Doc.found]
  | object =>
    obtain ⟨_, _, -, -, rfl⟩ := object_tree?_iff.1 ht
    simp [Doc.found]
  | given | noValue | noColon => cases ht

theorem Tree.optional?_of_ne_null {t : Tree} (h : t ≠ .null) :
    optional? read t = (read t).map some := by
  cases t <;> first | rfl | exact absurd rfl h

theorem Agrees.optional (h : Agrees depth decoder read) :
    Agrees depth (Decoder.optional decoder) (Tree.optional? read) where
  whole {d o} hd ho := by
    by_cases hnull : ∃ left, d.found = .ok (.null, left)
    · cases hd with
      | scalar tok _ => exact ⟨_, scalar_tree?_iff.2 ⟨_, found_null_iff.1 hnull, rfl⟩⟩
      | array | object | noValue | noColon =>
        obtain ⟨left, hf⟩ := hnull
        cases hf
    · rw [← toOption_eq_some_iff, optional_of_ne_null hnull, Option.map_eq_some_iff] at ho
      obtain ⟨a, ha, -⟩ := ho
      exact h.whole hd (toOption_eq_some_iff.1 ha)
  read {d t} ht hs hl := by
    by_cases hnull : t = .null
    · rw [optional_of_null ((found_null_of_tree? ht).2 hnull), hnull]
      rfl
    · rw [optional_of_ne_null (mt (found_null_of_tree? ht).1 hnull), h.read ht hs hl,
        Tree.optional?_of_ne_null hnull]

/-! ### What is seen of a document -/

/-- A document as it comes of tokens, and what is seen of it. -/
inductive Viewed : Doc → Doc.View → Prop
  | single (d : Doc) : Viewed d .single
  | array (start n : Nat) {items : List Doc} (e : Ending) (h : ∀ d ∈ items, d.Proper) :
    Viewed (.array start n items e) (.array items (some e))
  | object (start n : Nat) {members : List (Token × Option Token × Doc)} (e : Ending)
    (hk : ∀ m ∈ members, m.1.isString) (h : ∀ m ∈ members, m.2.2.Proper) :
    Viewed (.object start n members e) (.object (members.map Doc.seen) (some e))

theorem viewed_of_proper {v : Doc.View} (hd : d.Proper) (h : d.view = .ok v) : Viewed d v := by
  cases hd with
  | array start n items e hp =>
    obtain ⟨u, -, h⟩ := bind_ok_iff.1 h
    cases h
    exact .array start n e hp
  | object start n members e hk hp =>
    obtain ⟨u, -, h⟩ := bind_ok_iff.1 h
    cases h
    exact .object start n e hk hp
  | scalar | noValue | noColon =>
    cases h
    exact .single _

/-- What is seen of a document with a tree. -/
inductive Shows (depth : Nat) : Tree → Doc.View → Prop
  | single {t : Tree} (ha : ∀ ts, t ≠ .array ts) (ho : ∀ ns, t ≠ .object ns) : Shows depth t .single
  | array {items : List Doc} {ts : List Tree} (left : Nat)
    (ht : List.Forall₂ (fun d t => d.tree? = some t) items ts) (hs : ∀ d ∈ items, d.skip = .ok ())
    (hl : ∀ d ∈ items, d.Level depth) : Shows depth (.array ts) (.array items (some (.closed left)))
  | object {members : List (Token × Option Token × Doc)} {ns : List (Option String × Tree)}
    (left : Nat) (ht : List.Forall₂ HoldsMember members ns)
    (hs : ∀ m ∈ members, m.2.2.skip = .ok ()) (hl : ∀ m ∈ members, m.2.2.Level depth) :
    Shows depth (.object ns) (.object (members.map Doc.seen) (some (.closed left)))

theorem shows_of_tree? (ht : d.tree? = some t) (hs : d.skip = .ok ()) (hl : d.Level depth)
    (hdepth : depth + 1 ≤ maxDepth) : ∃ v, d.view = .ok v ∧ Shows (depth + 1) t v := by
  have hshallow (start : Nat) : Doc.depthFault? start (depth + 1) = none :=
    depthFault?_eq_none.2 hdepth
  cases hl with
  | scalar tok =>
    obtain ⟨p, -, hp⟩ := scalar_tree?_iff.1 ht
    exact ⟨.single, rfl, by cases p <;> cases hp <;> exact .single (by simp) (by simp)⟩
  | array start e hl =>
    obtain ⟨left, ts, rfl, hts, rfl⟩ := array_tree?_iff.1 ht
    obtain ⟨hitems, -⟩ := skipItems_of_array hs
    refine ⟨_, ?_, .array left hts (Doc.skipItems_iff.1 hitems) hl⟩
    rw [Doc.view, hshallow]
    rfl
  | object start e hl =>
    obtain ⟨left, ns, rfl, hns, rfl⟩ := object_tree?_iff.1 ht
    obtain ⟨hmembers, -⟩ := skipMembers_of_object hs
    exact ⟨_, Doc.view_object (hshallow start),
      .object left hns (fun m hm => (Doc.skipMembers_iff.1 hmembers m hm).2) hl⟩
  | noValue | noColon => cases ht

/-! ### Lists and objects -/

theorem eachItem_whole (h : Agrees depth decoder read) {ending : Option Ending} {items : List Doc}
    {as : List α} (hp : ∀ d ∈ items, d.Proper)
    (hr : Decoder.eachItem decoder ending items = .ok as) :
    ∀ d ∈ items, ∃ t, d.tree? = some t := by
  induction items generalizing as with
  | nil => simp
  | cons d items ih =>
    rw [List.forall_mem_cons] at hp ⊢
    obtain ⟨a, ha, hr⟩ := bind_ok_iff.1 hr
    obtain ⟨as, has, -⟩ := bind_ok_iff.1 hr
    exact ⟨h.whole hp.1 (mapError_ok_iff.1 ha), ih hp.2 has⟩

theorem eachItem_read (h : Agrees depth decoder read) {ending : Option Ending} {items : List Doc}
    {ts : List Tree} (ht : List.Forall₂ (fun d t => d.tree? = some t) items ts)
    (hs : ∀ d ∈ items, d.skip = .ok ()) (hl : ∀ d ∈ items, d.Level depth) :
    (Decoder.eachItem decoder ending items).toOption = ts.mapM read := by
  induction ht with
  | nil => rfl
  | @cons d t items ts hd _ ih =>
    rw [List.forall_mem_cons] at hs hl
    rw [Decoder.eachItem, toOption_bind, toOption_mapError, h.read hd hs.1 hl.1, List.mapM_cons]
    cases read t with
    | none => rfl
    | some a =>
      simp only [Option.bind_some, toOption_bind, ih hs.2 hl.2]
      rfl

theorem Agrees.list (h : Agrees (depth + 1) decoder read) (hdepth : depth + 1 ≤ maxDepth) :
    Agrees depth (Decoder.list decoder) (Tree.list? read) where
  whole {d as} hd hr := by
    obtain ⟨view, hv, hr⟩ := bind_ok_iff.1 hr
    cases viewed_of_proper hd hv with
    | array start n e hp =>
      obtain ⟨vs, hvs, hr⟩ := bind_ok_iff.1 hr
      obtain ⟨u, hu, -⟩ := bind_ok_iff.1 hr
      obtain ⟨left, rfl⟩ := listFault?_eq_none.1 (raise?_ok_iff.1 hu)
      obtain ⟨ts, hts⟩ := exists_forall₂ (eachItem_whole h hp hvs)
      exact ⟨_, array_tree?_iff.2 ⟨left, ts, rfl, hts, rfl⟩⟩
    | single | object => exact absurd hr reject_ne_ok
  read {d t} ht hs hl := by
    obtain ⟨v, hv, hshows⟩ := shows_of_tree? ht hs hl hdepth
    rw [Decoder.list, toOption_bind, hv]
    cases hshows with
    | array left hts hs hl =>
      simp only [toOption_ok, Option.bind_some, toOption_bind, eachItem_read h hts hs hl]
      rw [Tree.list?]
      cases List.mapM read _ <;> rfl
    | single ha ho =>
      simp only [toOption_ok, Option.bind_some, toOption_reject]
      cases t <;> first | rfl | exact absurd rfl (ha _)
    | object => exact toOption_reject ..

theorem eachMember_whole (h : Agrees depth decoder read)
    {members : List (Token × Option Token × Doc)} {as : List (String × α)}
    (hp : ∀ m ∈ members, m.2.2.Proper)
    (hr : Decoder.eachMember decoder (members.map Doc.seen) = .ok as) :
    ∀ m ∈ members, ∃ n, HoldsMember m n := by
  induction members generalizing as with
  | nil => simp
  | cons m members ih =>
    rw [List.forall_mem_cons] at hp ⊢
    obtain ⟨k, hk, hr⟩ := bind_ok_iff.1 hr
    obtain ⟨a, ha, hr⟩ := bind_ok_iff.1 hr
    obtain ⟨as, has, -⟩ := bind_ok_iff.1 hr
    obtain ⟨t, ht⟩ := h.whole hp.1 ha
    exact ⟨⟨(some k, t), key_iff_name?.1 hk, ht⟩, ih hp.2 has⟩

theorem key_toOption {k : Option String} (h : tok.name? = some k) : tok.key.toOption = k := by
  cases k with
  | some k => rw [key_iff_name?.2 h]; rfl
  | none =>
    cases hk : tok.key with
    | error f => rfl
    | ok k => rw [key_iff_name?.1 hk] at h; cases h

theorem eachMember_read (h : Agrees depth decoder read)
    {members : List (Token × Option Token × Doc)} {ns : List (Option String × Tree)}
    (ht : List.Forall₂ HoldsMember members ns) (hs : ∀ m ∈ members, m.2.2.skip = .ok ())
    (hl : ∀ m ∈ members, m.2.2.Level depth) :
    (Decoder.eachMember decoder (members.map Doc.seen)).toOption = Tree.named? read ns := by
  induction ht with
  | nil => rfl
  | @cons m n members ns hm _ ih =>
    rw [List.forall_mem_cons] at hs hl
    rw [List.map_cons, Decoder.eachMember, toOption_bind, Tree.named?]
    simp only [Doc.seen, key_toOption hm.1]
    cases n.1 with
    | none => rfl
    | some k =>
      simp only [Option.bind_some, toOption_bind, h.read hm.2 hs.1 hl.1, Option.bind_eq_bind]
      cases read n.2 with
      | none => rfl
      | some a =>
        simp only [Option.bind_some, ih hs.2 hl.2]
        rfl

theorem Agrees.dict (h : Agrees (depth + 1) decoder read) (hdepth : depth + 1 ≤ maxDepth) :
    Agrees depth (Decoder.dict decoder) (Tree.dict? read) where
  whole {d as} hd hr := by
    obtain ⟨view, hv, hr⟩ := bind_ok_iff.1 hr
    cases viewed_of_proper hd hv with
    | object start n e hk hp =>
      obtain ⟨vs, hvs, hr⟩ := bind_ok_iff.1 hr
      obtain ⟨u, hu, -⟩ := bind_ok_iff.1 hr
      obtain ⟨left, rfl⟩ := objectFault?_eq_none.1 (raise?_ok_iff.1 hu)
      obtain ⟨ns, hns⟩ := exists_forall₂ (eachMember_whole h hp hvs)
      exact ⟨_, object_tree?_iff.2 ⟨left, ns, rfl, hns, rfl⟩⟩
    | single | array => exact absurd hr reject_ne_ok
  read {d t} ht hs hl := by
    obtain ⟨v, hv, hshows⟩ := shows_of_tree? ht hs hl hdepth
    rw [Decoder.dict, toOption_bind, hv]
    cases hshows with
    | object left hns hs hl =>
      simp only [toOption_ok, Option.bind_some, toOption_bind, eachMember_read h hns hs hl]
      rw [Tree.dict?]
      cases Tree.named? read _ <;> rfl
    | single ha ho =>
      simp only [toOption_ok, Option.bind_some, toOption_reject]
      cases t <;> first | rfl | exact absurd rfl (ho _)
    | array => exact toOption_reject ..

/-! ### Records -/

/-- A field of a record, and how it is read from trees. -/
structure SlotAgrees (depth : Nat) (slot : Decoder.Slot P) (field : Tree.Slot P) : Prop where
  name : slot.name = field.name
  present : slot.present = field.present
  mayEnd : slot.mayEnd = field.mayEnd
  whole {d : Doc} {p q : P} (hd : d.Proper) (h : slot.read d p = .ok q) : ∃ t, d.tree? = some t
  read {d : Doc} {t : Tree} (p : P) (ht : d.tree? = some t) (hs : d.skip = .ok ())
    (hl : d.Level depth) : (slot.read d p).toOption = field.read? t p

theorem slotAgrees_part {slot : Decoder.Slot P} {put : P → α → P} (h : Agrees depth decoder read)
    (hslot : ∀ d p, slot.read d p = decoder d >>= fun a => .ok (put p a)) :
    SlotAgrees depth slot (.part slot.name slot.present read put slot.mayEnd) where
  name := rfl
  present := rfl
  mayEnd := rfl
  whole {d p q} hd hr := by
    rw [hslot] at hr
    obtain ⟨a, ha, -⟩ := bind_ok_iff.1 hr
    exact h.whole hd ha
  read {d t} p ht hs hl := by
    rw [hslot, toOption_bind, h.read ht hs hl]
    show _ = (read t).map (put p)
    cases read t <;> rfl

section Record

variable {slots : List (Decoder.Slot P)} {fields : List (Tree.Slot P)} {p q : P}
  {members : List (Token × Option Token × Doc)} {items : List Doc}

theorem find?_agrees (hf : List.Forall₂ (SlotAgrees depth) slots fields) (k : String) :
    (slots.find? (·.name == k) = none ∧ fields.find? (·.name == k) = none) ∨
      ∃ slot field, slots.find? (·.name == k) = some slot ∧
        fields.find? (·.name == k) = some field ∧ SlotAgrees depth slot field := by
  induction hf with
  | nil => exact .inl ⟨rfl, rfl⟩
  | @cons slot field slots fields h _ ih =>
    rw [List.find?_cons, List.find?_cons, h.name]
    cases field.name == k with
    | true => exact .inr ⟨slot, field, rfl, rfl, h⟩
    | false => exact ih

theorem readMembers_whole (hf : List.Forall₂ (SlotAgrees depth) slots fields)
    (hp : ∀ m ∈ members, m.2.2.Proper)
    (hr : Decoder.readMembers slots p (members.map Doc.seen) = .ok q) :
    ∀ m ∈ members, ∃ n, HoldsMember m n := by
  induction members generalizing p with
  | nil => simp
  | cons m members ih =>
    rw [List.forall_mem_cons] at hp ⊢
    rw [List.map_cons, Decoder.readMembers] at hr
    obtain ⟨k, hk, hr⟩ := bind_ok_iff.1 hr
    obtain ⟨hslot, -⟩ | ⟨slot, field, hslot, -, hagrees⟩ := find?_agrees hf k
    · rw [hslot] at hr
      obtain ⟨u, hu, hr⟩ := bind_ok_iff.1 hr
      obtain ⟨t, ht⟩ := hp.1.tree?_of_skip hu
      exact ⟨⟨(some k, t), key_iff_name?.1 hk, ht⟩, ih hp.2 hr⟩
    · rw [hslot] at hr
      dsimp only at hr
      split at hr
      · cases hr
      · obtain ⟨p', hread, hr⟩ := bind_ok_iff.1 hr
        obtain ⟨t, ht⟩ := hagrees.whole hp.1 hread
        exact ⟨⟨(some k, t), key_iff_name?.1 hk, ht⟩, ih hp.2 hr⟩

theorem readMembers_read (hf : List.Forall₂ (SlotAgrees depth) slots fields)
    {ns : List (Option String × Tree)} (ht : List.Forall₂ HoldsMember members ns)
    (hs : ∀ m ∈ members, m.2.2.skip = .ok ()) (hl : ∀ m ∈ members, m.2.2.Level depth) :
    (Decoder.readMembers slots p (members.map Doc.seen)).toOption =
      Tree.readMembers? fields p ns := by
  induction ht generalizing p with
  | nil => rfl
  | @cons m n members ns hm _ ih =>
    rw [List.forall_mem_cons] at hs hl
    rw [List.map_cons, Decoder.readMembers, toOption_bind, Tree.readMembers?, Tree.readMember?]
    simp only [Doc.seen, key_toOption hm.1]
    cases n.1 with
    | none => rfl
    | some k =>
      simp only [Option.bind_some, Option.bind_eq_bind]
      obtain ⟨hslot, hfield⟩ | ⟨slot, field, hslot, hfield, hagrees⟩ := find?_agrees hf k
      · rw [hslot, hfield]
        simp only [toOption_bind, hs.1, toOption_ok, Option.bind_some]
        exact ih hs.2 hl.2
      · rw [hslot, hfield]
        dsimp only
        rw [hagrees.present]
        split
        · rfl
        · rw [toOption_bind, hagrees.read p hm.2 hs.1 hl.1]
          cases field.read? n.2 p with
          | none => rfl
          | some p' => exact ih hs.2 hl.2

theorem readItems_whole {noun : String} {total index : Nat} {ending : Option Ending}
    {rest : List Doc} (hf : List.Forall₂ (SlotAgrees depth) slots fields)
    (hp : ∀ d ∈ items, d.Proper)
    (hr : Decoder.readItems noun total ending index p slots items = .ok (q, rest)) :
    ∃ front, items = front ++ rest ∧ ∀ d ∈ front, ∃ t, d.tree? = some t := by
  induction hf generalizing p index items with
  | nil =>
    cases hr
    exact ⟨[], rfl, by simp⟩
  | @cons slot field slots fields hagrees _ ih =>
    cases items with
    | nil =>
      obtain ⟨u, -, hr⟩ := bind_ok_iff.1 hr
      split at hr
      · exact ih (by simp) hr
      · cases hr
    | cons d items =>
      rw [List.forall_mem_cons] at hp
      obtain ⟨p', hread, hr⟩ := bind_ok_iff.1 hr
      obtain ⟨front, rfl, hfront⟩ := ih hp.2 hr
      exact ⟨d :: front, rfl,
        List.forall_mem_cons.2 ⟨hagrees.whole hp.1 (mapError_ok_iff.1 hread), hfront⟩⟩

theorem readItems_read (hf : List.Forall₂ (SlotAgrees depth) slots fields) (noun : String)
    (total left index : Nat) {ts : List Tree}
    (ht : List.Forall₂ (fun d t => d.tree? = some t) items ts)
    (hs : ∀ d ∈ items, d.skip = .ok ()) (hl : ∀ d ∈ items, d.Level depth) :
    ((Decoder.readItems noun total (some (.closed left)) index p slots items).toOption.bind
      fun r => if r.2.isEmpty then some r.1 else none) = Tree.readItems? p fields ts := by
  induction hf generalizing p index items ts with
  | nil => cases ht <;> rfl
  | @cons slot field slots fields hagrees _ ih =>
    cases ht with
    | nil =>
      rw [Decoder.readItems, Tree.readItems?, hagrees.mayEnd]
      split
      · exact ih _ .nil (by simp) (by simp)
      · rfl
    | @cons d t items ts hd ht =>
      rw [List.forall_mem_cons] at hs hl
      rw [Decoder.readItems, Tree.readItems?, toOption_bind, toOption_mapError,
        hagrees.read p hd hs.1 hl.1]
      cases field.read? t p with
      | none => rfl
      | some p' => exact ih _ ht hs.2 hl.2

theorem closingFault?_closed (rest : List Doc) (left : Nat) :
    (raise? ((Ending.closed left).closingFault? rest)).toOption =
      if rest.isEmpty then some () else none := by
  cases rest <;> rfl

theorem agrees_record (hf : List.Forall₂ (SlotAgrees (depth + 1)) slots fields)
    (hdepth : depth + 1 ≤ maxDepth) {noun : String} {start : P} {finish : P → Except Cause α}
    {finish? : P → Option α} (hfinish : ∀ p, (finish p).toOption = finish? p) :
    Agrees depth (Decoder.record noun slots start finish) (Tree.record? fields start finish?) where
  whole {d a} hd hr := by
    obtain ⟨view, hv, hr⟩ := bind_ok_iff.1 hr
    cases viewed_of_proper hd hv with
    | single => exact absurd hr reject_ne_ok
    | object _ n e hk hp =>
      obtain ⟨p, hread, hr⟩ := bind_ok_iff.1 hr
      obtain ⟨u, hu, -⟩ := bind_ok_iff.1 hr
      obtain ⟨left, rfl⟩ := objectFault?_eq_none.1 (raise?_ok_iff.1 hu)
      obtain ⟨ns, hns⟩ := exists_forall₂ (readMembers_whole hf hp hread)
      exact ⟨_, object_tree?_iff.2 ⟨left, ns, rfl, hns, rfl⟩⟩
    | array _ n e hp =>
      obtain ⟨⟨p, rest⟩, hread, hr⟩ := bind_ok_iff.1 hr
      obtain ⟨u, hu, -⟩ := bind_ok_iff.1 hr
      obtain ⟨rfl, left, rfl⟩ := closingFault?_eq_none.1 (raise?_ok_iff.1 hu)
      obtain ⟨front, rfl, hfront⟩ := readItems_whole hf hp hread
      obtain ⟨ts, hts⟩ := exists_forall₂ hfront
      exact ⟨_, array_tree?_iff.2 ⟨left, ts, rfl, by rwa [List.append_nil], rfl⟩⟩
  read {d t} ht hs hl := by
    obtain ⟨v, hv, hshows⟩ := shows_of_tree? ht hs hl hdepth
    rw [Decoder.record, toOption_bind, hv]
    cases hshows with
    | object left hns hs hl =>
      simp only [toOption_ok, Option.bind_some, toOption_bind, readMembers_read hf hns hs hl,
        toOption_mapError, hfinish]
      rfl
    | array left hts hs hl =>
      rw [Tree.record?, ← readItems_read hf noun slots.length left 0 hts hs hl]
      simp only [toOption_ok, Option.bind_some, toOption_bind]
      cases Decoder.readItems noun slots.length (some (.closed left)) 0 start slots _ with
      | error f => rfl
      | ok r =>
        simp only [toOption_ok, Option.bind_some, closingFault?_closed, toOption_mapError, hfinish]
        cases r.2.isEmpty <;> rfl
    | single ha ho =>
      simp only [toOption_ok, Option.bind_some, toOption_reject]
      cases t <;> first | rfl | exact absurd rfl (ha _) | exact absurd rfl (ho _)

end Record

/-! ### Texts -/

theorem Writes.ofText {s : String} (h : Writes s t) :
    ∃ d, Doc.ofText (Text.symbolsOf s) = (d, none) ∧ d.tree? = some t ∧ d.skip = .ok () ∧
      d.Level 0 := by
  obtain ⟨d, hd, ht⟩ := writes_iff.1 h
  obtain ⟨d', hd', hskip⟩ := t.isValue_pieces.ofText h
  obtain rfl := (Prod.mk.inj (hd.symm.trans hd')).1
  exact ⟨d, hd, ht, hskip, (proper_ofText hd).2⟩

/-- A text can be read if it writes a tree that can. -/
theorem Agrees.ofText_iff (h : Agrees 0 decoder read) {s : String} {a : α} :
    decoder.ofText s = .ok a ↔ ∃ t, Writes s t ∧ read t = some a := by
  rw [Decoder.ofText, mapError_ok_iff, Decoder.ofSymbols]
  constructor
  · intro hr
    cases hdoc : Doc.ofText (Text.symbolsOf s) with
    | mk d next =>
      rw [hdoc] at hr
      obtain ⟨a', ha, hr⟩ := bind_ok_iff.1 hr
      cases next with
      | some t => cases hr
      | none =>
        cases hr
        obtain ⟨t, ht⟩ := h.whole (proper_ofText hdoc).1 ha
        have hw : Writes s t := writes_iff.2 ⟨d, hdoc, ht⟩
        obtain ⟨d', hdoc', -, hskip, hlevel⟩ := hw.ofText
        obtain rfl := (Prod.mk.inj (hdoc.symm.trans hdoc')).1
        exact ⟨t, hw, by rw [← h.read ht hskip hlevel, toOption_eq_some_iff.2 ha]⟩
  · rintro ⟨t, hw, hread⟩
    obtain ⟨d, hd, ht, hskip, hlevel⟩ := hw.ofText
    rw [← h.read ht hskip hlevel, toOption_eq_some_iff] at hread
    rw [hd]
    dsimp only
    rw [hread]
    rfl

end GatedCalls.Json
