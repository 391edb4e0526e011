import Mathlib.Data.List.Pairwise
import Mathlib.Data.List.Perm.Basic
import GatedCalls.Proofs.Json.Reading

/-!
# The order of members

A record is read to the same parts whatever the order of its members, since its fields are read
apart from one another (`Tree.readMembers?_perm`). The values that are read of an object under its
names are those of its members (`Tree.mem_named?`), and no name is repeated where the object repeats
none.
-/

namespace GatedCalls.Json.Tree

variable {α P : Type}

/-! ### Records -/

namespace Slot

/-- What reading one of the fields gives is nothing to the other. -/
structure Apart (f g : Slot P) : Prop where
  comm (t u : Tree) (p : P) : (f.read? t p).bind (g.read? u) = (g.read? u p).bind (f.read? t)
  left {t : Tree} {p q : P} (h : f.read? t p = some q) : g.present q = g.present p
  right {t : Tree} {p q : P} (h : g.read? t p = some q) : f.present q = f.present p

instance : Std.Symm (Apart (P := P)) where
  symm _ _ h := ⟨fun t u p => (h.comm u t p).symm, h.right, h.left⟩

/-- Fields that are there once they are read, each apart from the others. -/
structure Independent (fields : List (Slot P)) : Prop where
  marks : ∀ f ∈ fields, ∀ {t p q}, f.read? t p = some q → f.present q = true
  apart : fields.Pairwise Apart

theorem part_eq_some {name : String} {present : P → Bool} {read : Tree → Option α} {put : P → α → P}
    {mayEnd : Bool} {t : Tree} {p q : P} :
    (part name present read put mayEnd).read? t p = some q ↔ ∃ a, read t = some a ∧ put p a = q :=
  Option.map_eq_some_iff

theorem apart_part {β : Type} {name name' : String} {present present' : P → Bool}
    {read : Tree → Option α} {read' : Tree → Option β} {put : P → α → P} {put' : P → β → P}
    {mayEnd mayEnd' : Bool} (hput : ∀ p a b, put' (put p a) b = put (put' p b) a)
    (h' : ∀ p a, present' (put p a) = present' p) (h : ∀ p b, present (put' p b) = present p) :
    Apart (part name present read put mayEnd) (part name' present' read' put' mayEnd') where
  comm t u p := by
    show ((read t).map (put p)).bind (fun p => (read' u).map (put' p)) =
      ((read' u).map (put' p)).bind fun p => (read t).map (put p)
    cases read t <;> cases read' u <;> simp [hput]
  left hr := by
    obtain ⟨a, -, rfl⟩ := part_eq_some.1 hr
    exact h' ..
  right hr := by
    obtain ⟨b, -, rfl⟩ := part_eq_some.1 hr
    exact h ..

theorem take_take {f g : Slot P} (h : Apart f g) (t u : Tree) (p : P) :
    ((if f.present p then none else f.read? t p).bind
      fun q => if g.present q then none else g.read? u q) =
    if f.present p || g.present p then none else (f.read? t p).bind (g.read? u) := by
  cases f.present p with
  | true => rfl
  | false =>
    cases hr : f.read? t p with
    | none => simp
    | some q =>
      simp only [Bool.false_eq_true, if_false, Bool.false_or, Option.bind_some, h.left hr]

theorem take_self {f : Slot P} (h : ∀ {t p q}, f.read? t p = some q → f.present q = true)
    (t u : Tree) (p : P) : ((if f.present p then none else f.read? t p).bind
      fun q => if f.present q then none else f.read? u q) = none := by
  cases f.present p with
  | true => rfl
  | false =>
    cases hr : f.read? t p with
    | none => rfl
    | some q => simp [h hr]

end Slot

open Slot

variable {fields : List (Slot P)} {p : P} {members members' : List (Option String × Tree)}

theorem readMember?_comm (hf : Independent fields) (p : P) (m n : Option String × Tree) :
    ((readMember? fields p m).bind fun q => readMember? fields q n) =
      (readMember? fields p n).bind fun q => readMember? fields q m := by
  simp only [readMember?]
  cases m.1 with
  | none => simp
  | some k =>
    cases n.1 with
    | none => simp
    | some k' =>
      simp only [Option.bind_eq_bind, Option.bind_some]
      cases hk : fields.find? (·.name == k) with
      | none => simp
      | some f =>
        cases hk' : fields.find? (·.name == k') with
        | none => simp
        | some g =>
          dsimp only
          -- two members of one field are refused in either order
          by_cases hfg : f = g
          · rw [hfg, take_self (hf.marks g (List.mem_of_find?_eq_some hk')),
              take_self (hf.marks g (List.mem_of_find?_eq_some hk'))]
          · have hapart := hf.apart.forall (List.mem_of_find?_eq_some hk)
              (List.mem_of_find?_eq_some hk') hfg
            rw [take_take hapart, take_take (Std.Symm.symm _ _ hapart), Bool.or_comm, hapart.comm]

/-- The order of members is nothing to a record. -/
theorem readMembers?_perm (hf : Independent fields) (h : members.Perm members') (p : P) :
    readMembers? fields p members = readMembers? fields p members' := by
  induction h generalizing p with
  | nil => rfl
  | cons m _ ih =>
    rw [readMembers?, readMembers?]
    exact Option.bind_congr fun q _ => ih q
  | swap m n rest =>
    simp only [readMembers?, Option.bind_eq_bind, ← Option.bind_assoc, readMember?_comm hf p n m]
  | trans _ _ ih ih' => exact (ih p).trans (ih' p)

/-! ### Lists -/

variable {read : Tree → Option α}

theorem mapM_iff {ts : List Tree} {as : List α} :
    ts.mapM read = some as ↔ List.Forall₂ (fun t a => read t = some a) ts as := by
  induction ts generalizing as with
  | nil => simp [eq_comm]
  | cons t ts ih =>
    rw [List.forall₂_cons_left_iff, List.mapM_cons]
    simp only [Option.bind_eq_bind, Option.bind_eq_some_iff, ih, Option.pure_def, Option.some.injEq]
    constructor
    · rintro ⟨a, ha, as, has, rfl⟩
      exact ⟨a, as, ha, has, rfl⟩
    · rintro ⟨a, as, ha, has, rfl⟩
      exact ⟨a, ha, as, has, rfl⟩

theorem mapM_perm {ts us : List Tree} {as : List α} (h : ts.Perm us) (ha : ts.mapM read = some as) :
    ∃ bs, us.mapM read = some bs ∧ as.Perm bs := by
  obtain ⟨bs, hbs, hp⟩ := List.perm_comp_forall₂ h.symm (mapM_iff.1 ha)
  exact ⟨bs, mapM_iff.2 hbs, hp.symm⟩

/-! ### Objects -/

/-- No name is repeated in an object. -/
inductive Distinct : Tree → Prop
  | null : Distinct null
  | bool (b : Bool) : Distinct (bool b)
  | number : Distinct number
  | string (s : Option String) : Distinct (string s)
  | array {items : List Tree} (h : ∀ t ∈ items, Distinct t) : Distinct (array items)
  | object {members : List (Option String × Tree)} (hn : (members.filterMap Prod.fst).Nodup)
    (h : ∀ m ∈ members, Distinct m.2) : Distinct (object members)

@[simp] theorem distinct_string (s : Option String) : Distinct (string s) := .string s

@[simp] theorem distinct_array {items : List Tree} :
    Distinct (array items) ↔ ∀ t ∈ items, Distinct t :=
  ⟨fun h => by cases h; assumption, .array⟩

@[simp] theorem distinct_object {members : List (Option String × Tree)} :
    Distinct (object members) ↔
      (members.filterMap Prod.fst).Nodup ∧ ∀ m ∈ members, Distinct m.2 :=
  ⟨fun h => by cases h; constructor <;> assumption, fun h => .object h.1 h.2⟩

section Named

variable {ms : List (Option String × Tree)} {as : List (String × α)}

theorem names_of_named? (h : named? read ms = some as) :
    ms.map Prod.fst = as.map fun a => some a.1 := by
  induction ms generalizing as with
  | nil =>
    cases h
    rfl
  | cons m ms ih =>
    obtain ⟨k, hk, h⟩ := Option.bind_eq_some_iff.1 h
    obtain ⟨a, ha, h⟩ := Option.bind_eq_some_iff.1 h
    obtain ⟨as', has, h⟩ := Option.bind_eq_some_iff.1 h
    cases h
    rw [List.map_cons, List.map_cons, hk, ih has]

theorem mem_named? (h : named? read ms = some as) {name : String} {a : α} :
    (name, a) ∈ as ↔ ∃ t, (some name, t) ∈ ms ∧ read t = some a := by
  induction ms generalizing as with
  | nil =>
    cases h
    simp
  | cons m ms ih =>
    obtain ⟨n, u⟩ := m
    obtain ⟨k, hk, h⟩ := Option.bind_eq_some_iff.1 h
    obtain ⟨c, hc, h⟩ := Option.bind_eq_some_iff.1 h
    obtain ⟨cs, hcs, h⟩ := Option.bind_eq_some_iff.1 h
    cases h
    dsimp only at hk hc
    rw [List.mem_cons, ih hcs]
    constructor
    · rintro (⟨⟨⟩⟩ | ⟨t, ht, ha⟩)
      · exact ⟨u, List.mem_cons.2 (.inl (by rw [hk])), hc⟩
      · exact ⟨t, List.mem_cons_of_mem _ ht, ha⟩
    · rintro ⟨t, ht, ha⟩
      rcases List.mem_cons.1 ht with ht | ht
      · obtain ⟨rfl, rfl⟩ := Prod.mk.inj ht
        cases hk
        exact .inl (by rw [Option.some.inj (ha.symm.trans hc)])
      · exact .inr ⟨t, ht, ha⟩

theorem exists_named?_iff : (∃ as, named? read ms = some as) ↔
    ∀ m ∈ ms, ∃ k a, m.1 = some k ∧ read m.2 = some a := by
  induction ms with
  | nil => simp [named?]
  | cons m ms ih =>
    rw [List.forall_mem_cons, ← ih]
    constructor
    · rintro ⟨as, h⟩
      obtain ⟨k, hk, h⟩ := Option.bind_eq_some_iff.1 h
      obtain ⟨a, ha, h⟩ := Option.bind_eq_some_iff.1 h
      obtain ⟨as', has, -⟩ := Option.bind_eq_some_iff.1 h
      exact ⟨⟨k, a, hk, ha⟩, as', has⟩
    · rintro ⟨⟨k, a, hk, ha⟩, as, has⟩
      refine ⟨(k, a) :: as, ?_⟩
      rw [named?, hk, ha, has]
      rfl

theorem nodup_of_named? (h : named? read ms = some as) (hn : (ms.filterMap Prod.fst).Nodup) :
    (as.map Prod.fst).Nodup := by
  have hnames : ms.filterMap Prod.fst = as.map Prod.fst := calc
    ms.filterMap Prod.fst = (ms.map Prod.fst).filterMap id := by rw [List.filterMap_map]; rfl
    _ = (as.map fun a => some a.1).filterMap id := by rw [names_of_named? h]
    _ = as.map Prod.fst := by rw [List.filterMap_map]; exact congrFun List.filterMap_eq_map' as
  rwa [← hnames]

end Named

end GatedCalls.Json.Tree
