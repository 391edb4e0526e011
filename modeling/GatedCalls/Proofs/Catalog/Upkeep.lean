import GatedCalls.Proofs.Catalog
import Mathlib.Data.List.Nodup

/-!
# The table and the order stay in step

A catalog keeps its entries in a table by name and the names in a list by registration.
`Catalog.Coherent` says that the two agree; each registration keeps it, and appends its entries to
the listing. `Catalog.Op.apply` registers in place, where a batch that was refused half way would
leave its first entries behind. It never is: a batch that `firstTaken?` finds no fault with is one
that the catalog `Admits`, and then no entry of it is refused (`Op.apply_registerAll`).
-/

namespace GatedCalls

theorem Dict.mem_keys {α : Type} {d : Dict α} {name : String} :
    name ∈ d.keys ↔ d.contains name = true := by
  simp only [keys, contains, get?, List.mem_map, List.lookup_isSome_iff, beq_iff_eq]
  exact exists_congr fun p => and_congr_right fun _ => eq_comm

theorem Dict.nodup_keys {α : Type} (d : Dict α) : d.keys.Nodup := by
  have hne (a b : String) (h : a < b) : a ≠ b := fun he => String.lt_irrefl a (by rwa [← he] at h)
  exact d.sorted.imp (hne _ _)

namespace Catalog

variable {β : Type} {c c' : Catalog β} {e : Entry β} {batch : List (Entry β)} {name : String}

/-! ### Batches -/

/-- The names of the batch are not taken, and it has none twice. -/
structure Admits (c : Catalog β) (batch : List (Entry β)) : Prop where
  free : ∀ e ∈ batch, c.contains e.name = false
  distinct : (batch.map Entry.name).Nodup

theorem firstTaken?_eq_none {seen : NameSet} : c.firstTaken? seen batch = none ↔
    c.Admits batch ∧ ∀ e ∈ batch, e.name ∉ seen := by
  induction batch generalizing seen with
  | nil => simp [firstTaken?, Admits.mk]
  | cons e rest ih =>
    rw [firstTaken?]
    split
    · rename_i h
      rw [Bool.or_eq_true, NameSet.contains_iff] at h
      refine iff_of_false (by simp) fun ⟨ha, hs⟩ => ?_
      rcases h with h | h
      · rw [ha.free e List.mem_cons_self] at h
        cases h
      · exact hs e List.mem_cons_self h
    · rename_i h
      rw [Bool.or_eq_true, NameSet.contains_iff, not_or, Bool.not_eq_true] at h
      rw [ih]
      constructor
      · rintro ⟨ha, hs⟩
        refine ⟨⟨?_, ?_⟩, ?_⟩
        · exact List.forall_mem_cons.2 ⟨h.1, ha.free⟩
        · refine List.nodup_cons.2 ⟨fun hm => ?_, ha.distinct⟩
          obtain ⟨x, hx, hn⟩ := List.mem_map.1 hm
          exact hs x hx (NameSet.mem_insert.2 (.inl hn))
        · refine List.forall_mem_cons.2 ⟨h.2, fun x hx hm => ?_⟩
          exact hs x hx (NameSet.mem_insert.2 (.inr hm))
      · rintro ⟨ha, hs⟩
        obtain ⟨hd, hr⟩ := List.nodup_cons.1 ha.distinct
        refine ⟨⟨fun x hx => ha.free x (List.mem_cons_of_mem _ hx), hr⟩, fun x hx hm => ?_⟩
        rcases NameSet.mem_insert.1 hm with hn | hm
        · exact hd (hn ▸ List.mem_map_of_mem hx)
        · exact hs x (List.mem_cons_of_mem _ hx) hm

theorem firstTaken?_eq_some {seen : NameSet} : c.firstTaken? seen batch = some name ↔
    ∃ before e after, batch = before ++ e :: after ∧ e.name = name ∧
      c.firstTaken? seen before = none ∧
      (c.contains name = true ∨ name ∈ seen ∨ name ∈ before.map Entry.name) := by
  constructor
  · intro h
    induction batch generalizing seen with
    | nil => cases h
    | cons e rest ih =>
      rw [firstTaken?] at h
      split at h
      · rename_i ht
        obtain rfl := Option.some.inj h
        rw [Bool.or_eq_true, NameSet.contains_iff] at ht
        exact ⟨[], e, rest, rfl, rfl, rfl, ht.imp_right .inl⟩
      · rename_i ht
        obtain ⟨before, x, after, rfl, hn, hb, hw⟩ := ih h
        refine ⟨e :: before, x, after, rfl, hn, by rw [firstTaken?, if_neg ht, hb], ?_⟩
        rw [List.map_cons, List.mem_cons, NameSet.mem_insert, or_assoc] at *
        rcases hw with hw | rfl | hw | hw
        · exact .inl hw
        · exact .inr (.inr (.inl rfl))
        · exact .inr (.inl hw)
        · exact .inr (.inr (.inr hw))
  · rintro ⟨before, e, after, rfl, rfl, hb, hw⟩
    induction before generalizing seen with
    | nil =>
      have ht : (c.contains e.name || seen.contains e.name) = true := by
        rw [Bool.or_eq_true, NameSet.contains_iff]
        simpa using hw
      rw [List.nil_append, firstTaken?, if_pos ht]
    | cons x before ih =>
      rw [firstTaken?] at hb
      split at hb
      · cases hb
      · rename_i ht
        rw [List.cons_append, firstTaken?, if_neg ht]
        refine ih hb (hw.imp_right fun hw => ?_)
        rw [List.map_cons, List.mem_cons] at hw
        rw [NameSet.mem_insert, or_assoc]
        exact or_left_comm.1 hw

theorem register_of_free (h : c.contains e.name = false) :
    c.register e = .ok ⟨c.table.insert e.name e, c.order ++ [e.name]⟩ := by
  rw [register, h]
  rfl

theorem register_of_taken (h : c.contains e.name = true) :
    c.register e = .error (.duplicateName e.name) := by
  rw [register, if_pos h]

theorem contains_register (h : c.register e = .ok c') :
    c'.contains name = true ↔ name = e.name ∨ c.contains name = true := by
  cases he : c.contains e.name with
  | true => rw [register_of_taken he] at h; cases h
  | false =>
    rw [register_of_free he] at h
    cases h
    simp only [contains, Dict.contains, Dict.get?_insert]
    split <;> simp_all

theorem Admits.tail (h : c.Admits (e :: batch)) (hr : c.register e = .ok c') :
    c'.Admits batch := by
  obtain ⟨hd, hn⟩ := List.nodup_cons.1 h.distinct
  refine ⟨fun x hx => Bool.eq_false_iff.2 fun hc => ?_, hn⟩
  rcases (contains_register hr).1 hc with hxe | hc
  · exact hd (hxe ▸ List.mem_map_of_mem hx)
  · rw [h.free x (List.mem_cons_of_mem _ hx)] at hc
    cases hc

theorem Admits.foldlM (h : c.Admits batch) : ∃ c', batch.foldlM Catalog.register c = .ok c' := by
  induction batch generalizing c with
  | nil => exact ⟨c, rfl⟩
  | cons e rest ih =>
    have hr := register_of_free (h.free e List.mem_cons_self)
    obtain ⟨c', hf⟩ := ih (h.tail hr)
    exact ⟨c', by rw [List.foldlM_cons, hr]; exact hf⟩

theorem registerAll_of_admits (h : c.Admits batch) : ∃ c', c.registerAll batch =
    .ok (c', batch.length) ∧ batch.foldlM Catalog.register c = .ok c' := by
  obtain ⟨c', hf⟩ := h.foldlM
  refine ⟨c', ?_, hf⟩
  rw [registerAll, firstTaken?_eq_none.2 ⟨h, fun _ _ hm => by cases hm⟩]
  dsimp only
  rw [hf]
  rfl

/-- The catalog refuses the batch because the name is taken or occurred in the batch before, and it
is the first such name. -/
def Refuses (c : Catalog β) (batch : List (Entry β)) (name : String) : Prop :=
  ∃ first e rest, batch = first ++ e :: rest ∧ c.Admits first ∧ e.name = name ∧
    (c.contains name = true ∨ name ∈ first.map Entry.name)

theorem Refuses.not_admits (h : c.Refuses batch name) : ¬ c.Admits batch := by
  obtain ⟨first, e, rest, rfl, -, rfl, ht⟩ := h
  intro ha
  rcases ht with ht | ht
  · rw [ha.free e (List.mem_append_right _ List.mem_cons_self)] at ht
    cases ht
  · have hd := ha.distinct
    rw [List.map_append, List.nodup_append] at hd
    exact hd.2.2 e.name ht e.name List.mem_cons_self rfl

theorem firstTaken?_empty_eq_some : c.firstTaken? ∅ batch = some name ↔ c.Refuses batch name := by
  constructor
  · intro h
    obtain ⟨before, e, after, hb, hname, hn, hw⟩ := firstTaken?_eq_some.1 h
    refine ⟨before, e, after, hb, (firstTaken?_eq_none.1 hn).1, hname, hw.imp_right fun hw => ?_⟩
    exact hw.resolve_left fun hm => by cases hm
  · rintro ⟨before, e, after, hb, ha, hname, hw⟩
    have hn : c.firstTaken? ∅ before = none :=
      firstTaken?_eq_none.2 ⟨ha, fun _ _ hm => by cases hm⟩
    exact firstTaken?_eq_some.2 ⟨before, e, after, hb, hname, hn, hw.imp_right .inr⟩

/-- A batch is refused for its first name that is taken or that it had before. -/
theorem registerAll_eq_error {err : CatalogError} : c.registerAll batch = .error err ↔
    ∃ name, c.Refuses batch name ∧ err = .duplicateName name := by
  cases ht : c.firstTaken? ∅ batch with
  | none =>
    have ha := (firstTaken?_eq_none.1 ht).1
    obtain ⟨c', hr, -⟩ := registerAll_of_admits ha
    rw [hr]
    exact iff_of_false (by rintro ⟨⟩) fun ⟨_, hrefused, _⟩ => hrefused.not_admits ha
  | some name =>
    rw [registerAll, ht]
    constructor
    · rintro ⟨⟩
      exact ⟨name, firstTaken?_empty_eq_some.1 ht, rfl⟩
    · rintro ⟨name', hrefused, rfl⟩
      rw [Option.some.inj (ht.symm.trans (firstTaken?_empty_eq_some.2 hrefused))]

theorem admits_of_registerAll {n : Nat} (h : c.registerAll batch = .ok (c', n)) :
    c.Admits batch ∧ batch.foldlM Catalog.register c = .ok c' ∧ n = batch.length := by
  cases ht : c.firstTaken? ∅ batch with
  | none =>
    have ha := (firstTaken?_eq_none.1 ht).1
    obtain ⟨c₁, hr, hf⟩ := registerAll_of_admits ha
    rw [hr] at h
    cases h
    exact ⟨ha, hf, rfl⟩
  | some name =>
    rw [registerAll, ht] at h
    cases h

theorem contains_foldlM (hf : batch.foldlM Catalog.register c = .ok c') :
    c'.contains name = true ↔ name ∈ batch.map Entry.name ∨ c.contains name = true := by
  induction batch generalizing c with
  | nil =>
    cases hf
    simp
  | cons e rest ih =>
    rw [List.foldlM_cons] at hf
    cases hr : c.register e with
    | error err => rw [hr] at hf; cases hf
    | ok c₁ =>
      rw [hr] at hf
      rw [ih hf, contains_register hr, List.map_cons, List.mem_cons, or_assoc, or_left_comm]

theorem order_foldlM (hf : batch.foldlM Catalog.register c = .ok c') :
    c'.order = c.order ++ batch.map Entry.name := by
  induction batch generalizing c with
  | nil =>
    cases hf
    exact (List.append_nil _).symm
  | cons e rest ih =>
    rw [List.foldlM_cons] at hf
    cases he : c.contains e.name with
    | true => rw [register_of_taken he] at hf; cases hf
    | false =>
      rw [register_of_free he] at hf
      rw [ih hf, List.append_assoc]
      rfl

theorem Admits.left {more : List (Entry β)} (h : c.Admits (batch ++ more)) : c.Admits batch where
  free e he := h.free e (List.mem_append_left _ he)
  distinct := by
    have hd := h.distinct
    rw [List.map_append, List.nodup_append] at hd
    exact hd.1

/-- Once a batch is in, a second one is admitted if both together were. -/
theorem Admits.append_iff {more : List (Entry β)} (h : c.Admits batch)
    (hf : batch.foldlM Catalog.register c = .ok c') :
    c.Admits (batch ++ more) ↔ c'.Admits more := by
  constructor
  · rintro ⟨hfree, hd⟩
    rw [List.map_append, List.nodup_append] at hd
    refine ⟨fun e he => Bool.eq_false_iff.2 fun hc => ?_, hd.2.1⟩
    rcases (contains_foldlM hf).1 hc with hm | hc
    · exact hd.2.2 e.name hm e.name (List.mem_map_of_mem he) rfl
    · rw [hfree e (List.mem_append_right _ he)] at hc
      cases hc
  · intro hm
    have hnot (e : Entry β) (he : e ∈ more) :
        ¬ (e.name ∈ batch.map Entry.name ∨ c.contains e.name = true) := by
      rw [← contains_foldlM hf, hm.free e he]
      exact Bool.false_ne_true
    refine ⟨fun e he => ?_, ?_⟩
    · rcases List.mem_append.1 he with he | he
      · exact h.free e he
      · exact Bool.eq_false_iff.2 fun hc => hnot e he (.inr hc)
    · rw [List.map_append, List.nodup_append]
      refine ⟨h.distinct, hm.distinct, ?_⟩
      rintro x hx y hy rfl
      obtain ⟨e, he, rfl⟩ := List.mem_map.1 hy
      exact hnot e he (.inl hx)

theorem Admits.refuses_append_iff {more : List (Entry β)} (h : c.Admits batch)
    (hf : batch.foldlM Catalog.register c = .ok c') :
    c.Refuses (batch ++ more) name ↔ c'.Refuses more name := by
  have htaken (first : List (Entry β)) :
      c'.contains name = true ∨ name ∈ first.map Entry.name ↔
        c.contains name = true ∨ name ∈ (batch ++ first).map Entry.name := by
    rw [contains_foldlM hf, List.map_append, List.mem_append, or_assoc, or_left_comm]
  constructor
  · rintro ⟨first, e, rest, hb, ha, hname, ht⟩
    rcases List.append_eq_append_iff.1 hb with ⟨mid, rfl, hm⟩ | ⟨mid, rfl, hm⟩
    · exact ⟨mid, e, rest, hm, (h.append_iff hf).1 ha, hname, (htaken mid).2 ht⟩
    · cases mid with
      | nil =>
        have hsame : c.contains name = true ∨ name ∈ ((first ++ []) ++ []).map Entry.name := by
          simpa only [List.append_nil] using ht
        exact ⟨[], e, rest, hm.symm, ⟨by simp, .nil⟩, hname, (htaken []).2 hsame⟩
      | cons x mid =>
        -- no name of the batch that is in was taken
        obtain ⟨rfl, -⟩ := List.cons.inj hm
        exact absurd h (Refuses.not_admits ⟨first, e, mid, rfl, ha, hname, ht⟩)
  · rintro ⟨first, e, rest, rfl, ha, hname, ht⟩
    exact ⟨batch ++ first, e, rest, (List.append_assoc ..).symm, (h.append_iff hf).2 ha, hname,
      (htaken first).1 ht⟩

/-! ### The table and the order -/

/-- The table and the order hold the same names, the order each once, and every entry is found under
its own name. -/
structure Coherent (c : Catalog β) : Prop where
  keyed : c.Keyed
  distinct : c.order.Nodup
  listed : ∀ name, name ∈ c.order ↔ name ∈ c.table.keys

theorem list_none : c.list none = c.all := List.filter_eq_self.2 fun _ _ => rfl

namespace Coherent

theorem empty : Coherent (∅ : Catalog β) where
  keyed := Keyed.empty
  distinct := .nil
  listed _ := Iff.rfl

theorem mem_order (h : c.Coherent) : name ∈ c.order ↔ c.contains name = true :=
  (h.listed name).trans Dict.mem_keys

theorem register (h : c.Coherent) (hr : c.register e = .ok c') : c'.Coherent := by
  refine ⟨h.keyed.register hr, ?_, fun name => ?_⟩ <;> cases he : c.contains e.name with
  | true => rw [register_of_taken he] at hr; cases hr
  | false => ?_
  · rw [register_of_free he] at hr
    cases hr
    refine List.nodup_append.2 ⟨h.distinct, List.nodup_singleton _, fun x hx y hy => ?_⟩
    obtain rfl := List.mem_singleton.1 hy
    rintro rfl
    rw [h.mem_order, he] at hx
    cases hx
  · rw [Dict.mem_keys, show c'.table.contains name = c'.contains name from rfl,
      contains_register hr]
    rw [register_of_free he] at hr
    cases hr
    rw [List.mem_append, List.mem_singleton, h.mem_order, or_comm]

theorem all_register (h : c.Coherent) (hr : c.register e = .ok c') : c'.all = c.all ++ [e] := by
  cases he : c.contains e.name with
  | true => rw [register_of_taken he] at hr; cases hr
  | false =>
    rw [register_of_free he] at hr
    cases hr
    have hold : c.order.filterMap (c.table.insert e.name e).get? =
        c.order.filterMap c.table.get? := by
      refine List.filterMap_congr fun x hx => ?_
      have hne : x ≠ e.name := fun hn => by
        rw [h.mem_order, hn, he] at hx
        cases hx
      rw [Dict.get?_insert, if_neg hne]
    show (c.order ++ [e.name]).filterMap (c.table.insert e.name e).get? = _
    rw [List.filterMap_append, hold]
    simp [all]

theorem foldlM (h : c.Coherent) (hf : batch.foldlM Catalog.register c = .ok c') :
    c'.Coherent ∧ c'.all = c.all ++ batch := by
  induction batch generalizing c with
  | nil => cases hf; exact ⟨h, (List.append_nil _).symm⟩
  | cons e rest ih =>
    rw [List.foldlM_cons] at hf
    cases hr : c.register e with
    | error err => rw [hr] at hf; cases hf
    | ok c₁ =>
      rw [hr] at hf
      obtain ⟨hc, ha⟩ := ih (h.register hr) hf
      exact ⟨hc, by rw [ha, h.all_register hr, List.append_assoc]; rfl⟩

theorem names_all (h : c.Coherent) : c.all.map Entry.name = c.order := by
  have hfound : ∀ name ∈ c.order, ∃ e, c.table.get? name = some e ∧ e.name = name := by
    intro name hn
    rw [h.mem_order, contains, Dict.contains, Option.isSome_iff_exists] at hn
    obtain ⟨e, he⟩ := hn
    exact ⟨e, he, h.keyed name e he⟩
  rw [all]
  generalize c.order = names at hfound
  induction names with
  | nil => rfl
  | cons name rest ih =>
    obtain ⟨e, he, hn⟩ := hfound name List.mem_cons_self
    rw [List.filterMap_cons_some he, List.map_cons, hn,
      ih fun x hx => hfound x (List.mem_cons_of_mem _ hx)]

theorem length_all (h : c.Coherent) : c.all.length = c.size := by
  have hp : c.order.Perm c.table.keys :=
    (List.perm_ext_iff_of_nodup h.distinct c.table.nodup_keys).2 h.listed
  calc c.all.length = c.order.length := by rw [← h.names_all, List.length_map]
    _ = c.table.keys.length := hp.length_eq
    _ = c.size := List.length_map ..

theorem lookup_iff (h : c.Coherent) : (∃ e, c.lookup name = .ok e) ↔ name ∈ c.order := by
  rw [h.mem_order, contains, Dict.contains, Option.isSome_iff_exists]
  exact exists_congr fun e => lookup_eq_ok

theorem mem_all (h : c.Coherent) : e ∈ c.all ↔ c.lookup e.name = .ok e := by
  rw [lookup_eq_ok]
  constructor
  · intro he
    obtain ⟨name, -, hname⟩ := List.mem_filterMap.1 he
    rwa [h.keyed name e hname]
  · intro he
    exact List.mem_filterMap.2 ⟨e.name, h.lookup_iff.1 ⟨e, lookup_eq_ok.2 he⟩, he⟩

end Coherent

/-! ### Registration in place -/

/-- Adds entries one after the other and stops at the first that is refused; those before it
stay. -/
def insertEach (c : Catalog β) : List (Entry β) → Catalog β × Except CatalogError Unit
  | [] => (c, .ok ())
  | e :: rest =>
    match c.register e with
    | .ok c' => c'.insertEach rest
    | .error err => (c, .error err)

/-- A registration: of one tool, or of a batch. -/
inductive Op (β : Type)
  | register (e : Entry β)
  | registerAll (batch : List (Entry β))

namespace Op

def entries : Op β → List (Entry β)
  | register e => [e]
  | registerAll batch => batch

/-- What a registration leaves of the catalog, and how many entries it says it added. -/
def apply (c : Catalog β) : Op β → Catalog β × Except CatalogError Nat
  | register e =>
    match c.register e with
    | .ok c' => (c', .ok 1)
    | .error err => (c, .error err)
  | registerAll batch =>
    match c.firstTaken? ∅ batch with
    | some name => (c, .error (.duplicateName name))
    | none =>
      let (c', result) := c.insertEach batch
      (c', result.map fun _ => batch.length)

theorem insertEach_of_foldlM (h : batch.foldlM Catalog.register c = .ok c') :
    c.insertEach batch = (c', .ok ()) := by
  induction batch generalizing c with
  | nil => cases h; rfl
  | cons e rest ih =>
    rw [List.foldlM_cons] at h
    cases hr : c.register e with
    | error err => rw [hr] at h; cases h
    | ok c₁ =>
      rw [hr] at h
      rw [insertEach, hr]
      exact ih h

/-- In place a batch is registered all or not at all. -/
theorem apply_registerAll (c : Catalog β) (batch : List (Entry β)) : (registerAll batch).apply c =
    match c.registerAll batch with
    | .ok (c', n) => (c', .ok n)
    | .error err => (c, .error err) := by
  cases ht : c.firstTaken? ∅ batch with
  | some name => simp only [apply, Catalog.registerAll, ht]
  | none =>
    obtain ⟨c', hr, hf⟩ := registerAll_of_admits (firstTaken?_eq_none.1 ht).1
    simp only [apply, ht, hr, insertEach_of_foldlM hf, Except.map]

theorem apply_cases (c : Catalog β) (op : Op β) :
    (∃ c' n, op.apply c = (c', .ok n) ∧ op.entries.foldlM Catalog.register c = .ok c') ∨
    ∃ err, op.apply c = (c, .error err) := by
  cases op with
  | register e =>
    cases hr : c.register e with
    | ok c' => exact .inl ⟨c', 1, by simp only [apply, hr], by simp [entries, hr]⟩
    | error err => exact .inr ⟨err, by simp only [apply, hr]⟩
  | registerAll batch =>
    rw [apply_registerAll]
    cases hr : c.registerAll batch with
    | ok p => exact .inl ⟨p.1, p.2, rfl, (admits_of_registerAll hr).2.1⟩
    | error err => exact .inr ⟨err, rfl⟩

end Op

/-- The catalog after registrations. -/
def run (c : Catalog β) : List (Op β) → Catalog β
  | [] => c
  | op :: rest => run (op.apply c).1 rest

/-- The entries of the registrations that succeed, in order. -/
def accepted (c : Catalog β) : List (Op β) → List (Entry β)
  | [] => []
  | op :: rest =>
    let (c', result) := op.apply c
    (if result.isOk then op.entries else []) ++ accepted c' rest

theorem run_append (c : Catalog β) (ops more : List (Op β)) :
    c.run (ops ++ more) = (c.run ops).run more := by
  induction ops generalizing c with
  | nil => rfl
  | cons op rest ih => exact ih _

theorem Coherent.run (h : c.Coherent) (ops : List (Op β)) :
    (c.run ops).Coherent ∧ (c.run ops).all = c.all ++ accepted c ops := by
  induction ops generalizing c with
  | nil => exact ⟨h, (List.append_nil _).symm⟩
  | cons op rest ih =>
    rcases op.apply_cases c with ⟨c', n, ha, hf⟩ | ⟨err, ha⟩
    · obtain ⟨hc, hall⟩ := h.foldlM hf
      obtain ⟨hr, hra⟩ := ih hc
      simp only [Catalog.run, accepted, ha]
      exact ⟨hr, by rw [hra, hall, List.append_assoc]; rfl⟩
    · simp only [Catalog.run, accepted, ha]
      exact ih h

theorem lookup_run (ops : List (Op β)) (h : c.lookup name = .ok e) :
    (c.run ops).lookup name = .ok e := by
  induction ops generalizing c with
  | nil => exact h
  | cons op rest ih =>
    refine ih ?_
    rcases op.apply_cases c with ⟨c', n, ha, hf⟩ | ⟨err, ha⟩
    · rw [ha]
      exact (Adds.foldlM hf).kept name e h
    · rwa [ha]

/-- After any registrations the table and the order agree, and the listing holds what was accepted,
in order. Each registration leaves found what was found, and changes nothing if it fails. -/
theorem upkeep (ops : List (Op β)) :
    let c := run ∅ ops
    c.order.Nodup ∧ (∀ name, name ∈ c.order ↔ name ∈ c.table.keys) ∧
    (∀ name e, c.table.get? name = some e → e.name = name) ∧
    (∀ name, (∃ e, c.lookup name = .ok e) ↔ name ∈ c.order) ∧
    (c.list none).length = c.size ∧ (c.list none).map Entry.name = c.order ∧
    c.list none = accepted ∅ ops ∧
    ∀ before op after, ops = before ++ op :: after →
      (∀ name e, (run ∅ before).lookup name = .ok e → c.lookup name = .ok e) ∧
      (∀ err, (op.apply (run ∅ before)).2 = .error err →
        (op.apply (run ∅ before)).1 = run ∅ before) := by
  intro c
  obtain ⟨hc, hall⟩ := Coherent.empty.run ops
  refine ⟨hc.distinct, hc.listed, hc.keyed, fun _ => hc.lookup_iff, ?_, ?_, ?_, ?_⟩
  · rw [list_none]
    exact hc.length_all
  · rw [list_none]
    exact hc.names_all
  · rw [list_none]
    exact hall
  · rintro before op after rfl
    refine ⟨fun name e h => ?_, fun err h => ?_⟩
    · show (run ∅ (before ++ op :: after)).lookup name = _
      rw [run_append]
      exact lookup_run _ h
    · rcases op.apply_cases (run ∅ before) with ⟨c', n, ha, -⟩ | ⟨err', ha⟩
      · rw [ha] at h
        cases h
      · rw [ha]

/-- Tools that are registered one after the other. -/
def shellTool (name : String) : Entry Unit := .ofTool ⟨name, "", .null, .own ()⟩

/-- A batch in which only the second name is taken leaves the catalog as it was. -/
theorem upkeep_shellTools :
    let first : Op Unit := .register (shellTool "rm")
    let second := .registerAll [shellTool "ls", shellTool "rm"]
    (run ∅ [first, second]).lookup "rm" = .ok (shellTool "rm") ∧
      (second.apply (run ∅ [first])).2 = .error (.duplicateName "rm") ∧
      (second.apply (run ∅ [first])).1 = run ∅ [first] := by
  intro first second
  obtain ⟨-, -, -, -, -, -, -, hstep⟩ := upkeep [first, second]
  obtain ⟨hkept, hfail⟩ := hstep [first] second [] rfl
  exact ⟨hkept "rm" (shellTool "rm") rfl, rfl, hfail (.duplicateName "rm") rfl⟩

end Catalog

end GatedCalls
