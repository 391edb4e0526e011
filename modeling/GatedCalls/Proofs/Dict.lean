import Mathlib.Data.List.Nodup
import Mathlib.Data.List.Sort
import GatedCalls.Dict

/-!
# Maps and sets that are made of lists

A set is its names, and a map that is made of a list holds the last value that the list has for each
name (`Dict.get?_ofList_iff`). So the order of the list is nothing to a set, and to a map only where
a name is repeated.
-/

namespace GatedCalls

namespace NameSet

instance : HasSubset NameSet := ⟨fun s t => ∀ x ∈ s, x ∈ t⟩

instance : Union NameSet := ⟨fun s t => t.names.foldl insert s⟩

variable {s t : NameSet} {x : String}

theorem mem_union : x ∈ s ∪ t ↔ x ∈ s ∨ x ∈ t := by
  show x ∈ t.names.foldl insert s ↔ _
  rw [mem_foldl_insert]
  exact or_comm

theorem ext (h : ∀ x, x ∈ s ↔ x ∈ t) : s = t := by
  have hnames : s.names = t.names := s.sorted.eq_of_mem_iff t.sorted h
  cases s
  cases t
  cases hnames
  rfl

end NameSet

/-! ### The last value of a name -/

/-- The last value that a list has for a name. -/
def Last {α : Type} (l : List (String × α)) (name : String) (a : α) : Prop :=
  ∃ before after, l = before ++ (name, a) :: after ∧ name ∉ after.map Prod.fst

section Last

variable {α : Type} {l : List (String × α)} {name : String} {a : α}

theorem not_mem_keys_iff : name ∉ l.map Prod.fst ↔ ∀ e ∈ l, (name != e.1) = true := by
  simp only [List.mem_map, not_exists, not_and, bne_iff_ne, ne_eq, eq_comm (a := name)]

theorem lookup_reverse_iff : l.reverse.lookup name = some a ↔ Last l name a := by
  rw [List.lookup_eq_some_iff]
  constructor
  · rintro ⟨after, before, hl, hne⟩
    refine ⟨before.reverse, after.reverse, ?_,
      not_mem_keys_iff.2 fun e he => hne e (by simpa using he)⟩
    rw [← List.reverse_reverse l, hl, List.reverse_append, List.reverse_cons, List.append_assoc]
    rfl
  · rintro ⟨before, after, rfl, hne⟩
    refine ⟨after.reverse, before.reverse, by simp, fun e he => ?_⟩
    exact not_mem_keys_iff.1 hne e (List.mem_reverse.1 he)

theorem Last.mem (h : Last l name a) : (name, a) ∈ l := by
  obtain ⟨before, after, rfl, -⟩ := h
  simp

theorem exists_last (h : name ∈ l.map Prod.fst) : ∃ a, Last l name a := by
  obtain ⟨e, he, rfl⟩ := List.mem_map.1 h
  have hsome : (l.reverse.lookup e.1).isSome :=
    List.lookup_isSome_iff.2 ⟨e, by simpa using he, by simp⟩
  obtain ⟨a, ha⟩ := Option.isSome_iff_exists.1 hsome
  exact ⟨a, lookup_reverse_iff.1 ha⟩

theorem lookup_iff_mem (h : (l.map Prod.fst).Nodup) : l.lookup name = some a ↔ (name, a) ∈ l := by
  rw [List.lookup_eq_some_iff]
  constructor
  · rintro ⟨before, after, rfl, -⟩
    simp
  · intro hm
    obtain ⟨before, after, rfl⟩ := List.append_of_mem hm
    refine ⟨before, after, rfl, not_mem_keys_iff.1 fun hb => ?_⟩
    rw [List.map_append, List.map_cons, List.nodup_middle, List.nodup_cons] at h
    exact h.1 (List.mem_append_left _ hb)

theorem last_iff_mem (h : (l.map Prod.fst).Nodup) : Last l name a ↔ (name, a) ∈ l := by
  rw [← lookup_reverse_iff, lookup_iff_mem, List.mem_reverse]
  rwa [List.map_reverse, List.nodup_reverse]

theorem Dict.get?_foldl_insert (d : Dict α) :
    (l.foldl (fun d e => d.insert e.1 e.2) d).get? name =
      (l.reverse.lookup name).or (d.get? name) := by
  induction l generalizing d with
  | nil => rfl
  | cons e l ih =>
    rw [List.foldl_cons, ih, List.reverse_cons, List.lookup_append, Dict.get?_insert,
      Option.or_assoc, List.lookup_cons]
    by_cases h : name = e.1
    · rw [if_pos h, h, beq_self_eq_true]
      rfl
    · rw [if_neg h, beq_eq_false_iff_ne.2 h]
      rfl

/-- A map that is made of a list has the last value of each name. -/
theorem Dict.get?_ofList_iff : (Dict.ofList l).get? name = some a ↔ Last l name a := by
  rw [Dict.ofList, Dict.get?_foldl_insert, ← lookup_reverse_iff, Dict.get?_empty, Option.or_none]

theorem Dict.keys_nodup (d : Dict α) : (d.toList.map Prod.fst).Nodup := by
  refine d.sorted.imp fun h he => ?_
  rw [he] at h
  exact String.lt_irrefl _ h

theorem Dict.mem_ofList_iff : (name, a) ∈ (Dict.ofList l).toList ↔ Last l name a :=
  (lookup_iff_mem (Dict.ofList l).keys_nodup).symm.trans Dict.get?_ofList_iff

theorem Dict.mem_keys_ofList_iff :
    name ∈ (Dict.ofList l).toList.map Prod.fst ↔ name ∈ l.map Prod.fst := by
  constructor
  · intro h
    obtain ⟨e, he, rfl⟩ := List.mem_map.1 h
    exact List.mem_map_of_mem (Dict.mem_ofList_iff.1 he).mem
  · intro h
    obtain ⟨a, ha⟩ := exists_last h
    exact List.mem_map_of_mem (f := Prod.fst) (Dict.mem_ofList_iff.2 ha)

end Last

end GatedCalls
