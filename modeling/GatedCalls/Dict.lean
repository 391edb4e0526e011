/-!
# Finite maps and sets of names

`Dict α` is a finite map from names: its entries stand in increasing order of the names, each name
once. Names are compared code point by code point, which is also the order of their UTF-8 bytes.
Since the order is part of the type, two maps that answer every look-up alike are equal
(`Dict.ext_get?`). `NameSet` is the same for a set of names.
-/

namespace GatedCalls

/-- A finite map from names to `α`. -/
structure Dict (α : Type) where
  entries : List (String × α)
  sorted : (entries.map Prod.fst).Pairwise (· < ·)
deriving DecidableEq

namespace Dict

variable {α β : Type}

/-- Puts `v` at `k`; a value that stood there is replaced. -/
def put (k : String) (v : α) : List (String × α) → List (String × α)
  | [] => [(k, v)]
  | (k', v') :: rest =>
    if k < k' then (k, v) :: (k', v') :: rest
    else if k = k' then (k, v) :: rest
    else (k', v') :: put k v rest

theorem mem_keys_put {k x : String} {v : α} {l : List (String × α)} :
    x ∈ (put k v l).map Prod.fst ↔ x = k ∨ x ∈ l.map Prod.fst := by
  induction l with
  | nil => simp [put]
  | cons e rest ih =>
    obtain ⟨k', v'⟩ := e
    simp only [put]
    split
    · simp
    · split
      · simp_all
      · simp only [List.map_cons, List.mem_cons, ih]
        exact or_left_comm

theorem sorted_put (k : String) (v : α) {l : List (String × α)}
    (h : (l.map Prod.fst).Pairwise (· < ·)) : ((put k v l).map Prod.fst).Pairwise (· < ·) := by
  induction l with
  | nil => simp [put]
  | cons e rest ih =>
    obtain ⟨k', v'⟩ := e
    rw [List.map_cons, List.pairwise_cons] at h
    simp only [put]
    split
    · rename_i hk
      simp only [List.map_cons, List.pairwise_cons, List.mem_cons, forall_eq_or_imp]
      exact ⟨⟨hk, fun x hx => String.lt_trans hk (h.1 x hx)⟩, h⟩
    · split
      · rename_i hk
        subst hk
        simpa [List.pairwise_cons] using h
      · rename_i hlt hne
        rw [List.map_cons, List.pairwise_cons]
        refine ⟨fun x hx => ?_, ih h.2⟩
        rcases mem_keys_put.1 hx with rfl | hx
        · rcases Std.le_iff_lt_or_eq.1 (String.not_lt.1 hlt) with hl | he
          · exact hl
          · exact absurd he.symm hne
        · exact h.1 x hx

def empty : Dict α := ⟨[], .nil⟩

instance : EmptyCollection (Dict α) := ⟨empty⟩
instance : Inhabited (Dict α) := ⟨empty⟩

def insert (d : Dict α) (k : String) (v : α) : Dict α :=
  ⟨put k v d.entries, sorted_put k v d.sorted⟩

/-- The map that holds, for each name of the list, the last value given to it. -/
def ofList (l : List (String × α)) : Dict α := l.foldl (fun d e => d.insert e.1 e.2) empty

/-- The map `d` with the entries of `l` put in one after the other. -/
def insertMany (d : Dict α) (l : List (String × α)) : Dict α :=
  l.foldl (fun d e => d.insert e.1 e.2) d

def toList (d : Dict α) : List (String × α) := d.entries

def size (d : Dict α) : Nat := d.entries.length

def isEmpty (d : Dict α) : Bool := d.entries.isEmpty

def keys (d : Dict α) : List String := d.entries.map Prod.fst

def get? (d : Dict α) (k : String) : Option α := d.entries.lookup k

def contains (d : Dict α) (k : String) : Bool := (d.get? k).isSome

theorem lookup_cons_ne {k x : String} (h : x ≠ k) (v : α) (l : List (String × α)) :
    ((k, v) :: l).lookup x = l.lookup x := by
  rw [List.lookup_cons, beq_eq_false_iff_ne.2 h]

theorem lookup_put (k x : String) (v : α) {l : List (String × α)}
    (h : (l.map Prod.fst).Pairwise (· < ·)) :
    (put k v l).lookup x = if x = k then some v else l.lookup x := by
  by_cases hx : x = k
  · subst hx
    rw [if_pos rfl]
    induction l with
    | nil => exact List.lookup_cons_self ..
    | cons e rest ih =>
      obtain ⟨k', v'⟩ := e
      simp only [put]
      split
      · exact List.lookup_cons_self ..
      · split
        · exact List.lookup_cons_self ..
        · rename_i hne
          rw [lookup_cons_ne hne, ih (List.pairwise_cons.1 h).2]
  · rw [if_neg hx]
    induction l with
    | nil => exact lookup_cons_ne hx ..
    | cons e rest ih =>
      obtain ⟨k', v'⟩ := e
      simp only [put]
      split
      · exact lookup_cons_ne hx ..
      · split
        · rename_i hk
          subst hk
          rw [lookup_cons_ne hx, lookup_cons_ne hx]
        · by_cases hk : x = k'
          · subst hk
            rw [List.lookup_cons_self, List.lookup_cons_self]
          · rw [lookup_cons_ne hk, lookup_cons_ne hk, ih (List.pairwise_cons.1 h).2]

@[simp] theorem get?_empty (x : String) : (empty : Dict α).get? x = none := rfl

theorem get?_insert (d : Dict α) (k x : String) (v : α) :
    (d.insert k v).get? x = if x = k then some v else d.get? x :=
  lookup_put k x v d.sorted

@[simp] theorem get?_insert_self (d : Dict α) (k : String) (v : α) :
    (d.insert k v).get? k = some v := by simp [get?_insert]

theorem lookup_eq_none_of_lt {k : String} {l : List (String × α)}
    (h : ∀ x ∈ l.map Prod.fst, k < x) : l.lookup k = none := by
  induction l with
  | nil => rfl
  | cons e rest ih =>
    obtain ⟨k', v'⟩ := e
    have hne : k ≠ k' := fun he => String.lt_irrefl k (by
      have := h k' (by simp)
      rwa [← he] at this)
    rw [lookup_cons_ne hne]
    exact ih fun x hx => h x (List.mem_cons_of_mem _ hx)

theorem lookup_ne_of_lt {a b : String} {u w : α} {s t : List (String × α)}
    (ht : ∀ x ∈ t.map Prod.fst, b < x) (hab : a < b) :
    ((a, u) :: s).lookup a ≠ ((b, w) :: t).lookup a := by
  have : ((b, w) :: t).lookup a = none := lookup_eq_none_of_lt fun x hx => by
    rcases List.mem_cons.1 hx with rfl | hx
    · exact hab
    · exact String.lt_trans hab (ht x hx)
  rw [List.lookup_cons_self, this]
  simp

theorem eq_of_lookup_eq {l l' : List (String × α)} (h : (l.map Prod.fst).Pairwise (· < ·))
    (h' : (l'.map Prod.fst).Pairwise (· < ·)) (heq : ∀ x, l.lookup x = l'.lookup x) : l = l' := by
  induction l generalizing l' with
  | nil =>
    cases l' with
    | nil => rfl
    | cons e r =>
      obtain ⟨k, v⟩ := e
      simpa [List.lookup_cons_self] using heq k
  | cons e rest ih =>
    obtain ⟨k, v⟩ := e
    cases l' with
    | nil => simpa [List.lookup_cons_self] using heq k
    | cons e' rest' =>
      obtain ⟨k', v'⟩ := e'
      rw [List.map_cons, List.pairwise_cons] at h h'
      have hk : k = k' := by
        apply Decidable.byContradiction
        intro hne
        by_cases hlt : k < k'
        · exact lookup_ne_of_lt h'.1 hlt (heq k)
        · rcases Std.le_iff_lt_or_eq.1 (String.not_lt.1 hlt) with hl | he
          · exact lookup_ne_of_lt h.1 hl (heq k').symm
          · exact hne he.symm
      subst hk
      have hv : v = v' := by simpa [List.lookup_cons_self] using heq k
      subst hv
      rw [ih h.2 h'.2 fun x => ?_]
      by_cases hx : x = k
      · subst hx
        rw [lookup_eq_none_of_lt h.1, lookup_eq_none_of_lt h'.1]
      · simpa [lookup_cons_ne hx] using heq x

/-- Two maps that answer every look-up alike are the same map. -/
theorem ext_get? {d d' : Dict α} (h : ∀ k, d.get? k = d'.get? k) : d = d' := by
  obtain ⟨l, hl⟩ := d
  obtain ⟨l', hl'⟩ := d'
  have : l = l' := eq_of_lookup_eq hl hl' h
  subst this
  rfl

end Dict

/-- A finite set of names; membership is equality of the whole text. -/
structure NameSet where
  names : List String
  sorted : names.Pairwise (· < ·)
deriving DecidableEq

namespace NameSet

def put (k : String) : List String → List String
  | [] => [k]
  | k' :: rest =>
    if k < k' then k :: k' :: rest else if k = k' then k' :: rest else k' :: put k rest

theorem mem_put {k x : String} {l : List String} : x ∈ put k l ↔ x = k ∨ x ∈ l := by
  induction l with
  | nil => simp [put]
  | cons k' rest ih =>
    simp only [put]
    split
    · simp
    · split
      · simp_all
      · simp only [List.mem_cons, ih]
        exact or_left_comm

theorem sorted_put (k : String) {l : List String} (h : l.Pairwise (· < ·)) :
    (put k l).Pairwise (· < ·) := by
  induction l with
  | nil => simp [put]
  | cons k' rest ih =>
    rw [List.pairwise_cons] at h
    simp only [put]
    split
    · rename_i hk
      simp only [List.pairwise_cons, List.mem_cons, forall_eq_or_imp]
      exact ⟨⟨hk, fun x hx => String.lt_trans hk (h.1 x hx)⟩, h⟩
    · split
      · exact List.pairwise_cons.2 h
      · rename_i hlt hne
        rw [List.pairwise_cons]
        refine ⟨fun x hx => ?_, ih h.2⟩
        rcases mem_put.1 hx with rfl | hx
        · rcases Std.le_iff_lt_or_eq.1 (String.not_lt.1 hlt) with hl | he
          · exact hl
          · exact absurd he.symm hne
        · exact h.1 x hx

instance : Membership String NameSet := ⟨fun s k => k ∈ s.names⟩
instance (k : String) (s : NameSet) : Decidable (k ∈ s) := inferInstanceAs (Decidable (k ∈ s.names))

def empty : NameSet := ⟨[], .nil⟩

instance : EmptyCollection NameSet := ⟨empty⟩
instance : Inhabited NameSet := ⟨empty⟩

def contains (s : NameSet) (k : String) : Bool := k ∈ s.names

def insert (s : NameSet) (k : String) : NameSet := ⟨put k s.names, sorted_put k s.sorted⟩

def ofList (l : List String) : NameSet := l.foldl insert empty

def toList (s : NameSet) : List String := s.names

def size (s : NameSet) : Nat := s.names.length

theorem mem_insert {s : NameSet} {k x : String} : x ∈ s.insert k ↔ x = k ∨ x ∈ s := mem_put

theorem contains_iff {s : NameSet} {k : String} : s.contains k = true ↔ k ∈ s := by
  simp [contains, Membership.mem]

theorem mem_foldl_insert {l : List String} {s : NameSet} {x : String} :
    x ∈ l.foldl insert s ↔ x ∈ l ∨ x ∈ s := by
  induction l generalizing s with
  | nil => simp
  | cons k rest ih =>
    rw [List.foldl_cons, ih, mem_insert, List.mem_cons]
    exact ⟨fun h => by rcases h with h | h | h <;> simp [h],
      fun h => by rcases h with (h | h) | h <;> simp [h]⟩

/-- The set of a list holds exactly the members of the list. -/
theorem mem_ofList {l : List String} {x : String} : x ∈ ofList l ↔ x ∈ l := by
  simp only [ofList, mem_foldl_insert, or_iff_left_iff_imp]
  intro h
  cases h

end NameSet

end GatedCalls
