import GatedCalls.Catalog

/-!
# Names in the catalog

`Catalog.Keyed`: what is found under a name bears that name. Registration keeps it, one entry or a
batch at a time, so the name a caller looks up is the name of the entry it gets. `Catalog.Adds` says
what a registration does to look-ups: the entries are found, and nothing else changes.
-/

namespace GatedCalls.Catalog

variable {β : Type} {c c' : Catalog β}

/-- Every entry is found under its own name. -/
def Keyed (c : Catalog β) : Prop := ∀ name e, c.table.get? name = some e → e.name = name

namespace Keyed

theorem empty : Keyed (∅ : Catalog β) := by
  intro name e h
  cases h

theorem register {e : Entry β} (h : c.Keyed) (hr : c.register e = .ok c') : c'.Keyed := by
  unfold Catalog.register at hr
  split at hr
  · cases hr
  · cases hr
    intro name x hx
    rw [Dict.get?_insert] at hx
    split at hx
    · rename_i hname
      obtain rfl := Option.some.inj hx
      exact hname.symm
    · exact h name x hx

theorem foldlM {batch : List (Entry β)} (h : c.Keyed)
    (hr : batch.foldlM Catalog.register c = .ok c') : c'.Keyed := by
  induction batch generalizing c with
  | nil => cases hr; exact h
  | cons e rest ih =>
    rw [List.foldlM_cons] at hr
    cases he : c.register e with
    | error err => rw [he] at hr; cases hr
    | ok c₁ => rw [he] at hr; exact ih (h.register he) hr

theorem registerAll {batch : List (Entry β)} {n : Nat} (h : c.Keyed)
    (hr : c.registerAll batch = .ok (c', n)) : c'.Keyed := by
  unfold Catalog.registerAll at hr
  split at hr
  · cases hr
  · cases hf : batch.foldlM Catalog.register c with
    | error err => rw [hf] at hr; cases hr
    | ok c₁ => rw [hf] at hr; cases hr; exact h.foldlM hf

theorem name_eq {name : String} {e : Entry β} (h : c.Keyed) (hl : c.lookup name = .ok e) :
    e.name = name := by
  unfold lookup at hl
  split at hl
  · rename_i hx
    cases hl
    exact h name e hx
  · cases hl

end Keyed

/-- `c'` is `c` with the entries of the batch, whose names were not taken. -/
structure Adds (c : Catalog β) (batch : List (Entry β)) (c' : Catalog β) : Prop where
  found : ∀ e ∈ batch, c'.lookup e.name = .ok e
  kept : ∀ name e, c.lookup name = .ok e → c'.lookup name = .ok e
  only : ∀ name e, c'.lookup name = .ok e → c.lookup name = .ok e ∨ e ∈ batch ∧ e.name = name
  fresh : ∀ e ∈ batch, ∀ x, c.lookup e.name ≠ .ok x

theorem lookup_eq_ok {name : String} {e : Entry β} :
    c.lookup name = .ok e ↔ c.table.get? name = some e := by
  unfold lookup
  split
  · rename_i x hx
    rw [hx]
    constructor
    · rintro ⟨⟩
      rfl
    · rintro ⟨⟩
      rfl
  · rename_i hx
    rw [hx]
    constructor <;> rintro ⟨⟩

theorem lookup_of_absent {name : String} (h : ∀ e, c.lookup name ≠ .ok e) :
    c.lookup name = .error (.notFound name) := by
  unfold lookup at h ⊢
  split
  · rename_i e hx
    exact absurd (by rw [hx]) (h e)
  · rfl

namespace Adds

variable {c₁ c₂ : Catalog β} {batch more : List (Entry β)}

theorem refl (c : Catalog β) : Adds c [] c where
  found e h := by cases h
  kept name e h := h
  only name e h := .inl h
  fresh e h := by cases h

theorem trans (h : Adds c batch c₁) (h' : Adds c₁ more c₂) : Adds c (batch ++ more) c₂ where
  found e he := by
    rcases List.mem_append.1 he with he | he
    · exact h'.kept _ _ (h.found e he)
    · exact h'.found e he
  kept name e hl := h'.kept name e (h.kept name e hl)
  only name e hl := by
    rcases h'.only name e hl with hl | ⟨he, hn⟩
    · exact (h.only name e hl).imp_right fun ⟨he, hn⟩ => ⟨List.mem_append_left _ he, hn⟩
    · exact .inr ⟨List.mem_append_right _ he, hn⟩
  fresh e he x hx := by
    rcases List.mem_append.1 he with he | he
    · exact h.fresh e he x hx
    · exact h'.fresh e he x (h.kept _ _ hx)

theorem register {e : Entry β} (hr : c.register e = .ok c') : Adds c [e] c' := by
  unfold Catalog.register at hr
  split at hr
  · cases hr
  · rename_i hc
    cases hr
    have hnone : c.table.get? e.name = none := by
      simpa [Catalog.contains, Dict.contains] using hc
    refine ⟨fun x hx => ?_, fun name x hx => ?_, fun name x hx => ?_, fun x hx y hy => ?_⟩
    · obtain rfl := List.mem_singleton.1 hx
      exact lookup_eq_ok.2 (Dict.get?_insert_self ..)
    · rw [lookup_eq_ok] at hx ⊢
      have hne : name ≠ e.name := fun hn => by rw [hn, hnone] at hx; cases hx
      simpa [Dict.get?_insert, hne] using hx
    · rw [lookup_eq_ok, Dict.get?_insert] at hx
      split at hx
      · rename_i hn
        obtain rfl := Option.some.inj hx
        exact .inr ⟨List.mem_singleton_self _, hn.symm⟩
      · exact .inl (lookup_eq_ok.2 hx)
    · obtain rfl := List.mem_singleton.1 hx
      rw [lookup_eq_ok, hnone] at hy
      cases hy

theorem foldlM (hr : batch.foldlM Catalog.register c = .ok c') : Adds c batch c' := by
  induction batch generalizing c with
  | nil => cases hr; exact refl _
  | cons e rest ih =>
    rw [List.foldlM_cons] at hr
    cases he : c.register e with
    | error err => rw [he] at hr; cases hr
    | ok c₁ => rw [he] at hr; exact (register he).trans (ih hr)

theorem registerAll {n : Nat} (hr : c.registerAll batch = .ok (c', n)) :
    Adds c batch c' ∧ n = batch.length := by
  unfold Catalog.registerAll at hr
  split at hr
  · cases hr
  · cases hf : batch.foldlM Catalog.register c with
    | error err => rw [hf] at hr; cases hr
    | ok c₁ => rw [hf] at hr; cases hr; exact ⟨foldlM hf, rfl⟩

theorem lookup_of_other {name : String} (h : Adds c batch c')
    (hother : ∀ e ∈ batch, e.name ≠ name) : c'.lookup name = c.lookup name := by
  by_cases hex : ∃ e, c.lookup name = .ok e
  · obtain ⟨e, he⟩ := hex
    rw [he, h.kept name e he]
  · have hnone (e : Entry β) : c.lookup name ≠ .ok e := fun he => hex ⟨e, he⟩
    rw [lookup_of_absent hnone]
    refine lookup_of_absent fun e he => ?_
    rcases h.only name e he with hold | ⟨hmem, hname⟩
    · exact hnone e hold
    · exact hother e hmem hname

end Adds

end GatedCalls.Catalog
