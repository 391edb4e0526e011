import GatedCalls.Proofs.Catalog.Upkeep

/-!
# A batch against its entries one by one

A batch is checked first, against the catalog as it is and the names that the batch had before, and
only then are its entries added. `insertEach` adds them as they come, each to the catalog that the
ones before have made. The set of names that were seen stands for that catalog: once `before` is in,
the catalog admits what it admitted behind `before` (`Admits.append_iff`), so the check stops at an
entry just if the entry would be refused there (`caught_iff_refused`), and what the check lets pass
is never refused (`Admits.register`).
-/

namespace GatedCalls.Catalog

variable {β : Type} {c c' : Catalog β} {e : Entry β} {batch before more : List (Entry β)}
  {err : CatalogError} {n : Nat}

/-! ### One by one -/

theorem insertEach_eq_ok :
    c.insertEach batch = (c', .ok ()) ↔ batch.foldlM Catalog.register c = .ok c' := by
  induction batch generalizing c with
  | nil => simp [insertEach, pure, Except.pure]
  | cons e rest ih =>
    rw [insertEach, List.foldlM_cons]
    cases c.register e with
    | ok c₁ => exact ih
    | error err => simp [bind, Except.bind]

theorem insertEach_append (h : c.insertEach before = (c', .ok ())) :
    c.insertEach (before ++ more) = c'.insertEach more := by
  induction before generalizing c with
  | nil =>
    obtain rfl : c = c' := congrArg Prod.fst h
    rfl
  | cons e rest ih =>
    rw [insertEach] at h
    rw [List.cons_append, insertEach]
    cases hr : c.register e with
    | ok c₁ =>
      rw [hr] at h
      exact ih h
    | error err =>
      rw [hr] at h
      cases congrArg Prod.snd h

theorem register_eq_error :
    c.register e = .error err ↔ c.contains e.name = true ∧ err = .duplicateName e.name := by
  cases he : c.contains e.name with
  | true => simp [register_of_taken he, eq_comm]
  | false => simp [register_of_free he]

/-- The entries before are added one by one, and then this one is refused. -/
def Refused (c : Catalog β) (before : List (Entry β)) (e : Entry β) : Prop :=
  ∃ c', c.insertEach before = (c', .ok ()) ∧ c'.register e = .error (.duplicateName e.name)

theorem insertEach_eq_error : (c.insertEach batch).2 = .error err ↔
    ∃ before e after, batch = before ++ e :: after ∧ err = .duplicateName e.name ∧
      c.Refused before e := by
  constructor
  · intro h
    induction batch generalizing c with
    | nil => cases h
    | cons e rest ih =>
      rw [insertEach] at h
      cases hr : c.register e with
      | ok c₁ =>
        rw [hr] at h
        obtain ⟨before, x, after, rfl, hx, c₂, hb, hrefused⟩ := ih h
        exact ⟨e :: before, x, after, rfl, hx, c₂, by rw [insertEach, hr]; exact hb, hrefused⟩
      | error err' =>
        rw [hr] at h
        cases h
        obtain ⟨-, rfl⟩ := register_eq_error.1 hr
        exact ⟨[], e, rest, rfl, rfl, c, rfl, hr⟩
  · rintro ⟨before, e, after, rfl, rfl, c', hb, hrefused⟩
    rw [insertEach_append hb, insertEach, hrefused]

/-! ### The check -/

/-- The check of a batch passes over the entries before and stops at this one. -/
def Caught (c : Catalog β) (before : List (Entry β)) (e : Entry β) : Prop :=
  c.firstTaken? ∅ before = none ∧ c.firstTaken? ∅ (before ++ [e]) = some e.name

theorem firstTaken?_empty_eq_none : c.firstTaken? ∅ batch = none ↔ c.Admits batch :=
  firstTaken?_eq_none.trans (and_iff_left fun _ _ hm => by cases hm)

theorem Admits.insertEach (h : c.Admits batch) : ∃ c', c.insertEach batch = (c', .ok ()) :=
  h.foldlM.imp fun _ => insertEach_eq_ok.2

theorem Admits.refused (h : c.Admits before)
    (ht : c.contains e.name = true ∨ e.name ∈ before.map Entry.name) : c.Refused before e := by
  obtain ⟨c', hb⟩ := h.insertEach
  exact ⟨c', hb, register_of_taken ((contains_foldlM (insertEach_eq_ok.1 hb)).2 ht.symm)⟩

theorem Refuses.insertEach {name : String} (h : c.Refuses batch name) :
    (c.insertEach batch).2 = .error (.duplicateName name) := by
  obtain ⟨before, e, after, hsplit, ha, rfl, ht⟩ := h
  exact insertEach_eq_error.2 ⟨before, e, after, hsplit, rfl, ha.refused ht⟩

theorem admits_iff_insertEach : c.Admits batch ↔ ∃ c', c.insertEach batch = (c', .ok ()) := by
  refine ⟨Admits.insertEach, fun ⟨c', h⟩ => ?_⟩
  cases ht : c.firstTaken? ∅ batch with
  | none => exact firstTaken?_empty_eq_none.1 ht
  | some name =>
    have hfail := (firstTaken?_empty_eq_some.1 ht).insertEach
    rw [h] at hfail
    cases hfail

theorem refused_iff : c.Refused before e ↔
    c.Admits before ∧ (c.contains e.name = true ∨ e.name ∈ before.map Entry.name) := by
  refine ⟨fun ⟨c', hb, hrefused⟩ => ⟨admits_iff_insertEach.2 ⟨c', hb⟩, ?_⟩,
    fun ⟨ha, ht⟩ => ha.refused ht⟩
  have ht : c'.contains e.name = true := (register_eq_error.1 hrefused).1
  exact ((contains_foldlM (insertEach_eq_ok.1 hb)).1 ht).symm

/-- The check stops where the entries, one by one, would be stopped. -/
theorem caught_iff_refused : c.Caught before e ↔ c.Refused before e := by
  rw [Caught, firstTaken?_empty_eq_none]
  constructor
  · rintro ⟨ha, hstop⟩
    obtain ⟨c', hb⟩ := ha.insertEach
    refine ⟨c', hb, ?_⟩
    cases hr : c'.register e with
    | ok c₂ =>
      have hall : c.insertEach (before ++ [e]) = (c₂, .ok ()) := by
        rw [insertEach_append hb, Catalog.insertEach, hr]
        rfl
      rw [firstTaken?_empty_eq_none.2 (admits_iff_insertEach.2 ⟨c₂, hall⟩)] at hstop
      cases hstop
    | error err => rw [(register_eq_error.1 hr).2]
  · intro hrefused
    obtain ⟨ha, ht⟩ := refused_iff.1 hrefused
    exact ⟨ha, firstTaken?_empty_eq_some.2 ⟨before, e, [], rfl, ha, rfl, ht⟩⟩

theorem Admits.register {after : List (Entry β)} (h : c.Admits (before ++ e :: after)) :
    ∃ c₁ c₂, c.insertEach before = (c₁, .ok ()) ∧ c₁.register e = .ok c₂ := by
  obtain ⟨c₁, hb⟩ := h.left.insertEach
  obtain ⟨c', hall⟩ := h.insertEach
  rw [insertEach_append hb, Catalog.insertEach] at hall
  cases hr : c₁.register e with
  | ok c₂ => exact ⟨c₁, c₂, hb, hr⟩
  | error err =>
    rw [hr] at hall
    cases congrArg Prod.snd hall

/-! ### Both -/

theorem registerAll_eq_ok : c.registerAll batch = .ok (c', n) ↔
    c.insertEach batch = (c', .ok ()) ∧ n = batch.length := by
  rw [insertEach_eq_ok]
  constructor
  · exact fun h => (admits_of_registerAll h).2
  · rintro ⟨hf, rfl⟩
    have ha : c.Admits batch := admits_iff_insertEach.2 ⟨c', insertEach_eq_ok.2 hf⟩
    obtain ⟨c₁, hr, hf₁⟩ := registerAll_of_admits ha
    obtain rfl : c' = c₁ := Except.ok.inj (hf.symm.trans hf₁)
    exact hr

theorem registerAll_eq_error_iff :
    c.registerAll batch = .error err ↔ (c.insertEach batch).2 = .error err := by
  rw [registerAll_eq_error, insertEach_eq_error]
  constructor
  · rintro ⟨name, ⟨before, e, after, hsplit, ha, rfl, ht⟩, rfl⟩
    exact ⟨before, e, after, hsplit, rfl, ha.refused ht⟩
  · rintro ⟨before, e, after, hsplit, rfl, hrefused⟩
    obtain ⟨ha, ht⟩ := refused_iff.1 hrefused
    exact ⟨e.name, ⟨before, e, after, hsplit, ha, rfl, ht⟩, rfl⟩

/-- A batch goes in just if its entries go in one by one, and makes the same catalog of it. If not,
the catalog stays as it was, and the error is that of the entry which would be refused first. No
entry is refused once the check has let the batch pass. -/
theorem batch_refinement (c : Catalog β) (batch : List (Entry β)) :
    (∀ c' n, c.registerAll batch = .ok (c', n) ↔
      c.insertEach batch = (c', .ok ()) ∧ n = batch.length) ∧
    (∀ err, c.registerAll batch = .error err ↔ (c.insertEach batch).2 = .error err) ∧
    (∀ err, c.registerAll batch = .error err →
      (Op.registerAll batch).apply c = (c, .error err) ∧
      ∃ before e after, batch = before ++ e :: after ∧ err = .duplicateName e.name ∧
        c.Caught before e ∧ c.Refused before e) ∧
    ∀ before e after, batch = before ++ e :: after →
      (c.Caught before e ↔ c.Refused before e) ∧
      (c.firstTaken? ∅ batch = none →
        ∃ c₁ c₂, c.insertEach before = (c₁, .ok ()) ∧ c₁.register e = .ok c₂) := by
  refine ⟨fun _ _ => registerAll_eq_ok, fun _ => registerAll_eq_error_iff,
    fun err h => ⟨?_, ?_⟩, ?_⟩
  · rw [Op.apply_registerAll, h]
  · obtain ⟨before, e, after, hsplit, herr, hrefused⟩ :=
      insertEach_eq_error.1 (registerAll_eq_error_iff.1 h)
    exact ⟨before, e, after, hsplit, herr, caught_iff_refused.2 hrefused, hrefused⟩
  · rintro before e after rfl
    exact ⟨caught_iff_refused, fun hpass => (firstTaken?_empty_eq_none.1 hpass).register⟩

/-- The catalog has `rm`: a batch with `ls` twice stops at the second, which only the batch itself
has, and leaves nothing behind; without the second `ls` all of it goes in. -/
theorem batch_refinement_repeatedName :
    let c := run ∅ [.register (shellTool "rm")]
    let batch := [shellTool "ls", shellTool "ls", shellTool "rm"]
    (Op.registerAll batch).apply c = (c, .error (.duplicateName "ls")) ∧
      c.Refused [shellTool "ls"] (shellTool "ls") ∧
      ∃ c', c.registerAll [shellTool "ls", shellTool "cp"] = .ok (c', 2) ∧
        ∃ c₁ c₂, c.insertEach [shellTool "ls"] = (c₁, .ok ()) ∧
          c₁.register (shellTool "cp") = .ok c₂ := by
  intro c batch
  obtain ⟨-, -, hfail, hat⟩ := batch_refinement c batch
  obtain ⟨hok, -, -, hpass⟩ := batch_refinement c [shellTool "ls", shellTool "cp"]
  refine ⟨(hfail (.duplicateName "ls") rfl).1, ?_, _, (hok _ 2).2 ⟨rfl, rfl⟩, ?_⟩
  · exact (hat [shellTool "ls"] (shellTool "ls") [shellTool "rm"] rfl).1.1 ⟨rfl, rfl⟩
  · exact (hpass [shellTool "ls"] (shellTool "cp") [] rfl).2 rfl

end GatedCalls.Catalog
