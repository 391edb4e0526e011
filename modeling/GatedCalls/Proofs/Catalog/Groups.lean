import GatedCalls.Proofs.Catalog.Upkeep
import Mathlib.Data.List.Basic

/-!
# Groups partition the listing

The groups come from a pass over the listing that puts down each group it has not met (`note`), the
listing of one group from a filter of the same entries. `Gathers` is what the pass keeps: it has the
groups of the entries it went over, and one group stands before another just if its first entry
does. So no group is there twice, and each entry is in the listing of exactly one of them
(`fibers_perm`). That the listing has all that was registered is `Coherent`.
-/

namespace GatedCalls.Catalog

variable {β : Type} {c : Catalog β} {e : Entry β} {es more : List (Entry β)}
  {groups : List String} {g g' : String}

/-! ### The pass over the listing -/

/-- Puts down the group of an entry unless it is there. -/
def note (groups : List String) (e : Entry β) : List String :=
  if groups.contains e.group then groups else groups ++ [e.group]

/-- The place of the first entry of a group. -/
def firstOf (es : List (Entry β)) (g : String) : Nat := (es.map Entry.group).idxOf g

theorem firstOf_append (hg : g ∈ es.map Entry.group) : firstOf (es ++ more) g = firstOf es g := by
  rw [firstOf, List.map_append, List.idxOf_append_of_mem hg]
  rfl

theorem firstOf_lt (hg : g ∈ es.map Entry.group) : firstOf es g < es.length := by
  have hlt := List.idxOf_lt_length_of_mem hg
  rwa [List.length_map] at hlt

theorem length_le_firstOf (hg : g ∉ es.map Entry.group) :
    es.length ≤ firstOf (es ++ more) g := by
  rw [firstOf, List.map_append, List.idxOf_append_of_notMem hg, List.length_map]
  exact Nat.le_add_right ..

/-- The groups of the entries, in the order of their first entries. -/
structure Gathers (es : List (Entry β)) (groups : List String) : Prop where
  mem : ∀ g, g ∈ groups ↔ g ∈ es.map Entry.group
  ordered : groups.Pairwise fun g g' => firstOf es g < firstOf es g'

namespace Gathers

theorem nil : Gathers ([] : List (Entry β)) [] := ⟨fun _ => Iff.rfl, .nil⟩

theorem nodup (h : Gathers es groups) : groups.Nodup := by
  refine h.ordered.imp ?_
  rintro g _ hlt rfl
  exact Nat.lt_irrefl _ hlt

theorem ordered_append (h : Gathers es groups) (more : List (Entry β)) :
    groups.Pairwise fun g g' => firstOf (es ++ more) g < firstOf (es ++ more) g' := by
  refine h.ordered.imp_of_mem ?_
  intro g g' hg hg' hlt
  rwa [firstOf_append ((h.mem g).1 hg), firstOf_append ((h.mem g').1 hg')]

theorem note (h : Gathers es groups) (e : Entry β) : Gathers (es ++ [e]) (note groups e) := by
  have hmem (g : String) : g ∈ (es ++ [e]).map Entry.group ↔ g ∈ groups ∨ g = e.group := by
    rw [List.map_append, List.mem_append, h.mem, List.map_singleton, List.mem_singleton]
  by_cases hold : e.group ∈ groups
  · rw [Catalog.note, if_pos (List.contains_iff_mem.2 hold)]
    refine ⟨fun g => ?_, h.ordered_append [e]⟩
    rw [hmem, or_iff_left_of_imp]
    rintro rfl
    exact hold
  · rw [Catalog.note, if_neg fun hc => hold (List.contains_iff_mem.1 hc)]
    refine ⟨fun g => by rw [hmem, List.mem_append, List.mem_singleton], ?_⟩
    refine List.pairwise_append.2 ⟨h.ordered_append [e], List.pairwise_singleton .., ?_⟩
    intro g hg g' hg'
    obtain rfl := List.mem_singleton.1 hg'
    calc firstOf (es ++ [e]) g = firstOf es g := firstOf_append ((h.mem g).1 hg)
      _ < es.length := firstOf_lt ((h.mem g).1 hg)
      _ ≤ firstOf (es ++ [e]) e.group := length_le_firstOf fun hm => hold ((h.mem _).2 hm)

theorem foldl (h : Gathers es groups) (more : List (Entry β)) :
    Gathers (es ++ more) (more.foldl Catalog.note groups) := by
  induction more generalizing es groups with
  | nil => rwa [List.append_nil]
  | cons e more ih =>
    rw [List.foldl_cons, List.append_cons]
    exact ih (h.note e)

end Gathers

theorem groups_eq (c : Catalog β) : c.groups = c.all.foldl note [] := by
  rw [← list_none]
  rfl

theorem gathers_groups (c : Catalog β) : Gathers c.all c.groups := by
  rw [groups_eq]
  exact Gathers.nil.foldl c.all

theorem prefix_foldl_note (groups : List String) (es : List (Entry β)) :
    groups <+: es.foldl note groups := by
  induction es generalizing groups with
  | nil => exact List.prefix_rfl
  | cons e es ih =>
    refine List.IsPrefix.trans ?_ (ih _)
    rw [note]
    split
    · exact List.prefix_rfl
    · exact List.prefix_append ..

/-- What registrations add to the groups stands behind those that were there. -/
theorem Coherent.groups_prefix (h : c.Coherent) (ops : List (Op β)) :
    c.groups <+: (c.run ops).groups := by
  rw [groups_eq, groups_eq, (h.run ops).2, List.foldl_append]
  exact prefix_foldl_note ..

/-! ### The listings of the groups -/

theorem list_some (c : Catalog β) (g : String) :
    c.list (some g) = c.all.filter (·.group == g) := rfl

theorem list_eq_nil_iff : c.list (some g) = [] ↔ g ∉ c.groups := by
  rw [list_some, List.filter_eq_nil_iff, (gathers_groups c).mem, List.mem_map, not_exists]
  refine forall_congr' fun e => ?_
  rw [not_and, beq_iff_eq]

theorem filter_filter_group (hne : g' ≠ g) :
    (es.filter fun e => !(e.group == g)).filter (·.group == g') = es.filter (·.group == g') := by
  rw [List.filter_filter]
  refine List.filter_congr fun e _ => ?_
  by_cases he : e.group = g'
  · rw [he, beq_eq_false_iff_ne.2 hne, Bool.not_false, Bool.and_true]
  · rw [beq_eq_false_iff_ne.2 he, Bool.false_and]

/-- Group by group the entries are all there, each once. -/
theorem fibers_perm (hd : groups.Nodup) (hcover : ∀ e ∈ es, e.group ∈ groups) :
    (groups.flatMap fun g => es.filter (·.group == g)).Perm es := by
  induction groups generalizing es with
  | nil =>
    obtain rfl := List.eq_nil_iff_forall_not_mem.2 fun e he => List.not_mem_nil (hcover e he)
    exact .nil
  | cons g rest ih =>
    obtain ⟨hg, hrest⟩ := List.nodup_cons.1 hd
    -- the other groups share out what is left without the entries of the first
    have hleft : ∀ e ∈ es.filter (fun e => !(e.group == g)), e.group ∈ rest := by
      intro e he
      obtain ⟨hmem, hne⟩ := List.mem_filter.1 he
      rcases List.mem_cons.1 (hcover e hmem) with rfl | hr
      · simp at hne
      · exact hr
    have hsame : (rest.flatMap fun g' => es.filter (·.group == g')) =
        rest.flatMap fun g' => (es.filter fun e => !(e.group == g)).filter (·.group == g') := by
      refine List.flatMap_congr fun g' hg' => (filter_filter_group ?_).symm
      rintro rfl
      exact hg hg'
    rw [List.flatMap_cons, hsame]
    exact ((ih hrest hleft).append_left _).trans (List.filter_append_perm ..)

theorem lists_perm (c : Catalog β) : (c.groups.flatMap fun g => c.list (some g)).Perm c.all := by
  refine fibers_perm (gathers_groups c).nodup fun e he => ?_
  exact ((gathers_groups c).mem _).2 (List.mem_map_of_mem he)

namespace Coherent

theorem mem_groups (h : c.Coherent) :
    g ∈ c.groups ↔ ∃ e, c.lookup e.name = .ok e ∧ e.group = g := by
  rw [(gathers_groups c).mem, List.mem_map]
  exact exists_congr fun e => and_congr_left fun _ => h.mem_all

theorem lists_names_nodup (h : c.Coherent) :
    ((c.groups.flatMap fun g => c.list (some g)).map Entry.name).Nodup := by
  rw [((lists_perm c).map Entry.name).nodup_iff, h.names_all]
  exact h.distinct

end Coherent

/-- After any registrations the groups are those of the entries that are found, none twice, in the
order in which each had its first entry registered; more registrations only add behind them. The
listing of a group is the part of the whole listing that is in the group, and is empty just if the
group is none of the groups. One after the other the listings of the groups have each entry of the
whole listing, and no name twice. -/
theorem groups_partition (ops : List (Op β)) :
    let c := run ∅ ops
    let lists := c.groups.flatMap fun g => c.list (some g)
    c.groups.Nodup ∧ (∀ g, g ∈ c.groups ↔ ∃ e, c.lookup e.name = .ok e ∧ e.group = g) ∧
    c.groups.Pairwise
      (fun g g' => firstOf (accepted ∅ ops) g < firstOf (accepted ∅ ops) g') ∧
    (∀ more, c.groups <+: (c.run more).groups) ∧
    c.list none = accepted ∅ ops ∧
    (∀ g, c.list (some g) = (c.list none).filter (·.group == g)) ∧
    (∀ g, c.list (some g) = [] ↔ g ∉ c.groups) ∧
    lists.Perm (c.list none) ∧ (lists.map Entry.name).Nodup := by
  intro c lists
  obtain ⟨hc, hall⟩ := Coherent.empty.run ops
  have hlisting : c.list none = accepted ∅ ops := by rwa [list_none]
  have hgathers : Gathers (accepted ∅ ops) c.groups := by
    rw [← hlisting, list_none]
    exact gathers_groups c
  refine ⟨hgathers.nodup, fun g => hc.mem_groups, hgathers.ordered, hc.groups_prefix, hlisting,
    fun g => ?_, fun g => list_eq_nil_iff, ?_, hc.lists_names_nodup⟩
  · rw [list_some, list_none]
  · rw [list_none]
    exact lists_perm c

/-- The second batch is refused for its `rm`, so there is no group `system`. -/
example :
    let tool (name group : String) : Entry Unit :=
      (Entry.ofTool ⟨name, "", .null, .own ()⟩).inGroup group
    let c := run ∅ [.register (tool "rm" "files"),
      .registerAll [tool "get" "net", tool "ls" "files"],
      .registerAll [tool "ps" "system", tool "rm" "system"]]
    c.groups = ["files", "net"] ∧ (c.list (some "files")).map Entry.name = ["rm", "ls"] ∧
      c.list (some "system") = [] := by
  decide

end GatedCalls.Catalog
