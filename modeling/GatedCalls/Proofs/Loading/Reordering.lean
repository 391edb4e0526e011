import GatedCalls.Proofs.Dict
import GatedCalls.Proofs.Json.Members

/-!
# Trees in another order

`Reordered` trees differ in the order of members and of the tools that are gated. Where no name is
repeated, what is read of the one is read of the other (`Keeps`): texts and lists are the same, maps
have one value for each name (`Keeps.dict`), and the fields of a record are read apart from one
another (`keeps_record`).
-/

namespace GatedCalls

namespace Server

open Json Tree

/-! ### Trees in another order -/

/-- What a part of a file is read as. -/
inductive Role
  | file
  | servers
  | entry
  | tools
  | other
deriving DecidableEq

namespace Role

def member : Role → Option String → Role
  | file, some "mcpServers" => servers
  | servers, _ => entry
  | entry, some "confirmTools" => tools
  | _, _ => other

/-- A file and an entry can be written as the lists of their fields. -/
def item : Role → Nat → Role
  | file, 0 => servers
  | entry, 7 => tools
  | _, _ => other

end Role

/-- The trees differ in the order of members and of the tools that are gated, and in nothing
else. -/
inductive Reordered : Role → Tree → Tree → Prop
  | same (r : Role) (t : Tree) : Reordered r t t
  | array {r : Role} (l : List (Tree × Tree))
    (h : ∀ i e, l[i]? = some e → Reordered (r.item i) e.1 e.2) :
    Reordered r (.array (l.map Prod.fst)) (.array (l.map Prod.snd))
  | object {r : Role} {ms ns : List (Option String × Tree)} (l : List (Option String × Tree × Tree))
    (hm : ms.Perm (l.map fun e => (e.1, e.2.1))) (hn : ns.Perm (l.map fun e => (e.1, e.2.2)))
    (h : ∀ e ∈ l, Reordered (r.member e.1) e.2.1 e.2.2) : Reordered r (.object ms) (.object ns)
  | tools {ts us : List Tree} (h : ts.Perm us) : Reordered .tools (.array ts) (.array us)

variable {r : Role} {t u : Tree}

theorem Reordered.symm (h : Reordered r t u) : Reordered r u t := by
  induction h with
  | same r t => exact .same r t
  | @array r l _ ih =>
    have h := Reordered.array (r := r) (l.map Prod.swap) fun i e he => by
      rw [List.getElem?_map] at he
      obtain ⟨e', he', rfl⟩ := Option.map_eq_some_iff.1 he
      exact ih i e' he'
    simpa [Function.comp_def] using h
  | @object r ms ns l hm hn _ ih =>
    refine .object (l.map fun e => (e.1, e.2.2, e.2.1)) ?_ ?_ fun e he => ?_
    · rwa [List.map_map]
    · rwa [List.map_map]
    · obtain ⟨e', he', rfl⟩ := List.mem_map.1 he
      exact ih e' he'
  | tools h => exact .tools h.symm

theorem Reordered.distinct (h : Reordered r t u) (ht : t.Distinct) : u.Distinct := by
  induction h with
  | same => exact ht
  | array l _ ih =>
    cases ht with
    | array ht =>
      refine .array fun u hu => ?_
      obtain ⟨e, he, rfl⟩ := List.mem_map.1 hu
      obtain ⟨i, hi⟩ := List.mem_iff_getElem?.1 he
      exact ih i e hi (ht _ (List.mem_map_of_mem he))
  | @object r ms ns l hm hn _ ih =>
    cases ht with
    | object hnodup ht =>
      have hnames : (ms.filterMap Prod.fst).Perm (ns.filterMap Prod.fst) := by
        refine (hm.filterMap _).trans (.trans ?_ (hn.filterMap _).symm)
        rw [List.filterMap_map, List.filterMap_map]
        rfl
      refine .object (hnames.nodup_iff.1 hnodup) fun n hn' => ?_
      obtain ⟨e, he, rfl⟩ := List.mem_map.1 (hn.mem_iff.1 hn')
      exact ih e he (ht _ (hm.mem_iff.2 (List.mem_map_of_mem he)))
  | tools h =>
    cases ht with
    | array ht => exact .array fun u hu => ht u (h.mem_iff.2 hu)

theorem Reordered.null_iff (h : Reordered r t u) : t = .null ↔ u = .null := by
  cases h <;> simp

theorem Reordered.array_inv {ts : List Tree} (h : Reordered r (.array ts) u) (hr : r ≠ .tools) :
    ∃ l : List (Tree × Tree), ts = l.map Prod.fst ∧ u = .array (l.map Prod.snd) ∧
      ∀ i e, l[i]? = some e → Reordered (r.item i) e.1 e.2 := by
  cases h with
  | same =>
    refine ⟨ts.map fun t => (t, t), by simp [Function.comp_def], by simp [Function.comp_def],
      fun i e he => ?_⟩
    rw [List.getElem?_map] at he
    obtain ⟨t, -, rfl⟩ := Option.map_eq_some_iff.1 he
    exact .same ..
  | array l h => exact ⟨l, rfl, rfl, h⟩
  | tools => exact absurd rfl hr

theorem Reordered.object_inv {ms : List (Option String × Tree)} (h : Reordered r (.object ms) u) :
    ∃ ns, ∃ l : List (Option String × Tree × Tree), u = .object ns ∧
      ms.Perm (l.map fun e => (e.1, e.2.1)) ∧ ns.Perm (l.map fun e => (e.1, e.2.2)) ∧
      ∀ e ∈ l, Reordered (r.member e.1) e.2.1 e.2.2 := by
  cases h with
  | same =>
    refine ⟨ms, ms.map fun m => (m.1, m.2, m.2), rfl, ?_, ?_, fun e he => ?_⟩
    · simp [Function.comp_def]
    · simp [Function.comp_def]
    · obtain ⟨m, -, rfl⟩ := List.mem_map.1 he
      exact .same ..
  | object l hm hn h => exact ⟨_, l, rfl, hm, hn, h⟩

/-! ### What is read of trees in another order -/

variable {α P : Type} {read : Tree → Option α} {S : α → α → Prop}

/-- What is read of a tree is read of the tree in another order too, up to `S`. -/
def Keeps (r : Role) (read : Tree → Option α) (S : α → α → Prop) : Prop :=
  ∀ ⦃t u : Tree⦄ ⦃a : α⦄, Reordered r t u → t.Distinct → read t = some a →
    ∃ b, read u = some b ∧ S a b

theorem keeps_text (r : Role) : Keeps r text? Eq := by
  intro t u s h _ hs
  cases h with
  | same => exact ⟨s, hs, rfl⟩
  | array | object | tools => cases hs

theorem Keeps.optional (h : Keeps r read Eq) : Keeps r (optional? read) Eq := by
  intro t u o hr ht ho
  by_cases hnull : t = .null
  · obtain rfl := hr.null_iff.1 hnull
    rw [hnull] at ho
    exact ⟨o, ho, rfl⟩
  · rw [optional?_of_ne_null hnull] at ho
    obtain ⟨a, ha, rfl⟩ := Option.map_eq_some_iff.1 ho
    obtain ⟨b, hb, rfl⟩ := h hr ht ha
    rw [optional?_of_ne_null (mt hr.null_iff.2 hnull), hb]
    exact ⟨_, rfl, rfl⟩

theorem keeps_items {l : List (Tree × Tree)} {as : List α}
    (h : ∀ e ∈ l, ∀ a, read e.1 = some a → read e.2 = some a)
    (ha : (l.map Prod.fst).mapM read = some as) : (l.map Prod.snd).mapM read = some as := by
  rw [mapM_iff, List.forall₂_map_left_iff] at ha ⊢
  refine ((List.forall₂_and_left _ _).2 ⟨h, ha⟩).imp ?_
  rintro e a ⟨hk, he⟩
  exact hk a he

theorem Keeps.list (h : ∀ i, Keeps (r.item i) read Eq) (hr : r ≠ .tools) :
    Keeps r (list? read) Eq := by
  intro t u as hru ht ha
  cases t with
  | array ts =>
    obtain ⟨l, rfl, rfl, hl⟩ := hru.array_inv hr
    cases ht with
    | array ht =>
      refine ⟨as, keeps_items (fun e he a hea => ?_) ha, rfl⟩
      obtain ⟨i, hi⟩ := List.mem_iff_getElem?.1 he
      obtain ⟨b, hb, rfl⟩ := h i (hl i e hi) (ht _ (List.mem_map_of_mem he)) hea
      exact hb
  | _ => cases ha

theorem keeps_tools : Keeps .tools (list? text?) List.Perm := by
  intro t u as hr ht ha
  cases hr with
  | same => exact ⟨as, ha, .refl as⟩
  | array l hl =>
    cases ht with
    | array ht =>
      refine ⟨as, keeps_items (fun e he a hea => ?_) ha, .refl as⟩
      obtain ⟨i, hi⟩ := List.mem_iff_getElem?.1 he
      obtain ⟨b, hb, rfl⟩ := keeps_text _ (hl i e hi) (ht _ (List.mem_map_of_mem he)) hea
      exact hb
  | object => cases ha
  | tools h => exact mapM_perm h ha

/-! ### Objects -/

section Object

variable {ms ns : List (Option String × Tree)} {as bs : List (String × α)}

/-- Without repeated names, and with a value for each value of the first list. -/
structure Covers (S : α → α → Prop) (as bs : List (String × α)) : Prop where
  nodup : (as.map Prod.fst).Nodup
  nodup' : (bs.map Prod.fst).Nodup
  covers {name : String} {a : α} (h : (name, a) ∈ as) : ∃ b, (name, b) ∈ bs ∧ S a b

theorem keeps_named (h : ∀ k, Keeps (r.member k) read S)
    (hr : Reordered r (.object ms) (.object ns)) (ht : (Tree.object ms).Distinct)
    (ha : named? read ms = some as) :
    ∃ bs, named? read ns = some bs ∧ Covers S as bs := by
  obtain ⟨_, l, ⟨rfl⟩, hm, hn, hl⟩ := hr.object_inv
  cases ht with
  | object hnodup ht =>
    cases hr.distinct (.object hnodup ht) with
    | object hnodup' _ =>
      -- every member is read together with the one that stands for it in the other tree
      have hreads : ∀ e ∈ l, ∃ name a b, e.1 = some name ∧ read e.2.1 = some a ∧
          read e.2.2 = some b ∧ S a b := by
        intro e he
        have hmem := hm.mem_iff.2 (List.mem_map_of_mem (f := fun e => (e.1, e.2.1)) he)
        obtain ⟨name, a, hname, hread⟩ := exists_named?_iff.1 ⟨as, ha⟩ _ hmem
        obtain ⟨b, hb, hs⟩ := h e.1 (hl e he) (ht _ hmem) hread
        exact ⟨name, a, b, hname, hread, hb, hs⟩
      obtain ⟨bs, hbs⟩ : ∃ bs, named? read ns = some bs := by
        refine exists_named?_iff.2 fun n hmem => ?_
        obtain ⟨e, he, rfl⟩ := List.mem_map.1 (hn.mem_iff.1 hmem)
        obtain ⟨name, a, b, hname, -, hb, -⟩ := hreads e he
        exact ⟨name, b, hname, hb⟩
      refine ⟨bs, hbs, nodup_of_named? ha hnodup, nodup_of_named? hbs hnodup', ?_⟩
      intro name a hmem
      obtain ⟨t, hmt, hread⟩ := (mem_named? ha).1 hmem
      obtain ⟨⟨k, t', u'⟩, he, heq⟩ := List.mem_map.1 (hm.mem_iff.1 hmt)
      cases heq
      obtain ⟨name', a', b, -, hread', hb, hs⟩ := hreads _ he
      cases hread.symm.trans hread'
      refine ⟨b, (mem_named? hbs).2 ⟨u', hn.mem_iff.2 (List.mem_map.2 ⟨_, he, rfl⟩), hb⟩, hs⟩

/-- Maps are the same if each of the lists that they are made of covers the other. -/
theorem ofList_eq_of_covers (h : Covers Eq as bs) (h' : Covers Eq bs as) :
    Dict.ofList as = Dict.ofList bs := by
  refine Dict.ext_get? fun k => Option.ext fun a => ?_
  rw [Dict.get?_ofList_iff, Dict.get?_ofList_iff, last_iff_mem h.nodup, last_iff_mem h.nodup']
  constructor
  · intro hm
    obtain ⟨b, hb, rfl⟩ := h.covers hm
    exact hb
  · intro hm
    obtain ⟨b, hb, rfl⟩ := h'.covers hm
    exact hb

theorem Keeps.dict (h : ∀ k, Keeps (r.member k) read Eq) : Keeps r (dict? read) Eq := by
  intro t u d hr ht hd
  cases t with
  | object ms =>
    obtain ⟨as, has, rfl⟩ := Option.map_eq_some_iff.1 hd
    obtain ⟨ns, -, rfl, -⟩ := hr.object_inv
    obtain ⟨bs, hbs, hcovers⟩ := keeps_named h hr ht has
    obtain ⟨as', has', hcovers'⟩ := keeps_named h hr.symm (hr.distinct ht) hbs
    cases has.symm.trans has'
    refine ⟨Dict.ofList bs, ?_, ofList_eq_of_covers hcovers hcovers'⟩
    rw [dict?, hbs]
    rfl
  | _ => cases hd

end Object

/-! ### Records in another order -/

section Record

variable {R : P → P → Prop} {fields : List (Slot P)} {p q p' : P}

/-- Reading the field keeps parts that are alike alike. -/
structure FieldKeeps (R : P → P → Prop) (r : Role) (field : Slot P) : Prop where
  present {p q : P} (h : R p q) : field.present p = field.present q
  read {t u : Tree} {p q p' : P} (h : R p q) (hr : Reordered r t u) (ht : t.Distinct)
    (hp : field.read? t p = some p') : ∃ q', field.read? u q = some q' ∧ R p' q'

theorem fieldKeeps_part {name : String} {present : P → Bool} {put : P → α → P} {mayEnd : Bool}
    (h : Keeps r read S) (hpresent : ∀ p q, R p q → present p = present q)
    (hput : ∀ p q a b, R p q → S a b → R (put p a) (put q b)) :
    FieldKeeps R r (.part name present read put mayEnd) where
  present := hpresent _ _
  read hpq hr ht hp := by
    obtain ⟨a, ha, rfl⟩ := Slot.part_eq_some.1 hp
    obtain ⟨b, hb, hs⟩ := h hr ht ha
    exact ⟨_, Slot.part_eq_some.2 ⟨b, hb, rfl⟩, hput _ _ _ _ hpq hs⟩

theorem keeps_members (hf : ∀ f ∈ fields, FieldKeeps R (r.member (some f.name)) f)
    {l : List (Option String × Tree × Tree)}
    (hl : ∀ e ∈ l, Reordered (r.member e.1) e.2.1 e.2.2 ∧ e.2.1.Distinct) (hpq : R p q)
    (hp : readMembers? fields p (l.map fun e => (e.1, e.2.1)) = some p') :
    ∃ q', readMembers? fields q (l.map fun e => (e.1, e.2.2)) = some q' ∧ R p' q' := by
  induction l generalizing p q with
  | nil =>
    cases hp
    exact ⟨q, rfl, hpq⟩
  | cons e l ih =>
    rw [List.forall_mem_cons] at hl
    obtain ⟨p₁, hp₁, hp⟩ := Option.bind_eq_some_iff.1 hp
    -- one member; the field it names is there in both or in neither
    obtain ⟨q₁, hq₁, hpq₁⟩ : ∃ q₁, readMember? fields q (e.1, e.2.2) = some q₁ ∧ R p₁ q₁ := by
      obtain ⟨k, hk, hread⟩ := Option.bind_eq_some_iff.1 hp₁
      dsimp only at hk
      rw [readMember?, hk]
      dsimp only [Option.bind_eq_bind, Option.bind_some]
      cases hfind : fields.find? (·.name == k) with
      | none =>
        rw [hfind] at hread
        cases hread
        exact ⟨q, rfl, hpq⟩
      | some f =>
        rw [hfind] at hread
        dsimp only at hread ⊢
        have hkeeps := hf f (List.mem_of_find?_eq_some hfind)
        have hname : f.name = k := by simpa using List.find?_some hfind
        rw [hname, ← hk] at hkeeps
        rw [← hkeeps.present hpq]
        split at hread
        · cases hread
        · rename_i hpresent
          rw [if_neg hpresent]
          exact hkeeps.read hpq hl.1.1 hl.1.2 hread
    obtain ⟨q', hq', hpq'⟩ := ih hl.2 hpq₁ hp
    refine ⟨q', ?_, hpq'⟩
    rw [List.map_cons, readMembers?, hq₁]
    exact hq'

theorem keeps_fields {roles : Nat → Role}
    (hf : ∀ i f, fields[i]? = some f → FieldKeeps R (roles i) f) {l : List (Tree × Tree)}
    (hl : ∀ i e, l[i]? = some e → Reordered (roles i) e.1 e.2 ∧ e.1.Distinct) (hpq : R p q)
    (hp : readItems? p fields (l.map Prod.fst) = some p') :
    ∃ q', readItems? q fields (l.map Prod.snd) = some q' ∧ R p' q' := by
  induction fields generalizing p q l roles with
  | nil =>
    cases l with
    | nil =>
      cases hp
      exact ⟨q, rfl, hpq⟩
    | cons e l => cases hp
  | cons f fields ih =>
    cases l with
    | nil =>
      rw [List.map_nil, readItems?] at hp ⊢
      split at hp
      · rename_i hend
        rw [if_pos hend]
        exact ih (l := []) (fun i => hf (i + 1)) (by simp) hpq hp
      · cases hp
    | cons e l =>
      obtain ⟨p₁, hp₁, hp⟩ := Option.bind_eq_some_iff.1 hp
      obtain ⟨hr, ht⟩ := hl 0 e rfl
      obtain ⟨q₁, hq₁, hpq₁⟩ := (hf 0 f rfl).read hpq hr ht hp₁
      obtain ⟨q', hq', hpq'⟩ := ih (fun i => hf (i + 1)) (fun i => hl (i + 1)) hpq₁ hp
      refine ⟨q', ?_, hpq'⟩
      rw [List.map_cons, readItems?, hq₁]
      exact hq'

theorem keeps_record {start : P} {finish : P → Option α} (hi : Slot.Independent fields)
    (hm : ∀ f ∈ fields, FieldKeeps R (r.member (some f.name)) f)
    (hroles : ∀ i f, fields[i]? = some f → r.item i = r.member (some f.name)) (hr : r ≠ .tools)
    (hstart : R start start)
    (hfinish : ∀ p q a, R p q → finish p = some a → ∃ b, finish q = some b ∧ S a b) :
    Keeps r (record? fields start finish) S := by
  have hf (i : Nat) (f : Slot P) (h : fields[i]? = some f) : FieldKeeps R (r.item i) f := by
    rw [hroles i f h]
    exact hm f (List.mem_of_getElem? h)
  intro t u a htu ht ha
  cases t with
  | object ms =>
    obtain ⟨ns, l, rfl, hms, hns, hl⟩ := htu.object_inv
    cases ht with
    | object _ ht =>
      obtain ⟨p, hp, ha⟩ := Option.bind_eq_some_iff.1 ha
      rw [readMembers?_perm hi hms] at hp
      obtain ⟨q, hq, hpq⟩ := keeps_members hm (fun e he => ⟨hl e he,
        ht _ (hms.mem_iff.2 (List.mem_map_of_mem (f := fun e => (e.1, e.2.1)) he))⟩) hstart hp
      obtain ⟨b, hb, hs⟩ := hfinish p q a hpq ha
      refine ⟨b, ?_, hs⟩
      rw [record?, readMembers?_perm hi hns, hq]
      exact hb
  | array ts =>
    obtain ⟨l, rfl, rfl, hl⟩ := htu.array_inv hr
    cases ht with
    | array ht =>
      obtain ⟨p, hp, ha⟩ := Option.bind_eq_some_iff.1 ha
      obtain ⟨q, hq, hpq⟩ := keeps_fields hf (fun i e he => ⟨hl i e he,
        ht _ (List.mem_map_of_mem (List.mem_of_getElem? he))⟩) hstart hp
      obtain ⟨b, hb, hs⟩ := hfinish p q a hpq ha
      refine ⟨b, ?_, hs⟩
      rw [record?, hq]
      exact hb
  | _ => cases ha

end Record

end Server

end GatedCalls
