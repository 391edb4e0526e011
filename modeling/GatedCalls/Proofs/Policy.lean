import GatedCalls.Proofs.Dict
import GatedCalls.Proofs.Loading
import GatedCalls.Proofs.Text.Blank
import GatedCalls.Proofs.Text.Casing

/-!
# What a policy adds to the listed names

A policy looks at one name at a time, so the set that it gives is the listed names and those
discovered names that it gates (`Policy.mem_confirmationSet`), and all relations between the sets of
policies come of that (`confirmation_laws`). Keywords that are given as flags count by what is left
of them when they are trimmed (`gates_ofFlags`).

A keyword and a name are compared in lower case, and each has been lower-cased by itself. A name
that holds a keyword as it was given need not hold its lower case: that is so where a sigma of the
keyword is not steady in the name (`keyword_exempts`).
-/

namespace GatedCalls

namespace Text

theorem containsChars_iff {part cs : List Char} : containsChars part cs = true ↔ part <:+: cs := by
  induction cs with
  | nil => simp [containsChars]
  | cons c cs ih =>
    rw [containsChars, Bool.or_eq_true, ih, List.isPrefixOf_iff_prefix, List.infix_cons_iff]

theorem lowercase_eq_empty_iff {s : String} : lowercase s = "" ↔ s = "" := by
  rw [lowercase, ← String.toList_eq_nil_iff, String.toList_ofList, lowerAfter_eq_nil_iff,
    String.toList_eq_nil_iff]

end Text

namespace Policy

open Text (trim lowercase isBlankText lowerIn lowerAfter Steady)

variable {p q : Policy} {D D' ks ks' : List String} {L L' : NameSet} {name k : String}

/-! ### One policy -/

theorem confirmationSet_mono (hD : D ⊆ D') (hL : L ⊆ L') :
    p.confirmationSet D L ⊆ p.confirmationSet D' L' := by
  intro x hx
  rw [mem_confirmationSet] at hx ⊢
  rcases hx with hx | ⟨hg, hx⟩
  · exact .inl (hL x hx)
  · exact .inr ⟨hg, hD hx⟩

theorem confirmationSet_subset (h : ∀ name, p.gates name = true → q.gates name = true)
    (D : List String) (L : NameSet) : p.confirmationSet D L ⊆ q.confirmationSet D L := by
  intro x hx
  rw [mem_confirmationSet] at hx ⊢
  exact hx.imp_right fun hg => ⟨h x hg.1, hg.2⟩

theorem confirmationSet_congr (h : ∀ name, p.gates name = q.gates name)
    (hD : ∀ x, x ∈ D ↔ x ∈ D') (L : NameSet) :
    p.confirmationSet D L = q.confirmationSet D' L := by
  apply NameSet.ext
  intro x
  rw [mem_confirmationSet, mem_confirmationSet, h x, hD x]

theorem confirmationSet_append (p : Policy) (D D' : List String) (L : NameSet) :
    p.confirmationSet (D ++ D') L = p.confirmationSet D L ∪ p.confirmationSet D' L := by
  apply NameSet.ext
  intro x
  rw [NameSet.mem_union, mem_confirmationSet, mem_confirmationSet, mem_confirmationSet,
    List.mem_append, and_or_left, or_or_distrib_left]

theorem confirmationSet_again (p : Policy) (D : List String) (L : NameSet) :
    p.confirmationSet D (p.confirmationSet D L) = p.confirmationSet D L := by
  apply NameSet.ext
  intro x
  rw [mem_confirmationSet, or_iff_left_iff_imp]
  intro hx
  rw [mem_confirmationSet]
  exact .inr hx

/-! ### Keywords -/

theorem gates_readOnlyKeywords : (readOnlyKeywords ks).gates name = true ↔
    ∀ k ∈ ks, ¬ k.toList <:+: (lowercase name).toList := by
  rw [gates, Bool.not_eq_true', ← Bool.not_eq_true, List.any_eq_true]
  simp only [Text.containsText, Text.containsChars_iff]
  constructor
  · intro h k hk hin
    exact h ⟨k, hk, hin⟩
  · rintro h ⟨k, hk, hin⟩
    exact h k hk hin

theorem gates_of_subset (h : ks ⊆ ks') (hg : (readOnlyKeywords ks').gates name = true) :
    (readOnlyKeywords ks).gates name = true := by
  rw [gates_readOnlyKeywords] at hg ⊢
  intro k hk
  exact hg k (h hk)

/-! ### Flags -/

/-- What is compared of the keywords that were given. -/
def folded (keywords : List String) : List String :=
  (keywords.map fun k => lowercase (trim k)).filter fun k => !k.isEmpty

theorem mem_folded : name ∈ folded ks ↔ ∃ k ∈ ks, trim k ≠ "" ∧ name = lowercase (trim k) := by
  rw [folded, List.mem_filter, List.mem_map]
  constructor
  · rintro ⟨⟨k, hk, rfl⟩, hne⟩
    refine ⟨k, hk, fun he => ?_, rfl⟩
    rw [Text.lowercase_eq_empty_iff.2 he] at hne
    cases hne
  · rintro ⟨k, hk, hne, rfl⟩
    refine ⟨⟨k, hk, rfl⟩, ?_⟩
    rw [Bool.not_eq_true', ← Bool.not_eq_true, String.isEmpty_iff, Text.lowercase_eq_empty_iff]
    exact hne

theorem ofFlags_eq (ks : List String) :
    ofFlags ks false = if folded ks = [] then listed else readOnlyKeywords (folded ks) := by
  unfold ofFlags
  rw [if_neg Bool.false_ne_true]
  split
  · rename_i h
    exact (if_pos h).symm
  · rename_i h
    exact (if_neg h).symm

theorem ofFlags_all (ks : List String) : ofFlags ks true = .all := rfl

theorem folded_append (ks ks' : List String) : folded (ks ++ ks') = folded ks ++ folded ks' := by
  rw [folded, List.map_append, List.filter_append]
  rfl

/-- Keywords of which the same is left when they are trimmed make the same policy. -/
theorem ofFlags_congr (h : folded ks = folded ks') (c : Bool) : ofFlags ks c = ofFlags ks' c := by
  cases c with
  | true => rfl
  | false => rw [ofFlags_eq, ofFlags_eq, h]

theorem ofFlags_blank (hk : isBlankText k = true) (ks ks' : List String) (c : Bool) :
    ofFlags (ks ++ k :: ks') c = ofFlags (ks ++ ks') c := by
  have hnil : folded [k] = [] := by
    rw [List.eq_nil_iff_forall_not_mem]
    intro x hx
    obtain ⟨k', hk', hne, -⟩ := mem_folded.1 hx
    rw [List.mem_singleton.1 hk'] at hne
    exact hne ((Text.isBlankText_iff k).1 hk)
  apply ofFlags_congr
  rw [← List.singleton_append, folded_append, folded_append, folded_append, hnil, List.nil_append]

theorem ofFlags_surround {before after : String} (hb : isBlankText before = true)
    (ha : isBlankText after = true) (ks ks' : List String) (k : String) (c : Bool) :
    ofFlags (ks ++ (before ++ k ++ after) :: ks') c = ofFlags (ks ++ k :: ks') c := by
  apply ofFlags_congr
  simp only [folded, List.map_append, List.map_cons, Text.trim_surround hb ha]

theorem gates_ofFlags : (ofFlags ks false).gates name = true ↔ (∃ k ∈ ks, trim k ≠ "") ∧
    ∀ k ∈ ks, trim k ≠ "" → ¬ (lowercase (trim k)).toList <:+: (lowercase name).toList := by
  have hnil : folded ks = [] ↔ ¬ ∃ k ∈ ks, trim k ≠ "" := by
    rw [List.eq_nil_iff_forall_not_mem]
    constructor
    · rintro h ⟨k, hk, hne⟩
      exact h _ (mem_folded.2 ⟨k, hk, hne, rfl⟩)
    · intro h x hx
      obtain ⟨k, hk, hne, -⟩ := mem_folded.1 hx
      exact h ⟨k, hk, hne⟩
  rw [ofFlags_eq]
  split
  · rename_i he
    simp [gates, hnil.1 he]
  · rename_i he
    rw [gates_readOnlyKeywords, and_iff_right (not_not.1 (mt hnil.2 he))]
    constructor
    · intro h k hk hne
      exact h _ (mem_folded.2 ⟨k, hk, hne, rfl⟩)
    · intro h x hx
      obtain ⟨k, hk, hne, rfl⟩ := mem_folded.1 hx
      exact h k hk hne

theorem ofFlags_of_same (h : ∀ k, k ∈ ks ↔ k ∈ ks') (c : Bool) :
    (ofFlags ks c).needsDiscovery = (ofFlags ks' c).needsDiscovery ∧
      ∀ name, (ofFlags ks c).gates name = (ofFlags ks' c).gates name := by
  cases c with
  | true => exact ⟨rfl, fun _ => rfl⟩
  | false =>
    have hfolded : ∀ x, x ∈ folded ks ↔ x ∈ folded ks' := by
      intro x
      simp only [mem_folded, h]
    have hnil : folded ks = [] ↔ folded ks' = [] := by
      rw [List.eq_nil_iff_forall_not_mem, List.eq_nil_iff_forall_not_mem]
      simp only [hfolded]
    constructor
    · rw [ofFlags_eq, ofFlags_eq]
      simp only [hnil]
      split <;> rfl
    · intro name
      rw [Bool.eq_iff_iff, gates_ofFlags, gates_ofFlags]
      simp only [h]

/-! ### The laws -/

/-- How the sets that one policy gives are related, for all discovered and all listed names. -/
structure SetLaws (p : Policy) : Prop where
  keeps : ∀ D L, L ⊆ p.confirmationSet D L
  adds : ∀ D L, p.confirmationSet D L ⊆ L ∪ NameSet.ofList D
  names : ∀ D D' L, (∀ x, x ∈ D ↔ x ∈ D') → p.confirmationSet D L = p.confirmationSet D' L
  mono : ∀ D D' L L', D ⊆ D' → L ⊆ L' → p.confirmationSet D L ⊆ p.confirmationSet D' L'
  union : ∀ D D' L, p.confirmationSet (D ++ D') L = p.confirmationSet D L ∪ p.confirmationSet D' L
  again : ∀ D L, p.confirmationSet D (p.confirmationSet D L) = p.confirmationSet D L

/-- How the sets that different policies give are related. -/
structure KeywordLaws : Prop where
  listed : ∀ ks D L,
    Policy.listed.confirmationSet D L ⊆ (readOnlyKeywords ks).confirmationSet D L
  all : ∀ ks D L, (readOnlyKeywords ks).confirmationSet D L ⊆ Policy.all.confirmationSet D L
  more : ∀ ks ks' D L, ks ⊆ ks' →
    (readOnlyKeywords ks').confirmationSet D L ⊆ (readOnlyKeywords ks).confirmationSet D L
  same : ∀ ks ks' D L, (∀ k, k ∈ ks ↔ k ∈ ks') →
    (readOnlyKeywords ks).confirmationSet D L = (readOnlyKeywords ks').confirmationSet D L

/-- What makes no difference in the flags. -/
structure FlagLaws : Prop where
  all : ∀ ks, ofFlags ks true = .all
  blank : ∀ ks ks' k c, isBlankText k = true →
    ofFlags (ks ++ k :: ks') c = ofFlags (ks ++ ks') c
  surrounding : ∀ ks ks' k before after c, isBlankText before = true → isBlankText after = true →
    ofFlags (ks ++ (before ++ k ++ after) :: ks') c = ofFlags (ks ++ k :: ks') c
  same : ∀ ks ks' c, (∀ k, k ∈ ks ↔ k ∈ ks') →
    (ofFlags ks c).needsDiscovery = (ofFlags ks' c).needsDiscovery ∧
      ∀ D L, (ofFlags ks c).confirmationSet D L = (ofFlags ks' c).confirmationSet D L

theorem setLaws (p : Policy) : p.SetLaws where
  keeps _ _ _ hx := mem_confirmationSet.2 (.inl hx)
  adds D L x hx := by
    rw [mem_confirmationSet] at hx
    rw [NameSet.mem_union, NameSet.mem_ofList]
    exact hx.imp_right And.right
  names _ _ L hD := confirmationSet_congr (fun _ => rfl) hD L
  mono _ _ _ _ := confirmationSet_mono
  union := p.confirmationSet_append
  again := p.confirmationSet_again

theorem keywordLaws : KeywordLaws where
  listed _ D L := confirmationSet_subset (fun _ hg => by cases hg) D L
  all _ D L := confirmationSet_subset (fun _ _ => rfl) D L
  more _ _ D L h := confirmationSet_subset (fun _ => gates_of_subset h) D L
  same ks ks' D L h := by
    refine confirmationSet_congr (fun name => ?_) (fun _ => Iff.rfl) L
    rw [Bool.eq_iff_iff, gates_readOnlyKeywords, gates_readOnlyKeywords]
    simp only [h]

theorem flagLaws : FlagLaws where
  all := ofFlags_all
  blank ks ks' k c hk := ofFlags_blank hk ks ks' c
  surrounding ks ks' k _ _ c hb ha := ofFlags_surround hb ha ks ks' k c
  same ks ks' c h := by
    obtain ⟨hneeds, hgates⟩ := ofFlags_of_same h c
    exact ⟨hneeds, fun D L => confirmationSet_congr hgates (fun _ => Iff.rfl) L⟩

/-- A policy can only add to the listed names, and only discovered ones; it heeds neither their
order nor their repetition, and of keywords neither these nor blanks around them. -/
theorem confirmation_laws : (∀ p : Policy, p.SetLaws) ∧ KeywordLaws ∧ FlagLaws :=
  ⟨setLaws, keywordLaws, flagLaws⟩

theorem confirmation_laws_readers :
    (ofFlags ["", " get\t", "get"] false).confirmationSet ["mv", "get_item", "mv"]
      (NameSet.ofList ["rm"]) = NameSet.ofList ["mv", "rm"] := by
  obtain ⟨hsets, -, hflags⟩ := confirmation_laws
  have hblank := hflags.blank [] [" get\t", "get"] "" false rfl
  have htrim := hflags.surrounding [] ["get"] "get" " " "\t" false (by decide) (by decide)
  have hsame := (hflags.same ["get", "get"] ["get"] false (by simp)).2
  have hnames := (hsets (ofFlags ["get"] false)).names ["mv", "get_item", "mv"] ["get_item", "mv"]
    (NameSet.ofList ["rm"]) (by simp)
  simp only [List.nil_append] at hblank htrim
  rw [hblank, show " get\t" = " " ++ "get" ++ "\t" from rfl, htrim, hsame, hnames]
  decide +kernel

/-! ### Keywords that stand in a name -/

/-- What becomes of a name that is not listed, when the keywords are given and not everything is
gated. -/
structure Compares (keywords D : List String) (L : NameSet) (name : String) : Prop where
  /-- The name is gated if it holds no keyword once both are lower-cased. -/
  gated_iff : name ∈ (ofFlags keywords false).confirmationSet D L ↔ name ∈ D ∧
    (∃ k ∈ keywords, trim k ≠ "") ∧ ∀ k ∈ keywords, trim k ≠ "" →
      ¬ (lowercase (trim k)).toList <:+: (lowercase name).toList
  /-- Where a keyword stands in the name as it was given, the lower-cased name has its lower case
  exactly if the keyword is steady there. -/
  place : ∀ k before after, name.toList = before ++ (trim k).toList ++ after →
    (lowercase name).toList = lowerIn [] before ((trim k).toList ++ after) ++
        lowerIn before.reverse (trim k).toList after ++
        lowerAfter ((trim k).toList.reverse ++ before.reverse) after ∧
      (lowerIn before.reverse (trim k).toList after = (lowercase (trim k)).toList ↔
        Steady before.reverse (trim k).toList after)
  /-- A keyword that is steady somewhere in the name exempts it. -/
  exempt : ∀ k ∈ keywords, ∀ before after, trim k ≠ "" →
    name.toList = before ++ (trim k).toList ++ after →
    Steady before.reverse (trim k).toList after →
      name ∉ (ofFlags keywords false).confirmationSet D L
  /-- So does every keyword in it that has no capital sigma. -/
  plain : ∀ k ∈ keywords, trim k ≠ "" → 'Σ' ∉ (trim k).toList →
    (trim k).toList <:+: name.toList → name ∉ (ofFlags keywords false).confirmationSet D L

theorem lowercase_place {t before after : List Char} (h : name.toList = before ++ t ++ after) :
    (lowercase name).toList = lowerIn [] before (t ++ after) ++ lowerIn before.reverse t after ++
      lowerAfter (t.reverse ++ before.reverse) after := by
  rw [lowercase, String.toList_ofList, h, List.append_assoc, Text.lowerAfter_append,
    Text.lowerAfter_append, List.append_nil, List.append_assoc]

/-- A name that is not listed and holds a keyword is exempt, unless each sigma that could tell is
another one in the name than in the keyword: the name is gated exactly if it is discovered and no
keyword is found in it once both are lower-cased. -/
theorem keyword_exempts (keywords D : List String) {L : NameSet} {name : String} (hn : name ∉ L) :
    Compares keywords D L name := by
  have hgated : name ∈ (ofFlags keywords false).confirmationSet D L ↔ name ∈ D ∧
      (∃ k ∈ keywords, trim k ≠ "") ∧ ∀ k ∈ keywords, trim k ≠ "" →
        ¬ (lowercase (trim k)).toList <:+: (lowercase name).toList := by
    rw [mem_confirmationSet, or_iff_right hn, gates_ofFlags]
    exact and_comm
  have hlower (k : String) : (lowercase k).toList = lowerAfter [] k.toList := String.toList_ofList
  have hexempt : ∀ k ∈ keywords, ∀ before after, trim k ≠ "" →
      name.toList = before ++ (trim k).toList ++ after →
      Steady before.reverse (trim k).toList after →
        name ∉ (ofFlags keywords false).confirmationSet D L := by
    intro k hk before after hne h hsteady hin
    refine (hgated.1 hin).2.2 k hk hne ?_
    rw [lowercase_place h, Text.lowerIn_eq_iff.2 hsteady, hlower]
    exact List.infix_append ..
  refine ⟨hgated, fun k before after h => ⟨lowercase_place h, ?_⟩, hexempt, ?_⟩
  · rw [hlower]
    exact Text.lowerIn_eq_iff
  · rintro k hk hne hsigma ⟨before, after, h⟩
    exact hexempt k hk before after hne h.symm (Text.steady_of_no_sigma hsigma ..)

/-- The last sigma of the keyword is final in the keyword and not in the name, which is gated
though the keyword stands in it. -/
theorem keyword_exempts_finalSigma : trim "ΟΔΟΣ" ≠ "" ∧ "ΟΔΟΣΑ".toList = "ΟΔΟΣ".toList ++ ['Α'] ∧
    "ΟΔΟΣΑ" ∉ (∅ : NameSet) ∧
    "ΟΔΟΣΑ" ∈ (ofFlags ["ΟΔΟΣ"] false).confirmationSet ["ΟΔΟΣΑ"] ∅ := by
  have htrim : trim "ΟΔΟΣ" = "ΟΔΟΣ" := by decide +kernel
  have hn : "ΟΔΟΣΑ" ∉ (∅ : NameSet) := by decide
  have hbefore := Text.meetsCased_of_letter (c := 'Ο') (by decide +kernel) (by decide +kernel)
  have hafter := Text.meetsCased_of_letter (c := 'Α') (by decide +kernel) (by decide +kernel)
  have hfinal : Text.lowerSigma ['Ο', 'Δ', 'Ο'] [] = 'ς' := by
    rw [Text.lowerSigma, hbefore]
    rfl
  have hinner : Text.lowerSigma ['Ο', 'Δ', 'Ο'] ['Α'] = 'σ' := by
    rw [Text.lowerSigma, hbefore, hafter]
    rfl
  have ho : Text.lowerChar 'Ο' = ['ο'] := by decide +kernel
  have hd : Text.lowerChar 'Δ' = ['δ'] := by decide +kernel
  have ha : Text.lowerChar 'Α' = ['α'] := by decide +kernel
  have hkeyword : (lowercase "ΟΔΟΣ").toList = ['ο', 'δ', 'ο', 'ς'] := by
    rw [lowercase, String.toList_ofList]
    simp [Text.lowerAfter, ho, hd, hfinal]
  have hname : (lowercase "ΟΔΟΣΑ").toList = ['ο', 'δ', 'ο', 'σ', 'α'] := by
    rw [lowercase, String.toList_ofList]
    simp [Text.lowerAfter, ho, hd, ha, hinner]
  have hne : trim "ΟΔΟΣ" ≠ "" := by simp [htrim]
  refine ⟨hne, rfl, hn, (keyword_exempts ["ΟΔΟΣ"] ["ΟΔΟΣΑ"] hn).gated_iff.2 ⟨by simp, ?_, ?_⟩⟩
  · exact ⟨"ΟΔΟΣ", by simp, hne⟩
  · intro k hk _ hin
    rw [List.mem_singleton.1 hk, htrim, hkeyword, hname, ← Text.containsChars_iff] at hin
    revert hin
    decide

end Policy

end GatedCalls
