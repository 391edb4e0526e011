import GatedCalls.Proofs.Json.Spelling

/-!
# What a reader of records keeps

A record is read field by field, from an object or from a list, and only then are its parts put
together. What holds of the parts before the first field and is kept by the reader of each field
holds of the parts that are put together (`Decoder.record_keeps`).
-/

namespace GatedCalls.Json

theorem raise?_ok_iff {f : Option Fault} {u : Unit} : raise? f = .ok u ↔ f = none := by
  cases f <;> simp [raise?]

theorem mapError_ok_iff {ε ε' α : Type} {x : Except ε α} {g : ε → ε'} {a : α} :
    x.mapError g = .ok a ↔ x = .ok a := by
  cases x with
  | error e => exact ⟨fun h => (by cases h), fun h => (by cases h)⟩
  | ok a' => exact ⟨fun h => congrArg _ (Except.ok.inj h), fun h => congrArg _ (Except.ok.inj h)⟩

theorem reject_ne_ok {α : Type} {wanted : String} {d : Doc} {a : α} :
    Doc.reject wanted d ≠ .ok a := by
  unfold Doc.reject
  cases d.found <;> simp [bind, Except.bind]

/-! ### Where nothing is wrong -/

theorem listFault?_eq_none {e : Ending} : e.listFault? = none ↔ ∃ left, e = .closed left := by
  cases e with
  | closed left => exact ⟨fun _ => ⟨left, rfl⟩, fun _ => rfl⟩
  | afterOpening n | afterItem n | afterComma n => cases n <;> simp [Ending.listFault?]

theorem objectFault?_eq_none {e : Ending} : e.objectFault? = none ↔ ∃ left, e = .closed left := by
  cases e with
  | closed left => exact ⟨fun _ => ⟨left, rfl⟩, fun _ => rfl⟩
  | afterOpening n | afterItem n => cases n <;> simp [Ending.objectFault?]
  | afterComma n =>
    cases n with
    | none => simp [Ending.objectFault?]
    | some t =>
      unfold Ending.objectFault?
      dsimp only
      split <;> simp

theorem closingFault?_eq_none {items : List Doc} {e : Ending} :
    e.closingFault? items = none ↔ items = [] ∧ ∃ left, e = .closed left := by
  cases items with
  | cons d items => simp [Ending.closingFault?]
  | nil =>
    cases e with
    | closed left => exact ⟨fun _ => ⟨rfl, left, rfl⟩, fun _ => rfl⟩
    | afterOpening n | afterItem n | afterComma n => cases n <;> simp [Ending.closingFault?]

theorem depthFault?_eq_none {start depth : Nat} :
    Doc.depthFault? start depth = none ↔ depth ≤ maxDepth := by
  unfold Doc.depthFault?
  split <;> simp <;> omega

namespace Decoder

variable {α P : Type} {Q : P → Prop} {fields : List (Slot P)} {p p' : P}

theorem readMembers_keeps (hf : ∀ f ∈ fields, ∀ d p p', Q p → f.read d p = .ok p' → Q p')
    {members : List Doc.Member} (hp : Q p) (h : readMembers fields p members = .ok p') : Q p' := by
  induction members generalizing p with
  | nil =>
    cases h
    exact hp
  | cons m rest ih =>
    rw [readMembers] at h
    obtain ⟨k, -, h⟩ := bind_ok_iff.1 h
    split at h
    · rename_i field hfield
      split at h
      · cases h
      · obtain ⟨p₁, hread, h⟩ := bind_ok_iff.1 h
        exact ih (hf field (List.mem_of_find?_eq_some hfield) _ _ _ hp hread) h
    · obtain ⟨-, -, h⟩ := bind_ok_iff.1 h
      exact ih hp h

theorem readItems_keeps (hf : ∀ f ∈ fields, ∀ d p p', Q p → f.read d p = .ok p' → Q p')
    {noun : String} {total index : Nat} {ending : Option Ending} {items rest : List Doc} (hp : Q p)
    (h : readItems noun total ending index p fields items = .ok (p', rest)) : Q p' := by
  induction fields generalizing index p items with
  | nil =>
    cases h
    exact hp
  | cons field fields ih =>
    rw [List.forall_mem_cons] at hf
    cases items with
    | cons d items =>
      obtain ⟨p₁, hread, h⟩ := bind_ok_iff.1 h
      exact ih hf.2 (hf.1 _ _ _ hp (mapError_ok_iff.1 hread)) h
    | nil =>
      obtain ⟨-, -, h⟩ := bind_ok_iff.1 h
      split at h
      · exact ih hf.2 hp h
      · cases h

theorem record_keeps {noun : String} {start : P} {finish : P → Except Cause α} {d : Doc} {a : α}
    (hs : Q start) (hf : ∀ f ∈ fields, ∀ d p p', Q p → f.read d p = .ok p' → Q p')
    (h : record noun fields start finish d = .ok a) : ∃ p, Q p ∧ finish p = .ok a := by
  obtain ⟨view, -, h⟩ := bind_ok_iff.1 h
  cases view with
  | single => exact absurd h reject_ne_ok
  | object members ending =>
    obtain ⟨p, hread, h⟩ := bind_ok_iff.1 h
    obtain ⟨-, -, h⟩ := bind_ok_iff.1 h
    exact ⟨p, readMembers_keeps hf hs hread, mapError_ok_iff.1 h⟩
  | array items ending =>
    obtain ⟨⟨p, rest⟩, hread, h⟩ := bind_ok_iff.1 h
    refine ⟨p, readItems_keeps hf hs hread, ?_⟩
    dsimp only at h
    cases ending with
    | some e =>
      obtain ⟨-, -, h⟩ := bind_ok_iff.1 h
      exact mapError_ok_iff.1 h
    | none =>
      dsimp only at h
      split at h
      · exact mapError_ok_iff.1 h
      · cases h

end Decoder

end GatedCalls.Json
