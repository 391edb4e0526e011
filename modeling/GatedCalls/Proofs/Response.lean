import GatedCalls.Proofs.Json.Record
import GatedCalls.Response

/-!
# Responses on the wire

A response that is written and read again is the same but for one thing: metadata that are null are
read as none. Whatever a reader takes for a response, of its various spellings, has no such
metadata, so that writing it and reading it again gives it back (`Response.wire_round_trip`).
-/

namespace GatedCalls

open Json

namespace Block

theorem toJson_text (s : String) :
    (text s).toJson = .object [("text", .string s), ("type", .string "text")] := by
  have h : "text" < "type" := by decide
  simp [toJson, Json.ofMembers, Dict.ofList, Dict.insert, Dict.empty, Dict.put, h]

theorem toJson_json (v : Json) :
    (json v).toJson = .object [("json", v), ("type", .string "json")] := by
  have h : "json" < "type" := by decide
  simp [toJson, Json.ofMembers, Dict.ofList, Dict.insert, Dict.empty, Dict.put, h]

/-- The kind is read from the second of two members, and the first is kept as it is. -/
theorem tagged_second {α : Type} {noun tag name word : String} {kind : Decoder α} {a : α} {v : Json}
    (hn : name ≠ tag) (hk : kind (.given (.string word)) = .ok a) :
    Decoder.tagged noun tag kind (.given (.object [(name, v), (tag, .string word)])) =
      .ok (a, .members [(name, v)]) := by
  simp [Decoder.tagged, Doc.view, Doc.givenMembers, Decoder.splitTag, Doc.any, hn, hk, raise?,
    bind, Except.bind, pure, Except.pure]

theorem decodeText_member (s : String) :
    decodeText (.members [("text", .string s)]) = .ok (.text s) := by
  simp [decodeText, Decoder.body, Doc.givenMembers, Decoder.readMembers, Decoder.text, Doc.found,
    Found.ofJson, Decoder.require, bind, Except.bind, pure, Except.pure, Except.map,
    mapError_ok_iff]

theorem decodeJson_member (v : Json) : decodeJson (.members [("json", v)]) = .ok (.json v) := by
  simp [decodeJson, Decoder.body, Doc.givenMembers, Decoder.readMembers, Doc.any, Decoder.require,
    bind, Except.bind, pure, Except.pure, Except.map, mapError_ok_iff]

theorem decoder_toJson (b : Block) : decoder (.given b.toJson) = .ok b := by
  cases b with
  | text s =>
    have hkind : Decoder.oneOf "text" "json" Kind.text Kind.json (.given (.string "text")) =
        .ok .text := rfl
    rw [toJson_text, decoder, tagged_second (by decide) hkind]
    exact decodeText_member s
  | json v =>
    have hkind : Decoder.oneOf "text" "json" Kind.text Kind.json (.given (.string "json")) =
        .ok .json := rfl
    rw [toJson_json, decoder, tagged_second (by decide) hkind]
    exact decodeJson_member v

theorem eachItem_toJson (blocks : List Block) :
    Decoder.eachItem decoder none ((blocks.map toJson).map .given) = .ok blocks := by
  induction blocks with
  | nil => rfl
  | cons b rest ih =>
    rw [List.map_cons, List.map_cons, Decoder.eachItem, decoder_toJson, ih]
    rfl

theorem list_toJson (blocks : List Block) :
    Decoder.list decoder (.given (.array (blocks.map toJson))) = .ok blocks := by
  unfold Decoder.list
  simp only [Doc.view, eachItem_toJson, bind, Except.bind]
  rfl

end Block

namespace Response

variable {r s : Response} {d : Doc}

/-- The response with metadata that are null taken away. -/
def withoutNull (r : Response) : Response :=
  { r with metadata := r.metadata.filter fun v => !v.isNull }

theorem withoutNull_of_ne (h : r.metadata ≠ some .null) : r.withoutNull = r := by
  obtain ⟨content, metadata⟩ := r
  cases metadata with
  | none => rfl
  | some v => cases v <;> first | rfl | exact absurd rfl h

theorem isDeclined_withoutNull (r : Response) : r.withoutNull.isDeclined = r.isDeclined := by
  by_cases h : r.metadata = some .null
  · obtain ⟨content, metadata⟩ := r
    obtain rfl : metadata = some .null := h
    rfl
  · rw [withoutNull_of_ne h]

/-! ### Reading what was written -/

theorem toJson_none (blocks : List Block) :
    toJson ⟨blocks, none⟩ = .object [("content", .array (blocks.map Block.toJson))] := by
  simp [toJson, Json.ofMembers, Dict.ofList, Dict.insert, Dict.empty, Dict.put]

theorem toJson_some (blocks : List Block) (v : Json) :
    toJson ⟨blocks, some v⟩ =
      .object [("content", .array (blocks.map Block.toJson)), ("metadata", v)] := by
  have h : ¬ "metadata" < "content" := by decide
  simp [toJson, Json.ofMembers, Dict.ofList, Dict.insert, Dict.empty, Dict.put, h]

theorem optional_given (v : Json) :
    Decoder.optional Doc.any (.given v) = .ok (if v.isNull then none else some v) := by
  cases v <;> rfl

theorem decoder_toJson (r : Response) : decoder.ofJson r.toJson = .ok r.withoutNull := by
  obtain ⟨blocks, metadata⟩ := r
  cases metadata with
  | none =>
    rw [toJson_none]
    simp [Decoder.ofJson, decoder, Decoder.record, Doc.view, Doc.givenMembers, Decoder.readMembers,
      fields, Block.list_toJson, raise?, Decoder.require, withoutNull, bind, Except.bind, pure,
      Except.pure, mapError_ok_iff]
  | some v =>
    rw [toJson_some]
    cases hv : v.isNull <;>
      simp [Decoder.ofJson, decoder, Decoder.record, Doc.view, Doc.givenMembers,
        Decoder.readMembers, fields, Block.list_toJson, optional_given, hv, raise?,
        Decoder.require, withoutNull, Option.filter_some, bind, Except.bind, pure, Except.pure,
        mapError_ok_iff]

/-! ### What is read -/

theorem any_eq_null (h : d.any = .ok .null) : ∃ left, d.found = .ok (.null, left) := by
  cases d with
  | given v =>
    obtain rfl : v = .null := Except.ok.inj h
    exact ⟨none, rfl⟩
  | scalar t =>
    rw [Doc.any] at h
    cases hf : t.found with
    | error f => rw [hf] at h; cases h
    | ok f =>
      rw [hf] at h
      cases f with
      | null => exact ⟨some t.stop, by rw [Doc.found, hf]; rfl⟩
      | _ => cases h
  | array start depth items e =>
    rw [Doc.any] at h
    obtain ⟨-, -, h⟩ := bind_ok_iff.1 h
    obtain ⟨vs, -, h⟩ := bind_ok_iff.1 h
    obtain ⟨-, -, h⟩ := bind_ok_iff.1 h
    cases h
  | object start depth members e =>
    rw [Doc.any] at h
    obtain ⟨-, -, h⟩ := bind_ok_iff.1 h
    obtain ⟨ms, -, h⟩ := bind_ok_iff.1 h
    obtain ⟨-, -, h⟩ := bind_ok_iff.1 h
    cases h
  | noValue next | noColon next => cases h

theorem optional_any_ne_null {o : Option Json} (h : Decoder.optional Doc.any d = .ok o) :
    o ≠ some .null := by
  rintro rfl
  unfold Decoder.optional at h
  split at h
  · cases h
  · rename_i hfound
    obtain ⟨v, hv, ho⟩ := bind_ok_iff.1 h
    obtain rfl := Option.some.inj (Except.ok.inj ho)
    obtain ⟨left, hnull⟩ := any_eq_null hv
    exact hfound left hnull

theorem metadata_ne_null (h : decoder d = .ok r) : r.metadata ≠ some .null := by
  -- the content leaves the metadata as they are, and the metadata are read as optional
  have hkeeps : ∀ f ∈ fields, ∀ d p p', p.metadata ≠ some (some .null) → f.read d p = .ok p' →
      p'.metadata ≠ some (some .null) := by
    intro f hf d p p' hp h
    simp only [fields, List.mem_cons, List.not_mem_nil, or_false] at hf
    rcases hf with rfl | rfl
    · obtain ⟨blocks, -, h⟩ := bind_ok_iff.1 h
      cases h
      exact hp
    · obtain ⟨o, ho, h⟩ := bind_ok_iff.1 h
      cases h
      exact fun hnull => optional_any_ne_null ho (Option.some.inj hnull)
  obtain ⟨p, hp, hfinish⟩ := Decoder.record_keeps (by simp) hkeeps h
  obtain ⟨blocks, -, hfinish⟩ := bind_ok_iff.1 hfinish
  cases hfinish
  intro hnull
  cases hm : p.metadata with
  | none => simp [hm] at hnull
  | some o => exact hp (by rw [hm]; simpa [hm] using hnull)

/-- A response that is written and read again is the same with null metadata read as none, and tells
the same. Whatever is read as a response has no null metadata, and so comes back if it is written
and read again. -/
theorem wire_round_trip :
    (∀ r : Response, ∃ s : Response, decoder.ofJson r.toJson = .ok s ∧ s.content = r.content ∧
      s.metadata = (r.metadata.filter fun v => !v.isNull) ∧
      s.isDeclined = r.isDeclined ∧ s.asText = r.asText) ∧
    ∀ (d : Doc) (r : Response), decoder d = .ok r →
      r.metadata ≠ some .null ∧ decoder.ofJson r.toJson = .ok r := by
  refine ⟨fun r => ⟨r.withoutNull, decoder_toJson r, rfl, rfl, ?_, rfl⟩, fun d r h => ?_⟩
  · exact isDeclined_withoutNull r
  · have hm := metadata_ne_null h
    exact ⟨hm, by rw [decoder_toJson, withoutNull_of_ne hm]⟩

/-- A list for the record, with a list for one block, and with the tag of the other behind its
text and a member that is passed over. -/
def looseJson : Json :=
  .array [.array [.array [.string "json", .object [("b", .null)]],
    .object [("note", .number (.int 1)), ("text", .string "done"), ("type", .string "text")]],
    .null]

theorem wire_round_trip_looseJson :
    decoder.ofJson looseJson = .ok ⟨[.json (.object [("b", .null)]), .text "done"], none⟩ ∧
      decoder.ofJson (toJson ⟨[.json (.object [("b", .null)]), .text "done"], none⟩) =
        .ok ⟨[.json (.object [("b", .null)]), .text "done"], none⟩ ∧
      ∃ s : Response, decoder.ofJson (toJson ⟨[.text "done"], some .null⟩) = .ok s ∧
        s.content = [.text "done"] ∧ s.metadata = none := by
  have hread : decoder.ofJson looseJson =
      .ok ⟨[.json (.object [("b", .null)]), .text "done"], none⟩ := rfl
  obtain ⟨s, hs, hcontent, hmetadata, -, -⟩ := wire_round_trip.1 ⟨[.text "done"], some .null⟩
  exact ⟨hread, (wire_round_trip.2 _ _ hread).2, s, hs, hcontent, hmetadata⟩

end Response

end GatedCalls
