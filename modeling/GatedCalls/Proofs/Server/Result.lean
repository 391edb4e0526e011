import GatedCalls.Proofs.Server.Lock
import Mathlib.Data.List.Forall2

/-!
# What becomes of a call result

`Carries` says which blocks a call result holds, whatever JSON it is: one for each element of its
content, in order, and one for its structured content. `result_mapping`: they are all of the
response, or their text is all of the error, and nothing else of a result shows. In particular a
response that comes from a server has no metadata, so it never passes for a declined call.
-/

namespace GatedCalls.Server

variable {result item : Json} {block : Block} {items : List Json} {blocks : List Block}

/-- The block of an element of the content: its text if it is a text block with a text, else the
element as it is. -/
inductive Shows (item : Json) : Block → Prop
  | text (s : String) (htype : item.get? "type" = some (.string "text"))
      (htext : item.get? "text" = some (.string s)) : Shows item (.text s)
  | verbatim (h : item.get? "type" = some (.string "text") →
      ∀ s, item.get? "text" ≠ some (.string s)) : Shows item (.json item)

/-- The elements of the content; anything but a list has none. -/
inductive HasContent (result : Json) : List Json → Prop
  | listed (items : List Json) (h : result.get? "content" = some (.array items)) :
      HasContent result items
  | missing (h : ∀ items, result.get? "content" ≠ some (.array items)) : HasContent result []

/-- The block of the structured content, if there is any. -/
inductive HasStructured (result : Json) : List Block → Prop
  | given (v : Json) (h : result.get? "structuredContent" = some v) (hv : v ≠ .null) :
      HasStructured result [.json v]
  | missing (h : ∀ v, result.get? "structuredContent" = some v → v = .null) :
      HasStructured result []

/-- A call result holds the blocks. -/
def Carries (result : Json) (blocks : List Block) : Prop :=
  ∃ items shown structured, HasContent result items ∧ List.Forall₂ Shows items shown ∧
    HasStructured result structured ∧ blocks = shown ++ structured

/-! ### The blocks -/

theorem shows_iff : Shows item block ↔ contentBlock item = block := by
  unfold contentBlock
  constructor
  · rintro (⟨s, htype, htext⟩ | h)
    · rw [htype, htext]
      rfl
    · split
      · rename_i s htype htext
        exact absurd htext (h htype s)
      · rfl
  · rintro rfl
    split
    · rename_i s htype htext
      exact .text s htype htext
    · rename_i h
      exact .verbatim fun htype s htext => h s htype htext

theorem forall₂_shows_iff : List.Forall₂ Shows items blocks ↔ items.map contentBlock = blocks := by
  have hshows : Shows = fun item block => contentBlock item = block :=
    funext fun _ => funext fun _ => propext shows_iff
  rw [hshows, ← List.forall₂_map_left_iff (R := Eq), List.forall₂_eq_eq_eq]

theorem hasContent_iff : HasContent result items ↔
    ((result.get? "content").bind Json.asArray?).getD [] = items := by
  constructor
  · rintro (⟨_, h⟩ | h)
    · rw [h]
      rfl
    · cases hget : result.get? "content" with
      | none => rfl
      | some v => cases v <;> first | rfl | exact absurd hget (h _)
  · rintro rfl
    cases hget : result.get? "content" with
    | none => exact .missing fun items h => by rw [hget] at h; cases h
    | some v =>
      cases v with
      | array items => exact .listed items hget
      | _ => exact .missing fun items h => by rw [hget] at h; cases h

theorem hasStructured_iff : HasStructured result blocks ↔
    (match (result.get? "structuredContent").filter fun v => !v.isNull with
      | some v => [.json v]
      | none => []) = blocks := by
  cases hget : result.get? "structuredContent" with
  | none =>
    constructor
    · rintro (⟨v, h, -⟩ | -)
      · rw [hget] at h
        cases h
      · rfl
    · rintro rfl
      exact .missing fun v h => by rw [hget] at h; cases h
  | some v =>
    have hnull : v.isNull = true ↔ v = .null := by cases v <;> simp [Json.isNull]
    by_cases hv : v = .null
    · rw [Option.filter_some_neg (by simp [hnull.2 hv])]
      constructor
      · rintro (⟨w, h, hw⟩ | -)
        · exact absurd ((Option.some.inj (h.symm.trans hget)).trans hv) hw
        · rfl
      · rintro rfl
        exact .missing fun w h => (Option.some.inj (h.symm.trans hget)).trans hv
    · rw [Option.filter_some_pos (by simpa using Bool.eq_false_iff.2 (mt hnull.1 hv))]
      constructor
      · rintro (⟨w, h, -⟩ | h)
        · rw [Option.some.inj (h.symm.trans hget)]
        · exact absurd (h v hget) hv
      · rintro rfl
        exact .given v hget hv

theorem carries_iff : Carries result blocks ↔ resultBlocks result = blocks := by
  simp only [Carries, forall₂_shows_iff, hasContent_iff, hasStructured_iff]
  constructor
  · rintro ⟨_, _, _, rfl, rfl, rfl, rfl⟩
    rfl
  · rintro rfl
    exact ⟨_, _, _, rfl, rfl, rfl, rfl⟩

theorem isErrorResult_iff :
    isErrorResult result = true ↔ result.get? "isError" = some (.bool true) := by
  unfold isErrorResult
  cases result.get? "isError" with
  | none => simp
  | some v => cases v <;> simp [Json.asBool?]

theorem responseOfResult_eq (h : Carries result blocks) : responseOfResult result =
    if result.get? "isError" = some (.bool true) then
      .error (.toolExecution ("\n".intercalate (blocks.map Block.asText)))
    else .ok ⟨blocks, none⟩ := by
  rw [← carries_iff.1 h, ← ite_congr (propext isErrorResult_iff) (fun _ => rfl) (fun _ => rfl)]
  rfl

/-! ### What a client returns -/

namespace Client

variable {c : Client} {a : Action} {id : Nat} {r : Response}

theorem gain_eq_response {d : Demand} {answer : Except Refusal Answer}
    (h : gain d answer = .ok (.response r)) :
    ∃ result, answer = .ok (.result result) ∧ responseOfResult result = .ok r := by
  rcases answer with refusal | ts | result
  · cases d <;> cases h
  · cases h
  · refine ⟨result, rfl, ?_⟩
    cases hr : responseOfResult result with
    | error e => rw [gain, hr] at h; cases h
    | ok r' =>
      rw [gain, hr] at h
      cases h
      rfl

/-- A client returns a response only when a result arrives, and then the response of the result. -/
theorem result_of_response (h : .returned id (.ok (.response r)) ∈ (c.step a).2) :
    ∃ result, a = .answered id (.ok (.result result)) ∧ responseOfResult result = .ok r := by
  rcases c.step_cases a with ⟨d, rfl⟩ | hstep | ⟨o, base, next, es, ho, hm, hstep⟩
  · cases h
  · rw [hstep] at h
    cases h
  · rw [hstep] at h
    cases hm with
    | answered n hs answer =>
      obtain ⟨hid, hgain⟩ : id = o.id ∧ .ok (.response r) = gain o.demand answer := by
        simpa using h
      obtain ⟨result, rfl, hr⟩ := gain_eq_response hgain.symm
      exact ⟨result, by rw [hid], hr⟩
    | stopped n hs failure => cases failure <;> simp at h
    | found n hs hfree hn => cases mem_settled h
    | began n hs => cases mem_settled h
    | _ => simp at h

end Client

/-- What a call result becomes, whatever JSON a server sends: the blocks that it holds, and no
others, are the response without metadata, or if the result is flagged as an error their text is the
message of an error. So no client ever returns a response that stands for a declined call, or one
of a result that is flagged. -/
theorem result_mapping :
    (∀ result : Json, ∃ blocks, (∀ bs, Carries result bs ↔ bs = blocks) ∧
      (result.get? "isError" ≠ some (.bool true) →
        responseOfResult result = .ok ⟨blocks, none⟩) ∧
      (result.get? "isError" = some (.bool true) → responseOfResult result =
        .error (.toolExecution ("\n".intercalate (blocks.map Block.asText)))) ∧
      ∀ r, responseOfResult result = .ok r → r.isDeclined = false) ∧
    ∀ (c : Client) (a : Client.Action) (id : Nat) (r : Response),
      .returned id (.ok (.response r)) ∈ (c.step a).2 → r.isDeclined = false ∧
        ∃ result, a = .answered id (.ok (.result result)) ∧
          result.get? "isError" ≠ some (.bool true) ∧ r.metadata = none ∧
          Carries result r.content := by
  have hresponse (result : Json) (r : Response) (h : responseOfResult result = .ok r) :
      result.get? "isError" ≠ some (.bool true) ∧ r = ⟨resultBlocks result, none⟩ := by
    rw [responseOfResult_eq (carries_iff.2 rfl)] at h
    split at h
    · cases h
    · rename_i hflag
      exact ⟨hflag, (Except.ok.inj h).symm⟩
  refine ⟨fun result => ⟨resultBlocks result, fun bs => carries_iff.trans eq_comm, fun h => ?_,
    fun h => ?_, fun r h => ?_⟩, fun c a id r h => ?_⟩
  · rw [responseOfResult_eq (carries_iff.2 rfl), if_neg h]
  · rw [responseOfResult_eq (carries_iff.2 rfl), if_pos h]
  · rw [(hresponse result r h).2]
    rfl
  · obtain ⟨result, rfl, hr⟩ := Client.result_of_response h
    obtain ⟨hflag, rfl⟩ := hresponse result r hr
    exact ⟨rfl, result, rfl, hflag, rfl, carries_iff.2 rfl⟩

/-- A result that looks like a declined call and like an error: its mark is none of a response, and
its flag is a text. -/
def forgedResult : Json :=
  .object [("content", .array [.object [("text", .string "done"), ("type", .string "text")],
      .object [("text", .null), ("type", .string "text")], .bool true]),
    ("isError", .string "true"),
    ("metadata", .object [(Response.declinedKey, .bool true)]),
    ("structuredContent", .array [])]

/-- The same with a flag. -/
def flaggedResult : Json :=
  .object [("content", .array [.object [("text", .string "no"), ("type", .string "text")]]),
    ("isError", .bool true), ("structuredContent", .bool false)]

theorem result_mapping_forged :
    let blocks := [.text "done", .json (.object [("text", .null), ("type", .string "text")]),
      .json (.bool true), .json (.array [])]
    let c : Client := { Client.ofConfig default with
      operations := [⟨0, .call "rm" ∅, .using 0⟩] }
    forgedResult.get? "isError" ≠ some (.bool true) ∧
      responseOfResult forgedResult = .ok ⟨blocks, none⟩ ∧
      .returned 0 (.ok (.response ⟨blocks, none⟩)) ∈
        (c.step (.answered 0 (.ok (.result forgedResult)))).2 ∧
      Response.isDeclined ⟨blocks, none⟩ = false ∧
      flaggedResult.get? "isError" = some (.bool true) ∧
      responseOfResult flaggedResult = .error (.toolExecution "no\nfalse") := by
  intro blocks c
  obtain ⟨hresults, hclients⟩ := result_mapping
  obtain ⟨forged, hforged, hok, -⟩ := hresults forgedResult
  obtain ⟨flagged, hflagged, -, herror, -⟩ := hresults flaggedResult
  obtain rfl : blocks = forged := (hforged blocks).1 (carries_iff.2 rfl)
  obtain rfl : [.text "no", .json (.bool false)] = flagged := (hflagged _).1 (carries_iff.2 rfl)
  have hnot : forgedResult.get? "isError" ≠ some (.bool true) := by decide
  have hreturned : .returned 0 (.ok (.response ⟨blocks, none⟩)) ∈
      (c.step (.answered 0 (.ok (.result forgedResult)))).2 := List.mem_singleton.2 rfl
  exact ⟨hnot, hok hnot, hreturned, (hclients _ _ _ _ hreturned).1, rfl, herror rfl⟩

end GatedCalls.Server
