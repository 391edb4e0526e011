import GatedCalls.Proofs.Json.Following
import GatedCalls.Proofs.Loading.Prefix
import GatedCalls.Proofs.Loading.Template

/-!
# Values of variables in a file of servers

Reading a file whose references are replaced in its text gives what replacing them in its string
values gives, as long as the values of the variables can stand in a string as they are
(`load_expands_values`). A quotation mark, a backslash or a control character in such a value is not
quoted: it ends the string, or changes what it spells, or is refused (`value_not_quoted`).
-/

namespace GatedCalls.Server

open Json

/-! ### Entries -/

/-- The entry with its values changed; the names of its variables and headers are no values. -/
def FileEntry.map (g : String → String) (e : FileEntry) : FileEntry :=
  ⟨e.type.map g, e.command.map g, e.args.map (List.map g), e.env.map (Dict.map g), e.url.map g,
    e.headers.map (Dict.map g), e.group.map g, e.gated.map g⟩

/-- The file with the values of its entries changed; the names of the servers are no values. -/
def ConfigFile.map (g : String → String) (f : ConfigFile) : ConfigFile :=
  ⟨f.servers.map (FileEntry.map g)⟩

variable {g : String → String}

def FileEntry.Parts.map (g : String → String) (p : FileEntry.Parts) : FileEntry.Parts :=
  ⟨p.type.map (Option.map g), p.command.map (Option.map g), p.args.map (Option.map (List.map g)),
    p.env.map (Option.map (Dict.map g)), p.url.map (Option.map g),
    p.headers.map (Option.map (Dict.map g)), p.group.map (Option.map g), p.gated.map (List.map g)⟩

theorem fields_follow :
    ∀ field ∈ FileEntry.fields, SlotFollows g field (FileEntry.Parts.map g) := by
  have htext : Follows g (Decoder.optional Decoder.text) (Option.map g) :=
    Follows.optional follows_text
  have htexts : Follows g (Decoder.list Decoder.text) (List.map g) := Follows.list follows_text
  have hdict : Follows g (Decoder.optional (Decoder.dict Decoder.text))
      (Option.map (Dict.map g)) := Follows.optional (Follows.dict follows_text)
  simp only [FileEntry.fields, List.forall_mem_cons, List.not_mem_nil, false_imp_iff,
    implies_true, and_true]
  refine ⟨?_, ?_, ?_, ?_, ?_, ?_, ?_, ?_⟩
  · exact slotFollows_of_reader htext (fun _ _ => rfl) (fun _ _ => rfl)
      fun _ => Option.isSome_map ..
  · exact slotFollows_of_reader htext (fun _ _ => rfl) (fun _ _ => rfl)
      fun _ => Option.isSome_map ..
  · exact slotFollows_of_reader (Follows.optional htexts) (fun _ _ => rfl) (fun _ _ => rfl)
      fun _ => Option.isSome_map ..
  · exact slotFollows_of_reader hdict (fun _ _ => rfl) (fun _ _ => rfl)
      fun _ => Option.isSome_map ..
  · exact slotFollows_of_reader htext (fun _ _ => rfl) (fun _ _ => rfl)
      fun _ => Option.isSome_map ..
  · exact slotFollows_of_reader hdict (fun _ _ => rfl) (fun _ _ => rfl)
      fun _ => Option.isSome_map ..
  · exact slotFollows_of_reader htext (fun _ _ => rfl) (fun _ _ => rfl)
      fun _ => Option.isSome_map ..
  · exact slotFollows_of_reader htexts (fun _ _ => rfl) (fun _ _ => rfl)
      fun _ => Option.isSome_map ..

theorem FileEntry.follows_decoder : Follows g FileEntry.decoder (FileEntry.map g) := by
  have hgetD {α : Type} (f : α → α) (o : Option (Option α)) :
      (o.map (Option.map f)).getD none = (o.getD none).map f := by
    cases o <;> rfl
  have hgated (o : Option (List String)) : (o.map (List.map g)).getD [] = (o.getD []).map g := by
    cases o <;> rfl
  refine follows_record fields_follow (by rfl) (fun p => ?_) _
  simp only [FileEntry.Parts.map, FileEntry.map, toOption_ok, Option.map_some, hgetD, hgated]

theorem ConfigFile.follows_decoder : Follows g ConfigFile.decoder (ConfigFile.map g) := by
  have hservers : Follows g (Decoder.dict FileEntry.decoder) (Dict.map (FileEntry.map g)) :=
    Follows.dict FileEntry.follows_decoder
  refine follows_record (c := Option.map (Dict.map (FileEntry.map g))) ?_ (by rfl) (fun p => ?_) _
  · simp only [List.forall_mem_cons, List.not_mem_nil, false_imp_iff, implies_true, and_true]
    exact slotFollows_of_reader hservers (fun _ _ => rfl) (fun _ _ => rfl)
      fun _ => Option.isSome_map ..
  · cases p <;> rfl

/-! ### Loading -/

/-- Reading the file gives what the values that its text writes give once their references are
replaced: the same entries, or the same fault of an entry. If the text writes no entries, reading it
fails as well. -/
structure ExpandsValues (vars : Expansion.Variables) (files : Host.Files) (path text : String) :
    Prop where
  listed {f : ConfigFile} (h : ConfigFile.decoder.ofText text = .ok f) :
    ConfigFile.load vars files path = (f.map (Expansion.expand vars)).listings
  failed {message : String} (h : ConfigFile.decoder.ofText text = .error message) :
    ∃ message', ConfigFile.load vars files path = .error (.json message')

variable {vars : Expansion.Variables} {files : Host.Files} {path : String} {bytes : List UInt8}

/-- With values that can stand in a string, the text whose references are replaced writes the
entries of the text that has them, but for the values. -/
theorem ofText_filled {parts : List Part} (hl : Laid parts)
    (hv : IsValue (parts.flatMap (Part.pieces template))) (hq : QuotableValues vars parts) :
    (ConfigFile.decoder.ofText (Expansion.expand vars (String.ofList (source parts)))).toOption =
      (ConfigFile.decoder.ofText (String.ofList (source parts))).toOption.map
        (ConfigFile.map (Expansion.expand vars)) := by
  have hw : Written (Mark.ofSymbols ((source parts).map .char)) _ :=
    hl.written hl.fits_template (Mark.map_symbol_ofSymbols _)
  obtain ⟨d, hd, hskip⟩ := hv.ofText hw
  rw [expand_source hl, Decoder.ofText, Decoder.ofText, toOption_mapError, toOption_mapError,
    Text.symbolsOf, Text.symbolsOf, String.toList_ofList, String.toList_ofList]
  exact Follows.ofSymbols ConfigFile.follows_decoder (hl.pairs_filled hq) hd hskip

theorem ExpandsValues.of_ofText {text : String} (hload : ConfigFile.load vars files path =
      ConfigFile.ofText vars text)
    (h : (ConfigFile.decoder.ofText (Expansion.expand vars text)).toOption =
      (ConfigFile.decoder.ofText text).toOption.map (ConfigFile.map (Expansion.expand vars))) :
    ExpandsValues vars files path text := by
  rw [ConfigFile.ofText] at hload
  generalize ConfigFile.decoder.ofText (Expansion.expand vars text) = result at h hload
  constructor
  · intro f hf
    rw [hf] at h
    cases result with
    | ok f' => rw [hload, Option.some.inj h]
    | error m => cases h
  · intro m hm
    rw [hm] at h
    cases result with
    | ok f' => cases h
    | error m' => exact ⟨m', hload⟩

/-- References in the string values of a file are replaced as if the values were read first: what
is put in, empty if a variable is not set, becomes no part of the file but of the value. -/
theorem load_expands_values (vars : Expansion.Variables) (files : Host.Files) (path : String)
    {bytes : List UInt8} {parts : List Part} (hl : Laid parts)
    (hv : IsValue (parts.flatMap (Part.pieces template))) (hq : QuotableValues vars parts)
    (hread : files.read (files.expandHome path) = .ok bytes)
    (hbytes : Text.Utf8.decode? bytes = some (String.ofList (source parts))) :
    (∀ segments, .value segments ∈ parts →
      Expansion.expand vars (String.ofList (template segments)) =
        String.ofList (filled vars segments)) ∧
    ExpandsValues vars files path (String.ofList (source parts)) := by
  constructor
  · intro segments hs
    exact expand_template (hl.sound _ hs)
  · have hload : ConfigFile.load vars files path = _ := load_of_text hread hbytes
    exact .of_ofText hload (ofText_filled hl hv hq)

/-! ### A file with one reference -/

theorem says_sign {c : Char} {p : Piece} (h : (c, p) ∈ signs) : Says [c] p :=
  .sign h (Mark.is_iff.2 rfl)

theorem says_string {cs : List Char} (h : ∀ c ∈ cs, Quotable c) :
    Says ('"' :: cs ++ ['"']) (.string (some (String.ofList cs))) := by
  obtain ⟨q, ms, hms, hq, hcs⟩ := List.map_eq_cons_iff.1
    (Mark.map_symbol_ofSymbols (('"' :: cs ++ ['"']).map .char))
  have hspelt := spelt_of_quotable h hcs []
  rw [List.append_nil] at hspelt
  rw [Says, hms]
  exact .string (Mark.is_iff.2 hq) hspelt

theorem sound_sign {c : Char} {p : Piece} (h : (c, p) ∈ signs) (hc : p ≠ .colon) :
    (Part.plain [c] p).Sound := by
  have hs : ∀ x ∈ signs, x.1 ≠ '$' ∧ ∀ s, x.2 ≠ .string s := by simp [signs]
  exact ⟨hc, (hs _ h).2, says_sign h, unreferenced_of_ne (by simpa using (hs _ h).1)⟩

/-- A name that is spelled with its own characters, and its colon. -/
def key (cs : List Char) : Part := .name ('"' :: cs ++ ['"']) (some (String.ofList cs)) []

theorem sound_key {cs : List Char} (h : ∀ c ∈ cs, Quotable c ∧ c ≠ '$') : (key cs).Sound := by
  refine ⟨says_string fun c hc => (h c hc).1, unreferenced_of_ne ?_, by simp⟩
  simp only [List.cons_append, List.forall_mem_cons, List.forall_mem_append]
  exact ⟨by decide, fun c hc => (h c hc).2, by decide, by simp⟩

theorem laid_of_sound {parts : List Part} (h : ∀ part ∈ parts, part.Sound)
    (hn : ∀ part ∈ parts, ∀ text, part ≠ .plain text .number) : Laid parts := by
  induction parts with
  | nil => exact .nil
  | cons part rest ih =>
    rw [List.forall_mem_cons] at h hn
    exact .cons h.1 (fun text htext => absurd htext (hn.1 text)) (ih h.2 hn.2)

/-- The file `{"mcpServers": {"a": {"command": "${X}"}}}`. -/
def commandParts : List Part :=
  [.plain ['\x7b'] (.opening .curly), key ['m', 'c', 'p', 'S', 'e', 'r', 'v', 'e', 'r', 's'],
    .blank ' ', .plain ['\x7b'] (.opening .curly), key ['a'], .blank ' ',
    .plain ['\x7b'] (.opening .curly), key ['c', 'o', 'm', 'm', 'a', 'n', 'd'], .blank ' ',
    .value [.reference ['X']], .plain ['\x7d'] (.closing .curly),
    .plain ['\x7d'] (.closing .curly), .plain ['\x7d'] (.closing .curly)]

/-- The variable of the file with this value. -/
def commandVariable (value : String) : Expansion.Variables := Dict.ofList [("X", value)]

theorem laid_commandParts : Laid commandParts := by
  have hopening : (Part.plain ['\x7b'] (.opening .curly)).Sound := sound_sign (by decide) (by simp)
  have hclosing : (Part.plain ['\x7d'] (.closing .curly)).Sound := sound_sign (by decide) (by simp)
  have hblank : (Part.blank ' ').Sound := by simp [Part.Sound, blanks]
  have hvalue : (Part.value [.reference ['X']]).Sound := by
    simp [Part.Sound, Segment.Sound, Quotable]
  refine laid_of_sound ?_ (by simp [commandParts, key])
  simp only [commandParts, List.forall_mem_cons, List.not_mem_nil, false_imp_iff, implies_true,
    and_true]
  refine ⟨hopening, sound_key ?_, hblank, hopening, sound_key ?_, hblank, hopening, sound_key ?_,
    hblank, hvalue, hclosing, hclosing, hclosing⟩ <;> simp [Quotable]

theorem isValue_member (name : Option String) {ps : List Piece} (h : IsValue ps) :
    IsValue (objectOf [(name, ps)]) :=
  .object _ (by simpa using h)

theorem isValue_commandParts : IsValue (commandParts.flatMap (Part.pieces template)) :=
  isValue_member _ (isValue_member _ (isValue_member _ (.string _)))

def commandBytes : List UInt8 := Text.Utf8.encode (String.ofList (source commandParts))

theorem decode_commandBytes :
    Text.Utf8.decode? commandBytes = some (String.ofList (source commandParts)) := by
  decide +kernel

theorem lookup_commandVariable (value : String) :
    Expansion.lookup? (commandVariable value) ['X'] = some value :=
  Dict.get?_insert_self _ "X" value

theorem quotableValues_commandParts {value : String} (h : ∀ c ∈ value.toList, Quotable c) :
    QuotableValues (commandVariable value) commandParts := by
  intro segments name v hs hn hv
  obtain rfl : segments = [.reference ['X']] := by simpa [commandParts, key] using hs
  obtain rfl : name = ['X'] := by simpa using hn
  rw [lookup_commandVariable] at hv
  rw [← Option.some.inj hv]
  exact h

/-- The entries of the file, with this program. -/
def commandEntries (program : String) : ConfigFile :=
  ⟨Dict.ofList [("a", ⟨none, some program, none, none, none, none, none, []⟩)]⟩

theorem ofText_command : ConfigFile.decoder.ofText (String.ofList (source commandParts)) =
    .ok (commandEntries "$\x7bX\x7d") := by
  have hservers : (ConfigFile.decoder.ofText (String.ofList (source commandParts))).toOption.map
      ConfigFile.servers = some (commandEntries "$\x7bX\x7d").servers := by decide +kernel
  generalize ConfigFile.decoder.ofText (String.ofList (source commandParts)) = result at hservers
  cases result with
  | error m => cases hservers
  | ok f =>
    obtain ⟨servers⟩ := f
    obtain rfl : servers = _ := Option.some.inj hservers
    rfl

theorem listings_command (value : String) :
    ((commandEntries "$\x7bX\x7d").map (Expansion.expand (commandVariable value))).listings =
      .ok [⟨⟨"a", .ofCommand value⟩, "a", ∅⟩] := by
  have hexpand : Expansion.expand (commandVariable value) "$\x7bX\x7d" = value := by
    have hsound : ∀ s ∈ [Segment.reference ['X']], s.Sound := by simp [Segment.Sound, Quotable]
    have htemplate : _ = String.ofList (filled (commandVariable value) [.reference ['X']]) :=
      expand_template hsound
    rw [filled, List.flatMap_singleton, Segment.value, lookup_commandVariable] at htemplate
    exact htemplate.trans String.ofList_toList
  have hmap : (commandEntries "$\x7bX\x7d").map (Expansion.expand (commandVariable value)) =
      commandEntries (Expansion.expand (commandVariable value) "$\x7bX\x7d") := rfl
  rw [hmap, hexpand]
  rfl

/-- What stands in a variable is not read again, whatever it says. -/
theorem load_expands_values_command :
    ConfigFile.load (commandVariable "ls, $\x7bHOME\x7d: []") (Engine.oneFile commandBytes) "f" =
      .ok [⟨⟨"a", .ofCommand "ls, $\x7bHOME\x7d: []"⟩, "a", ∅⟩] := by
  have hq : QuotableValues (commandVariable "ls, $\x7bHOME\x7d: []") commandParts :=
    quotableValues_commandParts (by simp [Quotable])
  obtain ⟨-, hload⟩ := load_expands_values _ (Engine.oneFile commandBytes) "f" laid_commandParts
    isValue_commandParts hq (Engine.read_oneFile commandBytes) decode_commandBytes
  rw [hload.listed ofText_command, listings_command]

/-- The same file, with a variable whose value ends the string and goes on with a member, whose
value is read as an escaped line break, and whose value is a line break. -/
theorem value_not_quoted :
    Laid commandParts ∧ IsValue (commandParts.flatMap (Part.pieces template)) ∧
    (Engine.oneFile commandBytes).read ((Engine.oneFile commandBytes).expandHome "f") =
      .ok commandBytes ∧
    Text.Utf8.decode? commandBytes = some (String.ofList (source commandParts)) ∧
    ∀ value ∈ ["x\", \"group\": \"g", "\\n", "\n"], ¬ ExpandsValues (commandVariable value)
      (Engine.oneFile commandBytes) "f" (String.ofList (source commandParts)) := by
  refine ⟨laid_commandParts, isValue_commandParts, Engine.read_oneFile commandBytes,
    decode_commandBytes, fun value hvalue hload => ?_⟩
  have hread := hload.listed ofText_command
  rw [listings_command, load_of_text (Engine.read_oneFile commandBytes) decode_commandBytes]
    at hread
  have hother : ∀ value ∈ ["x\", \"group\": \"g", "\\n", "\n"],
      (ConfigFile.ofText (commandVariable value) (String.ofList (source commandParts))).toOption ≠
        some [⟨⟨"a", .ofCommand value⟩, "a", ∅⟩] := by decide +kernel
  exact hother value hvalue (congrArg Except.toOption hread)

end GatedCalls.Server
