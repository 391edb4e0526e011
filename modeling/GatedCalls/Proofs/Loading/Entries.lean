import Mathlib.Data.List.Dedup
import GatedCalls.Proofs.Dict
import GatedCalls.Proofs.Json.Reading
import GatedCalls.Proofs.Loading.Agreement
import GatedCalls.Proofs.Text.Encoding

/-!
# The entries that a file lists

A text is a file of servers if it writes a tree that has entries (`decodes_iff`), and
`ConfigFile.servers?` gives them in their order, with all entries of a name that is repeated. Of
these the last one counts. A file is loaded if the entries that count are valid, and it lists them,
each on its own, in the order of their names; else the error names one that is not
(`Reads.listsLast`).
-/

namespace GatedCalls

namespace Server

open Json

variable {depth : Nat} {name : String} {vars : Expansion.Variables} {files : Host.Files}
  {path : String} {err : SourceError}

/-! ### Entries -/

namespace FileEntry

variable {e : FileEntry} {l : Listing} {t : Transport}

def IsProgram (e : FileEntry) : Prop := e.type = none ∨ e.type = some "stdio"

def IsAddress (e : FileEntry) : Prop := e.type = some "http" ∨ e.type = some "sse"

def Valid (e : FileEntry) : Prop :=
  e.IsProgram ∧ e.command.isSome ∨ e.IsAddress ∧ e.url.isSome

/-- The transport that the entry writes. -/
inductive Reaches (e : FileEntry) : Transport → Prop
  | program {command : String} (ht : e.IsProgram) (h : e.command = some command) :
    Reaches e (.stdio command (e.args.getD []) (e.env.getD ∅))
  | address {url : String} (ht : e.IsAddress) (h : e.url = some url) :
    Reaches e (.http url (e.headers.getD ∅))

/-- What is wrong with the entry. -/
inductive Lacks (e : FileEntry) : String → Prop
  | command (ht : e.IsProgram) (h : e.command = none) : Lacks e "missing 'command'"
  | url (ht : e.IsAddress) (h : e.url = none) : Lacks e "missing 'url'"
  | type {type : String} (ht : e.type = some type) (hp : ¬e.IsProgram) (ha : ¬e.IsAddress) :
    Lacks e ("unknown transport type '" ++ type ++ "'")

/-- What the file lists by this name if the entry is the one that counts. -/
structure Lists (name : String) (e : FileEntry) (l : Listing) : Prop where
  name_eq : l.server.name = name
  reaches : e.Reaches l.server.transport
  group_eq : l.group = e.group.getD name
  mem_gated (tool : String) : tool ∈ l.gated ↔ tool ∈ e.gated

theorem isProgram_iff : e.IsProgram ↔ e.type.getD "stdio" = "stdio" := by
  unfold IsProgram
  cases e.type <;> simp

theorem isAddress_iff :
    e.IsAddress ↔ e.type.getD "stdio" = "http" ∨ e.type.getD "stdio" = "sse" := by
  unfold IsAddress
  cases e.type <;> simp

theorem IsAddress.not_isProgram (h : e.IsAddress) : ¬e.IsProgram := by
  rw [isProgram_iff]
  rcases isAddress_iff.1 h with ht | ht <;> rw [ht] <;> decide

theorem Reaches.valid (h : e.Reaches t) : e.Valid := by
  cases h with
  | program ht h => exact .inl ⟨ht, Option.isSome_of_eq_some h⟩
  | address ht h => exact .inr ⟨ht, Option.isSome_of_eq_some h⟩

theorem Lacks.not_valid {reason : String} (h : e.Lacks reason) : ¬e.Valid := by
  cases h with
  | command ht h =>
    rintro (⟨-, hc⟩ | ⟨ha, -⟩)
    · simp [h] at hc
    · exact ha.not_isProgram ht
  | url ht h =>
    rintro (⟨hp, -⟩ | ⟨-, hu⟩)
    · exact ht.not_isProgram hp
    · simp [h] at hu
  | type ht hp ha =>
    rintro (⟨hp', -⟩ | ⟨ha', -⟩)
    · exact hp hp'
    · exact ha ha'

/-- The transport of an entry is the one that it writes, or something is wrong with the entry. -/
theorem transport_cases (name : String) (e : FileEntry) :
    (∃ t, e.transport name = .ok t ∧ e.Reaches t) ∨
      ∃ reason, e.transport name = .error (.config ("Server '" ++ name ++ "': " ++ reason)) ∧
        e.Lacks reason := by
  unfold transport
  split
  · rename_i ht
    split
    · rename_i command hc
      exact .inl ⟨_, rfl, .program (isProgram_iff.2 ht) hc⟩
    · rename_i hc
      exact .inr ⟨_, by simp [missing, String.append_assoc], .command (isProgram_iff.2 ht) hc⟩
  · rename_i ht
    have ha : e.IsAddress := isAddress_iff.2 (.inl ht)
    split
    · rename_i url hu
      exact .inl ⟨_, rfl, .address ha hu⟩
    · rename_i hu
      exact .inr ⟨_, by simp [missing, String.append_assoc], .url ha hu⟩
  · rename_i ht
    have ha : e.IsAddress := isAddress_iff.2 (.inr ht)
    split
    · rename_i url hu
      exact .inl ⟨_, rfl, .address ha hu⟩
    · rename_i hu
      exact .inr ⟨_, by simp [missing, String.append_assoc], .url ha hu⟩
  · rename_i ht hhttp hsse
    have htype : e.type = some (e.type.getD "stdio") := by
      cases hn : e.type with
      | none => exact absurd (by rw [hn]; rfl) ht
      | some t => rfl
    have hmessage : "': unknown transport type '" = "': " ++ "unknown transport type '" := rfl
    refine .inr ⟨_, by rw [hmessage]; simp only [String.append_assoc], .type htype ?_ ?_⟩
    · exact fun h => ht (isProgram_iff.1 h)
    · exact fun h => (isAddress_iff.1 h).elim hhttp hsse

theorem listing_cases (name : String) (e : FileEntry) :
    (∃ l, e.listing name = .ok l ∧ e.Lists name l) ∨
      ∃ reason, e.listing name = .error (.config ("Server '" ++ name ++ "': " ++ reason)) ∧
        e.Lacks reason := by
  unfold listing
  obtain ⟨t, ht, hr⟩ | ⟨reason, ht, hl⟩ := transport_cases name e
  · rw [ht]
    exact .inl ⟨_, rfl, rfl, hr, rfl, fun tool => NameSet.mem_ofList⟩
  · rw [ht]
    exact .inr ⟨reason, rfl, hl⟩

theorem Reaches.unique {t' : Transport} (h : e.Reaches t) (h' : e.Reaches t') : t = t' := by
  cases h with
  | program ht hc =>
    cases h' with
    | program ht' hc' => rw [Option.some.inj (hc.symm.trans hc')]
    | address ha => exact absurd ht ha.not_isProgram
  | address ha hu =>
    cases h' with
    | program ht => exact absurd ht ha.not_isProgram
    | address ha' hu' => rw [Option.some.inj (hu.symm.trans hu')]

theorem Lists.unique {l' : Listing} (h : e.Lists name l) (h' : e.Lists name l') : l = l' := by
  obtain ⟨⟨n, t⟩, group, gated⟩ := l
  obtain ⟨⟨n', t'⟩, group', gated'⟩ := l'
  have hn : n = n' := h.name_eq.trans h'.name_eq.symm
  have ht : t = t' := h.reaches.unique h'.reaches
  have hgroup : group = group' := h.group_eq.trans h'.group_eq.symm
  have hgated : gated = gated' := NameSet.ext fun x => (h.mem_gated x).trans (h'.mem_gated x).symm
  rw [hn, ht, hgroup, hgated]

theorem listing_ok_iff : e.listing name = .ok l ↔ e.Lists name l := by
  obtain ⟨l', hl', hlists⟩ | ⟨reason, he, hlacks⟩ := listing_cases name e
  · rw [hl']
    exact ⟨fun h => Except.ok.inj h ▸ hlists, fun h => congrArg _ (hlists.unique h)⟩
  · rw [he]
    exact ⟨fun h => (by cases h), fun h => absurd h.reaches.valid hlacks.not_valid⟩

theorem lacks_of_listing (h : e.listing name = .error err) :
    ∃ reason, e.Lacks reason ∧ err = .config ("Server '" ++ name ++ "': " ++ reason) := by
  obtain ⟨l, hl, -⟩ | ⟨reason, he, hlacks⟩ := listing_cases name e
  · rw [hl] at h
    cases h
  · exact ⟨reason, hlacks, Except.error.inj (h.symm.trans he)⟩

/-! ### Trees -/

open Tree in
/-- The fields of an entry, as trees write them. -/
def treeFields : List (Slot Parts) :=
  [.part "type" (·.type.isSome) (optional? text?) (fun p v => { p with type := some v }) true,
   .part "command" (·.command.isSome) (optional? text?)
     (fun p v => { p with command := some v }) false,
   .part "args" (·.args.isSome) (optional? (list? text?))
     (fun p v => { p with args := some v }) false,
   .part "env" (·.env.isSome) (optional? (dict? text?))
     (fun p v => { p with env := some v }) false,
   .part "url" (·.url.isSome) (optional? text?) (fun p v => { p with url := some v }) false,
   .part "headers" (·.headers.isSome) (optional? (dict? text?))
     (fun p v => { p with headers := some v }) false,
   .part "group" (·.group.isSome) (optional? text?)
     (fun p v => { p with group := some v }) false,
   .part "confirmTools" (·.gated.isSome) (list? text?)
     (fun p v => { p with gated := some v }) true]

/-- The entry that a tree holds; what is missing or null is none. -/
def ofTree? : Tree → Option FileEntry :=
  Tree.record? treeFields ⟨none, none, none, none, none, none, none, none⟩ fun p =>
    some ⟨p.type.getD none, p.command.getD none, p.args.getD none, p.env.getD none,
      p.url.getD none, p.headers.getD none, p.group.getD none, p.gated.getD []⟩

theorem agrees_decoder (h : depth + 2 ≤ maxDepth) : Agrees depth decoder ofTree? := by
  have htext := (agrees_text (depth + 1)).optional
  have htexts := (agrees_text (depth + 2)).list h
  have hdict := ((agrees_text (depth + 2)).dict h).optional
  refine agrees_record ?_ (by omega) fun p => rfl
  refine .cons ?_ (.cons ?_ (.cons ?_ (.cons ?_ (.cons ?_ (.cons ?_ (.cons ?_ (.cons ?_ .nil)))))))
  · exact slotAgrees_part htext fun _ _ => rfl
  · exact slotAgrees_part htext fun _ _ => rfl
  · exact slotAgrees_part htexts.optional fun _ _ => rfl
  · exact slotAgrees_part hdict fun _ _ => rfl
  · exact slotAgrees_part htext fun _ _ => rfl
  · exact slotAgrees_part hdict fun _ _ => rfl
  · exact slotAgrees_part htext fun _ _ => rfl
  · exact slotAgrees_part htexts fun _ _ => rfl

end FileEntry

namespace ConfigFile

variable {α β : Type} {f : ConfigFile} {s : String} {es : List (String × FileEntry)}

def serversField (read : Tree → Option α) : Tree.Slot (Option α) :=
  .part "mcpServers" Option.isSome read (fun _ a => some a) false

/-- What is read of the servers of a file. -/
def ofServers? (read : Tree → Option α) : Tree → Option α :=
  Tree.record? [serversField read] none id

def entries? : Tree → Option (List (String × FileEntry))
  | .object members => Tree.named? FileEntry.ofTree? members
  | _ => none

/-- The entries of a file in the order of the text. -/
def servers? : Tree → Option (List (String × FileEntry)) := ofServers? entries?

theorem readMembers?_map (read : Tree → Option α) (g : α → β) (p : Option α)
    (members : List (Option String × Tree)) :
    Tree.readMembers? [serversField fun t => (read t).map g] (p.map g) members =
      (Tree.readMembers? [serversField read] p members).map (Option.map g) := by
  induction members generalizing p with
  | nil => rfl
  | cons m members ih =>
    have hm : Tree.readMember? [serversField fun t => (read t).map g] (p.map g) m =
        (Tree.readMember? [serversField read] p m).map (Option.map g) := by
      rw [Tree.readMember?, Tree.readMember?]
      cases m.1 with
      | none => rfl
      | some k =>
        simp only [Option.bind_eq_bind, Option.bind_some, List.find?_cons, List.find?_nil]
        cases hk : "mcpServers" == k with
        | false => simp [serversField, Tree.Slot.part, hk]
        | true =>
          cases p with
          | none => cases hr : read m.2 <;> simp [serversField, Tree.Slot.part, hk, hr]
          | some a => simp [serversField, Tree.Slot.part, hk]
    rw [Tree.readMembers?, Tree.readMembers?, hm]
    cases Tree.readMember? [serversField read] p m with
    | none => rfl
    | some p' => exact ih p'

theorem ofServers?_map (read : Tree → Option α) (g : α → β) (t : Tree) :
    ofServers? (fun t => (read t).map g) t = (ofServers? read t).map g := by
  cases t with
  | object members =>
    have h := readMembers?_map read g none members
    rw [ofServers?, ofServers?, Tree.record?, Tree.record?]
    rw [Option.map_none] at h
    rw [h]
    cases Tree.readMembers? [serversField read] none members <;> rfl
  | array items =>
    cases items with
    | nil => rfl
    | cons t items =>
      have hcons {γ : Type} (read : Tree → Option γ) : ofServers? read (.array (t :: items)) =
        (((read t).map some).bind fun p => Tree.readItems? p [] items).bind id := rfl
      rw [hcons, hcons]
      cases read t with
      | none => rfl
      | some a => cases items <;> rfl
  | null | bool | number | string => rfl

theorem agrees_decoder :
    Agrees 0 decoder fun t => (servers? t).map fun es => ⟨Dict.ofList es⟩ := by
  have hentry : Agrees 2 FileEntry.decoder FileEntry.ofTree? :=
    FileEntry.agrees_decoder (by decide)
  have hdict := hentry.dict (by decide)
  have hentries : Tree.dict? FileEntry.ofTree? = fun t => (entries? t).map Dict.ofList := by
    funext t
    cases t <;> rfl
  have hagrees : Agrees 0 decoder (Tree.record? [serversField (Tree.dict? FileEntry.ofTree?)] none
      (Option.map mk)) := by
    refine agrees_record (.cons (slotAgrees_part hdict fun _ _ => rfl) .nil) (by decide) fun p => ?_
    cases p <;> rfl
  have hfinish (t : Tree) : Tree.record? [serversField (Tree.dict? FileEntry.ofTree?)] none
      (Option.map mk) t = (ofServers? (Tree.dict? FileEntry.ofTree?) t).map mk := by
    cases t <;> simp [ofServers?, Tree.record?, Option.map_bind]
  refine (congrArg (Agrees 0 decoder) (funext fun t => ?_)).mp hagrees
  rw [hfinish, hentries, ofServers?_map, Option.map_map]
  rfl

theorem decodes_iff : decoder.ofText s = .ok f ↔
    ∃ t es, Writes s t ∧ servers? t = some es ∧ f.servers = Dict.ofList es := by
  rw [agrees_decoder.ofText_iff]
  constructor
  · rintro ⟨t, hw, ht⟩
    obtain ⟨es, hes, rfl⟩ := Option.map_eq_some_iff.1 ht
    exact ⟨t, es, hw, hes, rfl⟩
  · rintro ⟨t, es, hw, hes, hf⟩
    exact ⟨t, hw, Option.map_eq_some_iff.2 ⟨es, hes, by rw [← hf]⟩⟩

theorem decodes_of_servers? {t : Tree} (hw : Writes s t) (hes : servers? t = some es) :
    decoder.ofText s = .ok ⟨Dict.ofList es⟩ :=
  decodes_iff.2 ⟨t, es, hw, hes, rfl⟩

/-! ### What is loaded -/

/-- What reading a file with these entries gives. -/
structure ListsLast (es : List (String × FileEntry)) (r : Except SourceError (List Listing)) :
    Prop where
  succeeds : (∃ ls, r = .ok ls) ↔ ∀ name e, Last es name e → e.Valid
  /-- Every name is listed once. -/
  names {ls : List Listing} (h : r = .ok ls) :
    (ls.map fun l => l.server.name).Perm (es.map Prod.fst).dedup
  sorted {ls : List Listing} (h : r = .ok ls) :
    (ls.map fun l => Text.Utf8.encode l.server.name).Pairwise (· < ·)
  mem {ls : List Listing} (h : r = .ok ls) (l : Listing) :
    l ∈ ls ↔ ∃ e, Last es l.server.name e ∧ e.Lists l.server.name l
  fault {err : SourceError} (h : r = .error err) : ∃ name e reason, Last es name e ∧ ¬e.Valid ∧
    e.Lacks reason ∧ err = .config ("Server '" ++ name ++ "': " ++ reason)

variable {ls : List Listing} {r : Except SourceError (List Listing)}

theorem map_listing_eq (h : f.listings = .ok ls) :
    f.servers.toList.map (fun e => e.2.listing e.1) = ls.map Except.ok := by
  rw [← List.forall₂_eq_eq_eq, List.forall₂_map_left_iff, List.forall₂_map_right_iff]
  exact mapM_listing_iff.1 h

theorem mem_listings_iff (h : f.listings = .ok ls) {l : Listing} :
    l ∈ ls ↔ ∃ e ∈ f.servers.toList, e.2.listing e.1 = .ok l := by
  rw [← List.mem_map_of_injective (fun _ _ => Except.ok.inj), ← map_listing_eq h, List.mem_map]

theorem listsLast_ok (h : f.listings = .ok ls) (hes : f.servers = Dict.ofList es) :
    ListsLast es (.ok ls) where
  succeeds := by
    refine ⟨fun _ name e hlast => ?_, fun _ => ⟨ls, rfl⟩⟩
    rw [← Dict.mem_ofList_iff, ← hes] at hlast
    have hm : e.listing name ∈ ls.map Except.ok := by
      rw [← map_listing_eq h]
      exact List.mem_map_of_mem (f := fun e : String × FileEntry => e.2.listing e.1) hlast
    obtain ⟨l, -, hl⟩ := List.mem_map.1 hm
    exact (FileEntry.listing_ok_iff.1 hl.symm).reaches.valid
  names {ls'} h' := by
    cases h'
    rw [FileEntry.names_of_mapM h, hes]
    refine (List.perm_ext_iff_of_nodup (Dict.ofList es).keys_nodup
      (List.nodup_dedup _)).2 fun name => ?_
    rw [Dict.mem_keys_ofList_iff, List.mem_dedup]
  sorted {ls'} h' := by
    cases h'
    have hs : (ls.map fun l => l.server.name).Pairwise (· < ·) := by
      rw [FileEntry.names_of_mapM h]
      exact f.servers.sorted
    rw [List.pairwise_map] at hs ⊢
    exact hs.imp Text.Utf8.encode_lt_iff.2
  mem {ls'} h' l := by
    cases h'
    rw [mem_listings_iff h, hes]
    constructor
    · rintro ⟨⟨name, e⟩, he, hlisting⟩
      have hlists := FileEntry.listing_ok_iff.1 hlisting
      obtain rfl := hlists.name_eq
      exact ⟨e, Dict.mem_ofList_iff.1 he, hlists⟩
    · rintro ⟨e, hlast, hlists⟩
      exact ⟨_, Dict.mem_ofList_iff.2 hlast, FileEntry.listing_ok_iff.2 hlists⟩
  fault h' := by cases h'

theorem Faulty.listsLast (h : f.Faulty err) (hes : f.servers = Dict.ofList es) :
    ListsLast es (.error err) := by
  obtain ⟨⟨name, e⟩, he, hl⟩ := h
  rw [hes, Dict.mem_ofList_iff] at he
  obtain ⟨reason, hlacks, herr⟩ := FileEntry.lacks_of_listing hl
  refine ⟨⟨fun ⟨_, h⟩ => (by cases h), fun hv => absurd (hv name e he) hlacks.not_valid⟩,
    fun h => (by cases h), fun h => (by cases h), fun h => (by cases h), ?_⟩
  rintro _ ⟨rfl⟩
  exact ⟨name, e, reason, he, hlacks.not_valid, hlacks, herr⟩

/-- A file is read to what its entries that count list. -/
theorem Reads.listsLast (h : Reads vars files path r) (hf : document vars files path = .ok f)
    (hes : f.servers = Dict.ofList es) : ListsLast es r := by
  cases h with
  | unread hd => rw [hf] at hd; cases hd
  | visited hd hp =>
    obtain rfl := Except.ok.inj (hf.symm.trans hd)
    cases hl : f.listings with
    | ok ls =>
      rw [gather_of_listings hp hl]
      exact listsLast_ok hl hes
    | error err =>
      obtain ⟨err', hg, hfault⟩ := faulty_of_listings hp hl
      rw [hg]
      exact hfault.listsLast hes

end ConfigFile

end Server

end GatedCalls
