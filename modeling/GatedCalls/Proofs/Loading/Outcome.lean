import Mathlib.Tactic.IntervalCases
import GatedCalls.Proofs.Loading.Entries
import GatedCalls.Proofs.Loading.Reordering

/-!
# What a file of servers loads

Files whose entries are the same up to the order of their gated tools are loaded alike, since a file
lists the entries that count and nothing else (`ListsLast`). So the order of servers, of members and
of gated tools is nothing to what is loaded, unless names are repeated (`load_file`). Names count as
they are once references are replaced, and an entry that does not count need not be valid
(`shadowed_and_merged`).
-/

namespace GatedCalls.Server

open Json Tree

namespace FileEntry

/-- The entries differ in the order of the tools that are gated. -/
def Alike (e e' : FileEntry) : Prop :=
  ∃ tools, e' = { e with gated := tools } ∧ e.gated.Perm tools

def Parts.Alike (p q : Parts) : Prop :=
  ∃ tools, q = { p with gated := tools } ∧ Option.Rel List.Perm p.gated tools

theorem independent_treeFields : Slot.Independent treeFields where
  marks := by
    simp only [treeFields, List.forall_mem_cons, List.not_mem_nil, false_imp_iff, implies_true,
      and_true]
    and_intros
    all_goals
      intro t p q h
      obtain ⟨a, -, rfl⟩ := Slot.part_eq_some.1 h
      rfl
  apart := by
    simp only [treeFields, List.pairwise_cons, List.forall_mem_cons, List.not_mem_nil,
      false_imp_iff, implies_true, and_true, List.Pairwise.nil]
    and_intros
    all_goals exact Slot.apart_part (fun _ _ _ => rfl) (fun _ _ => rfl) fun _ _ => rfl

theorem fieldKeeps_of_eq {α : Type} {r : Role} {name : String} {present : Parts → Bool}
    {read : Tree → Option α} {put : Parts → α → Parts} {mayEnd : Bool} (h : Keeps r read Eq)
    (hpresent : ∀ (p : Parts) tools, present { p with gated := tools } = present p)
    (hput : ∀ (p : Parts) tools a,
      put { p with gated := tools } a = { put p a with gated := tools })
    (hgated : ∀ p a, (put p a).gated = p.gated) :
    FieldKeeps Parts.Alike r (.part name present read put mayEnd) := by
  refine fieldKeeps_part h ?_ ?_
  · rintro p _ ⟨tools, rfl, -⟩
    exact (hpresent p tools).symm
  · rintro p _ a _ ⟨tools, rfl, hp⟩ rfl
    refine ⟨tools, hput p tools a, ?_⟩
    rwa [hgated]

theorem fieldKeeps_treeFields :
    ∀ f ∈ treeFields, FieldKeeps Parts.Alike (Role.entry.member (some f.name)) f := by
  have htext (r : Role) : Keeps r (optional? text?) Eq := (keeps_text r).optional
  have hdict (r : Role) : Keeps r (optional? (dict? text?)) Eq :=
    (Keeps.dict fun _ => keeps_text _).optional
  have htexts : Keeps .other (list? text?) Eq := .list (fun _ => keeps_text _) (by decide)
  simp only [treeFields, List.forall_mem_cons, List.not_mem_nil, false_imp_iff, implies_true,
    and_true]
  refine ⟨?_, ?_, ?_, ?_, ?_, ?_, ?_, ?_⟩
  · exact fieldKeeps_of_eq (htext _) (fun _ _ => rfl) (fun _ _ _ => rfl) fun _ _ => rfl
  · exact fieldKeeps_of_eq (htext _) (fun _ _ => rfl) (fun _ _ _ => rfl) fun _ _ => rfl
  · exact fieldKeeps_of_eq htexts.optional (fun _ _ => rfl) (fun _ _ _ => rfl) fun _ _ => rfl
  · exact fieldKeeps_of_eq (hdict _) (fun _ _ => rfl) (fun _ _ _ => rfl) fun _ _ => rfl
  · exact fieldKeeps_of_eq (htext _) (fun _ _ => rfl) (fun _ _ _ => rfl) fun _ _ => rfl
  · exact fieldKeeps_of_eq (hdict _) (fun _ _ => rfl) (fun _ _ _ => rfl) fun _ _ => rfl
  · exact fieldKeeps_of_eq (htext _) (fun _ _ => rfl) (fun _ _ _ => rfl) fun _ _ => rfl
  · refine fieldKeeps_part keeps_tools ?_ ?_
    · rintro p _ ⟨tools, rfl, hp⟩
      show p.gated.isSome = tools.isSome
      generalize p.gated = gated at hp
      cases hp <;> rfl
    · rintro p _ a b ⟨tools, rfl, hp⟩ hab
      exact ⟨some b, rfl, .some hab⟩

theorem keeps_ofTree? : Keeps .entry ofTree? Alike := by
  refine keeps_record (R := Parts.Alike) independent_treeFields fieldKeeps_treeFields ?_ (by decide)
    ⟨none, rfl, .none⟩ ?_
  · intro i f h
    have hi : i < 8 := (List.getElem?_eq_some_iff.1 h).1
    interval_cases i <;> (cases h; rfl)
  · rintro p _ e ⟨tools, rfl, hp⟩ ⟨rfl⟩
    refine ⟨_, rfl, tools.getD [], rfl, ?_⟩
    show (p.gated.getD []).Perm (tools.getD [])
    generalize p.gated = gated at hp
    cases hp with
    | none => exact .refl []
    | some hp => exact hp

theorem Alike.valid_iff {e e' : FileEntry} (h : Alike e e') : e.Valid ↔ e'.Valid := by
  obtain ⟨tools, rfl, -⟩ := h
  rfl

theorem Alike.lists {e e' : FileEntry} {name : String} {l : Listing} (h : Alike e e')
    (hl : e.Lists name l) : e'.Lists name l := by
  obtain ⟨tools, rfl, hp⟩ := h
  obtain ⟨hname, hreaches, hgroup, hgated⟩ := hl
  refine ⟨hname, ?_, hgroup, fun tool => (hgated tool).trans hp.mem_iff⟩
  generalize l.server.transport = t at hreaches
  cases hreaches with
  | program ht hc => exact .program ht hc
  | address ha hu => exact .address ha hu

end FileEntry

namespace ConfigFile

variable {es es' : List (String × FileEntry)}

theorem keeps_entries? : Keeps .servers entries? (Covers FileEntry.Alike) := by
  intro t u es hr ht hes
  cases t with
  | object ms =>
    obtain ⟨ns, -, rfl, -⟩ := hr.object_inv
    exact keeps_named (r := .servers) (fun _ => FileEntry.keeps_ofTree?) hr ht hes
  | _ => cases hes

theorem keeps_servers? : Keeps .file servers? (Covers FileEntry.Alike) := by
  refine keeps_record (R := Option.Rel (Covers FileEntry.Alike)) ⟨?_, .cons (by simp) .nil⟩ ?_ ?_
    (by decide) .none ?_
  · simp only [List.forall_mem_singleton]
    intro t p q h
    obtain ⟨a, -, rfl⟩ := Slot.part_eq_some.1 h
    rfl
  · simp only [List.forall_mem_singleton]
    refine fieldKeeps_part keeps_entries? ?_ ?_
    · rintro p q hp
      cases hp <;> rfl
    · exact fun _ _ _ _ _ hs => .some hs
  · rintro i f h
    cases i with
    | zero => cases h; rfl
    | succ i => cases h
  · rintro p q es hp ⟨rfl⟩
    cases hp with
    | some hs => exact ⟨_, rfl, hs⟩

theorem last_of_covers (hc : Covers FileEntry.Alike es es') {name : String} {e : FileEntry}
    (h : Last es name e) : ∃ e', Last es' name e' ∧ e.Alike e' := by
  obtain ⟨e', he', halike⟩ := hc.covers h.mem
  exact ⟨e', (last_iff_mem hc.nodup').2 he', halike⟩

theorem ListsLast.mem_of_covers {ls ls' : List Listing} (h : ListsLast es (.ok ls))
    (h' : ListsLast es' (.ok ls')) (hc : Covers FileEntry.Alike es es') {l : Listing}
    (hl : l ∈ ls) : l ∈ ls' := by
  obtain ⟨e, hlast, hlists⟩ := (h.mem rfl l).1 hl
  obtain ⟨e', hlast', halike⟩ := last_of_covers hc hlast
  exact (h'.mem rfl l).2 ⟨e', hlast', halike.lists hlists⟩

theorem ListsLast.eq_of_covers {ls : List Listing} {r : Except SourceError (List Listing)}
    (h : ListsLast es (.ok ls)) (h' : ListsLast es' r) (hc : Covers FileEntry.Alike es es')
    (hc' : Covers FileEntry.Alike es' es) : r = .ok ls := by
  obtain ⟨ls', rfl⟩ : ∃ ls', r = .ok ls' := by
    refine h'.succeeds.2 fun name e' hlast => ?_
    obtain ⟨e, hlast', halike⟩ := last_of_covers hc' hlast
    exact halike.valid_iff.2 (h.succeeds.1 ⟨ls, rfl⟩ name e hlast')
  have hs := List.pairwise_map.1 (h.sorted rfl)
  have hs' := List.pairwise_map.1 (h'.sorted rfl)
  have hne {l l' : Listing}
      (hlt : Text.Utf8.encode l.server.name < Text.Utf8.encode l'.server.name) : l ≠ l' := by
    rintro rfl
    exact List.lt_irrefl _ hlt
  have hperm : ls'.Perm ls := (List.perm_ext_iff_of_nodup (hs'.imp hne) (hs.imp hne)).2 fun l =>
    ⟨h'.mem_of_covers h hc', h.mem_of_covers h' hc⟩
  exact congrArg _ (hperm.eq_of_pairwise
    (fun _ _ _ _ hlt hlt' => absurd (List.lt_trans hlt hlt') (List.lt_irrefl _)) hs' hs)

/-! ### Files -/

variable {vars vars' : Expansion.Variables} {files files' : Host.Files}
  {path path' text text' : String}

/-- The file at the path holds this text. -/
def Holds (files : Host.Files) (path text : String) : Prop :=
  ∃ bytes, files.read (files.expandHome path) = .ok bytes ∧ Text.Utf8.decode? bytes = some text

theorem Holds.document (h : Holds files path text) : document vars files path =
    (decoder.ofText (Expansion.expand vars text)).mapError .json := by
  obtain ⟨bytes, hread, hdecode⟩ := h
  unfold ConfigFile.document
  rw [hread]
  dsimp only
  rw [hdecode]

theorem Holds.listsLast {t : Tree} {r : Except SourceError (List Listing)}
    (h : Holds files path text) (hw : Writes (Expansion.expand vars text) t)
    (hes : servers? t = some es) (hr : Reads vars files path r) : ListsLast es r :=
  hr.listsLast (by rw [h.document, decodes_of_servers? hw hes]; rfl) rfl

theorem Holds.decodes_of_reads {ls : List Listing} (h : Holds files path text)
    (hr : Reads vars files path (.ok ls)) :
    ∃ f, decoder.ofText (Expansion.expand vars text) = .ok f := by
  generalize hls : Except.ok ls = r at hr
  cases hr with
  | unread => cases hls
  | visited hd =>
    rw [h.document] at hd
    exact ⟨_, mapError_ok_iff.1 hd⟩

/-- What the file lists, the one in another order lists as well. -/
theorem Holds.reads_of_reordered {t t' : Tree} {ls : List Listing}
    {r : Except SourceError (List Listing)} (h : Holds files path text)
    (hw : Writes (Expansion.expand vars text) t) (h' : Holds files' path' text')
    (hw' : Writes (Expansion.expand vars' text') t') (ht : t.Distinct)
    (hreordered : Reordered .file t t') (hls : Reads vars files path (.ok ls))
    (hr : Reads vars' files' path' r) : r = .ok ls := by
  obtain ⟨f, hf⟩ := h.decodes_of_reads hls
  obtain ⟨t₀, es, hw₀, hes, -⟩ := decodes_iff.1 hf
  obtain rfl := hw₀.unique hw
  obtain ⟨es', hes', hcovers⟩ := keeps_servers? hreordered ht hes
  obtain ⟨es₀, hes₀, hcovers'⟩ := keeps_servers? hreordered.symm (hreordered.distinct ht) hes'
  cases hes.symm.trans hes₀
  exact (h.listsLast hw hes hls).eq_of_covers (h'.listsLast hw' hes' hr) hcovers hcovers'

/-- A file that can be read has entries, of which the last one of each name counts: it is loaded if
these are valid, and lists them, in whichever order the entries are visited. A file that differs
from it in the order of members and of gated tools lists the same, unless names are repeated. -/
theorem load_file (h : Holds files path text) :
    Reads vars files path (load vars files path) ∧
    (∀ f, decoder.ofText (Expansion.expand vars text) = .ok f →
      ∃ t es, Writes (Expansion.expand vars text) t ∧ servers? t = some es ∧
        ∀ r, Reads vars files path r → ListsLast es r) ∧
    ∀ (vars' : Expansion.Variables) (files' : Host.Files) (path' text' : String) (t t' : Tree),
      Writes (Expansion.expand vars text) t → Holds files' path' text' →
      Writes (Expansion.expand vars' text') t' → t.Distinct → Reordered .file t t' →
      ∀ r r', Reads vars files path r → Reads vars' files' path' r' →
        ∀ ls, r = .ok ls ↔ r' = .ok ls := by
  refine ⟨reads_load vars files path, ?_, ?_⟩
  · intro f hf
    obtain ⟨t, es, hw, hes, -⟩ := decodes_iff.1 hf
    exact ⟨t, es, hw, hes, fun r hr => h.listsLast hw hes hr⟩
  · intro vars' files' path' text' t t' hw h' hw' ht hreordered r r' hr hr' ls
    constructor
    · rintro rfl
      exact h.reads_of_reordered hw h' hw' ht hreordered hr hr'
    · rintro rfl
      exact h'.reads_of_reordered hw' h hw (hreordered.distinct ht) hreordered.symm hr' hr

/-! ### Files that differ in their order -/

theorem load_oneFile {ls : List Listing} (h : (ofText vars text).toOption = some ls) :
    load vars (Engine.oneFile (Text.Utf8.encode text)) "f" = .ok ls := by
  rw [load_of_text (Engine.read_oneFile _) (Text.Utf8.decode?_encode text)]
  exact toOption_eq_some_iff.1 h

theorem holds_oneFile (text : String) : Holds (Engine.oneFile (Text.Utf8.encode text)) "f" text :=
  ⟨_, Engine.read_oneFile _, Text.Utf8.decode?_encode text⟩

def fileTree (servers : List (Option String × Tree)) : Tree :=
  .object [(some "mcpServers", .object servers)]

def spelled (s : String) : Tree := .string (some s)

theorem reordered_two {k k' : Option String} {t t' : Tree} (h : Reordered .entry t t') (u : Tree) :
    Reordered .file (fileTree [(k, t), (k', u)]) (fileTree [(k', u), (k, t')]) := by
  have hservers : Reordered .servers (.object [(k, t), (k', u)]) (.object [(k', u), (k, t')]) := by
    refine .object [(k, t, t'), (k', u, u)] (.refl _) (.swap ..) ?_
    rw [List.forall_mem_cons, List.forall_mem_singleton]
    exact ⟨h, .same ..⟩
  refine .object [(some "mcpServers", _, _)] (.refl _) (.refl _) ?_
  rw [List.forall_mem_singleton]
  exact hservers

/-- Two servers, the second one with its type and its address. -/
def twoText : String :=
  "\x7b\"mcpServers\": \x7b\"b\": \x7b\"command\": \"x\", \"confirmTools\": [\"p\", \"q\"]\x7d, " ++
    "\"a\": \x7b\"type\": \"sse\", \"url\": \"u\"\x7d\x7d\x7d"

/-- The same servers in another order. -/
def otherTwoText : String :=
  "\x7b\"mcpServers\": \x7b\"a\": \x7b\"type\": \"sse\", \"url\": \"u\"\x7d, " ++
    "\"b\": \x7b\"confirmTools\": [\"q\", \"p\"], \"command\": \"x\"\x7d\x7d\x7d"

def addressTree : Tree := .object [(some "type", spelled "sse"), (some "url", spelled "u")]

def twoTree : Tree :=
  fileTree [(some "b", .object [(some "command", spelled "x"),
    (some "confirmTools", .array [spelled "p", spelled "q"])]), (some "a", addressTree)]

def otherTwoTree : Tree :=
  fileTree [(some "a", addressTree), (some "b", .object [
    (some "confirmTools", .array [spelled "q", spelled "p"]), (some "command", spelled "x")])]

theorem reordered_twoTree : Reordered .file twoTree otherTwoTree := by
  have htools : Reordered .tools (.array [spelled "p", spelled "q"])
      (.array [spelled "q", spelled "p"]) := .tools (.swap ..)
  refine reordered_two ?_ addressTree
  refine .object [(some "command", spelled "x", spelled "x"), (some "confirmTools", _, _)]
    (.refl _) (.swap ..) ?_
  rw [List.forall_mem_cons, List.forall_mem_singleton]
  exact ⟨.same .., htools⟩

theorem load_file_two : twoTree.Distinct ∧ Reordered .file twoTree otherTwoTree ∧
    (∃ t es, Writes (Expansion.expand ∅ twoText) t ∧ servers? t = some es ∧
      ListsLast es (load ∅ (Engine.oneFile (Text.Utf8.encode twoText)) "f")) ∧
    ∀ text ∈ [twoText, otherTwoText], load ∅ (Engine.oneFile (Text.Utf8.encode text)) "f" =
      .ok [⟨⟨"a", .ofUrl "u"⟩, "a", ∅⟩, ⟨⟨"b", .ofCommand "x"⟩, "b", .ofList ["p", "q"]⟩] := by
  have hdistinct : twoTree.Distinct := by simp [twoTree, fileTree, addressTree, spelled]
  have hw : Writes (Expansion.expand ∅ twoText) twoTree := written_iff.2 (by decide +kernel)
  have hw' : Writes (Expansion.expand ∅ otherTwoText) otherTwoTree :=
    written_iff.2 (by decide +kernel)
  have hload : load ∅ (Engine.oneFile (Text.Utf8.encode twoText)) "f" =
      .ok [⟨⟨"a", .ofUrl "u"⟩, "a", ∅⟩, ⟨⟨"b", .ofCommand "x"⟩, "b", .ofList ["p", "q"]⟩] :=
    load_oneFile (by decide +kernel)
  have hdecodes : (decoder.ofText (Expansion.expand ∅ twoText)).toOption.isSome := by
    decide +kernel
  obtain ⟨f, hf⟩ := Option.isSome_iff_exists.1 hdecodes
  obtain ⟨hreads, hlists, hother⟩ := load_file (holds_oneFile twoText)
  obtain ⟨t, es, ht, hes, hlast⟩ := hlists f (toOption_eq_some_iff.1 hf)
  refine ⟨hdistinct, reordered_twoTree, ⟨t, es, ht, hes, hlast _ hreads⟩, ?_⟩
  rw [List.forall_mem_cons, List.forall_mem_singleton]
  exact ⟨hload, (hother ∅ _ "f" otherTwoText _ _ hw (holds_oneFile otherTwoText) hw' hdistinct
    reordered_twoTree _ _ hreads (reads_load ..) _).1 hload⟩

def commandTree (command : String) : Tree := .object [(some "command", spelled command)]

/-- Two entries of one name, the first of them without a command. -/
def shadowedText : String :=
  "\x7b\"mcpServers\": \x7b\"a\": \x7b\x7d, \"a\": \x7b\"command\": \"x\"\x7d\x7d\x7d"

/-- Two servers by the names of variables. -/
def mergedText (first second : String) : String :=
  "\x7b\"mcpServers\": \x7b" ++ first ++ ", " ++ second ++ "\x7d\x7d"

def mergedServer (name command : String) : String :=
  "\"$\x7b" ++ name ++ ":-s\x7d\": \x7b\"command\": \"" ++ command ++ "\"\x7d"

/-- An entry that does not count need not be valid, and servers whose names are the same only once
their references are replaced are not loaded alike in each order. -/
theorem shadowed_and_merged :
    (∃ t es e ls, Writes (Expansion.expand ∅ shadowedText) t ∧ servers? t = some es ∧
      ("a", e) ∈ es ∧ ¬e.Valid ∧
      load ∅ (Engine.oneFile (Text.Utf8.encode shadowedText)) "f" = .ok ls) ∧
    let text := mergedText (mergedServer "TG_A" "1") (mergedServer "TG_B" "2")
    let text' := mergedText (mergedServer "TG_B" "2") (mergedServer "TG_A" "1")
    ∃ t t' ls ls', Writes text t ∧ Writes text' t' ∧ t.Distinct ∧ Reordered .file t t' ∧
      load ∅ (Engine.oneFile (Text.Utf8.encode text)) "f" = .ok ls ∧
      load ∅ (Engine.oneFile (Text.Utf8.encode text')) "f" = .ok ls' ∧ ls ≠ ls' := by
  constructor
  · refine ⟨fileTree [(some "a", .object []), (some "a", commandTree "x")],
      [("a", default), ("a", ⟨none, some "x", none, none, none, none, none, []⟩)], default,
      [⟨⟨"a", .ofCommand "x"⟩, "a", ∅⟩], written_iff.2 (by decide +kernel), by decide +kernel,
      List.mem_cons_self, ?_, load_oneFile (by decide +kernel)⟩
    rintro (⟨-, h⟩ | ⟨-, h⟩) <;> cases h
  · refine ⟨fileTree [(some "$\x7bTG_A:-s\x7d", commandTree "1"),
        (some "$\x7bTG_B:-s\x7d", commandTree "2")],
      fileTree [(some "$\x7bTG_B:-s\x7d", commandTree "2"),
        (some "$\x7bTG_A:-s\x7d", commandTree "1")],
      [⟨⟨"s", .ofCommand "2"⟩, "s", ∅⟩], [⟨⟨"s", .ofCommand "1"⟩, "s", ∅⟩],
      written_iff.2 (by decide +kernel), written_iff.2 (by decide +kernel), ?_,
      reordered_two (.same ..) _, load_oneFile (by decide +kernel),
      load_oneFile (by decide +kernel), by decide⟩
    simp [fileTree, commandTree, spelled]

end ConfigFile

end GatedCalls.Server
