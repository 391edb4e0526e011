import Mathlib.Data.List.Perm.Basic
import Mathlib.Data.List.Sort
import GatedCalls.Proofs.Loading.Prefix

/-!
# Two ways to load a file

An engine can be given the servers of a file while it is built (`build`), or afterwards by a policy
(`loadServers`). Both read the file, and the entries of a file are visited in no certain order
before they are sorted (`Server.ConfigFile.Reads`), so two readings can name different entries if
several are invalid, and in nothing else (`Reads.agree`). From there on, both deal with the servers
alike: under the policy that gates what the file lists, one server after the other leaves the two
engines level (`Engine.Level`).
-/

namespace GatedCalls

namespace Server

namespace ConfigFile

/-- The file at a path, before any of its entries is looked at. -/
def document (vars : Expansion.Variables) (files : Host.Files) (path : String) :
    Except SourceError ConfigFile :=
  match files.read (files.expandHome path) with
  | .error e => .error (.io e.message)
  | .ok bytes =>
    match Text.Utf8.decode? bytes with
    | none => .error (.io Host.FileError.notUtf8.message)
    | some text => (decoder.ofText (Expansion.expand vars text)).mapError .json

/-- The listings of entries that are visited in the order of the list, sorted by the names. -/
def gather (entries : List (String × FileEntry)) : Except SourceError (List Listing) := do
  return (← entries.mapM fun e => e.2.listing e.1).mergeSort fun l l' =>
    decide (l.server.name ≤ l'.server.name)

/-- Reading the file gives this result, if its entries are visited in some order. -/
inductive Reads (vars : Expansion.Variables) (files : Host.Files) (path : String) :
    Except SourceError (List Listing) → Prop
  | unread {err : SourceError} (h : document vars files path = .error err) :
    Reads vars files path (.error err)
  | visited {f : ConfigFile} {entries : List (String × FileEntry)}
    (h : document vars files path = .ok f) (hp : entries.Perm f.servers.toList) :
    Reads vars files path (gather entries)

/-- The error of one of the entries of the file. -/
def Faulty (f : ConfigFile) (err : SourceError) : Prop :=
  ∃ e ∈ f.servers.toList, e.2.listing e.1 = .error err

variable {vars : Expansion.Variables} {files : Host.Files} {path : String} {f : ConfigFile}
  {entries : List (String × FileEntry)} {ls ls' : List Listing} {err : SourceError}
  {r r' : Except SourceError (List Listing)}

theorem load_eq_document :
    load vars files path = (document vars files path).bind ConfigFile.listings := by
  unfold load document ofBytes ofText
  cases files.read (files.expandHome path) with
  | error e => rfl
  | ok bytes =>
    dsimp only
    cases Text.Utf8.decode? bytes with
    | none => rfl
    | some text =>
      dsimp only
      cases decoder.ofText (Expansion.expand vars text) <;> rfl

theorem mapM_listing_iff : entries.mapM (fun e => e.2.listing e.1) = .ok ls ↔
    List.Forall₂ (fun e l => e.2.listing e.1 = .ok l) entries ls := by
  induction entries generalizing ls with
  | nil =>
    rw [List.forall₂_nil_left_iff]
    exact ⟨fun h => (Except.ok.inj h).symm, fun h => congrArg Except.ok h.symm⟩
  | cons e rest ih =>
    rw [List.mapM_cons, List.forall₂_cons_left_iff]
    constructor
    · intro h
      cases hl : e.2.listing e.1 with
      | error err => rw [hl] at h; cases h
      | ok l =>
        cases hr : rest.mapM fun e => e.2.listing e.1 with
        | error err => rw [hl, hr] at h; cases h
        | ok more =>
          rw [hl, hr] at h
          exact ⟨l, more, rfl, ih.1 hr, (Except.ok.inj h).symm⟩
    · rintro ⟨l, more, hl, hmore, rfl⟩
      rw [hl, ih.2 hmore]
      rfl

theorem exists_of_mapM_listing (h : entries.mapM (fun e => e.2.listing e.1) = .error err) :
    ∃ e ∈ entries, e.2.listing e.1 = .error err := by
  induction entries with
  | nil => cases h
  | cons e rest ih =>
    rw [List.mapM_cons] at h
    cases hl : e.2.listing e.1 with
    | error err' =>
      rw [hl] at h
      cases h
      exact ⟨e, List.mem_cons_self, hl⟩
    | ok l =>
      cases hr : rest.mapM fun e => e.2.listing e.1 with
      | error err' =>
        rw [hl, hr] at h
        cases h
        obtain ⟨e', he', hl'⟩ := ih hr
        exact ⟨e', List.mem_cons_of_mem e he', hl'⟩
      | ok more => rw [hl, hr] at h; cases h

theorem mergeSort_of_perm (hp : ls'.Perm ls)
    (hs : (ls.map fun l => l.server.name).Pairwise (· < ·)) :
    (ls'.mergeSort fun l l' => decide (l.server.name ≤ l'.server.name)) = ls := by
  have hne (a b : String) (h : a < b) : a ≠ b := fun he => String.lt_irrefl a (by rwa [← he] at h)
  have hnodup : (ls.map fun l => l.server.name).Nodup := hs.imp (hne _ _)
  have hperm := (List.mergeSort_perm ls' fun l l' =>
    decide (l.server.name ≤ l'.server.name)).trans hp
  have hsorted : (ls'.mergeSort fun l l' => decide (l.server.name ≤ l'.server.name)).Pairwise
      fun l l' => decide (l.server.name ≤ l'.server.name) = true := by
    refine List.pairwise_mergeSort (fun _ _ _ h h' => ?_) (fun _ _ => ?_) ls'
    · rw [decide_eq_true_eq] at *
      exact String.le_trans h h'
    · rw [Bool.or_eq_true, decide_eq_true_eq, decide_eq_true_eq]
      exact String.le_total ..
  refine hperm.eq_of_pairwise (fun l l' hl hl' h h' => ?_) hsorted
    ((List.pairwise_map.1 hs).imp fun h => decide_eq_true (Std.le_of_lt h))
  rw [decide_eq_true_eq] at h h'
  exact List.inj_on_of_nodup_map hnodup (hperm.mem_iff.1 hl) hl' (String.le_antisymm h h')

/-- A visit in any order gathers what one in the order of the names does. -/
theorem gather_of_listings (hp : entries.Perm f.servers.toList) (h : f.listings = .ok ls) :
    gather entries = .ok ls := by
  obtain ⟨ls', hls', hperm⟩ := List.perm_comp_forall₂ hp (mapM_listing_iff.1 h)
  have hs : (ls.map fun l => l.server.name).Pairwise (· < ·) := by
    rw [FileEntry.names_of_mapM h]
    exact f.servers.sorted
  rw [gather, mapM_listing_iff.2 hls']
  exact congrArg Except.ok (mergeSort_of_perm hperm hs)

theorem faulty_of_listings (hp : entries.Perm f.servers.toList) (h : f.listings = .error err) :
    ∃ err', gather entries = .error err' ∧ f.Faulty err' := by
  cases hm : entries.mapM fun e => e.2.listing e.1 with
  | ok ls =>
    obtain ⟨ls', hls', -⟩ := List.perm_comp_forall₂ hp.symm (mapM_listing_iff.1 hm)
    have hok : f.listings = .ok ls' := mapM_listing_iff.2 hls'
    rw [hok] at h
    cases h
  | error err' =>
    obtain ⟨e, he, hl⟩ := exists_of_mapM_listing hm
    exact ⟨err', by rw [gather, hm]; rfl, e, hp.mem_iff.1 he, hl⟩

/-- Two readings of a file are the same, or both name entries that are invalid. -/
theorem Reads.agree (h : Reads vars files path r) (h' : Reads vars files path r') :
    r = r' ∨ ∃ f err err', document vars files path = .ok f ∧ f.Faulty err ∧ f.Faulty err' ∧
      r = .error err ∧ r' = .error err' := by
  cases h with
  | unread hd =>
    cases h' with
    | unread hd' => exact .inl (congrArg Except.error (Except.error.inj (hd.symm.trans hd')))
    | visited hd' => rw [hd] at hd'; cases hd'
  | @visited f _ hd hp =>
    cases h' with
    | unread hd' => rw [hd] at hd'; cases hd'
    | visited hd' hp' =>
      obtain rfl := Except.ok.inj (hd.symm.trans hd')
      cases hl : f.listings with
      | ok ls => exact .inl ((gather_of_listings hp hl).trans (gather_of_listings hp' hl).symm)
      | error err =>
        obtain ⟨err₁, hg₁, hf₁⟩ := faulty_of_listings hp hl
        obtain ⟨err₂, hg₂, hf₂⟩ := faulty_of_listings hp' hl
        exact .inr ⟨f, err₁, err₂, hd, hf₁, hf₂, hg₁, hg₂⟩

theorem reads_load (vars : Expansion.Variables) (files : Host.Files) (path : String) :
    Reads vars files path (load vars files path) := by
  rw [load_eq_document]
  cases hd : document vars files path with
  | error err => exact .unread hd
  | ok f =>
    have hvisit := Reads.visited hd (List.Perm.refl f.servers.toList)
    show Reads vars files path f.listings
    cases hl : f.listings with
    | ok ls => rwa [gather_of_listings (.refl _) hl] at hvisit
    | error err =>
      have hm : f.servers.toList.mapM (fun e => e.2.listing e.1) = .error err := hl
      rw [gather, hm] at hvisit
      exact hvisit

end ConfigFile

end Server

/-- The error as the library reports it. -/
def LoadError.reported : LoadError → ReportedError
  | core err => err
  | source err => err.report

namespace Engine

variable {σ β : Type} {x : Exchange σ} {e₁ e₂ : Engine β} {tools : List (Entry β)}

/-- Two engines with the same tools and the same sources. -/
structure Level (e₁ e₂ : Engine β) : Prop where
  catalog_eq : e₁.catalog = e₂.catalog
  kept_eq : e₁.kept = e₂.kept

/-- What two loads give that start and end level and end alike. -/
structure Alike (r₁ : σ × Engine β × Except ReportedError Unit)
    (r₂ : σ × Engine β × Except LoadError Nat) : Prop where
  exchange_eq : r₁.1 = r₂.1
  level : Level r₁.2.1 r₂.2.1
  result_eq : r₁.2.2 = (r₂.2.2.map fun _ => ()).mapError LoadError.reported

theorem loadServer_listed (x : Exchange σ) (w : σ) (e : Engine β) (l : Server.Listing) :
    loadServer x w e .listed l = match x.connect w l.server with
      | (w, source) => match enrolNow x w e source l.group l.gated with
        | (w, e, result) => (w, e, result.mapError .core) := rfl

theorem Level.enrolNow (h : Level e₁ e₂) (x : Exchange σ) (w : σ) (source : Nat) (group : String)
    (gated : NameSet) : ∃ w' e₁' e₂' result,
      enrolNow x w e₁ source group gated = (w', e₁', result) ∧
      enrolNow x w e₂ source group gated = (w', e₂', result) ∧ Level e₁' e₂' := by
  unfold Engine.enrolNow
  rw [h.catalog_eq]
  split
  · exact ⟨_, _, _, _, rfl, rfl, h⟩
  · split
    · exact ⟨_, _, _, _, rfl, rfl, rfl, by rw [h.kept_eq]⟩
    · exact ⟨_, _, _, _, rfl, rfl, h⟩

theorem Level.connectAll (h : Level e₁ e₂) (x : Exchange σ) (w : σ) (total : Nat)
    (ls : List Server.Listing) :
    Alike (connectAll x w e₁ ls) (loadEach x .listed w e₂ total ls) := by
  induction ls generalizing w e₁ e₂ total with
  | nil => exact ⟨rfl, h, rfl⟩
  | cons l rest ih =>
    rw [Engine.connectAll, loadEach, loadServer_listed]
    dsimp only
    obtain ⟨w', e₁', e₂', result, h₁, h₂, h'⟩ :=
      h.enrolNow x (x.connect w l.server).1 (x.connect w l.server).2 l.group l.gated
    rw [h₁, h₂]
    cases result with
    | ok count => exact ih h' w' (total + count)
    | error err => exact ⟨rfl, h', rfl⟩

theorem registerEach_eq (e : Engine β) (tools : List (Entry β)) : e.registerEach tools =
    (tools.foldlM Catalog.register e.catalog).map fun c => { e with catalog := c } := by
  induction tools generalizing e with
  | nil => rfl
  | cons t rest ih =>
    rw [registerEach, List.foldlM_cons, register]
    cases e.catalog.register t with
    | error err => rfl
    | ok c => exact ih _

theorem Level.registerEach (h : Level e₁ e₂) (he : e₂.catalog = ∅)
    (hd : (tools.map Entry.name).Nodup) : ∃ e₁' e₂', e₁.registerEach tools = .ok e₁' ∧
      e₂.registerEach tools = .ok e₂' ∧ Level e₁' e₂' := by
  have hadmits : (∅ : Catalog β).Admits tools := ⟨fun _ _ => rfl, hd⟩
  obtain ⟨c, hc⟩ := hadmits.foldlM
  rw [registerEach_eq, registerEach_eq, h.catalog_eq, he, hc]
  exact ⟨_, _, rfl, rfl, rfl, h.kept_eq⟩

/-- An engine with hooks and nothing else. -/
def hooked (β : Type) (hooks : Nat) : Engine β := hooks.repeat (fun e => e.addHook.1) ∅

theorem level_hooked (hooks : Nat) : Level (hooked β hooks) ∅ := by
  induction hooks with
  | zero => exact ⟨rfl, rfl⟩
  | succ n ih => exact ⟨ih.catalog_eq, ih.kept_eq⟩

/-- What is done with the servers of a file once the tools of the engine are there. -/
def connectFile (x : Exchange σ) (w : σ) (e : Engine β) :
    Except SourceError (List Server.Listing) → σ × Except ReportedError (Engine β)
  | .error err => (w, .error err.report)
  | .ok ls =>
    match connectAll x w e ls with
    | (w, e, .ok ()) => (w, .ok e)
    | (w, _, .error err) => (w, .error err)

theorem build_eq {hooks : Nat} (he : (hooked β hooks).registerEach tools = .ok e₁)
    (x : Exchange σ) (w : σ) (file : Except SourceError (List Server.Listing)) :
    build x w hooks tools [] [file] = connectFile x w e₁ file := by
  have he' : (hooks.repeat (fun e => (addHook e).1) empty).registerEach tools = .ok e₁ := he
  unfold build
  dsimp only
  rw [he']
  cases file with
  | error err => rfl
  | ok ls =>
    have hfiles : ([.ok ls] : List (Except SourceError _)).mapM id = .ok [ls] := rfl
    rw [hfiles]
    dsimp only
    rw [List.nil_append, List.flatten_singleton]
    rfl

/-- What building an engine and loading give that end alike. -/
inductive Agrees : σ × Except ReportedError (Engine β) → σ × Engine β × Except LoadError Nat → Prop
  | done {w : σ} {e₁ e₂ : Engine β} {count : Nat} (h : Level e₁ e₂) :
    Agrees (w, .ok e₁) (w, e₂, .ok count)
  | failed {w : σ} {e₂ : Engine β} (err : LoadError) :
    Agrees (w, .error err.reported) (w, e₂, .error err)

/-- By one reading of the file, both ways do the same. -/
theorem Level.connectFile (h : Level e₁ e₂) (x : Exchange σ) (w : σ)
    (file : Except SourceError (List Server.Listing)) :
    Agrees (connectFile x w e₁ file) (loadServers x w e₂ .listed file) := by
  cases file with
  | error err => exact .failed (.source err)
  | ok ls =>
    have halike := h.connectAll x w 0 ls
    rw [Engine.connectFile, loadServers]
    generalize Engine.connectAll x w e₁ ls = connected at halike
    generalize loadEach x .listed w e₂ 0 ls = loaded at halike
    obtain ⟨w₁, e₁', result₁⟩ := connected
    obtain ⟨w₂, e₂', result₂⟩ := loaded
    obtain ⟨hw, hlevel, hresult⟩ := halike
    dsimp only at hw hlevel hresult
    subst hw hresult
    cases result₂ with
    | ok count => exact .done hlevel
    | error err => exact .failed err

/-- Building an engine with tools and the servers of a file does what registering the tools with an
empty engine and loading the servers does, each by a reading of its own of the same file. -/
theorem loading_agrees (x : Exchange σ) (w : σ) (hooks : Nat) (tools : List (Entry β))
    (vars : Server.Expansion.Variables) (files : Host.Files) (path : String)
    {file₁ file₂ : Except SourceError (List Server.Listing)}
    (hd : (tools.map Entry.name).Nodup)
    (h₁ : Server.ConfigFile.Reads vars files path file₁)
    (h₂ : Server.ConfigFile.Reads vars files path file₂) :
    ∃ e₀, (∅ : Engine β).registerEach tools = .ok e₀ ∧
      let built := build x w hooks tools [] [file₁]
      let loaded := loadServers x w e₀ .listed file₂
      ((∃ e, built.2 = .ok e) ↔ ∃ count, loaded.2.2 = .ok count) ∧
      (∀ e, built.2 = .ok e → e.catalog = loaded.2.1.catalog ∧
        (∀ group, e.tools group = loaded.2.1.tools group) ∧ e.kept = loaded.2.1.kept) ∧
      ∀ err err', built.2 = .error err → loaded.2.2 = .error err' → err = err'.reported ∨
        ∃ f fault fault', Server.ConfigFile.document vars files path = .ok f ∧ f.Faulty fault ∧
          f.Faulty fault' ∧ err = fault.report ∧ err' = .source fault' := by
  obtain ⟨e, e₀, he, he₀, hlevel⟩ := (level_hooked hooks).registerEach rfl hd
  refine ⟨e₀, he₀, ?_⟩
  rw [build_eq he]
  intro built loaded
  -- only if entries are invalid can the two readings differ, and then no server is connected
  rcases h₁.agree h₂ with rfl | ⟨f, fault, fault', hf, hfault, hfault', rfl, rfl⟩
  · have hagrees : Agrees built loaded := hlevel.connectFile x w file₁
    generalize built = built at hagrees
    generalize loaded = loaded at hagrees
    cases hagrees with
    | @done _ e₁ e₂ count h =>
      refine ⟨⟨fun _ => ⟨count, rfl⟩, fun _ => ⟨e₁, rfl⟩⟩, ?_, fun _ _ hb => (by cases hb)⟩
      rintro _ ⟨rfl⟩
      exact ⟨h.catalog_eq, fun group => by rw [Engine.tools, h.catalog_eq, ← Engine.tools],
        h.kept_eq⟩
    | failed err =>
      refine ⟨⟨fun ⟨_, hb⟩ => (by cases hb), fun ⟨_, hl⟩ => (by cases hl)⟩,
        fun _ hb => (by cases hb), ?_⟩
      rintro _ _ ⟨rfl⟩ ⟨rfl⟩
      exact .inl rfl
  · refine ⟨⟨fun ⟨_, hb⟩ => (by cases hb), fun ⟨_, hl⟩ => (by cases hl)⟩,
      fun _ hb => (by cases hb), ?_⟩
    rintro _ _ ⟨rfl⟩ ⟨rfl⟩
    exact .inr ⟨f, fault, fault', hf, hfault, hfault', rfl, rfl⟩

/-- Servers that each declare a tool of their own. -/
def ownTool : Exchange Nat where
  connect made _ := (made + 1, made)
  list made source := (made, .ok [.ofName (["read", "write", "exec"].getD source "")])
  disconnect made _ := made

def helpTool : Entry Unit := .ofTool ⟨"help", "Says what there is.", .null, .own ()⟩

theorem loading_agrees_ownTool : ∃ e e₀ e',
    (∅ : Engine Unit).registerEach [helpTool] = .ok e₀ ∧
    build ownTool 0 2 [helpTool] [] [Server.ConfigFile.load ∅ threeServers "f"] = (3, .ok e) ∧
    loadServers ownTool 0 e₀ .listed (Server.ConfigFile.load ∅ threeServers "f") =
      (3, e', .ok 3) ∧
    (∀ group, e.tools group = e'.tools group) ∧
    (e.tools none).map Info.name = ["help", "read", "write", "exec"] := by
  have hreads := Server.ConfigFile.reads_load ∅ threeServers "f"
  obtain ⟨e₀, he₀, -, hsame, -⟩ :=
    loading_agrees ownTool 0 2 [helpTool] ∅ threeServers "f" (by decide) hreads hreads
  rw [load_threeServers] at hsame ⊢
  cases he₀
  exact ⟨_, _, _, rfl, rfl, rfl, (hsame _ rfl).2.1, by decide⟩

end Engine

end GatedCalls
