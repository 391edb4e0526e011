import GatedCalls.Proofs.Loading
import GatedCalls.Proofs.Catalog.Upkeep

/-!
# A load that stops

The servers of a file are loaded in the order of their names, up to the first that fails. A server
can fail in three ways: it does not list its tools when the policy asks for their names, it does not
list them to be registered, or the catalog refuses what it lists (`Fails`). `Succeeds` says of the
servers before it that none of this happens: they are heard, and the catalog as it was before the
load admits all their batches one after the other. Both speak of that first catalog alone, and not
of what the load has made of it by then.

Servers that succeed are loaded whatever comes after them (`loadEach_append`), and each list of
servers succeeds or has a first that fails (`succeeds_or_fails`). So what a load leaves behind is
always the batches of the servers before the one that failed, and all that was done with servers is
known, step by step (`Contact`).
-/

namespace GatedCalls

namespace Server

theorem FileEntry.name_of_listing {name : String} {e : FileEntry} {l : Listing}
    (h : e.listing name = .ok l) : l.server.name = name := by
  unfold listing at h
  cases ht : e.transport name with
  | error err => rw [ht] at h; cases h
  | ok t => rw [ht] at h; cases h; rfl

theorem FileEntry.names_of_mapM {entries : List (String × FileEntry)} {listings : List Listing}
    (h : entries.mapM (fun e => e.2.listing e.1) = .ok listings) :
    listings.map (fun l => l.server.name) = entries.map Prod.fst := by
  induction entries generalizing listings with
  | nil => cases h; rfl
  | cons e rest ih =>
    rw [List.mapM_cons] at h
    cases hl : e.2.listing e.1 with
    | error err => rw [hl] at h; cases h
    | ok l =>
      cases hr : rest.mapM (fun e => e.2.listing e.1) with
      | error err => rw [hl, hr] at h; cases h
      | ok more =>
        rw [hl, hr] at h
        cases h
        rw [List.map_cons, List.map_cons, name_of_listing hl, ih hr]

namespace ConfigFile

theorem exists_of_load {vars : Expansion.Variables} {files : Host.Files} {path : String}
    {listings : List Listing} (h : load vars files path = .ok listings) :
    ∃ f : ConfigFile, f.listings = .ok listings := by
  unfold load at h
  split at h
  · cases h
  · unfold ofBytes at h
    split at h
    · cases h
    · unfold ofText at h
      split at h
      · rename_i f _
        exact ⟨f, h⟩
      · cases h

/-- A file gives its servers in increasing order of their names. -/
theorem ordered_of_load {vars : Expansion.Variables} {files : Host.Files} {path : String}
    {listings : List Listing} (h : load vars files path = .ok listings) :
    (listings.map fun l => l.server.name).Pairwise (· < ·) := by
  obtain ⟨f, hf⟩ := exists_of_load h
  rw [FileEntry.names_of_mapM hf]
  exact f.servers.sorted

end ConfigFile

theorem load_of_text {vars : Expansion.Variables} {files : Host.Files} {path s : String}
    {bytes : List UInt8} (hread : files.read (files.expandHome path) = .ok bytes)
    (hbytes : Text.Utf8.decode? bytes = some s) :
    ConfigFile.load vars files path = ConfigFile.ofText vars s := by
  rw [ConfigFile.load, hread]
  dsimp only
  rw [ConfigFile.ofBytes, hbytes]

end Server

/-- One thing that is done with a server: a client is made for it, or that client is used. -/
inductive Contact
  | connect (server : Server.Config)
  | list (source : Nat)
  | disconnect (source : Nat)
deriving DecidableEq

variable {σ β : Type} {x : Exchange σ} {policy : Policy} {w w' w₁ w₂ : σ} {e : Engine β}
  {c c' : Catalog β} {load : Load} {loads : List Load} {l : Server.Listing} {source : Nat}
  {named : List String} {earlier batch : List (Entry β)} {cs : List Contact} {err : LoadError}

namespace Exchange

def meet (x : Exchange σ) (w : σ) : Contact → σ
  | .connect server => (x.connect w server).1
  | .list source => (x.list w source).1
  | .disconnect source => x.disconnect w source

/-- The exchange after these contacts, and no others. -/
def after (x : Exchange σ) (w : σ) (cs : List Contact) : σ := cs.foldl x.meet w

theorem after_append (more : List Contact) : x.after w (cs ++ more) = x.after (x.after w cs) more :=
  List.foldl_append

end Exchange

/-- What is done with a server to hear of its tools. -/
def Policy.contacts (p : Policy) (server : Server.Config) (source : Nat) : List Contact :=
  .connect server :: (if p.needsDiscovery then [.list source] else []) ++ [.list source]

def Load.contacts (policy : Policy) (l : Load) : List Contact :=
  policy.contacts l.listing.server l.source

/-- The names that the policy needs are known; `w` is the exchange before, and `w'` after. -/
def Named (x : Exchange σ) (policy : Policy) (source : Nat) (w : σ) (named : List String) (w' : σ) :
    Prop :=
  if policy.needsDiscovery then
    ∃ ds, x.list w source = (w', .ok ds) ∧ named = ds.filterMap (·.name)
  else w' = w ∧ named = []

/-- Each server is heard in its turn, and the names of all their tools are free in the catalog `c`
and differ. -/
structure Succeeds (x : Exchange σ) (policy : Policy) (c : Catalog β) (w : σ) (loads : List Load)
    (w' : σ) : Prop where
  heard : Dialogue x policy w loads w'
  free : c.Admits (loads.flatMap (Load.entries β policy))

/-- How a server ends a load: what is done with it, and the error. Registered before it were the
catalog `c` and then the entries of earlier servers. -/
inductive Fails (x : Exchange σ) (policy : Policy) (c : Catalog β) (earlier : List (Entry β))
    (w : σ) (l : Server.Listing) : List Contact → LoadError → Prop
  | unnamed {w₁ w₂ : σ} {source : Nat} {err : SourceError} (hp : policy.needsDiscovery = true)
    (hc : x.connect w l.server = (w₁, source)) (hl : x.list w₁ source = (w₂, .error err)) :
    Fails x policy c earlier w l [.connect l.server, .list source] (.source err)
  | unlisted {w₁ w₂ w₃ : σ} {source : Nat} {named : List String} {err : SourceError}
    (hc : x.connect w l.server = (w₁, source)) (hn : Named x policy source w₁ named w₂)
    (hl : x.list w₂ source = (w₃, .error err)) :
    Fails x policy c earlier w l (policy.contacts l.server source) (.core err.report)
  | clash {load : Load} {w' : σ} {name : String} (hl : load.listing = l)
    (hh : Heard x policy w load w')
    (hr : c.Refuses (earlier ++ load.entries β policy) name) :
    Fails x policy c earlier w l (load.contacts policy ++ [.disconnect load.source])
      (.core (.duplicateName name))

/-- The engine `e'` is `e` with the tools of the servers, all of them and in order, and it keeps the
servers. Every catalog that registrations build is coherent (`Catalog.Coherent.run`), and then the
listing shows it. -/
structure Loaded (policy : Policy) (e : Engine β) (loads : List Load) (e' : Engine β) : Prop where
  adds : e.catalog.Adds (loads.flatMap (Load.entries β policy)) e'.catalog
  ordered : e'.catalog.order =
    e.catalog.order ++ (loads.flatMap (Load.entries β policy)).map Entry.name
  listed : e.catalog.Coherent → e'.catalog.Coherent ∧
    e'.catalog.list none = e.catalog.list none ++ loads.flatMap (Load.entries β policy)
  rest : e' = { e with catalog := e'.catalog, kept := e.kept ++ loads.map Load.source }

/-! ### What is done with servers -/

theorem Named.after (h : Named x policy source w named w') :
    w' = x.after w (if policy.needsDiscovery then [.list source] else []) := by
  unfold Named at h
  split at h
  · rename_i hp
    obtain ⟨ds, hl, -⟩ := h
    rw [if_pos hp]
    exact (congrArg Prod.fst hl).symm
  · rename_i hp
    rw [if_neg hp]
    exact h.1

/-- A server whose client was made and whose names are known was met like this, whatever it answers
next. -/
theorem Named.after_contacts (hc : x.connect w l.server = (w₁, source))
    (hn : Named x policy source w₁ named w₂) :
    x.after w (policy.contacts l.server source) = (x.list w₂ source).1 := by
  have hconnect : x.meet w (.connect l.server) = w₁ := congrArg Prod.fst hc
  rw [hn.after, ← hconnect]
  exact x.after_append [.list source]

theorem Heard.after (h : Heard x policy w load w') : x.after w (load.contacts policy) = w' := by
  obtain ⟨w₁, w₂, hc, hn, hl⟩ := h.said
  exact (Named.after_contacts hc hn).trans (congrArg Prod.fst hl)

theorem Dialogue.after (h : Dialogue x policy w loads w') :
    x.after w (loads.flatMap (Load.contacts policy)) = w' := by
  induction h with
  | nil w => rfl
  | cons h _ ih => rw [List.flatMap_cons, Exchange.after_append, h.after, ih]

theorem Policy.eq_of_connect_mem {server s : Server.Config}
    (h : .connect s ∈ policy.contacts server source) : s = server := by
  unfold contacts at h
  split at h <;> simpa using h

theorem Fails.eq_of_connect_mem {s : Server.Config} (h : Fails x policy c earlier w l cs err)
    (hs : .connect s ∈ cs) : s = l.server := by
  cases h with
  | unnamed => simpa using hs
  | unlisted => exact Policy.eq_of_connect_mem hs
  | clash hl _ _ =>
    subst hl
    rcases List.mem_append.1 hs with hs | hs
    · exact Policy.eq_of_connect_mem hs
    · cases List.mem_singleton.1 hs

/-- Clients are made for the servers that succeed and for the one that fails, and for none that
comes after them. -/
theorem Fails.later_not_mem {rest : List Server.Listing} {later : Server.Listing}
    (h : Fails x policy c earlier w l cs err)
    (hnames : ((loads.map Load.listing ++ l :: rest).map fun l => l.server.name).Pairwise (· < ·))
    (hlater : later ∈ rest) :
    .connect later.server ∉ loads.flatMap (Load.contacts policy) ++ cs := by
  intro hs
  have hreached : ∃ l' ∈ loads.map Load.listing ++ [l], later.server = l'.server := by
    rcases List.mem_append.1 hs with hs | hs
    · obtain ⟨load, hload, hs⟩ := List.mem_flatMap.1 hs
      exact ⟨_, List.mem_append_left _ (List.mem_map_of_mem hload), Policy.eq_of_connect_mem hs⟩
    · exact ⟨l, List.mem_append_right _ List.mem_cons_self, h.eq_of_connect_mem hs⟩
  obtain ⟨l', hl', heq⟩ := hreached
  rw [← List.singleton_append, ← List.append_assoc, List.map_append] at hnames
  have hlt := (List.pairwise_append.1 hnames).2.2 _ (List.mem_map_of_mem hl') _
    (List.mem_map_of_mem hlater)
  rw [heq] at hlt
  exact String.lt_irrefl _ hlt

/-! ### One server -/

theorem Named.gatedNames (h : Named x policy source w named w') (listed : NameSet) :
    Engine.gatedNames x w policy source listed =
      (w', .ok (policy.confirmationSet named listed)) := by
  unfold Named at h
  unfold Engine.gatedNames
  split at h
  · rename_i hp
    obtain ⟨ds, hl, rfl⟩ := h
    rw [if_pos hp, hl]
  · rename_i hp
    obtain ⟨rfl, rfl⟩ := h
    rw [if_neg hp]
    rfl

namespace Engine

theorem loadServer_of_named (hc : x.connect w l.server = (w₁, source))
    (hn : Named x policy source w₁ named w₂) : loadServer x w e policy l =
      let p := enrolNow x w₂ e source l.group (policy.confirmationSet named l.gated)
      (p.1, p.2.1, p.2.2.mapError .core) := by
  unfold loadServer
  rw [hc]
  dsimp only
  rw [hn.gatedNames]

theorem loadServer_of_heard (h : Heard x policy w load w') :
    loadServer x w e policy load.listing =
      match e.catalog.registerAll (load.entries β policy) with
      | .ok (c, n) => (w', { e with catalog := c, kept := e.kept ++ [load.source] }, .ok n)
      | .error err => (x.disconnect w' load.source, e, .error (.core err.report)) := by
  obtain ⟨w₁, w₂, hc, hn, hl⟩ := h.said
  rw [loadServer_of_named hc hn]
  unfold enrolNow Load.entries Load.gatedNames
  rw [hl]
  dsimp only
  cases e.catalog.registerAll _ <;> rfl

theorem loadServer_of_fails (h : Fails x policy e.catalog [] w l cs err) :
    loadServer x w e policy l = (x.after w cs, e, .error err) := by
  cases h with
  | @unnamed w₁ w₂ source err hp hc hl =>
    have hw : x.after w [.connect l.server, .list source] = w₂ := by
      show (x.list (x.connect w l.server).1 source).1 = w₂
      rw [hc, hl]
    rw [hw]
    unfold loadServer gatedNames
    rw [hc]
    dsimp only
    rw [if_pos hp, hl]
  | unlisted hc hn hl =>
    rw [loadServer_of_named hc hn, Named.after_contacts hc hn]
    unfold enrolNow
    rw [hl]
    rfl
  | @clash load w' name hload hh hr =>
    subst hload
    rw [List.nil_append] at hr
    rw [loadServer_of_heard hh, Catalog.registerAll_eq_error.2 ⟨name, hr, rfl⟩,
      Exchange.after_append, hh.after]
    rfl

theorem loadEach_append (h : Succeeds x policy e.catalog w loads w') : ∃ c',
    (loads.flatMap (Load.entries β policy)).foldlM Catalog.register e.catalog = .ok c' ∧
    ∀ total rest, loadEach x policy w e total (loads.map Load.listing ++ rest) =
      loadEach x policy w' { e with catalog := c', kept := e.kept ++ loads.map Load.source }
        (total + (loads.flatMap (Load.entries β policy)).length) rest := by
  obtain ⟨hd, ha⟩ := h
  induction hd generalizing e with
  | nil w =>
    refine ⟨e.catalog, rfl, fun total rest => ?_⟩
    simp only [List.map_nil, List.nil_append, List.append_nil, List.flatMap_nil, List.length_nil,
      Nat.add_zero]
  | @cons w w₁ w' load rest hh hd ih =>
    -- the servers after the first meet the catalog with its batch in it
    rw [List.flatMap_cons] at ha
    obtain ⟨c₁, hr, hf⟩ := Catalog.registerAll_of_admits ha.left
    have hload := loadServer_of_heard (e := e) hh
    rw [hr] at hload
    obtain ⟨c', hf', hrun⟩ := ih (e := { e with catalog := c₁, kept := e.kept ++ [load.source] })
      ((ha.left.append_iff hf).1 ha)
    refine ⟨c', ?_, fun total more => ?_⟩
    · rw [List.flatMap_cons, List.foldlM_append, hf]
      exact hf'
    · rw [List.map_cons, List.cons_append, loadEach, hload]
      dsimp only
      rw [hrun, List.flatMap_cons, List.length_append, List.map_cons, List.append_assoc,
        Nat.add_assoc]
      rfl

end Engine

/-! ### All servers -/

theorem Fails.append_iff (ha : c.Admits batch) (hf : batch.foldlM Catalog.register c = .ok c') :
    Fails x policy c (batch ++ earlier) w l cs err ↔ Fails x policy c' earlier w l cs err := by
  constructor <;> intro h <;> cases h with
  | unnamed hp hc hl => exact .unnamed hp hc hl
  | unlisted hc hn hl => exact .unlisted hc hn hl
  | clash hl hh hr => ?_
  · rw [List.append_assoc, ha.refuses_append_iff hf] at hr
    exact .clash hl hh hr
  · rw [← ha.refuses_append_iff hf, ← List.append_assoc] at hr
    exact .clash hl hh hr

theorem heard_or_fails (x : Exchange σ) (policy : Policy) (c : Catalog β) (w : σ)
    (l : Server.Listing) :
    (∃ load w', load.listing = l ∧ Heard x policy w load w' ∧
      c.Admits (load.entries β policy)) ∨
    ∃ cs err, Fails x policy c [] w l cs err := by
  obtain ⟨⟨w₁, source⟩, hc⟩ : ∃ p, x.connect w l.server = p := ⟨_, rfl⟩
  have hnames : (∃ named w₂, Named x policy source w₁ named w₂) ∨
      policy.needsDiscovery = true ∧ ∃ w₂ err, x.list w₁ source = (w₂, .error err) := by
    unfold Named
    split
    · rename_i hp
      cases hl : x.list w₁ source with
      | mk w₂ result =>
        cases result with
        | error err => exact .inr ⟨hp, w₂, err, rfl⟩
        | ok ds => exact .inl ⟨_, w₂, ds, rfl, rfl⟩
    · exact .inl ⟨[], w₁, rfl, rfl⟩
  rcases hnames with ⟨named, w₂, hn⟩ | ⟨hp, w₂, err, hl⟩
  · cases hl : x.list w₂ source with
    | mk w₃ result =>
      cases result with
      | error err => exact .inr ⟨_, _, .unlisted hc hn hl⟩
      | ok ds =>
        have hh : Heard x policy w ⟨l, source, named, ds⟩ w₃ := ⟨w₁, w₂, hc, hn, hl⟩
        cases hr : c.registerAll (Load.entries β policy ⟨l, source, named, ds⟩) with
        | ok p => exact .inl ⟨_, _, rfl, hh, (Catalog.admits_of_registerAll hr).1⟩
        | error err =>
          obtain ⟨name, hname, -⟩ := Catalog.registerAll_eq_error.1 hr
          exact .inr ⟨_, _, .clash rfl hh hname⟩
  · exact .inr ⟨_, _, .unnamed hp hc hl⟩

theorem succeeds_or_fails (x : Exchange σ) (policy : Policy) (c : Catalog β) (w : σ)
    (listings : List Server.Listing) :
    (∃ loads w', loads.map Load.listing = listings ∧ Succeeds x policy c w loads w') ∨
    ∃ loads w' l rest cs err, listings = loads.map Load.listing ++ l :: rest ∧
      Succeeds x policy c w loads w' ∧
      Fails x policy c (loads.flatMap (Load.entries β policy)) w' l cs err := by
  induction listings generalizing c w with
  | nil => exact .inl ⟨[], w, rfl, .nil w, ⟨by simp, .nil⟩⟩
  | cons l rest ih =>
    rcases heard_or_fails x policy c w l with ⟨load, w₁, rfl, hh, ha⟩ | ⟨cs, err, hfails⟩
    · obtain ⟨c₁, hf⟩ := ha.foldlM
      have hcons {loads : List Load} {w' : σ} (h : Succeeds x policy c₁ w₁ loads w') :
          Succeeds x policy c w (load :: loads) w' :=
        ⟨.cons hh h.heard, by rw [List.flatMap_cons, ha.append_iff hf]; exact h.free⟩
      rcases ih c₁ w₁ with ⟨loads, w', rfl, h⟩ | ⟨loads, w', l, more, cs, err, rfl, h, hfails⟩
      · exact .inl ⟨load :: loads, w', rfl, hcons h⟩
      · refine .inr ⟨load :: loads, w', l, more, cs, err, rfl, hcons h, ?_⟩
        rw [List.flatMap_cons, Fails.append_iff ha hf]
        exact hfails
    · exact .inr ⟨[], w, l, rest, cs, err, rfl, ⟨.nil w, ⟨by simp, .nil⟩⟩, hfails⟩

theorem Loaded.of_foldlM
    (hf : (loads.flatMap (Load.entries β policy)).foldlM Catalog.register e.catalog = .ok c') :
    Loaded policy e loads { e with catalog := c', kept := e.kept ++ loads.map Load.source } where
  adds := .foldlM hf
  ordered := Catalog.order_foldlM hf
  listed hc := by
    rw [Catalog.list_none, Catalog.list_none]
    exact hc.foldlM hf
  rest := rfl

namespace Engine

/-- Loading takes the servers of a file in the order of their names, up to the first that fails. If
none fails, the tools of all of them are added, in that order. If one fails, its error is returned,
exactly the tools of those before it are added, and nothing is done with those after it. One of the
two is always so; a file that cannot be read changes nothing, and nothing is done with a server. -/
theorem loading_prefix (x : Exchange σ) (w : σ) (e : Engine β) (policy : Policy)
    (vars : Server.Expansion.Variables) (files : Host.Files) (path : String) :
    let file := Server.ConfigFile.load vars files path
    let run := loadServers x w e policy file
    (∀ err, file = .error err → run = (w, e, .error (.source err))) ∧
    ∀ listings, file = .ok listings →
      (listings.map fun l => l.server.name).Pairwise (· < ·) ∧
      (∀ loads w', loads.map Load.listing = listings → Succeeds x policy e.catalog w loads w' →
        ∃ e', Loaded policy e loads e' ∧
          run = (x.after w (loads.flatMap (Load.contacts policy)), e',
            .ok (loads.flatMap (Load.entries β policy)).length)) ∧
      (∀ loads w' l rest cs err, listings = loads.map Load.listing ++ l :: rest →
        Succeeds x policy e.catalog w loads w' →
        Fails x policy e.catalog (loads.flatMap (Load.entries β policy)) w' l cs err →
        ∃ e', Loaded policy e loads e' ∧
          run = (x.after w (loads.flatMap (Load.contacts policy) ++ cs), e', .error err) ∧
          ∀ later ∈ rest, .connect later.server ∉ loads.flatMap (Load.contacts policy) ++ cs) ∧
      ((∃ loads w', loads.map Load.listing = listings ∧ Succeeds x policy e.catalog w loads w') ∨
        ∃ loads w' l rest cs err, listings = loads.map Load.listing ++ l :: rest ∧
          Succeeds x policy e.catalog w loads w' ∧
          Fails x policy e.catalog (loads.flatMap (Load.entries β policy)) w' l cs err) := by
  intro file run
  refine ⟨fun err hfile => ?_, fun listings hfile => ?_⟩
  · show loadServers x w e policy file = _
    rw [hfile]
    rfl
  · have hrun : run = loadEach x policy w e 0 listings := by
      show loadServers x w e policy file = _
      rw [hfile]
      rfl
    have hnames := Server.ConfigFile.ordered_of_load hfile
    refine ⟨hnames, ?_, ?_, succeeds_or_fails x policy e.catalog w listings⟩
    · rintro loads w' rfl h
      obtain ⟨c', hf, hstep⟩ := loadEach_append h
      refine ⟨_, .of_foldlM hf, ?_⟩
      have hall := hstep 0 []
      rw [List.append_nil] at hall
      rw [hrun, hall, h.heard.after, loadEach, Nat.zero_add]
    · rintro loads w' l rest cs err rfl h hfails
      obtain ⟨c', hf, hstep⟩ := loadEach_append h
      refine ⟨_, .of_foldlM hf, ?_, fun later => hfails.later_not_mem hnames⟩
      rw [← List.append_nil (List.flatMap _ _), Fails.append_iff h.free hf] at hfails
      rw [hrun, hstep, loadEach, loadServer_of_fails hfails, Exchange.after_append, h.heard.after]

/-- Servers that each declare the one tool `run`, and a log of what is done with them. -/
def sameTool : Exchange (List Contact) where
  connect log server := (log ++ [.connect server], log.length)
  list log source := (log ++ [.list source], .ok [.ofName "run"])
  disconnect log source := log ++ [.disconnect source]

def commandServer (name : String) : Server.Listing := ⟨⟨name, .ofCommand name⟩, name, ∅⟩

/-- What such a server is heard to say. -/
def sameToolLoad (name : String) (source : Nat) : Load :=
  ⟨commandServer name, source, ["run"], [.ofName "run"]⟩

def oneFile (bytes : List UInt8) : Host.Files := ⟨.folder [("f", .file bytes)], []⟩

theorem read_oneFile (bytes : List UInt8) :
    (oneFile bytes).read ((oneFile bytes).expandHome "f") = .ok bytes := by
  have hany : "f".any (· = '\x00') = false := by
    show String.contains "f" _ = false
    rw [String.contains_prop_eq]
    rfl
  have hsplit : "f".splitOn "/" = ["f"] := by
    show String.splitOnAux "f" "/" 0 0 0 [] = _
    unfold String.splitOnAux
    unfold String.splitOnAux
    rfl
  have habsolute : Host.Files.isAbsolute "f" = false := by decide +kernel
  show (oneFile bytes).read "f" = _
  unfold Host.Files.read Host.Files.resolve
  rw [hany, hsplit, habsolute]
  rfl

/-- The text of a file that lists three servers, not in the order of their names. -/
def threeServersText : List UInt8 :=
  Text.Utf8.encode ("\x7b\"mcpServers\": \x7b\"c\": \x7b\"command\": \"c\"\x7d, " ++
    "\"a\": \x7b\"command\": \"a\"\x7d, \"b\": \x7b\"command\": \"b\"\x7d\x7d\x7d")

def threeServers : Host.Files := ⟨.folder [("f", .file threeServersText)], []⟩

theorem load_threeServers : Server.ConfigFile.load ∅ threeServers "f" =
    .ok [commandServer "a", commandServer "b", commandServer "c"] := by
  have hread : threeServers.read (threeServers.expandHome "f") = .ok threeServersText :=
    read_oneFile threeServersText
  have hlisted : (Server.ConfigFile.ofBytes ∅ threeServersText).toOption =
      some [commandServer "a", commandServer "b", commandServer "c"] := by decide +kernel
  unfold Server.ConfigFile.load
  rw [hread]
  dsimp only
  cases hbytes : Server.ConfigFile.ofBytes ∅ threeServersText with
  | error err => rw [hbytes] at hlisted; cases hlisted
  | ok listings => rw [hbytes] at hlisted; exact congrArg Except.ok (Option.some.inj hlisted)

/-- The second server in the order of the names declares a tool that the first has, and stops the
load; nothing is done with the third. -/
theorem loading_prefix_threeServers : ∃ e',
    loadServers sameTool [] (∅ : Engine Unit) .all (Server.ConfigFile.load ∅ threeServers "f") =
      ([.connect (commandServer "a").server, .list 0, .list 0,
        .connect (commandServer "b").server, .list 3, .list 3, .disconnect 3], e',
        .error (.core (.duplicateName "run"))) ∧
    e'.catalog.list none = Declaration.entries Unit 0 "a" (.ofList ["run"]) [.ofName "run"] ∧
    e'.kept = [0] := by
  obtain ⟨-, hfound⟩ := loading_prefix sameTool [] (∅ : Engine Unit) .all ∅ threeServers "f"
  obtain ⟨-, -, hfail, -⟩ := hfound _ load_threeServers
  have hsucceeds : Succeeds sameTool .all (∅ : Catalog Unit) [] [sameToolLoad "a" 0]
      [.connect (commandServer "a").server, .list 0, .list 0] := by
    refine ⟨.cons ⟨_, _, rfl, ⟨_, rfl, rfl⟩, rfl⟩ (.nil _), ?_⟩
    exact ⟨fun _ _ => rfl, by decide⟩
  have hfails : Fails sameTool .all (∅ : Catalog Unit)
      ([sameToolLoad "a" 0].flatMap (Load.entries Unit .all))
      [.connect (commandServer "a").server, .list 0, .list 0] (commandServer "b")
      ((sameToolLoad "b" 3).contacts .all ++ [.disconnect 3]) (.core (.duplicateName "run")) := by
    refine .clash rfl ⟨_, _, rfl, ⟨_, rfl, rfl⟩, rfl⟩ ?_
    exact ⟨_, _, [], rfl, hsucceeds.free, rfl, .inr (by decide)⟩
  obtain ⟨e', hloaded, hrun, -⟩ := hfail [sameToolLoad "a" 0] _ _ _ _ _ rfl hsucceeds hfails
  refine ⟨e', hrun, (hloaded.listed .empty).2, ?_⟩
  rw [hloaded.rest]
  rfl

end Engine

end GatedCalls
