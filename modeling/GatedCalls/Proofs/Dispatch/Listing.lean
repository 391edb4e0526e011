import GatedCalls.Proofs.Dispatch.Isolation
import GatedCalls.Proofs.Dispatch.Passage
import GatedCalls.Proofs.Registry

/-!
# What the listing says is what the gate does

The listing walks the order of registration and a call looks its tool up in the table, so that they
agree rests on the coherence of the catalog, which every step of the engine keeps. `listed_iff` says
which names are listed. Whether a call fails because there is no such tool is read off its story
(`Sound.story_refused`, `Sound.found_of_calls`), and so is whether its handler is asked first
(`Sound.first_asked`, `Sound.unasked`).
-/

namespace GatedCalls

variable {β : Type} {e : Engine β} {r : Registry} {a : Action β} {as : List (Action β)}
  {m : Moment β} {ms : List (Moment β)} {c : Call β} {x : Entry β} {y : Standing β}
  {s : List (Note β)} {name : String} {args : Args} {id : Nat} {h : Handler}

/-- What a run does with the tool of the call: its handler is asked about it, and it is set to
work. -/
def dealings (id : Nat) (ms : List (Moment β)) : List (Effect β) :=
  (ms.flatMap Moment.effects).filter fun z => z.asks id || z.executes id

namespace Engine

/-- The call that is begun by the action goes on by itself until it waits for its handler. -/
def approach (e : Engine β) (a : Action β) : List (Action β) :=
  a :: List.replicate 5 (.advance e.next)

/-- The call that is begun by the action in this state asks the handler before anything else happens
to its tool. -/
structure AsksFirst (e : Engine β) (r : Registry) (a : Action β) (name : String) (args : Args) :
    Prop where
  /-- If nothing comes between, it asks the one that is in force now, and waits for it. -/
  asks : dealings e.next (e.record r (e.approach a)) = [.asked e.next r.current.2 name args]
  waits : (e.after r (e.approach a)).1.awaitsAnswer e.next = true
  /-- Whatever comes between, it asks one that has been in force since it was begun. -/
  first : ∀ more z rest, dealings e.next (e.record r (a :: more)) = z :: rest →
    ∃ h, z = .asked e.next h name args ∧ ∃ m ∈ e.record r (a :: more), m.registry.current.2 = h

/-! ### The listing -/

theorem names_tools (hc : e.catalog.Coherent) :
    (e.tools none).map Info.name = e.catalog.order := by
  rw [tools, Catalog.list_none, List.map_map]
  exact hc.names_all

/-- The names that are listed are those that are found, and each is listed once. -/
theorem listed_iff (hc : e.catalog.Coherent) :
    ((e.tools none).map Info.name).count name = 1 ↔ ∃ x, e.lookup name = .ok x := by
  have hfound : (∃ x, e.lookup name = .ok x) ↔ name ∈ e.catalog.order := hc.lookup_iff
  rw [names_tools hc, hfound]
  constructor
  · intro hone
    exact List.count_pos_iff.1 (by omega)
  · intro hmem
    exact List.count_eq_one_of_mem hc.distinct hmem

theorem tools_group (e : Engine β) (group : String) :
    e.tools (some group) = (e.tools none).filter (·.group == group) := by
  rw [tools, tools, Catalog.list_none, List.filter_map]
  rfl

/-- What is listed is shown of the entry that a call finds. -/
theorem lookup_of_listed (hc : e.catalog.Coherent) {info : Info} (hi : info ∈ e.tools none) :
    ∃ x, e.lookup info.name = .ok x ∧ x.info = info := by
  rw [tools, Catalog.list_none] at hi
  obtain ⟨x, hx, rfl⟩ := List.mem_map.1 hi
  exact ⟨x, hc.mem_all.1 hx, rfl⟩

end Engine

/-! ### Reading a story -/

/-- The question of the handler or the work of the tool in a note. -/
def Note.dealing? (id : Nat) (n : Note β) : Option (Effect β) := (n.ask? id).or n.execution?

theorem dealings_story : dealings id ms = (story id ms).filterMap (Note.dealing? id) := by
  rw [dealings, ← List.filterMap_eq_filter]
  refine (shown_story (fun m n hn => ?_) fun z => ?_).symm
  · rcases Moment.mem_given hn with ⟨_, _, _, rfl, _⟩ | ⟨_, rfl, _⟩ | ⟨_, rfl⟩ | rfl <;> rfl
  · have hask : (z.note? id).bind (Note.ask? id) = Option.guard (Effect.asks id) z := z.ask?_note?
    have hexecution : (z.note? id).bind Note.execution? = Option.guard (Effect.executes id) z :=
      z.execution?_note?
    cases hn : z.note? id with
    | none =>
      rw [hn] at hask hexecution
      have h₁ : z.asks id = false := by simpa [Option.guard] using hask.symm
      have h₂ : z.executes id = false := by simpa [Option.guard] using hexecution.symm
      simp [Option.guard, h₁, h₂]
    | some n =>
      rw [hn] at hask hexecution
      show (n.ask? id).or n.execution? = _
      rw [show n.ask? id = _ from hask, show n.execution? = _ from hexecution]
      cases h₁ : z.asks id <;> cases h₂ : z.executes id <;> simp [Option.guard, h₁, h₂]

theorem Entry.Asks.first (h : x.Asks args id y s) (hg : x.gated = true) :
    s.filterMap (Note.dealing? id) = [] ∨ ∃ handler rest,
      .asked handler x.name args ∈ s ∧
      s.filterMap (Note.dealing? id) = .asked id handler x.name args :: rest := by
  cases h with
  | ungated hu => rw [hg] at hu; cases hu
  | early _ ha _ hx =>
    left
    refine List.filterMap_eq_nil_iff.2 fun n hn => ?_
    have hask := List.filterMap_eq_nil_iff.1 ha n hn
    have hexecution := List.filterMap_eq_nil_iff.1 hx n hn
    rw [Note.dealing?, hask, hexecution]
    rfl
  | presented handler _ => exact .inl rfl
  | asked handler more _ _ _ =>
    right
    have hmem : .asked handler x.name args ∈ x.asked args handler ++ more :=
      List.mem_append_left _ (List.mem_append_right _ (List.mem_singleton_self _))
    exact ⟨handler, _, hmem, List.filterMap_append⟩

theorem Call.Tells.unasked (ht : c.Tells s) (hg : c.entry.gated = false) :
    s.filterMap (Note.ask? id) = [] := by
  obtain ⟨i, x, args, stage⟩ := c
  cases stage with
  | found =>
    obtain rfl : s = x.opening args := ht
    rfl
  | gate | unset | chosen | presented | asking | answered =>
    have hg' : x.gated = true := ht.1
    exact Bool.noConfusion (hg.symm.trans hg')
  | cleared => exact Entry.Clear.asks ht hg
  | running | ended =>
    obtain ⟨t, hc, rfl⟩ := ht
    rw [List.filterMap_append, hc.asks hg]
    rfl

theorem Ended.unasked (he : Ended s) (hs : s.filterMap Note.called? = [(x.name, args, x)])
    (hg : x.gated = false) : s.filterMap (Note.ask? id) = [] := by
  -- a story in which the handler was asked begins with a call of a gated tool
  have gated {c : Call β} {t : List (Note β)} (hs' : s = .called c.entry.name c.args c.entry :: t)
      (hc : c.entry.gated = true) : False := by
    have hmem : .called c.entry.name c.args c.entry ∈ s := hs' ▸ List.mem_cons_self
    obtain ⟨-, -, rfl⟩ := called_unique hmem hs
    exact Bool.noConfusion (hg.symm.trans hc)
  have clear {c : Call β} {t more : List (Note β)} (hs' : s = t ++ more)
      (hc : c.entry.Clear c.args t) : t.filterMap (Note.ask? id) = [] := by
    obtain ⟨t', ht⟩ := hc.called
    have hmem : .called c.entry.name c.args c.entry ∈ s := by
      rw [hs', ht]
      exact List.mem_cons_self
    obtain ⟨-, -, rfl⟩ := called_unique hmem hs
    exact hc.asks hg
  cases he with
  | unused | refused err => rfl
  | declined c hc | failed c hc | withdrawn c hc => exact (gated rfl hc).elim
  | completed c hc | broken c hc | abandoned c hc =>
    rw [List.filterMap_append, clear rfl hc]
    rfl

theorem Standing.Tells.unasked (ht : y.Tells s)
    (hs : s.filterMap Note.called? = [(x.name, args, x)]) (hg : x.gated = false) :
    s.filterMap (Note.ask? id) = [] := by
  cases y with
  | fresh =>
    obtain rfl : s = [] := ht
    rfl
  | active c =>
    have hcalled := (Call.Tells.pending ht id).1
    rw [hs, List.singleton_inj] at hcalled
    obtain ⟨-, -, rfl⟩ : _ ∧ _ ∧ x = c.entry := by simpa using hcalled
    exact Call.Tells.unasked ht hg
  | «over» => exact Ended.unasked ht hs hg

theorem Entry.Word.found {w : List DispatchEvent.Kind}
    {answers : List (Except ConfirmationError Bool)} {outcomes : List (Except ToolError Response)}
    {err : DispatchError} (h : x.Word args w answers outcomes (.error err)) :
    err.isNotFound = false := by
  generalize hr : (.error err : Except DispatchError Response) = result at h
  cases h with
  | ungated _ outcome | granted _ _ outcome =>
    cases outcome with
    | ok output => cases hr
    | error err' => cases hr; rfl
  | declined => cases hr
  | unconfirmed => cases hr; rfl

theorem Entry.Made.found {err : DispatchError} (h : x.Made args id s)
    (herr : .error err ∈ s.filterMap Note.result?) : err.isNotFound = false := by
  rcases h.2 with hp | ⟨result, hd⟩
  · rw [hp.silent] at herr
    cases herr
  · rw [hd.returned, List.mem_singleton] at herr
    obtain ⟨w, hw, -⟩ := hd.whole
    subst herr
    exact hw.found

/-! ### A call that begins -/

namespace Engine

theorem Sound.tells_fresh (hs : e.Sound) (r : Registry) (as : List (Action β)) :
    ∃ y : Standing β, y.Tells (story e.next (e.record r as)) := by
  have hfresh : (e.standing e.next).Tells [] := by
    rw [standing_next]
    rfl
  exact tells_end hs hfresh as

theorem Sound.called_of_calls (ha : a.Calls name args) (hl : e.lookup name = .ok x)
    (as : List (Action β)) : .called name args x ∈ story e.next (e.record r (a :: as)) := by
  have hstarts : (Moment.mk e r a).Starts e.next name args x := ⟨ha, rfl, hl⟩
  exact List.mem_append_left _ hstarts.called

theorem Sound.returns_of_absent (hs : e.Sound) (ha : a.Calls name args)
    (hl : ∀ x, e.lookup name ≠ .ok x) (as : List (Action β)) :
    returns e.next (e.record r (a :: as)) = [.error (.catalog (.notFound name))] := by
  have hrefuses : (Moment.mk e r a).Refuses e.next (.catalog (.notFound name)) :=
    .unknown name args rfl ha hl
  rw [returns_story, hs.refused_story hrefuses]
  rfl

/-- A handler that is asked on behalf of a call was in force at some step before, or the call had
taken it already. -/
theorem Sound.asked_in_force (hs : e.Sound)
    (hmem : .asked h name args ∈ story id (e.record r as)) :
    (e.standing id).Heads h ∨ ∃ m ∈ e.record r as, m.registry.current.2 = h := by
  induction as generalizing e r with
  | nil => cases hmem
  | cons a as ih =>
    have hm : Move id r (e.standing id) ((Moment.mk e r a).notes id)
      ((e.step r a).engine.standing id) := step_move hs a
    rcases List.mem_append.1 hmem with hnow | hlater
    · exact .inl (hm.asked hnow)
    · rcases ih (hs.step a) hlater with hheads | ⟨m, hmem, hcur⟩
      · rcases hm.heads hheads with hbefore | ⟨c, -, -, -, hfill⟩
        · exact .inl hbefore
        · refine .inr ⟨_, List.mem_cons_self, ?_⟩
          rw [← Registry.fill_eq_current]
          exact hfill.symm
      · exact .inr ⟨m, List.mem_cons_of_mem _ hmem, hcur⟩

/-- A call of a gated tool to which nothing else happens has its handler asked and waits for it. -/
theorem Sound.approach (hs : e.Sound) (hg : x.gated = true) (ha : a.Calls x.name args)
    (hl : e.lookup x.name = .ok x) (r : Registry) :
    (e.record r (e.approach a)).flatMap Moment.effects =
      e.emit ⟨e.next, x.name, .requested args⟩ ++
        e.emit ⟨e.next, x.name, .confirmationRequested r.current.2.name⟩ ++
        [.asked e.next r.current.2 x.name args] ∧
      (e.after r (e.approach a)).1 = e.push ⟨e.next, x, args, .asking r.current.2⟩ := by
  have hbegin := step_calls ha hl r
  have hrequest : (e.push ⟨e.next, x, args, .found⟩).step r (.advance e.next) =
      ⟨e.push ⟨e.next, x, args, .gate⟩, r, e.emit ⟨e.next, x.name, .requested args⟩⟩ := by
    rw [hs.push_advance rfl]
    simp only [Engine.advanceCall, hs.push_setStage, hg]
    rfl
  have hpresent (r : Registry) (h : Handler) :
      (e.push ⟨e.next, x, args, .chosen h⟩).step r (.advance e.next) =
        ⟨e.push ⟨e.next, x, args, .presented h⟩, r,
          e.emit ⟨e.next, x.name, .confirmationRequested h.name⟩⟩ := by
    rw [hs.push_advance rfl]
    simp only [Engine.advanceCall, hs.push_setStage]
    rfl
  have hask (r : Registry) (h : Handler) :
      (e.push ⟨e.next, x, args, .presented h⟩).step r (.advance e.next) =
        ⟨e.push ⟨e.next, x, args, .asking h⟩, r, [.asked e.next h x.name args]⟩ := by
    rw [hs.push_advance rfl]
    simp only [Engine.advanceCall, hs.push_setStage]
    rfl
  have hwait (r : Registry) (h : Handler) :
      (e.push ⟨e.next, x, args, .asking h⟩).step r (.advance e.next) =
        ⟨e.push ⟨e.next, x, args, .asking h⟩, r, []⟩ := by
    rw [hs.push_advance rfl]
    rfl
  -- the slot is looked at, and filled in a step of its own where it is empty
  cases hact : r.active with
  | some h =>
    have hlook : (e.push ⟨e.next, x, args, .gate⟩).step r (.advance e.next) =
        ⟨e.push ⟨e.next, x, args, .chosen h⟩, r, []⟩ := by
      rw [hs.push_advance rfl]
      simp only [Engine.advanceCall, Registry.look, hact, hs.push_setStage]
      rfl
    have hcur : r.current.2 = h := by rw [Registry.current_of_active hact]
    constructor
    · simp [Engine.approach, List.replicate, record, Moment.effects, Moment.outcome, hbegin,
        hrequest, hlook, hpresent, hask, hwait, hcur]
    · simp [Engine.approach, List.replicate, after, hbegin, hrequest, hlook, hpresent, hask, hwait,
        hcur]
  | none =>
    have hlook : (e.push ⟨e.next, x, args, .gate⟩).step r (.advance e.next) =
        ⟨e.push ⟨e.next, x, args, .unset⟩, r, []⟩ := by
      rw [hs.push_advance rfl]
      simp only [Engine.advanceCall, Registry.look, hact, hs.push_setStage]
      rfl
    have hfill : (e.push ⟨e.next, x, args, .unset⟩).step r (.advance e.next) =
        ⟨e.push ⟨e.next, x, args, .chosen r.current.2⟩, r.current.1, []⟩ := by
      rw [hs.push_advance rfl, ← Registry.fill_eq_current]
      simp only [Engine.advanceCall, hs.push_setStage]
      rfl
    constructor
    · simp [Engine.approach, List.replicate, record, Moment.effects, Moment.outcome, hbegin,
        hrequest, hlook, hfill, hpresent, hask]
    · simp [Engine.approach, List.replicate, after, hbegin, hrequest, hlook, hfill, hpresent, hask]

theorem dealings_emit (event : DispatchEvent) :
    (e.emit event).filter (fun z => z.asks id || z.executes id) = [] := by
  refine List.filter_eq_nil_iff.2 fun z hz => ?_
  rcases List.mem_cons.1 hz with rfl | hz
  · exact Bool.false_ne_true
  · obtain ⟨hook, -, rfl⟩ := List.mem_map.1 hz
    exact Bool.false_ne_true

theorem Sound.asksFirst (hs : e.Sound) (hg : x.gated = true) (ha : a.Calls x.name args)
    (hl : e.lookup x.name = .ok x) (r : Registry) : e.AsksFirst r a x.name args := by
  obtain ⟨heffects, hafter⟩ := hs.approach hg ha hl r
  refine ⟨?_, ?_, fun more z rest hdeal => ?_⟩
  · rw [dealings, heffects, List.filter_append, List.filter_append, dealings_emit, dealings_emit]
    simp [Effect.asks]
  · refine awaitsAnswer_iff.2 ⟨⟨e.next, x, args, .asking r.current.2⟩, _, ?_, rfl⟩
    rw [hafter]
    exact hs.push_call? rfl
  · obtain ⟨y, ht⟩ := hs.tells_fresh r (a :: more)
    have hcalled := called_of_calls (r := r) ha hl more
    obtain ⟨x', args', hmade, hasks⟩ :=
      (ht.question e.next).resolve_left (not_unmade_of_called hcalled)
    obtain ⟨-, rfl, rfl⟩ := called_unique hcalled hmade
    rw [dealings_story] at hdeal
    rcases hasks.first hg with hnone | ⟨handler, rest', hmem, hfirst⟩
    · rw [hdeal] at hnone
      cases hnone
    · rw [hdeal] at hfirst
      obtain ⟨rfl, -⟩ := List.cons.inj hfirst
      refine ⟨handler, rfl, (hs.asked_in_force hmem).resolve_left fun hheads => ?_⟩
      obtain ⟨c, hc, -⟩ := hheads
      rw [standing_next] at hc
      cases hc

theorem Sound.asks_of_ungated (hs : e.Sound) (hg : x.gated = false) (ha : a.Calls x.name args)
    (hl : e.lookup x.name = .ok x) (r : Registry) (as : List (Action β)) :
    asks e.next (e.record r (a :: as)) = [] := by
  obtain ⟨y, ht⟩ := hs.tells_fresh r (a :: as)
  have hcalled := called_of_calls (r := r) ha hl as
  obtain ⟨x', args', hmade⟩ := (ht.read e.next).resolve_left (not_unmade_of_called hcalled)
  obtain ⟨-, rfl, rfl⟩ := called_unique hcalled hmade.1
  rw [asks_story]
  exact ht.unasked hmade.1 hg

theorem Sound.found_of_calls (hs : e.Sound) (ha : a.Calls name args) (hl : e.lookup name = .ok x)
    {err : DispatchError} (herr : .error err ∈ returns e.next (e.record r (a :: as))) :
    err.isNotFound = false := by
  obtain ⟨y, ht⟩ := hs.tells_fresh r (a :: as)
  have hcalled := called_of_calls (r := r) ha hl as
  obtain ⟨x', args', hmade⟩ := (ht.read e.next).resolve_left (not_unmade_of_called hcalled)
  rw [returns_story] at herr
  exact hmade.found herr

end Engine

/-- In every state that a run reaches, whatever the registry holds then, the listing says what the
gate does: a name is listed once if and only if no call of it that is begun there ever fails because
there is no such tool; the tools of a group are those of the whole listing, in its order; and a tool
is listed as gated if and only if a call of it that is begun there asks the handler in force before
anything else happens to the tool. A call of any other listed tool never asks. -/
theorem listing_truth (r₀ : Registry) (as : List (Action β)) (r : Registry) :
    let e := (Engine.after ∅ r₀ as).1
    (∀ name args a, a.Calls name args →
      (((e.tools none).map Info.name).count name = 1 ↔
        ∀ more err, .error err ∈ returns e.next (e.record r (a :: more)) →
          err.isNotFound = false)) ∧
    (∀ group, e.tools (some group) = (e.tools none).filter (·.group == group)) ∧
    ∀ info ∈ e.tools none, ∀ args a, a.Calls info.name args →
      (info.gated = true ↔ e.AsksFirst r a info.name args) ∧
      (info.gated = false → ∀ more, asks e.next (e.record r (a :: more)) = []) := by
  intro e
  have hs : e.Sound := Engine.sound_after r₀ as
  have hc : e.catalog.Coherent := (Engine.orderly_after r₀ as).catalog
  refine ⟨fun name args a ha => ?_, e.tools_group, fun info hi args a ha => ?_⟩
  · rw [Engine.listed_iff hc]
    constructor
    · rintro ⟨x, hl⟩ more err herr
      exact hs.found_of_calls ha hl herr
    · intro hfound
      by_contra habsent
      have hl (x : Entry β) : e.lookup name ≠ .ok x := fun hl => habsent ⟨x, hl⟩
      have hreturns := hs.returns_of_absent (r := r) ha hl []
      have hnot := hfound [] (.catalog (.notFound name)) (by rw [hreturns]; simp)
      cases hnot
  · obtain ⟨x, hl, rfl⟩ := Engine.lookup_of_listed hc hi
    refine ⟨⟨fun hg => hs.asksFirst hg ha hl r, fun hfirst => ?_⟩,
      fun hg more => hs.asks_of_ungated hg ha hl r more⟩
    cases hg : x.gated with
    | true => exact hg
    | false =>
      have hasked : .asked e.next r.current.2 x.name args ∈ dealings e.next (e.record r _) :=
        hfirst.asks ▸ List.mem_singleton_self _
      have hnone := hs.asks_of_ungated hg ha hl r (List.replicate 5 (.advance e.next))
      rw [asks, List.filter_eq_nil_iff] at hnone
      exact absurd (beq_self_eq_true e.next) (hnone _ (List.mem_filter.1 hasked).1)

/-- Two tools are registered, a third in vain, and the tool of a source; the handler is swapped, a
gated tool is called, and the sources are disconnected. -/
def stockedRun : List (Action Unit) :=
  [.register gatedShellTool, .register (Catalog.shellTool "ls"), .register (Catalog.shellTool "rm"),
    .enrol 7 "remote" ((∅ : NameSet).insert "fetch"), .list 0 (.ok [.ofName "fetch"]), .advance 0,
    .setHandler ⟨.given 1, "desk"⟩, .invoke "rm" ∅, .advance 0, .shutdown]

theorem listing_truth_stockedRun :
    let e := (Engine.after ∅ (.empty 0) stockedRun).1
    let r := (Engine.after ∅ (.empty 0) stockedRun).2
    (e.tools none).map (fun info => (info.name, info.gated)) =
        [("rm", true), ("ls", false), ("fetch", true)] ∧
      e.tools (some "remote") = [⟨"fetch", "remote", "", true⟩] ∧
      e.AsksFirst r (.invoke "fetch" ∅) "fetch" ∅ ∧ ¬ e.AsksFirst r (.invoke "ls" ∅) "ls" ∅ ∧
      (∀ more err, .error err ∈ returns e.next (e.record r (.invoke "ls" ∅ :: more)) →
        err.isNotFound = false) ∧
      ¬ ∀ more err, .error err ∈ returns e.next (e.record r (.invoke "mv" ∅ :: more)) →
        err.isNotFound = false := by
  intro e r
  obtain ⟨hnames, hgroups, hgated⟩ := listing_truth (.empty 0) stockedRun r
  have hlisting : e.tools none = [⟨"rm", "basic", "", true⟩, ⟨"ls", "basic", "", false⟩,
      ⟨"fetch", "remote", "", true⟩] := by decide +kernel
  have hfetch := hgated ⟨"fetch", "remote", "", true⟩ (by rw [hlisting]; simp) ∅
    (.invoke "fetch" ∅) (.inl rfl)
  have hls := hgated ⟨"ls", "basic", "", false⟩ (by rw [hlisting]; simp) ∅ (.invoke "ls" ∅)
    (.inl rfl)
  have hnot : ¬ e.AsksFirst r (.invoke "ls" ∅) "ls" ∅ := fun hfirst => by
    cases hls.1.2 hfirst
  refine ⟨by rw [hlisting]; rfl, ?_, hfetch.1.1 rfl, hnot, ?_, ?_⟩
  · rw [hgroups, hlisting]
    decide
  · refine (hnames "ls" ∅ (.invoke "ls" ∅) (.inl rfl)).1 ?_
    rw [hlisting]
    decide
  · intro hfound
    have hcount := (hnames "mv" ∅ (.invoke "mv" ∅) (.inl rfl)).2 hfound
    rw [hlisting] at hcount
    revert hcount
    decide

end GatedCalls
