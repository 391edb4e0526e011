import GatedCalls.Proofs.Dispatch.Custody
import GatedCalls.Proofs.Dispatch.Return
import GatedCalls.Proofs.Dispatch.Serial
import GatedCalls.Proofs.Dispatch.Solo

/-!
# Remote calls go to the source that declared the tool

Only the batch of a registration puts a tool of a source into the catalog (`declared_of_lookup`), a
call keeps the entry that it found when it began (`Entry.Made.entry_eq`), and its tool is set to
work from that entry. So a source is called for tools that it has declared and that are in the
catalog, and what it answers is what the caller gets.
-/

namespace GatedCalls

variable {β : Type} {e : Engine β} {r : Registry} {m : Moment β} {ms : List (Moment β)}
  {as : List (Action β)} {id source : Nat} {name : String} {args : Args} {x : Entry β}
  {group : String} {gated : NameSet} {d : Declaration}

/-! ### What a source gets and gives -/

/-- Whether the source is called. -/
def Effect.reaches (source : Nat) : Effect β → Bool
  | .forwarded _ s _ _ => s == source
  | _ => false

/-- The calls that the source gets in a run. -/
def arrivals (source : Nat) (ms : List (Moment β)) : List (Effect β) :=
  (ms.flatMap Moment.effects).filter (Effect.reaches source)

/-- What the source that the call waits for answers. -/
def Moment.reply? (m : Moment β) (id : Nat) : Option (Except SourceError Response) :=
  match m.action with
  | .reply i result =>
    if i = id ∧ (m.engine.call? id).any (·.awaitsTool true) then some result else none
  | _ => none

/-- The answers of sources that reach the call in a run. -/
def replies (id : Nat) (ms : List (Moment β)) : List (Except SourceError Response) :=
  ms.filterMap (·.reply? id)

/-- What the caller gets of what the source of a tool has answered. -/
def remoteResult (name : String) : Except SourceError Response → Except DispatchError Response
  | .ok output => .ok output
  | .error err => .error (.tool name (.custom ("remote tool error: " ++ err.message)))

/-- The source has declared the tool, and the batch of its registration, with the group and the
names to gate, is in the catalog. -/
def Declares (ms : List (Moment β)) (source : Nat) (group : String) (gated : NameSet)
    (d : Declaration) : Prop :=
  ∃ before m later ds, ms = before ++ m :: later ∧ m.action = .enrol source group gated ∧
    .heard (.ok ds) ∈ deeds m.engine.next later ∧ d ∈ ds ∧
    commitsBy m.engine.next ms = [.registerAll (Declaration.entries β source group gated ds)]

/-- What stands behind a call that the source gets in a run after the part `before`: it is the only
one for the call `id`, and when that was begun, by its name and with its arguments, the source had
declared the tool by that very name; if the name is one to gate, the call was approved. -/
structure Routed (run before : List (Moment β)) (id source : Nat) (name : String) (args : Args) :
    Prop where
  once : executions id run = [.forwarded id source name args]
  declared : ∃ first m rest x group gated d, before = first ++ m :: rest ∧
    m.Starts id name args x ∧ Declares first source group gated d ∧ d.name = some name ∧
    d.entryIn β source group gated = some x ∧ (name ∈ gated → Approved run before id name args)

/-! ### What is in the catalog -/

theorem Declaration.entryIn_eq_some : d.entryIn β source group gated = some x ↔
    d.usableName? = some x.name ∧ x = ⟨x.name, group, d.description.getD "",
      gated.contains x.name, ⟨x.name, d.description.getD "", d.schema, .remote source⟩⟩ := by
  rw [entryIn, Option.map_eq_some_iff]
  constructor
  · rintro ⟨name, hname, rfl⟩
    exact ⟨hname, rfl⟩
  · rintro ⟨hname, hx⟩
    exact ⟨x.name, hname, hx.symm⟩

namespace Engine

/-- What is found in the catalog was put into it by what has gone through so far. -/
theorem lookup_iff_commits (r : Registry) (as : List (Action β)) :
    (after ∅ r as).1.lookup x.name = .ok x ↔
      ∃ c ∈ commits (record ∅ r as), x ∈ c.op.entries := by
  have hs := (serial_after r as).serialized
  have hc : (after ∅ r as).1.catalog.Coherent := (orderly_after r as).catalog
  rw [lookup, ← hc.mem_all, ← Catalog.list_none, hs.listing, List.mem_flatMap]

theorem declared_of_lookup (hlocal : ∀ x, .register x ∈ as → ∃ code, x.tool.body = .own code)
    (h : (after ∅ r as).1.lookup x.name = .ok x) (hx : x.tool.body = .remote source) :
    ∃ group gated d, Declares (record ∅ r as) source group gated d ∧
      d.entryIn β source group gated = some x := by
  obtain ⟨c, hc, hmem⟩ := (lookup_iff_commits r as).1 h
  have hfrom := commit_from hc
  cases hfrom with
  | tool m hm entry ha =>
    -- a tool that was registered by itself runs code of its own
    obtain rfl : x = entry := List.mem_singleton.1 hmem
    have has : .register x ∈ as := by
      rw [← actions_record (e := ∅) r as, ← ha]
      exact List.mem_map_of_mem hm
    obtain ⟨code, hcode⟩ := hlocal x has
    rw [hx] at hcode
    cases hcode
  | source m hm s group gated ds ha =>
    obtain ⟨before, later, hrun⟩ := List.append_of_mem hm
    obtain ⟨o, ht⟩ := tracks_record hrun ha
    have hop : .registerAll (Declaration.entries β s group gated ds) ∈
        commitsBy m.engine.next (record ∅ r as) :=
      List.mem_map.2 ⟨_, List.mem_filter.2 ⟨hc, beq_self_eq_true _⟩, rfl⟩
    obtain ⟨listing, hheard, hops⟩ := ht.chronicle.of_op hop
    rw [hops, List.mem_singleton] at hop
    injection hop with hbatch
    have hx' : x ∈ Declaration.entries β s group gated listing := hbatch ▸ hmem
    obtain ⟨d, hd, hentry⟩ := List.mem_filterMap.1 hx'
    have hs : s = source := by
      have hbody := (Declaration.entryIn_eq_some.1 hentry).2
      rw [hbody] at hx
      exact Body.remote.inj hx
    subst hs
    exact ⟨group, gated, d, ⟨before, m, later, listing, hrun, ha, hheard, hd, hops⟩, hentry⟩

theorem lookup_of_declares (h : Declares (record ∅ r as) source group gated d)
    (hx : d.entryIn β source group gated = some x) : (after ∅ r as).1.lookup x.name = .ok x := by
  obtain ⟨before, m, later, ds, -, -, -, hd, hops⟩ := h
  have hop : .registerAll (Declaration.entries β source group gated ds) ∈
      commitsBy m.engine.next (record ∅ r as) := hops ▸ List.mem_singleton_self _
  obtain ⟨c, hc, hcop⟩ := List.mem_map.1 hop
  refine (lookup_iff_commits r as).2 ⟨c, (List.mem_filter.1 hc).1, ?_⟩
  rw [hcop]
  exact List.mem_filterMap.2 ⟨d, hd, hx⟩

end Engine

/-! ### From the start of a call to its tool -/

namespace Engine

theorem execution_of_starts (hm : m ∈ record ∅ r as) (h : m.Starts id name args x) {z : Effect β}
    (hz : z ∈ executions id (record ∅ r as)) : z = run ⟨id, x, args, .cleared⟩ := by
  obtain ⟨hz, hid⟩ := List.mem_filter.1 hz
  obtain ⟨m', hm', hz⟩ := List.mem_flatMap.1 hz
  obtain ⟨before, later, hrun⟩ := List.append_of_mem hm'
  obtain ⟨name', args', x', hs⟩ := sanctioned hrun hz hid
  obtain ⟨first, m₀, rest, rfl, hstarts⟩ := hs.started
  have hm₀ : m₀ ∈ record ∅ r as := by
    rw [hrun]
    simp
  obtain ⟨rfl, rfl⟩ := starts_unique hm h hm₀ hstarts
  exact hs.works

/-- A source is called only as `Routed` says. -/
theorem routed {before later : List (Moment β)}
    (hlocal : ∀ x, .register x ∈ as → ∃ code, x.tool.body = .own code)
    (hrun : record ∅ r as = before ++ m :: later)
    (hz : .forwarded id source name args ∈ m.effects) :
    Routed (record ∅ r as) before id source name args := by
  obtain ⟨name', args', x, hs⟩ := sanctioned hrun hz (beq_self_eq_true id)
  obtain ⟨first, m₀, rest, hfirst, hstarts⟩ := hs.started
  have hworks := hs.works
  rw [run] at hworks
  split at hworks
  · cases hworks
  rename_i s hbody
  obtain ⟨-, rfl, rfl, rfl⟩ := Effect.forwarded.inj hworks
  have hsplit : record ∅ r as = first ++ m₀ :: (rest ++ m :: later) := by
    rw [hrun, hfirst, List.append_assoc, List.cons_append]
  obtain ⟨done, more, has, hdone, he, -, -⟩ := record_split hsplit
  obtain rfl : x.name = name' := hs.named
  have hlookup : (after ∅ r done).1.lookup x.name = .ok x := by
    rw [← he]
    exact hstarts.found
  have hlocal' (y : Entry β) (hy : .register y ∈ done) : ∃ code, y.tool.body = .own code :=
    hlocal y (has ▸ List.mem_append_left _ hy)
  obtain ⟨group, gated, d, hd, hentry⟩ := declared_of_lookup hlocal' hlookup hbody
  rw [← hdone] at hd
  obtain ⟨husable, hx⟩ := Declaration.entryIn_eq_some.1 hentry
  have htool : x.tool.name = x.name := by rw [hx]
  have hgated : x.gated = gated.contains x.name := by rw [hx]
  rw [htool] at hs ⊢
  refine ⟨hs.once, first, m₀, rest, x, group, gated, d, hfirst, hstarts, hd, ?_, hentry,
    fun hmem => hs.approved ?_⟩
  · exact (Option.filter_eq_some_iff.1 husable).1
  · rw [hgated]
    exact NameSet.contains_iff.2 hmem

end Engine

/-! ### From the answer of a tool to its caller -/

namespace Engine

theorem returns_advance {outcome : Except ToolError Response} (hm : m ∈ record ∅ r as)
    (h : m.Starts id name args x) (ho : outcome ∈ outcomes id (record ∅ r as)) :
    returns id (record ∅ r (as ++ [.advance id])) = [x.result outcome] := by
  have hrun := record_append (∅ : Engine β) r as [.advance id]
  have hlast : record (after ∅ r as).1 (after ∅ r as).2 [.advance id] =
    [⟨(after ∅ r as).1, (after ∅ r as).2, .advance id⟩] := rfl
  obtain ⟨hs, ht⟩ := tells_before id (hrun.trans (congrArg _ hlast))
  have hmade := (made_of_starts (hrun ▸ List.mem_append_left _ hm :
    m ∈ record ∅ r (as ++ [.advance id])) h).2
  rw [outcomes_story] at ho
  rw [hrun, returns_story, story_append, List.filterMap_append]
  rcases ht.finished ho with ⟨c, hy, hst, hnone⟩ | ⟨hy, x', args', hcalled, hreturned⟩
  · have hc := call?_of_standing hy
    have hnotes : (Moment.mk (after ∅ r as).1 (after ∅ r as).2 (.advance id)).notes id =
        (c.react (after ∅ r as).2 (.advance id)).1 := congrArg Prod.fst (step_react hs hc _ _)
    rw [Call.react, if_pos (call?_id hc).symm, Call.next_ended hst] at hnotes
    rw [(hmade.entry_eq (hrun.trans (congrArg _ hlast)) hc).1] at hnotes
    rw [hnone, hlast, story, List.flatMap_singleton, hnotes]
    rfl
  · obtain ⟨-, -, rfl⟩ := called_unique (List.mem_flatMap.2 ⟨m, hm, h.called⟩) hcalled
    rw [story_over hs hy, hreturned]
    rfl

end Engine

/-- What reaches a call of a tool at a source is what the source has answered. -/
theorem Moment.finish?_of_remote
    (h : ∀ c, m.engine.call? id = some c → ∃ source, c.entry.tool.body = .remote source) :
    m.finish? id = (m.reply? id).map remoteOutcome := by
  unfold finish? reply?
  cases m.action with
  | finish i result =>
    refine if_neg fun ⟨_, hw⟩ => ?_
    cases hc : m.engine.call? id with
    | none => rw [hc] at hw; cases hw
    | some c =>
      have hawaits : c.awaitsTool false = true := by simpa [hc] using hw
      obtain ⟨source, hbody⟩ := h c hc
      cases hst : c.stage <;> simp [Call.awaitsTool, hst, hbody] at hawaits
  | reply i result => dsimp only; split <;> rfl
  | _ => rfl

theorem Entry.Made.outcomes_eq (h : x.Made args id (story id (Engine.record ∅ r as)))
    (hx : x.tool.body = .remote source) : outcomes id (Engine.record ∅ r as) =
      (replies id (Engine.record ∅ r as)).map remoteOutcome := by
  rw [outcomes, replies, List.map_filterMap]
  refine List.filterMap_congr fun m hm =>
    Moment.finish?_of_remote fun c hc => ⟨source, ?_⟩
  obtain ⟨before, later, hrun⟩ := List.append_of_mem hm
  rw [(h.entry_eq hrun hc).1]
  exact hx

theorem Entry.result_remote (answer : Except SourceError Response) :
    x.result (remoteOutcome answer) = remoteResult x.name answer := by
  cases answer <;> rfl

namespace Engine

theorem answered_remote (hm : m ∈ record ∅ r as) (h : m.Starts id x.name args x)
    (hx : x.tool.body = .remote source) (hz : executions id (record ∅ r as) ≠ []) :
    (∀ result ∈ returns id (record ∅ r as), ∃ answer, replies id (record ∅ r as) = [answer] ∧
      result = remoteResult x.name answer) ∧
    ∀ answer ∈ replies id (record ∅ r as),
      returns id (record ∅ r (as ++ [.advance id])) = [remoteResult x.name answer] := by
  have hout := (made_of_starts hm h).2.outcomes_eq hx
  refine ⟨fun result hr => ?_, fun answer ha => ?_⟩
  · rcases concluded hr with ⟨_, -, _, -, -, hidle⟩ | ⟨m', hm', name', args', x', hs', hname, hc⟩
    · exact absurd hidle hz
    obtain ⟨-, rfl⟩ := starts_unique hm h hm' hs'
    rw [hout] at hc
    obtain ⟨outcome, ho, rfl⟩ := hc.of_execution hz
    obtain ⟨answer, hanswer, rfl⟩ := List.map_eq_singleton_iff.1 ho
    exact ⟨answer, hanswer, Entry.result_remote answer⟩
  · rw [← Entry.result_remote]
    refine returns_advance hm h ?_
    rw [hout]
    exact List.mem_map_of_mem ha

theorem sole_enrol {before later before' later' : List (Moment β)} {m' : Moment β}
    (hown : (as.filterMap Action.source?).Nodup)
    (h : record ∅ r as = before ++ m :: later) (hm : m.action.source? = some source)
    (h' : record ∅ r as = before' ++ m' :: later') (hm' : m'.action.source? = some source) :
    m = m' := by
  have hsource : (Action.source? ∘ Moment.action) m = some source := hm
  rw [← actions_record (e := ∅) r as, List.filterMap_map, h, List.filterMap_append,
    List.filterMap_cons_some hsource, List.nodup_append] at hown
  obtain ⟨-, hlater, hbefore⟩ := hown
  have hin : m' ∈ before ++ m :: later := by
    rw [← h, h']
    simp
  rcases List.mem_append.1 hin with hin | hin
  · exact absurd rfl (hbefore source (List.mem_filterMap.2 ⟨m', hin, hm'⟩) source
      List.mem_cons_self)
  · rcases List.mem_cons.1 hin with rfl | hin
    · rfl
    · exact absurd (List.mem_filterMap.2 ⟨m', hin, hm'⟩) (List.nodup_cons.1 hlater).1

theorem arrivals_of_uncommitted {before later : List (Moment β)}
    (hlocal : ∀ x, .register x ∈ as → ∃ code, x.tool.body = .own code)
    (hown : (as.filterMap Action.source?).Nodup)
    (h : record ∅ r as = before ++ m :: later) (hm : m.action = .enrol source group gated)
    (hnone : commitsBy m.engine.next (record ∅ r as) = []) :
    arrivals source (record ∅ r as) = [] := by
  refine List.eq_nil_iff_forall_not_mem.2 fun z harrives => ?_
  obtain ⟨heffect, hreaches⟩ := List.mem_filter.1 harrives
  obtain ⟨m', hm', hz⟩ := List.mem_flatMap.1 heffect
  obtain ⟨before', later', h'⟩ := List.append_of_mem hm'
  cases z with
  | forwarded id s name args =>
    obtain rfl : s = source := beq_iff_eq.1 hreaches
    obtain ⟨first, m₀, rest, x, group', gated', d, rfl, -, hd, -⟩ := (routed hlocal h' hz).declared
    obtain ⟨b, m₁, l, ds, rfl, hm₁, -, -, hops⟩ := hd
    have hrun : record ∅ r as = b ++ m₁ :: (l ++ m₀ :: (rest ++ m' :: later')) := by
      rw [h']
      simp
    have hsource : m.action.source? = some s := by rw [hm]; rfl
    have hsource₁ : m₁.action.source? = some s := by rw [hm₁]; rfl
    -- the registration that declared the tool is the only one of the source
    obtain rfl : m = m₁ := sole_enrol hown h hsource hrun hsource₁
    have hcommits : commitsBy m.engine.next (record ∅ r as) =
        commitsBy m.engine.next (b ++ m :: l) ++
          commitsBy m.engine.next (m₀ :: (rest ++ m' :: later')) := by
      rw [← commitsBy_append, hrun]
      simp
    rw [hnone, hops] at hcommits
    cases hcommits
  | _ => cases hreaches

/-- A call of a tool that a source has declared goes to that source, if anywhere. -/
theorem executions_of_declares {first rest : List (Moment β)}
    (h : record ∅ r as = first ++ m :: rest) (hm : m.Starts id name args x)
    (hd : Declares first source group gated d) (hname : d.usableName? = some name) :
    d.entryIn β source group gated = some x ∧
      executions id (record ∅ r as) <+: [.forwarded id source name args] := by
  obtain ⟨done, more, -, rfl, he, -, -⟩ := record_split h
  obtain ⟨y, hy⟩ : ∃ y, d.entryIn β source group gated = some y := by
    rw [Declaration.entryIn, hname]
    exact ⟨_, rfl⟩
  obtain ⟨hyname, hentry⟩ := Declaration.entryIn_eq_some.1 hy
  have hnames : y.name = name := Option.some.inj (hyname.symm.trans hname)
  have hfound : m.engine.lookup name = .ok y := by
    rw [he, ← hnames]
    exact lookup_of_declares hd hy
  obtain rfl : x = y := Except.ok.inj (hm.found.symm.trans hfound)
  refine ⟨hy, ?_⟩
  have hin : m ∈ record ∅ r as := by
    rw [h]
    simp
  have hwork : run ⟨id, x, args, .cleared⟩ = .forwarded id source name args := by
    rw [run, hentry]
    exact congrArg (Effect.forwarded id source · args) hnames
  have hall := fun z hz => execution_of_starts (z := z) hin hm hz
  have hlen := length_executions_le_one r as id
  rw [hwork] at hall
  rcases hz : executions id (record ∅ r as) with _ | ⟨z, _ | ⟨z', more⟩⟩
  · exact List.nil_prefix
  · obtain rfl := hall z (hz ▸ List.mem_singleton_self z)
    exact List.prefix_rfl
  · simp [hz] at hlen

end Engine

/-- If each registration has a source of its own, and other tools run code of their own, then every
call that a source gets is `Routed`: it is the only one for its invocation, with the name that the
source has declared and the arguments of the caller, and was approved if the name is one to gate. A
call of a declared tool goes to the source that has declared it or nowhere, a source whose batch was
refused or whose registration failed gets no call, and what a source answers is what the caller
gets. -/
theorem remote_routing (r : Registry) (as : List (Action β))
    (hlocal : ∀ x, .register x ∈ as → ∃ code, x.tool.body = .own code)
    (hown : (as.filterMap Action.source?).Nodup) :
    let run := Engine.record ∅ r as
    (∀ before m later id source name args, run = before ++ m :: later →
      .forwarded id source name args ∈ m.effects → Routed run before id source name args) ∧
    (∀ first m rest id name args x source group gated d, run = first ++ m :: rest →
      m.Starts id name args x → Declares first source group gated d →
      d.usableName? = some name → d.entryIn β source group gated = some x ∧
        executions id run <+: [.forwarded id source name args]) ∧
    (∀ before m later source group gated, run = before ++ m :: later →
      m.action = .enrol source group gated →
      (.disconnecting source ∈ deeds m.engine.next later ∨
        (∃ err, .returned (.error err) ∈ deeds m.engine.next later) →
          commitsBy m.engine.next run = []) ∧
      (commitsBy m.engine.next run = [] → arrivals source run = [])) ∧
    ∀ id source name args, .forwarded id source name args ∈ executions id run →
      (∀ result ∈ returns id run, ∃ answer, replies id run = [answer] ∧
        result = remoteResult name answer) ∧
      ∀ answer ∈ replies id run, returns id (Engine.record ∅ r (as ++ [.advance id])) =
        [remoteResult name answer] := by
  intro run
  refine ⟨fun before m later id source name args h hz => Engine.routed hlocal h hz,
    fun first m rest id name args x source group gated d h hm hd hname =>
      Engine.executions_of_declares h hm hd hname,
    fun before m later source group gated h hm => ⟨fun hd => ?_, fun hnone => ?_⟩,
    fun id source name args hz => ?_⟩
  · obtain ⟨o, ht⟩ := Engine.tracks_record h hm
    exact ht.chronicle.unadded hd
  · exact Engine.arrivals_of_uncommitted hlocal hown h hm hnone
  · have hran : executions id run ≠ [] := List.ne_nil_of_mem hz
    obtain ⟨heffect, -⟩ := List.mem_filter.1 hz
    obtain ⟨m, hm, hcalled⟩ := List.mem_flatMap.1 heffect
    obtain ⟨before, later, h⟩ := List.append_of_mem hm
    obtain ⟨first, m₀, rest, x, group, gated, d, rfl, hstarts, -, hname, hentry, -⟩ :=
      (Engine.routed hlocal h hcalled).declared
    obtain ⟨husable, hx⟩ := Declaration.entryIn_eq_some.1 hentry
    obtain rfl : name = x.name :=
      Option.some.inj (hname.symm.trans (Option.filter_eq_some_iff.1 husable).1)
    have hm₀ : m₀ ∈ run := by
      rw [h]
      simp
    have hbody : x.tool.body = .remote source := by rw [hx]
    exact Engine.answered_remote hm₀ hstarts hbody hran

/-- Two sources declare a tool of the same name, one of them also one whose name differs by a blank.
The batch of the second is refused; the tool of the first is gated, approved, and fails. -/
def rivalSources : List (Action Unit) :=
  [.register (Catalog.shellTool "ls"), .enrol 7 "fs" (.ofList ["rm"]), .enrol 8 "db" ∅,
    .list 0 (.ok [.ofName " rm", .ofName "rm"]), .list 1 (.ok [.ofName "rm"]), .advance 0,
    .advance 1, .disconnected 1 8, .advance 1, .advance 0, .invoke "rm" ∅, .advance 2, .advance 2,
    .advance 2, .advance 2, .advance 2, .answer 2 (.ok true), .advance 2, .advance 2,
    .reply 2 (.error (.transport "reset")), .advance 2]

theorem remote_routing_rivalSources :
    let run := Engine.record ∅ (Registry.empty 0) rivalSources
    (∀ x, .register x ∈ rivalSources → ∃ code, x.tool.body = .own code) ∧
      (rivalSources.filterMap Action.source?).Nodup ∧
      Routed run (run.take 18) 2 7 "rm" ∅ ∧ arrivals 7 run = [.forwarded 2 7 "rm" ∅] ∧
      deeds 1 run = [.heard (.ok [.ofName "rm"]), .disconnecting 8,
        .returned (.error (.duplicateName "rm"))] ∧ arrivals 8 run = [] ∧
      replies 2 run = [.error (.transport "reset")] ∧
      returns 2 run =
        [.error (.tool "rm" (.custom "remote tool error: Transport error: reset"))] := by
  intro run
  have hlocal : ∀ x, .register x ∈ rivalSources → ∃ code, x.tool.body = .own code := by
    intro x hx
    obtain rfl : x = Catalog.shellTool "ls" := by simpa [rivalSources] using hx
    exact ⟨(), rfl⟩
  have hown : (rivalSources.filterMap Action.source?).Nodup := by decide
  obtain ⟨hrouted, -, hrefused, -⟩ := remote_routing (Registry.empty 0) rivalSources hlocal hown
  have hcalled : .forwarded 2 7 "rm" ∅ ∈ run[18].effects := List.mem_singleton.2 rfl
  obtain ⟨hnone, hsilent⟩ := hrefused (run.take 2) run[2] (run.drop 3) 8 "db" ∅ rfl rfl
  have hleft : .disconnecting 8 ∈ deeds run[2].engine.next (run.drop 3) :=
    List.mem_cons_of_mem _ List.mem_cons_self
  refine ⟨hlocal, hown, hrouted (run.take 18) run[18] (run.drop 19) 2 7 "rm" ∅ rfl hcalled, rfl,
    rfl, hsilent (hnone (.inl hleft)), rfl, rfl⟩

end GatedCalls
