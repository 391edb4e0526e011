import GatedCalls.Proofs.Server.Ledger
import GatedCalls.Proofs.Server.Overlap
import Mathlib.Data.List.Induction

/-!
# Calls beside disconnects

A call makes sure that there is a server, gives the lock back, and takes it again to use the server
it finds. A disconnect that gets the lock in between takes that server away, and the call does not
look for another: it fails for want of a connection. `calls_beside_disconnects` says that this is
the only way in which it comes to that error, whatever else happens to the client, and that all
other calls are asked of, and answered by, the server that runs, which is started anew if a
disconnect came first.
-/

namespace GatedCalls.Server.Client

variable {c base : Client} {a : Action} {o x : Operation} {id n : Nat} {q : Query}
  {live : List Nat} {next : Option Demand.Stage} {es : List Effect} {as : List Action}

/-! ### Who returns that there is no connection -/

theorem headerError?_ne_notConnected {t : Transport} : headerError? t ≠ some notConnected := by
  cases t with
  | stdio => exact nofun
  | http url headers =>
    intro h
    obtain ⟨e, -, he⟩ := List.exists_of_findSome?_eq_some h
    obtain ⟨f, -, hf⟩ := Option.map_eq_some_iff.1 he
    cases f <;> cases hf

theorem startError_ne_notConnected (config : Config) (f : StartFailure) :
    startError config f ≠ notConnected := by
  unfold startError notConnected
  cases f <;> cases config.transport <;>
    simp only [ne_eq, reduceCtorEq, not_false_eq_true, SourceError.connection.injEq,
      ← String.toList_inj, String.toList_append] <;> simp

theorem gain_ne_notConnected (d : Demand) (result : Except Refusal Answer) :
    gain d result ≠ .error notConnected := by
  unfold gain
  split
  · exact nofun
  · rw [responseOfResult]
    split <;> exact nofun
  · split <;> exact nofun

/-- Only an operation that has made sure of the server and does not find it says that there is no
connection. -/
theorem Moves.misses_of_returned (hm : c.Moves o a base next es)
    (h : .returned id (.error notConnected) ∈ es) :
    a = .advance id ∧ o.id = id ∧ o.stage = .entering ∧ c.isOpen = true ∧
      (c.service = none ∨ query? o.demand = none) := by
  cases hm with
  | misses hs hopen hn =>
    obtain rfl : id = o.id := by simpa using h
    exact ⟨rfl, rfl, hs, hopen, hn⟩
  | found => cases mem_settled h
  | began => cases mem_settled h
  | refused e hs hfree hn he =>
    obtain ⟨rfl, rfl⟩ : id = o.id ∧ notConnected = e := by simpa using h
    exact absurd he headerError?_ne_notConnected
  | failed n hs f =>
    obtain ⟨rfl, he⟩ : id = o.id ∧ notConnected = startError c.config f := by simpa using h
    exact absurd he.symm (startError_ne_notConnected c.config f)
  | answered n hs result =>
    obtain ⟨rfl, he⟩ : id = o.id ∧ .error notConnected = gain o.demand result := by simpa using h
    exact absurd he.symm (gain_ne_notConnected o.demand result)
  | stopped n hs failure =>
    cases failure with
    | none => simp at h
    | some text =>
      obtain ⟨rfl, he⟩ :
          id = o.id ∧ notConnected = .connection ("Failed to disconnect: " ++ text) := by
        simpa using h
      have htext := congrArg String.toList (SourceError.connection.inj he)
      simp at htext
  | starts => simp at h
  | enters => simp at h
  | stops => simp at h
  | leaves => simp at h
  | cancelled => simp at h

/-! ### The server -/

namespace Tally

theorem of_service (h : Tally c live) (hc : c.Sound) (hn : c.service = some n) : live = [n] := by
  have hopen : c.isOpen = true := isOpen_iff.2 fun o ho => by
    have hfits := hc.fits o ho
    unfold Operation.Fits at hfits
    cases hs : o.stage with
    | starting m => rw [hs, hn] at hfits; cases hfits.2
    | stopping m => rw [hs, hn] at hfits; cases hfits.2
    | _ => rfl
  rw [h.rest hopen, hn]
  rfl

theorem of_using (h : Tally c live) (hc : c.Sound) (hx : x ∈ c.operations)
    (hn : x.stage = .using n) : live = [n] := by
  exact h.of_service hc (hc.lock_of_waiting hx hn).2.2

theorem of_nil (h : Tally c []) : c.isOpen = true ∧ c.service = none := by
  have hopen : c.isOpen = true := isOpen_iff.2 fun o ho => Bool.eq_false_iff.2 fun halone => by
    obtain ⟨n, hn⟩ := Demand.Stage.holdsAlone_iff.1 halone
    cases h.busy o ho n hn
  refine ⟨hopen, ?_⟩
  cases hservice : c.service with
  | none => rfl
  | some n =>
    have hrest := h.rest hopen
    rw [hservice] at hrest
    cases hrest

end Tally

theorem Moves.stays (hm : c.Moves o a base next es) (hs : c.service.isSome = true)
    (hno : ∀ id n, .stop id n ∉ es) : base.service.isSome = true := by
  cases hm with
  | stops n => exact absurd List.mem_cons_self (hno o.id n)
  | began n => rfl
  | _ => exact hs

theorem stays (hs : c.service.isSome = true) (hno : ∀ id n, .stop id n ∉ c.effects as) :
    (c.after as).service.isSome = true := by
  induction as generalizing c with
  | nil => exact hs
  | cons a rest ih =>
    have hstep (id n : Nat) : .stop id n ∉ (c.step a).2 :=
      fun h => hno id n (List.mem_append_left _ h)
    refine ih (c := (c.step a).1) ?_ fun id n h => hno id n (List.mem_append_right _ h)
    rcases c.step_cases a with ⟨d, rfl⟩ | h | ⟨o, base, next, es, -, hm, h⟩
    · exact hs
    · rwa [h]
    · rw [h] at hstep ⊢
      rw [service_place]
      exact hm.stays hs hstep

theorem Moves.readied_isSome (hm : c.Moves o a base (some .entering) es) :
    base.service.isSome = true := by
  generalize hnext : some Demand.Stage.entering = next at hm
  cases hm with
  | found n hs hfree hn => rw [hn]; rfl
  | began n hs => rfl
  | _ => cases hnext

/-- An operation that has made sure of the server did so at some time while there was one. -/
theorem made_sure (hc : c.Sound) (hnone : c.operations = []) (as : List Action)
    (hx : x ∈ (c.after as).operations) (hs : x.stage = .entering) :
    ∃ before between, as = before ++ between ∧ x ∈ (c.after before).operations ∧
      (c.after before).service.isSome = true := by
  induction as using List.reverseRecOn with
  | nil =>
    rw [show c.after [] = c from rfl, hnone] at hx
    cases hx
  | append_singleton as a ih =>
    have hlast : c.after (as ++ [a]) = ((c.after as).step a).1 := by rw [after_append]; rfl
    by_cases hold : x ∈ (c.after as).operations
    · obtain ⟨before, between, rfl, hx', hservice⟩ := ih hold
      exact ⟨before, between ++ [a], by rw [List.append_assoc], hx', hservice⟩
    · -- it comes to that stage with the last action
      refine ⟨as ++ [a], [], by rw [List.append_nil], hx, ?_⟩
      rw [hlast] at hx ⊢
      have hc' := hc.after as
      rcases (c.after as).step_cases a with ⟨d, rfl⟩ | h | ⟨o, base, next, es, ho, hm, h⟩
      · rcases List.mem_append.1 hx with hx | hx
        · exact absurd hx hold
        · obtain rfl := List.mem_singleton.1 hx
          dsimp only at hs
          split at hs <;> cases hs
      · rw [h] at hx
        exact absurd hx hold
      · have hmem := mem_of_operation? ho
        rw [h] at hx ⊢
        rcases (hc'.mem_place hmem (hm.admitted hc' hmem).operations next x).1 hx with
          ⟨hx, -⟩ | ⟨s, rfl, rfl⟩
        · exact absurd hx hold
        · obtain rfl : s = .entering := hs
          rw [service_place]
          exact hm.readied_isSome

/-! ### Calls -/

/-- A disconnect has stopped the server since an operation made sure of it. -/
def Overtaken (c : Client) (past : List Action) (x : Operation) : Prop :=
  ∃ before between, past = before ++ between ∧ x ∈ (c.after before).operations ∧
    (∃ n, c.running before = [n]) ∧ ∃ id n, .stop id n ∈ (c.after before).effects between

/-- What calls come to at a client whose server that runs, if one does, is in `live`. -/
structure Serves (c : Client) (live : List Nat) : Prop where
  /-- A call fails for want of a connection exactly if it has made sure of a server, and none runs
  when its turn comes. -/
  misses : ∀ a id, .returned id (.error notConnected) ∈ (c.step a).2 ↔
    a = .advance id ∧ live = [] ∧ ∃ x ∈ c.operations, x.id = id ∧ x.stage = .entering
  /-- Else it asks the server that runs, -/
  asks : ∀ x ∈ c.operations, x.stage = .entering → c.isOpen = true → ∀ n ∈ live,
    ∃ q, query? x.demand = some q ∧ (c.step (.advance x.id)).2 = [.ask x.id n q]
  /-- and that goes on running until it has answered. -/
  waits : ∀ x ∈ c.operations, ∀ n, x.stage = .using n → live = [n]
  /-- A call that has still to make sure of a server starts it again after a disconnect. -/
  reconnects : ∀ x ∈ c.operations, x.stage = .connecting → c.isFree = true → live = [] →
    headerError? c.config.transport = none → (c.step (.advance x.id)).2 = [.start x.id c.started]
  /-- With a server that has started, or that runs, it has made sure of it. -/
  readies : ∀ x ∈ c.operations, (query? x.demand).isSome = true → ∀ n a,
    (x.stage = .starting n ∧ a = .started x.id (.ok ()) ∨
      x.stage = .connecting ∧ c.isFree = true ∧ n ∈ live ∧ a = .advance x.id) →
    ⟨x.id, x.demand, .entering⟩ ∈ (c.step a).1.operations ∧ runningAfter live c a = [n]

theorem returned_notConnected_iff (hc : c.Sound) (h : Tally c live) :
    .returned id (.error notConnected) ∈ (c.step a).2 ↔
      a = .advance id ∧ live = [] ∧ ∃ x ∈ c.operations, x.id = id ∧ x.stage = .entering := by
  constructor
  · intro he
    rcases c.step_cases a with ⟨d, rfl⟩ | hrest | ⟨o, base, next, es, ho, hm, hstep⟩
    · cases he
    · rw [hrest] at he
      cases he
    · have hmem := mem_of_operation? ho
      rw [hstep] at he
      obtain ⟨ha, hid, hs, hopen, hn⟩ := hm.misses_of_returned he
      obtain ⟨q, hq⟩ := hc.exists_query hmem hs
      have hnone : c.service = none := hn.resolve_right (by simp [hq])
      exact ⟨ha, by rw [h.rest hopen, hnone]; rfl, o, hmem, hid, hs⟩
  · rintro ⟨rfl, rfl, x, hx, rfl, hs⟩
    obtain ⟨hopen, hnone⟩ := h.of_nil
    rw [hc.advance hx]
    simp only [Client.advance, hs, hopen, hnone]
    exact List.mem_singleton_self _

/-- An operation that has made sure of the server finds none only if it was overtaken. -/
theorem overtaken (config : Config) (past : List Action)
    (hx : x ∈ ((ofConfig config).after past).operations) (hs : x.stage = .entering)
    (hlive : (ofConfig config).running past = []) : (ofConfig config).Overtaken past x := by
  obtain ⟨before, between, rfl, hx', hservice⟩ := made_sure (.ofConfig config) rfl past hx hs
  have hnone := (hlive ▸ tally_running config (before ++ between)).of_nil.2
  obtain ⟨n, hn⟩ := Option.isSome_iff_exists.1 hservice
  have hbefore := (tally_running config before).of_service ((Sound.ofConfig config).after before) hn
  refine ⟨before, between, rfl, hx', ⟨n, hbefore⟩, ?_⟩
  by_contra hno
  have hstays := stays hservice fun id n hstop => hno ⟨id, n, hstop⟩
  rw [after_append] at hnone
  rw [hnone] at hstays
  cases hstays

theorem serves (hc : c.Sound) (h : Tally c live) : Serves c live where
  misses a id := returned_notConnected_iff hc h
  asks x hx hs hopen n hn := by
    rw [h.rest hopen, Option.mem_toList] at hn
    obtain ⟨q, hq⟩ := hc.exists_query hx hs
    exact ⟨q, hq, by rw [hc.advance_entering hx hs hopen hn hq]⟩
  waits x hx n hs := h.of_using hc hx hs
  reconnects x hx hs hfree hlive he := by
    obtain rfl := hlive
    rw [(Moves.starts hs hfree h.of_nil.2 he).step_eq (hc.operation? hx)]
  readies x hx hq n a ha := by
    obtain ⟨q, hq⟩ := Option.isSome_iff_exists.1 hq
    have hready : readied x.demand = some .entering := by rw [readied, hq]; rfl
    -- either way the operation comes to wait for its share of the lock, and the server is there
    obtain ⟨base, hm, hservice⟩ : ∃ base, c.Moves x a base (readied x.demand) (settled x) ∧
        base.service = some n := by
      rcases ha with ⟨hs, rfl⟩ | ⟨hs, hfree, hn, rfl⟩
      · exact ⟨_, .began n hs, rfl⟩
      · rw [h.of_isFree hfree, Option.mem_toList] at hn
        exact ⟨c, .found n hs hfree hn, hn⟩
    have htally := h.step hc a
    have hsound := hc.step a
    rw [hm.step_eq (hc.operation? hx)] at htally hsound ⊢
    refine ⟨?_, htally.of_service hsound ((service_place ..).trans hservice)⟩
    exact (hc.mem_place hx (hm.admitted hc hx).operations _ _).2 (.inr ⟨_, hready, rfl⟩)

/-- Whatever happens to a client, its calls go to the server that runs, which is started again after
a disconnect, but for one: a call that has made sure of a server, and gets its share of the lock
after a disconnect has stopped that server and before another is started, fails for want of a
connection. -/
theorem calls_beside_disconnects (config : Config) (past : List Action) :
    let c := (ofConfig config).after past
    let live := (ofConfig config).running past
    Serves c live ∧
      ∀ x ∈ c.operations, x.stage = .entering → live = [] → (ofConfig config).Overtaken past x :=
  ⟨serves ((Sound.ofConfig config).after past) (tally_running config past),
    fun _ hx hs hlive => overtaken config past hx hs hlive⟩

/-- A call waits for its answer, another call and a disconnect stand in line behind it; with the
answer each gets the lock in turn. -/
def raced : List Action :=
  [.demand (.call "slow" ∅), .advance 0, .started 0 (.ok ()), .advance 0,
    .demand (.call "quick" ∅), .demand .disconnect, .answered 0 (.ok (.result .null)), .advance 1,
    .advance 2, .stopped 2 none]

/-- The second call has made sure of the server that the disconnect then stops, and does not look
for another, though the server could always be started and always answered. -/
theorem calls_beside_disconnects_raced :
    let c := (ofConfig ⟨"files", .ofCommand "server"⟩).after raced
    let x : Operation := ⟨1, .call "quick" ∅, .entering⟩
    x ∈ c.operations ∧ (ofConfig ⟨"files", .ofCommand "server"⟩).running raced = [] ∧
      .returned 1 (.error notConnected) ∈ (c.step (.advance 1)).2 ∧
      (ofConfig ⟨"files", .ofCommand "server"⟩).Overtaken raced x := by
  intro c x
  have hx : x ∈ c.operations := List.mem_singleton_self x
  have hlive : (ofConfig ⟨"files", .ofCommand "server"⟩).running raced = [] := rfl
  obtain ⟨hserves, hovertaken⟩ := calls_beside_disconnects ⟨"files", .ofCommand "server"⟩ raced
  exact ⟨hx, hlive, (hserves.misses _ 1).2 ⟨rfl, hlive, x, hx, rfl, rfl⟩,
    hovertaken x hx rfl hlive⟩

end GatedCalls.Server.Client
