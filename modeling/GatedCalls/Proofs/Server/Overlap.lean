import GatedCalls.Proofs.Server.Lock

/-!
# Requests beside one another

An operation that waits for the answer of the server has a share of the lock. Until then another can
only take a share too, or be answered or given up (`Moves.beside`), and it takes a share only if it
had made sure of the server before: the lock alone, in which that is done, is out of reach. So the
requests that go beside one another are those of operations that were past that point already, and a
request that is never answered holds up all others (`overlapping_requests`).
-/

namespace GatedCalls.Server.Client

variable {c base : Client} {a : Action} {o w x : Operation} {n : Nat} {q : Query}
  {next : Option Demand.Stage} {es : List Effect} {future : List Action}

/-- Whether an action leaves an operation to wait: it is neither answered nor given up. -/
def Action.spares (id : Nat) : Action → Bool
  | .answered i _ | .cancel i => i != id
  | .demand _ | .started .. | .stopped .. | .advance _ => true

/-- The operations that have made sure of the server and are about to send a request. -/
def Entering (c : Client) (id : Nat) (q : Query) : Prop :=
  ∃ x ∈ c.operations, x.id = id ∧ x.stage = .entering ∧ query? x.demand = some q

namespace Sound

theorem advance (hc : c.Sound) (ho : o ∈ c.operations) :
    c.step (.advance o.id) = c.advance o := by
  simp only [Client.step, hc.operation? ho]

/-- While an operation waits nobody gets the lock alone, but everybody gets a share, and finds the
server. -/
theorem lock_of_waiting (hc : c.Sound) (hw : w ∈ c.operations) (hn : w.stage = .using n) :
    c.isFree = false ∧ c.isOpen = true ∧ c.service = some n := by
  have hholds : w.stage.holds = true := by rw [hn]; rfl
  have hfits := hc.fits w hw
  unfold Operation.Fits at hfits
  rw [hn] at hfits
  refine ⟨Bool.eq_false_iff.2 fun hfree => ?_, ?_, hfits.2⟩
  · rw [isFree_iff.1 hfree w hw] at hholds
    cases hholds
  · refine isOpen_iff.2 fun y hy => Bool.eq_false_iff.2 fun halone => ?_
    rw [← hc.alone y hy halone w hw hholds, hn] at halone
    cases halone

end Sound

/-! ### While an operation waits -/

/-- While an operation waits, another can only send its request to the same server, if it was about
to, or be answered or given up. -/
theorem Moves.beside (hm : c.Moves o a base next es) (hc : c.Sound) (ho : o ∈ c.operations)
    (hw : w ∈ c.operations) (hn : w.stage = .using n) :
    (∃ q, o.stage = .entering ∧ query? o.demand = some q ∧ base = c ∧ next = some (.using n) ∧
      es = [.ask o.id n q]) ∨
    (base = c ∧ next = none ∧ a.spares o.id = false ∧
      (o.stage = .connecting → a = .cancel o.id) ∧ ∀ id m q, .ask id m q ∉ es) := by
  obtain ⟨hbusy, hopen, hservice⟩ := hc.lock_of_waiting hw hn
  have hclosed (h : o.stage.holdsAlone = true) : False := by
    rw [isOpen_iff.1 hopen o ho] at h
    cases h
  cases hm with
  | enters m q hs _ hm hq =>
    obtain rfl := Option.some.inj (hservice.symm.trans hm)
    exact .inl ⟨q, hs, hq, rfl, rfl, rfl⟩
  | answered m hs result =>
    refine .inr ⟨rfl, rfl, bne_self_eq_false _, fun h => ?_, by simp⟩
    rw [h] at hs
    cases hs
  | cancelled => exact .inr ⟨rfl, rfl, bne_self_eq_false _, fun _ => rfl, by simp⟩
  | misses hs _ hmiss =>
    -- the server is there, and the operation has something to ask it
    have hfits := hc.fits o ho
    unfold Operation.Fits at hfits
    rw [hs] at hfits
    rcases hmiss with hnone | hnone
    · rw [hservice] at hnone
      cases hnone
    · rw [hnone] at hfits
      cases hfits
  | began m hs => exact (hclosed (by rw [hs]; rfl)).elim
  | failed m hs f => exact (hclosed (by rw [hs]; rfl)).elim
  | stopped m hs failure => exact (hclosed (by rw [hs]; rfl)).elim
  | found m hs hfree hm => rw [hbusy] at hfree; cases hfree
  | refused e hs hfree hm he => rw [hbusy] at hfree; cases hfree
  | starts hs hfree hm he => rw [hbusy] at hfree; cases hfree
  | stops m hs hfree hm => rw [hbusy] at hfree; cases hfree
  | leaves hs hfree hm => rw [hbusy] at hfree; cases hfree

/-- What becomes of a client while an operation waits: it waits on, nobody comes to be about to send
a request, and only requests of those who were are sent. -/
structure Beside (c : Client) (w : Operation) (n : Nat) (c' : Client) (es : List Effect) :
    Prop where
  waits : w ∈ c'.operations
  entering : ∀ id q, c'.Entering id q → c.Entering id q
  asks : ∀ id m q, .ask id m q ∈ es → m = n ∧ c.Entering id q

namespace Sound

theorem step_beside (hc : c.Sound) (hw : w ∈ c.operations) (hn : w.stage = .using n)
    (ha : a.spares w.id = true) : c.Beside w n (c.step a).1 (c.step a).2 := by
  rcases c.step_cases a with ⟨d, rfl⟩ | h | ⟨o, base, next, es, ho, hm, h⟩
  · refine ⟨List.mem_append_left _ hw, ?_, nofun⟩
    rintro id q ⟨x, hx, hid, hs, hq⟩
    rcases List.mem_append.1 hx with hx | hx
    · exact ⟨x, hx, hid, hs, hq⟩
    · obtain rfl := List.mem_singleton.1 hx
      dsimp only at hs
      split at hs <;> cases hs
  · rw [h]
    exact ⟨hw, fun _ _ h => h, nofun⟩
  · have hmem := mem_of_operation? ho
    have hplace := hc.mem_place hmem (hm.admitted hc hmem).operations next
    rw [h]
    rcases hm.beside hc hmem hw hn with
      ⟨q, hs, hq, rfl, rfl, rfl⟩ | ⟨rfl, rfl, hends, -, hasks⟩
    · have hne : w ≠ o := fun heq => by rw [← heq, hn] at hs; cases hs
      refine ⟨(hplace w).2 (.inl ⟨hw, hne⟩), ?_, fun id m p he => ?_⟩
      · rintro id p ⟨x, hx, hid, hx', hp⟩
        rcases (hplace x).1 hx with ⟨hx, -⟩ | ⟨s, hs', rfl⟩
        · exact ⟨x, hx, hid, hx', hp⟩
        · cases hs'
          cases hx'
      · obtain ⟨rfl, rfl, rfl⟩ : id = o.id ∧ m = n ∧ p = q := by simpa using he
        exact ⟨rfl, o, hmem, rfl, hs, hq⟩
    · have hne : w ≠ o := fun heq => by rw [← heq, ha] at hends; cases hends
      refine ⟨(hplace w).2 (.inl ⟨hw, hne⟩), ?_, fun id m p he => absurd he (hasks id m p)⟩
      rintro id p ⟨x, hx, hid, hx', hp⟩
      rcases (hplace x).1 hx with ⟨hx, -⟩ | ⟨s, hs', -⟩
      · exact ⟨x, hx, hid, hx', hp⟩
      · cases hs'

theorem beside (hc : c.Sound) (hw : w ∈ c.operations) (hn : w.stage = .using n)
    (hf : ∀ a ∈ future, a.spares w.id = true) :
    c.Beside w n (c.after future) (c.effects future) := by
  induction future generalizing c with
  | nil => exact ⟨hw, fun _ _ h => h, nofun⟩
  | cons a rest ih =>
    obtain ⟨ha, hrest⟩ := List.forall_mem_cons.1 hf
    have hstep := hc.step_beside hw hn ha
    have hrun := ih (hc.step a) hstep.waits hrest
    refine ⟨hrun.waits, fun id q h => hstep.entering id q (hrun.entering id q h), ?_⟩
    intro id m q he
    rcases List.mem_append.1 he with he | he
    · exact hstep.asks id m q he
    · obtain ⟨hm, hx⟩ := hrun.asks id m q he
      exact ⟨hm, hstep.entering id q hx⟩

theorem held_up (hc : c.Sound) (hw : w ∈ c.operations) (hn : w.stage = .using n)
    (hx : x ∈ c.operations) (hs : x.stage = .connecting)
    (hf : ∀ a ∈ future, a.spares w.id = true ∧ a ≠ .cancel x.id) :
    x ∈ (c.after future).operations := by
  induction future generalizing c with
  | nil => exact hx
  | cons a rest ih =>
    obtain ⟨⟨ha, hkeep⟩, hrest⟩ := List.forall_mem_cons.1 hf
    have hstays : x ∈ (c.step a).1.operations := by
      rcases c.step_cases a with ⟨d, rfl⟩ | h | ⟨o, base, next, es, ho, hm, h⟩
      · exact List.mem_append_left _ hx
      · rwa [h]
      · have hmem := mem_of_operation? ho
        rw [h]
        refine (hc.mem_place hmem (hm.admitted hc hmem).operations _ _).2 (.inl ⟨hx, ?_⟩)
        rintro rfl
        rcases hm.beside hc hmem hw hn with ⟨q, hs', -⟩ | ⟨-, -, -, hcancel, -⟩
        · rw [hs] at hs'
          cases hs'
        · exact hkeep (hcancel hs)
    exact ih (hc.step a) (hc.step_beside hw hn ha).waits hstays hrest

/-! ### When it waits no more -/

theorem advance_entering (hc : c.Sound) (hx : x ∈ c.operations) (hs : x.stage = .entering)
    (hopen : c.isOpen = true) (hn : c.service = some n) (hq : query? x.demand = some q) :
    c.step (.advance x.id) = (c.place x.id (some (.using n)), [.ask x.id n q]) := by
  rw [hc.advance hx]
  simp only [Client.advance, hs, hopen, hn, hq]
  rfl

theorem asks_of_free (hc : c.Sound) (hx : x ∈ c.operations) (hs : x.stage = .connecting)
    (hfree : c.isFree = true) (hn : c.service = some n) (hq : query? x.demand = some q) :
    c.effects [.advance x.id, .advance x.id] = [.ask x.id n q] := by
  have hfirst : c.step (.advance x.id) = (c.place x.id (some .entering), []) := by
    rw [hc.advance hx]
    simp only [Client.advance, hs, hfree, hn, Option.isSome_some, connected_eq, readied, settled,
      hq]
    rfl
  have hc' : (c.place x.id (some .entering)).Sound := by
    have := hc.step (.advance x.id)
    rwa [hfirst] at this
  have hmem := hc.mem_place hx rfl (some .entering)
  have hopen : (c.place x.id (some .entering)).isOpen = true := by
    refine isOpen_iff.2 fun y hy => ?_
    rcases (hmem y).1 hy with ⟨hy, -⟩ | ⟨s, ⟨⟩, rfl⟩
    · exact (Bool.or_eq_false_iff.1 (isFree_iff.1 hfree y hy)).1
    · rfl
  have hsecond := hc'.advance_entering ((hmem _).2 (.inr ⟨_, rfl, rfl⟩)) rfl hopen
    ((service_place ..).trans hn) hq
  simp only [effects, hfirst, hsecond, List.nil_append, List.append_nil]

theorem answer (hc : c.Sound) (hw : w ∈ c.operations) (hn : w.stage = .using n)
    (result : Except Refusal Answer) : c.step (.answered w.id result) =
      (c.place w.id none, [.returned w.id (gain w.demand result)]) := by
  have hfound := hc.operation? hw
  obtain ⟨id, d, stage⟩ := w
  obtain rfl : stage = .using n := hn
  simp only [Client.step, hfound]
  rfl

/-- With the answer the next operation goes on, unless yet another has a share of the lock. -/
theorem asks_after_answer (hc : c.Sound) (hw : w ∈ c.operations) (hn : w.stage = .using n)
    (hx : x ∈ c.operations) (hs : x.stage = .connecting) (hq : query? x.demand = some q)
    (honly : ∀ o ∈ c.operations, o.stage.holdsShare = true → o = w)
    (result : Except Refusal Answer) :
    c.effects [.answered w.id result, .advance x.id, .advance x.id] =
      [.returned w.id (gain w.demand result), .ask x.id n q] := by
  obtain ⟨-, hopen, hservice⟩ := hc.lock_of_waiting hw hn
  have hmem := hc.mem_place hw rfl none
  have hne : x ≠ w := fun heq => by rw [heq, hn] at hs; cases hs
  have hfree : (c.place w.id none).isFree = true := by
    refine isFree_iff.2 fun y hy => ?_
    obtain ⟨hy, hyne⟩ := ((hmem y).1 hy).resolve_right (by simp)
    refine Bool.or_eq_false_iff.2 ⟨isOpen_iff.1 hopen y hy, Bool.eq_false_iff.2 fun hshare => ?_⟩
    exact hyne (honly y hy hshare)
  have hrest := (hc.place hw (.ended c w)).asks_of_free ((hmem x).2 (.inl ⟨hx, hne⟩)) hs hfree
    ((service_place ..).trans hservice) hq
  rw [effects, hc.answer hw hn, hrest]
  rfl

end Sound

/-- Which requests can be sent while an operation waits for the answer of the server, whatever has
happened to the client and whatever will, short of the answer and of giving the operation up. Those
that were about to be sent can, and go to the same server; no other can, those of later operations
included. What has still to make sure of the server stays where it is, and goes on with the answer,
unless yet another has a share of the lock then. -/
theorem overlapping_requests (config : Config) (past : List Action) :
    let c := (ofConfig config).after past
    ∀ w ∈ c.operations, ∀ n, w.stage = .using n →
      (∀ id q, (∃ future, (∀ a ∈ future, a.spares w.id = true) ∧
          ∃ m, .ask id m q ∈ c.effects future) ↔ c.Entering id q) ∧
      (∀ future, (∀ a ∈ future, a.spares w.id = true) →
        w ∈ (c.after future).operations ∧ ∀ id m q, .ask id m q ∈ c.effects future → m = n) ∧
      ∀ x ∈ c.operations, x.stage = .connecting →
        (∀ future, (∀ a ∈ future, a.spares w.id = true ∧ a ≠ .cancel x.id) →
          x ∈ (c.after future).operations) ∧
        ∀ q, query? x.demand = some q →
          (∀ o ∈ c.operations, o.stage.holdsShare = true → o = w) →
          ∀ result, c.effects [.answered w.id result, .advance x.id, .advance x.id] =
            [.returned w.id (gain w.demand result), .ask x.id n q] := by
  intro c w hw n hn
  have hc : c.Sound := (Sound.ofConfig config).after past
  obtain ⟨-, hopen, hservice⟩ := hc.lock_of_waiting hw hn
  refine ⟨fun id q => ⟨?_, ?_⟩, fun future hf => ?_, fun x hx hs => ⟨fun future hf => ?_, ?_⟩⟩
  · rintro ⟨future, hf, m, he⟩
    exact ((hc.beside hw hn hf).asks id m q he).2
  · rintro ⟨x, hx, rfl, hs, hq⟩
    refine ⟨[.advance x.id], by simp [Action.spares], n, ?_⟩
    rw [effects, hc.advance_entering hx hs hopen hservice hq]
    exact List.mem_cons_self
  · have hrun := hc.beside hw hn hf
    exact ⟨hrun.waits, fun id m q he => (hrun.asks id m q he).1⟩
  · exact hc.held_up hw hn hx hs hf
  · exact fun q hq honly result => hc.asks_after_answer hw hn hx hs hq honly result

/-- One call waits for its answer, a listing is about to be asked for, and another call has still to
make sure of the server. -/
def crowded : List Action :=
  [.demand (.call "slow" ∅), .advance 0, .started 0 (.ok ()), .demand .list, .advance 1,
    .advance 0, .demand (.call "quick" ∅), .advance 2]

/-- The listing can be asked for beside the call, but the second call is not made until the first is
answered. -/
theorem overlapping_requests_crowded :
    let c := (ofConfig ⟨"files", .ofCommand "server"⟩).after crowded
    let waits (future : List Action) := ∀ a ∈ future, a.spares 0 = true
    ⟨0, .call "slow" ∅, .using 0⟩ ∈ c.operations ∧
      (∃ future, waits future ∧ ∃ m, .ask 1 m .list ∈ c.effects future) ∧
      (¬ ∃ future, waits future ∧ ∃ m, .ask 2 m (.call "quick" ∅) ∈ c.effects future) ∧
      c.effects [.answered 0 (.error .closed), .advance 2, .advance 2] =
        [.returned 0 (gain (.call "slow" ∅) (.error .closed)), .ask 2 0 (.call "quick" ∅)] := by
  intro c waits
  have hmem (o : Operation) : o ∈ c.operations ↔ o = ⟨0, .call "slow" ∅, .using 0⟩ ∨
      o = ⟨1, .list, .entering⟩ ∨ o = ⟨2, .call "quick" ∅, .connecting⟩ := by
    have hops : c.operations = [⟨0, .call "slow" ∅, .using 0⟩, ⟨1, .list, .entering⟩,
      ⟨2, .call "quick" ∅, .connecting⟩] := rfl
    simp [hops]
  obtain ⟨hsent, -, hheld⟩ := overlapping_requests ⟨"files", .ofCommand "server"⟩ crowded _
    ((hmem _).2 (.inl rfl)) 0 rfl
  refine ⟨(hmem _).2 (.inl rfl), (hsent 1 .list).2 ⟨_, (hmem _).2 (.inr (.inl rfl)), rfl, rfl, rfl⟩,
    fun h => ?_, (hheld _ ((hmem _).2 (.inr (.inr rfl))) rfl).2 _ rfl (fun o ho hshare => ?_) _⟩
  · obtain ⟨x, hx, hid, hs, -⟩ := (hsent 2 _).1 h
    rcases (hmem x).1 hx with rfl | rfl | rfl
    · cases hid
    · cases hid
    · cases hs
  · rcases (hmem o).1 ho with rfl | rfl | rfl
    · rfl
    · cases hshare
    · cases hshare

end GatedCalls.Server.Client
