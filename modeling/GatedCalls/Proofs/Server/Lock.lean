import GatedCalls.Server.Client
import Mathlib.Data.List.Nodup

/-!
# The lock of a client

`Client.step_cases` says what a step of a client does: it takes on an operation, or nothing happens,
or one operation moves, and `Client.Moves` lists the ways in which it can. What they have in common
is `Moves.Admitted`: an operation gets the lock alone only while nobody has it, a share of it only
while nobody has it alone, and the server changes only while nobody else has the lock. So every
state that a client comes to is `Client.Sound`.
-/

namespace GatedCalls.Server

variable {c : Client} {a : Client.Action} {o w x : Operation} {id n : Nat}
  {next : Option Demand.Stage} {base : Client} {es : List Client.Effect}

/-- Whether an operation in this stage has the lock, alone or with others. -/
def Demand.Stage.holds (s : Stage) : Bool := s.holdsAlone || s.holdsShare

/-- Whether an operation is in a stage that goes with its demand and the server of its client. -/
def Operation.Fits (o : Operation) (service : Option Nat) : Prop :=
  match o.stage with
  | .connecting => o.demand ≠ .disconnect
  | .starting _ => o.demand ≠ .disconnect ∧ service = none
  | .entering => (Client.query? o.demand).isSome
  | .using n => (Client.query? o.demand).isSome ∧ service = some n
  | .leaving => o.demand = .disconnect
  | .stopping _ => o.demand = .disconnect ∧ service = none

theorem Operation.Fits.of_not_holds {service service' : Option Nat} (h : o.Fits service)
    (ho : o.stage.holds = false) : o.Fits service' := by
  obtain ⟨id, d, stage⟩ := o
  cases stage with
  | connecting => exact h
  | entering => exact h
  | leaving => exact h
  | starting n => cases ho
  | «using» n => cases ho
  | stopping n => cases ho

namespace Client

/-- A client to which actions have happened. -/
def after (c : Client) (as : List Action) : Client := as.foldl (fun c a => (c.step a).1) c

/-- What a client does while actions happen to it. -/
def effects (c : Client) : List Action → List Effect
  | [] => []
  | a :: rest => (c.step a).2 ++ effects (c.step a).1 rest

/-! ### Steps -/

/-- The client with one operation in another stage, or without it. -/
def place (c : Client) (id : Nat) : Option Demand.Stage → Client
  | some s => c.setStage id s
  | none => c.drop id

/-- The stage of an operation that has made sure of the server, if it wants more than that. -/
def readied (d : Demand) : Option Demand.Stage := (query? d).map fun _ => .entering

/-- What an operation that has made sure of the server returns, if it wanted no more. -/
def settled (o : Operation) : List Effect :=
  if (query? o.demand).isSome then [] else [.returned o.id (.ok .done)]

/-- The ways in which an operation moves: the action that moves it, the client with the server it
leaves, the stage that it comes to unless it is over, and what is done. -/
inductive Moves (c : Client) (o : Operation) :
    Action → Client → Option Demand.Stage → List Effect → Prop
  | found (n : Nat) (hs : o.stage = .connecting) (hfree : c.isFree = true)
      (hn : c.service = some n) : Moves c o (.advance o.id) c (readied o.demand) (settled o)
  | refused (e : SourceError) (hs : o.stage = .connecting) (hfree : c.isFree = true)
      (hn : c.service = none) (he : headerError? c.config.transport = some e) :
      Moves c o (.advance o.id) c none [.returned o.id (.error e)]
  | starts (hs : o.stage = .connecting) (hfree : c.isFree = true) (hn : c.service = none)
      (he : headerError? c.config.transport = none) :
      Moves c o (.advance o.id) { c with started := c.started + 1 } (some (.starting c.started))
        [.start o.id c.started]
  | began (n : Nat) (hs : o.stage = .starting n) :
      Moves c o (.started o.id (.ok ())) { c with service := some n } (readied o.demand) (settled o)
  | failed (n : Nat) (hs : o.stage = .starting n) (f : StartFailure) :
      Moves c o (.started o.id (.error f)) c none
        [.returned o.id (.error (startError c.config f))]
  | enters (n : Nat) (q : Query) (hs : o.stage = .entering) (hopen : c.isOpen = true)
      (hn : c.service = some n) (hq : query? o.demand = some q) :
      Moves c o (.advance o.id) c (some (.using n)) [.ask o.id n q]
  | misses (hs : o.stage = .entering) (hopen : c.isOpen = true)
      (hn : c.service = none ∨ query? o.demand = none) :
      Moves c o (.advance o.id) c none [.returned o.id (.error notConnected)]
  | answered (n : Nat) (hs : o.stage = .using n) (result : Except Refusal Answer) :
      Moves c o (.answered o.id result) c none [.returned o.id (gain o.demand result)]
  | stops (n : Nat) (hs : o.stage = .leaving) (hfree : c.isFree = true) (hn : c.service = some n) :
      Moves c o (.advance o.id) { c with service := none } (some (.stopping n)) [.stop o.id n]
  | leaves (hs : o.stage = .leaving) (hfree : c.isFree = true) (hn : c.service = none) :
      Moves c o (.advance o.id) c none [.returned o.id (.ok .done)]
  | stopped (n : Nat) (hs : o.stage = .stopping n) (failure : Option String) :
      Moves c o (.stopped o.id failure) c none [.returned o.id (match failure with
        | none => .ok .done
        | some text => .error (.connection ("Failed to disconnect: " ++ text)))]
  | cancelled : Moves c o (.cancel o.id) c none []

theorem mem_settled {e : Effect} (h : e ∈ settled o) : e = .returned o.id (.ok .done) := by
  unfold settled at h
  split at h
  · cases h
  · exact List.mem_singleton.1 h

theorem operation?_id (h : c.operation? id = some o) : o.id = id := by
  simpa using List.find?_some h

theorem mem_of_operation? (h : c.operation? id = some o) : o ∈ c.operations :=
  List.mem_of_find?_eq_some h

theorem connected_eq (c : Client) (o : Operation) :
    c.connected o = (c.place o.id (readied o.demand), settled o) := by
  unfold connected readied settled
  cases query? o.demand <;> rfl

theorem advance_cases (c : Client) (o : Operation) : c.advance o = (c, []) ∨
    ∃ base next es, c.Moves o (.advance o.id) base next es ∧
      c.advance o = (base.place o.id next, es) := by
  unfold advance
  cases hs : o.stage with
  | connecting =>
    cases hfree : c.isFree with
    | false => exact .inl rfl
    | true =>
      right
      cases hn : c.service with
      | some n => exact ⟨_, _, _, .found n hs hfree hn, connected_eq c o⟩
      | none =>
        cases he : headerError? c.config.transport with
        | some e => exact ⟨_, _, _, .refused e hs hfree hn he, rfl⟩
        | none => exact ⟨_, _, _, .starts hs hfree hn he, by rw [hn]; rfl⟩
  | entering =>
    cases hopen : c.isOpen with
    | false => exact .inl rfl
    | true =>
      right
      cases hn : c.service with
      | none => exact ⟨_, _, _, .misses hs hopen (.inl hn), rfl⟩
      | some n =>
        cases hq : query? o.demand with
        | none => exact ⟨_, _, _, .misses hs hopen (.inr hq), rfl⟩
        | some q => exact ⟨_, _, _, .enters n q hs hopen hn hq, rfl⟩
  | leaving =>
    cases hfree : c.isFree with
    | false => exact .inl rfl
    | true =>
      right
      cases hn : c.service with
      | none => exact ⟨_, _, _, .leaves hs hfree hn, rfl⟩
      | some n => exact ⟨_, _, _, .stops n hs hfree hn, rfl⟩
  | starting n => exact .inl rfl
  | «using» n => exact .inl rfl
  | stopping n => exact .inl rfl

/-- A step takes on an operation, does nothing, or moves one operation. -/
theorem step_cases (c : Client) (a : Action) : (∃ d, a = .demand d) ∨ c.step a = (c, []) ∨
    ∃ o base next es, c.operation? o.id = some o ∧ c.Moves o a base next es ∧
      c.step a = (base.place o.id next, es) := by
  cases a with
  | demand d => exact .inl ⟨d, rfl⟩
  | started id result =>
    right
    simp only [step]
    split
    · rename_i ho
      obtain rfl := operation?_id ho
      exact .inr ⟨_, _, _, _, ho, .began _ rfl, connected_eq _ _⟩
    · rename_i ho
      obtain rfl := operation?_id ho
      exact .inr ⟨_, _, _, _, ho, .failed _ rfl _, rfl⟩
    · exact .inl rfl
  | answered id result =>
    right
    simp only [step]
    split
    · rename_i ho
      obtain rfl := operation?_id ho
      exact .inr ⟨_, _, _, _, ho, .answered _ rfl result, rfl⟩
    · exact .inl rfl
  | stopped id failure =>
    right
    simp only [step]
    split
    · rename_i ho
      obtain rfl := operation?_id ho
      exact .inr ⟨_, _, _, _, ho, .stopped _ rfl failure, rfl⟩
    · exact .inl rfl
  | cancel id =>
    right
    cases ho : c.operation? id with
    | some o =>
      obtain rfl := operation?_id ho
      exact .inr ⟨o, _, _, _, ho, .cancelled, rfl⟩
    | none =>
      have hall : c.operations.filter (·.id != id) = c.operations := by
        rw [List.filter_eq_self]
        intro o ho'
        simpa using List.find?_eq_none.1 ho o ho'
      left
      show (c.drop id, []) = (c, [])
      rw [drop, hall]
  | advance id =>
    right
    cases ho : c.operation? id with
    | none => exact .inl (by simp only [step, ho])
    | some o =>
      obtain rfl := operation?_id ho
      have hstep : c.step (.advance o.id) = c.advance o := by simp only [step, ho]
      rw [hstep]
      rcases advance_cases c o with h | ⟨base, next, es, hm, h⟩
      · exact .inl h
      · exact .inr ⟨o, base, next, es, ho, hm, h⟩

theorem Moves.step_eq (hm : c.Moves o a base next es) (ho : c.operation? o.id = some o) :
    c.step a = (base.place o.id next, es) := by
  have hadvance : c.step (.advance o.id) = c.advance o := by simp only [step, ho]
  cases hm with
  | found n hs hfree hn =>
    rw [hadvance, ← connected_eq]
    simp [advance, hs, hfree, hn]
  | refused e hs hfree hn he =>
    rw [hadvance]
    simp [advance, hs, hfree, hn, he, place, conclude]
  | starts hs hfree hn he =>
    rw [hadvance]
    simp [advance, hs, hfree, hn, he, place]
  | began n hs =>
    obtain ⟨id, d, stage⟩ := o
    obtain rfl : stage = .starting n := hs
    simp only [step, ho, connected_eq]
  | failed n hs f =>
    obtain ⟨id, d, stage⟩ := o
    obtain rfl : stage = .starting n := hs
    simp [step, ho, place, conclude]
  | enters n q hs hopen hn hq =>
    rw [hadvance]
    simp [advance, hs, hopen, hn, hq, place]
  | misses hs hopen hn =>
    rw [hadvance]
    rcases hn with hn | hq
    · simp [advance, hs, hopen, hn, place, conclude]
    · cases hn : c.service <;> simp [advance, hs, hopen, hn, hq, place, conclude]
  | answered n hs result =>
    obtain ⟨id, d, stage⟩ := o
    obtain rfl : stage = .using n := hs
    simp [step, ho, place, conclude]
  | stops n hs hfree hn =>
    rw [hadvance]
    simp [advance, hs, hfree, hn, place]
  | leaves hs hfree hn =>
    rw [hadvance]
    simp [advance, hs, hfree, hn, place, conclude]
  | stopped n hs failure =>
    obtain ⟨id, d, stage⟩ := o
    obtain rfl : stage = .stopping n := hs
    cases failure <;> simp [step, ho, place, conclude]
  | cancelled => rfl

/-! ### Who has the lock -/

/-- Each operation has its own number and is in a stage that goes with the server, and while one has
the lock alone no other has it at all. -/
structure Sound (c : Client) : Prop where
  distinct : (c.operations.map Operation.id).Nodup
  below : ∀ o ∈ c.operations, o.id < c.next
  fits : ∀ o ∈ c.operations, o.Fits c.service
  alone : ∀ o ∈ c.operations, o.stage.holdsAlone = true →
    ∀ x ∈ c.operations, x.stage.holds = true → x = o

/-- What allows an operation to come to its next stage, or to end. -/
structure Admitted (c : Client) (o : Operation) (base : Client) (next : Option Demand.Stage) :
    Prop where
  operations : base.operations = c.operations
  count : base.next = c.next
  /-- The server changes only while nobody else has the lock. -/
  server : base.service = c.service ∨ ∀ x ∈ c.operations, x ≠ o → x.stage.holds = false
  fits : ∀ s, next = some s → Operation.Fits ⟨o.id, o.demand, s⟩ base.service
  alone : ∀ s, next = some s → s.holdsAlone = true →
    ∀ x ∈ c.operations, x ≠ o → x.stage.holds = false
  share : ∀ s, next = some s → s.holdsShare = true →
    ∀ x ∈ c.operations, x ≠ o → x.stage.holdsAlone = false

theorem isFree_iff : c.isFree = true ↔ ∀ x ∈ c.operations, x.stage.holds = false := by
  simp [isFree, Demand.Stage.holds]

theorem isOpen_iff : c.isOpen = true ↔ ∀ x ∈ c.operations, x.stage.holdsAlone = false := by
  simp [isOpen]

theorem readied_eq_some {d : Demand} {s : Demand.Stage} (h : readied d = some s) :
    s = .entering ∧ (query? d).isSome = true := by
  unfold readied at h
  cases hq : query? d with
  | none => rw [hq] at h; cases h
  | some q => rw [hq] at h; cases h; exact ⟨rfl, rfl⟩

theorem ids_place (c : Client) (id : Nat) (next : Option Demand.Stage) :
    ((c.place id next).operations.map Operation.id).Sublist (c.operations.map Operation.id) := by
  cases next with
  | none => exact List.filter_sublist.map _
  | some s =>
    have hsame : (c.place id (some s)).operations.map Operation.id =
        c.operations.map Operation.id := by
      rw [place, setStage, List.map_map]
      refine List.map_congr_left fun o _ => ?_
      dsimp only [Function.comp]
      split <;> rfl
    rw [hsame]

theorem next_place (c : Client) (id : Nat) (next : Option Demand.Stage) :
    (c.place id next).next = c.next := by cases next <;> rfl

theorem service_place (c : Client) (id : Nat) (next : Option Demand.Stage) :
    (c.place id next).service = c.service := by cases next <;> rfl

namespace Sound

theorem eq_of_id (hc : c.Sound) (ho : o ∈ c.operations) (hx : x ∈ c.operations)
    (h : x.id = o.id) : x = o := List.inj_on_of_nodup_map hc.distinct hx ho h

theorem operation? (hc : c.Sound) (ho : o ∈ c.operations) : c.operation? o.id = some o := by
  cases h : c.operation? o.id with
  | none =>
    have hnone := List.find?_eq_none.1 h o ho
    simp at hnone
  | some x => rw [hc.eq_of_id ho (mem_of_operation? h) (operation?_id h)]

theorem others (hc : c.Sound) (ho : o ∈ c.operations) (h : o.stage.holdsAlone = true) :
    ∀ x ∈ c.operations, x ≠ o → x.stage.holds = false := fun x hx hne =>
  Bool.eq_false_iff.2 fun hholds => hne (hc.alone o ho h x hx hholds)

theorem exists_query (hc : c.Sound) (ho : o ∈ c.operations) (hs : o.stage = .entering) :
    ∃ q, query? o.demand = some q := by
  have hfits := hc.fits o ho
  unfold Operation.Fits at hfits
  rw [hs] at hfits
  exact Option.isSome_iff_exists.1 hfits

theorem mem_place (hc : c.Sound) (ho : o ∈ c.operations) (hb : base.operations = c.operations)
    (next : Option Demand.Stage) (x : Operation) :
    x ∈ (base.place o.id next).operations ↔
      (x ∈ c.operations ∧ x ≠ o) ∨ ∃ s, next = some s ∧ x = ⟨o.id, o.demand, s⟩ := by
  have hid (y : Operation) (hy : y ∈ c.operations) : y.id = o.id ↔ y = o :=
    ⟨hc.eq_of_id ho hy, fun h => h ▸ rfl⟩
  cases next with
  | none =>
    simp only [place, drop, hb, List.mem_filter, bne_iff_ne, ne_eq, reduceCtorEq, false_and,
      exists_false, or_false]
    exact and_congr_right fun hx => not_congr (hid x hx)
  | some s =>
    simp only [place, setStage, hb, List.mem_map, Option.some.injEq, exists_eq_left']
    constructor
    · rintro ⟨y, hy, rfl⟩
      by_cases h : y = o
      · subst h
        exact .inr (if_pos rfl)
      · rw [if_neg (mt (hid y hy).1 h)]
        exact .inl ⟨hy, h⟩
    · rintro (⟨hx, hne⟩ | rfl)
      · exact ⟨x, hx, if_neg (mt (hid x hx).1 hne)⟩
      · exact ⟨o, ho, if_pos rfl⟩

end Sound

namespace Admitted

theorem ended (c : Client) (o : Operation) : c.Admitted o c none :=
  ⟨rfl, rfl, .inl rfl, nofun, nofun, nofun⟩

/-- An operation that has made sure of the server has no part in the lock. -/
theorem readied (hops : base.operations = c.operations) (hcount : base.next = c.next)
    (hserver : base.service = c.service ∨ ∀ x ∈ c.operations, x ≠ o → x.stage.holds = false) :
    c.Admitted o base (readied o.demand) := by
  refine ⟨hops, hcount, hserver, fun s h => ?_, fun s h hs => ?_, fun s h hs => ?_⟩
  · obtain ⟨rfl, hq⟩ := readied_eq_some h
    exact hq
  · rw [(readied_eq_some h).1] at hs
    cases hs
  · rw [(readied_eq_some h).1] at hs
    cases hs

theorem free {s : Demand.Stage} (hops : base.operations = c.operations)
    (hcount : base.next = c.next) (hfree : c.isFree = true)
    (hfits : Operation.Fits ⟨o.id, o.demand, s⟩ base.service) : c.Admitted o base (some s) := by
  rw [isFree_iff] at hfree
  refine ⟨hops, hcount, .inr fun x hx _ => hfree x hx, ?_, fun _ _ _ x hx _ => hfree x hx,
    fun _ _ _ x hx _ => (Bool.or_eq_false_iff.1 (hfree x hx)).1⟩
  rintro _ ⟨⟩
  exact hfits

end Admitted

theorem Moves.admitted (hm : c.Moves o a base next es) (hc : c.Sound) (ho : o ∈ c.operations) :
    c.Admitted o base next := by
  have hfits := hc.fits o ho
  unfold Operation.Fits at hfits
  cases hm with
  | found n hs hfree hn => exact .readied rfl rfl (.inl rfl)
  | starts hs hfree hn he =>
    rw [hs] at hfits
    exact .free rfl rfl hfree ⟨hfits, hn⟩
  | began n hs => exact .readied rfl rfl (.inr (hc.others ho (by rw [hs]; rfl)))
  | enters n q hs hopen hn hq =>
    rw [isOpen_iff] at hopen
    refine ⟨rfl, rfl, .inl rfl, ?_, ?_, fun _ _ _ x hx _ => hopen x hx⟩
    · rintro _ ⟨⟩
      exact ⟨by rw [hq]; rfl, hn⟩
    · rintro _ ⟨⟩ ⟨⟩
  | stops n hs hfree hn =>
    rw [hs] at hfits
    exact .free rfl rfl hfree ⟨hfits, rfl⟩
  | refused e hs hfree hn he => exact .ended c o
  | failed n hs f => exact .ended c o
  | misses hs hopen hn => exact .ended c o
  | answered n hs result => exact .ended c o
  | leaves hs hfree hn => exact .ended c o
  | stopped n hs failure => exact .ended c o
  | cancelled => exact .ended c o

namespace Sound

theorem start (hc : c.Sound) (d : Demand) : (c.start d).Sound := by
  have hnew : (if d = .disconnect then .leaving else .connecting : Demand.Stage).holds = false := by
    split <;> rfl
  have hmem (x : Operation) (hx : x ∈ (c.start d).operations) (h : x.stage.holds = true) :
      x ∈ c.operations := by
    rcases List.mem_append.1 hx with hx | hx
    · exact hx
    · obtain rfl := List.mem_singleton.1 hx
      exact absurd h (by simpa using hnew)
  refine ⟨?_, fun x hx => ?_, fun x hx => ?_, fun o ho halone x hx hholds => ?_⟩
  · rw [Client.start, List.map_append, List.nodup_append]
    refine ⟨hc.distinct, List.nodup_singleton _, fun i hi j hj => ?_⟩
    obtain ⟨o, ho, rfl⟩ := List.mem_map.1 hi
    obtain rfl := List.mem_singleton.1 hj
    exact Nat.ne_of_lt (hc.below o ho)
  · rcases List.mem_append.1 hx with hx | hx
    · exact Nat.lt_succ_of_lt (hc.below x hx)
    · obtain rfl := List.mem_singleton.1 hx
      exact Nat.lt_succ_self _
  · rcases List.mem_append.1 hx with hx | hx
    · exact hc.fits x hx
    · obtain rfl := List.mem_singleton.1 hx
      by_cases hd : d = .disconnect
      · rw [if_pos hd]
        exact hd
      · rw [if_neg hd]
        exact hd
  · have hholds' : o.stage.holds = true := Bool.or_eq_true_iff.2 (.inl halone)
    exact hc.alone o (hmem o ho hholds') halone x (hmem x hx hholds) hholds

theorem place (hc : c.Sound) (ho : o ∈ c.operations) (ha : c.Admitted o base next) :
    (base.place o.id next).Sound := by
  have hmem := hc.mem_place ho ha.operations next
  refine ⟨?_, fun x hx => ?_, fun x hx => ?_, fun y hy halone x hx hholds => ?_⟩
  · exact (base.ids_place o.id next).nodup (ha.operations ▸ hc.distinct)
  · rw [next_place, ha.count]
    rcases (hmem x).1 hx with ⟨hx, -⟩ | ⟨s, -, rfl⟩
    · exact hc.below x hx
    · exact hc.below o ho
  · rw [service_place]
    rcases (hmem x).1 hx with ⟨hx, hne⟩ | ⟨s, hs, rfl⟩
    · rcases ha.server with hsame | hfree
      · rw [hsame]
        exact hc.fits x hx
      · exact (hc.fits x hx).of_not_holds (hfree x hx hne)
    · exact ha.fits s hs
  · -- two operations that stay, or one that stays and the one that moves
    have hholds' : y.stage.holds = true := Bool.or_eq_true_iff.2 (.inl halone)
    rcases (hmem y).1 hy with ⟨hy, hyne⟩ | ⟨s, hs, rfl⟩ <;>
      rcases (hmem x).1 hx with ⟨hx, hxne⟩ | ⟨t, ht, rfl⟩
    · exact hc.alone y hy halone x hx hholds
    · rcases Bool.or_eq_true_iff.1 hholds with h | h
      · rw [ha.alone t ht h y hy hyne] at hholds'
        cases hholds'
      · rw [ha.share t ht h y hy hyne] at halone
        cases halone
    · rw [ha.alone s hs halone x hx hxne] at hholds
      cases hholds
    · rw [Option.some.inj (hs.symm.trans ht)]

theorem ofConfig (config : Config) : (Client.ofConfig config).Sound where
  distinct := .nil
  below _ h := by cases h
  fits _ h := by cases h
  alone _ h := by cases h

theorem step (hc : c.Sound) (a : Action) : (c.step a).1.Sound := by
  rcases c.step_cases a with ⟨d, rfl⟩ | h | ⟨o, base, next, es, ho, hm, h⟩
  · exact hc.start d
  · rwa [h]
  · have hmem := mem_of_operation? ho
    rw [h]
    exact hc.place hmem (hm.admitted hc hmem)

theorem after (hc : c.Sound) (as : List Action) : (c.after as).Sound := by
  induction as generalizing c with
  | nil => exact hc
  | cons a rest ih => exact ih (hc.step a)

end Sound

end Client

end GatedCalls.Server
