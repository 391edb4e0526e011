import GatedCalls.Proofs.Server.Course

/-!
# Operations one after another

Along a run in which no operation is taken on before the last one is over the client and its server
keep in step. `Concluded` says what an operation comes to that has returned, `exists_returned` that
it always can, and `Orderly` holds along such a run, so that no operation misses its server
(`client_lifecycle`).
-/

namespace GatedCalls.Server.Client

variable {c c' base : Client} {d : Demand} {a : Action} {o : Operation} {s : Demand.Stage} {n : Nat}
  {heeded : List Action} {es : List Effect} {service : Option Nat} {next : Option Demand.Stage}
  {r : Except SourceError Gain}

/-! ### What comes of it -/

/-- The start of a server fails with an error: a header of its address is bad, or it is reported not
to have started. -/
def StartFails (c : Client) (d : Demand) (heeded : List Action) (e : SourceError) : Prop :=
  d ≠ .disconnect ∧ c.service = none ∧ headerError? c.config.transport = some e ∨
    ∃ f, .started c.next (.error f) ∈ heeded ∧ e = startError c.config f

/-- The server that an operation starts which has the client to itself. -/
def wanted (c : Client) (d : Demand) : List Nat :=
  if d ≠ .disconnect ∧ c.service = none ∧ headerError? c.config.transport = none
  then [c.started] else []

/-- What an operation comes to that has heard `heeded`, returned `r` and done `es`, when it has left
the client `c` as `c'`. -/
structure Concluded (c : Client) (d : Demand) (heeded : List Action) (r : Except SourceError Gain)
    (es : List Effect) (c' : Client) : Prop where
  idle : c'.operations = []
  /-- It starts a server, and only one, exactly if it needs one and finds none. -/
  starts : begun es = c.wanted d
  fails : ∀ e, StartFails c d heeded e →
    r = .error e ∧ c'.service = none ∧ ∀ id n q, .ask id n q ∉ es
  /-- Only a disconnect and a start that fails leave the client without a server. -/
  without : c'.service = none ↔ d = .disconnect ∨ ∃ e, StartFails c d heeded e
  held : ∀ n, c'.service = some n → c.service = some n ∨
    c.service = none ∧ n = c.started ∧ .started c.next (.ok ()) ∈ heeded
  asks : ∀ n q, c'.service = some n → query? d = some q →
    .ask c.next n q ∈ es ∧ ∃ result, .answered c.next result ∈ heeded
  /-- A request that fails leaves the client connected as one that does not. -/
  answers : ∀ result, .answered c.next result ∈ heeded →
    r = gain d result ∧ c'.service.isSome = true
  connects : d = .connect → c'.service.isSome = true → r = .ok .done
  leaves : d = .disconnect → c.service = none ∧ r = .ok .done ∨ ∃ n failure,
    c.service = some n ∧ .stop c.next n ∈ es ∧ .stopped c.next failure ∈ heeded ∧
      r = released failure

theorem begun_append (es new : List Effect) : begun (es ++ new) = begun es ++ begun new :=
  List.filterMap_append

namespace Opened

theorem begun_eq (h : Opened c heeded es n) (hd : d ≠ .disconnect) : begun es = c.wanted d := by
  cases h with
  | found n hn => simp [wanted, hn, begun]
  | started hn he => simp [wanted, hn, he, hd, begun]

theorem held (h : Opened c heeded es n) : c.service = some n ∨
    c.service = none ∧ n = c.started ∧ .started c.next (.ok ()) ∈ heeded := by
  cases h with
  | found n hn => exact .inl hn
  | started hn he => exact .inr ⟨hn, rfl, List.mem_singleton_self _⟩

theorem not_answered (h : Opened c heeded es n) (result : Except Refusal Answer) :
    .answered c.next result ∉ heeded := by
  cases h <;> simp

theorem not_startFails (h : Opened c heeded es n) (e : SourceError) :
    ¬ StartFails c d heeded e := by
  cases h with
  | found n hn => simp [StartFails, hn]
  | started hn he => simp [StartFails, he]

end Opened

theorem ne_disconnect_of_query? {q : Query} (hq : query? d = some q) : d ≠ .disconnect := by
  rintro rfl
  cases hq

theorem Underway.begun_wanted (h : Underway c d heeded es service s) : begun es <+: c.wanted d := by
  cases s with
  | connecting =>
    obtain ⟨-, -, rfl, -⟩ := h
    exact List.nil_prefix
  | starting n =>
    obtain ⟨hd, hn, he, rfl, -, rfl, -⟩ := h
    simp [wanted, begun, hd, hn, he]
  | entering =>
    obtain ⟨hd, n, ho, -⟩ := h
    exact ⟨[], by rw [List.append_nil, ho.begun_eq hd]⟩
  | «using» n =>
    obtain ⟨q, opening, hq, ho, rfl, -⟩ := h
    rw [begun_append, ho.begun_eq (ne_disconnect_of_query? hq)]
    simp [begun]
  | leaving =>
    obtain ⟨-, -, rfl, -⟩ := h
    exact List.nil_prefix
  | stopping n =>
    obtain ⟨-, -, -, rfl, -⟩ := h
    exact List.nil_prefix

theorem Ran.concluded (h : Ran c d heeded r es c'.service) (hidle : c'.operations = []) :
    Concluded c d heeded r es c' := by
  generalize hservice : c'.service = service at h
  cases h with
  | refused e hd hn he =>
    have hfails (e' : SourceError) : StartFails c d [] e' ↔ e' = e := by
      simp [StartFails, hd, hn, he, eq_comm]
    refine ⟨hidle, ?_, ?_, ?_, ?_, ?_, ?_, ?_, ?_⟩
    · simp [begun, wanted, he]
    · simp [hfails, hservice]
    · simp [hfails, hservice]
    all_goals simp [hservice, hd]
  | failed f hd hn he =>
    have hfails (e : SourceError) :
        StartFails c d [.started c.next (.error f)] e ↔ e = startError c.config f := by
      simp [StartFails, he]
    refine ⟨hidle, ?_, ?_, ?_, ?_, ?_, ?_, ?_, ?_⟩
    · simp [begun, wanted, hd, hn, he]
    · simp [hfails, hservice]
    · simp [hfails, hservice]
    all_goals simp [hservice, hd]
  | connected opening es n hd h =>
    have hne : d ≠ .disconnect := by simp [hd]
    refine ⟨hidle, ?_, ?_, ?_, ?_, ?_, ?_, ?_, ?_⟩
    · rw [begun_append, h.begun_eq hne]
      simp [begun]
    · exact fun e he => absurd he (h.not_startFails e)
    · simp [hservice, hne, h.not_startFails]
    · rintro m hm
      obtain rfl := Option.some.inj (hservice.symm.trans hm)
      exact h.held
    · simp [hd, query?]
    · exact fun result ha => absurd ha (h.not_answered result)
    · exact fun _ _ => rfl
    · exact fun hleave => absurd hleave hne
  | answered opening es n q result hq h =>
    have hne := ne_disconnect_of_query? hq
    have hfails (e : SourceError) : ¬ StartFails c d (opening ++ [.answered c.next result]) e := by
      have := h.not_startFails (d := d) e
      simpa [StartFails] using this
    refine ⟨hidle, ?_, ?_, ?_, ?_, ?_, ?_, ?_, ?_⟩
    · rw [begun_append, h.begun_eq hne]
      simp [begun]
    · exact fun e he => absurd he (hfails e)
    · simp [hservice, hne, hfails]
    · rintro m hm
      obtain rfl := Option.some.inj (hservice.symm.trans hm)
      refine h.held.imp_right ?_
      rintro ⟨hn, hm, hs⟩
      exact ⟨hn, hm, List.mem_append_left _ hs⟩
    · rintro m q' hm hq'
      obtain rfl := Option.some.inj (hservice.symm.trans hm)
      obtain rfl := Option.some.inj (hq.symm.trans hq')
      exact ⟨by simp, result, by simp⟩
    · intro result' ha
      obtain rfl : result' = result := by simpa [h.not_answered] using ha
      exact ⟨rfl, by rw [hservice]; rfl⟩
    · rintro rfl
      cases hq
    · exact fun hleave => absurd hleave hne
  | left hd hn =>
    refine ⟨hidle, ?_, ?_, ?_, ?_, ?_, ?_, ?_, ?_⟩
    · simp [begun, wanted, hd]
    · simp [StartFails, hd]
    · simp [hservice, hd]
    · simp [hservice]
    · simp [hservice]
    · simp
    · simp [hservice]
    · exact fun _ => .inl ⟨hn, rfl⟩
  | stopped n failure hd hn =>
    refine ⟨hidle, ?_, ?_, ?_, ?_, ?_, ?_, ?_, ?_⟩
    · simp [begun, wanted, hd]
    · simp [StartFails, hd]
    · simp [hservice, hd]
    · simp [hservice]
    · simp [hservice]
    · simp
    · simp [hservice]
    · exact fun _ => .inr ⟨n, failure, hn, by simp, by simp, rfl⟩

theorem Alone.begun_wanted (h : Alone c d heeded es c') : begun es <+: c.wanted d := by
  rcases h.way with ⟨s, -, -, hu⟩ | ⟨hops, ⟨r, hran⟩ | ⟨s, service, hu⟩⟩
  · exact hu.begun_wanted
  · exact ⟨[], by rw [List.append_nil, (hran.concluded hops).starts]⟩
  · exact hu.begun_wanted

/-! ### Every operation ends -/

/-- What a server does that is to start, to answer and to stop. -/
structure Conduct where
  start : Except StartFailure Unit
  answer : Except Refusal Answer
  stop : Option String

/-- What moves an operation on. -/
def Conduct.news (w : Conduct) (id : Nat) : Demand.Stage → Action
  | .connecting | .entering | .leaving => .advance id
  | .starting _ => .started id w.start
  | .using _ => .answered id w.answer
  | .stopping _ => .stopped id w.stop

/-- The number of stages still to come, at most. -/
def remaining : Demand.Stage → Nat
  | .connecting => 3
  | .starting _ => 2
  | .entering | .leaving => 1
  | .using _ | .stopping _ => 0

theorem readied_cases (o : Operation) :
    (readied o.demand = none ∧ ∃ r, .returned o.id r ∈ settled o) ∨
      readied o.demand = some .entering := by
  cases hq : query? o.demand with
  | none => exact .inl ⟨by rw [readied, hq]; rfl, .ok .done, by simp [settled, hq]⟩
  | some q => exact .inr (by rw [readied, hq]; rfl)

/-- An operation that is alone with its client is never stuck. -/
theorem exists_moves (hops : c.operations = [o]) (w : Conduct) : ∃ base next es,
    c.Moves o (w.news o.id o.stage) base next es ∧
      ((next = none ∧ ∃ r, .returned o.id r ∈ es) ∨
        ∃ s, next = some s ∧ remaining s < remaining o.stage) := by
  have hready (k : Nat) (hk : 1 < k) : (readied o.demand = none ∧
      ∃ r, .returned o.id r ∈ settled o) ∨ ∃ s, readied o.demand = some s ∧ remaining s < k :=
    (readied_cases o).imp_right fun h => ⟨.entering, h, hk⟩
  have hfree (hs : o.stage.holds = false) : c.isFree = true := by
    rw [isFree_iff, hops]
    simpa using hs
  have hopen (hs : o.stage.holdsAlone = false) : c.isOpen = true := by
    rw [isOpen_iff, hops]
    simpa using hs
  cases hs : o.stage with
  | connecting =>
    replace hfree := hfree (by rw [hs]; rfl)
    cases hn : c.service with
    | some n => exact ⟨_, _, _, .found n hs hfree hn, hready _ (by decide)⟩
    | none =>
      cases he : headerError? c.config.transport with
      | some e =>
        exact ⟨_, _, _, .refused e hs hfree hn he, .inl ⟨rfl, _, List.mem_singleton_self _⟩⟩
      | none => exact ⟨_, _, _, .starts hs hfree hn he, .inr ⟨_, rfl, Nat.lt_succ_self 2⟩⟩
  | starting n =>
    dsimp only [Conduct.news]
    cases w.start with
    | ok => exact ⟨_, _, _, .began n hs, hready _ Nat.one_lt_two⟩
    | error f => exact ⟨_, _, _, .failed n hs f, .inl ⟨rfl, _, List.mem_singleton_self _⟩⟩
  | entering =>
    replace hopen := hopen (by rw [hs]; rfl)
    cases hn : c.service with
    | none =>
      exact ⟨_, _, _, .misses hs hopen (.inl hn), .inl ⟨rfl, _, List.mem_singleton_self _⟩⟩
    | some n =>
      cases hq : query? o.demand with
      | none =>
        exact ⟨_, _, _, .misses hs hopen (.inr hq), .inl ⟨rfl, _, List.mem_singleton_self _⟩⟩
      | some q => exact ⟨_, _, _, .enters n q hs hopen hn hq, .inr ⟨_, rfl, Nat.zero_lt_one⟩⟩
  | «using» n =>
    exact ⟨_, _, _, .answered n hs w.answer, .inl ⟨rfl, _, List.mem_singleton_self _⟩⟩
  | leaving =>
    replace hfree := hfree (by rw [hs]; rfl)
    cases hn : c.service with
    | some n => exact ⟨_, _, _, .stops n hs hfree hn, .inr ⟨_, rfl, Nat.zero_lt_one⟩⟩
    | none => exact ⟨_, _, _, .leaves hs hfree hn, .inl ⟨rfl, _, List.mem_singleton_self _⟩⟩
  | stopping n =>
    exact ⟨_, _, _, .stopped n hs w.stop, .inl ⟨rfl, _, List.mem_singleton_self _⟩⟩

theorem exists_returned (hc : c.Sound) (hops : c.operations = [o]) (w : Conduct) :
    ∃ rest r, (∀ a ∈ rest, ∃ s, a = w.news o.id s) ∧ .returned o.id r ∈ c.effects rest := by
  induction hk : remaining o.stage using Nat.strongRecOn generalizing c o with
  | ind k ih =>
    obtain ⟨base, next, es, hm, hend⟩ := exists_moves hops w
    have ho : o ∈ c.operations := by rw [hops]; exact List.mem_singleton_self o
    have hstep := hm.step_eq (hc.operation? ho)
    rcases hend with ⟨-, r, hr⟩ | ⟨s, rfl, hs⟩
    · refine ⟨[w.news o.id o.stage], r, by simp, ?_⟩
      rw [effects, hstep]
      exact List.mem_append_left _ hr
    · have hsound := hc.step (w.news o.id o.stage)
      rw [hstep] at hsound
      have hnext := operations_place ((hm.admitted hc ho).operations.trans hops) (some s)
      obtain ⟨rest, r, hrest, hr⟩ := ih _ (hk ▸ hs) hsound hnext rfl
      refine ⟨w.news o.id o.stage :: rest, r, ?_, ?_⟩
      · exact List.forall_mem_cons.2 ⟨⟨o.stage, rfl⟩, hrest⟩
      · rw [effects, hstep]
        exact List.mem_append_right _ hr

/-! ### One operation after another -/

/-- Each operation is taken on when the one before is over. -/
def InTurn : Client → List Action → Prop
  | _, [] => True
  | c, a :: rest => (a.isDemand = true → c.operations = []) ∧ InTurn (c.step a).1 rest

instance decidableInTurn (c : Client) : (as : List Action) → Decidable (c.InTurn as)
  | [] => .isTrue trivial
  | a :: rest =>
    haveI := decidableInTurn (c.step a).1 rest
    inferInstanceAs (Decidable ((a.isDemand = true → c.operations = []) ∧ _))

/-- The state of a client whose operations come one after another. -/
structure Orderly (c : Client) : Prop where
  sound : c.Sound
  single : c.operations = [] ∨ ∃ o, c.operations = [o] ∧
    (o.stage = .entering → c.service.isSome = true)

namespace Orderly

theorem ofConfig (config : Config) : (ofConfig config).Orderly := ⟨.ofConfig config, .inl rfl⟩

theorem step (hc : c.Orderly) (ha : a.isDemand = true → c.operations = []) :
    (c.step a).1.Orderly := by
  refine ⟨hc.sound.step a, ?_⟩
  rcases c.step_cases a with ⟨d, rfl⟩ | hrest | ⟨o, base, next, es, ho, hm, hstep⟩
  · refine .inr ⟨⟨c.next, d, if d = .disconnect then .leaving else .connecting⟩, ?_, ?_⟩
    · show c.operations ++ _ = _
      rw [ha rfl, List.nil_append]
    · dsimp only
      split <;> exact nofun
  · rw [hrest]
    exact hc.single
  · have hmem := mem_of_operation? ho
    rcases hc.single with hops | ⟨o', hops, -⟩
    · rw [hops] at hmem
      cases hmem
    · obtain rfl : o = o' := by simpa [hops] using hmem
      have hplace := operations_place ((hm.admitted hc.sound hmem).operations.trans hops) next
      rw [hstep]
      cases next with
      | none => exact .inl hplace
      | some s =>
        refine .inr ⟨_, hplace, ?_⟩
        rintro rfl
        rw [service_place]
        exact hm.readied_isSome

theorem after {as : List Action} (hc : c.Orderly) (has : c.InTurn as) : (c.after as).Orderly := by
  induction as generalizing c with
  | nil => exact hc
  | cons a rest ih => exact ih (hc.step has.1) has.2

theorem step_not_missed (hc : c.Orderly) (id : Nat) :
    .returned id (.error notConnected) ∉ (c.step a).2 := by
  rcases c.step_cases a with ⟨d, rfl⟩ | hrest | ⟨o, base, next, es, ho, hm, hstep⟩
  · exact List.not_mem_nil
  · rw [hrest]
    exact List.not_mem_nil
  · rw [hstep]
    intro h
    obtain ⟨-, -, hs, -, hn⟩ := hm.misses_of_returned h
    have hmem := mem_of_operation? ho
    obtain ⟨q, hq⟩ := hc.sound.exists_query hmem hs
    rcases hc.single with hops | ⟨o', hops, hserver⟩
    · rw [hops] at hmem
      cases hmem
    · obtain rfl : o = o' := by simpa [hops] using hmem
      rcases hn with hn | hn
      · rw [hn] at hserver
        cases hserver hs
      · rw [hq] at hn
        cases hn

theorem not_missed {as : List Action} (hc : c.Orderly) (has : c.InTurn as) (id : Nat) :
    .returned id (.error notConnected) ∉ c.effects as := by
  induction as generalizing c with
  | nil => exact List.not_mem_nil
  | cons a rest ih =>
    rw [effects, List.mem_append, not_or]
    exact ⟨hc.step_not_missed id, ih (hc.step has.1) has.2⟩

end Orderly

theorem Moves.range_begun (hm : c.Moves o a base next es) (id : Nat) :
    List.range c.started ++ begun es = List.range (base.place id next).started := by
  have hplace : (base.place id next).started = base.started := by cases next <;> rfl
  rw [hplace]
  cases hm with
  | found n => rw [begun_settled, List.append_nil]
  | began n => rw [begun_settled, List.append_nil]
  | starts => exact List.range_succ.symm
  | _ => exact List.append_nil _

theorem begun_effects (config : Config) (as : List Action) :
    begun ((ofConfig config).effects as) = List.range ((ofConfig config).after as).started := by
  induction as using List.reverseRecOn with
  | nil => rfl
  | append_singleton as a ih =>
    rw [effects_append, begun_append, ih, after_append]
    set c := (ofConfig config).after as with hc
    show List.range c.started ++ begun (c.effects [a]) = List.range (c.step a).1.started
    rw [effects, effects, List.append_nil]
    rcases c.step_cases a with ⟨d, rfl⟩ | hrest | ⟨o, base, next, es, ho, hm, hstep⟩
    · simp [step, start, begun]
    · simp [hrest, begun]
    · rw [hstep]
      exact hm.range_begun o.id

/-- The operation returns, and while it is under way no other is taken on. -/
structure Returns (c : Client) (d : Demand) (rest : List Action) (r : Except SourceError Gain) :
    Prop where
  undisturbed : ∀ a ∈ rest, a.isDemand = false
  returned : .returned c.next r ∈ c.effects (.demand d :: rest)

/-- What an operation comes to that the client `c` takes on while it has no other. -/
structure Attends (c : Client) (d : Demand) : Prop where
  /-- It returns, whatever the server does. -/
  ends : ∀ w : Conduct, ∃ rest r, (∀ a ∈ rest, ∃ s, a = w.news c.next s) ∧ Returns c d rest r
  /-- Also an operation that is given up has started no server but the one that it wants. -/
  starts : ∀ rest, (∀ a ∈ rest, a.isDemand = false) →
    begun (c.effects (.demand d :: rest)) <+: c.wanted d
  concludes : ∀ rest r, Returns c d rest r →
    Concluded c d (c.reports (.demand d :: rest)) r (c.effects (.demand d :: rest))
      (c.after (.demand d :: rest))
  /-- The next operation after a disconnect starts a server again, unless the headers of its address
  are bad. -/
  renews : d = .disconnect → headerError? c.config.transport = none → ∀ rest r, Returns c d rest r →
    let c' := c.after (.demand d :: rest)
    ∀ d', d' ≠ .disconnect → ∀ rest' r', Returns c' d' rest' r' →
      begun (c'.effects (.demand d' :: rest')) = [c'.started]

theorem Conduct.isDemand_news (w : Conduct) (id : Nat) (s : Demand.Stage) :
    (w.news id s).isDemand = false := by cases s <;> rfl

namespace Orderly

theorem alone (hc : c.Orderly) (hidle : c.operations = []) (d : Demand) {rest : List Action}
    (hrest : ∀ a ∈ rest, a.isDemand = false) : Alone c d (c.reports (.demand d :: rest))
      (c.effects (.demand d :: rest)) (c.after (.demand d :: rest)) :=
  (Alone.start hc.sound hidle d).after hrest

theorem concluded {rest : List Action} (hc : c.Orderly) (hidle : c.operations = [])
    (h : Returns c d rest r) : Concluded c d (c.reports (.demand d :: rest)) r
      (c.effects (.demand d :: rest)) (c.after (.demand d :: rest)) := by
  obtain ⟨hops, hran⟩ := (hc.alone hidle d h.undisturbed).ran h.returned
  exact hran.concluded hops

theorem attends (hc : c.Orderly) (hidle : c.operations = []) (d : Demand) : Attends c d where
  ends w := by
    have hops : (c.start d).operations =
        [⟨c.next, d, if d = .disconnect then .leaving else .connecting⟩] := by
      rw [Client.start, hidle, List.nil_append]
    obtain ⟨rest, r, hrest, hr⟩ := exists_returned (hc.sound.start d) hops w
    refine ⟨rest, r, hrest, fun a ha => ?_, hr⟩
    obtain ⟨s, rfl⟩ := hrest a ha
    exact w.isDemand_news c.next s
  starts rest hrest := (hc.alone hidle d hrest).begun_wanted
  concludes rest r h := hc.concluded hidle h
  renews hd he rest r h := by
    intro c' d' hd' rest' r' h'
    have halone := hc.alone hidle d h.undisturbed
    have hleft := hc.concluded hidle h
    have hnext := Orderly.concluded ⟨halone.sound, .inl hleft.idle⟩ hleft.idle h'
    rw [hnext.starts, wanted, if_pos ⟨hd', hleft.without.2 (.inl hd), halone.config ▸ he⟩]

end Orderly

/-- As long as operations come one after another, a client and its server keep in step: never more
than one server runs, each is a new one, no operation fails for want of a connection, and what an
operation comes to depends on the client alone and on what the server reports. -/
theorem client_lifecycle (config : Config) (past : List Action)
    (hpast : (ofConfig config).InTurn past) :
    let c := (ofConfig config).after past
    ((ofConfig config).running past).length ≤ 1 ∧
      begun ((ofConfig config).effects past) = List.range c.started ∧
      (∀ id, .returned id (.error notConnected) ∉ (ofConfig config).effects past) ∧
      (c.operations = [] →
        (ofConfig config).running past = c.service.toList ∧ ∀ d, Attends c d) := by
  have htally := tally_running config past
  have hc := (Orderly.ofConfig config).after hpast
  refine ⟨htally.length_le_one, begun_effects config past,
    (Orderly.ofConfig config).not_missed hpast, fun hidle => ⟨htally.rest ?_, hc.attends hidle⟩⟩
  rw [isOpen_iff, hidle]
  exact nofun

/-- A server does not start at first; then a call fails that has started it, and the disconnect
after it as well. -/
def mishaps : List Action :=
  [.demand .connect, .advance 0, .started 0 (.error (.handshake "closed")),
    .demand (.call "read" ∅), .advance 1, .started 1 (.ok ()), .advance 1,
    .answered 1 (.error .closed), .demand .disconnect, .advance 2, .stopped 2 (some "gone")]

/-- Both servers are over, and a listing starts a third. -/
theorem client_lifecycle_mishaps :
    let files := ofConfig ⟨"files", .ofCommand "server"⟩
    let c := files.after mishaps
    files.InTurn mishaps ∧ files.running mishaps = [] ∧ begun (files.effects mishaps) = [0, 1] ∧
      ∀ rest r, Returns c .list rest r → begun (c.effects (.demand .list :: rest)) = [2] := by
  intro files c
  have hpast : files.InTurn mishaps := by decide +kernel
  obtain ⟨-, hbegun, -, hidle⟩ := client_lifecycle ⟨"files", .ofCommand "server"⟩ mishaps hpast
  obtain ⟨hrunning, hattends⟩ := hidle (by decide +kernel)
  have hwanted : c.wanted .list = [2] := by decide +kernel
  exact ⟨hpast, hrunning, hbegun, fun rest r h =>
    ((hattends .list).concludes rest r h).starts.trans hwanted⟩

end GatedCalls.Server.Client
