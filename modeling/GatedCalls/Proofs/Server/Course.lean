import GatedCalls.Proofs.Server.Reconnection

/-!
# The course of an operation

An operation that is alone with its client goes its way undisturbed. `Underway` says what it has
done when it has come to a stage, and `Ran` what it did when it has returned, each by the reports of
the server that it waited for. `Alone.step` says that every action moves it along, or does nothing.
-/

namespace GatedCalls.Server.Client

def Action.isDemand : Action → Bool
  | demand _ => true
  | _ => false

/-! ### Reports -/

/-- The report that an action brings, if an operation waits for it. -/
def heard (c : Client) (a : Action) : List Action :=
  match a with
  | .started id _ =>
    match c.operation? id with
    | some ⟨_, _, .starting _⟩ => [a]
    | _ => []
  | .answered id _ =>
    match c.operation? id with
    | some ⟨_, _, .using _⟩ => [a]
    | _ => []
  | .stopped id _ =>
    match c.operation? id with
    | some ⟨_, _, .stopping _⟩ => [a]
    | _ => []
  | .demand _ | .cancel _ | .advance _ => []

/-- The reports that operations waited for. -/
def reports (c : Client) : List Action → List Action
  | [] => []
  | a :: rest => c.heard a ++ reports (c.step a).1 rest

variable {c c' base : Client} {d : Demand} {a : Action} {o : Operation} {s : Demand.Stage} {n : Nat}

theorem heard_started (ho : c.operation? o.id = some o) (hs : o.stage = .starting n)
    (result : Except StartFailure Unit) :
    c.heard (.started o.id result) = [.started o.id result] := by
  obtain ⟨id, d, stage⟩ := o
  obtain rfl : stage = .starting n := hs
  simp only [heard, ho]

theorem heard_answered (ho : c.operation? o.id = some o) (hs : o.stage = .using n)
    (result : Except Refusal Answer) :
    c.heard (.answered o.id result) = [.answered o.id result] := by
  obtain ⟨id, d, stage⟩ := o
  obtain rfl : stage = .using n := hs
  simp only [heard, ho]

theorem heard_stopped (ho : c.operation? o.id = some o) (hs : o.stage = .stopping n)
    (failure : Option String) :
    c.heard (.stopped o.id failure) = [.stopped o.id failure] := by
  obtain ⟨id, d, stage⟩ := o
  obtain rfl : stage = .stopping n := hs
  simp only [heard, ho]

theorem heard_of_rest (hc : c.Sound) (h : c.step a = (c, [])) : c.heard a = [] := by
  cases a with
  | started id result =>
    simp only [heard]
    split
    · next d n ho =>
      obtain rfl := operation?_id ho
      cases result with
      | error f =>
        rw [(Moves.failed n rfl f).step_eq ho] at h
        cases (Prod.mk.inj h).2
      | ok u =>
        -- the client would have the server, and has none
        rw [(Moves.began n rfl).step_eq ho] at h
        have hservice := congrArg Client.service (Prod.mk.inj h).1
        rw [service_place, (hc.fits _ (mem_of_operation? ho)).2] at hservice
        cases hservice
    · rfl
  | answered id result =>
    simp only [heard]
    split
    · next d n ho =>
      obtain rfl := operation?_id ho
      rw [(Moves.answered n rfl result).step_eq ho] at h
      cases (Prod.mk.inj h).2
    · rfl
  | stopped id failure =>
    simp only [heard]
    split
    · next d n ho =>
      obtain rfl := operation?_id ho
      rw [(Moves.stopped n rfl failure).step_eq ho] at h
      cases (Prod.mk.inj h).2
    · rfl
  | demand d => rfl
  | cancel id => rfl
  | advance id => rfl

/-! ### The way of an operation -/

/-- A server is there for an operation: the client held it, or it was started. -/
inductive Opened (c : Client) : List Action → List Effect → Nat → Prop
  | found (n : Nat) (hn : c.service = some n) : Opened c [] [] n
  | started (hn : c.service = none) (he : headerError? c.config.transport = none) :
    Opened c [.started c.next (.ok ())] [.start c.next c.started] c.started

/-- What an operation has done that has heard `heeded`, by the stage it has come to, and the server
that the client holds then. -/
def Underway (c : Client) (d : Demand) (heeded : List Action) (es : List Effect)
    (service : Option Nat) : Demand.Stage → Prop
  | .connecting => d ≠ .disconnect ∧ heeded = [] ∧ es = [] ∧ service = c.service
  | .starting n => d ≠ .disconnect ∧ c.service = none ∧ headerError? c.config.transport = none ∧
      n = c.started ∧ heeded = [] ∧ es = [.start c.next n] ∧ service = none
  | .entering => d ≠ .disconnect ∧ ∃ n, Opened c heeded es n ∧ service = some n
  | .using n => ∃ q opening, query? d = some q ∧ Opened c heeded opening n ∧
      es = opening ++ [.ask c.next n q] ∧ service = some n
  | .leaving => d = .disconnect ∧ heeded = [] ∧ es = [] ∧ service = c.service
  | .stopping n => d = .disconnect ∧ c.service = some n ∧ heeded = [] ∧ es = [.stop c.next n] ∧
      service = none

/-- What a disconnect returns when the server has stopped, or could not be. -/
def released : Option String → Except SourceError Gain
  | none => .ok .done
  | some text => .error (.connection ("Failed to disconnect: " ++ text))

/-- What an operation returned and did that has heard `heeded`, and the server that the client holds
then. -/
inductive Ran (c : Client) (d : Demand) :
    List Action → Except SourceError Gain → List Effect → Option Nat → Prop
  | refused (e : SourceError) (hd : d ≠ .disconnect) (hn : c.service = none)
    (he : headerError? c.config.transport = some e) :
    Ran c d [] (.error e) [.returned c.next (.error e)] none
  | failed (f : StartFailure) (hd : d ≠ .disconnect) (hn : c.service = none)
    (he : headerError? c.config.transport = none) :
    Ran c d [.started c.next (.error f)] (.error (startError c.config f))
      [.start c.next c.started, .returned c.next (.error (startError c.config f))] none
  | connected (heeded : List Action) (es : List Effect) (n : Nat) (hd : d = .connect)
    (h : Opened c heeded es n) :
    Ran c d heeded (.ok .done) (es ++ [.returned c.next (.ok .done)]) (some n)
  | answered (heeded : List Action) (es : List Effect) (n : Nat) (q : Query)
    (result : Except Refusal Answer) (hq : query? d = some q) (h : Opened c heeded es n) :
    Ran c d (heeded ++ [.answered c.next result]) (gain d result)
      (es ++ [.ask c.next n q, .returned c.next (gain d result)]) (some n)
  | left (hd : d = .disconnect) (hn : c.service = none) :
    Ran c d [] (.ok .done) [.returned c.next (.ok .done)] none
  | stopped (n : Nat) (failure : Option String) (hd : d = .disconnect) (hn : c.service = some n) :
    Ran c d [.stopped c.next failure] (released failure)
      [.stop c.next n, .returned c.next (released failure)] none

variable {heeded bs : List Action} {es new : List Effect} {service : Option Nat}
  {next : Option Demand.Stage} {r r' : Except SourceError Gain}

theorem Opened.not_returned (h : Opened c heeded es n) : .returned c.next r ∉ es := by
  cases h <;> simp

theorem Underway.not_returned (h : Underway c d heeded es service s) : .returned c.next r ∉ es := by
  cases s with
  | connecting =>
    obtain ⟨-, -, rfl, -⟩ := h
    simp
  | starting n =>
    obtain ⟨-, -, -, -, -, rfl, -⟩ := h
    simp
  | entering =>
    obtain ⟨-, n, ho, -⟩ := h
    exact ho.not_returned
  | «using» n =>
    obtain ⟨q, opening, -, ho, rfl, -⟩ := h
    simp [ho.not_returned]
  | leaving =>
    obtain ⟨-, -, rfl, -⟩ := h
    simp
  | stopping n =>
    obtain ⟨-, -, -, rfl, -⟩ := h
    simp

theorem Ran.eq_of_returned (h : Ran c d heeded r es service) (hr : .returned c.next r' ∈ es) :
    r' = r := by
  cases h with
  | connected opening es n hd h => simpa [h.not_returned] using hr
  | answered opening es n q result hq h => simpa [h.not_returned] using hr
  | _ => simpa using hr

theorem eq_connect_of_query? (hd : d ≠ .disconnect) (hq : query? d = none) : d = .connect := by
  cases d with
  | connect => rfl
  | disconnect => exact absurd rfl hd
  | list => cases hq
  | call => cases hq

/-- What an operation has come to that has moved: its next stage, or it has returned, or it was
given up at some stage. -/
inductive Comes (c : Client) (d : Demand) (heeded : List Action) (es : List Effect)
    (service : Option Nat) : Option Demand.Stage → Prop
  | onward (t : Demand.Stage) (ht : t ≠ .connecting) (h : Underway c d heeded es service t) :
    Comes c d heeded es service (some t)
  | ended (r : Except SourceError Gain) (h : Ran c d heeded r es service) :
    Comes c d heeded es service none
  | givenUp (t : Demand.Stage) (before : Option Nat) (h : Underway c d heeded es before t) :
    Comes c d heeded es service none

/-- An operation for which the server is there goes on to use it, unless it wanted no more. -/
theorem Opened.comes (ho : Opened c heeded es n) (hd : d ≠ .disconnect) (s : Demand.Stage) :
    Comes c d heeded (es ++ settled ⟨c.next, d, s⟩) (some n) (readied d) := by
  unfold settled readied
  cases hq : query? d with
  | some q =>
    refine .onward .entering (by simp) ⟨hd, n, ?_, rfl⟩
    simpa using ho
  | none => exact .ended (.ok .done) (.connected heeded es n (eq_connect_of_query? hd hq) ho)

theorem Moves.comes (hm : c'.Moves ⟨c.next, d, s⟩ a base next new) (hc : c'.Sound)
    (hmem : ⟨c.next, d, s⟩ ∈ c'.operations) (hconfig : c'.config = c.config)
    (hstarted : s = .connecting → c'.started = c.started)
    (h : Underway c d heeded es c'.service s) :
    Comes c d (heeded ++ c'.heard a) (es ++ new) base.service next := by
  have hfound := hc.operation? hmem
  cases hm with
  | found n hs hfree hn =>
    obtain rfl : s = .connecting := hs
    obtain ⟨hd, rfl, rfl, hservice⟩ := h
    rw [hn]
    exact (Opened.found n (hservice ▸ hn)).comes hd _
  | refused e hs hfree hn he =>
    obtain rfl : s = .connecting := hs
    obtain ⟨hd, rfl, rfl, hservice⟩ := h
    rw [hn]
    exact .ended _ (.refused e hd (hservice ▸ hn) (hconfig ▸ he))
  | starts hs hfree hn he =>
    obtain rfl : s = .connecting := hs
    obtain ⟨hd, rfl, rfl, hservice⟩ := h
    exact .onward _ (by simp) ⟨hd, hservice ▸ hn, hconfig ▸ he, hstarted rfl, rfl, rfl, hn⟩
  | began m hs =>
    obtain rfl : s = .starting m := hs
    obtain ⟨hd, hn, he, rfl, rfl, rfl, -⟩ := h
    rw [heard_started hfound rfl]
    exact (Opened.started hn he).comes hd _
  | failed m hs f =>
    obtain rfl : s = .starting m := hs
    obtain ⟨hd, hn, he, rfl, rfl, rfl, hservice⟩ := h
    rw [heard_started hfound rfl, hservice, hconfig]
    exact .ended _ (.failed f hd hn he)
  | enters m q hs hopen hn hq =>
    obtain rfl : s = .entering := hs
    obtain ⟨-, n, ho, hservice⟩ := h
    obtain rfl : n = m := Option.some.inj (hservice.symm.trans hn)
    refine .onward _ (by simp) ⟨q, es, hq, ?_, rfl, hservice⟩
    exact (List.append_nil heeded).symm ▸ ho
  | misses hs hopen hn =>
    -- the server is there, and so is what to ask it
    obtain rfl : s = .entering := hs
    obtain ⟨-, n, -, hservice⟩ := h
    obtain ⟨q, hq⟩ := hc.exists_query hmem rfl
    rcases hn with hn | hn
    · rw [hservice] at hn
      cases hn
    · rw [hq] at hn
      cases hn
  | answered m hs result =>
    obtain rfl : s = .using m := hs
    obtain ⟨q, opening, hq, ho, rfl, hservice⟩ := h
    rw [heard_answered hfound rfl, hservice, List.append_assoc]
    exact .ended _ (.answered _ opening m q result hq ho)
  | stops m hs hfree hn =>
    obtain rfl : s = .leaving := hs
    obtain ⟨hd, rfl, rfl, hservice⟩ := h
    exact .onward _ (by simp) ⟨hd, hservice ▸ hn, rfl, rfl, rfl⟩
  | leaves hs hfree hn =>
    obtain rfl : s = .leaving := hs
    obtain ⟨hd, rfl, rfl, hservice⟩ := h
    rw [hn]
    exact .ended _ (.left hd (hservice ▸ hn))
  | stopped m hs failure =>
    obtain rfl : s = .stopping m := hs
    obtain ⟨hd, hn, rfl, rfl, hservice⟩ := h
    rw [heard_stopped hfound rfl, hservice]
    cases failure with
    | none => exact .ended _ (.stopped m none hd hn)
    | some text => exact .ended _ (.stopped m (some text) hd hn)
  | cancelled =>
    rw [heard, List.append_nil, List.append_nil]
    exact .givenUp s _ h

/-! ### Alone with the client -/

theorem operations_place (hops : base.operations = [o]) (next : Option Demand.Stage) :
    (base.place o.id next).operations = (next.map fun s => ⟨o.id, o.demand, s⟩).toList := by
  cases next with
  | none => simp [place, drop, hops]
  | some s => simp [place, setStage, hops]

theorem Moves.config (hm : c.Moves o a base next es) (id : Nat) :
    (base.place id next).config = c.config := by
  have hplace : (base.place id next).config = base.config := by cases next <;> rfl
  rw [hplace]
  cases hm <;> rfl

/-- What has become of an operation that was taken on by the client `c`, has heard `heeded` and has
done `es`, with nobody else there. -/
structure Alone (c : Client) (d : Demand) (heeded : List Action) (es : List Effect) (c' : Client) :
    Prop where
  sound : c'.Sound
  config : c'.config = c.config
  way : (∃ s, c'.operations = [⟨c.next, d, s⟩] ∧ (s = .connecting → c'.started = c.started) ∧
      Underway c d heeded es c'.service s) ∨
    (c'.operations = [] ∧
      ((∃ r, Ran c d heeded r es c'.service) ∨ ∃ s service, Underway c d heeded es service s))

namespace Alone

theorem start (hc : c.Sound) (hidle : c.operations = []) (d : Demand) :
    Alone c d [] [] (c.start d) := by
  refine ⟨hc.start d, rfl, .inl ⟨if d = .disconnect then .leaving else .connecting, ?_, ?_, ?_⟩⟩
  · rw [Client.start, hidle, List.nil_append]
  · exact fun _ => rfl
  · split
    · next hd => exact ⟨hd, rfl, rfl, rfl⟩
    · next hd => exact ⟨hd, rfl, rfl, rfl⟩

theorem step (h : Alone c d heeded es c') (ha : a.isDemand = false) :
    Alone c d (heeded ++ c'.heard a) (es ++ (c'.step a).2) (c'.step a).1 := by
  have hsound := h.sound.step a
  rcases c'.step_cases a with ⟨d', rfl⟩ | hrest | ⟨o, base, next, new, ho, hm, hstep⟩
  · cases ha
  · rw [hrest, heard_of_rest h.sound hrest, List.append_nil, List.append_nil]
    exact h
  · have hmem := mem_of_operation? ho
    rw [hstep] at hsound ⊢
    refine ⟨hsound, (hm.config o.id).trans h.config, ?_⟩
    rcases h.way with ⟨s, hops, hstarted, hu⟩ | ⟨hops, -⟩
    · obtain rfl : o = ⟨c.next, d, s⟩ := by simpa [hops] using hmem
      have hplace := operations_place (o := ⟨c.next, d, s⟩)
        ((hm.admitted h.sound hmem).operations.trans hops) next
      simp only [hplace, service_place]
      cases hm.comes h.sound hmem h.config hstarted hu with
      | onward t ht hu' => exact .inl ⟨t, rfl, fun hconnecting => absurd hconnecting ht, hu'⟩
      | ended r hran => exact .inr ⟨rfl, .inl ⟨r, hran⟩⟩
      | givenUp t before hu' => exact .inr ⟨rfl, .inr ⟨t, before, hu'⟩⟩
    · rw [hops] at hmem
      cases hmem

theorem after (h : Alone c d heeded es c') (hrest : ∀ a ∈ bs, a.isDemand = false) :
    Alone c d (heeded ++ c'.reports bs) (es ++ c'.effects bs) (c'.after bs) := by
  induction bs generalizing heeded es c' with
  | nil => simpa [effects, reports, Client.after] using h
  | cons a rest ih =>
    rw [List.forall_mem_cons] at hrest
    have hnext := ih (h.step hrest.1) hrest.2
    rw [List.append_assoc, List.append_assoc] at hnext
    exact hnext

theorem ran (h : Alone c d heeded es c') (hr : .returned c.next r ∈ es) :
    c'.operations = [] ∧ Ran c d heeded r es c'.service := by
  rcases h.way with ⟨s, -, -, hu⟩ | ⟨hops, ⟨r', hran⟩ | ⟨s, service, hu⟩⟩
  · exact absurd hr hu.not_returned
  · exact ⟨hops, hran.eq_of_returned hr ▸ hran⟩
  · exact absurd hr hu.not_returned

end Alone

end GatedCalls.Server.Client
