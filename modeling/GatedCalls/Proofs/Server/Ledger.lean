import GatedCalls.Proofs.Server.Lock

/-!
# The servers of a client

`Client.running` reads off a run which of the servers that were started are not over: a server is
over when it could not start, when it has stopped, or when the operation that waits for either is
given up. It keeps no account with the client's own record, so a server that the client lost sight
of would stay in it. `Tally` ties the two together: while nobody has the lock alone what runs is
what the client holds, and an operation that has it alone is busy with the only server there is.
Every step keeps that (`Tally.step`), so there is never more than one.
-/

namespace GatedCalls.Server

variable {c base : Client} {a : Client.Action} {o x : Operation} {n : Nat} {live : List Nat}
  {next : Option Demand.Stage} {es : List Client.Effect}

/-- The server that an operation is starting or stopping. -/
def Demand.Stage.server? : Stage → Option Nat
  | .starting n | .stopping n => some n
  | .connecting | .entering | .using _ | .leaving => none

theorem Demand.Stage.holdsAlone_iff {s : Stage} :
    s.holdsAlone = true ↔ ∃ n, s.server? = some n := by
  cases s <;> simp [holdsAlone, server?]

theorem Demand.Stage.server?_of_not_holds {s : Stage} (h : s.holds = false) : s.server? = none := by
  cases s with
  | starting n => cases h
  | stopping n => cases h
  | _ => rfl

namespace Client

/-! ### Runs -/

theorem after_append (c : Client) (as bs : List Action) :
    c.after (as ++ bs) = (c.after as).after bs := List.foldl_append

theorem effects_append (c : Client) (as bs : List Action) :
    c.effects (as ++ bs) = c.effects as ++ (c.after as).effects bs := by
  induction as generalizing c with
  | nil => rfl
  | cons a rest ih =>
    rw [List.cons_append, effects, ih, effects, List.append_assoc]
    rfl

/-! ### What is started and what is over -/

/-- The servers that are started. -/
def begun (es : List Effect) : List Nat :=
  es.filterMap fun
    | .start _ n => some n
    | _ => none

/-- The server that is over with an action. -/
def over? (c : Client) : Action → Option Nat
  | .started id (.error _) =>
    match c.operation? id with
    | some ⟨_, _, .starting n⟩ => some n
    | _ => none
  | .stopped id _ =>
    match c.operation? id with
    | some ⟨_, _, .stopping n⟩ => some n
    | _ => none
  | .cancel id => (c.operation? id).bind (·.stage.server?)
  | .started _ (.ok ()) | .demand _ | .answered .. | .advance _ => none

/-- The servers that run after a step, if `live` ran before. -/
def runningAfter (live : List Nat) (c : Client) (a : Action) : List Nat :=
  live.filter (fun n => c.over? a ≠ some n) ++ begun (c.step a).2

theorem runningAfter_eq (hover : c.over? a = none) (hbegun : begun es = []) :
    live.filter (fun n => c.over? a ≠ some n) ++ begun es = live := by
  simp [hover, hbegun]

theorem runningAfter_of_over (hover : c.over? a = some n) (hbegun : begun es = []) :
    [n].filter (fun n => c.over? a ≠ some n) ++ begun es = [] := by
  simp [hover, hbegun]

/-- The servers that run after actions, if `live` ran before. -/
def runningFrom (live : List Nat) (c : Client) : List Action → List Nat
  | [] => live
  | a :: rest => runningFrom (runningAfter live c a) (c.step a).1 rest

/-- The servers that a client has started, those aside that are over. -/
def running (c : Client) (as : List Action) : List Nat := runningFrom [] c as

theorem begun_settled (o : Operation) : begun (settled o) = [] := by
  unfold settled
  split <;> rfl

theorem over?_started (ho : c.operation? o.id = some o) (hs : o.stage = .starting n)
    (f : StartFailure) : c.over? (.started o.id (.error f)) = some n := by
  obtain ⟨id, d, stage⟩ := o
  obtain rfl : stage = .starting n := hs
  simp only [over?, ho]

theorem over?_stopped (ho : c.operation? o.id = some o) (hs : o.stage = .stopping n)
    (failure : Option String) : c.over? (.stopped o.id failure) = some n := by
  obtain ⟨id, d, stage⟩ := o
  obtain rfl : stage = .stopping n := hs
  simp only [over?, ho]

theorem over?_cancel (ho : c.operation? o.id = some o) :
    c.over? (.cancel o.id) = o.stage.server? := by
  simp only [over?, ho, Option.bind_some]

theorem over?_of_rest (h : c.step a = (c, [])) : c.over? a = none := by
  cases a with
  | started id result =>
    cases result with
    | ok u => rfl
    | error f =>
      simp only [step, over?] at h ⊢
      cases ho : c.operation? id with
      | none => rfl
      | some o =>
        obtain ⟨i, d, stage⟩ := o
        cases stage with
        | starting n => simp [ho, conclude] at h
        | _ => rfl
  | stopped id failure =>
    simp only [step, over?] at h ⊢
    cases ho : c.operation? id with
    | none => rfl
    | some o =>
      obtain ⟨i, d, stage⟩ := o
      cases stage with
      | stopping n => simp [ho, conclude] at h
      | _ => rfl
  | cancel id =>
    cases ho : c.operation? id with
    | none => simp only [over?, ho, Option.bind_none]
    | some o =>
      -- the operation would be gone
      have hdrop : c.drop id = c := (Prod.mk.inj h).1
      have hmem : o ∈ (c.drop id).operations := hdrop.symm ▸ mem_of_operation? ho
      simp [drop, operation?_id ho] at hmem
  | demand d => rfl
  | answered id result => rfl
  | advance id => rfl

/-! ### The tally -/

/-- The servers that run are those that the client knows of. -/
structure Tally (c : Client) (live : List Nat) : Prop where
  rest : c.isOpen = true → live = c.service.toList
  busy : ∀ o ∈ c.operations, ∀ n, o.stage.server? = some n → live = [n]

namespace Tally

theorem ofConfig (config : Config) : Tally (Client.ofConfig config) [] := ⟨fun _ => rfl, nofun⟩

theorem length_le_one (h : Tally c live) : live.length ≤ 1 := by
  by_cases hopen : c.isOpen = true
  · rw [h.rest hopen]
    cases c.service <;> simp
  · obtain ⟨o, ho, halone⟩ : ∃ o ∈ c.operations, o.stage.holdsAlone = true := by
      simpa [isOpen_iff] using hopen
    obtain ⟨n, hn⟩ := Demand.Stage.holdsAlone_iff.1 halone
    rw [h.busy o ho n hn]
    exact Nat.le_refl 1

theorem keep (h : Tally c live) (hc : c.Sound) (ho : o ∈ c.operations)
    (hops : base.operations = c.operations) (hserver : base.service = c.service)
    (hbefore : o.stage.server? = none) (hafter : ∀ s, next = some s → s.server? = none) :
    Tally (base.place o.id next) live := by
  have hmem := hc.mem_place ho hops next
  refine ⟨fun hopen => ?_, fun x hx n hn => ?_⟩
  · rw [service_place, hserver]
    refine h.rest (isOpen_iff.2 fun x hx => ?_)
    by_cases hxo : x = o
    · rw [hxo]
      exact Bool.eq_false_iff.2 fun halone => by
        obtain ⟨n, hn⟩ := Demand.Stage.holdsAlone_iff.1 halone
        rw [hbefore] at hn
        cases hn
    · exact isOpen_iff.1 hopen x ((hmem x).2 (.inl ⟨hx, hxo⟩))
  · rcases (hmem x).1 hx with ⟨hx, -⟩ | ⟨s, hs, rfl⟩
    · exact h.busy x hx n hn
    · rw [hafter s hs] at hn
      cases hn

/-- An operation has come to have a server in hand, or to have none any more, while nobody else has
the lock. -/
theorem alone (hc : c.Sound) (ho : o ∈ c.operations) (hops : base.operations = c.operations)
    (hothers : ∀ x ∈ c.operations, x ≠ o → x.stage.holds = false)
    (hrest : (∀ s, next = some s → s.server? = none) → live = base.service.toList)
    (hbusy : ∀ s, next = some s → ∀ n, s.server? = some n → live = [n]) :
    Tally (base.place o.id next) live := by
  have hmem := hc.mem_place ho hops next
  refine ⟨fun hopen => ?_, fun x hx n hn => ?_⟩
  · rw [service_place]
    refine hrest fun s hs => Option.eq_none_iff_forall_ne_some.2 fun n hn => ?_
    have hclosed := isOpen_iff.1 hopen _ ((hmem ⟨o.id, o.demand, s⟩).2 (.inr ⟨s, hs, rfl⟩))
    rw [Demand.Stage.holdsAlone_iff.2 ⟨n, hn⟩] at hclosed
    cases hclosed
  · rcases (hmem x).1 hx with ⟨hx, hne⟩ | ⟨s, hs, rfl⟩
    · rw [Demand.Stage.server?_of_not_holds (hothers x hx hne)] at hn
      cases hn
    · exact hbusy s hs n hn

theorem of_isFree (h : Tally c live) (hfree : c.isFree = true) : live = c.service.toList :=
  h.rest (isOpen_iff.2 fun x hx => (Bool.or_eq_false_iff.1 (isFree_iff.1 hfree x hx)).1)

end Tally

theorem readied_server? {d : Demand} (s : Demand.Stage) (h : readied d = some s) :
    s.server? = none := by
  rw [(readied_eq_some h).1]
  rfl

theorem Moves.tally (hm : c.Moves o a base next es) (hc : c.Sound) (ho : o ∈ c.operations)
    (h : Tally c live) :
    Tally (base.place o.id next) (live.filter (fun n => c.over? a ≠ some n) ++ begun es) := by
  have hfound := hc.operation? ho
  have hfits := hc.fits o ho
  unfold Operation.Fits at hfits
  have hothers {n : Nat} (hn : o.stage.server? = some n) :=
    hc.others ho (Demand.Stage.holdsAlone_iff.2 ⟨n, hn⟩)
  cases hm with
  | found n hs hfree hn =>
    rw [runningAfter_eq rfl (begun_settled o)]
    exact h.keep hc ho rfl rfl (by rw [hs]; rfl) readied_server?
  | refused e hs hfree hn he =>
    rw [runningAfter_eq rfl rfl]
    exact h.keep hc ho rfl rfl (by rw [hs]; rfl) nofun
  | starts hs hfree hn he =>
    obtain rfl : live = [] := by rw [h.of_isFree hfree, hn]; rfl
    refine .alone hc ho rfl (fun x hx _ => isFree_iff.1 hfree x hx) (fun hnone => ?_) ?_
    · cases hnone _ rfl
    · rintro _ ⟨⟩ _ ⟨⟩
      rfl
  | began n hs =>
    have hn : o.stage.server? = some n := by rw [hs]; rfl
    obtain rfl := h.busy o ho n hn
    rw [runningAfter_eq rfl (begun_settled o)]
    refine .alone hc ho rfl (hothers hn) (fun _ => rfl) fun s hs' m hm => ?_
    rw [readied_server? s hs'] at hm
    cases hm
  | failed n hs f =>
    have hn : o.stage.server? = some n := by rw [hs]; rfl
    obtain rfl := h.busy o ho n hn
    rw [runningAfter_of_over (over?_started hfound hs f) rfl]
    rw [hs] at hfits
    exact .alone hc ho rfl (hothers hn) (fun _ => by rw [hfits.2]; rfl) nofun
  | enters n q hs hopen hn hq =>
    rw [runningAfter_eq rfl rfl]
    refine h.keep hc ho rfl rfl (by rw [hs]; rfl) ?_
    rintro _ ⟨⟩
    rfl
  | misses hs hopen hn =>
    rw [runningAfter_eq rfl rfl]
    exact h.keep hc ho rfl rfl (by rw [hs]; rfl) nofun
  | answered n hs result =>
    rw [runningAfter_eq rfl rfl]
    exact h.keep hc ho rfl rfl (by rw [hs]; rfl) nofun
  | stops n hs hfree hn =>
    obtain rfl : live = [n] := by rw [h.of_isFree hfree, hn]; rfl
    refine .alone hc ho rfl (fun x hx _ => isFree_iff.1 hfree x hx) (fun hnone => ?_) ?_
    · cases hnone _ rfl
    · rintro _ ⟨⟩ _ ⟨⟩
      simp [over?, begun]
  | leaves hs hfree hn =>
    rw [runningAfter_eq rfl rfl]
    exact h.keep hc ho rfl rfl (by rw [hs]; rfl) nofun
  | stopped n hs failure =>
    have hn : o.stage.server? = some n := by rw [hs]; rfl
    obtain rfl := h.busy o ho n hn
    rw [runningAfter_of_over (over?_stopped hfound hs failure) rfl]
    rw [hs] at hfits
    exact .alone hc ho rfl (hothers hn) (fun _ => by rw [hfits.2]; rfl) nofun
  | cancelled =>
    cases hn : o.stage.server? with
    | none =>
      rw [runningAfter_eq ((over?_cancel hfound).trans hn) rfl]
      exact h.keep hc ho rfl rfl hn nofun
    | some n =>
      obtain rfl := h.busy o ho n hn
      have hservice : c.service = none := by
        cases hs : o.stage with
        | starting m => rw [hs] at hfits; exact hfits.2
        | stopping m => rw [hs] at hfits; exact hfits.2
        | _ => rw [hs] at hn; cases hn
      rw [runningAfter_of_over ((over?_cancel hfound).trans hn) rfl]
      exact .alone hc ho rfl (hothers hn) (fun _ => by rw [hservice]; rfl) nofun

namespace Tally

theorem step (h : Tally c live) (hc : c.Sound) (a : Action) :
    Tally (c.step a).1 (runningAfter live c a) := by
  unfold runningAfter
  rcases c.step_cases a with ⟨d, rfl⟩ | hrest | ⟨o, base, next, es, ho, hm, hstep⟩
  · have hlive : live.filter (fun n => c.over? (.demand d) ≠ some n) ++ begun [] = live := by
      simp [over?, begun]
    have hnew :
        (if d = .disconnect then .leaving else .connecting : Demand.Stage).server? = none := by
      split <;> rfl
    show Tally (c.start d) (_ ++ begun [])
    rw [runningAfter_eq rfl rfl]
    refine ⟨fun hopen => h.rest (isOpen_iff.2 fun x hx => ?_), fun x hx n hn => ?_⟩
    · exact isOpen_iff.1 hopen x (List.mem_append_left _ hx)
    · rcases List.mem_append.1 hx with hx | hx
      · exact h.busy x hx n hn
      · obtain rfl := List.mem_singleton.1 hx
        rw [hnew] at hn
        cases hn
  · rw [hrest, over?_of_rest hrest]
    simpa [begun] using h
  · rw [hstep]
    exact hm.tally hc (mem_of_operation? ho) h

theorem after (h : Tally c live) (hc : c.Sound) (as : List Action) :
    Tally (c.after as) (runningFrom live c as) := by
  induction as generalizing c live with
  | nil => exact h
  | cons a rest ih => exact ih (h.step hc a) (hc.step a)

end Tally

theorem tally_running (config : Config) (as : List Action) :
    Tally ((ofConfig config).after as) ((ofConfig config).running as) :=
  (Tally.ofConfig config).after (.ofConfig config) as

end Client

end GatedCalls.Server
