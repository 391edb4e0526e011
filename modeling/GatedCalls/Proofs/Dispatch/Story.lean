import GatedCalls.Proofs.Dispatch.Steps

/-!
# The story of one call

`Engine.record` is a run as a list of moments. The story of a call is all that a run shows of it, in
order. `Standing.Tells` says which stories go with which standing: they only differ in the handler
that was asked, the answers that came from outside, and whether the call was given up. A move adds
its notes to the story (`Move.tells`), so at every moment of every run the story so far is one of
those that go with the standing of the call (`tells_record`).
-/

namespace GatedCalls

variable {β : Type}

namespace Engine

/-- A run from a state: what happens and the states it happens in. -/
def record (e : Engine β) (r : Registry) : List (Action β) → List (Moment β)
  | [] => []
  | a :: rest => ⟨e, r, a⟩ :: record (e.step r a).engine (e.step r a).registry rest

end Engine

/-- What a run shows of the call `id`. -/
def story (id : Nat) (ms : List (Moment β)) : List (Note β) := ms.flatMap (·.notes id)

namespace Entry

variable (x : Entry β) (args : Args)

def opening : List (Note β) := [.called x.name args x]

/-- The story up to the event that announces the call. -/
def requested : List (Note β) := x.opening args ++ [.told x.name (.requested args)]

/-- The story up to the event that announces the question. -/
def presented (handler : Handler) : List (Note β) :=
  x.requested args ++ [.told x.name (.confirmationRequested handler.name)]

def asked (handler : Handler) : List (Note β) :=
  x.presented args handler ++ [.asked handler x.name args]

def answered (handler : Handler) (result : Except ConfirmationError Bool) : List (Note β) :=
  x.asked args handler ++ [.answered result]

/-- The stories after which nothing stands between a call and its tool. -/
inductive Clear : List (Note β) → Prop
  | ungated (h : x.gated = false) : Clear (x.requested args)
  | granted (h : x.gated = true) (handler : Handler) :
    Clear (x.answered args handler (.ok true) ++ [.told x.name .confirmationGranted])

end Entry

/-- The stories of a call in flight. -/
def Call.Tells (c : Call β) (s : List (Note β)) : Prop :=
  match c.stage with
  | .found => s = c.entry.opening c.args
  | .gate | .unset | .chosen _ => c.entry.gated = true ∧ s = c.entry.requested c.args
  | .presented handler => c.entry.gated = true ∧ s = c.entry.presented c.args handler
  | .asking handler => c.entry.gated = true ∧ s = c.entry.asked c.args handler
  | .answered result =>
    c.entry.gated = true ∧ ∃ handler, s = c.entry.answered c.args handler result
  | .cleared => c.entry.Clear c.args s
  | .running => ∃ t, c.entry.Clear c.args t ∧ s = t ++ [.executed (Engine.run c)]
  | .ended result =>
    ∃ t, c.entry.Clear c.args t ∧ s = t ++ [.executed (Engine.run c), .finished result]

/-- The stories of calls that are over. -/
inductive Ended : List (Note β) → Prop
  | unused : Ended []
  | refused (err : DispatchError) : Ended [.returned (.error err)]
  | declined (c : Call β) (h : c.entry.gated = true) (handler : Handler) :
    Ended (c.entry.answered c.args handler (.ok false) ++ [.told c.entry.name .confirmationDeclined,
      .returned (.ok (Response.declined c.entry.name))])
  | failed (c : Call β) (h : c.entry.gated = true) (handler : Handler) (err : ConfirmationError) :
    Ended (c.entry.answered c.args handler (.error err) ++
      [.told c.entry.name (.confirmationFailed err.message),
        .returned (.error (.confirmation c.entry.name err))])
  | completed (c : Call β) {t : List (Note β)} (h : c.entry.Clear c.args t) (output : Response) :
    Ended (t ++ [.executed (Engine.run c), .finished (.ok output),
      .told c.entry.name (.completed output), .returned (.ok output)])
  | broken (c : Call β) {t : List (Note β)} (h : c.entry.Clear c.args t) (err : ToolError) :
    Ended (t ++ [.executed (Engine.run c), .finished (.error err),
      .told c.entry.name (.failed err.message), .returned (.error (.tool c.entry.name err))])
  /-- Given up while its handler was asked. -/
  | withdrawn (c : Call β) (h : c.entry.gated = true) (handler : Handler) :
    Ended (c.entry.asked c.args handler ++ [.cancelled])
  /-- Given up while its tool was at work. -/
  | abandoned (c : Call β) {t : List (Note β)} (h : c.entry.Clear c.args t) :
    Ended (t ++ [.executed (Engine.run c), .cancelled])

namespace Standing

/-- The stories that go with a standing. -/
def Tells : Standing β → List (Note β) → Prop
  | .fresh, s => s = []
  | .active c, s => c.Tells s
  | .over, s => Ended s

end Standing

variable {e : Engine β} {r : Registry} {c : Call β} {id : Nat} {x y : Standing β}
  {s ns : List (Note β)}

theorem Call.tells_at {st : Stage} (h : c.stage = st) : c.Tells s ↔ (c.at st).Tells s := by
  rw [← h]
  rfl

theorem Stage.isSuspended_iff {st : Stage} :
    st.isSuspended = true ↔ (∃ handler, st = .asking handler) ∨ st = .running := by
  cases st <;> simp [isSuspended]

theorem Move.tells (hm : Move id r x ns y) (hs : x.Tells s) : y.Tells (s ++ ns) := by
  cases hm with
  | rest => rwa [List.append_nil]
  | spend => rw [show s = [] from hs]; exact .unused
  | begin name args entry h => rw [show s = [] from hs, ← h]; rfl
  | refuse err => rw [show s = [] from hs]; exact .refused err
  | request c h =>
    obtain rfl : s = c.entry.opening c.args := (Call.tells_at h).1 hs
    show (c.at _).Tells _
    cases hg : c.entry.gated with
    | true => exact ⟨hg, rfl⟩
    | false => exact .ungated hg
  | miss c h _ => rw [List.append_nil]; exact (Call.tells_at h).1 hs
  | choose c h =>
    rw [List.append_nil]
    rcases h with h | h <;> exact (Call.tells_at h).1 hs
  | present c handler h =>
    obtain ⟨hg, rfl⟩ := (Call.tells_at h).1 hs
    exact ⟨hg, rfl⟩
  | ask c handler h =>
    obtain ⟨hg, rfl⟩ := (Call.tells_at h).1 hs
    exact ⟨hg, rfl⟩
  | answer c handler result h =>
    obtain ⟨hg, rfl⟩ := (Call.tells_at h).1 hs
    exact ⟨hg, handler, rfl⟩
  | grant c h =>
    obtain ⟨hg, handler, rfl⟩ := (Call.tells_at h).1 hs
    exact .granted hg handler
  | decline c h =>
    obtain ⟨hg, handler, rfl⟩ := (Call.tells_at h).1 hs
    exact .declined c hg handler
  | fail c err h =>
    obtain ⟨hg, handler, rfl⟩ := (Call.tells_at h).1 hs
    exact .failed c hg handler err
  | execute c h => exact ⟨s, (Call.tells_at h).1 hs, rfl⟩
  | finish c result h =>
    obtain ⟨t, ht, rfl⟩ := (Call.tells_at h).1 hs
    exact ⟨t, ht, List.append_assoc ..⟩
  | complete c output h =>
    obtain ⟨t, ht, rfl⟩ := (Call.tells_at h).1 hs
    rw [List.append_assoc]
    exact .completed c ht output
  | «break» c err h =>
    obtain ⟨t, ht, rfl⟩ := (Call.tells_at h).1 hs
    rw [List.append_assoc]
    exact .broken c ht err
  | cancel c h =>
    rcases Stage.isSuspended_iff.1 h with ⟨handler, hst⟩ | hst
    · obtain ⟨hg, rfl⟩ := (Call.tells_at hst).1 hs
      exact .withdrawn c hg handler
    · obtain ⟨t, ht, rfl⟩ := (Call.tells_at hst).1 hs
      rw [List.append_assoc]
      exact .abandoned c ht

/-! ### Runs -/

namespace Engine

/-- At every moment of a run the state is sound, and the story so far goes with the standing. -/
theorem tells_record {as : List (Action β)} {before after : List (Moment β)} {m : Moment β}
    (hs : e.Sound) (ht : (e.standing id).Tells s) (h : e.record r as = before ++ m :: after) :
    m.engine.Sound ∧ (m.engine.standing id).Tells (s ++ story id before) := by
  induction as generalizing e r s before with
  | nil => simp [record] at h
  | cons a rest ih =>
    cases before with
    | nil =>
      obtain ⟨rfl, -⟩ := List.cons.inj h
      exact ⟨hs, by simpa [story] using ht⟩
    | cons m₀ before =>
      obtain ⟨rfl, hrest⟩ := List.cons.inj h
      have := ih (hs.step a) ((step_move hs a).tells ht) hrest
      rwa [List.append_assoc] at this

theorem standing_empty : (∅ : Engine β).standing id = .fresh := if_pos (Nat.zero_le _)

theorem tells_before (id : Nat) {as : List (Action β)} {before after : List (Moment β)}
    {m : Moment β} (h : record ∅ r as = before ++ m :: after) :
    m.engine.Sound ∧ (m.engine.standing id).Tells (story id before) := by
  refine tells_record (s := []) sound_empty ?_ h
  rw [standing_empty]
  exact rfl

/-- What follows a moment of a run is a run from the state after it, and a longer run goes on from
there. -/
theorem record_extend {as : List (Action β)} {before after : List (Moment β)} {m : Moment β}
    (h : e.record r as = before ++ m :: after) : ∃ rest,
      after = m.outcome.engine.record m.outcome.registry rest ∧
      ∀ more, e.record r (as ++ more) =
        before ++ m :: m.outcome.engine.record m.outcome.registry (rest ++ more) := by
  induction as generalizing e r before with
  | nil => simp [record] at h
  | cons a as ih =>
    cases before with
    | nil =>
      obtain ⟨rfl, rfl⟩ := List.cons.inj h
      exact ⟨as, rfl, fun more => rfl⟩
    | cons m₀ before =>
      obtain ⟨rfl, hrest⟩ := List.cons.inj h
      obtain ⟨rest, hafter, hmore⟩ := ih hrest
      exact ⟨rest, hafter, fun more => congrArg _ (hmore more)⟩

theorem record_after {as : List (Action β)} {before after : List (Moment β)} {m : Moment β}
    (h : e.record r as = before ++ m :: after) :
    ∃ rest, after = m.outcome.engine.record m.outcome.registry rest := by
  obtain ⟨rest, hafter, -⟩ := record_extend h
  exact ⟨rest, hafter⟩

end Engine

end GatedCalls
