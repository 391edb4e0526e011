import GatedCalls.Proofs.Dispatch.Protocol
import GatedCalls.Proofs.Dispatch.Solo
import Mathlib.Data.List.Induction
import Mathlib.Logic.Function.Basic

/-!
# Engines that share registries

A `Fleet` is any number of engines over any number of registries; `home` says which registry an
engine asks, so engines may share one. Handlers are swapped through an engine or at the registry
itself, at any time.

`inForce` reads off the run so far which handler a registry hands out: the last one put into it, or
its own console. A call gets the handler that is in force at the registry of its engine at one step
(`Chose`) and keeps it. What happens at other registries does not reach the engine at all
(`moments_filter`), and once the handler is chosen only what concerns the call reaches the call
(`story_filter`); a swap is neither.
-/

namespace GatedCalls

variable {β : Type}

structure Fleet (β : Type) where
  engines : Nat → Engine β
  registries : Nat → Registry

/-- What can happen to a fleet. -/
inductive Happening (β : Type)
  | act (i : Nat) (a : Action β)
  /-- A handler is put into a registry, not through an engine. -/
  | set (k : Nat) (h : Handler)
  /-- The second step of a use of a registry that is none of an engine. -/
  | fill (k : Nat)

/-- The handler that is put into the registry. -/
def Happening.sets? (home : Nat → Nat) (k : Nat) : Happening β → Option Handler
  | .set k' h => if k' = k then some h else none
  | .act i (.setHandler h) => if home i = k then some h else none
  | _ => none

/-- Whether a handler is put into some registry. -/
def Happening.isSwap : Happening β → Bool
  | .set .. | .act _ (.setHandler _) => true
  | _ => false

/-- Whether a handler is put into another registry. -/
def Happening.swapsBeside (home : Nat → Nat) (k : Nat) : Happening β → Bool
  | .set k' _ => k' != k
  | .act i (.setHandler _) => home i != k
  | _ => false

/-- Whether it happens to the call `id` of the engine `i`. -/
def Happening.concerns (i id : Nat) : Happening β → Bool
  | .act j a => j == i && a.concerns id
  | .set .. | .fill _ => false

namespace Fleet

/-- Engines that have seen nothing, and registries that were never set. -/
def start : Fleet β := ⟨fun _ => ∅, .empty⟩

variable (home : Nat → Nat)

def step (f : Fleet β) : Happening β → Fleet β
  | .act i a =>
    let o := (f.engines i).step (f.registries (home i)) a
    ⟨Function.update f.engines i o.engine, Function.update f.registries (home i) o.registry⟩
  | .set k h => { f with registries := Function.update f.registries k ((f.registries k).set h) }
  | .fill k => { f with registries := Function.update f.registries k (f.registries k).fill.1 }

def run (f : Fleet β) (xs : List (Happening β)) : Fleet β := xs.foldl (step home) f

/-- What happens to the engine `i` then. -/
def seen (i : Nat) (f : Fleet β) : Happening β → List (Moment β)
  | .act j a => if j = i then [⟨f.engines i, f.registries (home i), a⟩] else []
  | .set .. | .fill _ => []

/-- What happens to the engine `i` in a run. -/
def moments (i : Nat) (f : Fleet β) : List (Happening β) → List (Moment β)
  | [] => []
  | x :: rest => f.seen home i x ++ moments i (f.step home x) rest

/-- The handler that the registry hands out: the last that was put into it, or its console. -/
def inForce (k : Nat) (xs : List (Happening β)) : Handler :=
  (xs.filterMap (·.sets? home k)).getLast?.getD (Registry.empty k).standard

end Fleet

/-- The handlers that the events about the call name. -/
def named (id : Nat) (ms : List (Moment β)) : List String :=
  (events id ms).filterMap fun event => match event.kind with
    | .confirmationRequested handler => some handler
    | _ => none

namespace Engine

/-- Only a swap puts a handler into the registry; anything else leaves the slot, or fills it. -/
theorem step_registry {e : Engine β} {r : Registry} {a : Action β}
    (ha : ∀ h, a ≠ .setHandler h) :
    (e.step r a).registry = r ∨ (e.step r a).registry = r.fill.1 := by
  cases a with
  | setHandler h => exact absurd rfl (ha h)
  | register entry => simp only [step]; split <;> exact .inl rfl
  | advance id =>
    simp only [step, advance]
    split
    · simp only [advanceCall]
      split
      · exact .inl rfl
      · split <;> exact .inl rfl
      · exact .inr rfl
      all_goals exact .inl rfl
    · exact .inl rfl
  | _ => exact .inl rfl

end Engine

/-- Whether the call is about to ask the handler. -/
def Standing.Heads (y : Standing β) (handler : Handler) : Prop :=
  ∃ c, y = .active c ∧ (c.stage = .chosen handler ∨ c.stage = .presented handler)

namespace Move

variable {id : Nat} {r : Registry} {x y : Standing β} {ns : List (Note β)} {handler : Handler}

/-- A call is about to ask a handler because it was before, or takes the one in force. -/
theorem heads (hm : Move id r x ns y) (h : y.Heads handler) :
    x.Heads handler ∨ ∃ c, x = .active c ∧ (c.stage = .gate ∨ c.stage = .unset) ∧
      y = .active (c.at (.chosen handler)) ∧ handler = r.fill.2 := by
  obtain ⟨c, rfl, hc⟩ := h
  cases hm with
  | rest => exact .inl ⟨c, rfl, hc⟩
  | choose c h =>
    obtain rfl : r.fill.2 = handler := by simpa [Call.at] using hc
    exact .inr ⟨c, rfl, h, rfl, rfl⟩
  | present c handler' h =>
    obtain rfl : handler' = handler := by simpa [Call.at] using hc
    exact .inl ⟨c, rfl, .inl h⟩
  | request c h =>
    exfalso
    cases hg : c.entry.gated <;> simp [Call.at, hg] at hc
  | _ => simp [Call.at] at hc

theorem asked {name : String} {args : Args} (hm : Move id r x ns y)
    (h : .asked handler name args ∈ ns) : x.Heads handler := by
  cases hm with
  | ask c handler' hst =>
    obtain ⟨rfl, -, -⟩ : handler = handler' ∧ _ := by simpa using h
    exact ⟨c, rfl, .inr hst⟩
  | _ => simp at h

end Move

namespace Fleet

variable {home : Nat → Nat} {f f' : Fleet β} {xs ys : List (Happening β)} {x : Happening β}
  {i k id : Nat} {r : Registry}

theorem run_append (f : Fleet β) (xs ys : List (Happening β)) :
    f.run home (xs ++ ys) = (f.run home xs).run home ys := List.foldl_append

theorem moments_append (f : Fleet β) (xs ys : List (Happening β)) :
    f.moments home i (xs ++ ys) = f.moments home i xs ++ (f.run home xs).moments home i ys := by
  induction xs generalizing f with
  | nil => rfl
  | cons x rest ih =>
    rw [List.cons_append, moments, moments, ih, List.append_assoc]
    rfl

theorem moments_singleton (f : Fleet β) (x : Happening β) :
    f.moments home i [x] = f.seen home i x := List.append_nil _

/-! ### The registries -/

/-- The slot of a registry after a run from the start. -/
structure Holds (home : Nat → Nat) (k : Nat) (xs : List (Happening β)) (r : Registry) : Prop where
  id : r.id = k
  empty : r.active = none → r.made = 0 ∧ xs.filterMap (·.sets? home k) = []
  full : ∀ h, r.active = some h → h = inForce home k xs

theorem Holds.fill (h : Holds home k xs r) : r.fill.2 = inForce home k xs := by
  unfold Registry.fill
  cases ha : r.active with
  | some handler => exact h.full handler ha
  | none =>
    obtain ⟨hm, hs⟩ := h.empty ha
    rw [inForce, hs]
    simp [Registry.standard, Registry.empty, h.id, hm]

theorem Holds.keep (h : Holds home k xs r) (hx : x.sets? home k = none) {r' : Registry}
    (hr : r' = r ∨ r' = r.fill.1) : Holds home k (xs ++ [x]) r' := by
  have hs : (xs ++ [x]).filterMap (·.sets? home k) = xs.filterMap (·.sets? home k) := by
    rw [List.filterMap_append]
    simp [hx]
  have hf : inForce home k (xs ++ [x]) = inForce home k xs := by
    rw [inForce, hs]
    rfl
  have hfill := h.fill
  have same : Holds home k (xs ++ [x]) r := ⟨h.id, hs ▸ h.empty, hf ▸ h.full⟩
  rcases hr with rfl | rfl
  · exact same
  · unfold Registry.fill at hfill ⊢
    cases ha : r.active with
    | some handler => exact same
    | none =>
      rw [ha] at hfill
      refine ⟨h.id, fun hn => (by cases hn), fun handler hh => ?_⟩
      rw [hf, ← hfill]
      exact (Option.some.inj hh).symm

theorem Holds.set (h : Holds home k xs r) {handler : Handler} (hx : x.sets? home k = some handler) :
    Holds home k (xs ++ [x]) (r.set handler) := by
  refine ⟨h.id, fun hn => (by cases hn), fun handler' hh => ?_⟩
  obtain rfl := Option.some.inj hh
  rw [inForce, List.filterMap_append]
  simp [hx]

theorem holds_step (h : Holds home k xs (f.registries k)) (x : Happening β) :
    Holds home k (xs ++ [x]) ((f.step home x).registries k) := by
  cases x with
  | act i a =>
    by_cases hi : home i = k
    · subst hi
      have hr : (f.step home (.act i a)).registries (home i) =
          ((f.engines i).step (f.registries (home i)) a).registry := Function.update_self ..
      rw [hr]
      by_cases ha : ∃ h, a = .setHandler h
      · obtain ⟨handler, rfl⟩ := ha
        exact h.set (if_pos rfl)
      · refine h.keep ?_ (Engine.step_registry fun handler hs => ha ⟨handler, hs⟩)
        cases a with
        | setHandler handler => exact absurd ⟨handler, rfl⟩ ha
        | _ => rfl
    · have hr : (f.step home (.act i a)).registries k = f.registries k :=
        Function.update_of_ne (Ne.symm hi) ..
      rw [hr]
      refine h.keep ?_ (.inl rfl)
      cases a <;> simp [Happening.sets?, hi]
  | set k' handler =>
    by_cases hk : k' = k
    · subst hk
      rw [show (f.step home (.set k' handler)).registries k' = (f.registries k').set handler from
        Function.update_self ..]
      exact h.set (if_pos rfl)
    · rw [show (f.step home (.set k' handler)).registries k = f.registries k from
        Function.update_of_ne (Ne.symm hk) ..]
      have hx : (Happening.set k' handler : Happening β).sets? home k = none := if_neg hk
      exact h.keep hx (.inl rfl)
  | fill k' =>
    refine h.keep rfl ?_
    by_cases hk : k' = k
    · subst hk
      exact .inr (Function.update_self ..)
    · exact .inl (Function.update_of_ne (Ne.symm hk) ..)

/-- After every run the slot holds the last handler that was put into it. -/
theorem holds_run (home : Nat → Nat) (k : Nat) (xs : List (Happening β)) :
    Holds home k xs ((start.run home xs).registries k) := by
  induction xs using List.reverseRecOn with
  | nil => exact ⟨rfl, fun _ => ⟨rfl, rfl⟩, fun h hh => (by cases hh)⟩
  | append_singleton xs x ih =>
    rw [run_append]
    exact holds_step ih x

/-! ### A call in a fleet -/

/-- The state of every engine is one that a run of it reaches. -/
def Sound (f : Fleet β) : Prop := ∀ i, (f.engines i).Sound

theorem sound_start : (start : Fleet β).Sound := fun _ => Engine.sound_empty

theorem Sound.step (hf : f.Sound) (x : Happening β) : (f.step home x).Sound := by
  intro i
  cases x with
  | act j a =>
    by_cases hj : i = j
    · subst hj
      rw [show (f.step home (.act i a)).engines i = _ from Function.update_self ..]
      exact (hf i).step a
    · rw [show (f.step home (.act j a)).engines i = f.engines i from Function.update_of_ne hj ..]
      exact hf i
  | set k h | fill k => exact hf i

theorem Sound.run (hf : f.Sound) (home : Nat → Nat) (xs : List (Happening β)) :
    (f.run home xs).Sound := by
  induction xs generalizing f with
  | nil => exact hf
  | cons x rest ih => exact ih (hf.step x)

/-- Where the call with a number stands at one of the engines. -/
def standing (f : Fleet β) (i id : Nat) : Standing β := (f.engines i).standing id

theorem step_act (f : Fleet β) (home : Nat → Nat) (i id : Nat) (a : Action β) :
    story id (f.seen home i (.act i a)) =
        (Moment.mk (f.engines i) (f.registries (home i)) a).notes id ∧
      (f.step home (.act i a)).standing i id =
        ((f.engines i).step (f.registries (home i)) a).engine.standing id := by
  refine ⟨?_, congrArg (Engine.standing · id) (Function.update_self ..)⟩
  rw [seen, if_pos rfl]
  exact List.append_nil _

theorem step_else (f : Fleet β) (home : Nat → Nat) (id : Nat) (hx : ∀ a, x ≠ .act i a) :
    story id (f.seen home i x) = [] ∧ (f.step home x).standing i id = f.standing i id := by
  cases x with
  | act j a =>
    have hj : j ≠ i := by rintro rfl; exact hx a rfl
    refine ⟨?_, congrArg (Engine.standing · id) (Function.update_of_ne hj.symm ..)⟩
    rw [seen, if_neg hj]
    rfl
  | set k h | fill k => exact ⟨rfl, rfl⟩

/-- What happens to one engine moves its calls; what happens elsewhere does not. -/
theorem Sound.move (hf : f.Sound) (home : Nat → Nat) (i id : Nat) (x : Happening β) :
    Move id (f.registries (home i)) (f.standing i id) (story id (f.seen home i x))
      ((f.step home x).standing i id) := by
  by_cases hx : ∃ a, x = .act i a
  · obtain ⟨a, rfl⟩ := hx
    obtain ⟨hn, hy⟩ := step_act f home i id a
    rw [hn, hy]
    exact Engine.step_move (hf i) a
  · obtain ⟨hn, hy⟩ := step_else f home id fun a ha => hx ⟨a, ha⟩
    rw [hn, hy]
    exact .rest _

theorem story_snoc (xs : List (Happening β)) (x : Happening β) :
    story id (start.moments home i (xs ++ [x])) =
      story id (start.moments home i xs) ++ story id ((start.run home xs).seen home i x) := by
  rw [moments_append, story_append, moments_singleton]

theorem tells_run (home : Nat → Nat) (xs : List (Happening β)) (i id : Nat) :
    ((start.run home xs).standing i id).Tells (story id (start.moments home i xs)) := by
  induction xs using List.reverseRecOn with
  | nil =>
    have h : (start.run home ([] : List (Happening β))).standing i id = .fresh :=
      Engine.standing_empty
    rw [h]
    rfl
  | append_singleton xs x ih =>
    rw [story_snoc, run_append]
    exact ((sound_start.run home xs).move home i id x).tells ih

/-! ### The choice of the handler -/

/-- In the step `x` after `before`, the call takes the handler in force at the registry of its
engine. -/
structure Takes (home : Nat → Nat) (i id : Nat) (before : List (Happening β)) (x : Happening β)
    (handler : Handler) : Prop where
  unbound : ((start.run home before).engines i).stage? id = some .gate ∨
    ((start.run home before).engines i).stage? id = some .unset
  taken : ((start.run home (before ++ [x])).engines i).stage? id = some (.chosen handler)
  current : handler = inForce home (home i) before

/-- The call has taken the handler at some step of the run. -/
def Chose (home : Nat → Nat) (i id : Nat) (xs : List (Happening β)) (handler : Handler) : Prop :=
  ∃ before x after, xs = before ++ x :: after ∧ Takes home i id before x handler

theorem Chose.append {handler : Handler} (h : Chose home i id xs handler)
    (ys : List (Happening β)) : Chose home i id (xs ++ ys) handler := by
  obtain ⟨before, x, after, rfl, ht⟩ := h
  exact ⟨before, x, after ++ ys, by simp, ht⟩

theorem stage?_of_standing {c : Call β} (h : f.standing i id = .active c) :
    (f.engines i).stage? id = some c.stage := by
  rw [Engine.stage?, Engine.call?_of_standing h]
  rfl

/-- Every handler that the call is about to ask, or has asked, is one that it took. -/
structure Traced (home : Nat → Nat) (i id : Nat) (xs : List (Happening β)) : Prop where
  heads : ∀ handler, ((start.run home xs).standing i id).Heads handler →
    Chose home i id xs handler
  asked : ∀ handler name args, .asked handler name args ∈ story id (start.moments home i xs) →
    Chose home i id xs handler

theorem Traced.step (h : Traced home i id xs) (x : Happening β) :
    Traced home i id (xs ++ [x]) := by
  have hm := (sound_start.run home xs).move home i id x
  have hstep : start.run home (xs ++ [x]) = (start.run home xs).step home x := run_append ..
  refine ⟨fun handler hh => ?_, fun handler name args hmem => ?_⟩
  -- the call is about to ask what it was about to ask before, or takes it in this very step
  · rw [hstep] at hh
    rcases hm.heads hh with hh | ⟨c, hx, hst, hy, hr⟩
    · exact (h.heads handler hh).append [x]
    · refine ⟨xs, x, [], rfl, ?_, ?_, hr.trans (holds_run home (home i) xs).fill⟩
      · simpa [stage?_of_standing hx] using hst
      · rw [← hstep] at hy
        exact stage?_of_standing hy
  · rw [story_snoc] at hmem
    rcases List.mem_append.1 hmem with hmem | hmem
    · exact (h.asked handler name args hmem).append [x]
    · exact (h.heads handler (hm.asked hmem)).append [x]

theorem traced_run (home : Nat → Nat) (i id : Nat) (xs : List (Happening β)) :
    Traced home i id xs := by
  induction xs using List.reverseRecOn with
  | nil =>
    refine ⟨fun handler hh => ?_, fun handler name args hmem => by cases hmem⟩
    obtain ⟨c, hc, -⟩ := hh
    rw [show (start.run home ([] : List (Happening β))).standing i id = .fresh from
      Engine.standing_empty] at hc
    cases hc
  | append_singleton xs x ih => exact ih.step x

/-! ### What swaps do not reach -/

/-- The fleets do not differ in the registry `k` and the engines that ask it. -/
structure Agree (home : Nat → Nat) (k : Nat) (f f' : Fleet β) : Prop where
  engines : ∀ j, home j = k → f.engines j = f'.engines j
  registry : f.registries k = f'.registries k

namespace Agree

theorem step (h : Agree home k f f') (x : Happening β) :
    Agree home k (f.step home x) (f'.step home x) := by
  cases x with
  | act i a =>
    by_cases hi : home i = k
    · subst hi
      have ho : (f.engines i).step (f.registries (home i)) a =
          (f'.engines i).step (f'.registries (home i)) a := by rw [h.engines i rfl, h.registry]
      refine ⟨fun j hj => ?_, ?_⟩
      · by_cases hji : j = i
        · subst hji
          simp [Fleet.step, ho]
        · simp [Fleet.step, hji, h.engines j hj]
      · simp [Fleet.step, ho]
    · refine ⟨fun j hj => ?_, ?_⟩
      · have hji : j ≠ i := by rintro rfl; exact hi hj
        simp [Fleet.step, hji, h.engines j hj]
      · simp [Fleet.step, Ne.symm hi, h.registry]
  | set k' handler | fill k' =>
    refine ⟨h.engines, ?_⟩
    by_cases hk : k = k'
    · subst hk
      simp [Fleet.step, h.registry]
    · simp [Fleet.step, hk, h.registry]

theorem skip (h : Agree home k f f') (hx : x.swapsBeside home k = true) :
    Agree home k (f.step home x) f' := by
  cases x with
  | act i a =>
    cases a with
    | setHandler handler =>
      have hi : home i ≠ k := by simpa [Happening.swapsBeside] using hx
      refine ⟨fun j hj => ?_, ?_⟩
      · have hji : j ≠ i := by rintro rfl; exact hi hj
        simp [Fleet.step, hji, h.engines j hj]
      · simp [Fleet.step, Ne.symm hi, h.registry]
    | _ => cases hx
  | set k' handler =>
    have hk : k' ≠ k := by simpa [Happening.swapsBeside] using hx
    exact ⟨h.engines, by simp [Fleet.step, hk.symm, h.registry]⟩
  | fill k' => cases hx

theorem seen (h : Agree home (home i) f f') (x : Happening β) :
    f.seen home i x = f'.seen home i x := by
  cases x with
  | act j a => simp only [Fleet.seen, h.engines i rfl, h.registry]
  | set k h | fill k => rfl

theorem seen_beside (hx : x.swapsBeside home (home i) = true) : f.seen home i x = [] := by
  cases x with
  | act j a =>
    cases a with
    | setHandler handler =>
      have hj : home j ≠ home i := by simpa [Happening.swapsBeside] using hx
      exact if_neg fun hji => hj (congrArg home hji)
    | _ => cases hx
  | set k h | fill k => rfl

end Agree

theorem moments_filter (h : Agree home (home i) f f') (xs : List (Happening β)) :
    f.moments home i xs =
      f'.moments home i (xs.filter fun x => !x.swapsBeside home (home i)) := by
  -- the two runs go on from different fleets, but these agree on all that the engine can see
  induction xs generalizing f f' with
  | nil => rfl
  | cons x rest ih =>
    cases hx : x.swapsBeside home (home i) with
    | true =>
      rw [List.filter_cons_of_neg (by simp [hx]), moments, Agree.seen_beside hx, ih (h.skip hx)]
      rfl
    | false =>
      rw [List.filter_cons_of_pos (by simp [hx]), moments, moments, h.seen x, ih (h.step x)]

theorem Sound.unconcerned (hf : f.Sound) (hb : (f.standing i id).Bound) (home : Nat → Nat)
    (hx : x.concerns i id = false) : story id (f.seen home i x) = [] ∧
      (f.step home x).standing i id = f.standing i id := by
  by_cases ha : ∃ a, x = .act i a
  · obtain ⟨a, rfl⟩ := ha
    obtain ⟨hn, hy⟩ := step_act f home i id a
    have hr := Engine.step_bound (hf i) hb (f.registries (home i)) a
    rw [Engine.standing_react hb (by simpa [Happening.concerns] using hx)] at hr
    rw [hn, hy]
    exact Prod.ext_iff.1 hr
  · exact step_else f home id fun a h => ha ⟨a, h⟩

/-- What happens to a bound call shows the same of it whatever the rest of the fleet is, and leaves
it bound. -/
theorem Sound.concerned (hf : f.Sound) (hf' : f'.Sound) (h : f.standing i id = f'.standing i id)
    (hb : (f.standing i id).Bound) (home : Nat → Nat) (x : Happening β) :
    story id (f.seen home i x) = story id (f'.seen home i x) ∧
      (f.step home x).standing i id = (f'.step home x).standing i id ∧
      ((f.step home x).standing i id).Bound := by
  by_cases ha : ∃ a, x = .act i a
  · obtain ⟨a, rfl⟩ := ha
    obtain ⟨hn, hy⟩ := step_act f home i id a
    obtain ⟨hn', hy'⟩ := step_act f' home i id a
    have hr : (_, _) = (f.standing i id).react (f.registries (home i)) a :=
      Engine.step_bound (hf i) hb _ a
    have hb' : (f'.standing i id).Bound := h ▸ hb
    have hr' : (_, _) = (f'.standing i id).react (f'.registries (home i)) a :=
      Engine.step_bound (hf' i) hb' _ a
    obtain ⟨hsame, hbound⟩ := Standing.react_bound hb (f.registries (home i))
      (f'.registries (home i)) a
    have he := hr.trans (hsame.trans ((congrArg (Standing.react _ · a) h).trans hr'.symm))
    rw [hn, hn', hy, hy']
    refine ⟨(Prod.ext_iff.1 he).1, (Prod.ext_iff.1 he).2, ?_⟩
    rw [← hr] at hbound
    exact hbound
  · obtain ⟨hn, hy⟩ := step_else f home id fun a h => ha ⟨a, h⟩
    obtain ⟨hn', hy'⟩ := step_else f' home id fun a h => ha ⟨a, h⟩
    rw [hn, hn', hy, hy']
    exact ⟨rfl, h, hb⟩

theorem Sound.story_filter (hf : f.Sound) (hf' : f'.Sound)
    (h : f.standing i id = f'.standing i id) (hb : (f.standing i id).Bound)
    (xs : List (Happening β)) : story id (f.moments home i xs) =
      story id (f'.moments home i (xs.filter (·.concerns i id))) := by
  -- only where the call stands has to agree: the fleets come apart in all the rest
  induction xs generalizing f f' with
  | nil => rfl
  | cons x rest ih =>
    cases hx : x.concerns i id with
    | true =>
      obtain ⟨hn, hs, hb'⟩ := hf.concerned hf' h hb home x
      rw [List.filter_cons_of_pos hx, moments, moments, story_append, story_append, hn,
        ih (hf.step x) (hf'.step x) hs hb']
    | false =>
      obtain ⟨hn, hs⟩ := hf.unconcerned hb home hx
      rw [List.filter_cons_of_neg (by simp [hx]), moments, story_append, hn,
        ih (hf.step x) hf' (hs.trans h) (hs ▸ hb)]
      rfl

end Fleet

end GatedCalls
