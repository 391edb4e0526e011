import GatedCalls.Registry

/-!
# A registry that is shared

Any number of callers use one registry while handlers are set in it. A use looks at the slot, and if
the slot was empty it comes back to fill it, so between its two phases others can look, fill and
set. `Shared.move` is one such event, and `Shared.Goes` says all that an event can do: each use is
given its handler at one instant, and at that instant both phases at once would have given it the
same (`Registry.current`). The order of these instants is `order`, and the registry changes in it as
one slot would on which `set` and `current` are single steps (`Plays`).
-/

namespace GatedCalls.Registry

/-- How far a caller has come with its use of the registry. -/
inductive Use
  | absent
  /-- It has called and not looked yet. -/
  | called
  /-- It has looked, and found the slot empty. -/
  | missed
  | given (h : Handler)

namespace Use

def given? : Use → Option Handler
  | given h => some h
  | _ => none

/-- How many of its stages the use has gone through. -/
def reached : Use → Nat
  | absent => 0
  | called => 1
  | missed => 2
  | given _ => 3

end Use

/-- What can happen to a registry that is shared. -/
inductive Access
  | set (h : Handler)
  /-- The use of a caller begins. -/
  | call (caller : Nat)
  | look (caller : Nat)
  | fill (caller : Nat)

def Access.set? : Access → Option Handler
  | set h => some h
  | _ => none

/-- A registry and those who use it. -/
structure Shared where
  registry : Registry
  use : Nat → Use

/-- What takes no time: a handler is set, or a caller is given the one in force. -/
inductive Atom
  | set (h : Handler)
  | use (caller : Nat) (h : Handler)

namespace Atom

def set? : Atom → Option Handler
  | set h => some h
  | use .. => none

/-- The handler that the caller is given. -/
def handed? (caller : Nat) : Atom → Option Handler
  | set _ => none
  | use c h => if c = caller then some h else none

end Atom

/-- A slot on which `set` and `current` are single steps does this, from the first registry to the
last. -/
inductive Plays : Registry → List Atom → Registry → Prop
  | nil (r : Registry) : Plays r [] r
  | set {r r' : Registry} {as : List Atom} (h : Handler) (hp : Plays (r.set h) as r') :
    Plays r (.set h :: as) r'
  | use {r r₁ r' : Registry} {as : List Atom} (caller : Nat) {h : Handler}
    (hc : r.current = (r₁, h)) (hp : Plays r₁ as r') : Plays r (.use caller h :: as) r'

namespace Shared

/-- A new registry that nobody uses. -/
def start (id : Nat) : Shared := ⟨.empty id, fun _ => .absent⟩

def turn (s : Shared) (caller : Nat) (u : Use) : Shared :=
  { s with use := fun x => if x = caller then u else s.use x }

/-- One event; a phase whose turn it is not does nothing. -/
def move (s : Shared) : Access → Shared
  | .set h => { s with registry := s.registry.set h }
  | .call caller =>
    match s.use caller with
    | .absent => s.turn caller .called
    | _ => s
  | .look caller =>
    match s.use caller with
    | .called =>
      match s.registry.look with
      | some h => s.turn caller (.given h)
      | none => s.turn caller .missed
    | _ => s
  | .fill caller =>
    match s.use caller with
    | .missed =>
      let (r, h) := s.registry.fill
      { s.turn caller (.given h) with registry := r }
    | _ => s

/-- What an event does at the instant it happens. -/
def atom? (s : Shared) : Access → Option Atom
  | .set h => some (.set h)
  | .call _ => none
  | .look caller =>
    match s.use caller with
    | .called => s.registry.look.map (.use caller)
    | _ => none
  | .fill caller =>
    match s.use caller with
    | .missed => some (.use caller s.registry.fill.2)
    | _ => none

def run (s : Shared) (xs : List Access) : Shared := xs.foldl move s

/-- What was done, in the order of the instants at which it was done. -/
def order (s : Shared) : List Access → List Atom
  | [] => []
  | a :: rest => (s.atom? a).toList ++ order (s.move a) rest

/-- All that an event can do. -/
inductive Goes (s : Shared) : Access → Option Atom → Shared → Prop
  | idle {a : Access} (ha : a.set? = none) : Goes s a none s
  | called {caller : Nat} (hu : s.use caller = .absent) :
    Goes s (.call caller) none (s.turn caller .called)
  | missed {caller : Nat} (hu : s.use caller = .called) :
    Goes s (.look caller) none (s.turn caller .missed)
  | set (h : Handler) : Goes s (.set h) (some (.set h)) { s with registry := s.registry.set h }
  | given {a : Access} {caller : Nat} {h : Handler} {r : Registry} (ha : a.set? = none)
    (hu : s.use caller = .called ∨ s.use caller = .missed) (hc : s.registry.current = (r, h)) :
    Goes s a (some (.use caller h)) { s.turn caller (.given h) with registry := r }

end Shared

variable {s : Shared} {a : Access} {r r' : Registry} {h : Handler} {caller : Nat}
  {xs ys : List Access}

theorem current_of_active (ha : r.active = some h) : r.current = (r, h) := by
  rw [current, look, ha]

theorem current_of_empty (ha : r.active = none) : r.current = r.fill := by
  rw [current, look, ha]

theorem fill_eq_current (r : Registry) : r.fill = r.current := by
  cases ha : r.active with
  | none => rw [current_of_empty ha]
  | some h => rw [current_of_active ha, fill, ha]

theorem active_of_current (hc : r.current = (r', h)) : r'.active = some h := by
  cases ha : r.active with
  | none =>
    rw [current_of_empty ha, fill, ha] at hc
    cases hc
    rfl
  | some h₀ =>
    rw [current_of_active ha] at hc
    cases hc
    exact ha

theorem Plays.append {as bs : List Atom} {r₁ : Registry} (h : Plays r as r₁)
    (h' : Plays r₁ bs r') : Plays r (as ++ bs) r' := by
  induction h with
  | nil => exact h'
  | set h _ ih => exact .set h (ih h')
  | use caller hc _ ih => exact .use caller hc (ih h')

namespace Shared

@[simp] theorem turn_self (s : Shared) (caller : Nat) (u : Use) :
    (s.turn caller u).use caller = u := if_pos rfl

theorem turn_ne {x : Nat} (hx : x ≠ caller) (u : Use) : (s.turn caller u).use x = s.use x :=
  if_neg hx

theorem goes (s : Shared) (a : Access) : Goes s a (s.atom? a) (s.move a) := by
  cases a with
  | set h => exact .set h
  | call caller =>
    unfold atom? move
    dsimp only
    split
    · exact .called ‹_›
    · exact .idle rfl
  | look caller =>
    unfold atom? move
    dsimp only
    cases hu : s.use caller with
    | called =>
      cases hl : s.registry.look with
      | none => exact .missed hu
      | some h => exact .given rfl (.inl hu) (current_of_active hl)
    | absent | missed | given => exact .idle rfl
  | fill caller =>
    unfold atom? move
    dsimp only
    cases hu : s.use caller with
    | missed => exact .given rfl (.inr hu) (fill_eq_current _).symm
    | absent | called | given => exact .idle rfl

theorem run_append (s : Shared) (xs ys : List Access) : s.run (xs ++ ys) = (s.run xs).run ys :=
  List.foldl_append

theorem order_append (s : Shared) (xs ys : List Access) :
    s.order (xs ++ ys) = s.order xs ++ (s.run xs).order ys := by
  induction xs generalizing s with
  | nil => rfl
  | cons a xs ih =>
    rw [List.cons_append, order, order, ih, List.append_assoc]
    rfl

/-! ### One slot -/

theorem Goes.plays {o : Option Atom} {s' : Shared} (h : Goes s a o s') :
    Plays s.registry o.toList s'.registry := by
  cases h with
  | idle | called | missed => exact .nil _
  | set h => exact .set h (.nil _)
  | given _ _ hc => exact .use _ hc (.nil _)

/-- The registry changes as one slot does, in the order of the instants. -/
theorem plays_run (s : Shared) (xs : List Access) :
    Plays s.registry (s.order xs) (s.run xs).registry := by
  induction xs generalizing s with
  | nil => exact .nil _
  | cons a xs ih => exact (s.goes a).plays.append (ih (s.move a))

theorem sets_order (s : Shared) (xs : List Access) :
    (s.order xs).filterMap Atom.set? = xs.filterMap Access.set? := by
  induction xs generalizing s with
  | nil => rfl
  | cons a xs ih =>
    have hset : (s.atom? a).toList.filterMap Atom.set? = a.set?.toList := by
      have hgoes := s.goes a
      generalize s.atom? a = o at hgoes
      generalize s.move a = s' at hgoes
      cases hgoes with
      | idle ha => rw [ha]; rfl
      | called | missed | set => rfl
      | given ha => rw [ha]; rfl
    rw [order, List.filterMap_append, ih, hset]
    cases ha : a.set? with
    | none => rw [List.filterMap_cons_none ha]; rfl
    | some h => rw [List.filterMap_cons_some ha]; rfl

/-! ### What stays in the slot -/

theorem Goes.active_stays {o : Option Atom} {s' : Shared} (hg : Goes s a o s')
    (ha : s.registry.active = some h) (hset : a.set? = none) : s'.registry.active = some h := by
  cases hg with
  | idle | called | missed => exact ha
  | set => cases hset
  | given _ _ hc =>
    rw [current_of_active ha] at hc
    cases hc
    exact ha

theorem run_active (ha : s.registry.active = some h) (hset : xs.filterMap Access.set? = []) :
    (s.run xs).registry.active = some h := by
  rw [List.filterMap_eq_nil_iff] at hset
  induction xs generalizing s with
  | nil => exact ha
  | cons a xs ih =>
    rw [List.forall_mem_cons] at hset
    exact ih ((s.goes a).active_stays ha hset.1) hset.2

theorem move_isSet (hs : s.registry.isSet = true) : (s.move a).registry.isSet = true := by
  obtain ⟨h, ha⟩ := Option.isSome_iff_exists.1 hs
  cases hset : a.set? with
  | none => exact Option.isSome_iff_exists.2 ⟨h, (s.goes a).active_stays ha hset⟩
  | some h' =>
    cases a with
    | set => rfl
    | _ => cases hset

theorem run_isSet (hs : s.registry.isSet = true) (xs : List Access) :
    (s.run xs).registry.isSet = true := by
  induction xs generalizing s with
  | nil => exact hs
  | cons a xs ih => exact ih (move_isSet hs)

/-! ### Consoles -/

def console (id : Nat) : Handler := ⟨.standard id 0, consoleName⟩

/-- The registry has made a console only if its slot is no longer empty, and what is in the slot was
set or is that console. -/
structure Sparing (id : Nat) (sets : List Handler) (r : Registry) : Prop where
  id_eq : r.id = id
  none_made : r.active = none → r.made = 0
  made_le_one : r.made ≤ 1
  of_active : ∀ h, r.active = some h → h ∈ sets ∨ h = console id

theorem Sparing.current {id : Nat} {sets : List Handler} (hr : Sparing id sets r)
    (hc : r.current = (r', h)) : Sparing id sets r' := by
  cases ha : r.active with
  | some h₀ =>
    rw [current_of_active ha] at hc
    cases hc
    exact hr
  | none =>
    have hmade := hr.none_made ha
    rw [current_of_empty ha, fill, ha] at hc
    cases hc
    refine ⟨hr.id_eq, fun hn => (by cases hn), ?_, fun h₁ h₁_eq => .inr ?_⟩
    · show r.made + 1 ≤ 1
      omega
    · obtain rfl := Option.some.inj h₁_eq
      rw [standard, hmade, hr.id_eq, console]

theorem Goes.sparing {id : Nat} {sets : List Handler} {o : Option Atom} {s' : Shared}
    (hg : Goes s a o s') (hr : Sparing id sets s.registry) :
    Sparing id (sets ++ a.set?.toList) s'.registry := by
  cases hg with
  | idle ha => rw [ha, Option.toList_none, List.append_nil]; exact hr
  | called | missed =>
    show Sparing id (sets ++ []) s.registry
    rw [List.append_nil]
    exact hr
  | set h =>
    refine ⟨hr.id_eq, fun hn => (by cases hn), hr.made_le_one, fun h₁ h₁_eq => .inl ?_⟩
    obtain rfl := Option.some.inj h₁_eq
    exact List.mem_append_right _ List.mem_cons_self
  | given ha _ hc =>
    rw [ha, Option.toList_none, List.append_nil]
    exact hr.current hc

theorem Sparing.run {id : Nat} {sets : List Handler} (hr : Sparing id sets s.registry)
    (xs : List Access) : Sparing id (sets ++ xs.filterMap Access.set?) (s.run xs).registry := by
  induction xs generalizing s sets with
  | nil => rw [List.filterMap_nil, List.append_nil]; exact hr
  | cons a xs ih =>
    have h := ih ((s.goes a).sparing hr)
    rw [List.append_assoc] at h
    cases ha : a.set? with
    | none => rw [List.filterMap_cons_none ha]; rwa [ha] at h
    | some h₀ => rw [List.filterMap_cons_some ha]; rwa [ha] at h

theorem sparing_run (id : Nat) (xs : List Access) :
    Sparing id (xs.filterMap Access.set?) ((start id).run xs).registry := by
  have hstart : Sparing id [] (start id).registry :=
    ⟨rfl, fun _ => rfl, Nat.zero_le 1, fun _ hn => (by cases hn)⟩
  exact hstart.run xs

/-! ### Uses -/

/-- What a caller was given in the order of the instants. -/
def handed (caller : Nat) (as : List Atom) : List Handler := as.filterMap (·.handed? caller)

theorem Goes.handed {o : Option Atom} {s' : Shared} (hg : Goes s a o s') (caller : Nat) :
    (s.use caller).given?.toList ++ Shared.handed caller o.toList =
      (s'.use caller).given?.toList := by
  cases hg with
  | idle | set => exact List.append_nil _
  | @called c hu | @missed c hu =>
    by_cases hc : caller = c
    · subst hc
      rw [turn_self, hu]
      rfl
    · rw [turn_ne hc]
      exact List.append_nil _
  | @given _ c h r _ hu =>
    by_cases hc : caller = c
    · subst hc
      have hnone : (s.use caller).given? = none := by rcases hu with hu | hu <;> rw [hu] <;> rfl
      rw [hnone]
      simp [Shared.handed, Atom.handed?, turn, Use.given?]
    · have hnone : Shared.handed caller (some (Atom.use c h)).toList = [] := by
        simp [Shared.handed, Atom.handed?, Ne.symm hc]
      rw [hnone, List.append_nil]
      exact congrArg (fun u => u.given?.toList) (turn_ne (s := s) hc (.given h)).symm

/-- A caller is given what it has, and once. -/
theorem handed_order (s : Shared) (xs : List Access) (caller : Nat) :
    (s.use caller).given?.toList ++ handed caller (s.order xs) =
      ((s.run xs).use caller).given?.toList := by
  induction xs generalizing s with
  | nil => exact List.append_nil _
  | cons a xs ih =>
    rw [order, handed, List.filterMap_append, ← List.append_assoc]
    have hgoes := (s.goes a).handed caller
    rw [handed] at hgoes
    rw [hgoes]
    exact ih (s.move a)

theorem active_of_given (hu : s.use caller ≠ .given h) (hg : (s.run xs).use caller = .given h) :
    ∃ ys zs, xs = ys ++ zs ∧ (s.run ys).registry.active = some h := by
  induction xs generalizing s with
  | nil => exact absurd hg hu
  | cons a xs ih =>
    by_cases hmove : (s.move a).use caller = .given h
    · refine ⟨[a], xs, rfl, ?_⟩
      show (s.move a).registry.active = some h
      have hgoes := s.goes a
      generalize s.atom? a = o at hgoes
      generalize s.move a = s' at hgoes hmove
      cases hgoes with
      | idle | set => exact absurd hmove hu
      | @called c _ | @missed c _ =>
        by_cases hc : caller = c
        · subst hc
          rw [turn_self] at hmove
          cases hmove
        · rw [turn_ne hc] at hmove
          exact absurd hmove hu
      | @given _ c h₁ r _ _ hcur =>
        by_cases hc : caller = c
        · subst hc
          obtain rfl : h₁ = h := Use.given.inj ((turn_self s caller (.given h₁)).symm.trans hmove)
          exact active_of_current hcur
        · exact absurd ((turn_ne (s := s) hc (.given h₁)).symm.trans hmove) hu
    · obtain ⟨ys, zs, rfl, hys⟩ := ih hmove hg
      exact ⟨a :: ys, zs, rfl, hys⟩

theorem Goes.reached_le {o : Option Atom} {s' : Shared} (hg : Goes s a o s') (caller : Nat) :
    (s.use caller).reached ≤ (s'.use caller).reached := by
  cases hg with
  | idle | set => exact Nat.le_refl _
  | @called c hu | @missed c hu =>
    by_cases hc : caller = c
    · subst hc
      rw [turn_self, hu]
      decide
    · exact Nat.le_of_eq (congrArg Use.reached (turn_ne hc _).symm)
  | @given _ c h r _ hu =>
    by_cases hc : caller = c
    · subst hc
      show _ ≤ ((s.turn caller (.given h)).use caller).reached
      rw [turn_self]
      rcases hu with hu | hu <;> rw [hu]
      · exact Nat.le_add_left 1 2
      · exact Nat.le_succ 2
    · exact Nat.le_of_eq (congrArg Use.reached (turn_ne (s := s) hc (.given h)).symm)

theorem reached_run (s : Shared) (xs : List Access) (caller : Nat) :
    (s.use caller).reached ≤ ((s.run xs).use caller).reached := by
  induction xs generalizing s with
  | nil => exact Nat.le_refl _
  | cons a xs ih => exact Nat.le_trans ((s.goes a).reached_le caller) (ih (s.move a))

theorem reached_look (hu : 1 ≤ (s.use caller).reached) :
    2 ≤ ((s.move (.look caller)).use caller).reached := by
  unfold move
  dsimp only
  cases hs : s.use caller with
  | absent => rw [hs] at hu; cases hu
  | called =>
    dsimp only
    split <;> rw [turn_self]
    · exact Nat.le_succ 2
    · exact Nat.le_refl 2
  | missed | given => simp [hs, Use.reached]

theorem given_fill (hu : 2 ≤ (s.use caller).reached) :
    ∃ h, (s.move (.fill caller)).use caller = .given h := by
  unfold move
  dsimp only
  cases hs : s.use caller with
  | absent => rw [hs] at hu; cases hu
  | called => rw [hs] at hu; simp [Use.reached] at hu
  | missed => exact ⟨_, turn_self ..⟩
  | given h => exact ⟨h, hs⟩

theorem called_of_absent (hu : s.use caller = .absent) :
    (s.move (.call caller)).use caller = .called := by
  rw [move, hu]
  exact turn_self ..

end Shared

/-- The shared registry `id` is one slot, whatever its users do in whatever order. -/
structure OneSlot (id : Nat) : Prop where
  /-- There is an order in which each thing that is done takes no time. -/
  plays (xs : List Access) :
    Plays (.empty id) ((Shared.start id).order xs) ((Shared.start id).run xs).registry
  /-- Handlers are set in that order, -/
  sets_order (xs : List Access) :
    ((Shared.start id).order xs).filterMap Atom.set? = xs.filterMap Access.set?
  /-- and each caller has what it was given in it, and was given it once. -/
  handed_order (xs : List Access) (caller : Nat) :
    Shared.handed caller ((Shared.start id).order xs) =
      (((Shared.start id).run xs).use caller).given?.toList
  /-- What was done is done: what follows comes after it. -/
  order_grows (xs ys : List Access) :
    (Shared.start id).order xs <+: (Shared.start id).order (xs ++ ys)
  /-- A caller that has looked and come back to fill the slot has been given a handler. -/
  answered {before : List Access} {caller : Nat} (waiting wanting : List Access)
    (hu : ((Shared.start id).run before).use caller = .absent) :
    ∃ h, ((Shared.start id).run (before ++ .call caller :: waiting ++ .look caller :: wanting ++
      [.fill caller])).use caller = .given h
  /-- It is given the handler that the slot holds at some instant of its use. -/
  held (before during : List Access) {caller : Nat} {h : Handler}
    (hu : ((Shared.start id).run before).use caller = .absent)
    (hg : ((Shared.start id).run (before ++ .call caller :: during)).use caller = .given h) :
    ∃ earlier later, during = earlier ++ later ∧
      ((Shared.start id).run (before ++ .call caller :: earlier)).registry.active = some h
  /-- A handler stays in the slot until another is set. -/
  stays {before during : List Access} {h : Handler}
    (ha : ((Shared.start id).run before).registry.active = some h)
    (hset : during.filterMap Access.set? = []) :
    ((Shared.start id).run (before ++ during)).registry.active = some h
  /-- One console is made at most, -/
  made_le_one (xs : List Access) : ((Shared.start id).run xs).registry.made ≤ 1
  /-- and whatever else is given was set. -/
  of_given {xs : List Access} {caller : Nat} {h : Handler}
    (hg : ((Shared.start id).run xs).use caller = .given h) :
    h ∈ xs.filterMap Access.set? ∨ h = Shared.console id
  /-- Those that are given a handler while none is set are given the same one. -/
  same (before during : List Access) {c₁ c₂ : Nat} {h₁ h₂ : Handler}
    (hset : during.filterMap Access.set? = [])
    (hu₁ : (((Shared.start id).run before).use c₁).given? = none)
    (hu₂ : (((Shared.start id).run before).use c₂).given? = none)
    (hg₁ : ((Shared.start id).run (before ++ during)).use c₁ = .given h₁)
    (hg₂ : ((Shared.start id).run (before ++ during)).use c₂ = .given h₂) : h₁ = h₂
  /-- The slot is not empty again. -/
  isSet {xs : List Access} (ys : List Access)
    (hs : ((Shared.start id).run xs).registry.isSet = true) :
    ((Shared.start id).run (xs ++ ys)).registry.isSet = true

namespace Shared

theorem use_call_of_absent (hu : s.use caller = .absent) (xs : List Access) :
    1 ≤ ((s.run (.call caller :: xs)).use caller).reached := by
  have h := reached_run (s.move (.call caller)) xs caller
  rwa [called_of_absent hu] at h

theorem answered (hu : s.use caller = .absent) (xs ys : List Access) :
    ∃ h, (s.run (.call caller :: xs ++ .look caller :: ys ++ [.fill caller])).use caller =
      .given h := by
  rw [run_append, run_append]
  have hlook := reached_look (use_call_of_absent hu xs)
  exact given_fill (Nat.le_trans hlook (reached_run _ ys caller))

/-- The handler that a caller is given while none is set is in the slot afterwards. -/
theorem active_of_given_of_unset (hset : xs.filterMap Access.set? = [])
    (hu : (s.use caller).given? = none) (hg : (s.run xs).use caller = .given h) :
    (s.run xs).registry.active = some h := by
  obtain ⟨ys, zs, rfl, ha⟩ := active_of_given (fun hu' => by rw [hu'] at hu; cases hu) hg
  rw [List.filterMap_append, List.append_eq_nil_iff] at hset
  rw [run_append]
  exact run_active ha hset.2

theorem set_or_console_of_given {id : Nat} (hg : ((start id).run xs).use caller = .given h) :
    h ∈ xs.filterMap Access.set? ∨ h = console id := by
  obtain ⟨ys, zs, rfl, ha⟩ := active_of_given (s := start id) (fun hu => by cases hu) hg
  rw [List.filterMap_append]
  exact ((sparing_run id ys).of_active h ha).imp_left (List.mem_append_left _)

end Shared

/-- The registry is one slot with a console that is made once, although a first use takes two
steps. -/
theorem atomic_slot (id : Nat) : OneSlot id where
  plays xs := Shared.plays_run (.start id) xs
  sets_order xs := Shared.sets_order (.start id) xs
  handed_order xs caller := Shared.handed_order (.start id) xs caller
  order_grows xs ys := by
    rw [Shared.order_append]
    exact List.prefix_append ..
  answered waiting wanting hu := by
    rw [List.append_assoc, List.append_assoc, Shared.run_append, ← List.append_assoc]
    exact Shared.answered hu waiting wanting
  held before during caller h hu hg := by
    rw [Shared.run_append] at hg
    have hne : (((Shared.start id).run before).move (.call caller)).use caller ≠ .given h := by
      rw [Shared.called_of_absent hu]
      exact fun hu' => by cases hu'
    obtain ⟨earlier, later, rfl, ha⟩ := Shared.active_of_given hne hg
    refine ⟨earlier, later, rfl, ?_⟩
    rw [Shared.run_append]
    exact ha
  stays ha hset := by
    rw [Shared.run_append]
    exact Shared.run_active ha hset
  made_le_one xs := (Shared.sparing_run id xs).made_le_one
  of_given hg := Shared.set_or_console_of_given hg
  same before during _ _ _ _ hset hu₁ hu₂ hg₁ hg₂ := by
    rw [Shared.run_append] at hg₁ hg₂
    have h₁ := Shared.active_of_given_of_unset hset hu₁ hg₁
    have h₂ := Shared.active_of_given_of_unset hset hu₂ hg₂
    exact Option.some.inj (h₁.symm.trans h₂)
  isSet ys hs := by
    rw [Shared.run_append]
    exact Shared.run_isSet hs ys

/-- Two callers find the slot empty. One makes the console, and a handler is set before the other
comes back: the other is given that handler, and a third that comes later the same one. -/
def racingUses (h : Handler) : List Access :=
  [.call 1, .call 2, .look 1, .look 2, .fill 1, .set h] ++ [.fill 2, .call 3, .look 3]

theorem atomic_slot_racingUses :
    let denier : Handler := ⟨.given 0, "auto-deny"⟩
    let s := (Shared.start 0).run (racingUses denier)
    s.use 1 = .given (Shared.console 0) ∧ s.use 2 = .given denier ∧ s.use 3 = .given denier ∧
      (∃ earlier later, [Access.look 1, .look 2, .fill 1, .set denier, .fill 2, .call 3, .look 3] =
        earlier ++ later ∧ ((Shared.start 0).run
          ([.call 1] ++ .call 2 :: earlier)).registry.active = some denier) ∧
      ∀ h₂ h₃, s.use 2 = .given h₂ → s.use 3 = .given h₃ → h₂ = h₃ := by
  intro denier s
  refine ⟨rfl, rfl, rfl, ?_, fun h₂ h₃ hg₂ hg₃ => ?_⟩
  · exact (atomic_slot 0).held [.call 1] _ rfl rfl
  · exact (atomic_slot 0).same [.call 1, .call 2, .look 1, .look 2, .fill 1, .set denier]
      [.fill 2, .call 3, .look 3] rfl rfl rfl hg₂ hg₃

end GatedCalls.Registry
