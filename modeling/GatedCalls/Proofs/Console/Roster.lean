import GatedCalls.Proofs.Console.Turn

/-!
# Who is in flight, who was asked and who has an answer

A run of a console is a list of events, each in the state that the ones before led to. `Roster`
holds of every run in which no two requests bear the same number: a request in flight has no answer
yet, it is asked at most once, and only when it holds the console; the one that waits for its line,
or has it, is the last that was asked. A request that is no longer in flight stays so: nothing is
asked or decided in its name again (`gone_acts`).
-/

namespace GatedCalls.Console

/-- The state after the events. -/
def after (c : Console) : List Event → Console
  | [] => c
  | e :: es => after (c.step e).1 es

/-- What is done in answer to the events. -/
def acts (c : Console) : List Event → List Act
  | [] => []
  | e :: es => (c.step e).2 ++ acts (c.step e).1 es

def Event.request? : Event → Option Nat
  | .request r => some r.id
  | _ => none

def Act.question? : Act → Option Nat
  | .asked id => some id
  | _ => none

def requestIds (es : List Event) : List Nat := es.filterMap Event.request?

/-- The requests whose reads were started, in order. -/
def questions (as : List Act) : List Nat := as.filterMap Act.question?

/-- Whether the act is about the request. -/
def Act.Concerns (id : Nat) : Act → Prop
  | .asked i | .decided i _ => i = id
  | .wrote _ | .discarded _ => False

/-- Whether the read for the question was started. -/
def Phase.isAsked : Phase → Bool
  | .awaiting | .reporting _ => true
  | .admitted | .discarding | .asking => false

structure Roster (es : List Event) (c : Console) (as : List Act) : Prop where
  fits : c.holder.Fits c.input
  known : ∀ r ∈ c.requests, r.id ∈ requestIds es
  distinct : (c.requests.map Request.id).Nodup
  undecided : ∀ r ∈ c.requests, ∀ result, .decided r.id result ∉ as
  answered : ∀ id result, .decided id result ∈ as → id ∈ requestIds es
  made : ∀ id ∈ questions as, id ∈ requestIds es
  once : (questions as).Nodup
  waits : ∀ r ∈ c.waiting, r.id ∉ questions as
  unasked : ∀ r p, c.holder = .held r p → p.isAsked = false → r.id ∉ questions as
  last : ∀ r p, c.holder = .held r p → p.isAsked = true → (questions as).getLast? = some r.id

variable {c c' : Console} {e : Event} {es es' : List Event} {as new : List Act} {id : Nat}

theorem after_append (es es' : List Event) : c.after (es ++ es') = (c.after es).after es' := by
  induction es generalizing c with
  | nil => rfl
  | cons e es ih => exact ih

theorem acts_append (es es' : List Event) :
    c.acts (es ++ es') = c.acts es ++ (c.after es).acts es' := by
  induction es generalizing c with
  | nil => rfl
  | cons e es ih =>
    show (c.step e).2 ++ (c.step e).1.acts (es ++ es') = _
    rw [ih, ← List.append_assoc]
    rfl

theorem fits_after (hf : c.holder.Fits c.input) (es : List Event) :
    (c.after es).holder.Fits (c.after es).input := by
  induction es generalizing c with
  | nil => exact hf
  | cons e es ih => exact ih ((step_turn hf e).fits hf)

theorem step_of_mem_acts {a : Act} (ha : a ∈ c.acts es) :
    ∃ before e rest, es = before ++ e :: rest ∧ a ∈ ((c.after before).step e).2 := by
  induction es generalizing c with
  | nil => cases ha
  | cons e es ih =>
    rcases List.mem_append.1 ha with ha | ha
    · exact ⟨[], e, es, rfl, ha⟩
    · obtain ⟨before, e', rest, rfl, hstep⟩ := ih ha
      exact ⟨e :: before, e', rest, rfl, hstep⟩

theorem requestIds_concat (es : List Event) (e : Event) :
    requestIds (es ++ [e]) = requestIds es ++ e.request?.toList := by
  unfold requestIds
  rw [List.filterMap_append]
  cases e <;> rfl

theorem nodup_left (hn : (requestIds (es ++ es')).Nodup) : (requestIds es).Nodup := by
  rw [requestIds, List.filterMap_append] at hn
  exact (List.nodup_append.1 hn).1

theorem questions_append (as new : List Act) :
    questions (as ++ new) = questions as ++ questions new :=
  List.filterMap_append

namespace Turn

theorem requests (ht : Turn c e new c') :
    (∃ r, e = .request r ∧ c'.requests = c.requests ++ [r]) ∨
      e.request? = none ∧ c'.requests.Sublist c.requests := by
  cases ht with
  | request r => exact .inl ⟨r, rfl, (List.append_assoc ..).symm⟩
  | feed | close => exact .inr ⟨rfl, List.Sublist.refl _⟩
  | rest e he => exact .inr ⟨by rcases he with rfl | ⟨f, rfl⟩ <;> rfl, List.Sublist.refl _⟩
  | drop id h => exact .inr ⟨rfl, (List.Sublist.refl _).append List.filter_sublist⟩
  | leave r h | retract r p h =>
    exact .inr ⟨rfl, List.filter_sublist.trans (List.sublist_append_right _ _)⟩
  | give r more h hw =>
    refine .inr ⟨rfl, ?_⟩
    simp [Console.requests, Holder.request?, h, hw]
  | owe r h | ready r h | discard r _ _ _ h | discardEnd r _ _ h | ask r _ h | collect r _ _ _ h =>
    refine .inr ⟨rfl, ?_⟩
    simp [Console.requests, Holder.request?, h, enter, withInput, closeInput]
  | discardFault | askClosed | collectEnd | collectFault | report | fail =>
    exact .inr ⟨rfl, List.sublist_append_right _ _⟩
  | notice name h | noticeFail name e h => exact .inr ⟨rfl, List.sublist_append_right _ _⟩

/-- What a turn decides is the request that holds the console, which then is no longer in flight. -/
theorem decided (ht : Turn c e new c') {result : Except ConfirmationError Bool}
    (hd : .decided id result ∈ new) :
    ∃ r p, c.holder = .held r p ∧ r.id = id ∧ c'.requests = c.waiting := by
  cases ht with
  | discardFault r _ _ _ h | collectEnd r _ _ h | collectFault r _ _ _ h | fail r _ _ h =>
    obtain ⟨rfl, -⟩ := Act.decided.inj (List.mem_singleton.1 hd)
    exact ⟨r, _, h, rfl, rfl⟩
  | askClosed r h | report r _ h =>
    simp only [List.mem_cons, reduceCtorEq, Act.decided.injEq, List.not_mem_nil, or_false,
      false_or] at hd
    exact ⟨r, _, h, hd.1.symm, rfl⟩
  | _ => simp at hd

theorem questions (ht : Turn c e new c') :
    Console.questions new = [] ∨ ∃ r, c.holder = .held r .asking ∧ c'.holder = .held r .awaiting ∧
      c'.waiting = c.waiting ∧ Console.questions new = [r.id] := by
  cases ht with
  | ask r rd h hi => exact .inr ⟨r, h, rfl, rfl, rfl⟩
  | _ => exact .inl rfl

theorem holder (ht : Turn c e new c') {r : Request} {p : Phase} (h : c'.holder = .held r p) :
    (p = .admitted ∧ r ∈ c.waiting ∧ Console.questions new = []) ∨
      ∃ p', c.holder = .held r p' ∧ (p.isAsked = p'.isAsked ∧ Console.questions new = [] ∨
        p = .awaiting ∧ p' = .asking ∧ Console.questions new = [r.id]) := by
  cases ht with
  | request | feed | close | rest | drop => exact .inr ⟨p, h, .inl ⟨rfl, rfl⟩⟩
  | leave | discardFault | askClosed | collectEnd | collectFault | report | fail | notice
  | noticeFail | retract => cases h
  | give r' more h' hw =>
    obtain ⟨rfl, rfl⟩ := Holder.held.inj h
    exact .inl ⟨rfl, by simp [hw], rfl⟩
  | owe r' h' | ready r' h' | discard r' _ _ _ h' | discardEnd r' _ _ h' | collect r' _ _ _ h' =>
    obtain ⟨rfl, rfl⟩ := Holder.held.inj h
    exact .inr ⟨_, h', .inl ⟨rfl, rfl⟩⟩
  | ask r' rd h' hi =>
    obtain ⟨rfl, rfl⟩ := Holder.held.inj h
    exact .inr ⟨_, h', .inr ⟨rfl, rfl, rfl⟩⟩

theorem waiting (ht : Turn c e new c') {r : Request} (h : r ∈ c'.waiting) :
    e = .request r ∨ r ∈ c.waiting := by
  cases ht with
  | request r' =>
    rcases List.mem_append.1 h with h | h
    · exact .inr h
    · exact .inl (by rw [List.mem_singleton.1 h])
  | drop | leave | retract => exact .inr (List.mem_filter.1 h).1
  | give r' more h' hw => exact .inr (hw ▸ List.mem_cons_of_mem _ h)
  | _ => exact .inr h

end Turn

theorem requests_of_held {r : Request} {p : Phase} (h : c.holder = .held r p) :
    c.requests = r :: c.waiting := by
  simp [requests, h, Holder.request?]

theorem mem_requests_of_held {r : Request} {p : Phase} (h : c.holder = .held r p) :
    r ∈ c.requests := by
  rw [requests_of_held h]
  exact List.mem_cons_self ..

namespace Roster

theorem start (p : Prompt) : Roster [] (ofPrompt p) [] where
  fits := fits_ofPrompt p
  known _ h := by cases h
  distinct := List.nodup_nil
  undecided _ h := by cases h
  answered _ _ h := by cases h
  made _ h := by cases h
  once := List.nodup_nil
  waits _ h := by cases h
  unasked _ _ h := by cases h
  last _ _ h := by cases h

theorem mem_requests {r : Request} (ht : Turn c e new c') (hr : r ∈ c'.requests) :
    r ∈ c.requests ∨ e = .request r := by
  rcases ht.requests with ⟨r', he, hq⟩ | ⟨-, hq⟩
  · rw [hq] at hr
    rcases List.mem_append.1 hr with hr | hr
    · exact .inl hr
    · exact .inr (by rw [he, List.mem_singleton.1 hr])
  · exact .inl (hq.subset hr)

theorem questions_of_none (hq : questions new = []) : questions (as ++ new) = questions as := by
  rw [questions_append, hq, List.append_nil]

theorem nodup_concat {l : List Nat} {i : Nat} (h : l.Nodup) (hi : i ∉ l) : (l ++ [i]).Nodup := by
  rw [List.nodup_append]
  refine ⟨h, by simp, fun a ha b hb => ?_⟩
  obtain rfl := List.mem_singleton.1 hb
  exact fun he => hi (he ▸ ha)

theorem waits_ne (h : Roster es c as) {r r' : Request} {p : Phase} (hh : c.holder = .held r' p)
    (hr : r ∈ c.waiting) : r.id ≠ r'.id := by
  have hdist := h.distinct
  rw [requests_of_held hh, List.map_cons, List.nodup_cons] at hdist
  exact fun hid => hdist.1 (hid ▸ List.mem_map_of_mem hr)

theorem known_held (h : Roster es c as) {r : Request} {p : Phase} (hh : c.holder = .held r p) :
    r.id ∈ requestIds es :=
  h.known r (mem_requests_of_held hh)

theorem fresh {r : Request} (hn : (requestIds (es ++ [.request r])).Nodup) :
    r.id ∉ requestIds es := by
  rw [requestIds_concat] at hn
  intro hmem
  exact (List.nodup_append.1 hn).2.2 _ hmem _ (List.mem_singleton_self _) rfl

theorem made_turn (h : Roster es c as) (ht : Turn c e new c') {i : Nat}
    (hi : i ∈ questions (as ++ new)) : i ∈ requestIds es := by
  rw [questions_append] at hi
  rcases List.mem_append.1 hi with hi | hi
  · exact h.made i hi
  · rcases ht.questions with hq | ⟨r, hh, -, -, hq⟩
    · rw [hq] at hi
      cases hi
    · rw [hq] at hi
      rw [List.mem_singleton.1 hi]
      exact h.known_held hh

theorem distinct_turn (h : Roster es c as) (ht : Turn c e new c')
    (hn : (requestIds (es ++ [e])).Nodup) : (c'.requests.map Request.id).Nodup := by
  rcases ht.requests with ⟨r, rfl, hq⟩ | ⟨-, hq⟩
  · rw [hq, List.map_append]
    refine nodup_concat h.distinct fun hmem => ?_
    obtain ⟨r', hr', hid⟩ := List.mem_map.1 hmem
    exact fresh hn (hid ▸ h.known r' hr')
  · exact (hq.map _).nodup h.distinct

theorem undecided_turn (h : Roster es c as) (ht : Turn c e new c')
    (hn : (requestIds (es ++ [e])).Nodup) {r : Request} (hr : r ∈ c'.requests)
    {result : Except ConfirmationError Bool} : .decided r.id result ∉ as ++ new := by
  intro hd
  rcases List.mem_append.1 hd with hd | hd
  · rcases mem_requests ht hr with hr | rfl
    · exact h.undecided r hr result hd
    · exact fresh hn (h.answered _ _ hd)
  · obtain ⟨r', p, hh, hid, hq⟩ := ht.decided hd
    rw [hq] at hr
    exact h.waits_ne hh hr hid.symm

theorem once_turn (h : Roster es c as) (ht : Turn c e new c') :
    (questions (as ++ new)).Nodup := by
  rw [questions_append]
  rcases ht.questions with hq | ⟨r, hh, -, -, hq⟩
  · rw [hq, List.append_nil]
    exact h.once
  · rw [hq]
    exact nodup_concat h.once (h.unasked r _ hh rfl)

theorem waits_turn (h : Roster es c as) (ht : Turn c e new c')
    (hn : (requestIds (es ++ [e])).Nodup) {r : Request} (hr : r ∈ c'.waiting) :
    r.id ∉ questions (as ++ new) := by
  intro hmem
  rcases ht.waiting hr with rfl | hr
  · exact fresh hn (h.made_turn ht hmem)
  · rw [questions_append] at hmem
    rcases List.mem_append.1 hmem with hmem | hmem
    · exact h.waits r hr hmem
    · rcases ht.questions with hq | ⟨r', hh, -, -, hq⟩
      · rw [hq] at hmem
        cases hmem
      · rw [hq] at hmem
        exact h.waits_ne hh hr (List.mem_singleton.1 hmem)

theorem turn (h : Roster es c as) (ht : Turn c e new c')
    (hn : (requestIds (es ++ [e])).Nodup) : Roster (es ++ [e]) c' (as ++ new) := by
  have grows : ∀ i ∈ requestIds es, i ∈ requestIds (es ++ [e]) := by
    intro i hi
    rw [requestIds_concat]
    exact List.mem_append_left _ hi
  exact {
    fits := ht.fits h.fits
    known := by
      intro r hr
      rcases mem_requests ht hr with hr | rfl
      · exact grows _ (h.known r hr)
      · rw [requestIds_concat]
        exact List.mem_append_right _ (List.mem_singleton_self _)
    distinct := h.distinct_turn ht hn
    undecided := fun r hr result => h.undecided_turn ht hn hr
    answered := by
      intro i result hd
      rcases List.mem_append.1 hd with hd | hd
      · exact grows _ (h.answered i result hd)
      · obtain ⟨r, p, hh, rfl, -⟩ := ht.decided hd
        exact grows _ (h.known_held hh)
    made := fun i hi => grows i (h.made_turn ht hi)
    once := h.once_turn ht
    waits := fun r hr => h.waits_turn ht hn hr
    unasked := by
      intro r p hh hp
      rcases ht.holder hh with ⟨-, hr, hq⟩ | ⟨p', hh', ⟨hp', hq⟩ | ⟨rfl, -⟩⟩
      · rw [questions_of_none hq]
        exact h.waits r hr
      · rw [questions_of_none hq]
        exact h.unasked r p' hh' (hp' ▸ hp)
      · cases hp
    last := by
      intro r p hh hp
      rcases ht.holder hh with ⟨rfl, -⟩ | ⟨p', hh', ⟨hp', hq⟩ | ⟨-, -, hq⟩⟩
      · cases hp
      · rw [questions_of_none hq]
        exact h.last r p' hh' (hp' ▸ hp)
      · rw [questions_append, hq, List.getLast?_concat] }

theorem run (h : Roster es c as) (hn : (requestIds (es ++ es')).Nodup) :
    Roster (es ++ es') (c.after es') (as ++ c.acts es') := by
  induction es' generalizing es c as with
  | nil => simpa [after, acts] using h
  | cons e es' ih =>
    rw [List.append_cons] at hn
    have := ih (h.turn (step_turn h.fits e) (nodup_left hn)) hn
    rwa [List.append_assoc, List.append_assoc] at this

end Roster

/-! ### Requests that are no longer in flight -/

/-- Nothing is asked or decided in the name of a request that is not in flight. -/
theorem Turn.not_concerns (ht : Turn c e new c') (hid : ∀ r ∈ c.requests, r.id ≠ id) :
    ∀ a ∈ new, ¬ a.Concerns id := by
  intro a ha hc
  cases a with
  | wrote | discarded => exact hc
  | asked i =>
    obtain rfl : i = id := hc
    have hmem : i ∈ Console.questions new := List.mem_filterMap.2 ⟨_, ha, rfl⟩
    rcases ht.questions with hq | ⟨r, hh, -, -, hq⟩
    · rw [hq] at hmem
      cases hmem
    · rw [hq] at hmem
      exact hid r (mem_requests_of_held hh) (List.mem_singleton.1 hmem).symm
  | decided i result =>
    obtain rfl : i = id := hc
    obtain ⟨r, p, hh, hr, -⟩ := ht.decided ha
    exact hid r (mem_requests_of_held hh) hr

theorem Turn.gone (ht : Turn c e new c') (hid : ∀ r ∈ c.requests, r.id ≠ id)
    (he : e.request? ≠ some id) : ∀ r ∈ c'.requests, r.id ≠ id := by
  intro r hr hri
  rcases Roster.mem_requests ht hr with hr | rfl
  · exact hid r hr hri
  · exact he (congrArg some hri)

theorem gone_acts (hf : c.holder.Fits c.input) (hid : ∀ r ∈ c.requests, r.id ≠ id)
    (hes : id ∉ requestIds es) : ∀ a ∈ c.acts es, ¬ a.Concerns id := by
  induction es generalizing c with
  | nil => intro a ha; cases ha
  | cons e es ih =>
    have ht := step_turn hf e
    have he : e.request? ≠ some id := fun h => hes (List.mem_filterMap.2 ⟨e, by simp, h⟩)
    have hes' : id ∉ requestIds es := fun h => by
      obtain ⟨e', he', h⟩ := List.mem_filterMap.1 h
      exact hes (List.mem_filterMap.2 ⟨e', List.mem_cons_of_mem _ he', h⟩)
    intro a ha
    rcases List.mem_append.1 ha with ha | ha
    · exact ht.not_concerns hid a ha
    · exact ih (ht.fits hf) (ht.gone hid he) hes' a ha

theorem Turn.cancelled (ht : Turn c (.cancel id) new c') :
    new = [] ∧ ∀ r ∈ c'.requests, r.id ≠ id := by
  have waits (r : Request) (hr : r ∈ c.waiting.filter (·.id != id)) : r.id ≠ id := by
    simpa using (List.mem_filter.1 hr).2
  cases ht with
  | drop _ h =>
    refine ⟨rfl, fun r hr => ?_⟩
    rcases List.mem_append.1 hr with hr | hr
    · cases hh : c.holder with
      | held r' p =>
        obtain rfl : r = r' := by simpa [without, hh, Holder.request?] using hr
        exact h r p hh
      | free | retracting => simp [without, hh, Holder.request?] at hr
    · exact waits r hr
  | leave r' h | retract r' p h => exact ⟨rfl, fun r hr => waits r hr⟩
  | rest _ he => rcases he with he | ⟨f, he⟩ <;> cases he

/-! ### Coming to rest -/

/-- A console can go on by itself until it can do nothing more. -/
theorem exists_settled (c : Console) : ∃ es', (∀ e ∈ es', e = .advance ∨ e = .written none) ∧
    move? none (c.after es') = none := by
  induction hn : c.rank using Nat.strongRecOn generalizing c with
  | ind n ih =>
    cases hm : move? none c with
    | none => exact ⟨[], by simp, hm⟩
    | some q =>
      obtain ⟨c', as⟩ := q
      obtain ⟨es', hes, hs⟩ := ih _ (hn ▸ rank_move?_lt hm) c' rfl
      rcases Option.or_eq_some_iff.1 hm with hw | ⟨-, ha⟩
      · refine ⟨.written none :: es', fun e he => ?_, ?_⟩
        · rcases List.mem_cons.1 he with rfl | he
          · exact .inr rfl
          · exact hes e he
        · simpa [after, step, hw] using hs
      · refine ⟨.advance :: es', fun e he => ?_, ?_⟩
        · rcases List.mem_cons.1 he with rfl | he
          · exact .inl rfl
          · exact hes e he
        · simpa [after, step, ha] using hs

/-- A console that can do nothing by itself has written all it had to, and waits for a line if a
request holds it. -/
theorem settled_cases (h : move? none c = none) {r : Request} {q : Phase}
    (hh : c.holder = .held r q) : (q = .discarding ∧ c.discard? r = none) ∨
      (q = .awaiting ∧ c.collect? r = none) := by
  obtain ⟨hw, ha⟩ := Option.or_eq_none_iff.1 h
  cases q with
  | admitted => simp [advance?, hh] at ha
  | discarding => exact .inl ⟨rfl, by simpa [advance?, hh] using ha⟩
  | asking | reporting => simp [written?, hh] at hw
  | awaiting => exact .inr ⟨rfl, by simpa [advance?, hh] using ha⟩

/-- The events are steps that the console makes by itself. -/
def Goes (c : Console) : List Event → Prop
  | [] => True
  | e :: es => ((e = .advance ∧ c.advance? ≠ none) ∨ ∃ f, e = .written f ∧ written? f c ≠ none) ∧
    Goes (c.step e).1 es

theorem Goes.length_le (h : c.Goes es) : es.length ≤ c.rank := by
  induction es generalizing c with
  | nil => exact Nat.zero_le _
  | cons e es ih =>
    have hlt : (c.step e).1.rank < c.rank := by
      rcases h.1 with ⟨rfl, ha⟩ | ⟨f, rfl, hw⟩
      · obtain ⟨q, hq⟩ := Option.ne_none_iff_exists'.1 ha
        rw [step, hq]
        exact rank_advance?_lt hq
      · obtain ⟨q, hq⟩ := Option.ne_none_iff_exists'.1 hw
        rw [step, hq]
        exact rank_written?_lt hq
    have hle := ih h.2
    rw [List.length_cons]
    omega

def Holder.isWriting : Holder → Bool
  | .held _ .asking | .held _ (.reporting _) | .retracting _ => true
  | .free | .held _ .admitted | .held _ .discarding | .held _ .awaiting => false

/-- Whether something is being written does not depend on what comes of it. -/
theorem written?_eq_none_iff (f : Option String) :
    written? f c = none ↔ c.holder.isWriting = false := by
  cases hh : c.holder with
  | held r q => cases q <;> cases f <;> simp [written?, hh, Holder.isWriting]
  | retracting name => cases f <;> simp [written?, hh, Holder.isWriting]
  | free => simp [written?, hh, Holder.isWriting]

theorem goes_of_move? (h : move? none c ≠ none) (f : Option String) :
    ∃ e, (e = .advance ∨ e = .written f) ∧ c.Goes [e] := by
  cases hw : written? f c with
  | some q => exact ⟨_, .inr rfl, .inr ⟨f, rfl, by simp [hw]⟩, trivial⟩
  | none =>
    refine ⟨_, .inl rfl, .inl ⟨rfl, fun ha => h ?_⟩, trivial⟩
    rw [written?_eq_none_iff, ← written?_eq_none_iff none] at hw
    rw [move?, hw, ha]
    rfl

end GatedCalls.Console
