import GatedCalls.Proofs.Dispatch.Gate

/-!
# What observers are told of a call

The events about one call spell a word, which the relation `Entry.Word` lists together with what
the handler and the tool answered and what the caller got. They are all read off the story of the
call: while it has not returned its story is `Pending`, and its events are the beginning of a word;
when it has returned its story is `Done`, and they are a whole one. A call that was given up stays
pending for good, and one that is refused at once shows nothing but that.
-/

namespace GatedCalls

variable {β : Type}

/-! ### Reading a run -/

/-- The event about the call in an effect. -/
def Effect.event? (id : Nat) : Effect β → Option DispatchEvent
  | .emitted event => if event.call = id then some event else none
  | _ => none

def Effect.result? (id : Nat) : Effect β → Option (Except DispatchError Response)
  | .returned i result => if i = id then some result else none
  | _ => none

/-- What the tool that the call waits for answers. -/
def Moment.finish? (m : Moment β) (id : Nat) : Option (Except ToolError Response) :=
  match m.action with
  | .finish i result =>
    if i = id ∧ (m.engine.call? id).any (·.awaitsTool false) then some result else none
  | .reply i result =>
    if i = id ∧ (m.engine.call? id).any (·.awaitsTool true) then some (remoteOutcome result)
    else none
  | _ => none

def events (id : Nat) (ms : List (Moment β)) : List DispatchEvent :=
  (ms.flatMap Moment.effects).filterMap (Effect.event? id)

def returns (id : Nat) (ms : List (Moment β)) : List (Except DispatchError Response) :=
  (ms.flatMap Moment.effects).filterMap (Effect.result? id)

/-- What the tool of the call answers in a run. -/
def outcomes (id : Nat) (ms : List (Moment β)) : List (Except ToolError Response) :=
  ms.filterMap (·.finish? id)

/-! ### Words -/

/-- The event that tells how a tool ended. -/
def DispatchEvent.Kind.ofOutcome : Except ToolError Response → Kind
  | .ok output => .completed output
  | .error err => .failed err.message

namespace Entry

/-- What the caller gets when the tool has ended. -/
def result (x : Entry β) : Except ToolError Response → Except DispatchError Response
  | .ok output => .ok output
  | .error err => .error (.tool x.name err)

/-- The events about a call that returned, in order, what its handler and its tool answered, and its
result. -/
inductive Word (x : Entry β) (args : Args) : List DispatchEvent.Kind →
    List (Except ConfirmationError Bool) → List (Except ToolError Response) →
    Except DispatchError Response → Prop
  | ungated (h : x.gated = false) (outcome : Except ToolError Response) :
    Word x args [.requested args, .ofOutcome outcome] [] [outcome] (x.result outcome)
  | granted (h : x.gated = true) (handler : String) (outcome : Except ToolError Response) :
    Word x args [.requested args, .confirmationRequested handler, .confirmationGranted,
      .ofOutcome outcome] [.ok true] [outcome] (x.result outcome)
  | declined (h : x.gated = true) (handler : String) :
    Word x args [.requested args, .confirmationRequested handler, .confirmationDeclined]
      [.ok false] [] (.ok (Response.declined x.name))
  | unconfirmed (h : x.gated = true) (handler : String) (err : ConfirmationError) :
    Word x args [.requested args, .confirmationRequested handler, .confirmationFailed err.message]
      [.error err] [] (.error (.confirmation x.name err))

variable {x : Entry β} {args : Args} {w w' : List DispatchEvent.Kind}
  {a a' : List (Except ConfirmationError Bool)} {o o' : List (Except ToolError Response)}
  {result result' : Except DispatchError Response}

theorem Word.eq_of_prefix (h : x.Word args w a o result) (h' : x.Word args w' a' o' result')
    (hp : w <+: w') : w = w' := by
  cases h with
  | ungated hg outcome | granted hg handler outcome =>
    cases outcome <;> cases h' <;> simp_all [DispatchEvent.Kind.ofOutcome]
  | declined hg handler | unconfirmed hg handler err => cases h' <;> simp_all

/-- The events about the call `id`, of these kinds. -/
def tell (x : Entry β) (id : Nat) (kinds : List DispatchEvent.Kind) : List DispatchEvent :=
  kinds.map fun kind => ⟨id, x.name, kind⟩

end Entry

/-! ### Reading a story -/

namespace Note

def event? (id : Nat) : Note β → Option DispatchEvent
  | .told name kind => some ⟨id, name, kind⟩
  | _ => none

def result? : Note β → Option (Except DispatchError Response)
  | .returned result => some result
  | _ => none

def finish? : Note β → Option (Except ToolError Response)
  | .finished result => some result
  | _ => none

def called? : Note β → Option (String × Args × Entry β)
  | .called name args x => some (name, args, x)
  | _ => none

end Note

variable {id : Nat} {m : Moment β} {ms : List (Moment β)} {r : Registry} {e : Engine β}
  {c : Call β} {s t : List (Note β)} {y : Standing β} {x : Entry β} {args : Args}

theorem events_story : events id ms = (story id ms).filterMap (Note.event? id) := by
  refine (shown_story (fun m n hn => ?_) fun z => ?_).symm
  · rcases Moment.mem_given hn with ⟨_, _, _, rfl, _⟩ | ⟨_, rfl, _⟩ | ⟨_, rfl⟩ | rfl <;> rfl
  · cases z with
    | emitted event =>
      obtain ⟨i, name, kind⟩ := event
      by_cases h : i = id <;> simp [Effect.note?, Note.event?, Effect.event?, h]
    | asked i | ran i | forwarded i | returned i =>
      by_cases h : i = id <;> simp [Effect.note?, Note.event?, Effect.event?, h]
    | _ => rfl

theorem returns_story : returns id ms = (story id ms).filterMap Note.result? := by
  refine (shown_story (fun m n hn => ?_) fun z => ?_).symm
  · rcases Moment.mem_given hn with ⟨_, _, _, rfl, _⟩ | ⟨_, rfl, _⟩ | ⟨_, rfl⟩ | rfl <;> rfl
  · cases z with
    | emitted event =>
      by_cases h : event.call = id <;> simp [Effect.note?, Note.result?, Effect.result?, h]
    | asked i | ran i | forwarded i | returned i =>
      by_cases h : i = id <;> simp [Effect.note?, Note.result?, Effect.result?, h]
    | _ => rfl

theorem Effect.finish?_note? (z : Effect β) : (z.note? id).bind Note.finish? = none := by
  cases z with
  | emitted event => by_cases h : event.call = id <;> simp [note?, Note.finish?, h]
  | asked i | ran i | forwarded i | returned i =>
    by_cases h : i = id <;> simp [note?, Note.finish?, h]
  | _ => rfl

theorem Moment.finish_notes : (m.notes id).filterMap Note.finish? = (m.finish? id).toList := by
  have hx : (m.effects.filterMap (Effect.note? id)).filterMap Note.finish? = [] := by
    rw [List.filterMap_filterMap]
    exact List.filterMap_eq_nil_iff.2 fun z _ => Effect.finish?_note? z
  have hcall (name : String) (args : Args) :
      (m.engine.callNote id name args).filterMap Note.finish? = [] := by
    refine List.filterMap_eq_nil_iff.2 fun n hn => ?_
    obtain ⟨entry, rfl, -⟩ := mem_callNote hn
    rfl
  rw [notes, List.filterMap_append, hx, List.append_nil]
  unfold given finish?
  cases m.action with
  | invoke name args => exact hcall name args
  | invokeValue name v =>
    dsimp only
    split
    · exact hcall name _
    · rfl
  | answer i result | finish i result | reply i result | cancel i => dsimp only; split <;> rfl
  | _ => rfl

theorem outcomes_story : outcomes id ms = (story id ms).filterMap Note.finish? :=
  (given_story fun _ => Moment.finish_notes).symm

/-! ### Stories of calls that have not returned, and of calls that have -/

namespace Entry

/-- A story in which the call has not returned: its events are the beginning of a word. -/
structure Pending (x : Entry β) (args : Args) (id : Nat) (s : List (Note β)) : Prop where
  silent : s.filterMap Note.result? = []
  begun : ∃ w a o result, x.Word args w a o result ∧
    ∃ rest, rest ≠ [] ∧ x.tell id w = s.filterMap (Note.event? id) ++ rest

theorem Pending.of_word {w : List DispatchEvent.Kind} {a : List (Except ConfirmationError Bool)}
    {o : List (Except ToolError Response)} {result : Except DispatchError Response}
    (h : x.Word args w a o result) (n : Nat) (hn : n < w.length)
    (hs : s.filterMap Note.result? = [])
    (he : s.filterMap (Note.event? id) = x.tell id (w.take n)) : x.Pending args id s := by
  refine ⟨hs, w, a, o, result, h, x.tell id (w.drop n), fun hnil => ?_, ?_⟩
  · rw [tell, List.map_eq_nil_iff, List.drop_eq_nil_iff] at hnil
    exact absurd hn (Nat.not_lt.2 hnil)
  · rw [he, tell, tell, tell, ← List.map_append, List.take_append_drop]

/-- A story in which the call has returned: its events are a word. -/
structure Done (x : Entry β) (args : Args) (id : Nat) (s : List (Note β))
    (result : Except DispatchError Response) : Prop where
  returned : s.filterMap Note.result? = [result]
  whole : ∃ w, x.Word args w (s.filterMap Note.answer?) (s.filterMap Note.finish?) result ∧
    s.filterMap (Note.event? id) = x.tell id w
  kept : .cancelled ∉ s

theorem Clear.made (h : x.Clear args t) {more : List (Note β)}
    (hm : more.filterMap Note.called? = []) :
    (t ++ more).filterMap Note.called? = [(x.name, args, x)] := by
  rw [List.filterMap_append, hm]
  cases h <;> rfl

theorem Clear.read (h : x.Clear args t) (id : Nat) : t.filterMap Note.result? = [] ∧
    t.filterMap Note.finish? = [] ∧ ∃ w, t.filterMap (Note.event? id) = x.tell id w ∧
      ∀ outcome, x.Word args (w ++ [.ofOutcome outcome]) (t.filterMap Note.answer?) [outcome]
        (x.result outcome) := by
  cases h with
  | ungated hg => exact ⟨rfl, rfl, [.requested args], rfl, fun outcome => .ungated hg outcome⟩
  | granted hg handler =>
    exact ⟨rfl, rfl, [.requested args, .confirmationRequested handler.name, .confirmationGranted],
      rfl, fun outcome => .granted hg handler.name outcome⟩

theorem Clear.pending (h : x.Clear args t) {more : List (Note β)}
    (hr : more.filterMap Note.result? = []) (he : more.filterMap (Note.event? id) = []) :
    x.Pending args id (t ++ more) := by
  obtain ⟨ht, -, w, hw, hword⟩ := h.read id
  refine .of_word (hword (.error default)) w.length (by simp) ?_ ?_
  · rw [List.filterMap_append, ht, hr]
    rfl
  · rw [List.filterMap_append, he, List.append_nil, hw, List.take_left]

theorem Clear.done (h : x.Clear args t) (outcome : Except ToolError Response) (z : Effect β) :
    x.Done args id (t ++ [.executed z, .finished outcome, .told x.name (.ofOutcome outcome),
      .returned (x.result outcome)]) (x.result outcome) := by
  obtain ⟨ht, hf, w, hw, hword⟩ := h.read id
  refine ⟨?_, ⟨w ++ [.ofOutcome outcome], ?_, ?_⟩, ?_⟩
  · rw [List.filterMap_append, ht]
    rfl
  · rw [List.filterMap_append, List.filterMap_append, hf]
    show x.Word args _ (t.filterMap Note.answer? ++ []) [outcome] _
    rw [List.append_nil]
    exact hword outcome
  · rw [List.filterMap_append, hw, tell, tell, List.map_append]
    rfl
  · simp [h.not_cancelled]

end Entry

theorem Call.Tells.pending (h : c.Tells s) (id : Nat) :
    s.filterMap Note.called? = [(c.entry.name, c.args, c.entry)] ∧
      c.entry.Pending c.args id s := by
  obtain ⟨i, x, args, stage⟩ := c
  cases stage with
  | found =>
    obtain rfl : s = x.opening args := h
    refine ⟨rfl, ?_⟩
    cases hg : x.gated with
    | true => exact .of_word (.declined hg "") 0 (by simp) rfl rfl
    | false => exact .of_word (.ungated hg (.error default)) 0 (by simp) rfl rfl
  | gate | unset | chosen handler =>
    obtain ⟨hg, rfl⟩ : x.gated = true ∧ s = x.requested args := h
    exact ⟨rfl, .of_word (.declined hg "") 1 (by simp) rfl rfl⟩
  | presented handler =>
    obtain ⟨hg, rfl⟩ : x.gated = true ∧ s = x.presented args handler := h
    exact ⟨rfl, .of_word (.declined hg handler.name) 2 (by simp) rfl rfl⟩
  | asking handler =>
    obtain ⟨hg, rfl⟩ : x.gated = true ∧ s = x.asked args handler := h
    exact ⟨rfl, .of_word (.declined hg handler.name) 2 (by simp) rfl rfl⟩
  | answered result =>
    obtain ⟨hg, handler, rfl⟩ : x.gated = true ∧ ∃ handler, s = x.answered args handler result := h
    exact ⟨rfl, .of_word (.declined hg handler.name) 2 (by simp) rfl rfl⟩
  | cleared =>
    have hc : x.Clear args s := h
    rw [← List.append_nil s]
    exact ⟨hc.made rfl, hc.pending rfl rfl⟩
  | running =>
    obtain ⟨t, hc, rfl⟩ := h
    exact ⟨hc.made rfl, hc.pending rfl rfl⟩
  | ended result =>
    obtain ⟨t, hc, rfl⟩ := h
    exact ⟨hc.made rfl, hc.pending rfl rfl⟩

/-- The stories of a number that no call was made under. -/
def Unmade (s : List (Note β)) : Prop := s = [] ∨ ∃ err, s = [.returned (.error err)]

/-- The stories of a call of `x` with the arguments: it has not returned, or it has. -/
def Entry.Made (x : Entry β) (args : Args) (id : Nat) (s : List (Note β)) : Prop :=
  s.filterMap Note.called? = [(x.name, args, x)] ∧
    (x.Pending args id s ∨ ∃ result, x.Done args id s result)

theorem not_unmade_of_called {name : String} (hc : .called name args x ∈ s) : ¬ Unmade s := by
  rintro (rfl | ⟨err, rfl⟩) <;> simp at hc

/-- A story of one call tells of one tool and one list of arguments. -/
theorem called_unique {name : String} {args' : Args} {x' : Entry β} (hc : .called name args x ∈ s)
    (hs : s.filterMap Note.called? = [(x'.name, args', x')]) :
    name = x'.name ∧ args = args' ∧ x = x' := by
  have hin : (name, args, x) ∈ s.filterMap Note.called? := List.mem_filterMap.2 ⟨_, hc, rfl⟩
  rw [hs, List.mem_singleton] at hin
  simpa using hin

theorem Ended.read (h : Ended s) (id : Nat) :
    Unmade s ∨ ∃ x : Entry β, ∃ args, x.Made args id s := by
  cases h with
  | unused => exact .inl (.inl rfl)
  | refused err => exact .inl (.inr ⟨err, rfl⟩)
  | declined c hg handler =>
    refine .inr ⟨c.entry, c.args, rfl, .inr ⟨_, rfl, ?_, ?_⟩⟩
    · exact ⟨_, .declined hg handler.name, rfl⟩
    · simp [Entry.answered, Entry.asked, Entry.presented, Entry.requested, Entry.opening]
  | failed c hg handler err =>
    refine .inr ⟨c.entry, c.args, rfl, .inr ⟨_, rfl, ?_, ?_⟩⟩
    · exact ⟨_, .unconfirmed hg handler.name err, rfl⟩
    · simp [Entry.answered, Entry.asked, Entry.presented, Entry.requested, Entry.opening]
  | completed c hc output =>
    exact .inr ⟨c.entry, c.args, hc.made rfl, .inr ⟨_, hc.done (.ok output) _⟩⟩
  | broken c hc err =>
    exact .inr ⟨c.entry, c.args, hc.made rfl, .inr ⟨_, hc.done (.error err) _⟩⟩
  | withdrawn c hg handler =>
    refine .inr ⟨c.entry, c.args, rfl, .inl ?_⟩
    exact .of_word (.declined hg handler.name) 2 (by simp) rfl rfl
  | abandoned c hc => exact .inr ⟨c.entry, c.args, hc.made rfl, .inl (hc.pending rfl rfl)⟩

theorem Standing.Tells.read (h : y.Tells s) (id : Nat) :
    Unmade s ∨ ∃ x : Entry β, ∃ args, x.Made args id s := by
  cases y with
  | fresh => exact .inl (.inl h)
  | active c =>
    obtain ⟨hm, hp⟩ := Call.Tells.pending h id
    exact .inr ⟨c.entry, c.args, hm, .inl hp⟩
  | «over» => exact Ended.read h id

/-! ### The protocol -/

/-- What a run shows of the call `id` of the tool `x` with the arguments. -/
structure Protocol (run : List (Moment β)) (id : Nat) (x : Entry β) (args : Args) : Prop where
  /-- The events are a word or the beginning of one. -/
  begun : ∃ w a o result, x.Word args w a o result ∧ events id run <+: x.tell id w
  /-- They are a whole word just if the call has returned. -/
  whole : (∃ w a o result, x.Word args w a o result ∧ events id run = x.tell id w) ↔
    returns id run ≠ []
  /-- Then it returned once, with the result that the word goes with. -/
  agrees : ∀ result ∈ returns id run, returns id run = [result] ∧
    ∃ w, x.Word args w (answers id run) (outcomes id run) result ∧ events id run = x.tell id w
  /-- And the events are the beginning of no other word. -/
  sole : ∀ w w' a a' o o' result result', x.Word args w a o result → events id run = x.tell id w →
    x.Word args w' a' o' result' → events id run <+: x.tell id w' → w' = w
  /-- A call that was given up does not return. -/
  dropped : (∃ m ∈ run, m.Cancels id) → returns id run = []

theorem Entry.tell_prefix {w w' : List DispatchEvent.Kind} (h : x.tell id w <+: x.tell id w') :
    w <+: w' := by
  rw [List.prefix_iff_eq_take, tell, tell, List.length_map, ← List.map_take,
    List.map_inj_right fun _ _ h => congrArg DispatchEvent.kind h] at h
  rw [h]
  exact List.take_prefix ..

theorem Entry.Made.protocol (h : x.Made args id (story id ms)) : Protocol ms id x args := by
  obtain ⟨-, h⟩ := h
  have sole : ∀ w w' a a' o o' result result', x.Word args w a o result →
      events id ms = x.tell id w → x.Word args w' a' o' result' →
      events id ms <+: x.tell id w' → w' = w := by
    intro w w' a a' o o' result result' hw he hw' hp
    rw [he] at hp
    exact (hw.eq_of_prefix hw' (Entry.tell_prefix hp)).symm
  rcases h with ⟨hs, w, a, o, result, hw, rest, hrest, he⟩ | ⟨result, hs, ⟨w, hw, he⟩, hk⟩
  · rw [← returns_story] at hs
    rw [← events_story] at he
    have hp : events id ms <+: x.tell id w := ⟨rest, he.symm⟩
    refine ⟨⟨w, a, o, result, hw, hp⟩, ?_, ?_, sole, fun _ => hs⟩
    · refine iff_of_false ?_ (by simpa using hs)
      rintro ⟨w', a', o', result', hw', he'⟩
      obtain rfl := sole w' w a' a o' o result' result hw' he' hw hp
      rw [he', List.self_eq_append_right] at he
      exact hrest he
    · rw [hs]
      rintro result' hmem
      cases hmem
  · rw [← returns_story] at hs
    rw [← events_story] at he
    rw [← answers_story, ← outcomes_story] at hw
    refine ⟨⟨w, _, _, _, hw, he ▸ List.prefix_rfl⟩, ?_, ?_, sole, ?_⟩
    · exact iff_of_true ⟨w, _, _, _, hw, he⟩ (by simp [hs])
    · rw [hs]
      rintro result' hmem
      obtain rfl := List.mem_singleton.1 hmem
      exact ⟨rfl, w, hw, he⟩
    · rintro ⟨m, hm, hc⟩
      exact absurd (List.mem_flatMap.2 ⟨m, hm, hc.notes⟩) hk

namespace Moment

/-- A caller asks for a tool that there is not, or with arguments that are no object; the call has
the number `id`. -/
inductive Refuses (m : Moment β) (id : Nat) : DispatchError → Prop
  | unknown (name : String) (args : Args) (hid : m.engine.next = id)
    (ha : m.action = .invoke name args ∨
      ∃ v, m.action = .invokeValue name v ∧ v.asArgs? = some args)
    (hl : ∀ entry, m.engine.lookup name ≠ .ok entry) : Refuses m id (.catalog (.notFound name))
  | noObject (name : String) (v : Json) (hid : m.engine.next = id)
    (ha : m.action = .invokeValue name v) (hv : ∀ members, v ≠ .object members) :
    Refuses m id (.invalidArguments name ("expected a JSON object, got " ++ v.kind))

theorem Starts.called (h : m.Starts id name args x) : .called name args x ∈ m.notes id := by
  have hn : m.engine.callNote id name args = [.called name args x] := by
    rw [Engine.callNote, h.found]
    exact if_pos h.number
  refine List.mem_append_left _ ?_
  unfold given
  rcases h.action with ha | ⟨v, ha, hv⟩ <;> rw [ha]
  · simp [hn]
  · simp [hv, hn]

theorem Refuses.notes {err : DispatchError} (h : m.Refuses id err) :
    m.engine.next = id ∧ m.notes id = [.returned (.error err)] := by
  cases h with
  | unknown name args hid ha hl =>
    subst hid
    have hlookup : m.engine.lookup name = .error (.notFound name) := Catalog.lookup_of_absent hl
    refine ⟨rfl, ?_⟩
    rcases ha with ha | ⟨v, ha, hv⟩
    · simp [notes, given, effects, outcome, ha, hlookup, Engine.step, Engine.invoke,
        Engine.callNote, Effect.note?]
    · simp [notes, given, effects, outcome, ha, hv, hlookup, Engine.step, Engine.invokeValue,
        Engine.invoke, Engine.callNote, Effect.note?]
  | noObject name v hid ha hv =>
    subst hid
    have hnone : v.asArgs? = none := by
      cases v with
      | object members => exact absurd rfl (hv members)
      | _ => rfl
    refine ⟨rfl, ?_⟩
    simp [notes, given, effects, outcome, ha, hnone, Engine.step, Engine.invokeValue, Effect.note?]

end Moment

namespace Engine

theorem tells_end (hs : e.Sound) (ht : (e.standing id).Tells s) (as : List (Action β)) :
    ∃ y : Standing β, y.Tells (s ++ story id (e.record r as)) := by
  induction as generalizing e r s with
  | nil => exact ⟨_, by rwa [record, story, List.flatMap_nil, List.append_nil]⟩
  | cons a rest ih =>
    obtain ⟨y, hy⟩ := ih (hs.step a) ((step_move hs a).tells ht)
    exact ⟨y, by rwa [List.append_assoc] at hy⟩

theorem tells_whole (id : Nat) (r : Registry) (as : List (Action β)) :
    ∃ y : Standing β, y.Tells (story id (record ∅ r as)) := by
  have hstart : ((∅ : Engine β).standing id).Tells [] := by
    rw [standing_empty]
    rfl
  exact tells_end sound_empty hstart as

theorem read_run (r : Registry) (as : List (Action β)) (id : Nat) :
    Unmade (story id (record ∅ r as)) ∨
      ∃ x : Entry β, ∃ args, x.Made args id (story id (record ∅ r as)) := by
  obtain ⟨y, hy⟩ := tells_whole id r as
  exact hy.read id

/-- What a run shows of a call is about one entry and one list of arguments. -/
theorem made_of_starts {as : List (Action β)} {name : String} (hm : m ∈ record ∅ r as)
    (h : m.Starts id name args x) : x.name = name ∧ x.Made args id (story id (record ∅ r as)) := by
  have hc : .called name args x ∈ story id (record ∅ r as) := List.mem_flatMap.2 ⟨m, hm, h.called⟩
  obtain ⟨x', args', hmade⟩ := (read_run r as id).resolve_left (not_unmade_of_called hc)
  obtain ⟨rfl, rfl, rfl⟩ := called_unique hc hmade.1
  exact ⟨rfl, hmade⟩

theorem starts_unique {as : List (Action β)} {m' : Moment β} {name name' : String} {args' : Args}
    {x' : Entry β} (hm : m ∈ record ∅ r as) (h : m.Starts id name args x)
    (hm' : m' ∈ record ∅ r as) (h' : m'.Starts id name' args' x') : args' = args ∧ x' = x :=
  (called_unique (List.mem_flatMap.2 ⟨m', hm', h'.called⟩) (made_of_starts hm h).2.1).2

theorem Sound.refused_story (hs : e.Sound) {a : Action β} {err : DispatchError}
    (hr : (Moment.mk e r a).Refuses e.next err) (as : List (Action β)) :
    story e.next (e.record r (a :: as)) = [.returned (.error err)] := by
  obtain ⟨-, hn⟩ := hr.notes
  have hm : Move e.next r (e.standing e.next) ((Moment.mk e r a).notes e.next)
      ((e.step r a).engine.standing e.next) := step_move hs a
  rw [standing_next, hn] at hm
  have hover : (e.step r a).engine.standing e.next = .over := by
    generalize (e.step r a).engine.standing e.next = y at hm
    cases hm
    rfl
  rw [record, story_cons, hn, story_over (hs.step a) hover as]
  rfl

theorem refused_story {as : List (Action β)} {before after : List (Moment β)} {err : DispatchError}
    (h : record ∅ r as = before ++ m :: after) (hr : m.Refuses id err) :
    story id (record ∅ r as) = [.returned (.error err)] := by
  obtain ⟨rfl, -⟩ := hr.notes
  obtain ⟨hs, ht⟩ := tells_before m.engine.next h
  rw [standing_next] at ht
  have hbefore : story m.engine.next before = [] := ht
  obtain ⟨rest, rfl⟩ := record_after h
  rw [h, story_append, hbefore, List.nil_append]
  exact hs.refused_story hr rest

end Engine

theorem Entry.Made.entry_eq {as : List (Action β)} {before later : List (Moment β)}
    (h : x.Made args id (story id (Engine.record ∅ r as)))
    (hrun : Engine.record ∅ r as = before ++ m :: later) (hc : m.engine.call? id = some c) :
    c.entry = x ∧ c.args = args := by
  obtain ⟨hs, ht⟩ := Engine.tells_before id hrun
  rw [hs.standing hc] at ht
  have hcalled := h.1
  rw [hrun, story_append, List.filterMap_append, (Call.Tells.pending ht id).1] at hcalled
  obtain ⟨-, hargs, hentry⟩ : _ ∧ c.args = args ∧ c.entry = x := by
    simpa using (List.cons.inj hcalled).1
  exact ⟨hentry, hargs⟩

/-- In every run the events about a call that was made keep to the protocol; a call of a tool that
there is not, or with arguments that are no object, shows nothing but its failure; and there are
events only about calls that were made. -/
theorem event_protocol (r : Registry) (as : List (Action β)) (id : Nat) :
    let run := Engine.record ∅ r as
    (∀ m ∈ run, ∀ name args x, m.Starts id name args x →
      x.name = name ∧ Protocol run id x args) ∧
    (∀ m ∈ run, ∀ err, m.Refuses id err → events id run = [] ∧ asks id run = [] ∧
      executions id run = [] ∧ returns id run = [.error err]) ∧
    (events id run ≠ [] → ∃ m ∈ run, ∃ name args x, m.Starts id name args x) := by
  intro run
  refine ⟨fun m hm name args x h => ?_, fun m hm err h => ?_, fun h => ?_⟩
  · have hc : .called name args x ∈ story id run := List.mem_flatMap.2 ⟨m, hm, h.called⟩
    rcases Engine.read_run r as id with hu | ⟨x', args', hmade⟩
    · rcases hu with hu | ⟨err, hu⟩ <;> rw [hu] at hc <;> simp at hc
    · have hin : (name, args, x) ∈ (story id run).filterMap Note.called? :=
        List.mem_filterMap.2 ⟨_, hc, rfl⟩
      rw [hmade.1, List.mem_singleton] at hin
      cases hin
      exact ⟨rfl, hmade.protocol⟩
  · obtain ⟨before, after, hrun⟩ := List.append_of_mem hm
    rw [events_story, asks_story, executions_story, returns_story, Engine.refused_story hrun h]
    exact ⟨rfl, rfl, rfl, rfl⟩
  · rw [events_story] at h
    rcases Engine.read_run r as id with (hu | ⟨err, hu⟩) | ⟨x, args, hmade⟩
    · exact absurd (by rw [hu]; rfl) h
    · exact absurd (by rw [hu]; rfl) h
    · have hin : (x.name, args, x) ∈ (story id run).filterMap Note.called? :=
        hmade.1 ▸ List.mem_singleton_self _
      obtain ⟨n, hn, hcalled⟩ := List.mem_filterMap.1 hin
      obtain ⟨m, hm, hn⟩ := List.mem_flatMap.1 hn
      cases n with
      | called name args x => exact ⟨m, hm, name, args, x, Moment.starts_of_called hn⟩
      | _ => cases hcalled

def gatedShellTool : Entry Unit := ⟨"rm", defaultGroup, "", true, ⟨"rm", "", .null, .own ()⟩⟩

/-- A gated tool is called and one that there is not; then the handler denies the call. -/
def deniedCall : List (Action Unit) :=
  [.register gatedShellTool, .invoke "rm" ∅, .invoke "mv" ∅, .advance 0, .advance 0, .advance 0,
    .advance 0, .advance 0, .answer 0 (.ok false), .advance 0]

theorem event_protocol_deniedCall :
    let run := Engine.record ∅ (Registry.empty 0) deniedCall
    Protocol run 0 gatedShellTool ∅ ∧
      (events 0 run).map DispatchEvent.kind = [.requested ∅, .confirmationRequested "console",
        .confirmationDeclined] ∧ returns 0 run = [.ok (Response.declined "rm")] ∧
      events 1 run = [] ∧ returns 1 run = [.error (.catalog (.notFound "mv"))] := by
  intro run
  obtain ⟨hmade, -, -⟩ := event_protocol (Registry.empty 0) deniedCall 0
  obtain ⟨-, hrefused, -⟩ := event_protocol (Registry.empty 0) deniedCall 1
  obtain ⟨-, hprotocol⟩ := hmade run[1] (List.getElem_mem _) "rm" ∅ gatedShellTool
    ⟨.inl rfl, rfl, rfl⟩
  obtain ⟨hevents, -, -, hreturns⟩ := hrefused run[2] (List.getElem_mem _) _
    (.unknown "mv" ∅ rfl (.inl rfl) (by rintro entry ⟨⟩))
  exact ⟨hprotocol, rfl, rfl, hevents, hreturns⟩

end GatedCalls
