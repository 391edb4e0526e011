import GatedCalls.Console

/-!
# What one step of a console can do

`Fits` says which phases go with a read that is in progress: a request that waits for a line has
one, and a request that writes has none. `Turn` lists everything that a step can do, with what it is
done in answer to; `step_turn` says that each step of a console whose holder fits its input is one
of them. So a request never finds that there is no read to wait for, nor a read that is not its own.
-/

namespace GatedCalls.Console

/-- Whether the phase goes with the input. -/
def Holder.Fits : Holder → Input → Prop
  | .held _ .discarding, i | .held _ .awaiting, i => i.isReading = true
  | .held _ .asking, i | .held _ (.reporting _), i => i.isReading = false
  | .held _ .admitted, _ | .free, _ | .retracting _, _ => True

def Holder.request? : Holder → Option Request
  | .held r _ => some r
  | .free | .retracting _ => none

/-- The requests in flight: the one that holds the console and those that wait, in order. -/
def requests (c : Console) : List Request := c.holder.request?.toList ++ c.waiting

/-- The requests that wait, without the one that is dropped. -/
def without (c : Console) (id : Nat) : Console :=
  { c with waiting := c.waiting.filter (·.id != id) }

def release (c : Console) : Console := { c with holder := .free }

def withInput (c : Console) (i : Input) : Console := { c with input := i }

/-- All that a step of the console `c` can do. -/
inductive Turn (c : Console) : Event → List Act → Console → Prop
  | request (r : Request) : Turn c (.request r) [] { c with waiting := c.waiting ++ [r] }
  | feed (bytes : List UInt8) : Turn c (.feed bytes) [] (c.withInput (c.input.feed bytes))
  | close : Turn c .close [] (c.withInput c.input.close)
  /-- Nothing is to be done. -/
  | rest (e : Event) (he : e = .advance ∨ ∃ f, e = .written f) : Turn c e [] c
  /-- A request that waits is dropped, or none is. -/
  | drop (id : Nat) (h : ∀ r p, c.holder = .held r p → r.id ≠ id) :
    Turn c (.cancel id) [] (c.without id)
  /-- The request that was just given the console is dropped. -/
  | leave (r : Request) (h : c.holder = .held r .admitted) :
    Turn c (.cancel r.id) [] (c.without r.id).release
  /-- The request that holds the console is dropped, and its question taken back. -/
  | retract (r : Request) (p : Phase) (h : c.holder = .held r p) (hp : p ≠ .admitted) :
    Turn c (.cancel r.id) [] { c.without r.id with holder := .retracting r.name }
  | give (r : Request) (more : List Request) (h : c.holder = .free) (hw : c.waiting = r :: more) :
    Turn c .advance [] { c with holder := .held r .admitted, waiting := more }
  /-- The line of a question that was taken back is to come first. -/
  | owe (r : Request) (h : c.holder = .held r .admitted) (hi : c.input.isReading = true) :
    Turn c .advance [] (c.enter r .discarding)
  | ready (r : Request) (h : c.holder = .held r .admitted) (hi : c.input.isReading = false) :
    Turn c .advance [] (c.enter r .asking)
  | discard (r : Request) (rd rd' : Reader) (line : String) (h : c.holder = .held r .discarding)
    (hi : c.input = .reading rd) (hn : rd.next? = some (.line line, rd')) :
    Turn c .advance [.discarded line] ((c.withInput (.idle rd')).enter r .asking)
  | discardEnd (r : Request) (rd rd' : Reader) (h : c.holder = .held r .discarding)
    (hi : c.input = .reading rd) (hn : rd.next? = some (.ended, rd')) :
    Turn c .advance [] (c.closeInput.enter r .asking)
  | discardFault (r : Request) (rd rd' : Reader) (f : Text.Utf8.Fault)
    (h : c.holder = .held r .discarding) (hi : c.input = .reading rd)
    (hn : rd.next? = some (.undecodable f, rd')) :
    Turn c .advance [.decided r.id (.error (undecodableInput f))] c.closeInput.release
  /-- The question is on the screen, and its read is started. -/
  | ask (r : Request) (rd : Reader) (h : c.holder = .held r .asking) (hi : c.input = .idle rd) :
    Turn c (.written none) [.wrote (c.prompt.question r.name r.args), .asked r.id]
      ((c.withInput (.reading rd)).enter r .awaiting)
  /-- The question is on the screen, but nobody can answer. -/
  | askClosed (r : Request) (h : c.holder = .held r .asking) (hi : c.input = .closed) :
    Turn c (.written none)
      [.wrote (c.prompt.question r.name r.args), .decided r.id (.error inputClosed)] c.release
  | collect (r : Request) (rd rd' : Reader) (line : String) (h : c.holder = .held r .awaiting)
    (hi : c.input = .reading rd) (hn : rd.next? = some (.line line, rd')) :
    Turn c .advance [] ((c.withInput (.idle rd')).enter r (.reporting (c.prompt.affirms line)))
  | collectEnd (r : Request) (rd rd' : Reader) (h : c.holder = .held r .awaiting)
    (hi : c.input = .reading rd) (hn : rd.next? = some (.ended, rd')) :
    Turn c .advance [.decided r.id (.error inputClosed)] c.closeInput.release
  | collectFault (r : Request) (rd rd' : Reader) (f : Text.Utf8.Fault)
    (h : c.holder = .held r .awaiting) (hi : c.input = .reading rd)
    (hn : rd.next? = some (.undecodable f, rd')) :
    Turn c .advance [.decided r.id (.error (undecodableInput f))] c.closeInput.release
  | report (r : Request) (b : Bool) (h : c.holder = .held r (.reporting b)) :
    Turn c (.written none) [.wrote (c.prompt.outcome b), .decided r.id (.ok b)] c.release
  /-- What is to be written cannot be. -/
  | fail (r : Request) (p : Phase) (e : String) (h : c.holder = .held r p)
    (hp : p = .asking ∨ ∃ b, p = .reporting b) :
    Turn c (.written (some e)) [.decided r.id (.error (.io e))] c.release
  | notice (name : String) (h : c.holder = .retracting name) :
    Turn c (.written none) [.wrote (c.prompt.notice name)] c.release
  | noticeFail (name : String) (e : String) (h : c.holder = .retracting name) :
    Turn c (.written (some e)) [] c.release

variable {c c' : Console} {e : Event} {acts : List Act}

theorem Turn.prompt (ht : Turn c e acts c') : c'.prompt = c.prompt := by
  cases ht <;> rfl

theorem cancel_turn (c : Console) (id : Nat) : Turn c (.cancel id) [] (c.cancel id) := by
  cases h : c.holder with
  | held r p =>
    by_cases hid : r.id = id
    · subst hid
      by_cases hp : p = .admitted
      · subst hp
        have hc : c.cancel r.id = (c.without r.id).release := by simp [cancel, h, without, release]
        rw [hc]
        exact .leave r h
      · have hc : c.cancel r.id = { c.without r.id with holder := .retracting r.name } := by
          simp [cancel, h, hp, without]
        rw [hc]
        exact .retract r p h hp
    · have hc : c.cancel id = c.without id := by simp [cancel, h, hid, without]
      rw [hc]
      refine .drop id fun r' p' h' => ?_
      obtain ⟨rfl, -⟩ := Holder.held.inj (h.symm.trans h')
      exact hid
  | free | retracting =>
    have hc : c.cancel id = c.without id := by simp [cancel, h, without]
    rw [hc]
    exact .drop id fun r' p' h' => by rw [h] at h'; cases h'

theorem discard?_turn {r : Request} (h : c.holder = .held r .discarding)
    (hf : c.input.isReading = true) (hd : c.discard? r = some (c', acts)) :
    Turn c .advance acts c' := by
  cases hi : c.input with
  | reading rd =>
    rw [discard?, hi] at hd
    obtain ⟨⟨found, rd'⟩, hn, hd⟩ := Option.map_eq_some_iff.1 hd
    cases found with
    | line line =>
      obtain ⟨rfl, rfl⟩ := Prod.mk.inj hd
      exact .discard r rd rd' line h hi hn
    | ended =>
      obtain ⟨rfl, rfl⟩ := Prod.mk.inj hd
      exact .discardEnd r rd rd' h hi hn
    | undecodable f =>
      obtain ⟨rfl, rfl⟩ := Prod.mk.inj hd
      exact .discardFault r rd rd' f h hi hn
  | idle | closed => rw [hi] at hf; cases hf

theorem collect?_turn {r : Request} (h : c.holder = .held r .awaiting)
    (hf : c.input.isReading = true) (hd : c.collect? r = some (c', acts)) :
    Turn c .advance acts c' := by
  cases hi : c.input with
  | reading rd =>
    rw [collect?, hi] at hd
    obtain ⟨⟨found, rd'⟩, hn, hd⟩ := Option.map_eq_some_iff.1 hd
    cases found with
    | line line =>
      obtain ⟨rfl, rfl⟩ := Prod.mk.inj hd
      exact .collect r rd rd' line h hi hn
    | ended =>
      obtain ⟨rfl, rfl⟩ := Prod.mk.inj hd
      exact .collectEnd r rd rd' h hi hn
    | undecodable f =>
      obtain ⟨rfl, rfl⟩ := Prod.mk.inj hd
      exact .collectFault r rd rd' f h hi hn
  | idle | closed => rw [hi] at hf; cases hf

theorem advance?_turn (hf : c.holder.Fits c.input) (ha : c.advance? = some (c', acts)) :
    Turn c .advance acts c' := by
  unfold advance? at ha
  split at ha
  · rename_i h
    split at ha
    · rename_i r more hw
      obtain ⟨rfl, rfl⟩ := Prod.mk.inj (Option.some.inj ha)
      exact .give r more h hw
    · cases ha
  · rename_i r h
    rw [proceed_of_held h] at ha
    obtain ⟨rfl, rfl⟩ := Prod.mk.inj (Option.some.inj ha)
    cases hi : c.input.isReading with
    | true => exact .owe r h hi
    | false => exact .ready r h hi
  · rename_i r h
    rw [h] at hf
    exact discard?_turn h hf ha
  · rename_i r h
    rw [h] at hf
    exact collect?_turn h hf ha
  all_goals cases ha

theorem written?_turn {failure : Option String} (hf : c.holder.Fits c.input)
    (hw : written? failure c = some (c', acts)) : Turn c (.written failure) acts c' := by
  unfold written? at hw
  split at hw
  · rename_i r h
    obtain ⟨rfl, rfl⟩ := Prod.mk.inj (Option.some.inj hw)
    rw [h] at hf
    cases hi : c.input with
    | idle rd =>
      rw [startRead, hi]
      exact .ask r rd h hi
    | closed =>
      rw [startRead, hi]
      exact .askClosed r h hi
    | reading rd => rw [hi] at hf; cases hf
  · rename_i r b h
    obtain ⟨rfl, rfl⟩ := Prod.mk.inj (Option.some.inj hw)
    exact .report r b h
  · rename_i r e h
    obtain ⟨rfl, rfl⟩ := Prod.mk.inj (Option.some.inj hw)
    exact .fail r _ e h (.inl rfl)
  · rename_i r b e h
    obtain ⟨rfl, rfl⟩ := Prod.mk.inj (Option.some.inj hw)
    exact .fail r _ e h (.inr ⟨b, rfl⟩)
  · rename_i name h
    obtain ⟨rfl, rfl⟩ := Prod.mk.inj (Option.some.inj hw)
    exact .notice name h
  · rename_i name e h
    obtain ⟨rfl, rfl⟩ := Prod.mk.inj (Option.some.inj hw)
    exact .noticeFail name e h
  all_goals cases hw

/-- A step of a console whose holder fits its input is a turn. -/
theorem step_turn (hf : c.holder.Fits c.input) (e : Event) :
    Turn c e (c.step e).2 (c.step e).1 := by
  cases e with
  | request r => exact .request r
  | cancel id => exact cancel_turn c id
  | feed bytes => exact .feed bytes
  | close => exact .close
  | advance =>
    cases ha : c.advance? with
    | none =>
      rw [step, ha]
      exact .rest _ (.inl rfl)
    | some p =>
      rw [step, ha]
      exact advance?_turn hf ha
  | written failure =>
    cases hw : written? failure c with
    | none =>
      rw [step, hw]
      exact .rest _ (.inr ⟨failure, rfl⟩)
    | some p =>
      rw [step, hw]
      exact written?_turn hf hw

/-! ### Every console fits -/

theorem Input.isReading_mapReader (i : Input) (f : Reader → Reader) :
    (i.mapReader f).isReading = i.isReading := by
  cases i <;> rfl

theorem Holder.fits_congr {h : Holder} {i i' : Input} (hi : i'.isReading = i.isReading)
    (hf : h.Fits i) : h.Fits i' := by
  cases h with
  | held r p => cases p <;> first | trivial | exact hi.trans hf
  | _ => trivial

theorem Turn.fits (ht : Turn c e acts c') (hf : c.holder.Fits c.input) :
    c'.holder.Fits c'.input := by
  cases ht with
  | feed bytes => exact Holder.fits_congr (Input.isReading_mapReader ..) hf
  | close => exact Holder.fits_congr (Input.isReading_mapReader ..) hf
  | owe r h hi => exact hi
  | ready r h hi => exact hi
  | request | rest | drop => exact hf
  | leave | retract | give | discardFault | askClosed | collectEnd | collectFault | report | fail
  | notice | noticeFail => trivial
  | discard | discardEnd | ask | collect => exact rfl

theorem fits_ofPrompt (p : Prompt) : (ofPrompt p).holder.Fits (ofPrompt p).input := trivial

end GatedCalls.Console
