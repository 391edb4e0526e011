import GatedCalls.Console.Input
import GatedCalls.Error
import GatedCalls.Prompt

/-!
# The console

One human answers for many calls. A request waits in line for the console, asks its question, reads
one line and states the outcome. The read of a request that is cancelled goes on: the line it finds
was typed for a question that no longer stands, so the next request collects it, throws it away, and
only then asks its own question. The notice that takes a question back is written before the console
is given to anyone else.

The console is a machine: `step` says what an event changes and what is done in answer, with one
step for each point at which something else may come in between; `settle` lets it run while it
needs nothing from outside.
-/

namespace GatedCalls

open Console (Input LineRead Reader)

/-- A question that a call puts to the human. -/
structure Request where
  id : Nat
  name : String
  args : Args
deriving DecidableEq

namespace Console

/-- How far the request that holds the console has come. -/
inductive Phase
  /-- It was just given the console. -/
  | admitted
  /-- It waits for the line of a question that was taken back. -/
  | discarding
  /-- Its question is being written. -/
  | asking
  /-- It waits for its line. -/
  | awaiting
  /-- Its outcome is being written. -/
  | reporting (approved : Bool)
deriving DecidableEq

/-- Who has the console. -/
inductive Holder
  | free
  | held (request : Request) (phase : Phase)
  /-- The notice about a cancelled request is being written. -/
  | retracting (name : String)
deriving DecidableEq

/-- What can happen to a console. -/
inductive Event
  | request (r : Request)
  | cancel (id : Nat)
  | feed (bytes : List UInt8)
  | close
  /-- The console goes on by itself, if it waits for nothing. -/
  | advance
  /-- What is being written is out, or writing it failed. -/
  | written (failure : Option String)
deriving DecidableEq

/-- What the console does. -/
inductive Act
  | wrote (text : String)
  /-- A read was started for the question of a request. -/
  | asked (id : Nat)
  | discarded (line : String)
  | decided (id : Nat) (result : Except ConfirmationError Bool)

def inputClosed : ConfirmationError := .unavailable "input closed before a decision was made"

def noRead : ConfirmationError := .unavailable "no input read in progress"

def released : ConfirmationError := .unavailable "console released"

def undecodableInput (f : Text.Utf8.Fault) : ConfirmationError := .io f.message

end Console

open Console in
/-- A console: how it asks, where its input is, who has it and who waits for it, in order. -/
structure Console where
  prompt : Prompt
  input : Input
  holder : Holder
  waiting : List Request

namespace Console

def ofPrompt (prompt : Prompt) : Console := ⟨prompt, .idle ⟨[], false⟩, .free, []⟩

instance : Inhabited Console := ⟨ofPrompt default⟩

/-- Ends the request that holds the console. -/
def conclude (c : Console) (r : Request) (result : Except ConfirmationError Bool) :
    Console × List Act :=
  ({ c with holder := .free }, [.decided r.id result])

/-- Moves the request that holds the console on. -/
def enter (c : Console) (r : Request) (p : Phase) : Console := { c with holder := .held r p }

/-- A read failed for good: nobody can read any more. -/
def closeInput (c : Console) : Console := { c with input := .closed }

/-- Collects the line of a question that was taken back. -/
def discard? (c : Console) (r : Request) : Option (Console × List Act) :=
  match c.input with
  | .reading rd =>
    rd.next?.map fun p => match p.1 with
      | .line s => ({ c with input := .idle p.2 }.enter r .asking, [.discarded s])
      | .ended => (c.closeInput.enter r .asking, [])
      | .undecodable f => c.closeInput.conclude r (.error (undecodableInput f))
  | .idle _ => some (c.conclude r (.error noRead))
  | .closed => some (c.enter r .asking, [])

/-- Collects the line of the question that stands. -/
def collect? (c : Console) (r : Request) : Option (Console × List Act) :=
  match c.input with
  | .reading rd =>
    rd.next?.map fun p => match p.1 with
      | .line s => ({ c with input := .idle p.2 }.enter r (.reporting (c.prompt.affirms s)), [])
      | .ended => c.closeInput.conclude r (.error inputClosed)
      | .undecodable f => c.closeInput.conclude r (.error (undecodableInput f))
  | .idle _ => some (c.conclude r (.error noRead))
  | .closed => some (c.conclude r (.error inputClosed))

/-- The phase of a request, if it has the console. -/
def phase? (c : Console) (r : Request) : Option Phase :=
  match c.holder with
  | .held r' p => if r' = r then some p else none
  | .free | .retracting _ => none

/-- A request that was just given the console asks its question, or first collects the line of one
that was taken back. -/
def proceed (c : Console) (r : Request) : Console × List Act :=
  match c.phase? r with
  | some _ => (c.enter r (if c.input.isReading then .discarding else .asking), [])
  | none => c.conclude r (.error released)

/-- What the console does by itself; nothing while it waits for a request, for input, or for what it
writes to be out. -/
def advance? (c : Console) : Option (Console × List Act) :=
  match c.holder with
  | .free =>
    match c.waiting with
    | r :: rest => some ({ c with waiting := rest }.enter r .admitted, [])
    | [] => none
  | .held r .admitted => some (c.proceed r)
  | .held r .discarding => c.discard? r
  | .held r .awaiting => c.collect? r
  | .held _ .asking | .held _ (.reporting _) | .retracting _ => none

/-- Starts the read for a question that is on the screen. -/
def startRead (c : Console) (r : Request) : Console × List Act :=
  match c.input with
  | .idle rd => ({ c with input := .reading rd }.enter r .awaiting, [.asked r.id])
  | .reading _ => (c.enter r .awaiting, [.asked r.id])
  | .closed => c.conclude r (.error inputClosed)

/-- An act before those of a step. -/
def andThen (a : Act) (p : Console × List Act) : Console × List Act := (p.1, a :: p.2)

/-- What follows when a text is out, or could not be written; nothing if none is being written. -/
def written? (failure : Option String) (c : Console) : Option (Console × List Act) :=
  match c.holder, failure with
  | .held r .asking, none =>
    some (andThen (.wrote (c.prompt.question r.name r.args)) (c.startRead r))
  | .held r (.reporting b), none =>
    some (andThen (.wrote (c.prompt.outcome b)) (c.conclude r (.ok b)))
  | .held r .asking, some e | .held r (.reporting _), some e => some (c.conclude r (.error (.io e)))
  | .retracting name, none => some ({ c with holder := .free }, [.wrote (c.prompt.notice name)])
  | .retracting _, some _ => some ({ c with holder := .free }, [])
  | .free, _ | .held _ .admitted, _ | .held _ .discarding, _ | .held _ .awaiting, _ => none

/-- Drops a request. One that waits in line or was only just admitted leaves no trace; of any other
the question is taken back. -/
def cancel (c : Console) (id : Nat) : Console :=
  let c := { c with waiting := c.waiting.filter (·.id != id) }
  match c.holder with
  | .held r p =>
    if r.id = id then
      { c with holder := if p = .admitted then .free else .retracting r.name }
    else c
  | _ => c

def step (c : Console) : Event → Console × List Act
  | .request r => ({ c with waiting := c.waiting ++ [r] }, [])
  | .cancel id => (c.cancel id, [])
  | .feed bytes => ({ c with input := c.input.feed bytes }, [])
  | .close => ({ c with input := c.input.close }, [])
  | .advance => c.advance?.getD (c, [])
  | .written failure => (written? failure c).getD (c, [])

/-! ## Settling -/

namespace Phase

/-- A bound on the steps that are left. -/
def rank : Phase → Nat
  | admitted => 5
  | discarding => 4
  | asking => 3
  | awaiting => 2
  | reporting _ => 1

end Phase

namespace Holder

def rank : Holder → Nat
  | free => 0
  | held _ p => p.rank
  | retracting _ => 1

end Holder

/-- A bound on the steps that the console can make by itself. -/
def rank (c : Console) : Nat := 6 * c.waiting.length + c.holder.rank

/-- The next step that needs nothing from outside, where writing succeeds at once or fails at once
with `failure`. -/
def move? (failure : Option String) (c : Console) : Option (Console × List Act) :=
  (written? failure c).or c.advance?

theorem rank_conclude_lt {c c' : Console} {r r' : Request} {p : Phase} {acts : List Act}
    {e : Except ConfirmationError Bool} (h : c.holder = .held r' p)
    (hc : c.conclude r e = (c', acts)) : c'.rank < c.rank := by
  obtain ⟨rfl, -⟩ := Prod.mk.inj hc
  simp only [rank, h, Holder.rank]
  cases p <;> simp [Phase.rank]

theorem rank_enter_lt {c : Console} {r r' : Request} {p p' : Phase} (h : c.holder = .held r' p)
    (hp : p'.rank < p.rank) : (c.enter r p').rank < c.rank := by
  simp only [enter, rank, h, Holder.rank]
  omega

theorem proceed_of_held {c : Console} {r : Request} {p : Phase} (h : c.holder = .held r p) :
    c.proceed r = (c.enter r (if c.input.isReading then .discarding else .asking), []) := by
  simp [proceed, phase?, h]

theorem rank_discard?_lt {c c' : Console} {r r' : Request} {acts : List Act}
    (h : c.holder = .held r' .discarding) (hd : c.discard? r = some (c', acts)) :
    c'.rank < c.rank := by
  rw [discard?] at hd
  split at hd
  · obtain ⟨⟨l, rd⟩, -, hd⟩ := Option.map_eq_some_iff.1 hd
    cases l
    · obtain ⟨rfl, -⟩ := Prod.mk.inj hd
      exact rank_enter_lt (c := { c with input := .idle rd }) h (by decide)
    · obtain ⟨rfl, -⟩ := Prod.mk.inj hd
      exact rank_enter_lt (c := c.closeInput) h (by decide)
    · exact rank_conclude_lt (c := c.closeInput) h hd
  · exact rank_conclude_lt h (Option.some.inj hd)
  · obtain ⟨rfl, -⟩ := Prod.mk.inj (Option.some.inj hd)
    exact rank_enter_lt h (by decide)

theorem rank_collect?_lt {c c' : Console} {r r' : Request} {acts : List Act}
    (h : c.holder = .held r' .awaiting) (hd : c.collect? r = some (c', acts)) :
    c'.rank < c.rank := by
  rw [collect?] at hd
  split at hd
  · obtain ⟨⟨l, rd⟩, -, hd⟩ := Option.map_eq_some_iff.1 hd
    cases l
    · obtain ⟨rfl, -⟩ := Prod.mk.inj hd
      exact rank_enter_lt (c := { c with input := .idle rd }) h (by simp [Phase.rank])
    · exact rank_conclude_lt (c := c.closeInput) h hd
    · exact rank_conclude_lt (c := c.closeInput) h hd
  · exact rank_conclude_lt h (Option.some.inj hd)
  · exact rank_conclude_lt h (Option.some.inj hd)

theorem rank_advance?_lt {c c' : Console} {acts : List Act} (h : c.advance? = some (c', acts)) :
    c'.rank < c.rank := by
  rw [advance?] at h
  split at h
  · rename_i hh
    split at h
    · rename_i hw
      obtain ⟨rfl, -⟩ := Prod.mk.inj (Option.some.inj h)
      simp only [rank, enter, hh, hw, Holder.rank, Phase.rank, List.length_cons]
      omega
    · cases h
  · rename_i hh
    rw [proceed_of_held hh] at h
    obtain ⟨rfl, -⟩ := Prod.mk.inj (Option.some.inj h)
    refine rank_enter_lt hh ?_
    split <;> decide
  · rename_i hh
    exact rank_discard?_lt hh h
  · rename_i hh
    exact rank_collect?_lt hh h
  all_goals cases h

theorem rank_startRead_lt {c c' : Console} {r r' : Request} {acts : List Act}
    (h : c.holder = .held r' .asking) (hs : c.startRead r = (c', acts)) : c'.rank < c.rank := by
  rw [startRead] at hs
  split at hs
  · rename_i rd _
    obtain ⟨rfl, -⟩ := Prod.mk.inj hs
    exact rank_enter_lt (c := { c with input := .reading rd }) h (by decide)
  · obtain ⟨rfl, -⟩ := Prod.mk.inj hs
    exact rank_enter_lt h (by decide)
  · exact rank_conclude_lt h hs

theorem rank_written?_lt {failure : Option String} {c c' : Console} {acts : List Act}
    (h : written? failure c = some (c', acts)) : c'.rank < c.rank := by
  unfold written? at h
  split at h
  · rename_i hh
    obtain ⟨rfl, -⟩ := Prod.mk.inj (Option.some.inj h)
    exact rank_startRead_lt hh rfl
  · rename_i r b hh
    obtain ⟨rfl, -⟩ := Prod.mk.inj (Option.some.inj h)
    exact rank_conclude_lt (r := r) (e := .ok b) hh rfl
  · rename_i hh
    exact rank_conclude_lt hh (Option.some.inj h)
  · rename_i hh
    exact rank_conclude_lt hh (Option.some.inj h)
  · rename_i hh
    obtain ⟨rfl, -⟩ := Prod.mk.inj (Option.some.inj h)
    simp [rank, hh, Holder.rank]
  · rename_i hh
    obtain ⟨rfl, -⟩ := Prod.mk.inj (Option.some.inj h)
    simp [rank, hh, Holder.rank]
  all_goals cases h

/-- Every step that the console makes by itself uses up some of its bound. -/
theorem rank_move?_lt {failure : Option String} {c c' : Console} {acts : List Act}
    (h : move? failure c = some (c', acts)) : c'.rank < c.rank := by
  rcases Option.or_eq_some_iff.1 h with h | ⟨-, h⟩
  · exact rank_written?_lt h
  · exact rank_advance?_lt h

/-- Lets the console run as long as `goesOn`, until it waits for something outside. -/
def settleWhile (goesOn : Console → Bool) (failure : Option String) (c : Console) :
    Console × List Act :=
  if goesOn c then
    match _h : move? failure c with
    | none => (c, [])
    | some (c', acts) =>
      let (c'', more) := settleWhile goesOn failure c'
      (c'', acts ++ more)
  else (c, [])
termination_by c.rank
decreasing_by exact rank_move?_lt _h

/-- Lets the console run until it waits for something outside. -/
def settle (failure : Option String) (c : Console) : Console × List Act :=
  settleWhile (fun _ => true) failure c

/-- Whether the request that holds the console waits for its line, be it there already or not. -/
def awaitsLine (c : Console) : Bool :=
  match c.holder with
  | .held _ .awaiting => true
  | _ => false

/-- Lets the console run until a question is on the screen: the line is read by somebody else. -/
def settleToRead (failure : Option String) (c : Console) : Console × List Act :=
  settleWhile (fun c => !c.awaitsLine) failure c

end Console

end GatedCalls
