import GatedCalls.Proofs.Console.Roster

/-!
# What stands on the screen

A request that has the console leaves one block on the screen: its question and what became of it.
`blocks` reads off a run which requests had the console and how that ended for each of them.
`Turn.screen` says what one step adds: what it writes, and a notice that is still to be written, are
what completes the block that the step ends, or begins the next. Along a run the screen is the
blocks, one after the other (`screen_blocks`).
-/

namespace GatedCalls.Console

/-! ### Blocks -/

/-- How it ended for a request that had the console. -/
inductive Ending
  | decided (approved : Bool)
  | dropped (phase : Phase)
  | failed (phase : Phase) (error : ConfirmationError)

def Ending.result? : Ending → Option (Except ConfirmationError Bool)
  | .decided approved => some (.ok approved)
  | .failed _ error => some (.error error)
  | .dropped _ => none

/-- A request that had the console, and how that ended. -/
structure Block where
  request : Request
  ending : Ending

/-- What a request that had the console leaves on the screen. -/
def Block.texts (p : Prompt) (b : Block) : List String :=
  let question := p.question b.request.name b.request.args
  match b.ending with
  | .decided approved => [question, p.outcome approved]
  | .dropped phase => (if phase.isAsked then [question] else []) ++ [p.notice b.request.name]
  | .failed .discarding _ => []
  | .failed _ _ => [question]

def Act.text? : Act → Option String
  | .wrote text => some text
  | _ => none

def Act.result? : Act → Option (Except ConfirmationError Bool)
  | .decided _ result => some result
  | _ => none

def screen (as : List Act) : List String := as.filterMap Act.text?

/-- The block that comes to its end with an event and what is done in answer. -/
def Holder.block? (h : Holder) (e : Event) (new : List Act) : Option Block :=
  match h, e with
  | .held r p, .cancel id => if r.id = id ∧ p ≠ .admitted then some ⟨r, .dropped p⟩ else none
  | .held r p, _ => (new.findSome? Act.result?).map fun
    | .ok approved => ⟨r, .decided approved⟩
    | .error error => ⟨r, .failed p error⟩
  | _, _ => none

def blocks (c : Console) : List Event → List Block
  | [] => []
  | e :: es => (c.holder.block? e (c.step e).2).toList ++ blocks (c.step e).1 es

/-- The question of the request that holds the console, once it is on the screen. -/
def Holder.begun (p : Prompt) : Holder → List String
  | .held r phase => if phase.isAsked then [p.question r.name r.args] else []
  | .free | .retracting _ => []

/-- The notice that has still to be written. -/
def Holder.owed (p : Prompt) : Holder → List String
  | .retracting name => [p.notice name]
  | .free | .held _ _ => []

variable {c c' : Console} {e : Event} {es es' : List Event} {as new : List Act} {p : Prompt}
  {r : Request}

theorem Holder.block?_nil {h : Holder} (he : ∀ id, e ≠ .cancel id) : h.block? e [] = none := by
  cases h with
  | held r p =>
    cases e with
    | cancel id => exact absurd rfl (he id)
    | _ => rfl
  | free | retracting => rfl

theorem Holder.begun_owed (h : Holder) (p : Prompt) :
    h.begun p ++ h.owed p = h.owed p ++ h.begun p := by
  cases h <;> simp [begun, owed]

/-- What a step adds to the screen completes the block that it ends, or begins the next. -/
theorem Turn.screen (ht : Turn c e new c') (hw : ∀ f, e ≠ .written (some f)) :
    c.holder.begun c.prompt ++ Console.screen new ++ c'.holder.owed c.prompt =
      c.holder.owed c.prompt ++
        (c.holder.block? e new).toList.flatMap (Block.texts c.prompt) ++
        c'.holder.begun c.prompt := by
  -- a step that leaves the console to whoever has it, and writes nothing
  have same (hb : c.holder.block? e new = none) (hs : Console.screen new = [])
      (hh : c'.holder = c.holder) :
      c.holder.begun c.prompt ++ Console.screen new ++ c'.holder.owed c.prompt =
        c.holder.owed c.prompt ++
          (c.holder.block? e new).toList.flatMap (Block.texts c.prompt) ++
          c'.holder.begun c.prompt := by
    rw [hb, hs, hh]
    simpa using Holder.begun_owed c.holder c.prompt
  cases ht with
  | request | feed | close => exact same (Holder.block?_nil (by simp)) rfl rfl
  | rest e he => exact same (Holder.block?_nil (by rcases he with rfl | ⟨f, rfl⟩ <;> simp)) rfl rfl
  | drop id h =>
    refine same ?_ rfl rfl
    cases hh : c.holder with
    | held r q => simp [Holder.block?, h r q hh]
    | free | retracting => rfl
  | leave r h =>
    rw [h]
    simp [Holder.begun, Holder.owed, Holder.block?, release, Phase.isAsked, Console.screen]
  | retract r q h hq =>
    rw [h]
    simp [Holder.begun, Holder.owed, Holder.block?, hq, Console.screen, Block.texts]
  | give r more h => rw [h]; rfl
  | owe r h | ready r h | discard r _ _ _ h | discardEnd r _ _ h | discardFault r _ _ _ h
  | ask r _ h | askClosed r h | collect r _ _ _ h | collectEnd r _ _ h | collectFault r _ _ _ h
  | report r b h | notice name h => rw [h]; rfl
  | fail r q f => exact absurd rfl (hw f)
  | noticeFail name f => exact absurd rfl (hw f)

/-! ### Along a run -/

/-- What one part of a text lacks at its end is what the next part begins with, or the other way
round; so the two parts fit together. -/
theorem splice {owed s t begun owed' blocks begun' owed'' blocks' begun'' : List String}
    (hs : begun ++ s ++ owed' = owed ++ blocks ++ begun')
    (ht : begun' ++ t ++ owed'' = owed' ++ blocks' ++ begun'') (h : owed' = [] ∨ begun' = []) :
    begun ++ (s ++ t) ++ owed'' = owed ++ (blocks ++ blocks') ++ begun'' := by
  rcases h with rfl | rfl
  · calc begun ++ (s ++ t) ++ owed'' = (begun ++ s ++ []) ++ t ++ owed'' := by simp
      _ = owed ++ blocks ++ (begun' ++ t ++ owed'') := by rw [hs]; simp
      _ = owed ++ (blocks ++ blocks') ++ begun'' := by rw [ht]; simp
  · calc begun ++ (s ++ t) ++ owed'' = begun ++ s ++ ([] ++ t ++ owed'') := by simp
      _ = (begun ++ s ++ owed') ++ blocks' ++ begun'' := by rw [ht]; simp
      _ = owed ++ (blocks ++ blocks') ++ begun'' := by rw [hs]; simp

theorem Holder.owed_or_begun (h : Holder) (p : Prompt) : h.owed p = [] ∨ h.begun p = [] := by
  cases h with
  | free | held => exact .inl rfl
  | retracting => exact .inr rfl

theorem screen_blocks (hf : c.holder.Fits c.input) (hw : ∀ f, .written (some f) ∉ es) :
    c.holder.begun c.prompt ++ screen (c.acts es) ++ (c.after es).holder.owed c.prompt =
      c.holder.owed c.prompt ++ (c.blocks es).flatMap (Block.texts c.prompt) ++
        (c.after es).holder.begun c.prompt := by
  induction es generalizing c with
  | nil => simpa [acts, blocks, after, screen] using Holder.begun_owed c.holder c.prompt
  | cons e es ih =>
    have ht := step_turn hf e
    have hstep := ht.screen fun f he => hw f (he ▸ List.mem_cons_self ..)
    have hrest := ih (ht.fits hf) fun f hmem => hw f (List.mem_cons_of_mem _ hmem)
    rw [ht.prompt] at hrest
    have hacts : screen (c.acts (e :: es)) =
        screen (c.step e).2 ++ screen ((c.step e).1.acts es) := List.filterMap_append
    rw [hacts, blocks, List.flatMap_append]
    exact splice hstep hrest ((c.step e).1.holder.owed_or_begun c.prompt)

/-! ### Who has a block -/

def Event.made? : Event → Option Request
  | .request r => some r
  | _ => none

def made (es : List Event) : List Request := es.filterMap Event.made?

/-- The request has the console: it was given it, and has gone on since. -/
def Holder.Has (h : Holder) (r : Request) : Prop := ∃ q, h = .held r q ∧ q ≠ .admitted

/-- The event ends the block, and the acts are what is done in answer. -/
inductive Ends (c : Console) : Event → List Act → Block → Prop
  | decided (r : Request) (b : Bool) (h : c.holder = .held r (.reporting b)) :
    Ends c (.written none) [.wrote (c.prompt.outcome b), .decided r.id (.ok b)] ⟨r, .decided b⟩
  | dropped (r : Request) (q : Phase) (h : c.holder = .held r q) (hq : q ≠ .admitted) :
    Ends c (.cancel r.id) [] ⟨r, .dropped q⟩
  /-- Its question is out, but the input has ended before. -/
  | closed (r : Request) (h : c.holder = .held r .asking) (hi : c.input = .closed) :
    Ends c (.written none)
      [.wrote (c.prompt.question r.name r.args), .decided r.id (.error inputClosed)]
      ⟨r, .failed .asking inputClosed⟩
  /-- The input ends where its line would be. -/
  | ended (r : Request) (rd rd' : Reader) (h : c.holder = .held r .awaiting)
    (hi : c.input = .reading rd) (hn : rd.next? = some (.ended, rd')) :
    Ends c .advance [.decided r.id (.error inputClosed)] ⟨r, .failed .awaiting inputClosed⟩
  /-- A line that it waits for, its own or a stale one, cannot be made out. -/
  | garbled (r : Request) (q : Phase) (rd rd' : Reader) (f : Text.Utf8.Fault)
    (h : c.holder = .held r q) (hq : q = .discarding ∨ q = .awaiting)
    (hi : c.input = .reading rd) (hn : rd.next? = some (.undecodable f, rd')) :
    Ends c .advance [.decided r.id (.error (undecodableInput f))]
      ⟨r, .failed q (undecodableInput f)⟩
  /-- Its question or its outcome cannot be written. -/
  | unwritten (r : Request) (q : Phase) (f : String) (h : c.holder = .held r q)
    (hq : q = .asking ∨ ∃ b, q = .reporting b) :
    Ends c (.written (some f)) [.decided r.id (.error (.io f))] ⟨r, .failed q (.io f)⟩

theorem requestIds_eq_made (es : List Event) : requestIds es = (made es).map Request.id := by
  unfold requestIds made
  rw [List.map_filterMap]
  congr 1
  funext e
  cases e <;> rfl

theorem Ends.has {b : Block} (h : Ends c e new b) : c.holder.Has b.request := by
  cases h with
  | decided r b h | closed r h | ended r rd rd' h => exact ⟨_, h, by simp⟩
  | dropped r q h hq => exact ⟨q, h, hq⟩
  | garbled r q rd rd' f h hq => exact ⟨q, h, by rcases hq with rfl | rfl <;> simp⟩
  | unwritten r q f h hq => exact ⟨q, h, by rcases hq with rfl | ⟨b, rfl⟩ <;> simp⟩

theorem Ends.decided_mem_iff {b : Block} {id : Nat} {result : Except ConfirmationError Bool}
    (h : Ends c e new b) :
    .decided id result ∈ new ↔ id = b.request.id ∧ b.ending.result? = some result := by
  cases h <;> simp [Ending.result?, eq_comm]

/-- Only the line that another request was asked for can end a block before its question. -/
theorem Ends.texts_eq_nil_iff {b : Block} (h : Ends c e new b) (hw : ∀ f, e ≠ .written (some f)) :
    b.texts p = [] ↔ ∃ f, b.ending = .failed .discarding (undecodableInput f) := by
  cases h with
  | decided | dropped | closed | ended => simp [Block.texts]
  | garbled r q rd rd' f h hq =>
    rcases hq with rfl | rfl
    · exact iff_of_true rfl ⟨f, rfl⟩
    · simp [Block.texts]
  | unwritten r q f => exact absurd rfl (hw f)

namespace Turn

/-- A step ends a block for one of the reasons that `Ends` lists, or it ends none and decides
nothing. -/
theorem block_cases (ht : Turn c e new c') :
    (c.holder.block? e new = none ∧ ∀ id result, .decided id result ∉ new) ∨
      ∃ b, c.holder.block? e new = some b ∧ Ends c e new b := by
  cases ht with
  | request | feed | close | give | owe | ready | discardEnd | collect =>
    exact .inl ⟨Holder.block?_nil (by simp), by simp⟩
  | rest e he =>
    exact .inl ⟨Holder.block?_nil (by rcases he with rfl | ⟨f, rfl⟩ <;> simp), by simp⟩
  | drop id h =>
    refine .inl ⟨?_, by simp⟩
    cases hh : c.holder with
    | held r q => simp [Holder.block?, h r q hh]
    | free | retracting => rfl
  | leave r h => exact .inl ⟨by simp [h, Holder.block?], by simp⟩
  | discard r _ _ _ h | ask r _ h | notice _ h | noticeFail _ _ h =>
    exact .inl ⟨by rw [h]; rfl, by simp⟩
  | retract r q h hq => exact .inr ⟨_, by simp [h, Holder.block?, hq], .dropped r q h hq⟩
  | discardFault r rd rd' f h hi hn =>
    exact .inr ⟨_, by rw [h]; rfl, .garbled r .discarding rd rd' f h (.inl rfl) hi hn⟩
  | collectFault r rd rd' f h hi hn =>
    exact .inr ⟨_, by rw [h]; rfl, .garbled r .awaiting rd rd' f h (.inr rfl) hi hn⟩
  | collectEnd r rd rd' h hi hn => exact .inr ⟨_, by rw [h]; rfl, .ended r rd rd' h hi hn⟩
  | askClosed r h hi => exact .inr ⟨_, by rw [h]; rfl, .closed r h hi⟩
  | report r a h => exact .inr ⟨_, by rw [h]; rfl, .decided r a h⟩
  | fail r q f h hq => exact .inr ⟨_, by rw [h]; rfl, .unwritten r q f h hq⟩

theorem ends (ht : Turn c e new c') {b : Block} (hb : c.holder.block? e new = some b) :
    Ends c e new b := by
  rcases ht.block_cases with ⟨hnone, -⟩ | ⟨b', hb', h⟩
  · rw [hnone] at hb
    cases hb
  · rw [hb'] at hb
    exact Option.some.inj hb ▸ h

theorem has (ht : Turn c e new c') (hr : c.holder.Has r) :
    c'.holder.Has r ∨ (c.holder.block? e new).map Block.request = some r := by
  obtain ⟨q, hh, hq⟩ := hr
  cases ht with
  | request | feed | close | rest | drop => exact .inl ⟨q, hh, hq⟩
  | give _ _ h | notice _ h | noticeFail _ _ h => rw [h] at hh; cases hh
  | leave r' h | owe r' h | ready r' h =>
    obtain ⟨rfl, rfl⟩ := Holder.held.inj (h.symm.trans hh)
    exact absurd rfl hq
  | retract r' q' h =>
    obtain ⟨rfl, rfl⟩ := Holder.held.inj (h.symm.trans hh)
    exact .inr (by simp [hh, Holder.block?, hq])
  | discard r' _ _ _ h | discardEnd r' _ _ h | ask r' _ h | collect r' _ _ _ h =>
    obtain ⟨rfl, rfl⟩ := Holder.held.inj (h.symm.trans hh)
    exact .inl ⟨_, rfl, by simp⟩
  | discardFault r' _ _ _ h | collectFault r' _ _ _ h | collectEnd r' _ _ h | askClosed r' h
  | report r' _ h | fail r' _ _ h =>
    obtain ⟨rfl, rfl⟩ := Holder.held.inj (h.symm.trans hh)
    exact .inr (by rw [hh]; rfl)

theorem requests_of_ends (ht : Turn c e new c') {b : Block} (hends : Ends c e new b) :
    c.requests = b.request :: c.waiting ∧ c'.requests.Sublist c.waiting := by
  obtain ⟨q, hh, hq⟩ := hends.has
  refine ⟨requests_of_held hh, ?_⟩
  cases hres : b.ending.result? with
  | some result =>
    obtain ⟨-, -, -, -, heq⟩ := ht.decided (hends.decided_mem_iff.2 ⟨rfl, hres⟩)
    exact heq ▸ List.Sublist.refl _
  | none =>
    cases hends with
    | dropped r q' h =>
      generalize hid : r.id = id at ht
      cases ht with
      | drop _ h' => exact absurd hid (h' r q' h)
      | leave r' h' | retract r' _ h' => exact List.filter_sublist
      | rest _ he => rcases he with he | ⟨f, he⟩ <;> cases he
    | _ => cases hres

/-- A step adds a request at the end of those in flight, and takes the one whose block it ends from
their front. -/
theorem blocks_requests (ht : Turn c e new c') :
    (((c.holder.block? e new).map Block.request).toList ++ c'.requests).Sublist
      (c.requests ++ e.made?.toList) := by
  cases hb : c.holder.block? e new with
  | none =>
    rcases ht.requests with ⟨r, rfl, hq⟩ | ⟨-, hq⟩
    · rw [hq]
      exact List.Sublist.refl _
    · exact hq.trans (List.sublist_append_left _ _)
  | some b =>
    obtain ⟨hq, hsub⟩ := ht.requests_of_ends (ht.ends hb)
    rw [hq]
    exact (hsub.cons_cons b.request).trans (List.sublist_append_left _ _)

end Turn

theorem blocks_in_order (hf : c.holder.Fits c.input) (es : List Event) :
    ((c.blocks es).map Block.request ++ (c.after es).requests).Sublist (c.requests ++ made es) := by
  induction es generalizing c with
  | nil => simp [blocks, after, made]
  | cons e es ih =>
    have ht := step_turn hf e
    have hstep := ht.blocks_requests
    have hrest := ih (ht.fits hf)
    have hmade : made (e :: es) = e.made?.toList ++ made es := by cases e <;> rfl
    have hreq : (c.blocks (e :: es)).map Block.request =
        ((c.holder.block? e (c.step e).2).map Block.request).toList ++
          ((c.step e).1.blocks es).map Block.request := by
      rw [blocks, List.map_append]
      cases c.holder.block? e (c.step e).2 <;> rfl
    rw [hreq, hmade, List.append_assoc, ← List.append_assoc c.requests]
    exact ((List.Sublist.refl _).append hrest).trans
      (by rw [← List.append_assoc]; exact hstep.append (List.Sublist.refl _))

/-- A request has a block, or has the console, exactly if it had the console at some time. -/
theorem has_block_iff (hf : c.holder.Fits c.input) :
    (r ∈ (c.blocks es).map Block.request ∨ (c.after es).holder.Has r) ↔
      ∃ before rest, es = before ++ rest ∧ (c.after before).holder.Has r := by
  induction es generalizing c with
  | nil =>
    refine ⟨fun h => ⟨[], [], rfl, h.resolve_left (by simp [blocks])⟩, ?_⟩
    rintro ⟨before, rest, he, h⟩
    obtain ⟨rfl, -⟩ := List.append_eq_nil_iff.1 he.symm
    exact .inr h
  | cons e es ih =>
    have ht := step_turn hf e
    have ih := ih (ht.fits hf)
    rw [blocks, List.map_append, List.mem_append, or_assoc]
    constructor
    · rintro (h | h)
      · obtain ⟨b, hb, rfl⟩ := List.mem_map.1 h
        exact ⟨[], e :: es, rfl, (ht.ends (Option.mem_toList.1 hb)).has⟩
      · obtain ⟨before, rest, rfl, hr⟩ := ih.1 h
        exact ⟨e :: before, rest, rfl, hr⟩
    · rintro ⟨before, rest, he, h⟩
      cases before with
      | nil =>
        rcases ht.has h with h | h
        · exact .inr (ih.2 ⟨[], es, rfl, h⟩)
        · obtain ⟨b, hb, rfl⟩ := Option.map_eq_some_iff.1 h
          exact .inl (List.mem_map_of_mem (Option.mem_toList.2 hb))
      | cons e' before =>
        obtain ⟨rfl, rfl⟩ := List.cons.inj he
        exact .inr (ih.2 ⟨before, rest, rfl, h⟩)

theorem ends_of_mem (hf : c.holder.Fits c.input) {b : Block} (hb : b ∈ c.blocks es) :
    ∃ before e rest, es = before ++ e :: rest ∧
      Ends (c.after before) e ((c.after before).step e).2 b := by
  induction es generalizing c with
  | nil => cases hb
  | cons e es ih =>
    have ht := step_turn hf e
    rcases List.mem_append.1 hb with hb | hb
    · exact ⟨[], e, es, rfl, ht.ends (Option.mem_toList.1 hb)⟩
    · obtain ⟨before, e', rest, rfl, h⟩ := ih (ht.fits hf) hb
      exact ⟨e :: before, e', rest, rfl, h⟩

theorem blocks_append (es es' : List Event) :
    c.blocks (es ++ es') = c.blocks es ++ (c.after es).blocks es' := by
  induction es generalizing c with
  | nil => rfl
  | cons e es ih =>
    show _ ++ (c.step e).1.blocks (es ++ es') = _
    rw [ih, ← List.append_assoc]
    rfl

/-! ### Writing at once -/

def Event.isWritten : Event → Bool
  | .written _ => true
  | _ => false

/-- Nothing happens while something is being written. -/
def AtOnce (c : Console) : List Event → Prop
  | [] => True
  | e :: es => (c.holder.isWriting = true → e.isWritten = true) ∧ AtOnce (c.step e).1 es

instance AtOnce.decidable (c : Console) : (es : List Event) → Decidable (c.AtOnce es)
  | [] => .isTrue trivial
  | e :: es =>
    have := AtOnce.decidable (c.step e).1 es
    inferInstanceAs (Decidable (_ ∧ _))

theorem AtOnce.written {before rest : List Event} (h : c.AtOnce (before ++ e :: rest))
    (hw : (c.after before).holder.isWriting = true) : e.isWritten = true := by
  induction before generalizing c with
  | nil => exact h.1 hw
  | cons e' before ih => exact ih h.2 hw

/-- What a console has on the screen after the events. A question is on the screen once, with what
became of it, and nothing of another request between the two. -/
structure WholePrompts (start : Console) (es : List Event) : Prop where
  /-- The blocks stand one after the other, and after them the question of the request that has the
  console; the notice of the last block may still have to be written. -/
  screen : screen (start.acts es) ++ (start.after es).holder.owed start.prompt =
    (start.blocks es).flatMap (Block.texts start.prompt) ++
      (start.after es).holder.begun start.prompt
  /-- The blocks are in the order in which the requests were made. -/
  in_order : ((start.blocks es).map Block.request ++ (start.after es).requests).Sublist (made es)
  /-- Each request has at most one. -/
  once : (((start.blocks es).map Block.request ++ (start.after es).requests).map Request.id).Nodup
  /-- Those that had the console have one, or still have the console. -/
  had : ∀ r, (r ∈ (start.blocks es).map Block.request ∨ (start.after es).holder.Has r) ↔
    ∃ before rest, es = before ++ rest ∧ (start.after before).holder.Has r
  /-- Each block says what became of its request. -/
  ends : ∀ b ∈ start.blocks es, ∃ before e rest, es = before ++ e :: rest ∧
    Ends (start.after before) e ((start.after before).step e).2 b
  /-- A block is empty just if its request awaited a stale line that cannot be made out. -/
  bare : ∀ b ∈ start.blocks es, b.texts start.prompt = [] ↔
    ∃ f, b.ending = .failed .discarding (undecodableInput f)
  /-- A question is taken back only while a line is awaited, if writing takes no time. -/
  at_once : start.AtOnce es → ∀ b ∈ start.blocks es, ∀ q, b.ending = .dropped q →
    q = .discarding ∨ q = .awaiting
  /-- A request that is dropped before it has the console leaves nothing. -/
  queued : ∀ before id rest, es = before ++ .cancel id :: rest →
    (∃ r ∈ (start.after before).requests, r.id = id ∧ ¬ (start.after before).holder.Has r) →
    ∀ b ∈ start.blocks es, b.request.id ≠ id
  /-- When a question is to be written, the blocks before it are complete. -/
  before_question : ∀ before rest r, es = before ++ rest →
    (start.after before).holder = .held r .asking →
    start.blocks before <+: start.blocks es ∧
      Console.screen (start.acts before) =
        (start.blocks before).flatMap (Block.texts start.prompt)

theorem blocks_once (hf : c.holder.Fits c.input) (hc : c.requests = [])
    (hd : (requestIds es).Nodup) :
    (((c.blocks es).map Block.request ++ (c.after es).requests).map Request.id).Nodup := by
  have hsub := blocks_in_order hf es
  rw [hc, List.nil_append] at hsub
  rw [requestIds_eq_made] at hd
  exact (hsub.map _).nodup hd

theorem queued_no_block {before rest : List Event} {id : Nat}
    (hd : (requestIds (before ++ .cancel id :: rest)).Nodup)
    (hr : r ∈ ((ofPrompt p).after before).requests) (hid : r.id = id)
    (hhas : ¬ ((ofPrompt p).after before).holder.Has r) {b : Block}
    (hb : b ∈ (ofPrompt p).blocks (before ++ .cancel id :: rest)) : b.request.id ≠ id := by
  subst hid
  have hids := hd
  rw [requestIds, List.filterMap_append, List.nodup_append] at hids
  have hroster : Roster before ((ofPrompt p).after before) ((ofPrompt p).acts before) :=
    (Roster.start p).run hids.1
  have ht := cancel_turn ((ofPrompt p).after before) r.id
  rw [blocks_append, List.mem_append, blocks, List.mem_append] at hb
  rcases hb with hb | hb | hb
  · -- a request in flight has no block yet
    have honce := blocks_once (fits_ofPrompt p) rfl hids.1
    rw [List.map_append, List.nodup_append] at honce
    exact honce.2.2 _ (List.mem_map_of_mem (List.mem_map_of_mem hb)) _ (List.mem_map_of_mem hr)
  · -- the block that a drop ends is of the request that has the console
    intro hbr
    obtain ⟨q, hh, hq⟩ := (ht.ends (Option.mem_toList.1 hb)).has
    rw [requests_of_held hh] at hr
    rcases List.mem_cons.1 hr with rfl | hr
    · exact hhas ⟨q, hh, hq⟩
    · exact hroster.waits_ne hh hr hbr.symm
  · -- it is not in flight after it was dropped, and is not made again
    have hsub := blocks_in_order (ht.fits hroster.fits) rest
    rcases List.mem_append.1 (hsub.subset (List.mem_append_left _ (List.mem_map_of_mem hb)))
      with hm | hm
    · exact ht.cancelled.2 _ hm
    · intro hbr
      have hmem : b.request.id ∈ requestIds rest := by
        rw [requestIds_eq_made]
        exact List.mem_map_of_mem hm
      exact hids.2.2 _ (hroster.known r hr) _ hmem hbr.symm

/-- In a run in which every write succeeds, what the console writes is made of whole blocks, one for
each request that had the console. -/
theorem prompts_whole (p : Prompt) (es : List Event) (hw : ∀ f, .written (some f) ∉ es)
    (hd : (requestIds es).Nodup) : WholePrompts (ofPrompt p) es where
  screen := screen_blocks (fits_ofPrompt p) hw
  in_order := blocks_in_order (fits_ofPrompt p) es
  once := blocks_once (fits_ofPrompt p) rfl hd
  had _ := has_block_iff (fits_ofPrompt p)
  ends _ hb := ends_of_mem (fits_ofPrompt p) hb
  bare b hb := by
    obtain ⟨before, e, rest, rfl, hends⟩ := ends_of_mem (fits_ofPrompt p) hb
    exact hends.texts_eq_nil_iff fun f he => hw f (he ▸ List.mem_append_right _ List.mem_cons_self)
  at_once := by
    rintro hat ⟨r, _⟩ hb q rfl
    obtain ⟨before, e, rest, rfl, hends⟩ := ends_of_mem (fits_ofPrompt p) hb
    generalize (((ofPrompt p).after before).step e).2 = new at hends
    cases hends with
    | dropped _ _ hh hq =>
      have hwriting := hat.written
      rw [hh] at hwriting
      cases q with
      | admitted => exact absurd rfl hq
      | discarding => exact .inl rfl
      | awaiting => exact .inr rfl
      | asking | reporting => exact absurd (hwriting rfl) Bool.false_ne_true
  queued := by
    rintro before id rest rfl ⟨r, hr, hid, hhas⟩ b hb
    exact queued_no_block hd hr hid hhas hb
  before_question := by
    rintro before rest r rfl hh
    refine ⟨blocks_append before rest ▸ List.prefix_append _ _, ?_⟩
    have hwb : ∀ f, .written (some f) ∉ before := fun f h => hw f (List.mem_append_left _ h)
    have hs := screen_blocks (fits_ofPrompt p) hwb
    rw [hh] at hs
    exact (List.append_nil _).symm.trans (hs.trans (List.append_nil _))

/-! ### A request that leaves nothing -/

/-- A decision, a question that was taken back while a line was awaited, or a question that nobody
answers because the input has ended. -/
def Ending.Told : Ending → Prop
  | .decided _ => True
  | .dropped q => q = .discarding ∨ q = .awaiting
  | .failed q error => (q = .asking ∨ q = .awaiting) ∧ error = inputClosed

theorem Ending.Told.texts {b : Block} (h : b.ending.Told) (p : Prompt) :
    p.question b.request.name b.request.args ∈ b.texts p ∨ p.notice b.request.name ∈ b.texts p := by
  obtain ⟨r, ending⟩ := b
  cases ending with
  | decided approved => exact .inl (List.mem_cons_self ..)
  | dropped q => exact .inr (List.mem_append_right _ (List.mem_singleton_self _))
  | failed q error =>
    rcases h.1 with rfl | rfl <;> exact .inl (List.mem_singleton_self _)

/-- The line that a dropped question left to the next request cannot be made out. -/
def staleFault : List Event :=
  [.request ⟨0, "rm", ∅⟩, .advance, .advance, .written none, .cancel 0, .written none,
    .feed [255, 10], .request ⟨1, "mv", ∅⟩, .advance, .advance, .advance]

theorem prompts_whole_staleFault : (∀ f, .written (some f) ∉ staleFault) ∧
    (requestIds staleFault).Nodup ∧ WholePrompts (ofPrompt .default) staleFault := by
  have hw : ∀ f, .written (some f) ∉ staleFault := by simp [staleFault]
  have hd : (requestIds staleFault).Nodup := by decide
  exact ⟨hw, hd, prompts_whole .default staleFault hw hd⟩

/-- The second request had the console and has it no more, and left nothing on the screen. -/
theorem staleFault_leaves_nothing : (ofPrompt .default).AtOnce staleFault ∧
    (∀ f, .written (some f) ∉ staleFault) ∧
    (∃ before rest, staleFault = before ++ rest ∧
      ((ofPrompt .default).after before).holder.Has ⟨1, "mv", ∅⟩) ∧
    ((ofPrompt .default).after staleFault).holder = .free ∧
    ¬ ∃ bs : List Block, (∀ b ∈ bs, b.ending.Told) ∧ (∃ b ∈ bs, b.request = ⟨1, "mv", ∅⟩) ∧
      screen ((ofPrompt .default).acts staleFault) = bs.flatMap (Block.texts .default) := by
  refine ⟨by decide, by simp [staleFault], ⟨staleFault.take 10, [.advance], rfl, .discarding, rfl,
    by simp⟩, by decide +kernel, ?_⟩
  rintro ⟨bs, htold, ⟨b, hb, hr⟩, hs⟩
  have hscreen : screen ((ofPrompt .default).acts staleFault) =
      [Prompt.default.question "rm" ∅, Prompt.default.notice "rm"] := by decide +kernel
  have hmem {s : String} (h : s ∈ b.texts .default) :
      s = Prompt.default.question "rm" ∅ ∨ s = Prompt.default.notice "rm" := by
    have : s ∈ bs.flatMap (Block.texts .default) := List.mem_flatMap.2 ⟨b, hb, h⟩
    rw [← hs, hscreen] at this
    simpa using this
  rcases (htold b hb).texts .default with h | h <;> rw [hr] at h <;>
    rcases hmem h with h | h <;> revert h <;> decide

end GatedCalls.Console
