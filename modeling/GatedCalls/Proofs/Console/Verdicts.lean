import GatedCalls.Proofs.Console.Pairing
import GatedCalls.Proofs.Console.Screen

/-!
# Whose line decides a request

In a run in which nothing is cancelled and every write succeeds the requests are served in order,
each by the next line. `verdicts` says what they get: a line that is text grants or denies, and one
that is no text fails its own request and, since nothing is read any more after it, all requests
that come later. `Tally` says of every moment of such a run which requests have been served, and
with which lines.
-/

namespace GatedCalls.Console

open Text.Utf8 (Valid fault? decode? fault?_eq_none_iff)

variable {c c' : Console} {e : Event} {es es' : List Event} {as new : List Act} {p : Prompt}
  {r : Request} {rs more : List Request} {l : List UInt8} {ls ls' used rest : List (List UInt8)}
  {ended ended' : Bool} {rd rd' : Reader}

/-- Nothing is cancelled, and no write fails. -/
def Event.isSteady : Event → Bool
  | .cancel _ | .written (some _) => false
  | .request _ | .feed _ | .close | .advance | .written none => true

def Act.decision? : Act → Option (Nat × Except ConfirmationError Bool)
  | .decided id result => some (id, result)
  | _ => none

def decisions (as : List Act) : List (Nat × Except ConfirmationError Bool) :=
  as.filterMap Act.decision?

/-- What a line says, for whoever it is read. -/
def verdict (p : Prompt) (l : List UInt8) : Except ConfirmationError Bool :=
  match fault? l with
  | none => .ok (p.affirms ((decode? l).getD ""))
  | some f => .error (undecodableInput f)

/-- The requests find nothing to be read. -/
def turnedAway (rs : List Request) : List (Nat × Except ConfirmationError Bool) :=
  rs.map fun r => (r.id, .error inputClosed)

/-- What the requests get of the lines, and of the end of the input if it has ended. -/
def verdicts (p : Prompt) (ended : Bool) :
    List Request → List (List UInt8) → List (Nat × Except ConfirmationError Bool)
  | [], _ => []
  | r :: rs, [] => if ended then turnedAway (r :: rs) else []
  | r :: rs, l :: ls =>
    (r.id, verdict p l) ::
      if (fault? l).isNone then verdicts p ended rs ls else turnedAway rs

/-! ### Serving more requests -/

theorem turnedAway_append (rs more : List Request) :
    turnedAway (rs ++ more) = turnedAway rs ++ turnedAway more := List.map_append

/-- Nothing is left for those who come after `n` requests. -/
def Shut (ended : Bool) (ls : List (List UInt8)) (n : Nat) : Prop :=
  (∃ l ∈ ls.take n, ¬ Valid l) ∨ ended = true ∧ ls.length < n

theorem verdicts_of_shut (h : Shut ended ls rs.length) (more : List Request) :
    verdicts p ended (rs ++ more) ls = verdicts p ended rs ls ++ turnedAway more := by
  induction rs generalizing ls with
  | nil => rcases h with ⟨l, hl, -⟩ | ⟨-, hlt⟩ <;> simp at *
  | cons r rs ih =>
    cases ls with
    | nil =>
      rcases h with ⟨l, hl, -⟩ | ⟨rfl, -⟩
      · simp at hl
      · exact turnedAway_append (r :: rs) more
    | cons l ls =>
      rw [List.cons_append, verdicts, verdicts]
      cases hf : fault? l with
      | some f => simp [turnedAway_append]
      | none =>
        have hrest : Shut ended ls rs.length := by
          rcases h with ⟨bad, hbad, hv⟩ | ⟨he, hlt⟩
          · rw [List.length_cons, List.take_succ_cons] at hbad
            rcases List.mem_cons.1 hbad with rfl | hbad
            · exact absurd (fault?_eq_none_iff.1 hf) hv
            · exact .inl ⟨bad, hbad, hv⟩
          · exact .inr ⟨he, Nat.lt_of_succ_lt_succ hlt⟩
        simp [ih hrest]

/-- As long as all lines were text, who comes next gets the lines that are left. -/
theorem verdicts_of_valid (hlen : used.length = rs.length) (hv : ∀ l ∈ used, Valid l)
    (more : List Request) : verdicts p ended (rs ++ more) (used ++ rest) =
      verdicts p ended rs (used ++ rest) ++ verdicts p ended more rest := by
  induction rs generalizing used with
  | nil =>
    obtain rfl := List.eq_nil_of_length_eq_zero hlen
    rfl
  | cons r rs ih =>
    cases used with
    | nil => cases hlen
    | cons l used =>
      obtain ⟨hl, hused⟩ := List.forall_mem_cons.1 hv
      have hf : fault? l = none := fault?_eq_none_iff.2 hl
      simp only [List.cons_append, verdicts, hf, Option.isNone_none, if_true]
      rw [ih (Nat.succ.inj hlen) hused]

theorem verdicts_extend (rs more : List Request) (ls : List (List UInt8)) :
    verdicts p ended rs ls <+: verdicts p ended (rs ++ more) ls := by
  induction rs generalizing ls with
  | nil => exact List.nil_prefix
  | cons r rs ih =>
    cases ls with
    | nil =>
      rw [List.cons_append, verdicts, verdicts]
      split
      · exact ⟨turnedAway more, (turnedAway_append (r :: rs) more).symm⟩
      · exact List.prefix_rfl
    | cons l ls =>
      rw [List.cons_append, verdicts, verdicts, List.prefix_cons_inj]
      split
      · exact ih ls
      · exact ⟨turnedAway more, (turnedAway_append rs more).symm⟩

theorem verdicts_grow (h : rs.length ≤ ls.length ∨ ∃ l ∈ ls, ¬ Valid l) (hp : ls <+: ls') :
    verdicts p ended rs ls = verdicts p ended' rs ls' := by
  induction rs generalizing ls ls' with
  | nil => rfl
  | cons r rs ih =>
    cases ls with
    | nil => simp at h
    | cons l ls =>
      obtain ⟨more, rfl⟩ := hp
      rw [List.cons_append, verdicts, verdicts]
      cases hf : fault? l with
      | some f => rfl
      | none =>
        have hrest : rs.length ≤ ls.length ∨ ∃ l ∈ ls, ¬ Valid l := by
          rcases h with hle | ⟨bad, hbad, hv⟩
          · exact .inl (Nat.le_of_succ_le_succ hle)
          · rcases List.mem_cons.1 hbad with rfl | hbad
            · exact absurd (fault?_eq_none_iff.1 hf) hv
            · exact .inr ⟨bad, hbad, hv⟩
        rw [ih hrest (List.prefix_append ls more)]

theorem Shut.succ {n : Nat} (h : Shut ended ls n) : Shut ended ls (n + 1) := by
  rcases h with ⟨l, hl, hv⟩ | ⟨he, hlt⟩
  · exact .inl ⟨l, (List.take_prefix_take_left (Nat.le_succ n)).subset hl, hv⟩
  · exact .inr ⟨he, Nat.lt_succ_of_lt hlt⟩

theorem verdict_of_text {s : String} (hf : fault? l = none) (hd : decode? l = some s) :
    verdict p l = .ok (p.affirms s) := by
  rw [verdict, hf, hd]
  rfl

theorem verdict_of_fault {f : Text.Utf8.Fault} (hf : fault? l = some f) :
    verdict p l = .error (undecodableInput f) := by
  rw [verdict, hf]

/-! ### The tally -/

/-- The request that has its result, which is being written. -/
def owed (c : Console) : List (Nat × Except ConfirmationError Bool) :=
  match c.holder with
  | .held r (.reporting b) => [(r.id, .ok b)]
  | _ => []

/-- The requests that have no result, in order. -/
def unserved (c : Console) : List Request :=
  match c.holder with
  | .held _ (.reporting _) => c.waiting
  | _ => c.requests

theorem unserved_of_held {q : Phase} (hc : c.holder = .held r q) (hq : ∀ b, q ≠ .reporting b) :
    c.owed = [] ∧ c.unserved = r :: c.waiting := by
  rw [owed, unserved, hc, ← requests_of_held hc]
  cases q with
  | reporting b => exact absurd rfl (hq b)
  | _ => exact ⟨rfl, rfl⟩

/-- No question was taken back. -/
def Holder.isSteady : Holder → Bool
  | .held _ .discarding | .retracting _ => false
  | _ => true

/-- Which requests have been served at a moment of a steady run. -/
structure Tally (p : Prompt) (es : List Event) (c : Console) (as : List Act)
    (served : List Request) : Prop where
  prompt : c.prompt = p
  steady : c.holder.isSteady = true
  reading : c.input.isReading = true → ∃ r, c.holder = .held r .awaiting
  made : made es = served ++ c.unserved
  results : decisions as ++ c.owed = verdicts p (supply es).ended served (supply es).lines
  /-- The reader took a line for each of them, and all were text. -/
  reader : ∀ rd, c.input.reader? = some rd → ∃ used, used.length = served.length ∧
    (∀ l ∈ used, Valid l) ∧ Books (supply es) used rd
  shut : c.input = .closed → Shut (supply es).ended (supply es).lines served.length

theorem decisions_append (as new : List Act) :
    decisions (as ++ new) = decisions as ++ decisions new := List.filterMap_append

theorem made_append (es es' : List Event) : made (es ++ es') = made es ++ made es' :=
  List.filterMap_append

namespace Tally

variable {served : List Request}

theorem start (p : Prompt) : Tally p [] (ofPrompt p) [] [] where
  prompt := rfl
  steady := rfl
  reading h := by cases h
  made := rfl
  results := rfl
  reader rd h := by
    obtain rfl : ⟨[], false⟩ = rd := Option.some.inj h
    exact ⟨[], rfl, by simp, .refl _⟩
  shut h := by cases h

theorem settled (h : Tally p es c as served) :
    served.length ≤ (supply es).lines.length ∨ (∃ l ∈ (supply es).lines, ¬ Valid l) ∨
      (supply es).ended = true := by
  cases hi : c.input with
  | idle rd | reading rd =>
    obtain ⟨used, hlen, -, hbooks⟩ := h.reader rd (by rw [hi]; rfl)
    left
    rw [hbooks.lines, List.length_append]
    omega
  | closed =>
    rcases h.shut hi with ⟨l, hl, hv⟩ | ⟨he, -⟩
    · exact .inr (.inl ⟨l, List.mem_of_mem_take hl, hv⟩)
    · exact .inr (.inr he)

/-- More input, or its end, changes nothing of what was served. -/
theorem arrive (h : Tally p es c as served) (hseal : Sealed (es ++ [e])) {f : Reader → Reader}
    (hf : supply (es ++ [e]) = f (supply es))
    (hstay : (supply es).ended = true → f (supply es) = supply es)
    (hbooks : ∀ used rd, Books (supply es) used rd → Books (f (supply es)) used (f rd))
    (he : e.made? = none) :
    Tally p (es ++ [e]) (c.withInput (c.input.mapReader f)) as served where
  prompt := h.prompt
  steady := h.steady
  reading hr := h.reading ((Input.isReading_mapReader ..).symm.trans hr)
  made := by
    rw [made_append, h.made]
    simp [Console.made, he, unserved, requests, withInput]
  results := by
    refine h.results.trans ?_
    rw [hf]
    have hgrow := hf ▸ hseal.lines_grow
    rcases h.settled with hle | hbad | hended
    · exact verdicts_grow (.inl hle) hgrow
    · exact verdicts_grow (.inr hbad) hgrow
    · rw [hstay hended]
  reader rd hrd := by
    obtain ⟨rd', hi, rfl⟩ : ∃ rd', c.input.reader? = some rd' ∧ f rd' = rd := by
      cases hi : c.input with
      | idle rd' | reading rd' =>
        rw [withInput, hi] at hrd
        exact ⟨rd', rfl, Option.some.inj hrd⟩
      | closed =>
        rw [withInput, hi] at hrd
        cases hrd
    obtain ⟨used, hlen, hv, hb⟩ := h.reader rd' hi
    rw [hf]
    exact ⟨used, hlen, hv, hbooks used rd' hb⟩
  shut hc := by
    have hi : c.input = .closed := by
      cases hi : c.input with
      | closed => rfl
      | idle rd | reading rd =>
        rw [withInput, hi] at hc
        cases hc
    rw [hf]
    rcases h.shut hi with ⟨l, hl, hv⟩ | ⟨hended, hlt⟩
    · obtain ⟨more, hmore⟩ := hf ▸ hseal.lines_grow
      refine .inl ⟨l, ?_, hv⟩
      rw [← hmore, List.take_append]
      exact List.mem_append_left _ hl
    · rw [hstay hended]
      exact .inr ⟨hended, hlt⟩

theorem pass (h : Tally p es c as served) (hf : supply (es ++ [e]) = supply es)
    (hp : c'.prompt = c.prompt) (hh : c'.holder.isSteady = true)
    (hr : c'.input.isReading = true → ∃ r, c'.holder = .held r .awaiting)
    (hi : c'.input.reader? = c.input.reader?)
    (hm : c'.unserved = c.unserved ++ e.made?.toList)
    (hd : decisions new ++ c'.owed = c.owed) : Tally p (es ++ [e]) c' (as ++ new) served where
  prompt := hp.trans h.prompt
  steady := hh
  reading := hr
  made := by
    rw [made_append, h.made, hm, List.append_assoc]
    cases he : e.made? <;> simp [Console.made, he]
  results := by
    rw [hf, decisions_append, List.append_assoc, hd]
    exact h.results
  reader rd hrd := by
    rw [hf]
    exact h.reader rd (hi ▸ hrd)
  shut hc := by
    rw [hf]
    refine h.shut ?_
    rw [hc] at hi
    cases hci : c.input with
    | closed => rfl
    | idle rd | reading rd => rw [hci] at hi; cases hi

theorem serve (h : Tally p es c as served) (hf : supply (es ++ [e]) = supply es)
    (hm : e.made? = none) {q : Phase} (hc : c.holder = .held r q) (hq : ∀ b, q ≠ .reporting b)
    (hp : c'.prompt = c.prompt) (hh : c'.holder.isSteady = true)
    (hr : c'.input.isReading = false) (hu : c'.unserved = c.waiting)
    (result : Except ConfirmationError Bool) (hd : decisions new ++ c'.owed = [(r.id, result)])
    (hv : verdicts p (supply es).ended (served ++ [r]) (supply es).lines =
      verdicts p (supply es).ended served (supply es).lines ++ [(r.id, result)])
    (hreader : ∀ rd, c'.input.reader? = some rd → ∃ used, used.length = served.length + 1 ∧
      (∀ l ∈ used, Valid l) ∧ Books (supply es) used rd)
    (hshut : c'.input = .closed → Shut (supply es).ended (supply es).lines (served.length + 1)) :
    Tally p (es ++ [e]) c' (as ++ new) (served ++ [r]) := by
  obtain ⟨howed, hunserved⟩ := unserved_of_held hc hq
  have hresults := h.results
  rw [howed, List.append_nil] at hresults
  exact {
    prompt := hp.trans h.prompt
    steady := hh
    reading := fun hread => by rw [hr] at hread; cases hread
    made := by
      rw [made_append, h.made, hunserved, hu]
      simp [Console.made, hm]
    results := by rw [hf, decisions_append, List.append_assoc, hd, hresults, hv]
    reader := by
      rw [hf, List.length_append]
      exact hreader
    shut := by
      rw [hf, List.length_append]
      exact hshut }

/-- A step of a steady run serves one request or none. -/
theorem turn (h : Tally p es c as served) (ht : Turn c e new c') (he : e.isSteady = true)
    (hseal : Sealed (es ++ [e])) : ∃ served', Tally p (es ++ [e]) c' (as ++ new) served' := by
  -- while a read is in progress, its request is the one that waits for it
  have unread {r : Request} {q : Phase} (hc : c.holder = .held r q) (hq : q ≠ .awaiting) :
      c.input.isReading = false := by
    refine Bool.eq_false_iff.2 fun hi => hq ?_
    obtain ⟨r', hr'⟩ := h.reading hi
    exact (Holder.held.inj (hc.symm.trans hr')).2
  have hsteady := h.steady
  cases ht with
  | drop | leave | retract | fail | noticeFail => cases he
  | discard r rd rd' line hc | discardEnd r rd rd' hc | discardFault r rd rd' f hc
  | notice name hc =>
    rw [hc] at hsteady
    cases hsteady
  | owe r hc hi =>
    rw [unread hc (by simp)] at hi
    cases hi
  | feed bytes =>
    refine ⟨served, ?_⟩
    rw [List.append_nil]
    refine h.arrive (f := (·.feed bytes)) hseal (supply_concat ..) (fun hended => ?_)
      (fun used rd hb => hb.feed hseal.feed) rfl
    rw [hseal.feed hended, Reader.feed_nil]
  | close =>
    refine ⟨served, ?_⟩
    rw [List.append_nil]
    exact h.arrive hseal (supply_concat ..) Reader.close_of_ended (fun used rd hb => hb.close) rfl
  | request r =>
    refine ⟨served, h.pass (supply_concat ..) rfl h.steady h.reading rfl ?_ rfl⟩
    cases hc : c.holder with
    | held r' q => cases q <;> simp [unserved, requests, hc, Event.made?]
    | free | retracting => simp [unserved, requests, hc, Event.made?]
  | rest e hwait =>
    rcases hwait with rfl | ⟨f, rfl⟩ <;>
      exact ⟨served, h.pass (supply_concat ..) rfl h.steady h.reading rfl
        (List.append_nil _).symm rfl⟩
  | give r more hc hw =>
    have hidle : c.input.isReading = false := by
      refine Bool.eq_false_iff.2 fun hi => ?_
      obtain ⟨r', hr'⟩ := h.reading hi
      rw [hc] at hr'
      cases hr'
    refine ⟨served, h.pass (supply_concat ..) rfl rfl (fun hi => ?_) rfl ?_ ?_⟩
    · exact Bool.noConfusion (hidle.symm.trans hi)
    · have hunserved : c.unserved = r :: more := by rw [unserved, requests, hc, hw]; rfl
      rw [hunserved]
      exact (List.append_nil _).symm
    · have howed : c.owed = [] := by rw [owed, hc]
      exact howed.symm
  | ready r hc hi =>
    obtain ⟨howed, hunserved⟩ := unserved_of_held hc (by simp)
    refine ⟨served, h.pass (supply_concat ..) rfl rfl (fun hi' => ?_) rfl ?_ howed.symm⟩
    · exact Bool.noConfusion (hi.symm.trans hi')
    · rw [hunserved]
      exact (List.append_nil _).symm
  | ask r rd hc hi =>
    obtain ⟨howed, hunserved⟩ := unserved_of_held hc (by simp)
    refine ⟨served, h.pass (supply_concat ..) rfl rfl (fun _ => ⟨r, rfl⟩) ?_ ?_ howed.symm⟩
    · rw [hi]
      rfl
    · rw [hunserved]
      exact (List.append_nil _).symm
  | report r b hc =>
    refine ⟨served, h.pass (supply_concat ..) rfl rfl (fun hi => ?_) rfl ?_ ?_⟩
    · exact Bool.noConfusion ((unread hc (by simp)).symm.trans hi)
    · have hunserved : c.unserved = c.waiting := by rw [unserved, hc]
      rw [hunserved]
      exact (List.append_nil _).symm
    · have howed : c.owed = [(r.id, .ok b)] := by rw [owed, hc]
      rw [howed]
      rfl
  | askClosed r hc hi =>
    refine ⟨served ++ [r], h.serve (supply_concat ..) rfl hc (by simp) rfl rfl ?_ rfl
      (.error inputClosed) rfl (verdicts_of_shut (h.shut hi) [r]) (fun rd hrd => ?_)
      fun _ => (h.shut hi).succ⟩
    · rw [release, hi]
      rfl
    · rw [release, hi] at hrd
      cases hrd
  | collect r rd rd' line hc hi hn =>
    obtain ⟨used, hlen, hused, hbooks⟩ := h.reader rd (by rw [hi]; rfl)
    obtain ⟨l, ht, hne, hf, hd⟩ := Reader.next?_text hn
    have hline : verdict p l = .ok (p.affirms line) := verdict_of_text hf hd
    have hlines : (supply es).lines = used ++ l :: rd'.lines := by
      rw [hbooks.lines, (Reader.take?_line ht hne).1]
    refine ⟨served ++ [r], h.serve (supply_concat ..) rfl hc (by simp) rfl rfl rfl rfl
      (.ok (c.prompt.affirms line)) rfl ?_ (fun rd'' hrd => ?_) (fun hclosed => ?_)⟩
    · rw [hlines, verdicts_of_valid hlen hused, h.prompt, ← hline]
      simp [verdicts, turnedAway]
    · obtain rfl : rd' = rd'' := Option.some.inj hrd
      refine ⟨used ++ [l], by simp [hlen], fun x hx => ?_, hbooks.take ht hne⟩
      rcases List.mem_append.1 hx with hx | hx
      · exact hused x hx
      · rw [List.mem_singleton.1 hx]
        exact fault?_eq_none_iff.1 hf
    · cases hclosed
  | collectEnd r rd rd' hc hi hn =>
    obtain ⟨used, hlen, hused, hbooks⟩ := h.reader rd (by rw [hi]; rfl)
    obtain ⟨hnone, hended⟩ := Reader.take?_end (Reader.next?_ended hn)
    have hlines : (supply es).lines = used ++ [] := by rw [hbooks.lines, hnone]
    have hend : (supply es).ended = true := hbooks.ended ▸ hended
    refine ⟨served ++ [r], h.serve (supply_concat ..) rfl hc (by simp) rfl rfl rfl rfl
      (.error inputClosed) rfl ?_ (fun rd'' hrd => by cases hrd) fun _ => .inr ⟨hend, ?_⟩⟩
    · rw [hlines, verdicts_of_valid hlen hused, hend]
      rfl
    · rw [hlines, List.append_nil]
      omega
  | collectFault r rd rd' f hc hi hn =>
    obtain ⟨used, hlen, hused, hbooks⟩ := h.reader rd (by rw [hi]; rfl)
    obtain ⟨l, ht, hne, hf⟩ := Reader.next?_fault hn
    have hline : verdict p l = .error (undecodableInput f) := verdict_of_fault hf
    have hlines : (supply es).lines = used ++ l :: rd'.lines := by
      rw [hbooks.lines, (Reader.take?_line ht hne).1]
    refine ⟨served ++ [r], h.serve (supply_concat ..) rfl hc (by simp) rfl rfl rfl rfl
      (.error (undecodableInput f)) rfl ?_ (fun rd'' hrd => by cases hrd)
      fun _ => .inl ⟨l, ?_, Reader.not_valid_of_fault hf⟩⟩
    · rw [hlines, verdicts_of_valid hlen hused, ← hline]
      simp [verdicts, turnedAway]
    · rw [hlines, ← hlen, List.take_append]
      simp

theorem run (h : Tally p es c as served) (hf : c.holder.Fits c.input)
    (hst : ∀ e ∈ es', e.isSteady = true) (hs : Sealed (es ++ es')) :
    ∃ served', Tally p (es ++ es') (c.after es') (as ++ c.acts es') served' := by
  induction es' generalizing es c as served with
  | nil => exact ⟨served, by simpa [after, acts] using h⟩
  | cons e es' ih =>
    obtain ⟨he, hrest⟩ := List.forall_mem_cons.1 hst
    rw [List.append_cons] at hs ⊢
    have ht := step_turn hf e
    obtain ⟨served', h'⟩ := h.turn ht he hs.left
    obtain ⟨served'', h''⟩ := ih h' (ht.fits hf) hrest hs
    refine ⟨served'', ?_⟩
    rw [acts, ← List.append_assoc]
    exact h''

/-- A console that rests has served everybody there was a line for. -/
theorem rested (h : Tally p es c as served) (hf : c.holder.Fits c.input)
    (hrest : move? none c = none) :
    decisions as = verdicts p (supply es).ended (Console.made es) (supply es).lines := by
  have hresults := h.results
  cases hc : c.holder with
  | free =>
    have howed : c.owed = [] := by rw [owed, hc]
    have hnobody : c.unserved = [] := by
      have ha := (Option.or_eq_none_iff.1 hrest).2
      cases hw : c.waiting with
      | nil => rw [unserved, requests, hc, hw]; rfl
      | cons r more => simp [advance?, hc, hw] at ha
    rw [howed, List.append_nil] at hresults
    rw [hresults, h.made, hnobody, List.append_nil]
  | retracting name =>
    have hsteady := h.steady
    rw [hc] at hsteady
    cases hsteady
  | held r q =>
    rcases settled_cases hrest hc with ⟨rfl, -⟩ | ⟨rfl, hcollect⟩
    · have hsteady := h.steady
      rw [hc] at hsteady
      cases hsteady
    · -- it waits for a line that is not there, and those after it for lines that come later
      obtain ⟨howed, -⟩ := unserved_of_held hc (by simp)
      rw [hc] at hf
      cases hi : c.input with
      | idle rd | closed => rw [hi] at hf; cases hf
      | reading rd =>
        obtain ⟨used, hlen, hused, hbooks⟩ := h.reader rd (by rw [hi]; rfl)
        simp only [collect?, hi, Option.map_eq_none_iff] at hcollect
        obtain ⟨hnone, hopen⟩ := Reader.take?_none (Option.map_eq_none_iff.1 hcollect)
        have hend : (supply es).ended = false := hbooks.ended ▸ hopen
        have hlines : (supply es).lines = used ++ [] := by rw [hbooks.lines, hnone]
        have hlater : verdicts p false c.unserved [] = [] := by
          cases c.unserved <;> rfl
        rw [howed, List.append_nil] at hresults
        rw [hresults, h.made, hlines, hend, verdicts_of_valid hlen hused, hlater, List.append_nil,
          List.append_nil]

end Tally

/-! ### Whose line decides -/

theorem verdicts_own {k : Nat} (hr : rs[k]? = some r) (hl : ls[k]? = some l)
    (hv : ∀ l ∈ ls.take k, Valid l) :
    (verdicts p ended rs ls)[k]? = some (r.id, verdict p l) := by
  induction k generalizing rs ls with
  | zero =>
    cases rs with
    | nil => cases hr
    | cons r' rs =>
      cases ls with
      | nil => cases hl
      | cons l' ls =>
        obtain rfl : r' = r := Option.some.inj hr
        obtain rfl : l' = l := Option.some.inj hl
        rfl
  | succ k ih =>
    cases rs with
    | nil => cases hr
    | cons r' rs =>
      cases ls with
      | nil => cases hl
      | cons l' ls =>
        rw [List.take_succ_cons] at hv
        obtain ⟨hl', hrest⟩ := List.forall_mem_cons.1 hv
        rw [verdicts, if_pos (by rw [fault?_eq_none_iff.2 hl']; rfl), List.getElem?_cons_succ]
        exact ih hr hl hrest

theorem verdicts_after_fault {k : Nat} (hr : rs[k]? = some r)
    (hbad : ∃ l ∈ ls.take k, ¬ Valid l) :
    (verdicts p ended rs ls)[k]? = some (r.id, .error inputClosed) := by
  obtain ⟨l, hl, hv⟩ := hbad
  induction k generalizing rs ls with
  | zero => simp at hl
  | succ k ih =>
    cases rs with
    | nil => cases hr
    | cons r' rs =>
      cases ls with
      | nil => simp at hl
      | cons l' ls =>
        rw [verdicts, List.getElem?_cons_succ]
        rw [List.getElem?_cons_succ] at hr
        cases hf : fault? l' with
        | some f => simp [turnedAway, hr]
        | none =>
          have hl' : l ≠ l' := by
            rintro rfl
            exact hv (fault?_eq_none_iff.1 hf)
          rw [List.take_succ_cons] at hl
          exact ih hr ((List.mem_cons.1 hl).resolve_left hl')

theorem verdict_ne_closed (p : Prompt) (l : List UInt8) : verdict p l ≠ .error inputClosed := by
  unfold verdict
  split
  · rintro ⟨⟩
  · rintro ⟨⟩

/-- In every run in which nothing is cancelled, every write succeeds and nothing arrives after the
end of the input, the requests get what `verdicts` says, as far as the console has come, and all of
it when it rests, which it does if it is left to go on. When it rests, the request with the number
`k` gets what the line with the number `k` says if and only if all lines before that one are text;
if one of them is not, the request fails as if the input had ended. -/
theorem line_verdicts (p : Prompt) (es : List Event) (hs : Sealed es)
    (hst : ∀ e ∈ es, e.isSteady = true) :
    let c := (ofPrompt p).after es
    let results := decisions ((ofPrompt p).acts es)
    let input := supply es
    results <+: verdicts p input.ended (made es) input.lines ∧
    (∃ more, (∀ e ∈ more, e = .advance ∨ e = .written none) ∧ move? none (c.after more) = none) ∧
    (move? none c = none → results = verdicts p input.ended (made es) input.lines ∧
      ∀ k r l, (made es)[k]? = some r → input.lines[k]? = some l →
        (results[k]? = some (r.id, verdict p l) ↔ ∀ l' ∈ input.lines.take k, Valid l') ∧
        ((∃ l' ∈ input.lines.take k, ¬ Valid l') →
          results[k]? = some (r.id, .error inputClosed))) := by
  intro c results input
  have hf : c.holder.Fits c.input := fits_after (fits_ofPrompt p) es
  obtain ⟨served, htally⟩ := (Tally.start p).run (fits_ofPrompt p) hst hs
  refine ⟨?_, exists_settled c, fun hrest => ?_⟩
  · have hserved : decisions ((ofPrompt p).acts es) <+:
        verdicts p input.ended served input.lines := ⟨_, htally.results⟩
    have hmade : made es = served ++ c.unserved := htally.made
    rw [hmade]
    exact hserved.trans (verdicts_extend _ _ _)
  · have hresults : results = verdicts p input.ended (made es) input.lines :=
      htally.rested hf hrest
    refine ⟨hresults, fun k r l hr hl => ?_⟩
    rw [hresults]
    have hafter : (∃ l ∈ input.lines.take k, ¬ Valid l) →
        (verdicts p input.ended (made es) input.lines)[k]? = some (r.id, .error inputClosed) :=
      verdicts_after_fault hr
    refine ⟨⟨fun hown l' hl' => Classical.byContradiction fun hv => ?_, verdicts_own hr hl⟩, hafter⟩
    rw [hafter ⟨l', hl', hv⟩] at hown
    have hsame : .error inputClosed = verdict p l := congrArg Prod.snd (Option.some.inj hown)
    exact verdict_ne_closed p l hsame.symm

/-- The line of the first of two requests is no text, that of the second consents. -/
def garbledLine : List Event :=
  [.feed [255, 10, 121, 10], .request ⟨1, "rm", ∅⟩, .request ⟨2, "rm", ∅⟩, .advance, .advance,
    .written none, .advance, .advance, .advance, .written none]

theorem line_verdicts_garbledLine :
    let c := (ofPrompt .default).after garbledLine
    let results := decisions ((ofPrompt .default).acts garbledLine)
    move? none c = none ∧ (supply garbledLine).ended = false ∧
      verdict .default [121, 10] = .ok true ∧
      results[0]? = some (1, .error (undecodableInput ⟨0, some 1⟩)) ∧
      results[1]? = some (2, .error inputClosed) ∧ results[1]? ≠ some (2, .ok true) := by
  intro c results
  have hs : Sealed garbledLine := fun before rest he => by
    have hmem : .close ∈ garbledLine := he ▸ List.mem_append_right _ List.mem_cons_self
    simp [garbledLine] at hmem
  have hrest : move? none c = none := by decide +kernel
  obtain ⟨-, -, hresults⟩ := line_verdicts .default garbledLine hs (by decide)
  obtain ⟨-, hlines⟩ := hresults hrest
  have hfault : fault? [255, 10] = some ⟨0, some 1⟩ := by decide +kernel
  have hgarbled : verdict .default [255, 10] = .error (undecodableInput ⟨0, some 1⟩) :=
    verdict_of_fault hfault
  have hconsent : verdict .default [121, 10] = .ok true := by
    have hnone : fault? [121, 10] = none := by decide +kernel
    have haffirms : Prompt.default.affirms ((decode? [121, 10]).getD "") = true := by
      decide +kernel
    rw [verdict, hnone]
    exact congrArg Except.ok haffirms
  obtain ⟨hfirst, -⟩ := hlines 0 ⟨1, "rm", ∅⟩ [255, 10] rfl rfl
  obtain ⟨-, hsecond⟩ := hlines 1 ⟨2, "rm", ∅⟩ [121, 10] rfl rfl
  have hclosed := hsecond ⟨[255, 10], List.mem_singleton_self _, Reader.not_valid_of_fault hfault⟩
  refine ⟨hrest, rfl, hconsent, ?_, hclosed, ?_⟩
  · rw [← hgarbled]
    exact hfirst.2 (by simp)
  · rw [hclosed]
    simp

end GatedCalls.Console
