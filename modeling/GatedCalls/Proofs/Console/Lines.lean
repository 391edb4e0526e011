import GatedCalls.Console.Input
import GatedCalls.Proofs.Text.Utf8

/-!
# The lines of an input

`Reader.lines` cuts all the bytes that are there into lines at once; a reader takes the same lines
one by one (`take?_line`). `Books` says how a reader that took some lines stands to one that has all
the bytes: it has the lines that were not taken, and it keeps having them when more bytes arrive,
however they are cut into pieces.
-/

namespace GatedCalls.Console

open Text.Utf8 (Valid)

/-- The lines that end with a line feed, and the bytes after them. -/
def cutLines : List UInt8 → List (List UInt8) × List UInt8
  | [] => ([], [])
  | b :: rest =>
    let (lines, left) := cutLines rest
    if b = lineFeed then ([b] :: lines, left)
    else
      match lines with
      | [] => ([], b :: left)
      | l :: more => ((b :: l) :: more, left)

/-- The lines of a reader: what is left at the end of the input is a line unless it is empty. -/
def Reader.lines (r : Reader) : List (List UInt8) :=
  let (lines, left) := cutLines r.unread
  lines ++ if r.ended && !left.isEmpty then [left] else []

/-- A line feed at the end, and nowhere else. -/
def IsLine (l : List UInt8) : Prop := ∃ body, l = body ++ [lineFeed] ∧ lineFeed ∉ body

variable {u l rest : List UInt8} {b : UInt8} {used : List (List UInt8)} {r r' : Reader}

theorem cutLines_cons_ne (hb : b ≠ lineFeed) : cutLines (b :: u) =
    match (cutLines u).1 with
    | [] => ([], b :: (cutLines u).2)
    | l :: more => ((b :: l) :: more, (cutLines u).2) := by
  simp only [cutLines, if_neg hb]

theorem IsLine.cutLines_append (h : IsLine l) (u : List UInt8) :
    cutLines (l ++ u) = (l :: (cutLines u).1, (cutLines u).2) := by
  obtain ⟨body, rfl, hb⟩ := h
  induction body with
  | nil => simp [cutLines]
  | cons x body ih =>
    have hx : x ≠ lineFeed := fun h => hb (h ▸ List.mem_cons_self ..)
    have ih := ih fun h => hb (List.mem_cons_of_mem _ h)
    rw [List.cons_append, List.cons_append, cutLines_cons_ne hx, ih]

theorem cutLines_flatten_append (h : ∀ l ∈ used, IsLine l) (u : List UInt8) :
    cutLines (used.flatten ++ u) = (used ++ (cutLines u).1, (cutLines u).2) := by
  induction used with
  | nil => rfl
  | cons l used ih =>
    rw [List.flatten_cons, List.append_assoc,
      (h l (List.mem_cons_self ..)).cutLines_append,
      ih fun l hl => h l (List.mem_cons_of_mem _ hl)]
    rfl

theorem splitLine?_some (h : splitLine? u = some (l, rest)) : IsLine l ∧ u = l ++ rest := by
  induction u generalizing l with
  | nil => cases h
  | cons b u ih =>
    unfold splitLine? at h
    split at h
    · rename_i hb
      obtain ⟨rfl, rfl⟩ := Prod.mk.inj (Option.some.inj h)
      exact ⟨⟨[], by rw [hb]; rfl, by simp⟩, rfl⟩
    · rename_i hb
      obtain ⟨⟨l', rest'⟩, hs, he⟩ := Option.map_eq_some_iff.1 h
      obtain ⟨rfl, rfl⟩ := Prod.mk.inj he
      obtain ⟨⟨body, rfl, hbody⟩, rfl⟩ := ih hs
      refine ⟨⟨b :: body, rfl, fun hmem => ?_⟩, rfl⟩
      rcases List.mem_cons.1 hmem with h | h
      · exact hb h.symm
      · exact hbody h

theorem splitLine?_append (h : splitLine? u = some (l, rest)) (more : List UInt8) :
    splitLine? (u ++ more) = some (l, rest ++ more) := by
  induction u generalizing l with
  | nil => cases h
  | cons b u ih =>
    unfold splitLine? at h
    rw [List.cons_append, splitLine?]
    split at h
    · rename_i hb
      obtain ⟨rfl, rfl⟩ := Prod.mk.inj (Option.some.inj h)
      rw [if_pos hb]
    · rename_i hb
      obtain ⟨⟨l', rest'⟩, hs, he⟩ := Option.map_eq_some_iff.1 h
      obtain ⟨rfl, rfl⟩ := Prod.mk.inj he
      rw [if_neg hb, ih hs]
      rfl

theorem splitLine?_none (h : splitLine? u = none) : cutLines u = ([], u) := by
  induction u with
  | nil => rfl
  | cons b u ih =>
    unfold splitLine? at h
    split at h
    · cases h
    · rename_i hb
      rw [cutLines_cons_ne hb, ih (Option.map_eq_none_iff.1 h)]

theorem cutLines_spec (u : List UInt8) :
    (∀ l ∈ (cutLines u).1, IsLine l) ∧ u = (cutLines u).1.flatten ++ (cutLines u).2 := by
  induction hn : u.length using Nat.strongRecOn generalizing u with
  | ind n ih =>
    cases hs : splitLine? u with
    | none => rw [splitLine?_none hs]; exact ⟨by simp, rfl⟩
    | some p =>
      obtain ⟨l, rest⟩ := p
      obtain ⟨hl, rfl⟩ := splitLine?_some hs
      have hlt : rest.length < n := by
        obtain ⟨body, hbody, -⟩ := hl
        rw [← hn, hbody]
        simp only [List.length_append, List.length_cons]
        omega
      obtain ⟨hls, hu⟩ := ih _ hlt rest rfl
      rw [hl.cutLines_append]
      refine ⟨fun x hx => ?_, ?_⟩
      · rcases List.mem_cons.1 hx with rfl | hx
        · exact hl
        · exact hls x hx
      · rw [List.flatten_cons, List.append_assoc, ← hu]

namespace Reader

theorem feed_nil (r : Reader) : r.feed [] = r := by simp [feed]

theorem close_of_ended (h : r.ended = true) : r.close = r := by rw [close, ← h]

theorem take?_line (h : r.take? = some (l, r')) (hl : l ≠ []) :
    r.lines = l :: r'.lines ∧ r'.ended = r.ended := by
  unfold take? at h
  split at h
  · rename_i l' rest hs
    obtain ⟨rfl, rfl⟩ := Prod.mk.inj (Option.some.inj h)
    obtain ⟨hline, hu⟩ := splitLine?_some hs
    refine ⟨?_, rfl⟩
    simp only [lines, hu, hline.cutLines_append, List.cons_append]
  · rename_i hs
    split at h
    · rename_i he
      obtain ⟨rfl, rfl⟩ := Prod.mk.inj (Option.some.inj h)
      refine ⟨?_, rfl⟩
      simp [lines, splitLine?_none hs, he, cutLines, hl]
    · cases h

theorem take?_end (h : r.take? = some ([], r')) : r.lines = [] ∧ r.ended = true := by
  unfold take? at h
  split at h
  · rename_i l' rest hs
    obtain ⟨rfl, -⟩ := Prod.mk.inj (Option.some.inj h)
    obtain ⟨⟨body, hbody, -⟩, -⟩ := splitLine?_some hs
    simp at hbody
  · split at h
    · rename_i hs he
      obtain ⟨hu, -⟩ := Prod.mk.inj (Option.some.inj h)
      exact ⟨by simp [lines, hu, cutLines], he⟩
    · cases h

theorem take?_none (h : r.take? = none) : r.lines = [] ∧ r.ended = false := by
  unfold take? at h
  split at h
  · cases h
  · rename_i hs
    split at h
    · cases h
    · rename_i he
      simp [lines, splitLine?_none hs, he]

theorem next?_text {s : String} (h : r.next? = some (.line s, r')) : ∃ l, r.take? = some (l, r') ∧
    l ≠ [] ∧ Text.Utf8.fault? l = none ∧ Text.Utf8.decode? l = some s := by
  obtain ⟨⟨l, rd⟩, ht, hp⟩ := Option.map_eq_some_iff.1 h
  obtain ⟨hfound, rfl⟩ := Prod.mk.inj hp
  refine ⟨l, ht, ?_⟩
  cases l with
  | nil => cases hfound
  | cons b l =>
    refine ⟨List.cons_ne_nil _ _, ?_⟩
    cases hf : Text.Utf8.fault? (b :: l) with
    | some f => simp [hf] at hfound
    | none =>
      obtain ⟨t, ht⟩ := (Text.Utf8.fault?_eq_none_iff.1 hf).decode?
      simp only [hf, ht, Option.getD_some, LineRead.line.injEq] at hfound
      exact ⟨rfl, by rw [ht, hfound]⟩

theorem next?_line {s : String} (h : r.next? = some (.line s, r')) :
    ∃ l, r.take? = some (l, r') ∧ l ≠ [] ∧ Text.Utf8.decode? l = some s := by
  obtain ⟨l, ht, hl, -, hd⟩ := next?_text h
  exact ⟨l, ht, hl, hd⟩

theorem next?_ended (h : r.next? = some (.ended, r')) : r.take? = some ([], r') := by
  obtain ⟨⟨l, rd⟩, ht, hp⟩ := Option.map_eq_some_iff.1 h
  obtain ⟨hfound, rfl⟩ := Prod.mk.inj hp
  cases l with
  | nil => exact ht
  | cons b l => dsimp only at hfound; split at hfound <;> cases hfound

theorem next?_fault {f : Text.Utf8.Fault} (h : r.next? = some (.undecodable f, r')) :
    ∃ l, r.take? = some (l, r') ∧ l ≠ [] ∧ Text.Utf8.fault? l = some f := by
  obtain ⟨⟨l, rd⟩, ht, hp⟩ := Option.map_eq_some_iff.1 h
  obtain ⟨hfound, rfl⟩ := Prod.mk.inj hp
  refine ⟨l, ht, ?_⟩
  cases l with
  | nil => cases hfound
  | cons b l =>
    refine ⟨List.cons_ne_nil _ _, ?_⟩
    cases hf : Text.Utf8.fault? (b :: l) with
    | none => simp [hf] at hfound
    | some f' =>
      simp only [hf, LineRead.undecodable.injEq] at hfound
      rw [hfound]

theorem not_valid_of_fault {f : Text.Utf8.Fault} (h : Text.Utf8.fault? l = some f) : ¬ Valid l := by
  intro hv
  rw [Text.Utf8.fault?_eq_none_iff.2 hv] at h
  cases h

theorem next?_undecodable {f : Text.Utf8.Fault} (h : r.next? = some (.undecodable f, r')) :
    ∃ l ∈ r.lines, ¬ Valid l := by
  obtain ⟨l, ht, hl, hf⟩ := next?_fault h
  refine ⟨l, ?_, not_valid_of_fault hf⟩
  rw [(take?_line ht hl).1]
  exact List.mem_cons_self ..

theorem next?_none (h : r.next? = none) : r.lines = [] :=
  (take?_none (Option.map_eq_none_iff.1 h)).1

/-- What a read has found stays when more bytes arrive. -/
theorem next?_feed {found : LineRead} {bytes : List UInt8} (h : r.next? = some (found, r'))
    (hb : r.ended = true → bytes = []) : (r.feed bytes).next? = some (found, r'.feed bytes) := by
  obtain ⟨⟨l, rd⟩, ht, hp⟩ := Option.map_eq_some_iff.1 h
  obtain ⟨hfound, rfl⟩ := Prod.mk.inj hp
  suffices ht' : (r.feed bytes).take? = some (l, rd.feed bytes) by
    rw [next?, ht', ← hfound]
    rfl
  unfold take? at ht
  split at ht
  · rename_i hs
    obtain ⟨rfl, rfl⟩ := Prod.mk.inj (Option.some.inj ht)
    simp only [take?, feed, splitLine?_append hs]
  · split at ht
    · rename_i hs he
      obtain ⟨rfl, rfl⟩ := Prod.mk.inj (Option.some.inj ht)
      obtain rfl := hb he
      simp [take?, feed, hs, he]
    · cases ht

theorem next?_close {found : LineRead} (h : r.next? = some (found, r')) :
    r.close.next? = some (found, r'.close) := by
  obtain ⟨⟨l, rd⟩, ht, hp⟩ := Option.map_eq_some_iff.1 h
  obtain ⟨hfound, rfl⟩ := Prod.mk.inj hp
  suffices ht' : r.close.take? = some (l, rd.close) by
    rw [next?, ht', ← hfound]
    rfl
  unfold take? at ht
  split at ht
  · rename_i hs
    obtain ⟨rfl, rfl⟩ := Prod.mk.inj (Option.some.inj ht)
    simp only [take?, close, hs]
  · rename_i hs
    split at ht
    · obtain ⟨rfl, rfl⟩ := Prod.mk.inj (Option.some.inj ht)
      simp [take?, close, hs]
    · cases ht

theorem lines_feed (r : Reader) {bytes : List UInt8} (h : r.ended = true → bytes = []) :
    r.lines <+: (r.feed bytes).lines := by
  cases he : r.ended with
  | true =>
    obtain rfl := h he
    simp only [feed_nil, List.prefix_refl]
  | false =>
    obtain ⟨hall, hu⟩ := cutLines_spec r.unread
    have hc := cutLines_flatten_append hall ((cutLines r.unread).2 ++ bytes)
    rw [← List.append_assoc, ← hu] at hc
    simp only [lines, feed, he, hc]
    simp

theorem lines_close (r : Reader) : r.lines <+: r.close.lines := by
  cases he : r.ended with
  | true => simp only [close_of_ended he, List.prefix_refl]
  | false => simp [lines, close, he]

end Reader

/-! ### A reader that took some lines -/

/-- `left` took the lines `used` of what `fed` has. -/
structure Books (fed : Reader) (used : List (List UInt8)) (left : Reader) : Prop where
  lines : fed.lines = used ++ left.lines
  ended : left.ended = fed.ended
  /-- Before the end, the lines that were taken stand at the front of the bytes. -/
  front : fed.ended = false → fed.unread = used.flatten ++ left.unread ∧ ∀ l ∈ used, IsLine l

namespace Books

variable {fed left left' : Reader}

theorem refl (r : Reader) : Books r [] r := ⟨rfl, rfl, fun _ => ⟨rfl, by simp⟩⟩

theorem feed (h : Books fed used left) {bytes : List UInt8}
    (hb : fed.ended = true → bytes = []) : Books (fed.feed bytes) used (left.feed bytes) := by
  cases he : fed.ended with
  | true =>
    obtain rfl := hb he
    rw [Reader.feed_nil, Reader.feed_nil]
    exact h
  | false =>
    obtain ⟨hu, hl⟩ := h.front he
    have he' : left.ended = false := h.ended.trans he
    have hu' : (fed.feed bytes).unread = used.flatten ++ (left.feed bytes).unread := by
      show fed.unread ++ bytes = used.flatten ++ (left.unread ++ bytes)
      rw [hu, List.append_assoc]
    refine ⟨?_, h.ended, fun _ => ⟨hu', hl⟩⟩
    simp only [Reader.lines, hu', cutLines_flatten_append hl]
    simp [Reader.feed, he, he']

theorem close (h : Books fed used left) : Books fed.close used left.close := by
  refine ⟨?_, rfl, fun he => by cases he⟩
  cases he : fed.ended with
  | true =>
    rw [Reader.close_of_ended he, Reader.close_of_ended (h.ended.trans he)]
    exact h.lines
  | false =>
    obtain ⟨hu, hl⟩ := h.front he
    simp only [Reader.lines, Reader.close, hu, cutLines_flatten_append hl, List.append_assoc]
    rfl

theorem take (h : Books fed used left) (ht : left.take? = some (l, left')) (hl : l ≠ []) :
    Books fed (used ++ [l]) left' := by
  obtain ⟨hlines, hended⟩ := Reader.take?_line ht hl
  refine ⟨?_, hended.trans h.ended, fun he => ?_⟩
  · rw [h.lines, hlines, List.append_assoc]
    rfl
  · obtain ⟨hu, hall⟩ := h.front he
    unfold Reader.take? at ht
    rw [h.ended, he] at ht
    split at ht
    · rename_i hs
      obtain ⟨rfl, rfl⟩ := Prod.mk.inj (Option.some.inj ht)
      obtain ⟨hline, hsplit⟩ := splitLine?_some hs
      refine ⟨?_, fun x hx => ?_⟩
      · rw [hu, hsplit]
        simp
      · rcases List.mem_append.1 hx with hx | hx
        · exact hall x hx
        · rw [List.mem_singleton.1 hx]
          exact hline
    · cases ht

end Books

/-! ### Valid lines -/

theorem IsLine.getLast? (h : IsLine l) : l.getLast? = some lineFeed := by
  obtain ⟨body, rfl, -⟩ := h
  simp

theorem valid_of_flatten (h : ∀ l ∈ used, IsLine l) (hv : Valid (used.flatten ++ rest)) :
    (∀ l ∈ used, Valid l) ∧ Valid rest := by
  induction used with
  | nil => exact ⟨by simp, hv⟩
  | cons l used ih =>
    have hl := h l (List.mem_cons_self ..)
    rw [List.flatten_cons, List.append_assoc] at hv
    obtain ⟨hvl, hv⟩ := hv.cut fun x hx => by
      rw [hl.getLast?] at hx
      obtain rfl := Option.some.inj hx
      decide
    obtain ⟨hvs, hvr⟩ := ih (fun l hl => h l (List.mem_cons_of_mem _ hl)) hv
    refine ⟨fun x hx => ?_, hvr⟩
    rcases List.mem_cons.1 hx with rfl | hx
    · exact hvl
    · exact hvs x hx

/-- The lines of valid input are valid, also while some of it has not arrived. -/
theorem Reader.lines_valid {text : List UInt8} (hv : Valid text) (hp : r.unread <+: text)
    (he : r.ended = true → r.unread = text) : ∀ l ∈ r.lines, Valid l := by
  obtain ⟨more, hm⟩ := hp
  obtain ⟨hall, hu⟩ := cutLines_spec r.unread
  have hv' : Valid ((cutLines r.unread).1.flatten ++ ((cutLines r.unread).2 ++ more)) := by
    rw [← List.append_assoc, ← hu, hm]
    exact hv
  obtain ⟨hlines, hleft⟩ := valid_of_flatten hall hv'
  intro l hl
  rcases List.mem_append.1 hl with hl | hl
  · exact hlines l hl
  · split at hl
    · rename_i hc
      obtain rfl := List.mem_singleton.1 hl
      have hnil : more = [] := by
        have := he (Bool.and_eq_true_iff.1 hc).1
        simpa [← hm] using this
      rwa [hnil, List.append_nil] at hleft
    · cases hl

end GatedCalls.Console
