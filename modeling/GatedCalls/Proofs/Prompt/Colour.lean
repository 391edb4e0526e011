import GatedCalls.Proofs.Dict
import GatedCalls.Proofs.Prompt

/-!
# Questions with and without colours

The plain question and the coloured one are written separately. Both are the same `Sheet` written
down (`question_eq_write`), where colours stand around the heading, the name, the keys and the count
of hidden arguments. `strip` deletes the codes of colours from a text, and it leaves a sheet that
has no escape character in it as it is written plainly (`strip_write`).
-/

namespace GatedCalls

namespace Prompt

variable {t u rest after : List Char} {e : String × Json} {es : List (String × Json)} {args : Args}
  {c : Char}

/-! ### Colour codes -/

/-- The text behind the code of a colour that a text begins with: the escape character, `[`, digits
and `m`. -/
def afterCode? : List Char → Option (List Char)
  | '\x1b' :: '[' :: d :: rest =>
    match rest.dropWhile Char.isDigit with
    | 'm' :: after => if d.isDigit then some after else none
    | _ => none
  | _ => none

theorem length_lt_of_afterCode? (h : afterCode? t = some after) : after.length < t.length := by
  unfold afterCode? at h
  split at h
  · next d rest =>
    split at h
    · next after' hdrop =>
      split at h
      · obtain rfl := Option.some.inj h
        have hle := (List.dropWhile_suffix Char.isDigit (l := rest)).length_le
        rw [hdrop] at hle
        simp only [List.length_cons] at hle ⊢
        omega
      · cases h
    · cases h
  · cases h

/-- A text without the codes of colours. -/
def stripChars : List Char → List Char
  | [] => []
  | c :: rest =>
    match _h : afterCode? (c :: rest) with
    | some after => stripChars after
    | none => c :: stripChars rest
termination_by t => t.length
decreasing_by
  · exact length_lt_of_afterCode? _h
  · exact Nat.lt_succ_self _

def strip (s : String) : String := String.ofList (stripChars s.toList)

def code (ds : List Char) : List Char := '\x1b' :: '[' :: (ds ++ ['m'])

theorem stripChars_code {ds : List Char} (hne : ds ≠ []) (hds : ∀ d ∈ ds, d.isDigit = true)
    (rest : List Char) : stripChars (code ds ++ rest) = stripChars rest := by
  obtain ⟨d, ds, rfl⟩ := List.exists_cons_of_ne_nil hne
  rw [List.forall_mem_cons] at hds
  have hafter : afterCode? (code (d :: ds) ++ rest) = some rest := by
    have hdrop : (ds ++ 'm' :: rest).dropWhile Char.isDigit = 'm' :: rest := by
      rw [List.dropWhile_append_of_pos hds.2, List.dropWhile_cons_of_neg (by decide)]
    simp [code, afterCode?, hdrop, hds.1]
  show stripChars ('\x1b' :: (('[' :: (d :: ds ++ ['m'])) ++ rest)) = stripChars rest
  rw [stripChars]
  split
  · next after h =>
    exact congrArg stripChars (Option.some.inj (h.symm.trans hafter))
  · next h =>
    exact absurd (h.symm.trans hafter) (by simp)

theorem stripChars_cons (hc : c ≠ '\x1b') (rest : List Char) :
    stripChars (c :: rest) = c :: stripChars rest := by
  have hnone : afterCode? (c :: rest) = none := by
    unfold afterCode?
    split
    · next h => exact absurd (List.cons.inj h).1 hc
    · rfl
  rw [stripChars]
  split
  · next h => exact absurd (h.symm.trans hnone) (by simp)
  · rfl

theorem stripChars_append (ht : '\x1b' ∉ t) (rest : List Char) :
    stripChars (t ++ rest) = t ++ stripChars rest := by
  induction t with
  | nil => rfl
  | cons c t ih =>
    rw [List.mem_cons, not_or] at ht
    rw [List.cons_append, stripChars_cons (Ne.symm ht.1), ih ht.2, List.cons_append]

/-! ### Sheets -/

/-- What a question says: the arguments that it shows, and the number of those that it hides. -/
structure Sheet where
  heading : String
  name : String
  shown : List (String × Json)
  hidden : Option Nat

/-- The sheet of the question about a call. -/
def sheet (p : Prompt) (name : String) (args : Args) : Sheet :=
  ⟨p.heading, name, args.toList.take maxShown,
    if maxShown < args.size then some (args.size - maxShown) else none⟩

/-- A text in a colour, or as it is. -/
def paint (coloured : Bool) (ds text : List Char) : List Char :=
  if coloured then code ds ++ (text ++ code ['0']) else text

namespace Sheet

variable {s : Sheet}

def line (coloured : Bool) (e : String × Json) : List Char :=
  '\n' :: ' ' :: ' ' :: (paint coloured ['2'] (e.1.toList ++ [':']) ++ ' ' :: (preview e.2).toList)

/-- The line of the arguments that are hidden, if any are. -/
def footer (coloured : Bool) : Option Nat → List Char
  | none => []
  | some k => '\n' :: ' ' :: ' ' ::
      paint coloured ['2'] ('…' :: ' ' :: '+' :: ((Nat.repr k).toList ++ " more".toList))

/-- The question that says what is on a sheet, with colours or without. -/
def write (coloured : Bool) (s : Sheet) : List Char :=
  '\n' :: (paint coloured ['3', '3'] (s.heading.toList ++ [':']) ++
    '\n' :: (paint coloured ['1'] s.name.toList ++ (s.shown.flatMap (line coloured) ++
      (footer coloured s.hidden ++ "\nExecute? (y/n): ".toList))))

end Sheet

theorem toList_join (es : List (String × Json)) (f : String × Json → String) (coloured : Bool)
    (hf : ∀ e, (f e).toList = Sheet.line coloured e) :
    (String.join (es.map f)).toList = es.flatMap (Sheet.line coloured) := by
  rw [String.toList_join, List.flatMap_map]
  simp only [hf]

theorem toList_footer (p : Prompt) (name : String) :
    (if maxShown < args.size then "\n  … +" ++ Nat.repr (args.size - maxShown) ++ " more"
      else "").toList = Sheet.footer false (p.sheet name args).hidden := by
  unfold sheet
  split
  · simp [Sheet.footer, paint]
  · simp [Sheet.footer]

theorem toList_colouredFooter (p : Prompt) (name : String) :
    (if maxShown < args.size then
      "\n  \x1b[2m… +" ++ Nat.repr (args.size - maxShown) ++ " more\x1b[0m"
      else "").toList = Sheet.footer true (p.sheet name args).hidden := by
  unfold sheet
  split
  · simp [Sheet.footer, paint, code]
  · simp [Sheet.footer]

theorem question_eq_write (p : Prompt) (name : String) (args : Args) :
    (p.question name args).toList = (p.sheet name args).write p.coloured := by
  unfold question
  split
  · next hp =>
    have hlines := toList_join (args.toList.take maxShown)
      (fun e => "\n  \x1b[2m" ++ e.1 ++ ":\x1b[0m " ++ preview e.2) true
      (fun e => by simp [Sheet.line, paint, code])
    simp only [colouredArgs, String.toList_append, hlines, toList_colouredFooter p name, hp]
    simp [Sheet.write, paint, code, sheet]
  · next hp =>
    have hlines := toList_join (args.toList.take maxShown)
      (fun e => "\n  " ++ e.1 ++ ": " ++ preview e.2) false
      (fun e => by simp [Sheet.line, paint])
    simp only [plainArgs, String.toList_append, hlines, toList_footer p name, hp]
    simp [Sheet.write, paint, sheet]

/-! ### Taking the colours away -/

/-- A call, and the heading above it, without the escape character. -/
structure Unescaped (heading name : String) (args : Args) : Prop where
  heading : '\x1b' ∉ heading.toList
  name : '\x1b' ∉ name.toList
  key : ∀ e ∈ args.toList, '\x1b' ∉ e.1.toList
  value : ∀ e ∈ args.toList, ∀ s ∈ e.2.asString?, '\x1b' ∉ s.toList

instance (heading name : String) (args : Args) : Decidable (Unescaped heading name args) :=
  decidable_of_iff ('\x1b' ∉ heading.toList ∧ '\x1b' ∉ name.toList ∧
      (∀ e ∈ args.toList, '\x1b' ∉ e.1.toList) ∧
      ∀ e ∈ args.toList, ∀ s ∈ e.2.asString?, '\x1b' ∉ s.toList)
    ⟨fun h => ⟨h.1, h.2.1, h.2.2.1, h.2.2.2⟩, fun h => ⟨h.heading, h.name, h.key, h.value⟩⟩

theorem escape_notMem_toDigits (n : Nat) : '\x1b' ∉ Nat.toDigits 10 n :=
  fun h => by cases Decimal.allDigits_toDigits n _ h

theorem escape_notMem_preview {v : Json} (h : ∀ s ∈ v.asString?, '\x1b' ∉ s.toList) :
    '\x1b' ∉ (preview v).toList := by
  cases v with
  | null => decide
  | bool b => cases b <;> decide
  | number n =>
    rw [preview_number]
    intro hn
    cases n.isNumeric_chars _ hn
  | string s =>
    have hs := h s rfl
    rw [preview]
    split
    · simp [mt List.mem_of_mem_take hs]
    · simp [hs]
  | array items => simp [preview, escape_notMem_toDigits]
  | object members => simp [preview, escape_notMem_toDigits]

theorem stripChars_paint {ds : List Char} (hne : ds ≠ []) (hds : ∀ d ∈ ds, d.isDigit = true)
    (ht : '\x1b' ∉ t) (rest : List Char) :
    stripChars (paint true ds t ++ rest) = paint false ds t ++ stripChars rest := by
  show stripChars (code ds ++ (t ++ code ['0']) ++ rest) = t ++ stripChars rest
  rw [List.append_assoc, stripChars_code hne hds, List.append_assoc, stripChars_append ht,
    stripChars_code (by simp) (by simp)]

theorem stripChars_line (hk : '\x1b' ∉ e.1.toList)
    (hv : ∀ s ∈ e.2.asString?, '\x1b' ∉ s.toList) (rest : List Char) :
    stripChars (Sheet.line true e ++ rest) = Sheet.line false e ++ stripChars rest := by
  have hkey : '\x1b' ∉ e.1.toList ++ [':'] := by simp [hk]
  simp only [Sheet.line, List.cons_append, List.append_assoc]
  rw [stripChars_cons (by decide), stripChars_cons (by decide), stripChars_cons (by decide),
    stripChars_paint (by simp) (by simp) hkey, stripChars_cons (by decide),
    stripChars_append (escape_notMem_preview hv)]

theorem stripChars_lines (hes : ∀ e ∈ es, '\x1b' ∉ e.1.toList ∧
    ∀ s ∈ e.2.asString?, '\x1b' ∉ s.toList) (rest : List Char) :
    stripChars (es.flatMap (Sheet.line true) ++ rest) =
      es.flatMap (Sheet.line false) ++ stripChars rest := by
  induction es with
  | nil => rfl
  | cons e es ih =>
    rw [List.forall_mem_cons] at hes
    rw [List.flatMap_cons, List.append_assoc, stripChars_line hes.1.1 hes.1.2, ih hes.2,
      List.flatMap_cons, List.append_assoc]

theorem stripChars_footer (hidden : Option Nat) (rest : List Char) :
    stripChars (Sheet.footer true hidden ++ rest) =
      Sheet.footer false hidden ++ stripChars rest := by
  cases hidden with
  | none => rfl
  | some k =>
    have hcount : '\x1b' ∉ '…' :: ' ' :: '+' :: ((Nat.repr k).toList ++ " more".toList) := by
      simp [escape_notMem_toDigits]
    simp only [Sheet.footer, List.cons_append]
    rw [stripChars_cons (by decide), stripChars_cons (by decide), stripChars_cons (by decide),
      stripChars_paint (by simp) (by simp) hcount]

/-- A sheet without the escape character that is written with colours is, when they are taken away,
what is written without. -/
theorem stripChars_write {p : Prompt} {name : String} (h : Unescaped p.heading name args) :
    stripChars ((p.sheet name args).write true) = (p.sheet name args).write false := by
  have hheading : '\x1b' ∉ p.heading.toList ++ [':'] := by simp [h.heading]
  have hshown (e : String × Json) (he : e ∈ args.toList.take maxShown) :
      '\x1b' ∉ e.1.toList ∧ ∀ s ∈ e.2.asString?, '\x1b' ∉ s.toList :=
    ⟨h.key e (List.mem_of_mem_take he), h.value e (List.mem_of_mem_take he)⟩
  have hend : stripChars "\nExecute? (y/n): ".toList = "\nExecute? (y/n): ".toList := by
    have := stripChars_append (t := "\nExecute? (y/n): ".toList) (by decide) []
    simpa only [List.append_nil, stripChars] using this
  dsimp only [Sheet.write, sheet]
  rw [stripChars_cons (by decide), stripChars_paint (by simp) (by simp) hheading,
    stripChars_cons (by decide), stripChars_paint (by simp) (by simp) h.name,
    stripChars_lines hshown, stripChars_footer, hend]

/-! ### What is shown -/

/-- The arguments shown are the first ten in the order of their keys, or all of them. -/
structure Picks (args : Args) (shown : List (String × Json)) : Prop where
  count : shown.length = min args.size 10
  given : ∀ e ∈ shown, args.get? e.1 = some e.2
  ordered : (shown.map Prod.fst).Pairwise (· < ·)
  first : ∀ k v, args.get? k = some v → (k, v) ∈ shown ∨ ∀ e ∈ shown, e.1 < k

theorem picks_take (args : Args) : Picks args (args.toList.take maxShown) where
  count := (List.length_take ..).trans (Nat.min_comm ..)
  given e he := (lookup_iff_mem args.keys_nodup).2 (List.mem_of_mem_take he)
  ordered := args.sorted.sublist ((List.take_sublist ..).map _)
  first k v h := by
    have hmem : (k, v) ∈ args.toList := (lookup_iff_mem args.keys_nodup).1 h
    have hsorted := args.sorted
    rw [show args.entries = args.toList from rfl, ← List.take_append_drop maxShown args.toList]
      at hsorted
    rw [← List.take_append_drop maxShown args.toList] at hmem
    rcases List.mem_append.1 hmem with hmem | hmem
    · exact .inl hmem
    · rw [List.map_append, List.pairwise_append] at hsorted
      exact .inr fun e he => hsorted.2.2 e.1 (List.mem_map_of_mem he) k (List.mem_map_of_mem hmem)

/-- What is shown of a string: all of it, or its first eighty characters and an ellipsis. -/
inductive Excerpt (s : String) : String → Prop
  | whole (h : s.length ≤ 80) : Excerpt s ("\"" ++ s ++ "\"")
  | cut (head rest : String) (hs : s = head ++ rest) (hhead : head.length = 80)
      (hrest : rest ≠ "") : Excerpt s ("\"" ++ head ++ "…\"")

theorem excerpt_preview (s : String) : Excerpt s (preview (.string s)) := by
  rw [preview]
  split
  · next h =>
    have hlength : 80 < s.toList.length := by rwa [String.length_toList]
    refine .cut _ (String.ofList (s.toList.drop maxLength)) ?_ ?_ ?_
    · rw [← String.ofList_append, List.take_append_drop, String.ofList_toList]
    · rw [String.length_ofList, List.length_take]
      exact Nat.min_eq_left hlength.le
    · intro hrest
      have hnone := congrArg String.length hrest
      rw [String.length_ofList, List.length_drop, String.length_empty] at hnone
      exact Nat.sub_ne_zero_of_lt hlength hnone
  · next h => exact .whole (Nat.not_lt.1 h)

/-- The coloured question and the plain one say the same, and taking the colours away turns one into
the other if no text in it has the escape character. -/
theorem colours_aside (p : Prompt) (name : String) (args : Args) :
    let sheet := p.sheet name args
    (∀ coloured, ((p.withColour coloured).question name args).toList = sheet.write coloured) ∧
      (Unescaped p.heading name args →
        strip ((p.withColour true).question name args) = (p.withColour false).question name args) ∧
      Picks args sheet.shown ∧
      (∀ k, sheet.hidden = some k ↔ 10 < args.size ∧ k = args.size - 10) ∧
      ∀ s, Excerpt s (preview (.string s)) := by
  have hwrite (coloured : Bool) : ((p.withColour coloured).question name args).toList =
      (p.sheet name args).write coloured := question_eq_write (p.withColour coloured) name args
  refine ⟨hwrite, fun h => ?_, picks_take args, fun k => ?_, excerpt_preview⟩
  · rw [strip, hwrite true, stripChars_write h, ← hwrite false, String.ofList_toList]
  · show (if 10 < args.size then some (args.size - 10) else none) = some k ↔ _
    by_cases hmore : 10 < args.size
    · simp [hmore, eq_comm]
    · simp [hmore]

/-- Eleven numbers and a string of two-byte characters that is one too long. -/
def manyArgs : Args :=
  .ofList (("text", .string (String.ofList (List.replicate 81 'é'))) ::
    (List.range 11).map fun i => ("key" ++ Nat.repr i, .number (.int i)))

theorem colours_aside_manyArgs :
    Unescaped defaultHeading "import" manyArgs ∧
      strip ((default.withColour true).question "import" manyArgs) =
        (default.withColour false).question "import" manyArgs ∧
      (default.sheet "import" manyArgs).hidden = some 2 := by
  have hplain : Unescaped defaultHeading "import" manyArgs := by decide +kernel
  have hsize : manyArgs.size = 12 := by decide +kernel
  obtain ⟨-, hstrip, -, hhidden, -⟩ := colours_aside default "import" manyArgs
  exact ⟨hplain, hstrip hplain, (hhidden 2).2 (by rw [hsize]; decide)⟩

end Prompt

end GatedCalls
