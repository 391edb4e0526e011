import GatedCalls.Prompt
import GatedCalls.Proofs.Decimal.Reading

/-!
# What the prompt tells apart

Keys and strings stand in the question as they are, so a string can close its quotation mark, break
the line and go on as if another argument followed (`plainArgs_ambiguous`). `Legible` rules out the
three ways in which an argument passes for something else. Among legible maps the text is read from
the left: where a key ends, where a value ends, and then the same again (`eq_of_lines`), so it
determines the map, with colours and without (`question_determines_args`).
-/

namespace GatedCalls

namespace Prompt

variable {v v' : Json} {k k' r r' : List Char} {es es' : List (String × Json)} {args args' : Args}

/-! ### Values -/

/-- A value that is shown in full. -/
def isShort : Json → Bool
  | .null | .bool _ | .number _ => true
  | .string s => s.length ≤ maxLength
  | .array _ | .object _ => false

/-- What a string is shown as. -/
def quoted (s : List Char) : List Char := '"' :: (s ++ ['"'])

theorem preview_string {s : String} (h : isShort (.string s) = true) :
    (preview (.string s)).toList = quoted s.toList := by
  have hs : ¬ maxLength < s.length := by simpa [isShort] using h
  rw [preview, if_neg hs]
  simp [quoted]

/-- The characters with which a value that is no string is shown. -/
structure Bare (cs : List Char) : Prop where
  quote : '"' ∉ cs
  colon : ':' ∉ cs
  line : '\n' ∉ cs
  ne : cs ≠ []

theorem bare_of_numeric {cs : List Char} (hne : cs ≠ [])
    (h : ∀ c ∈ cs, Decimal.isNumeric c = true) : Bare cs where
  quote hc := by cases h _ hc
  colon hc := by cases h _ hc
  line hc := by cases h _ hc
  ne := hne

theorem preview_number (n : Number) : (preview (.number n)).toList = n.chars :=
  String.toList_ofList

theorem bare_preview (h : isShort v = true) (hs : ∀ s, v ≠ .string s) :
    Bare (preview v).toList := by
  cases v with
  | null => exact ⟨by decide, by decide, by decide, by decide⟩
  | bool b => cases b <;> exact ⟨by decide, by decide, by decide, by decide⟩
  | number n =>
    rw [preview_number]
    exact bare_of_numeric n.chars_ne_nil n.isNumeric_chars
  | string s => exact absurd rfl (hs s)
  | array _ | object _ => cases h

theorem quoted_injective {s s' : List Char} (h : quoted s = quoted s') : s = s' :=
  List.append_cancel_right (List.cons.inj h).2

theorem chars_ne_cons (n : Number) {c : Char} (hc : Decimal.isNumeric c = false)
    (rest : List Char) : n.chars ≠ c :: rest := by
  intro h
  rw [n.isNumeric_chars c (h ▸ List.mem_cons_self)] at hc
  cases hc

/-- A text shows one value at most. -/
theorem preview_injective (h : isShort v = true) (h' : isShort v' = true)
    (heq : (preview v).toList = (preview v').toList) : v = v' := by
  have string_bare {s : String} {w : Json} (hs : isShort (.string s) = true)
      (hw : isShort w = true) (hne : ∀ s, w ≠ .string s) :
      (preview (.string s)).toList ≠ (preview w).toList := by
    intro heq
    refine (bare_preview hw hne).quote ?_
    rw [← heq, preview_string hs]
    exact List.mem_cons_self
  cases v with
  | string s =>
    cases v' with
    | string s' =>
      rw [preview_string h, preview_string h'] at heq
      rw [String.toList_inj.1 (quoted_injective heq)]
    | _ => exact absurd heq (string_bare h h' (by simp))
  | number n =>
    cases v' with
    | number n' =>
      rw [preview_number, preview_number] at heq
      rw [Number.chars_injective heq]
    | string s => exact absurd heq.symm (string_bare h' h (by simp))
    | null => exact absurd ((preview_number n).symm.trans heq) (chars_ne_cons n rfl _)
    | bool b =>
      cases b <;> exact absurd ((preview_number n).symm.trans heq) (chars_ne_cons n rfl _)
    | array _ | object _ => cases h'
  | null =>
    cases v' with
    | null => rfl
    | bool b => cases b <;> cases heq
    | number n => exact absurd ((preview_number n).symm.trans heq.symm) (chars_ne_cons n rfl _)
    | string s => exact absurd heq.symm (string_bare h' h (by simp))
    | array _ | object _ => cases h'
  | bool b =>
    cases v' with
    | null => cases b <;> cases heq
    | bool b' => cases b <;> cases b' <;> first | rfl | cases heq
    | number n =>
      cases b <;> exact absurd ((preview_number n).symm.trans heq.symm) (chars_ne_cons n rfl _)
    | string s => exact absurd heq.symm (string_bare h' h (by simp))
    | array _ | object _ => cases h'
  | array _ | object _ => cases h

/-! ### Looks -/

/-- What surrounds the keys: what follows the line feed before one, and the colon behind it. -/
structure Look where
  before : List Char
  between : List Char
  before_colon : ':' ∉ before
  before_quote : '"' ∉ before
  between_colon : ':' ∉ between
  between_quote : '"' ∉ between

namespace Look

def plain : Look := ⟨[' ', ' '], [' '], by decide, by decide, by decide, by decide⟩

def coloured : Look :=
  ⟨[' ', ' ', '\x1b', '[', '2', 'm'], ['\x1b', '[', '0', 'm', ' '], by decide, by decide, by decide,
    by decide⟩

variable (l : Look)

/-- What stands before a key. -/
def lineBreak : List Char := '\n' :: l.before

/-- What stands between a key and its value. -/
def separator : List Char := ':' :: l.between

theorem colon_notMem_lineBreak : ':' ∉ l.lineBreak := by
  simp [lineBreak, l.before_colon]

theorem quote_notMem_lineBreak : '"' ∉ l.lineBreak := by
  simp [lineBreak, l.before_quote]

theorem quote_notMem_separator : '"' ∉ l.separator := by
  simp [separator, l.between_quote]

end Look

def look (p : Prompt) : Look := if p.coloured then .coloured else .plain

variable {l : Look}

/-! ### Lines -/

def lines (l : Look) (es : List (String × Json)) : List Char :=
  es.flatMap fun e => l.lineBreak ++ (e.1.toList ++ (l.separator ++ (preview e.2).toList))

/-- A key that neither breaks the line nor looks like the beginning of a string. -/
structure Plain (l : Look) (k : List Char) : Prop where
  line : ¬ l.lineBreak <:+: k
  quote : ¬ l.separator ++ ['"'] <:+: k

instance (k : List Char) : Decidable (Plain l k) :=
  decidable_of_iff (¬ l.lineBreak <:+: k ∧ ¬ l.separator ++ ['"'] <:+: k)
    ⟨fun h => ⟨h.1, h.2⟩, fun h => ⟨h.line, h.quote⟩⟩

/-- A string that does not look like another one with a further argument behind it. -/
def Closed (l : Look) (s : List Char) : Prop :=
  ∀ a b c, s ≠ a ++ '"' :: (l.lineBreak ++ (b ++ (l.separator ++ c)))

theorem closed_of_not_infix {s : List Char} (h : ¬ '"' :: l.lineBreak <:+: s) : Closed l s := by
  rintro a b c rfl
  exact h ⟨a, b ++ (l.separator ++ c), by simp⟩

/-- What a value is shown as, with a string that is closed. -/
inductive Shown (l : Look) : List Char → Prop
  | bare (cs : List Char) (h : Bare cs) : Shown l cs
  | string (s : List Char) (h : Closed l s) : Shown l (quoted s)

/-- What follows a value: nothing, or the line of another argument. -/
inductive Rest (l : Look) : List Char → Prop
  | nil : Rest l []
  | line (k z : List Char) (h : Plain l k) : Rest l (l.lineBreak ++ (k ++ (l.separator ++ z)))

theorem prefix_of_notMem {m x a y : List Char} {c : Char} (hc : c ∉ m)
    (h : m ++ x = a ++ c :: y) : m <+: a := by
  rcases List.append_eq_append_iff.1 h with ⟨u, rfl, -⟩ | ⟨u, rfl, hu⟩
  · exact List.prefix_append m u
  · cases u with
    | nil => rw [List.append_nil]
    | cons d u =>
      obtain rfl := (List.cons.inj hu).1
      exact absurd (by simp) hc

/-- What a separator and another one behind `w` have in common is all of `w`, or none. -/
theorem separator_prefix {w x y : List Char} (hw : w ≠ [])
    (h : l.separator ++ x = w ++ (l.separator ++ y)) : l.separator <+: w := by
  obtain ⟨c, w, rfl⟩ := List.exists_cons_of_ne_nil hw
  obtain ⟨rfl, hbetween⟩ := List.cons.inj h
  exact List.cons_prefix_cons.2 ⟨rfl, prefix_of_notMem l.between_colon hbetween⟩

theorem Rest.lineBreak_prefix (h : Rest l r) {a z : List Char} (hr : r = a ++ (l.separator ++ z)) :
    l.lineBreak <+: a := by
  cases h with
  | nil => simp [Look.separator] at hr
  | line k _ _ => exact prefix_of_notMem l.colon_notMem_lineBreak hr

theorem key_prefix {w vs vs' : List Char} (hk : Plain l (k ++ w)) (hv : Shown l vs) (hr : Rest l r)
    (h : l.separator ++ (vs ++ r) = w ++ (l.separator ++ (vs' ++ r'))) : w = [] := by
  by_contra hw
  obtain ⟨u, rfl⟩ := separator_prefix hw h
  rw [List.append_assoc, List.append_cancel_left_eq] at h
  rcases List.append_eq_append_iff.1 h with ⟨a, rfl, hrest⟩ | ⟨a, rfl, ha⟩
  · -- the key would reach into the next line
    obtain ⟨d, rfl⟩ := hr.lineBreak_prefix hrest
    exact hk.line ⟨k ++ (l.separator ++ vs), d, by simp⟩
  · -- the value would be a string, and the key would begin like one
    cases a with
    | nil =>
      obtain ⟨d, hd⟩ := hr.lineBreak_prefix (a := []) ha.symm
      simp [Look.lineBreak] at hd
    | cons c a =>
      obtain rfl := (List.cons.inj ha).1
      generalize hvs : u ++ ':' :: a = vs at hv
      cases hv with
      | bare _ hb => exact hb.colon (by simp [← hvs])
      | string s _ =>
        cases u with
        | nil => cases (List.cons.inj hvs).1
        | cons q u =>
          obtain rfl := (List.cons.inj hvs).1
          exact hk.quote ⟨k, u, by simp⟩

/-- A string that goes on behind its quotation mark holds the line of the next argument. -/
theorem inside_quote {y z : List Char} (hk : Plain l k) (hr' : Rest l r')
    (h : y ++ '"' :: r' = l.lineBreak ++ (k ++ (l.separator ++ z))) :
    ∃ b c, y = l.lineBreak ++ (b ++ (l.separator ++ c)) := by
  obtain ⟨y, rfl⟩ := prefix_of_notMem l.quote_notMem_lineBreak h.symm
  rw [List.append_assoc, List.append_cancel_left_eq] at h
  rcases List.append_eq_append_iff.1 h with ⟨a, rfl, ha⟩ | ⟨a, rfl, ha⟩
  · -- the key would reach behind the quotation mark, into another line
    cases a with
    | nil => cases (List.cons.inj ha).1
    | cons q a =>
      obtain ⟨d, rfl⟩ := hr'.lineBreak_prefix (List.cons.inj ha).2
      exact absurd ⟨y ++ [q], d, by simp⟩ hk.line
  · obtain ⟨d, rfl⟩ := prefix_of_notMem l.quote_notMem_separator ha
    exact ⟨k, d, rfl⟩

theorem value_prefix {vs y : List Char} (hv : Shown l vs) (hv' : Shown l (vs ++ y)) (hr : Rest l r)
    (hr' : Rest l r') (h : y ++ r' = r) : y = [] := by
  cases y with
  | nil => rfl
  | cons c y =>
    exfalso
    cases hr with
    | nil => cases h
    | line k z hk =>
      obtain rfl : c = '\n' := (List.cons.inj h).1
      -- only a string has a line break in it, and it would go on behind its quotation mark
      generalize hvs' : vs ++ '\n' :: y = vs' at hv'
      cases hv' with
      | bare _ hb => exact hb.line (by simp [← hvs'])
      | string s' hs' =>
        cases hv with
        | bare _ hb =>
          obtain ⟨q, vs, rfl⟩ := List.exists_cons_of_ne_nil hb.ne
          obtain rfl : q = '"' := (List.cons.inj hvs').1
          exact hb.quote List.mem_cons_self
        | string s _ =>
          have hbody : s ++ '"' :: '\n' :: y = s' ++ ['"'] := by
            simpa [quoted] using hvs'
          obtain ⟨y₀, last, hy⟩ := (List.eq_nil_or_concat ('\n' :: y)).resolve_left (by simp)
          rw [List.concat_eq_append] at hy
          rw [hy, ← List.cons_append, ← List.append_assoc] at hbody
          obtain ⟨rfl, hlast⟩ := List.append_inj' hbody rfl
          obtain rfl := (List.cons.inj hlast).1
          rw [hy, List.append_assoc] at h
          obtain ⟨b, c, hy₀⟩ := inside_quote hk hr' h
          exact hs' s b c (by rw [hy₀])

/-- Two lines with what follows them are the same from part to part. -/
theorem line_injective {vs vs' : List Char} (hk : Plain l k) (hk' : Plain l k') (hv : Shown l vs)
    (hv' : Shown l vs') (hr : Rest l r) (hr' : Rest l r')
    (h : k ++ (l.separator ++ (vs ++ r)) = k' ++ (l.separator ++ (vs' ++ r'))) :
    k = k' ∧ vs = vs' ∧ r = r' := by
  have hkey : k = k' ∧ vs ++ r = vs' ++ r' := by
    rcases List.append_eq_append_iff.1 h with ⟨w, rfl, hw⟩ | ⟨w, rfl, hw⟩
    · obtain rfl := key_prefix hk' hv hr hw
      exact ⟨(List.append_nil _).symm, List.append_cancel_left hw⟩
    · obtain rfl := key_prefix hk hv' hr' hw
      exact ⟨List.append_nil _, (List.append_cancel_left hw).symm⟩
  refine ⟨hkey.1, ?_⟩
  rcases List.append_eq_append_iff.1 hkey.2 with ⟨y, rfl, hy⟩ | ⟨y, rfl, hy⟩
  · obtain rfl := value_prefix hv hv' hr hr' hy.symm
    exact ⟨(List.append_nil _).symm, hy⟩
  · obtain rfl := value_prefix hv' hv hr' hr hy.symm
    exact ⟨List.append_nil _, hy.symm⟩

/-! ### Arguments -/

/-- An argument that passes for nothing else. -/
structure Clear (l : Look) (e : String × Json) : Prop where
  short : isShort e.2 = true
  key : Plain l e.1.toList
  value : ∀ s, e.2 = .string s → Closed l s.toList

theorem Clear.shown {e : String × Json} (h : Clear l e) : Shown l (preview e.2).toList := by
  obtain ⟨k, v⟩ := e
  by_cases hs : ∃ s, v = .string s
  · obtain ⟨s, rfl⟩ := hs
    rw [preview_string h.short]
    exact .string _ (h.value s rfl)
  · exact .bare _ (bare_preview h.short fun s hv => hs ⟨s, hv⟩)

theorem rest_lines (h : ∀ e ∈ es, Clear l e) : Rest l (lines l es) := by
  cases es with
  | nil => exact .nil
  | cons e es =>
    have hline : lines l (e :: es) = l.lineBreak ++ (e.1.toList ++
        (l.separator ++ ((preview e.2).toList ++ lines l es))) := by
      simp [lines]
    rw [hline]
    exact .line _ _ (h e List.mem_cons_self).key

theorem eq_of_lines (h : ∀ e ∈ es, Clear l e) (h' : ∀ e ∈ es', Clear l e)
    (heq : lines l es = lines l es') : es = es' := by
  induction es generalizing es' with
  | nil =>
    cases es' with
    | nil => rfl
    | cons => simp [lines, Look.lineBreak] at heq
  | cons e es ih =>
    cases es' with
    | nil => simp [lines, Look.lineBreak] at heq
    | cons e' es' =>
      rw [List.forall_mem_cons] at h h'
      have hline : e.1.toList ++ (l.separator ++ ((preview e.2).toList ++ lines l es)) =
          e'.1.toList ++ (l.separator ++ ((preview e'.2).toList ++ lines l es')) := by
        simpa [lines] using heq
      obtain ⟨hk, hv, hr⟩ := line_injective h.1.key h'.1.key h.1.shown h'.1.shown
        (rest_lines h.2) (rest_lines h'.2) hline
      rw [ih h.2 h'.2 hr, Prod.ext (String.toList_inj.1 hk)
        (preview_injective h.1.short h'.1.short hv)]

/-- Few arguments, of simple values that are shown in full. -/
structure Fits (args : Args) : Prop where
  size : args.size ≤ maxShown
  short : ∀ e ∈ args.toList, isShort e.2 = true

instance (args : Args) : Decidable (Fits args) :=
  decidable_of_iff (args.size ≤ maxShown ∧ ∀ e ∈ args.toList, isShort e.2 = true)
    ⟨fun h => ⟨h.1, h.2⟩, fun h => ⟨h.size, h.short⟩⟩

/-- Arguments none of which passes for something else. -/
structure Legible (l : Look) (args : Args) : Prop where
  key : ∀ e ∈ args.toList, Plain l e.1.toList
  value : ∀ e ∈ args.toList, ∀ s, e.2 = .string s → Closed l s.toList

theorem Fits.clear (hf : Fits args) (hl : Legible l args) : ∀ e ∈ args.toList, Clear l e :=
  fun e he => ⟨hf.short e he, hl.key e he, hl.value e he⟩

theorem Fits.take (h : Fits args) : args.toList.take maxShown = args.toList :=
  List.take_of_length_le h.size

theorem toList_join_lines {f : String × Json → String}
    (hf : ∀ e, (f e).toList =
      l.lineBreak ++ (e.1.toList ++ (l.separator ++ (preview e.2).toList))) :
    (String.join (es.map f)).toList = lines l es := by
  rw [String.toList_join, lines, List.flatMap_map]
  simp only [hf]

theorem toList_plainArgs (name : String) (h : Fits args) :
    (plainArgs name args).toList = name.toList ++ lines .plain args.toList := by
  rw [plainArgs, if_neg (Nat.not_lt.2 h.size), h.take]
  simp only [String.toList_append, String.append_empty]
  rw [toList_join_lines]
  intro e
  simp [Look.plain, Look.lineBreak, Look.separator]

theorem toList_colouredArgs (name : String) (h : Fits args) :
    (colouredArgs name args).toList =
      "\x1b[1m".toList ++ name.toList ++ "\x1b[0m".toList ++ lines .coloured args.toList := by
  rw [colouredArgs, if_neg (Nat.not_lt.2 h.size), h.take]
  simp only [String.toList_append, String.append_empty]
  rw [toList_join_lines]
  intro e
  simp [Look.coloured, Look.lineBreak, Look.separator]

theorem args_eq_of_lines (hf : Fits args) (hf' : Fits args') (hl : Legible l args)
    (hl' : Legible l args') (h : lines l args.toList = lines l args'.toList) : args = args' := by
  have := eq_of_lines (hf.clear hl) (hf'.clear hl') h
  cases args
  cases args'
  congr

/-- Few simple arguments that are legible are told apart by the text of a call and by the question
about it. -/
theorem question_determines_args {name : String} {a b : Args} (ha : Fits a) (hb : Fits b) :
    (Legible .plain a → Legible .plain b → plainArgs name a = plainArgs name b → a = b) ∧
    ∀ p : Prompt, Legible p.look a → Legible p.look b →
      p.question name a = p.question name b → a = b := by
  have hplain (hla : Legible .plain a) (hlb : Legible .plain b)
      (h : plainArgs name a = plainArgs name b) : a = b := by
    have htext := congrArg String.toList h
    rw [toList_plainArgs name ha, toList_plainArgs name hb] at htext
    exact args_eq_of_lines ha hb hla hlb (List.append_cancel_left htext)
  have hcoloured (hla : Legible .coloured a) (hlb : Legible .coloured b)
      (h : colouredArgs name a = colouredArgs name b) : a = b := by
    have htext := congrArg String.toList h
    rw [toList_colouredArgs name ha, toList_colouredArgs name hb] at htext
    exact args_eq_of_lines ha hb hla hlb (List.append_cancel_left htext)
  refine ⟨hplain, fun p hla hlb h => ?_⟩
  unfold question at h
  unfold look at hla hlb
  split at h
  · next hc =>
    rw [if_pos hc] at hla hlb
    exact hcoloured hla hlb (String.append_right_inj _ |>.1 (String.append_left_inj _ |>.1 h))
  · next hc =>
    rw [if_neg hc] at hla hlb
    exact hplain hla hlb (String.append_right_inj _ |>.1 (String.append_left_inj _ |>.1 h))

/-- A string with quotation marks and a line feed in it beside a flag, in two orders. -/
theorem question_determines_args_reordered :
    let a : Args := .ofList [("path", .string "a: \"b\"\n"), ("force", .bool true)]
    let b : Args := .ofList [("force", .bool true), ("path", .string "a: \"b\"\n")]
    Fits a ∧ Fits b ∧ Legible .plain a ∧ Legible .plain b ∧
      plainArgs "rm" a = plainArgs "rm" b ∧ a = b := by
  intro a b
  have hlegible {d : Args}
      (hd : d.toList = [("force", .bool true), ("path", .string "a: \"b\"\n")]) :
      Legible .plain d := by
    refine ⟨by rw [hd]; decide +kernel, ?_⟩
    rw [hd]
    simpa using closed_of_not_infix (by decide +kernel)
  have ha : Fits a := by decide +kernel
  have hb : Fits b := by decide +kernel
  have hla : Legible .plain a := hlegible (by decide +kernel)
  have hlb : Legible .plain b := hlegible (by decide +kernel)
  have htext : plainArgs "rm" a = plainArgs "rm" b := by decide +kernel
  exact ⟨ha, hb, hla, hlb, htext, (question_determines_args ha hb).1 hla hlb htext⟩

/-- Different maps that look alike. -/
def Alike (a b : Args) : Prop := Fits a ∧ Fits b ∧ a ≠ b ∧ plainArgs "rm" a = plainArgs "rm" b

instance (a b : Args) : Decidable (Alike a b) := inferInstanceAs (Decidable (_ ∧ _))

/-- Each of the three ways suffices: a string with another argument in it, a key with another
argument in it, and a key that begins like a string. -/
theorem plainArgs_ambiguous :
    Alike (.ofList [("a", .string "1\"\n  b: \"2")])
      (.ofList [("a", .string "1"), ("b", .string "2")]) ∧
    Alike (.ofList [("a: 1\n  b", .null)]) (.ofList [("a", .number (.int 1)), ("b", .null)]) ∧
    Alike (.ofList [("a: \"b", .string "c")]) (.ofList [("a", .string "b: \"c")]) := by
  decide +kernel

end Prompt

end GatedCalls
