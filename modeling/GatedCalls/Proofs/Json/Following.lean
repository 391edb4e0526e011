import GatedCalls.Proofs.Json.Likeness

/-!
# Reading documents that are alike

Of two documents that are alike, a reader makes values that correspond, or it makes none of either:
it follows the change of the string values (`Follows`). The reader of texts does so, and every
reader of lists, of objects by names and of records does if the readers of their parts do. Where a
reader stops and what it says then may differ, since the texts differ in length.
-/

namespace GatedCalls

namespace Dict

variable {α β : Type}

/-- The map with each of its values changed. -/
def map (f : α → β) (d : Dict α) : Dict β :=
  ⟨d.entries.map fun e => (e.1, f e.2), by rw [List.map_map]; exact d.sorted⟩

theorem put_map (f : α → β) (k : String) (v : α) (l : List (String × α)) :
    put k (f v) (l.map fun e => (e.1, f e.2)) = (put k v l).map fun e => (e.1, f e.2) := by
  induction l with
  | nil => rfl
  | cons e rest ih =>
    rw [List.map_cons, put, put, ih]
    split
    · rfl
    · split <;> rfl

theorem insertMany_map (f : α → β) (d : Dict α) (l : List (String × α)) :
    insertMany (d.map f) (l.map fun e => (e.1, f e.2)) = (insertMany d l).map f := by
  induction l generalizing d with
  | nil => rfl
  | cons e rest ih =>
    have hinsert : (d.map f).insert e.1 (f e.2) = (d.insert e.1 e.2).map f := by
      rw [insert, insert, map, map, mk.injEq]
      exact put_map f e.1 e.2 d.entries
    have h := ih (d.insert e.1 e.2)
    rw [← hinsert] at h
    exact h

theorem ofList_map (f : α → β) (l : List (String × α)) :
    ofList (l.map fun e => (e.1, f e.2)) = (ofList l).map f :=
  insertMany_map f .empty l

end Dict

namespace Json

variable {ε ε' α β : Type}

@[simp] theorem toOption_ok (a : α) : (Except.ok a : Except ε α).toOption = some a := rfl

theorem toOption_eq_some_iff {x : Except ε α} {a : α} : x.toOption = some a ↔ x = .ok a := by
  cases x with
  | error e => exact ⟨fun h => (by cases h), fun h => (by cases h)⟩
  | ok a' => exact ⟨fun h => congrArg _ (Option.some.inj h), fun h => congrArg _ (Except.ok.inj h)⟩

theorem toOption_bind (x : Except ε α) (f : α → Except ε β) :
    (x >>= f).toOption = x.toOption.bind fun a => (f a).toOption := by
  cases x <;> rfl

theorem toOption_mapError (x : Except ε α) (f : ε → ε') :
    (x.mapError f).toOption = x.toOption := by
  cases x <;> rfl

theorem toOption_reject (wanted : String) (d : Doc) :
    (Doc.reject wanted d : Except Fault α).toOption = none := by
  unfold Doc.reject
  rw [toOption_bind]
  cases d.found <;> rfl

variable {g : String → String} {t : Token} {p : Piece} {d d' : Doc}

/-- The reader makes values that correspond of documents that are alike. -/
def Follows (g : String → String) (reader : Decoder α) (f : α → α) : Prop :=
  ∀ d d', Alike g d d' → (reader d').toOption = (reader d).toOption.map f

/-! ### Texts -/

theorem text_of_found (h : ∀ s left, d.found ≠ .ok (.string s, left)) :
    (Decoder.text d).toOption = none := by
  rw [Decoder.text, toOption_bind]
  cases hf : d.found with
  | error f => rfl
  | ok x =>
    obtain ⟨found, left⟩ := x
    cases found with
    | string s => exact absurd hf (h s left)
    | _ => exact toOption_reject ..

theorem found_ne_string (ht : t.piece? = some p) (hs : ∀ s, p ≠ .string s) (s : String)
    (left : Option Nat) : (Doc.scalar t).found ≠ .ok (.string s, left) := by
  rw [Doc.found, Token.found]
  cases hl : t.lexeme with
  | string strict lenient =>
    rw [piece?_of_lexeme hl] at ht
    cases strict <;> cases lenient <;> cases ht <;> exact absurd rfl (hs _)
  | number strict lenient =>
    cases strict <;> simp [Except.map, bind, Except.bind, pure, Except.pure]
  | _ => simp [bind, Except.bind, pure, Except.pure]

theorem text_of_string {s : String} (ht : t.piece? = some (.string (some s))) :
    Decoder.text (.scalar t) = .ok s := by
  obtain ⟨r, l, hl, hr⟩ := lexeme_string ht
  rw [Decoder.text, Doc.found, Token.found, hl, hr s rfl]
  rfl

theorem follows_text : Follows g Decoder.text g := by
  intro d d' h
  cases h with
  | scalar hs ht ht' =>
    rw [text_of_found (found_ne_string ht.1 hs), text_of_found (found_ne_string ht'.1 hs)]
    rfl
  | string ht ht' =>
    rw [text_of_string ht.1, text_of_string ht'.1]
    rfl
  | array | object => rfl

/-! ### Null -/

theorem found_null_iff :
    (∃ left, (Doc.scalar t).found = .ok (.null, left)) ↔ t.piece? = some .null := by
  rw [Doc.found, Token.found, Token.piece?]
  cases hl : t.lexeme with
  | string strict lenient | number strict lenient =>
    cases strict <;> cases lenient <;>
      simp [Lexeme.piece?, Except.map, bind, Except.bind, pure, Except.pure]
  | _ => simp [Lexeme.piece?, bind, Except.bind, pure, Except.pure]

theorem Alike.found_null (h : Alike g d d') :
    (∃ left, d'.found = .ok (.null, left)) ↔ ∃ left, d.found = .ok (.null, left) := by
  cases h with
  | scalar _ ht ht' => rw [found_null_iff, found_null_iff, ht.1, ht'.1]
  | string ht ht' => simp [found_null_iff, ht.1, ht'.1]
  | array | object => simp [Doc.found]

theorem optional_of_null {reader : Decoder α} (h : ∃ left, d.found = .ok (.null, left)) :
    Decoder.optional reader d = .ok none := by
  obtain ⟨left, h⟩ := h
  rw [Decoder.optional, h]
  rfl

theorem optional_of_ne_null {reader : Decoder α} (h : ¬ ∃ left, d.found = .ok (.null, left)) :
    (Decoder.optional reader d).toOption = (reader d).toOption.map some := by
  unfold Decoder.optional
  split
  · exact absurd ⟨_, ‹_›⟩ h
  · rw [toOption_bind]
    cases reader d <;> rfl

theorem Follows.optional {reader : Decoder α} {f : α → α} (hr : Follows g reader f) :
    Follows g (Decoder.optional reader) (Option.map f) := by
  intro d d' h
  by_cases hnull : ∃ left, d.found = .ok (.null, left)
  · rw [optional_of_null hnull, optional_of_null (h.found_null.2 hnull)]
    rfl
  · rw [optional_of_ne_null hnull, optional_of_ne_null (mt h.found_null.1 hnull), hr _ _ h,
      Option.map_map, Option.map_map]
    rfl

/-! ### Lists, objects and records -/

/-- Members of the same name with documents that are alike. -/
structure LikeMember (g : String → String) (m m' : Doc.Member) : Prop where
  key : m'.key.toOption = m.key.toOption
  value : Alike g m.value m'.value

/-- What is seen of documents that are alike. -/
inductive Views (g : String → String) : Except Fault Doc.View → Except Fault Doc.View → Prop
  | fault {f f' : Fault} : Views g (.error f) (.error f')
  | single : Views g (.ok .single) (.ok .single)
  | array {left left' : Nat} (items : List (Doc × Doc)) (h : ∀ p ∈ items, Alike g p.1 p.2) :
    Views g (.ok (.array (items.map Prod.fst) (some (.closed left))))
      (.ok (.array (items.map Prod.snd) (some (.closed left'))))
  | object {left left' : Nat} (members : List (Doc.Member × Doc.Member))
    (h : ∀ m ∈ members, LikeMember g m.1 m.2) :
    Views g (.ok (.object (members.map Prod.fst) (some (.closed left))))
      (.ok (.object (members.map Prod.snd) (some (.closed left'))))

theorem depthFault?_cases (start start' depth : Nat) :
    (Doc.depthFault? start depth = none ∧ Doc.depthFault? start' depth = none) ∨
      ∃ f f', Doc.depthFault? start depth = some f ∧ Doc.depthFault? start' depth = some f' := by
  by_cases hd : maxDepth < depth
  · exact .inr ⟨_, _, if_pos hd, if_pos hd⟩
  · exact .inl ⟨if_neg hd, if_neg hd⟩

theorem Token.SameName.key {k k' : Token} (h : k.SameName k') :
    k'.key.toOption = k.key.toOption := by
  obtain ⟨s, hk, hk'⟩ := h
  have hkey {k : Token} (hk : k.piece? = some (.string s)) : k.key.toOption = s := by
    rw [Token.piece?] at hk
    rw [Token.key]
    cases hl : k.lexeme with
    | string strict lenient =>
      rw [hl] at hk
      cases strict <;> cases lenient <;> cases hk <;> rfl
    | number strict lenient => rw [hl] at hk; cases strict <;> cases lenient <;> cases hk
    | _ => rw [hl] at hk; cases hk
  rw [hkey hk.1, hkey hk'.1]

/-- A member of a document as its reader sees it. -/
def Doc.seen (m : Token × Option Token × Doc) : Doc.Member :=
  ⟨m.1.key, some (Doc.afterKey m.2.1), m.2.2⟩

theorem Doc.view_object {start depth : Nat} {members : List (Token × Option Token × Doc)}
    {e : Ending} (h : depthFault? start depth = none) :
    (Doc.object start depth members e).view = .ok (.object (members.map seen) (some e)) := by
  rw [view, h]
  rfl

theorem Alike.view (h : Alike g d d') : Views g d.view d'.view := by
  cases h with
  | scalar | string => exact .single
  | @array start start' depth _ _ items h =>
    rw [Doc.view, Doc.view]
    obtain ⟨hf, hf'⟩ | ⟨f, f', hf, hf'⟩ := depthFault?_cases start start' depth
    · rw [hf, hf']
      exact .array items h
    · rw [hf, hf']
      exact .fault
  | @object start start' depth _ _ members hk h =>
    obtain ⟨hf, hf'⟩ | ⟨f, f', hf, hf'⟩ := depthFault?_cases start start' depth
    · have hfst : (members.map Prod.fst).map Doc.seen =
          (members.map fun m => (Doc.seen m.1, Doc.seen m.2)).map Prod.fst := by
        rw [List.map_map, List.map_map]
        rfl
      have hsnd : (members.map Prod.snd).map Doc.seen =
          (members.map fun m => (Doc.seen m.1, Doc.seen m.2)).map Prod.snd := by
        rw [List.map_map, List.map_map]
        rfl
      rw [Doc.view_object hf, Doc.view_object hf', hfst, hsnd]
      refine .object _ ?_
      rw [List.forall_mem_map]
      exact fun m hm => ⟨(hk m hm).key, h m hm⟩
    · rw [Doc.view, Doc.view, hf, hf']
      exact .fault

variable {reader : Decoder α} {f : α → α}

theorem Follows.eachItem (hr : Follows g reader f) (items : List (Doc × Doc))
    (h : ∀ p ∈ items, Alike g p.1 p.2) (e e' : Option Ending) :
    (Decoder.eachItem reader e' (items.map Prod.snd)).toOption =
      (Decoder.eachItem reader e (items.map Prod.fst)).toOption.map (List.map f) := by
  induction items with
  | nil => rfl
  | cons p rest ih =>
    rw [List.forall_mem_cons] at h
    rw [List.map_cons, List.map_cons, Decoder.eachItem, Decoder.eachItem, toOption_bind,
      toOption_bind, toOption_mapError, toOption_mapError, hr _ _ h.1]
    cases (reader p.1).toOption with
    | none => rfl
    | some a =>
      simp only [Option.map_some, Option.bind_some, toOption_bind, ih h.2]
      cases (Decoder.eachItem reader e (rest.map Prod.fst)).toOption <;> rfl

theorem Follows.list (hr : Follows g reader f) : Follows g (Decoder.list reader) (List.map f) := by
  intro d d' h
  have hviews := h.view
  rw [Decoder.list, Decoder.list, toOption_bind, toOption_bind]
  generalize d.view = v at hviews
  generalize d'.view = v' at hviews
  cases hviews with
  | fault => rfl
  | single | object =>
    simp only [toOption_ok, Option.bind_some, toOption_reject, Option.map_none]
  | @array left left' items h =>
    simp only [toOption_ok, Option.bind_some, toOption_bind,
      hr.eachItem items h (some (.closed left)) (some (.closed left'))]
    cases (Decoder.eachItem reader (some (.closed left)) (items.map Prod.fst)).toOption <;> rfl

theorem Follows.eachMember (hr : Follows g reader f) (members : List (Doc.Member × Doc.Member))
    (h : ∀ m ∈ members, LikeMember g m.1 m.2) :
    (Decoder.eachMember reader (members.map Prod.snd)).toOption =
      (Decoder.eachMember reader (members.map Prod.fst)).toOption.map
        (List.map fun e => (e.1, f e.2)) := by
  induction members with
  | nil => rfl
  | cons m rest ih =>
    rw [List.forall_mem_cons] at h
    rw [List.map_cons, List.map_cons, Decoder.eachMember, Decoder.eachMember, toOption_bind,
      toOption_bind, h.1.key]
    cases m.1.key.toOption with
    | none => rfl
    | some k =>
      simp only [Option.bind_some, toOption_bind, hr _ _ h.1.value]
      cases (reader m.1.value).toOption with
      | none => rfl
      | some a =>
        simp only [Option.map_some, Option.bind_some, ih h.2]
        cases (Decoder.eachMember reader (rest.map Prod.fst)).toOption <;> rfl

theorem Follows.dict (hr : Follows g reader f) : Follows g (Decoder.dict reader) (Dict.map f) := by
  intro d d' h
  have hviews := h.view
  rw [Decoder.dict, Decoder.dict, toOption_bind, toOption_bind]
  generalize d.view = v at hviews
  generalize d'.view = v' at hviews
  cases hviews with
  | fault => rfl
  | single | array =>
    simp only [toOption_ok, Option.bind_some, toOption_reject, Option.map_none]
  | object members h =>
    simp only [toOption_ok, Option.bind_some, toOption_bind, hr.eachMember members h]
    cases (Decoder.eachMember reader (members.map Prod.fst)).toOption with
    | none => rfl
    | some vs => exact congrArg some (Dict.ofList_map f vs)

/-- A field of a record of which the parts follow the change `c`. -/
structure SlotFollows {P : Type} (g : String → String) (field : Decoder.Slot P) (c : P → P) :
    Prop where
  present : ∀ p, field.present (c p) = field.present p
  read : ∀ {d d'}, Alike g d d' → ∀ p,
    (field.read d' (c p)).toOption = (field.read d p).toOption.map c

variable {P : Type} {fields : List (Decoder.Slot P)} {c : P → P}

theorem slotFollows_of_reader {field : Decoder.Slot P} {put : P → α → P}
    (hr : Follows g reader f)
    (hread : ∀ d p, field.read d p = reader d >>= fun a => .ok (put p a))
    (hput : ∀ p a, put (c p) (f a) = c (put p a))
    (hpresent : ∀ p, field.present (c p) = field.present p) : SlotFollows g field c where
  present := hpresent
  read {d d'} h p := by
    rw [hread, hread, toOption_bind, toOption_bind, hr _ _ h]
    cases (reader d).toOption with
    | none => rfl
    | some a => exact congrArg some (hput p a)

theorem readMembers_follows (hf : ∀ field ∈ fields, SlotFollows g field c)
    (members : List (Doc.Member × Doc.Member)) (h : ∀ m ∈ members, LikeMember g m.1 m.2) (p : P) :
    (Decoder.readMembers fields (c p) (members.map Prod.snd)).toOption =
      (Decoder.readMembers fields p (members.map Prod.fst)).toOption.map c := by
  induction members generalizing p with
  | nil => rfl
  | cons m rest ih =>
    rw [List.forall_mem_cons] at h
    rw [List.map_cons, List.map_cons, Decoder.readMembers, Decoder.readMembers, toOption_bind,
      toOption_bind, h.1.key]
    cases m.1.key.toOption with
    | none => rfl
    | some k =>
      simp only [Option.bind_some]
      cases hfield : fields.find? (·.name == k) with
      | none =>
        obtain ⟨hskip, hskip'⟩ := h.1.value.skip
        simp only [toOption_bind, hskip, hskip', toOption_ok, Option.bind_some]
        exact ih h.2 p
      | some field =>
        have hfollows := hf field (List.mem_of_find?_eq_some hfield)
        simp only [hfollows.present]
        split
        · rfl
        · rw [toOption_bind, toOption_bind, hfollows.read h.1.value]
          cases (field.read m.1.value p).toOption with
          | none => rfl
          | some q => exact ih h.2 q

theorem readItems_follows (hf : ∀ field ∈ fields, SlotFollows g field c) (noun : String)
    (total left left' index : Nat) (items : List (Doc × Doc))
    (h : ∀ p ∈ items, Alike g p.1 p.2) (p : P) :
    ((Decoder.readItems noun total (some (.closed left')) index (c p) fields
        (items.map Prod.snd)).toOption.map fun r => (r.1, r.2.isEmpty)) =
      (Decoder.readItems noun total (some (.closed left)) index p fields
        (items.map Prod.fst)).toOption.map fun r => (c r.1, r.2.isEmpty) := by
  induction fields generalizing index p items with
  | nil => cases items <;> rfl
  | cons field fields ih =>
    rw [List.forall_mem_cons] at hf
    cases items with
    | nil =>
      simp only [List.map_nil, Decoder.readItems, toOption_bind]
      show Option.map _ (Except.toOption (if field.mayEnd = true then _ else _)) = _
      split
      · exact ih hf.2 (index + 1) [] (by simp) p
      · rfl
    | cons d items =>
      rw [List.forall_mem_cons] at h
      simp only [List.map_cons, Decoder.readItems, toOption_bind, toOption_mapError,
        hf.1.read h.1]
      cases (field.read d.1 p).toOption with
      | none => rfl
      | some q => exact ih hf.2 (index + 1) items h.2 q

theorem follows_record (hf : ∀ field ∈ fields, SlotFollows g field c) {start : P}
    (hstart : c start = start) {finish : P → Except Cause α}
    (hfinish : ∀ p, (finish (c p)).toOption = (finish p).toOption.map f) (noun : String) :
    Follows g (Decoder.record noun fields start finish) f := by
  intro d d' h
  have hend {ε : Type} (e e' : Cause → ε) (p : P) :
      ((finish (c p)).mapError e').toOption = ((finish p).mapError e).toOption.map f := by
    rw [toOption_mapError, toOption_mapError, hfinish]
  have hviews := h.view
  rw [Decoder.record, Decoder.record, toOption_bind, toOption_bind]
  generalize d.view = v at hviews
  generalize d'.view = v' at hviews
  cases hviews with
  | fault => rfl
  | single => simp only [toOption_ok, Option.bind_some, toOption_reject, Option.map_none]
  | object members h =>
    have hread := readMembers_follows hf members h start
    rw [hstart] at hread
    simp only [toOption_ok, Option.bind_some, toOption_bind, hread]
    cases (Decoder.readMembers fields start (members.map Prod.fst)).toOption with
    | none => rfl
    | some p => exact hend ..
  | @array left left' items h =>
    have hread := readItems_follows hf noun fields.length left left' 0 items h start
    rw [hstart] at hread
    simp only [toOption_ok, Option.bind_some, toOption_bind]
    generalize (Decoder.readItems noun fields.length (some (.closed left')) 0 start fields
      (items.map Prod.snd)).toOption = r' at hread
    generalize (Decoder.readItems noun fields.length (some (.closed left)) 0 start fields
      (items.map Prod.fst)).toOption = r at hread
    cases r with
    | none =>
      rw [Option.map_none, Option.map_eq_none_iff] at hread
      rw [hread]
      rfl
    | some r =>
      obtain ⟨r', rfl, hr⟩ := Option.map_eq_some_iff.1 hread
      obtain ⟨p, rest⟩ := r
      obtain ⟨p', rest'⟩ := r'
      obtain ⟨rfl, hempty⟩ := Prod.mk.inj hr
      -- what is left over is a fault in both
      cases rest with
      | nil =>
        obtain rfl := List.isEmpty_iff.1 hempty
        exact hend ..
      | cons e rest =>
        cases rest' with
        | nil => cases hempty
        | cons e' rest' => rfl

/-- Of two texts that differ in string values only, the values that are read correspond, if the
first is a document with nothing missing. -/
theorem Follows.ofSymbols (hr : Follows g reader f) {text text' : List Text.Symbol}
    (hp : Pairs g (tokens text) (tokens text')) (h : Doc.ofText text = (d, none))
    (hskip : d.skip = .ok ()) :
    (reader.ofSymbols text').toOption = (reader.ofSymbols text).toOption.map f := by
  obtain ⟨d', h', halike⟩ := alike_ofText hp h hskip
  rw [Decoder.ofSymbols, Decoder.ofSymbols, h, h', toOption_bind, toOption_bind, hr _ _ halike]
  cases (reader d).toOption <;> rfl

end Json

end GatedCalls
