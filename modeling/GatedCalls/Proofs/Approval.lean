import GatedCalls.Approval.Service
import GatedCalls.Proofs.Json.Completion
import GatedCalls.Proofs.Json.Record

/-!
# What an approval service can answer

A decision comes of two kinds of replies only: an object with one member `approved` that is the word
`true` or `false`, and a list of that word alone, which a reader of records takes for the object
(`decision_iff`). A service that is asked approves if such a reply with `true` arrives in time under
a status of success, and in no other case (`Service.ask_outcome`).
-/

namespace GatedCalls.Approval

open Json

/-- A member of an object, its name and the pieces of its value. -/
def entry (name : String) (value : List Piece) : NamedValue := (some name, value)

/-- A member that says nothing about the decision. -/
def Aside (e : NamedValue) : Prop :=
  ∃ name value, e = entry name value ∧ name ≠ "approved" ∧ IsValue value

theorem Aside.isValue {e : NamedValue} (h : Aside e) : IsValue e.2 := by
  obtain ⟨name, value, rfl, -, hv⟩ := h
  exact hv

/-- The pieces of a reply with the decision `b`. -/
inductive Reply (b : Bool) : List Piece → Prop
  | object (before after : List NamedValue) (hb : ∀ e ∈ before, Aside e)
    (ha : ∀ e ∈ after, Aside e) :
    Reply b (objectOf (before ++ entry "approved" [.bool b] :: after))
  | array : Reply b (arrayOf [[.bool b]])

/-- The bytes of a reply with the decision `b`. -/
def Decides (body : List UInt8) (b : Bool) : Prop :=
  ∃ ps, Written (Mark.ofSymbols (Text.Utf8.symbols body)) ps ∧ Reply b ps

namespace Service

variable {b : Bool} {d : Doc} {p q : Option Bool} {m : Doc.Member} {ms : List Doc.Member}
  {members : List (Token × Option Token × Doc)}

def field : Decoder.Slot (Option Bool) :=
  ⟨"approved", Option.isSome, fun d _ => do return some (← Decoder.flag d), false⟩

theorem require_iff {g : Cause → Fault} :
    (Decoder.require "approved" p).mapError g = .ok b ↔ p = some b := by
  rw [mapError_ok_iff]
  cases p <;> simp [Decoder.require]

/-! ### The flag -/

theorem flag_ok_iff : Decoder.flag d = .ok b ↔ ∃ left, d.found = .ok (.bool b, left) := by
  unfold Decoder.flag
  cases d.found with
  | error f => simp [bind, Except.bind]
  | ok x =>
    obtain ⟨found, left⟩ := x
    cases found <;> simp [bind, Except.bind, pure, Except.pure, reject_ne_ok]

theorem found_bool_iff {t : Token} : t.found = .ok (.bool b) ↔ t.piece? = some (.bool b) := by
  constructor
  · intro h
    unfold Token.found at h
    split at h
    case h_2 hl => rw [piece?_of_lexeme hl, Found.bool.inj (Except.ok.inj h)]; rfl
    case h_3 strict _ _ => cases strict <;> cases h
    case h_4 strict _ _ => cases strict <;> cases h
    all_goals cases h
  · intro h
    rw [Token.found, lexeme_of_piece h rfl]

theorem flag_of_pieces (h : d.pieces? = some [.bool b]) : Decoder.flag d = .ok b := by
  rw [flag_ok_iff]
  cases d with
  | scalar t =>
    obtain ⟨p, hp, hb⟩ := Option.map_eq_some_iff.1 h
    obtain rfl := (List.cons.inj hb).1
    exact ⟨some t.stop, by rw [Doc.found, found_bool_iff.2 hp]; rfl⟩
  | array start depth items e => cases e <;> simp [Doc.pieces?, arrayOf] at h
  | object start depth members e => cases e <;> simp [Doc.pieces?, objectOf] at h
  | _ => cases h

theorem pieces_of_flag (hd : d.Proper) (h : Decoder.flag d = .ok b) :
    d.pieces? = some [.bool b] := by
  rw [flag_ok_iff] at h
  obtain ⟨left, h⟩ := h
  cases hd with
  | scalar t ht =>
    obtain ⟨f, hf, hb⟩ := bind_ok_iff.1 h
    obtain ⟨rfl, -⟩ := Prod.mk.inj (Except.ok.inj hb)
    rw [Doc.pieces?, found_bool_iff.1 hf]
    rfl
  | array | object | noValue | noColon => cases h

/-- A member that is passed over. -/
def Other (m : Doc.Member) : Prop :=
  ∃ k, m.key = .ok k ∧ k ≠ "approved" ∧ m.value.skip = .ok ()

/-- The member with the decision. -/
def Deciding (b : Bool) (m : Doc.Member) : Prop :=
  m.key = .ok "approved" ∧ Decoder.flag m.value = .ok b

theorem readMembers_cons : Decoder.readMembers [field] p (m :: ms) = (do
    let k ← m.key
    if k = "approved" then
      if p.isSome then .error ⟨.duplicateField k, m.afterKey⟩
      else Decoder.readMembers [field] (some (← Decoder.flag m.value)) ms
    else
      m.value.skip
      Decoder.readMembers [field] p ms) := by
  rw [Decoder.readMembers]
  congr 1
  funext k
  by_cases hk : k = "approved"
  · subst hk
    cases p <;> cases hf : Decoder.flag m.value <;>
      simp [field, hf, bind, Except.bind, pure, Except.pure]
  · simp [field, hk, Ne.symm hk]

theorem readMembers_cons_iff : Decoder.readMembers [field] p (m :: ms) = .ok q ↔
    Other m ∧ Decoder.readMembers [field] p ms = .ok q ∨
      p = none ∧ ∃ b, Deciding b m ∧ Decoder.readMembers [field] (some b) ms = .ok q := by
  rw [readMembers_cons]
  cases hk : m.key with
  | error f => simp [Other, Deciding, hk, bind, Except.bind]
  | ok k =>
    by_cases hname : k = "approved"
    · subst hname
      cases p <;> cases hf : Decoder.flag m.value <;>
        simp [Other, Deciding, hk, hf, bind, Except.bind]
    · cases hs : m.value.skip <;> simp [Other, Deciding, hk, hs, hname, bind, Except.bind]

theorem readMembers_some_iff : Decoder.readMembers [field] (some b) ms = .ok q ↔
    q = some b ∧ ∀ m ∈ ms, Other m := by
  induction ms with
  | nil => simp [Decoder.readMembers, eq_comm]
  | cons m ms ih =>
    rw [readMembers_cons_iff, ih]
    simp only [reduceCtorEq, false_and, or_false, List.forall_mem_cons]
    exact and_left_comm

/-- A decision is read if one member has it, and all others are passed over. -/
theorem readMembers_none_iff : Decoder.readMembers [field] none ms = .ok (some b) ↔
    ∃ before m after, ms = before ++ m :: after ∧ (∀ x ∈ before, Other x) ∧ Deciding b m ∧
      ∀ x ∈ after, Other x := by
  induction ms with
  | nil => simp [Decoder.readMembers]
  | cons m ms ih =>
    rw [readMembers_cons_iff]
    constructor
    · rintro (⟨hm, hms⟩ | ⟨-, c, hm, hms⟩)
      · obtain ⟨before, x, after, rfl, hb, hx, ha⟩ := ih.1 hms
        exact ⟨m :: before, x, after, rfl, List.forall_mem_cons.2 ⟨hm, hb⟩, hx, ha⟩
      · obtain ⟨hc, ha⟩ := readMembers_some_iff.1 hms
        obtain rfl := Option.some.inj hc
        exact ⟨[], m, ms, rfl, by simp, hm, ha⟩
    · rintro ⟨before, x, after, hms, hb, hx, ha⟩
      cases before with
      | nil =>
        obtain ⟨rfl, rfl⟩ := List.cons.inj hms
        exact .inr ⟨rfl, b, hx, readMembers_some_iff.2 ⟨rfl, ha⟩⟩
      | cons y before =>
        obtain ⟨rfl, rfl⟩ := List.cons.inj hms
        rw [List.forall_mem_cons] at hb
        exact .inl ⟨hb.1, ih.2 ⟨before, x, after, rfl, hb.2, hx, ha⟩⟩

/-! ### Replies -/

/-- A member of a document as its reader sees it. -/
def seen (m : Token × Option Token × Doc) : Doc.Member :=
  ⟨m.1.key, some (Doc.afterKey m.2.1), m.2.2⟩

theorem asides_of_others (h : ∀ m ∈ members, Other (seen m)) (hp : ∀ m ∈ members, m.2.2.Proper) :
    ∃ es, Doc.entries? members = some es ∧ ∀ e ∈ es, Aside e := by
  induction members with
  | nil => exact ⟨[], rfl, by simp⟩
  | cons m members ih =>
    rw [List.forall_mem_cons] at h hp
    obtain ⟨k, hk, hne, hskip⟩ := h.1
    obtain ⟨v, hv⟩ := hp.1.pieces?_of_skip hskip
    obtain ⟨es, hes, hasides⟩ := ih h.2 hp.2
    exact ⟨entry k v :: es, Doc.entries?_cons_of (key_iff.1 hk) hv hes,
      List.forall_mem_cons.2 ⟨⟨k, v, rfl, hne, hp.1.isValue hv⟩, hasides⟩⟩

theorem others_of_asides {es : List NamedValue} (h : Doc.entries? members = some es)
    (hes : ∀ e ∈ es, Aside e) (hskip : ∀ m ∈ members, m.2.2.skip = .ok ()) :
    ∀ m ∈ members, Other (seen m) := by
  induction members generalizing es with
  | nil => simp
  | cons m members ih =>
    obtain ⟨s, v, fs, rfl, hs, hv, hfs⟩ := Doc.entries?_cons h
    rw [List.forall_mem_cons] at hes hskip ⊢
    obtain ⟨k, w, he, hne, -⟩ := hes.1
    obtain ⟨rfl, rfl⟩ := Prod.mk.inj he
    exact ⟨⟨k, key_iff.2 hs, hne, hskip.1⟩, ih hfs hes.2 hskip.2⟩

theorem decision_object_iff {start depth : Nat} {e : Ending} :
    decision (.object start depth members e) = .ok b ↔ depth ≤ maxDepth ∧
      Decoder.readMembers [field] none (members.map seen) = .ok (some b) ∧
        ∃ left, e = .closed left := by
  have hdecision : decision (.object start depth members e) = (do
      raise? (Doc.depthFault? start depth)
      let p ← Decoder.readMembers [field] none (members.map seen)
      raise? e.objectFault?
      (Decoder.require "approved" p).mapError fun c => ⟨c, e.closedLeft?⟩) := by
    have hview : (Doc.object start depth members e).view = (do
        raise? (Doc.depthFault? start depth)
        return .object (members.map seen) (some e)) := rfl
    unfold decision Decoder.record
    rw [hview]
    cases raise? (Doc.depthFault? start depth) <;> rfl
  rw [hdecision]
  simp only [bind_ok_iff, raise?_ok_iff, exists_const, require_iff, depthFault?_eq_none,
    objectFault?_eq_none]
  constructor
  · rintro ⟨hdepth, p, hread, hclosed, rfl⟩
    exact ⟨hdepth, hread, hclosed⟩
  · rintro ⟨hdepth, hread, hclosed⟩
    exact ⟨hdepth, _, hread, hclosed, rfl⟩

theorem readItems_iff {items rest : List Doc} {e : Ending} :
    Decoder.readItems "struct ConfirmationReply" 1 (some e) 0 none [field] items = .ok (p, rest) ↔
      ∃ d b, items = d :: rest ∧ p = some b ∧ Decoder.flag d = .ok b := by
  unfold Decoder.readItems
  cases items with
  | nil =>
    cases raise? ((some e).bind Ending.listFault?) <;> simp [field, bind, Except.bind]
  | cons d items =>
    have hread : field.read d none = .ok p ↔ ∃ b, p = some b ∧ Decoder.flag d = .ok b := by
      change (Decoder.flag d >>= fun b => .ok (some b)) = .ok p ↔ _
      rw [bind_ok_iff]
      exact ⟨fun ⟨b, hb, hp⟩ => ⟨b, (Except.ok.inj hp).symm, hb⟩,
        fun ⟨b, hp, hb⟩ => ⟨b, hb, congrArg _ hp.symm⟩⟩
    constructor
    · intro h
      obtain ⟨p', hp, hrest⟩ := bind_ok_iff.1 h
      obtain ⟨rfl, rfl⟩ := Prod.mk.inj (Except.ok.inj hrest)
      obtain ⟨b, rfl, hb⟩ := hread.1 (mapError_ok_iff.1 hp)
      exact ⟨d, b, rfl, rfl, hb⟩
    · rintro ⟨_, b, hitems, hp, hb⟩
      obtain ⟨rfl, rfl⟩ := List.cons.inj hitems
      exact bind_ok_iff.2 ⟨p, mapError_ok_iff.2 (hread.2 ⟨b, hp, hb⟩), rfl⟩

theorem decision_array_iff {start depth : Nat} {items : List Doc} {e : Ending} :
    decision (.array start depth items e) = .ok b ↔ depth ≤ maxDepth ∧
      ∃ d, items = [d] ∧ Decoder.flag d = .ok b ∧ ∃ left, e = .closed left := by
  have hdecision : decision (.array start depth items e) = (do
      raise? (Doc.depthFault? start depth)
      let (p, rest) ← Decoder.readItems "struct ConfirmationReply" 1 (some e) 0 none [field] items
      raise? (e.closingFault? rest)
      (Decoder.require "approved" p).mapError fun c => ⟨c, some (e.listLeft [])⟩) := by
    have hview : (Doc.array start depth items e).view = (do
        raise? (Doc.depthFault? start depth)
        return .array items (some e)) := rfl
    unfold decision Decoder.record
    rw [hview]
    cases raise? (Doc.depthFault? start depth) <;> rfl
  rw [hdecision]
  simp only [bind_ok_iff, raise?_ok_iff, exists_const, require_iff, depthFault?_eq_none,
    closingFault?_eq_none, Prod.exists, readItems_iff]
  constructor
  · rintro ⟨hdepth, p, rest, ⟨d, c, rfl, rfl, hflag⟩, ⟨rfl, hclosed⟩, hc⟩
    obtain rfl := Option.some.inj hc
    exact ⟨hdepth, d, rfl, hflag, hclosed⟩
  · rintro ⟨hdepth, d, rfl, hflag, hclosed⟩
    exact ⟨hdepth, _, [], ⟨d, b, rfl, rfl, hflag⟩, ⟨rfl, hclosed⟩, rfl⟩

theorem reply_of_decision (hd : d.Proper) (h : decision d = .ok b) :
    ∃ ps, d.pieces? = some ps ∧ Reply b ps := by
  cases hd with
  | scalar =>
    change Doc.reject _ _ = _ at h
    exact absurd h reject_ne_ok
  | noValue | noColon => cases h
  | array start depth items e hitems =>
    obtain ⟨-, d, rfl, hflag, left, rfl⟩ := decision_array_iff.1 h
    have hpieces := pieces_of_flag (hitems d List.mem_cons_self) hflag
    exact ⟨_, by rw [Doc.pieces?, Doc.itemPieces?, hpieces]; rfl, .array⟩
  | object start depth members e hk hmembers =>
    obtain ⟨-, hread, left, rfl⟩ := decision_object_iff.1 h
    obtain ⟨before, x, after, hseen, hb, hx, ha⟩ := readMembers_none_iff.1 hread
    obtain ⟨bs, rest, rfl, rfl, hrest⟩ := List.map_eq_append_iff.1 hseen
    obtain ⟨m, as, rfl, rfl, rfl⟩ := List.map_eq_cons_iff.1 hrest
    simp only [List.forall_mem_append, List.forall_mem_cons, List.forall_mem_map] at hmembers hb ha
    obtain ⟨es, hes, hbefore⟩ := asides_of_others hb hmembers.1
    obtain ⟨fs, hfs, hafter⟩ := asides_of_others ha hmembers.2.2
    have hm := Doc.entries?_cons_of (k := m.1) (c := m.2.1) (key_iff.1 hx.1)
      (pieces_of_flag hmembers.2.1 hx.2) hfs
    have hentries := Doc.entries?_append_iff.2 ⟨_, _, rfl, hes, hm⟩
    exact ⟨_, by rw [Doc.pieces?, hentries]; rfl, .object es fs hbefore hafter⟩

theorem decision_of_reply {ps : List Piece} {ts : List Token} {fuel : Nat} (h : Reply b ps)
    (hf : Front ts ps []) (hskip : ∀ t ∈ ts, t.skip = .ok ()) (hfuel : 2 * ps.length ≤ fuel + 1) :
    ∃ d, Doc.value fuel 0 ts = (d, []) ∧ decision d = .ok b := by
  cases h with
  | object before after hb ha =>
    have hcomplete : ∀ e ∈ before ++ entry "approved" [.bool b] :: after, Completes e.2 := by
      simp only [List.forall_mem_append, List.forall_mem_cons]
      exact ⟨fun e he => (hb e he).isValue.completes, (IsValue.bool b).completes,
        fun e he => (ha e he).isValue.completes⟩
    obtain ⟨start, docs, left, hd, hentries, hpass⟩ :=
      object_complete hcomplete fuel 0 hf hskip hfuel
    refine ⟨_, hd, decision_object_iff.2 ⟨by decide, ?_, left, rfl⟩⟩
    obtain ⟨as, bs, rfl, has, hbs⟩ := Doc.entries?_append_iff.1 hentries
    cases bs with
    | nil => cases hbs
    | cons m bs =>
      obtain ⟨s, v, fs, he, hs, hv, hfs⟩ := Doc.entries?_cons hbs
      obtain ⟨hentry, rfl⟩ := List.cons.inj he
      obtain ⟨rfl, rfl⟩ := Prod.mk.inj hentry
      have hpass := Doc.skipMembers_iff.1 hpass
      simp only [List.forall_mem_append, List.forall_mem_cons] at hpass
      rw [List.map_append, List.map_cons]
      refine readMembers_none_iff.2 ⟨_, _, _, rfl, ?_, ⟨key_iff.2 hs, flag_of_pieces hv⟩, ?_⟩
      · exact List.forall_mem_map.2 (others_of_asides has hb fun m hm => (hpass.1 m hm).2)
      · exact List.forall_mem_map.2 (others_of_asides hfs ha fun m hm => (hpass.2.2 m hm).2)
  | array =>
    have hcomplete : ∀ v ∈ [[Piece.bool b]], Completes v ∧ IsValue v := by
      simpa using ⟨(IsValue.bool b).completes, IsValue.bool b⟩
    obtain ⟨start, docs, left, hd, hitems, -⟩ :=
      array_complete hcomplete fuel 0 hf hskip hfuel
    refine ⟨_, hd, decision_array_iff.2 ⟨by decide, ?_⟩⟩
    cases docs with
    | nil => cases hitems
    | cons d docs =>
      obtain ⟨v, vs, hvs, hv, hrest⟩ := Doc.itemPieces?_cons hitems
      obtain ⟨rfl, rfl⟩ := List.cons.inj hvs
      cases docs with
      | nil => exact ⟨d, rfl, flag_of_pieces hv, left, rfl⟩
      | cons d' docs =>
        obtain ⟨_, _, hnil, -⟩ := Doc.itemPieces?_cons hrest
        cases hnil

theorem decision_iff {text : List Text.Symbol} : decision.ofSymbols text = .ok b ↔
    ∃ ps, Written (Mark.ofSymbols text) ps ∧ Reply b ps := by
  have hofSymbols : decision.ofSymbols text = .ok b ↔
      ∃ d, Doc.value (2 * (tokens text).length + 2) 0 (tokens text) = (d, []) ∧
        decision d = .ok b := by
    unfold Decoder.ofSymbols Doc.ofText
    cases hv : Doc.value (2 * (tokens text).length + 2) 0 (tokens text) with
    | mk d rest =>
      cases rest <;> simp [hv, bind_ok_iff, pure, Except.pure]
  rw [hofSymbols]
  constructor
  · rintro ⟨d, hd, hb⟩
    obtain ⟨hproper, hfront⟩ := (reads _).value hd
    obtain ⟨ps, hps, hreply⟩ := reply_of_decision hproper hb
    exact ⟨ps, written_iff.2 (front_nil_iff.1 (hfront hps)), hreply⟩
  · rintro ⟨ps, hw, hreply⟩
    have hpieces := written_iff.1 hw
    have hlength : (tokens text).length = ps.length := by
      simpa using congrArg List.length hpieces
    exact decision_of_reply hreply (front_nil_iff.2 hpieces) hw.skip (by omega)

/-! ### Asking -/

variable {s : Service} {id tool : String} {args : Args} {deliver : Post → Delivery} {sent : Post}

theorem ask_of_post (h : s.post id tool args = .ok sent) :
    s.ask id tool args deliver = s.decide sent (deliver sent) := by
  rw [ask, h]
  rfl

theorem ask_of_error {e : ConfirmationError} (h : s.post id tool args = .error e) :
    s.ask id tool args deliver = .error e := by
  rw [ask, h]
  rfl

theorem post_of_headerFault {k v : String} (h : (k, v) ∈ s.headers.toList)
    (hf : Http.headerFault? k v ≠ none) : ∃ text, s.post id tool args = .error (.config text) := by
  have herror : ∃ text, s.headerError? = some (.config text) := by
    unfold headerError?
    cases hfind : s.headers.toList.findSome? _ with
    | none =>
      have := List.findSome?_eq_none_iff.1 hfind _ h
      exact absurd (Option.map_eq_none_iff.1 this) hf
    | some e =>
      obtain ⟨x, -, hx⟩ := List.exists_of_findSome?_eq_some hfind
      obtain ⟨f, -, rfl⟩ := Option.map_eq_some_iff.1 hx
      cases f <;> exact ⟨_, rfl⟩
  obtain ⟨text, herror⟩ := herror
  exact ⟨text, by rw [post, herror]⟩

theorem isSuccess_iff {status : Nat} :
    Http.isSuccess status = true ↔ 200 ≤ status ∧ status < 300 := by
  simp [Http.isSuccess]

theorem decide_answered {status : Nat} {body : List UInt8} (h : Http.isSuccess status = true) :
    s.decide sent (.answered status body) =
      (decision.ofSymbols (Text.Utf8.symbols body)).mapError
        fun _ => .invalidResponse "error decoding response body" := by
  unfold decide
  dsimp only
  rw [h]
  cases decision.ofSymbols (Text.Utf8.symbols body) <;> rfl

theorem decide_refused {status : Nat} {o : Delivery} (h : Http.isSuccess status = false)
    (ho : (∃ text, o = .brokenOff status text) ∨ ∃ body, o = .answered status body) :
    s.decide sent o = .error (s.refusal status) := by
  rcases ho with ⟨text, rfl⟩ | ⟨body, rfl⟩
  · simp [decide, h]
  · simp [decide, h]

theorem decide_ok_iff {o : Delivery} : s.decide sent o = .ok b ↔
    o = .late ∧ b = false ∨
      ∃ status body, o = .answered status body ∧ 200 ≤ status ∧ status < 300 ∧ Decides body b := by
  cases o with
  | failed => simp [decide]
  | late => cases b <;> simp [decide]
  | brokenOff status text => simp [decide]
  | answered status body =>
    simp only [reduceCtorEq, false_and, false_or, Delivery.answered.injEq]
    cases hs : Http.isSuccess status with
    | false =>
      rw [decide_refused hs (.inr ⟨body, rfl⟩)]
      refine ⟨fun h => (by cases h), ?_⟩
      rintro ⟨_, _, ⟨rfl, rfl⟩, hlo, hhi, -⟩
      rw [isSuccess_iff.2 ⟨hlo, hhi⟩] at hs
      cases hs
    | true =>
      have hok : s.decide sent (.answered status body) = .ok b ↔ Decides body b := by
        rw [decide_answered hs, mapError_ok_iff, Decides, decision_iff]
      obtain ⟨hlo, hhi⟩ := isSuccess_iff.1 hs
      rw [hok]
      refine ⟨fun h => ⟨status, body, ⟨rfl, rfl⟩, hlo, hhi, h⟩, ?_⟩
      rintro ⟨_, _, ⟨rfl, rfl⟩, -, -, h⟩
      exact h

/-- What comes of asking a service, for every way in which the request can be dealt with. -/
structure Asked (s : Service) (id tool : String) (args : Args) (deliver : Post → Delivery) :
    Prop where
  /-- A decision is that of a reply which was complete in time, under a status of success; without a
  reply in time it is a denial. -/
  decided : ∀ b, s.ask id tool args deliver = .ok b ↔ ∃ sent, s.post id tool args = .ok sent ∧
    (deliver sent = .late ∧ b = false ∨ ∃ status body, deliver sent = .answered status body ∧
      200 ≤ status ∧ status < 300 ∧ Decides body b)
  /-- With a header that cannot be sent, nothing is sent. -/
  misconfigured : ∀ k v, (k, v) ∈ s.headers.toList → Http.headerFault? k v ≠ none →
    ∃ text, s.post id tool args = .error (.config text) ∧
      s.ask id tool args deliver = .error (.config text)
  failed : ∀ sent, s.post id tool args = .ok sent → deliver sent = .failed →
    ∃ text, s.ask id tool args deliver = .error (.transport text)
  refused : ∀ sent, s.post id tool args = .ok sent → ∀ status, ¬ (200 ≤ status ∧ status < 300) →
    (∃ text, deliver sent = .brokenOff status text) ∨
      (∃ body, deliver sent = .answered status body) →
    ∃ text, s.ask id tool args deliver = .error (.unavailable text)
  unreadable : ∀ sent, s.post id tool args = .ok sent → ∀ status, 200 ≤ status → status < 300 →
    (∃ text, deliver sent = .brokenOff status text) ∨
      (∃ body, deliver sent = .answered status body ∧ ∀ b, ¬ Decides body b) →
    ∃ text, s.ask id tool args deliver = .error (.invalidResponse text)

theorem ask_outcome (s : Service) (id tool : String) (args : Args) (deliver : Post → Delivery) :
    s.Asked id tool args deliver where
  decided b := by
    cases hpost : s.post id tool args with
    | error e => simp [ask_of_error hpost]
    | ok sent => simp [ask_of_post hpost, decide_ok_iff]
  misconfigured k v hkv hf := by
    obtain ⟨text, htext⟩ := post_of_headerFault hkv hf
    exact ⟨text, htext, ask_of_error htext⟩
  failed sent hsent hd := ⟨_, by rw [ask_of_post hsent, hd]; rfl⟩
  refused sent hsent status hstatus hd := by
    have hs : Http.isSuccess status = false :=
      Bool.eq_false_iff.2 fun hs => hstatus (isSuccess_iff.1 hs)
    exact ⟨_, (ask_of_post hsent).trans (decide_refused hs hd)⟩
  unreadable sent hsent status hlo hhi hd := by
    have hs := isSuccess_iff.2 ⟨hlo, hhi⟩
    rw [ask_of_post hsent]
    rcases hd with ⟨text, hd⟩ | ⟨body, hd, hbody⟩
    · exact ⟨text, by rw [hd]; simp [decide, hs]⟩
    · rw [hd, decide_answered hs]
      cases hdecision : decision.ofSymbols (Text.Utf8.symbols body) with
      | error f => exact ⟨_, rfl⟩
      | ok b => exact absurd (decision_iff.1 hdecision) (hbody b)

/-- The list of the word alone approves, though it is no object with a member `approved`. -/
theorem ask_outcome_list :
    (ofEndpoint "http://localhost").ask "0" "rm" ∅
      (fun _ => .answered 200 [0x5b, 0x74, 0x72, 0x75, 0x65, 0x5d]) = .ok true := by
  have hok : ((ofEndpoint "http://localhost").post "0" "rm" ∅).isOk = true := by decide +kernel
  obtain ⟨sent, hsent⟩ : ∃ sent, (ofEndpoint "http://localhost").post "0" "rm" ∅ = .ok sent := by
    cases h : (ofEndpoint "http://localhost").post "0" "rm" ∅ with
    | ok sent => exact ⟨sent, rfl⟩
    | error e => rw [h] at hok; cases hok
  refine ((ask_outcome _ _ _ _ _).decided true).2
    ⟨sent, hsent, .inr ⟨200, _, rfl, by decide, by decide, _, ?_, .array⟩⟩
  rw [written_iff]
  decide +kernel

end Service

end GatedCalls.Approval
