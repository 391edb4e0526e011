import GatedCalls.Json.Document

/-!
# Typed reading of JSON

A decoder turns a document into a value of some type or into the first fault. Documents are read in
the order of the text (or of the sorted members of a given value), so what is reported first is what
stands first. Fields that are missing are reported after all that are present.

A record is read from an object by the names of its fields, or from a list by their order. Members
that name no field are passed over.
-/

namespace GatedCalls.Json

/-- The greatest number of brackets that may be open at once. -/
def maxDepth : Nat := 127

namespace Ending

/-- The fault of a list that is read strictly to its end. -/
def listFault? : Ending → Option Fault
  | closed _ => none
  | afterOpening none | afterItem none => some (.here .endInList 0)
  | afterOpening (some t) => some (.here .valueExpected (t.start - 1))
  | afterItem (some t) => some (.here .listEndExpected (t.start - 1))
  | afterComma none => some (.here .endInValue 0)
  | afterComma (some t) => some (.here .trailingComma (t.start - 1))

/-- The fault of a list that is passed over. -/
def skippedListFault? : Ending → Option Fault
  | afterComma (some t) => some (.here .valueExpected (t.start - 1))
  | e => e.listFault?

/-- The fault of an object that is read strictly to its end. -/
def objectFault? : Ending → Option Fault
  | closed _ => none
  | afterOpening none | afterItem none => some (.here .endInObject 0)
  | afterOpening (some t) => some (.here .keyNotString (t.start - 1))
  | afterItem (some t) => some (.here .objectEndExpected (t.start - 1))
  | afterComma none => some (.here .endInValue 0)
  | afterComma (some t) =>
    match t.lexeme with
    | .closing .curly => some (.here .trailingComma (t.start - 1))
    | _ => some (.here .keyNotString (t.start - 1))

/-- The fault of an object that is passed over. -/
def skippedObjectFault? : Ending → Option Fault
  | afterComma none => some (.here .endInObject 0)
  | afterComma (some t) => some (.here .keyNotString (t.start - 1))
  | e => e.objectFault?

/-- Where the reader of a list stands when it stops before the items `rest`: past the closing
bracket or the comma if one of them comes next. -/
def listLeft (rest : List Doc) : Ending → Nat
  | e => match rest with
    | d :: _ => d.start
    | [] => match e with
      | closed left => left
      | afterOpening next | afterItem next | afterComma next => next.elim 0 Token.start

/-- The fault of a list that must end before the items `rest`. -/
def closingFault? (rest : List Doc) (e : Ending) : Option Fault :=
  match rest with
  | d :: _ => some (.here .trailingCharacters (d.start - 1))
  | [] => match e with
    | closed _ => none
    | afterOpening none | afterItem none => some (.here .endInList 0)
    | afterOpening (some t) | afterItem (some t) => some (.here .trailingCharacters (t.start - 1))
    | afterComma none => some (.here .trailingCharacters 0)
    | afterComma (some t) => some (.here .trailingComma (t.start - 1))

/-- The bytes left after the closing bracket. -/
def closedLeft? : Ending → Option Nat
  | closed left => some left
  | _ => none

end Ending

/-- Raises a fault if there is one. -/
def raise? : Option Fault → Except Fault Unit
  | some f => .error f
  | none => .ok ()

namespace Token

/-- What a token stands for on its own. -/
def found (t : Token) : Except Fault Found :=
  match t.lexeme with
  | .null => .ok .null
  | .bool b => .ok (.bool b)
  | .number strict _ => strict.map .number
  | .string strict _ => strict.map .string
  | .misspelt f => .error f
  | _ => .error (.here .valueExpected (t.start - 1))

/-- Passes over a token. -/
def skip (t : Token) : Except Fault Unit :=
  match t.lexeme with
  | .number _ lenient => lenient
  | .string _ lenient => lenient
  | .misspelt f => .error f
  | _ => .ok ()

/-- The name that a token at the place of a key stands for. -/
def key (t : Token) : Except Fault String :=
  match t.lexeme with
  | .string strict _ => strict
  | _ => .error (.here .keyNotString (t.start - 1))

end Token

def Found.toJson : Found → Json
  | null => .null
  | bool b => .bool b
  | number n => .number n
  | string s => .string s
  | array => .array []
  | object => .object []

namespace Doc

def noValueFault (next : Option Token) : Fault :=
  match next with
  | none => .here .endInValue 0
  | some t => .here .valueExpected (t.start - 1)

def noColonFault (next : Option Token) : Fault :=
  match next with
  | none => .here .endInObject 0
  | some t => .here .colonExpected (t.start - 1)

/-- The fault of brackets nested too deep. -/
def depthFault? (start depth : Nat) : Option Fault :=
  if maxDepth < depth then some (.here .tooDeep (start - 1)) else none

mutual

/-- The value of the whole document. -/
def any : Doc → Except Fault Json
  | given v => .ok v
  | scalar t => t.found.map Found.toJson
  | array start depth items ending => do
    raise? (depthFault? start depth)
    let vs ← anyItems items
    raise? ending.listFault?
    return .array vs
  | object start depth members ending => do
    raise? (depthFault? start depth)
    let vs ← anyMembers members
    raise? ending.objectFault?
    return .ofMembers vs
  | noValue next => .error (noValueFault next)
  | noColon next => .error (noColonFault next)

def anyItems : List Doc → Except Fault (List Json)
  | [] => .ok []
  | d :: rest => do return (← any d) :: (← anyItems rest)

def anyMembers : List (Token × Option Token × Doc) → Except Fault (List (String × Json))
  | [] => .ok []
  | (k, _, d) :: rest => do
    let k ← k.key
    let v ← any d
    return (k, v) :: (← anyMembers rest)

end

mutual

/-- Passes over the document. -/
def skip : Doc → Except Fault Unit
  | given _ => .ok ()
  | scalar t => t.skip
  | array _ _ items ending => do
    skipItems items
    raise? ending.skippedListFault?
  | object _ _ members ending => do
    skipMembers members
    raise? ending.skippedObjectFault?
  | noValue next => .error (noValueFault next)
  | noColon next => .error (noColonFault next)

def skipItems : List Doc → Except Fault Unit
  | [] => .ok ()
  | d :: rest => do
    skip d
    skipItems rest

def skipMembers : List (Token × Option Token × Doc) → Except Fault Unit
  | [] => .ok ()
  | (k, _, d) :: rest => do
    k.skip
    skip d
    skipMembers rest

end

/-- A member of an object, its key not yet read; `afterKey` are the bytes left where a reader
stands that stops after the key. -/
structure Member where
  key : Except Fault String
  afterKey : Option Nat
  value : Doc

/-- The document as its reader first sees it. A given list or object has no ending of its own. -/
inductive View
  | single
  | array (items : List Doc) (ending : Option Ending)
  | object (members : List Member) (ending : Option Ending)

/-- Where a reader stands that stops after a key and before the token `next`. -/
def afterKey (next : Option Token) : Nat :=
  match next with
  | none => 0
  | some t =>
    match t.lexeme with
    | .closing .curly => t.stop
    | _ => t.start

def givenMembers (members : List (String × Json)) : List Member :=
  members.map fun m => ⟨.ok m.1, none, given m.2⟩

/-- Looks at the document; brackets nested too deep are a fault. -/
def view : Doc → Except Fault View
  | given (.array vs) => .ok (.array (vs.map given) none)
  | given (.object ms) => .ok (.object (givenMembers ms) none)
  | array start depth items ending => do
    raise? (depthFault? start depth)
    return .array items (some ending)
  | object start depth members ending => do
    raise? (depthFault? start depth)
    return .object (members.map fun (k, next, v) => ⟨k.key, some (afterKey next), v⟩) (some ending)
  | given _ | scalar _ | noValue _ | noColon _ => .ok .single

/-- What the document is and where a reader stands that has seen that much. -/
def found : Doc → Except Fault (Found × Option Nat)
  | given v => .ok (.ofJson v, none)
  | scalar t => do return (← t.found, some t.stop)
  | array start .. => .ok (.array, some start)
  | object start .. => .ok (.object, some start)
  | noValue next => .error (noValueFault next)
  | noColon next => .error (noColonFault next)

/-- The fault that the document is not what is wanted. -/
def reject {α : Type} (wanted : String) (d : Doc) : Except Fault α := do
  let (f, left) ← d.found
  .error ⟨.wrongType f wanted, left⟩

end Doc

/-! ## Decoders -/

abbrev Decoder (α : Type) := Doc → Except Fault α

namespace Decoder

variable {α β P : Type}

def text : Decoder String := fun d => do
  match ← d.found with
  | (.string s, _) => return s
  | _ => d.reject "a string"

def flag : Decoder Bool := fun d => do
  match ← d.found with
  | (.bool b, _) => return b
  | _ => d.reject "a boolean"

/-- A whole number below 256. -/
def byte : Decoder Nat := fun d => do
  match ← d.found with
  | (.number (.int i), left) =>
    if 0 ≤ i ∧ i < 256 then return i.toNat
    else .error ⟨.wrongValue (.number (.int i)) "u8", left⟩
  | _ => d.reject "u8"

/-- Null stands for none. -/
def optional (inner : Decoder α) : Decoder (Option α) := fun d => do
  match d.found with
  | .ok (.null, _) => return none
  | _ => return some (← inner d)

/-- The items one after the other; a fault without a place gets that of the list's reader. -/
def eachItem (item : Decoder α) (ending : Option Ending) : List Doc → Except Fault (List α)
  | [] => .ok []
  | d :: rest => do
    let a ← (item d).mapError fun f => f.settle (ending.map (·.listLeft rest))
    return a :: (← eachItem item ending rest)

def list (item : Decoder α) : Decoder (List α) := fun d => do
  match ← d.view with
  | .array items ending =>
    let vs ← eachItem item ending items
    raise? (ending.bind Ending.listFault?)
    return vs
  | _ => d.reject "a sequence"

def eachMember (value : Decoder α) : List Doc.Member → Except Fault (List (String × α))
  | [] => .ok []
  | m :: rest => do
    let k ← m.key
    let v ← value m.value
    return (k, v) :: (← eachMember value rest)

/-- An object by names; of several values for a name the last one counts. -/
def dict (value : Decoder α) : Decoder (Dict α) := fun d => do
  match ← d.view with
  | .object members ending =>
    let vs ← eachMember value members
    raise? (ending.bind Ending.objectFault?)
    return Dict.ofList vs
  | _ => d.reject "a map"

/-! ### Records -/

/-- The slot for a field of a record whose parts are gathered in `P`. -/
structure Slot (P : Type) where
  name : String
  present : P → Bool
  read : Doc → P → Except Fault P
  /-- Whether a list may end before the field. -/
  mayEnd : Bool

/-- Reads the members of a record given as an object. -/
def readMembers (fields : List (Slot P)) (p : P) : List Doc.Member → Except Fault P
  | [] => .ok p
  | m :: rest => do
    let k ← m.key
    match fields.find? (·.name == k) with
    | some field =>
      if field.present p then .error ⟨.duplicateField k, m.afterKey⟩
      else readMembers fields (← field.read m.value p) rest
    | none =>
      m.value.skip
      readMembers fields p rest

/-- How many elements there are, in words. -/
def elements (n : Nat) : String := Nat.repr n ++ (if n = 1 then " element" else " elements")

/-- Reads the items of a record given as a list, the fields in their order; gives the items that
are left over. `index` fields have been read. -/
def readItems (noun : String) (total : Nat) (ending : Option Ending) (index : Nat) (p : P) :
    List (Slot P) → List Doc → Except Fault (P × List Doc)
  | [], items => .ok (p, items)
  | field :: fields, d :: items => do
    let p ← (field.read d p).mapError fun f => f.settle (ending.map (·.listLeft items))
    readItems noun total ending (index + 1) p fields items
  | field :: fields, [] => do
    raise? (ending.bind Ending.listFault?)
    if field.mayEnd then readItems noun total ending (index + 1) p fields []
    else .error ⟨.wrongLength index (noun ++ " with " ++ elements total),
      ending.map (·.listLeft [])⟩

/-- A record named `noun`: its fields, and what its parts make once all members are read. -/
def record (noun : String) (fields : List (Slot P)) (start : P) (finish : P → Except Cause α) :
    Decoder α := fun d => do
  match ← d.view with
  | .object members ending =>
    let p ← readMembers fields start members
    raise? (ending.bind Ending.objectFault?)
    (finish p).mapError fun c => ⟨c, ending.bind Ending.closedLeft?⟩
  | .array items ending =>
    let (p, rest) ← readItems noun fields.length ending 0 start fields items
    match ending with
    | some e => raise? (e.closingFault? rest)
    | none =>
      if rest.isEmpty then pure ()
      else .error (.floating (.wrongLength items.length "fewer elements in array"))
    (finish p).mapError fun c => ⟨c, ending.map (·.listLeft [])⟩
  | .single => d.reject noun

/-- A part of a record that must be there. -/
def require (name : String) : Option α → Except Cause α
  | some a => .ok a
  | none => .error (.missingField name)

/-! ### Tagged records

A tagged record is an object whose member `tag` names its kind, wherever it stands, or a list with
the kind in front. All of it is read before the kind's fields are looked at, so a fault in them has
no place of its own. -/

/-- What remains of a tagged record without its tag. -/
inductive Rest
  | members (l : List (String × Json))
  | items (l : List Json)

def splitTag (tag : String) (kind : Decoder α) (seen : Option α) (acc : List (String × Json)) :
    List Doc.Member → Except Fault (Option α × List (String × Json))
  | [] => .ok (seen, acc.reverse)
  | m :: rest => do
    let k ← m.key
    if k = tag then
      if seen.isSome then .error ⟨.duplicateField tag, m.afterKey⟩
      else splitTag tag kind (some (← kind m.value)) acc rest
    else splitTag tag kind seen ((k, ← m.value.any) :: acc) rest

/-- Reads the tag, and the rest as it is. -/
def tagged (noun tag : String) (kind : Decoder α) : Decoder (α × Rest) := fun d => do
  match ← d.view with
  | .object members ending =>
    let (seen, rest) ← splitTag tag kind none [] members
    raise? (ending.bind Ending.objectFault?)
    match seen with
    | some a => return (a, .members rest)
    | none => .error ⟨.missingField tag, ending.bind Ending.closedLeft?⟩
  | .array items ending =>
    match items with
    | [] =>
      raise? (ending.bind Ending.listFault?)
      .error ⟨.missingField tag, ending.map (·.listLeft [])⟩
    | first :: rest =>
      let a ← kind first
      let vs ← rest.mapM Doc.any
      raise? (ending.bind Ending.listFault?)
      return (a, .items vs)
  | .single => d.reject noun

/-- Reads the fields of a kind from the rest of a tagged record. -/
def body (noun : String) (fields : List (Slot P)) (start : P) (finish : P → Except Cause α) :
    Rest → Except Fault α
  | .members l => do
    let p ← readMembers fields start (Doc.givenMembers l)
    (finish p).mapError .floating
  | .items l => do
    let (p, rest) ← readItems noun fields.length none 0 start fields (l.map .given)
    let used := l.length - rest.length
    if rest.isEmpty then (finish p).mapError .floating
    else .error (.floating (.wrongLength l.length (elements used ++ " in sequence")))

/-- One of two names. -/
def oneOf (first second : String) (a b : α) : Decoder α := fun d => do
  match ← d.found with
  | (.string s, left) =>
    if s = first then return a
    else if s = second then return b
    else .error ⟨.unknownVariant s first second, left⟩
  | _ => d.reject "variant identifier"

/-- One of two names that stand for themselves: the name, or an object with the name and null. -/
def choice (first second : String) (a b : α) : Decoder α := fun d => do
  let v ← d.any
  match v with
  | .string s => oneOf first second a b (.given (.string s))
  | .object [(k, inner)] =>
    let x ← oneOf first second a b (.given (.string k))
    if inner.isNull then return x else Doc.reject "unit" (.given inner)
  | .object _ => .error (.floating (.wrongValue .object "map with a single key"))
  | v => Doc.reject "string or map" (.given v)

/-! ### Entry points -/

/-- Decodes a given value. -/
def ofJson (decoder : Decoder α) (v : Json) : Except Fault α := decoder (.given v)

/-- Decodes a text, which must hold nothing else. -/
def ofSymbols (decoder : Decoder α) (text : List Text.Symbol) : Except Fault α := do
  let (doc, next) := Doc.ofText text
  let a ← decoder doc
  match next with
  | none => return a
  | some t => .error (.here .trailingCharacters (t.start - 1))

end Decoder

/-- The value that a text writes. -/
def parseSymbols (text : List Text.Symbol) : Except Fault Json := Decoder.ofSymbols Doc.any text

/-- The value that a text writes, or the wording of what is wrong with it. -/
def parse (s : String) : Except String Json :=
  let text := Text.symbolsOf s
  (parseSymbols text).mapError (·.message text)

namespace Decoder

variable {α : Type}

/-- Decodes a text, with the wording of the fault. -/
def ofText (decoder : Decoder α) (s : String) : Except String α :=
  let text := Text.symbolsOf s
  (decoder.ofSymbols text).mapError (·.message text)

/-- Decodes a given value, with the wording of the fault. -/
def ofValue (decoder : Decoder α) (v : Json) : Except String α :=
  (decoder.ofJson v).mapError (·.message [])

end Decoder

end GatedCalls.Json
