import GatedCalls.Json.Token

/-!
# JSON documents

A document is what a typed reader reads: a value given as such, or a text put into the shape of a
value as far as the text allows. Where a text breaks off or goes wrong, the document records what
stands there instead; whether that is a fault, and which one, is for the reader to say, since a
reader stops at the first fault it meets and passes over members it has no use for by looser rules.
-/

namespace GatedCalls.Json

/-- How a list or an object ends in the text. -/
inductive Ending
  /-- Its bracket is closed, with `left` bytes after it. -/
  | closed (left : Nat)
  /-- Nothing, or no member, follows the opening bracket. -/
  | afterOpening (next : Option Token)
  /-- Neither a comma nor the closing bracket follows an item. -/
  | afterItem (next : Option Token)
  /-- No item, or no member, follows a comma. -/
  | afterComma (next : Option Token)

/-- A document; `depth` counts the brackets open after this one. -/
inductive Doc
  | given (v : Json)
  | scalar (t : Token)
  | array (start depth : Nat) (items : List Doc) (ending : Ending)
  | object (start depth : Nat) (members : List (Token × Option Token × Doc)) (ending : Ending)
  /-- No value can start here. -/
  | noValue (next : Option Token)
  /-- The colon before a value is missing. -/
  | noColon (next : Option Token)

namespace Doc

/-- The bytes left before the document's first byte. -/
def start : Doc → Nat
  | given _ => 0
  | scalar t => t.start
  | array start .. => start
  | object start .. => start
  | noValue next => next.elim 0 Token.start
  | noColon next => next.elim 0 Token.start

mutual

/-- The document at the front of the tokens. -/
def value : (fuel depth : Nat) → List Token → Doc × List Token
  | 0, _, rest => (.noValue none, rest)
  | _ + 1, _, [] => (.noValue none, [])
  | fuel + 1, depth, t :: rest =>
    match t.lexeme with
    | .opening .square =>
      match rest with
      | [] => (.array t.start (depth + 1) [] (.afterOpening none), [])
      | n :: more =>
        match n.lexeme with
        | .closing .square => (.array t.start (depth + 1) [] (.closed n.stop), more)
        | _ =>
          let (items, ending, after) := items fuel (depth + 1) [] rest
          (.array t.start (depth + 1) items ending, after)
    | .opening .curly =>
      match rest with
      | [] => (.object t.start (depth + 1) [] (.afterOpening none), [])
      | n :: more =>
        match n.lexeme with
        | .closing .curly => (.object t.start (depth + 1) [] (.closed n.stop), more)
        | .string .. =>
          let (members, ending, after) := members fuel (depth + 1) [] rest
          (.object t.start (depth + 1) members ending, after)
        | _ => (.object t.start (depth + 1) [] (.afterOpening (some n)), rest)
    | .null | .bool _ | .number .. | .string .. | .misspelt _ => (.scalar t, rest)
    | .closing _ | .comma | .colon | .other => (.noValue (some t), rest)

/-- The items of a list from here on; `acc` holds the ones before, backwards. -/
def items : (fuel depth : Nat) → List Doc → List Token → List Doc × Ending × List Token
  | 0, _, acc, rest => (acc.reverse, .afterItem none, rest)
  | fuel + 1, depth, acc, rest =>
    let (item, after) := value fuel depth rest
    let done := item :: acc
    match after with
    | [] => (done.reverse, .afterItem none, [])
    | n :: more =>
      match n.lexeme with
      | .closing .square => (done.reverse, .closed n.stop, more)
      | .comma =>
        match more with
        | [] => (done.reverse, .afterComma none, [])
        | m :: _ =>
          match m.lexeme with
          | .closing .square => (done.reverse, .afterComma (some m), more)
          | _ => items fuel depth done more
      | _ => (done.reverse, .afterItem (some n), after)

/-- The members of an object from here on, where a string stands; `acc` holds the ones before,
backwards. -/
def members : (fuel depth : Nat) → List (Token × Option Token × Doc) → List Token →
    List (Token × Option Token × Doc) × Ending × List Token
  | 0, _, acc, rest => (acc.reverse, .afterItem none, rest)
  | _ + 1, _, acc, [] => (acc.reverse, .afterItem none, [])
  | fuel + 1, depth, acc, key :: rest =>
    let (v, after) : Doc × List Token := match rest with
      | [] => (.noColon none, [])
      | c :: more =>
        match c.lexeme with
        | .colon => value fuel depth more
        | _ => (.noColon (some c), rest)
    let done := (key, rest.head?, v) :: acc
    match after with
    | [] => (done.reverse, .afterItem none, [])
    | n :: more =>
      match n.lexeme with
      | .closing .curly => (done.reverse, .closed n.stop, more)
      | .comma =>
        match more with
        | [] => (done.reverse, .afterComma none, [])
        | m :: _ =>
          match m.lexeme with
          | .string .. => members fuel depth done more
          | _ => (done.reverse, .afterComma (some m), more)
      | _ => (done.reverse, .afterItem (some n), after)

end

/-- The document of a text, and what follows it. -/
def ofText (text : List Text.Symbol) : Doc × Option Token :=
  let ts := tokens text
  let (doc, rest) := value (2 * ts.length + 2) 0 ts
  (doc, rest.head?)

end Doc

end GatedCalls.Json
