import GatedCalls.Text.Quoted
import GatedCalls.Text.Utf8
import GatedCalls.Json.Printer

/-!
# Faults of JSON reading

A text can fail to be JSON, and a JSON value can fail to be what a reader wants. A fault names its
cause and, when a text is read, how many bytes of the text had not been consumed; from that number
follow the line and the column, which counts bytes.
-/

namespace GatedCalls.Json

/-- What a reader met instead of what it wanted. -/
inductive Found
  | null
  | bool (b : Bool)
  | number (n : Number)
  | string (s : String)
  | array
  | object

namespace Found

def ofJson : Json → Found
  | .null => null
  | .bool b => bool b
  | .number n => number n
  | .string s => string s
  | .array _ => array
  | .object _ => object

def describe : Found → String
  | null => "null"
  | bool b => "boolean `" ++ (if b then "true" else "false") ++ "`"
  | number (.int i) => "integer `" ++ (Number.int i).render ++ "`"
  | number (.double d) => "floating point `" ++ (Number.double d).render ++ "`"
  | string s => "string " ++ Text.quoted s
  | array => "sequence"
  | object => "map"

end Found

inductive Cause
  | endInValue | endInList | endInObject | endInString
  | colonExpected | listEndExpected | objectEndExpected | wordExpected | valueExpected
  | invalidEscape | invalidNumber | numberOutOfRange | invalidCodePoint | controlCharacter
  | keyNotString | loneSurrogate | unpairedSurrogate | trailingComma | trailingCharacters | tooDeep
  | missingField (name : String)
  | duplicateField (name : String)
  | wrongType (found : Found) (wanted : String)
  | wrongValue (found : Found) (wanted : String)
  | wrongLength (length : Nat) (wanted : String)
  | unknownVariant (name first second : String)

namespace Cause

def message : Cause → String
  | endInValue => "EOF while parsing a value"
  | endInList => "EOF while parsing a list"
  | endInObject => "EOF while parsing an object"
  | endInString => "EOF while parsing a string"
  | colonExpected => "expected `:`"
  | listEndExpected => "expected `,` or `]`"
  | objectEndExpected => "expected `,` or `\x7d`"
  | wordExpected => "expected ident"
  | valueExpected => "expected value"
  | invalidEscape => "invalid escape"
  | invalidNumber => "invalid number"
  | numberOutOfRange => "number out of range"
  | invalidCodePoint => "invalid unicode code point"
  | controlCharacter => "control character (\\u0000-\\u001F) found while parsing a string"
  | keyNotString => "key must be a string"
  | loneSurrogate => "lone leading surrogate in hex escape"
  | unpairedSurrogate => "unexpected end of hex escape"
  | trailingComma => "trailing comma"
  | trailingCharacters => "trailing characters"
  | tooDeep => "recursion limit exceeded"
  | missingField name => "missing field `" ++ name ++ "`"
  | duplicateField name => "duplicate field `" ++ name ++ "`"
  | wrongType found wanted => "invalid type: " ++ found.describe ++ ", expected " ++ wanted
  | wrongValue found wanted => "invalid value: " ++ found.describe ++ ", expected " ++ wanted
  | wrongLength n wanted => "invalid length " ++ Nat.repr n ++ ", expected " ++ wanted
  | unknownVariant name first second =>
    "unknown variant `" ++ name ++ "`, expected `" ++ first ++ "` or `" ++ second ++ "`"

end Cause

/-- A cause, and the bytes left unread where it was found; none while the place is not known, or
when no text is read at all. -/
structure Fault where
  cause : Cause
  left : Option Nat

namespace Fault

/-- A fault with `left` bytes of the text unread. -/
def here (cause : Cause) (left : Nat) : Fault := ⟨cause, some left⟩

/-- A fault whose place the enclosing list or object settles. -/
def floating (cause : Cause) : Fault := ⟨cause, none⟩

/-- Settles the place of a fault that has none. -/
def settle (f : Fault) (left : Option Nat) : Fault :=
  match f.left with
  | some _ => f
  | none => { f with left := left }

end Fault

/-- A place in a text: lines count from one, columns in bytes. -/
structure Position where
  line : Nat
  column : Nat
deriving DecidableEq

namespace Position

/-- The place after `bytes` more bytes. -/
def advance (p : Position) : List Text.Symbol → (bytes : Nat) → Position
  | [], _ => p
  | s :: rest, bytes =>
    if bytes < s.size then { p with column := p.column + bytes }
    else if s = .char '\n' then advance ⟨p.line + 1, 0⟩ rest (bytes - 1)
    else advance ⟨p.line, p.column + s.size⟩ rest (bytes - s.size)

end Position

def byteCount (text : List Text.Symbol) : Nat := text.foldl (fun n s => n + s.size) 0

/-- The wording of a fault found in a text. -/
def Fault.message (f : Fault) (text : List Text.Symbol) : String :=
  match f.left with
  | none => f.cause.message
  | some left =>
    let p := Position.advance ⟨1, 0⟩ text (byteCount text - left)
    f.cause.message ++ " at line " ++ Nat.repr p.line ++ " column " ++ Nat.repr p.column

end GatedCalls.Json
