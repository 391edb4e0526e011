import GatedCalls.Json.Fault
import GatedCalls.Json.Number

/-!
# JSON tokens

A text cut into tokens, as far as that goes. Strings and numbers carry two readings: the strict one
gives their value, the lenient one is for members nobody asks for, where an escape need not name a
character, a byte need not belong to one, and a number need not have a value. After a token whose
lenient reading fails the cutting stops; nothing reads past such a token.
-/

namespace GatedCalls.Json

open Text (Symbol)

/-- A symbol and the number of bytes from it to the end of the text. -/
structure Mark where
  symbol : Symbol
  left : Nat

namespace Mark

def ofSymbols (symbols : List Symbol) : List Mark :=
  (symbols.foldr (fun s acc => match acc with
    | (n, marks) => (n + s.size, ⟨s, n + s.size⟩ :: marks)) (0, [])).2

def is (m : Mark) (c : Char) : Bool := m.symbol == .char c

/-- Space, tab, line feed and return, the blanks between tokens. -/
def isSpace (m : Mark) : Bool := m.is ' ' || m.is '\t' || m.is '\n' || m.is '\r'

/-- The value of a decimal digit. -/
def digit? (m : Mark) : Option Nat :=
  match m.symbol with
  | .char c => if c.isDigit then some (c.toNat - '0'.toNat) else none
  | .stray _ => none

def isDigit (m : Mark) : Bool := m.digit?.isSome

/-- The value of a digit in base sixteen, of either case. -/
def hexDigit? (m : Mark) : Option Nat :=
  match m.symbol with
  | .char c =>
    if c.isDigit then some (c.toNat - '0'.toNat)
    else if 'a' ≤ c ∧ c ≤ 'f' then some (c.toNat - 'a'.toNat + 10)
    else if 'A' ≤ c ∧ c ≤ 'F' then some (c.toNat - 'A'.toNat + 10)
    else none
  | .stray _ => none

end Mark

/-- The number of bytes in the rest of a text. -/
def bytesLeft : List Mark → Nat
  | [] => 0
  | m :: _ => m.left

/-! ## Strings -/

/-- The code unit that four digits in base sixteen name. -/
def codeUnit? (a b c d : Mark) : Option Nat := do
  return (← a.hexDigit?) * 4096 + (← b.hexDigit?) * 256 + (← c.hexDigit?) * 16 + (← d.hexDigit?)

/-- The fault of an escape by number that has no four digits: four bytes are consumed, if there
are as many. -/
def badUnit (rest : List Mark) : Fault :=
  if bytesLeft rest < 4 then .here .endInString 0 else .here .invalidEscape (bytesLeft rest - 4)

/-- The character of a one-letter escape. -/
def shortEscape? (m : Mark) : Option Char :=
  match m.symbol with
  | .char '"' => some '"'
  | .char '\\' => some '\\'
  | .char '/' => some '/'
  | .char 'b' => some '\x08'
  | .char 'f' => some '\x0c'
  | .char 'n' => some '\n'
  | .char 'r' => some '\r'
  | .char 't' => some '\t'
  | _ => none

def isTrailing (u : Nat) : Bool := 0xdc00 ≤ u && u ≤ 0xdfff

def isLeading (u : Nat) : Bool := 0xd800 ≤ u && u ≤ 0xdbff

/-- Reads on inside a string; `acc` holds its characters so far, backwards. -/
def readString (acc : List Char) : List Mark → Except Fault (String × List Mark)
  | [] => .error (.here .endInString 0)
  | m :: rest =>
    if m.is '"' then .ok (String.ofList acc.reverse, rest)
    else if m.is '\\' then
      match rest with
      | [] => .error (.here .endInString 0)
      | e :: more =>
        match shortEscape? e with
        | some c => readString (c :: acc) more
        | none =>
          if !e.is 'u' then .error (.here .invalidEscape (e.left - 1))
          else match more with
            | a :: b :: c :: d :: after =>
              match codeUnit? a b c d with
              | none => .error (badUnit more)
              | some u =>
                if isTrailing u then .error (.here .loneSurrogate (bytesLeft after))
                else if !isLeading u then readString (Char.ofNat u :: acc) after
                else match after with
                  | [] => .error (.here .endInString 0)
                  | s :: after1 =>
                    if !s.is '\\' then .error (.here .unpairedSurrogate (s.left - 1))
                    else match after1 with
                      | [] => .error (.here .endInString 0)
                      | v :: after2 =>
                        if !v.is 'u' then .error (.here .unpairedSurrogate (v.left - 1))
                        else match after2 with
                          | a' :: b' :: c' :: d' :: after3 =>
                            match codeUnit? a' b' c' d' with
                            | none => .error (badUnit after2)
                            | some u' =>
                              if isTrailing u' then
                                readString (Char.ofNat
                                  (0x10000 + (u - 0xd800) * 1024 + (u' - 0xdc00)) :: acc) after3
                              else .error (.here .loneSurrogate (bytesLeft after3))
                          | short => .error (badUnit short)
            | short => .error (badUnit short)
    else match m.symbol with
      | .stray _ => .error (.here .invalidCodePoint (m.left - 1))
      | .char c =>
        if c.toNat < 0x20 then .error (.here .controlCharacter (m.left - 1))
        else readString (c :: acc) rest

/-- Passes over the rest of a string. -/
def skipString : List Mark → Except Fault (List Mark)
  | [] => .error (.here .endInString 0)
  | m :: rest =>
    if m.is '"' then .ok rest
    else if m.is '\\' then
      match rest with
      | [] => .error (.here .endInString 0)
      | e :: more =>
        if (shortEscape? e).isSome then skipString more
        else if !e.is 'u' then .error (.here .invalidEscape (e.left - 1))
        else match more with
          | a :: b :: c :: d :: after =>
            if (codeUnit? a b c d).isSome then skipString after else .error (badUnit more)
          | short => .error (badUnit short)
    else match m.symbol with
      | .stray _ => skipString rest
      | .char c =>
        if c.toNat < 0x20 then .error (.here .controlCharacter m.left) else skipString rest

/-! ## Numbers -/

/-- The parts of a number: the digits before and after the point, and the sign and digits of the
exponent, each digit with the bytes left after it. -/
structure Numeral where
  negative : Bool
  whole : List Nat
  fraction : Option (List Nat)
  exponent : Option (Bool × List (Nat × Nat))

/-- Where a numeral breaks off, and whether the text ends there. -/
structure Break where
  left : Nat
  atEnd : Bool

/-- A break at the first symbol of the rest, which counts as looked at. -/
def Break.before : List Mark → Break
  | [] => ⟨0, true⟩
  | m :: _ => ⟨m.left - 1, false⟩

/-- The digits at the front, and the rest. -/
def spanDigits (marks : List Mark) : List Nat × List Mark :=
  ((marks.takeWhile Mark.isDigit).filterMap Mark.digit?, marks.dropWhile Mark.isDigit)

/-- The digits at the front, each with the bytes left after it, and the rest. -/
def spanMarkedDigits (marks : List Mark) : List (Nat × Nat) × List Mark :=
  ((marks.takeWhile Mark.isDigit).filterMap fun m => m.digit?.map fun d => (d, m.left - 1),
    marks.dropWhile Mark.isDigit)

/-- The digits before the point: a zero stands alone. -/
def readWhole (marks : List Mark) : Except Break (List Nat × List Mark) :=
  match marks with
  | [] => .error (.before [])
  | m :: rest =>
    if m.is '0' then
      if rest.head?.any Mark.isDigit then .error (.before rest) else .ok ([0], rest)
    else if m.isDigit then .ok (spanDigits marks)
    else .error (.before marks)

def readFraction (marks : List Mark) : Except Break (Option (List Nat) × List Mark) :=
  match marks with
  | [] => .ok (none, [])
  | m :: rest =>
    if m.is '.' then
      if rest.head?.any Mark.isDigit then
        let (ds, after) := spanDigits rest
        .ok (some ds, after)
      else .error (.before rest)
    else .ok (none, marks)

def readExponent (marks : List Mark) :
    Except Break (Option (Bool × List (Nat × Nat)) × List Mark) :=
  match marks with
  | [] => .ok (none, [])
  | m :: rest =>
    if m.is 'e' || m.is 'E' then
      let (negative, ds) := match rest with
        | s :: more => if s.is '-' then (true, more) else if s.is '+' then (false, more)
          else (false, rest)
        | [] => (false, rest)
      if ds.head?.any Mark.isDigit then
        let (digits, after) := spanMarkedDigits ds
        .ok (some (negative, digits), after)
      else .error (.before ds)
    else .ok (none, marks)

/-- Reads a numeral, after its sign. -/
def readNumeral (negative : Bool) (marks : List Mark) : Except Break (Numeral × List Mark) := do
  let (whole, marks) ← readWhole marks
  let (fraction, marks) ← readFraction marks
  let (exponent, marks) ← readExponent marks
  return (⟨negative, whole, fraction, exponent⟩, marks)

/-- The exponent's digits as a number; on overflow the bytes left after the digit that overflows. -/
def exponentValue (n : Nat) : List (Nat × Nat) → Except Nat Nat
  | [] => .ok n
  | (d, left) :: rest =>
    if Number.maxExponent < n * 10 + d then .error left else exponentValue (n * 10 + d) rest

/-- The value of a numeral that is followed by `left` bytes. -/
def Numeral.value (x : Numeral) (left : Nat) : Except Fault Number :=
  let outOfRange (left : Nat) : Fault := .here .numberOutOfRange left
  let orOutOfRange (v : Option Number) : Except Fault Number :=
    match v with
    | some n => .ok n
    | none => .error (outOfRange left)
  match x.exponent with
  | none =>
    match x.fraction with
    | none => orOutOfRange (Number.ofWhole? x.negative x.whole)
    | some ds => orOutOfRange (Number.ofDecimal? x.negative x.whole ds 0)
  | some (negative, digits) =>
    let ds := x.fraction.getD []
    match exponentValue 0 digits with
    | .ok e => orOutOfRange (Number.ofDecimal? x.negative x.whole ds (if negative then -e else e))
    | .error left' =>
      if Number.significand x.whole ds ≠ 0 ∧ !negative then .error (outOfRange left')
      else .ok (.double (.zero x.negative))

/-! ## Tokens -/

inductive Bracket
  | square
  | curly
deriving DecidableEq

inductive Lexeme
  | opening (b : Bracket)
  | closing (b : Bracket)
  | comma
  | colon
  | null
  | bool (b : Bool)
  | number (strict : Except Fault Number) (lenient : Except Fault Unit)
  | string (strict : Except Fault String) (lenient : Except Fault Unit)
  | misspelt (f : Fault)
  | other

/-- A lexeme with the bytes left before and after it. -/
structure Token where
  lexeme : Lexeme
  start : Nat
  stop : Nat

/-- Reads the rest of a word, and gives what it means if it is all there. -/
def readWord (meaning : Lexeme) : (letters : List Char) → List Mark → Lexeme × List Mark
  | [], rest => (meaning, rest)
  | _ :: _, [] => (.misspelt (.here .endInValue 0), [])
  | c :: cs, m :: rest =>
    if m.is c then readWord meaning cs rest
    else (.misspelt (.here .wordExpected (m.left - 1)), [])

def numberLexeme (negative : Bool) (marks : List Mark) : Lexeme × List Mark :=
  match readNumeral negative marks with
  | .ok (x, rest) => (.number (x.value (bytesLeft rest)) (.ok ()), rest)
  | .error b =>
    (.number (.error (.here (if b.atEnd then .endInValue else .invalidNumber) b.left))
      (.error (.here .invalidNumber b.left)), [])

def stringLexeme (marks : List Mark) : Lexeme × List Mark :=
  match skipString marks with
  | .ok rest => (.string ((readString [] marks).map Prod.fst) (.ok ()), rest)
  | .error f => (.string ((readString [] marks).map Prod.fst) (.error f), [])

/-- The lexeme that starts with `m`. -/
def lexemeAt (m : Mark) (rest : List Mark) : Lexeme × List Mark :=
  match m.symbol with
  | .char '[' => (.opening .square, rest)
  | .char ']' => (.closing .square, rest)
  | .char '\x7b' => (.opening .curly, rest)
  | .char '\x7d' => (.closing .curly, rest)
  | .char ',' => (.comma, rest)
  | .char ':' => (.colon, rest)
  | .char '"' => stringLexeme rest
  | .char 'n' => readWord .null ['u', 'l', 'l'] rest
  | .char 't' => readWord (.bool true) ['r', 'u', 'e'] rest
  | .char 'f' => readWord (.bool false) ['a', 'l', 's', 'e'] rest
  | .char '-' => numberLexeme true rest
  | .char c => if c.isDigit then numberLexeme false (m :: rest) else (.other, rest)
  | .stray _ => (.other, rest)

/-- Cuts at most `fuel` tokens. -/
def cut : (fuel : Nat) → List Mark → List Token
  | 0, _ => []
  | fuel + 1, marks =>
    match marks.dropWhile Mark.isSpace with
    | [] => []
    | m :: rest =>
      let (lexeme, after) := lexemeAt m rest
      ⟨lexeme, m.left, bytesLeft after⟩ :: cut fuel after

/-- The tokens of a text; there are no more than symbols. -/
def tokens (text : List Symbol) : List Token := cut text.length (Mark.ofSymbols text)

end GatedCalls.Json
