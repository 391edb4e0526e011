import GatedCalls.Text.Utf8

/-!
# Addresses

An absolute URL in its parts, read from text and written back in normal form: the scheme and the
host in lower case, the default port left out, dots in the path resolved, and every character that
may not stand where it does written as the percent-encoded bytes of its UTF-8 form. User names and
passwords are dropped.
-/

namespace GatedCalls.Http

structure Url where
  scheme : String
  /-- The host and the port; there may be an authority with an empty host. -/
  authority : Option String
  path : String
  query : Option String
  fragment : Option String
deriving DecidableEq

namespace Url

/-! ## Percent-encoding -/

def hexDigit (n : Nat) : Char := Char.ofNat (if n < 10 then 0x30 + n else 0x37 + n)

def encodeByte (b : UInt8) : List Char := ['%', hexDigit (b.toNat / 16), hexDigit (b.toNat % 16)]

/-- Encodes the characters of a class. -/
def encode (unsafeChar : Char → Bool) (cs : List Char) : List Char :=
  cs.flatMap fun c =>
    if unsafeChar c then (Text.Utf8.encode c.toString).flatMap encodeByte else [c]

def isControl (c : Char) : Bool := c < ' ' || '~' < c

def isUnsafeInFragment (c : Char) : Bool := isControl c || " \"<>`".toList.contains c

def isUnsafeInPath (c : Char) : Bool := isUnsafeInFragment c || "#?\x7b\x7d".toList.contains c

/-- In the query of a special scheme an apostrophe is encoded too. -/
def isUnsafeInQuery (special : Bool) (c : Char) : Bool :=
  isControl c || " \"#<>".toList.contains c || (special && c == '\'')

/-! ## Reading -/

/-- Schemes that are followed by a host, and their default ports. -/
def defaultPort? : String → Option Nat
  | "http" | "ws" => some 80
  | "https" | "wss" => some 443
  | "ftp" => some 21
  | _ => none

def isSchemeChar (c : Char) : Bool := c.isAlphanum || c == '+' || c == '-' || c == '.'

/-- The text before and after the first character of a class; the character itself is dropped. -/
def splitAtFirst (p : Char → Bool) (cs : List Char) : List Char × Option (List Char) :=
  match cs.dropWhile (!p ·) with
  | [] => (cs, none)
  | _ :: rest => (cs.takeWhile (!p ·), some rest)

/-- The pieces between the characters of a class. -/
def pieces (p : Char → Bool) : List Char → List (List Char)
  | [] => [[]]
  | c :: rest =>
    if p c then [] :: pieces p rest
    else match pieces p rest with
      | [] => [[c]]
      | piece :: more => (c :: piece) :: more

def isSlash (special : Bool) (c : Char) : Bool := c == '/' || (special && c == '\\')

/-- A piece of a path that stands for the folder itself. -/
def isDot (piece : List Char) : Bool :=
  ([".", "%2e"].map String.toList).contains (piece.map (·.toLower))

/-- A piece of a path that stands for the folder above. -/
def isDoubleDot (piece : List Char) : Bool :=
  (["..", ".%2e", "%2e.", "%2e%2e"].map String.toList).contains (piece.map (·.toLower))

/-- Resolves the dots among the pieces of a path; `done` holds those before, the last one first. -/
def resolve (done : List (List Char)) : List (List Char) → List (List Char)
  | [] => done.reverse
  | [piece] =>
    if isDoubleDot piece then ([] :: done.drop 1).reverse
    else if isDot piece then ([] :: done).reverse
    else (piece :: done).reverse
  | piece :: rest =>
    if isDoubleDot piece then resolve (done.drop 1) rest
    else if isDot piece then resolve done rest
    else resolve (piece :: done) rest

/-- A path in normal form; it starts with a slash. -/
def normalPath (special : Bool) (cs : List Char) : List Char :=
  let cs := match cs with
    | c :: rest => if isSlash special c then rest else cs
    | [] => []
  (resolve [] (pieces (isSlash special) cs)).flatMap fun piece => '/' :: encode isUnsafeInPath piece

def isForbiddenInHost (c : Char) : Bool :=
  c ≤ ' ' || c == '\x7f' || "#/:<>?@[\\]^|%".toList.contains c

/-- The port that some digits give: nothing is no port, and other characters or too large a number
are no port at all. -/
def port? (special : Option Nat) (cs : List Char) : Option (List Char) :=
  if cs.all Char.isDigit then
    let n := cs.foldl (fun n c => n * 10 + (c.toNat - '0'.toNat)) 0
    if 65535 < n then none
    else if cs.isEmpty || special == some n then some []
    else some (':' :: (Nat.repr n).toList)
  else none

/-- The host and the port of an authority, in normal form. -/
def authority? (special : Option Nat) (cs : List Char) : Option (List Char) :=
  let cs := (cs.reverse.takeWhile (· ≠ '@')).reverse
  match cs with
  | '[' :: rest =>
    match splitAtFirst (· == ']') rest with
    | (host, some []) => some ('[' :: host.map (·.toLower) ++ [']'])
    | (host, some (':' :: digits)) =>
      (port? special digits).map fun port => '[' :: host.map (·.toLower) ++ ']' :: port
    | _ => none
  | _ =>
    let (host, digits) := splitAtFirst (· == ':') cs
    if host.any isForbiddenInHost || (special.isSome && host.isEmpty) then none
    else
      (port? special (digits.getD [])).map fun port =>
        (if special.isSome then host.map (·.toLower) else host) ++ port

/-- What follows the scheme: the authority and the path. -/
def hierarchy? (scheme : String) (cs : List Char) : Option (Option (List Char) × List Char) :=
  match defaultPort? scheme with
  | some port =>
    let cs := cs.dropWhile (isSlash true)
    let name := cs.takeWhile (!isSlash true ·)
    (authority? (some port) name).map fun a =>
      (some a, normalPath true (cs.drop name.length))
  | none =>
    match cs with
    | '/' :: '/' :: rest =>
      let name := rest.takeWhile (· ≠ '/')
      let path := rest.drop name.length
      (authority? none name).map fun a =>
        (some (if scheme = "file" ∧ a = "localhost".toList then [] else a),
          if path.isEmpty ∧ scheme ≠ "file" then [] else normalPath false path)
    | '/' :: _ => some (if scheme = "file" then some [] else none, normalPath false cs)
    | _ =>
      if scheme = "file" then some (some [], normalPath false cs)
      else some (none, encode isControl cs)

def isBlank (c : Char) : Bool := c ≤ ' '

/-- Reads an absolute URL. -/
def parse? (s : String) : Option Url :=
  let cs := ((s.toList.dropWhile isBlank).reverse.dropWhile isBlank).reverse
  let cs := cs.filter fun c => c ≠ '\t' ∧ c ≠ '\n' ∧ c ≠ '\r'
  let name := cs.takeWhile isSchemeChar
  match name, cs.drop name.length with
  | first :: _, ':' :: rest =>
    if !first.isAlpha then none
    else
      let scheme := (String.ofList name).toLower
      let (rest, fragment) := splitAtFirst (· == '#') rest
      let (rest, query) := splitAtFirst (· == '?') rest
      let isSpecial := (defaultPort? scheme).isSome
      (hierarchy? scheme rest).map fun (authority, path) =>
        ⟨scheme, authority.map String.ofList, String.ofList path,
          query.map fun q => String.ofList (encode (isUnsafeInQuery isSpecial) q),
          fragment.map fun f => String.ofList (encode isUnsafeInFragment f)⟩
  | _, _ => none

/-! ## Writing -/

/-- What a request asks its host for. -/
def target (u : Url) : String := u.path ++ u.query.elim "" ("?" ++ ·)

def render (u : Url) : String :=
  u.scheme ++ ":" ++ u.authority.elim "" ("//" ++ ·) ++ u.target ++ u.fragment.elim "" ("#" ++ ·)

/-- Whether a request can be sent there. -/
def isWeb (u : Url) : Bool := u.scheme == "http" || u.scheme == "https"

end Url

end GatedCalls.Http
