import GatedCalls.Dict

/-!
# References to variables

A text with references `$` `{NAME}` and `$` `{NAME:-default}`. It falls into literal pieces,
references, and at most one piece at its end where a reference is opened and not closed; that piece
stays as it is. A reference stands for the variable's value, or for the default, or for nothing;
what is put in is not looked at again.
-/

namespace GatedCalls.Server.Expansion

/-- The text before the first `c` and the text after it. -/
def splitAt? (c : Char) : List Char → Option (List Char × List Char)
  | [] => none
  | d :: rest =>
    if d = c then some ([], rest) else (splitAt? c rest).map fun p => (d :: p.1, p.2)

/-- The name and the default of a reference; the first `:-` parts them. -/
def splitDefault : List Char → List Char × List Char
  | [] => ([], [])
  | ':' :: '-' :: rest => ([], rest)
  | c :: rest =>
    let (name, value) := splitDefault rest
    (c :: name, value)

/-- The variables of the environment. -/
abbrev Variables := Dict String

/-- The value of a variable; a name that no variable can have finds none. -/
def lookup? (vars : Variables) (name : List Char) : Option String :=
  if name.isEmpty || name.contains '=' || name.contains '\x00' then none
  else vars.get? (String.ofList name)

/-- What a reference stands for. -/
def referenceValue (vars : Variables) (ref : List Char) : List Char :=
  let (name, fallback) := splitDefault ref
  match lookup? vars name with
  | some v => v.toList
  | none => fallback

theorem length_lt_of_splitAt? {c : Char} {l a b : List Char} (h : splitAt? c l = some (a, b)) :
    b.length < l.length := by
  induction l generalizing a b with
  | nil => simp [splitAt?] at h
  | cons d rest ih =>
    rw [splitAt?] at h
    split at h
    · simp_all
    · obtain ⟨⟨x, y⟩, hxy, he⟩ := Option.map_eq_some_iff.1 h
      have := ih hxy
      simp only [Prod.mk.injEq] at he
      rw [List.length_cons, ← he.2]
      omega

/-- The text with its references replaced. -/
def expandChars (vars : Variables) : List Char → List Char
  | [] => []
  | '$' :: '\x7b' :: rest =>
    match _h : splitAt? '\x7d' rest with
    | none => '$' :: '\x7b' :: rest
    | some (ref, after) => referenceValue vars ref ++ expandChars vars after
  | c :: rest => c :: expandChars vars rest
termination_by l => l.length
decreasing_by
  · have := length_lt_of_splitAt? _h
    simp only [List.length_cons]
    omega
  · simp

def expand (vars : Variables) (s : String) : String := String.ofList (expandChars vars s.toList)

/-! ## Pieces -/

inductive Piece
  | literal (text : List Char)
  | reference (ref : List Char)
  | unclosed (text : List Char)
deriving DecidableEq

namespace Piece

/-- The piece as it stands in the text. -/
def source : Piece → List Char
  | literal text => text
  | reference ref => '$' :: '\x7b' :: ref ++ ['\x7d']
  | unclosed text => text

/-- What is put in its place. -/
def value (vars : Variables) : Piece → List Char
  | literal text => text
  | reference ref => referenceValue vars ref
  | unclosed text => text

end Piece

/-- Puts a character in front of the literal that starts a list of pieces. -/
def consLiteral (c : Char) : List Piece → List Piece
  | .literal text :: rest => .literal (c :: text) :: rest
  | ps => .literal [c] :: ps

/-- The pieces of a text: literals and references in turn, a literal first and, unless a reference
stays open, last. -/
def pieces : List Char → List Piece
  | [] => [.literal []]
  | '$' :: '\x7b' :: rest =>
    match _h : splitAt? '\x7d' rest with
    | none => [.literal [], .unclosed ('$' :: '\x7b' :: rest)]
    | some (ref, after) => .literal [] :: .reference ref :: pieces after
  | c :: rest => consLiteral c (pieces rest)
termination_by l => l.length
decreasing_by
  · have := length_lt_of_splitAt? _h
    simp only [List.length_cons]
    omega
  · simp

end GatedCalls.Server.Expansion
