/-!
# White space

The blank characters are those with the Unicode property White_Space. Trimming and splitting work
on them; zero-width characters and the separators of ASCII's control block are not among them.
-/

namespace GatedCalls.Text

/-- The property White_Space. -/
def isBlank (c : Char) : Bool :=
  let n := c.toNat
  (9 ≤ n && n ≤ 13) || n == 0x20 || n == 0x85 || n == 0xa0 || n == 0x1680 ||
    (0x2000 ≤ n && n ≤ 0x200a) || n == 0x2028 || n == 0x2029 || n == 0x202f || n == 0x205f ||
    n == 0x3000

def trimStart (cs : List Char) : List Char := cs.dropWhile isBlank

def trimEnd (cs : List Char) : List Char := (cs.reverse.dropWhile isBlank).reverse

/-- Without the blanks at both ends. -/
def trimChars (cs : List Char) : List Char := trimEnd (trimStart cs)

/-- The maximal pieces without a blank, in order. -/
def wordsFrom : List Char → List (List Char)
  | [] => []
  | c :: rest =>
    if isBlank c then wordsFrom rest
    else match rest, wordsFrom rest with
      | d :: _, w :: ws => if isBlank d then [c] :: w :: ws else (c :: w) :: ws
      | _, ws => [c] :: ws

def trim (s : String) : String := String.ofList (trimChars s.toList)

def words (s : String) : List String := (wordsFrom s.toList).map String.ofList

/-- Whether nothing but blanks stands in the text. -/
def isBlankText (s : String) : Bool := s.toList.all isBlank

/-- The text before the first blank and the text after it. -/
def splitBlank? : List Char → Option (List Char × List Char)
  | [] => none
  | c :: rest =>
    if isBlank c then some ([], rest)
    else (splitBlank? rest).map fun p => (c :: p.1, p.2)

end GatedCalls.Text
