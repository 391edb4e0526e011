/-!
# HTTP headers

Which names and values a header can have: a name is a token, and a value holds no control characters
except the tab.
-/

namespace GatedCalls.Http

/-- Whether a character may stand in a token. -/
def isTokenChar (c : Char) : Bool := c.isAlphanum || "!#$%&'*+-.^_`|~".toList.contains c

inductive HeaderFault
  | name
  | value
deriving DecidableEq

namespace HeaderFault

def message : HeaderFault → String
  | name => "invalid HTTP header name"
  | value => "failed to parse header value"

end HeaderFault

/-- The longest name there can be. -/
def maxNameLength : Nat := 65535

def isHeaderName (name : String) : Bool :=
  !name.isEmpty && name.length ≤ maxNameLength && name.all isTokenChar

def isHeaderValue (value : String) : Bool :=
  value.all fun c => c = '\t' || (' ' ≤ c && c ≠ '\x7f')

/-- A value as it arrives: spaces and tabs around it do not belong to it. -/
def fieldValue (value : String) : String :=
  let isSpace (c : Char) : Bool := c = ' ' || c = '\t'
  String.ofList (((value.toList.dropWhile isSpace).reverse.dropWhile isSpace).reverse)

/-- What is wrong with a header; the name is looked at first. -/
def headerFault? (name value : String) : Option HeaderFault :=
  if !isHeaderName name then some .name else if !isHeaderValue value then some .value else none

end GatedCalls.Http
