import GatedCalls.Dict
import GatedCalls.Text.Blank
import GatedCalls.Text.Lowercase

/-!
# Confirmation policies

Which of the tools that a server declares need a confirmation: those the operator listed, and
besides them none, all, or all whose names hold none of the keywords that mark a tool as harmless.
Keywords and names are compared in lower case.
-/

namespace GatedCalls

inductive Policy
  | listed
  | readOnlyKeywords (keywords : List String)
  | all
deriving DecidableEq, Inhabited

namespace Text

/-- Whether `part` stands somewhere in the text. -/
def containsChars (part : List Char) : List Char → Bool
  | [] => part.isEmpty
  | c :: rest => part.isPrefixOf (c :: rest) || containsChars part rest

def containsText (s part : String) : Bool := containsChars part.toList s.toList

end Text

namespace Policy

/-- The policy of the flags: gating everything outweighs keywords, and blank keywords do not
count. -/
def ofFlags (keywords : List String) (confirmAll : Bool) : Policy :=
  if confirmAll then .all
  else
    match (keywords.map fun k => Text.lowercase (Text.trim k)).filter fun k => !k.isEmpty with
    | [] => .listed
    | ks => .readOnlyKeywords ks

/-- Whether the names of the declared tools matter. -/
def needsDiscovery : Policy → Bool
  | listed => false
  | _ => true

/-- Whether the policy gates a tool that is not listed. -/
def gates (p : Policy) (name : String) : Bool :=
  match p with
  | listed => false
  | all => true
  | readOnlyKeywords ks => !ks.any (Text.containsText (Text.lowercase name))

/-- The names to gate, of those discovered and those listed. -/
def confirmationSet (p : Policy) (discovered : List String) (listed : NameSet) : NameSet :=
  discovered.foldl (fun set name => if p.gates name then set.insert name else set) listed

end Policy

end GatedCalls
