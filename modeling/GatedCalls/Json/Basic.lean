import GatedCalls.Dict
import GatedCalls.Decimal.Double

/-!
# JSON values

The values that tools take and answer. An object lists its members in increasing order of their
keys; `Json.ofMembers` and the readers establish that order. Whole numbers of 64 bits are exact,
every other number is a double.
-/

namespace GatedCalls

inductive Number
  | int (i : Int)
  | double (d : Double)
deriving DecidableEq, Inhabited

inductive Json
  | null
  | bool (b : Bool)
  | number (n : Number)
  | string (s : String)
  | array (items : List Json)
  | object (members : List (String × Json))
deriving Inhabited

/-- A tool's arguments: a JSON object by parameter name. -/
abbrev Args := Dict Json

namespace Json

mutual

def decEq : (a b : Json) → Decidable (a = b)
  | .null, .null => isTrue rfl
  | .bool a, .bool b => decidable_of_iff (a = b) (by simp)
  | .number a, .number b => decidable_of_iff (a = b) (by simp)
  | .string a, .string b => decidable_of_iff (a = b) (by simp)
  | .array a, .array b => have := decEqItems a b; decidable_of_iff (a = b) (by simp)
  | .object a, .object b => have := decEqMembers a b; decidable_of_iff (a = b) (by simp)
  | .null, .bool _ | .null, .number _ | .null, .string _ | .null, .array _ | .null, .object _
  | .bool _, .null | .bool _, .number _ | .bool _, .string _ | .bool _, .array _
  | .bool _, .object _
  | .number _, .null | .number _, .bool _ | .number _, .string _ | .number _, .array _
  | .number _, .object _
  | .string _, .null | .string _, .bool _ | .string _, .number _ | .string _, .array _
  | .string _, .object _
  | .array _, .null | .array _, .bool _ | .array _, .number _ | .array _, .string _
  | .array _, .object _
  | .object _, .null | .object _, .bool _ | .object _, .number _ | .object _, .string _
  | .object _, .array _ => isFalse (by simp)

def decEqItems : (a b : List Json) → Decidable (a = b)
  | [], [] => isTrue rfl
  | [], _ :: _ | _ :: _, [] => isFalse (by simp)
  | x :: xs, y :: ys =>
    have := decEq x y
    have := decEqItems xs ys
    decidable_of_iff (x = y ∧ xs = ys) (by simp)

def decEqMembers : (a b : List (String × Json)) → Decidable (a = b)
  | [], [] => isTrue rfl
  | [], _ :: _ | _ :: _, [] => isFalse (by simp)
  | (k, x) :: xs, (l, y) :: ys =>
    have := decEq x y
    have := decEqMembers xs ys
    decidable_of_iff (k = l ∧ x = y ∧ xs = ys) (by simp [and_assoc])

end

instance : DecidableEq Json := decEq

/-- The object with these members; of several values for a key the last one counts. -/
def ofMembers (l : List (String × Json)) : Json := .object (Dict.ofList l).entries

def ofDict (d : Dict Json) : Json := .object d.entries

def ofNat (n : Nat) : Json := .number (.int n)

def ofStrings (l : List String) : Json := .array (l.map .string)

/-- The member of an object. -/
def get? (j : Json) (k : String) : Option Json :=
  match j with
  | .object members => members.lookup k
  | _ => none

def asBool? : Json → Option Bool
  | .bool b => some b
  | _ => none

def asString? : Json → Option String
  | .string s => some s
  | _ => none

def asArray? : Json → Option (List Json)
  | .array items => some items
  | _ => none

/-- The members of an object as arguments. -/
def asArgs? : Json → Option Args
  | .object members => some (Dict.ofList members)
  | _ => none

def isNull : Json → Bool
  | .null => true
  | _ => false

end Json

end GatedCalls
