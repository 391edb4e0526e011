import GatedCalls.Text.DisplayTables

/-!
# Quoted display

A text in double quotes as diagnostics show it: a quote and a backslash are escaped, NUL, tab,
return and line feed have short forms, and a character that cannot be seen on its own is written by
its code point.
-/

namespace GatedCalls.Text

/-- The digits of a number in base sixteen, in lower case. -/
def hex (n : Nat) : String := String.ofList (Nat.toDigits 16 n)

def quotedChar (c : Char) : String :=
  if c = '\x00' then "\\0"
  else if c = '\t' then "\\t"
  else if c = '\r' then "\\r"
  else if c = '\n' then "\\n"
  else if c = '"' then "\\\""
  else if c = '\\' then "\\\\"
  else if inRanges extendRanges c || inRanges unprintableRanges c then
    "\\u\x7b" ++ hex c.toNat ++ "\x7d"
  else c.toString

def quoted (s : String) : String :=
  "\"" ++ String.join (s.toList.map quotedChar) ++ "\""

end GatedCalls.Text
