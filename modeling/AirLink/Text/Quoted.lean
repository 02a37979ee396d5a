import AirLink.Text.Combining
import AirLink.Text.Hidden
import AirLink.Text.Numeral

/-! # Quoted text

A text between double quotes, in which quotes, backslashes and characters that cannot be seen or
would not stand on their own are escaped.
-/

namespace AirLink.Quoted

/-- Characters that are shown by their number: those without a shape of their own and those that
would change the character before them. -/
def isInvisible (c : Char) : Bool := Combining.contains c || Hidden.contains c

def escape (c : Char) : String :=
  if c = '"' then "\\\""
  else if c = '\\' then "\\\\"
  else if c = '\n' then "\\n"
  else if c = '\r' then "\\r"
  else if c = '\t' then "\\t"
  else if c.toNat = 0 then "\\0"
  else if isInvisible c then "\\u\x7b" ++ Numeral.hexLower 1 c.toNat ++ "\x7d"
  else String.singleton c

/-- The text between quotes. -/
def render (text : String) : String := "\"" ++ String.join (text.toList.map escape) ++ "\""

end AirLink.Quoted
