/-! # Numerals

Numbers as they stand in messages and on the command line: hexadecimal with a least width, and
unsigned numerals with an optional plus sign that must fit a bound.
-/

namespace AirLink.Numeral

/-- A character repeated in front of a text up to a width. -/
def padLeft (width : Nat) (fill : Char) (digits : List Char) : List Char :=
  List.replicate (width - digits.length) fill ++ digits

/-- Hexadecimal with capital letters and at least `width` digits. -/
def hexUpper (width n : Nat) : String :=
  String.ofList (padLeft width '0' ((Nat.toDigits 16 n).map Char.toUpper))

/-- Hexadecimal with small letters and at least `width` digits. -/
def hexLower (width n : Nat) : String :=
  String.ofList (padLeft width '0' (Nat.toDigits 16 n))

/-- The value of a digit in a base of at most 36, letters counting from ten in either case. -/
def digit? (base : Nat) (c : Char) : Option Nat :=
  let value :=
    if '0' ≤ c ∧ c ≤ '9' then c.toNat - '0'.toNat
    else if 'a' ≤ c ∧ c ≤ 'z' then c.toNat - 'a'.toNat + 10
    else if 'A' ≤ c ∧ c ≤ 'Z' then c.toNat - 'A'.toNat + 10
    else base
  if value < base then some value else none

/-- The number written by digits alone, most significant first; no digit at all is no number. -/
def ofDigits? (base : Nat) (cs : List Char) : Option Nat :=
  if cs.isEmpty then none
  else (cs.mapM (digit? base)).map fun ds => ds.foldl (fun acc d => acc * base + d) 0

/-- Reads an unsigned numeral below `bound`.  One plus sign may stand in front; blanks, a minus sign
and digit separators are refused. -/
def parse? (base bound : Nat) (text : List Char) : Option Nat :=
  let digits := match text with
    | '+' :: rest => rest
    | _ => text
  (ofDigits? base digits).filter (· < bound)

end AirLink.Numeral
