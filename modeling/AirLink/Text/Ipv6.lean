import AirLink.Bytes
import AirLink.Text.Numeral

/-! # IPv6 addresses

An address is eight 16-bit groups.  It is read in every form in which addresses are written: groups
of up to four hexadecimal digits, one run of zero groups left out, and a dotted quad in place of the
last two groups.  It is written in the canonical form: small letters, the longest run of at least
two zero groups left out, the first of several such runs, and a dotted quad only where the address
stands for one of the older kind.
-/

namespace AirLink

abbrev Ipv6 := Vector UInt16 8

namespace Ipv6

/-- The address with the given groups, and zeros behind them. -/
def ofGroups (groups : List Nat) : Ipv6 := Vector.ofFn fun i => UInt16.ofNat (groups.getD i 0)

/-- The digits of a base at the front of a text, and the rest. -/
def digitsOf (base : Nat) (cs : List Char) : List Char × List Char :=
  (cs.takeWhile fun c => (Numeral.digit? base c).isSome,
    cs.dropWhile fun c => (Numeral.digit? base c).isSome)

/-- A group of one to four hexadecimal digits at the front of a text. -/
def readGroup (cs : List Char) : Option (Nat × List Char) :=
  let (digits, rest) := digitsOf 16 cs
  if 4 < digits.length then none else (Numeral.ofDigits? 16 digits).map ((·, rest))

/-- A decimal byte at the front of a text; it has no zero in front. -/
def readDecimal (cs : List Char) : Option (Nat × List Char) :=
  let (digits, rest) := digitsOf 10 cs
  if 3 < digits.length ∨ (1 < digits.length ∧ digits.head? = some '0') then none
  else ((Numeral.ofDigits? 10 digits).filter (· < 256)).map ((·, rest))

def expect (c : Char) : List Char → Option (List Char)
  | d :: rest => if d = c then some rest else none
  | [] => none

/-- A dotted quad at the front of a text, as two groups. -/
def readQuad (cs : List Char) : Option (List Nat × List Char) := do
  let (a, cs) ← readDecimal cs
  let (b, cs) ← readDecimal (← expect '.' cs)
  let (c, cs) ← readDecimal (← expect '.' cs)
  let (d, cs) ← readDecimal (← expect '.' cs)
  return ([a * 256 + b, c * 256 + d], cs)

/-- Groups between colons. -/
structure Run where
  groups : List Nat
  /-- The last two groups were written as a dotted quad. -/
  quad : Bool
  rest : List Char

/-- Reads up to `limit` groups between colons.  A dotted quad needs room for two groups and ends the
run.  Where no further group can be read, the text before the separator is left. -/
def readRun (first : Bool) : Nat → List Char → Run
  | 0, cs => ⟨[], false, cs⟩
  | limit + 1, cs =>
    let start := if first then some cs else expect ':' cs
    let quad := if limit = 0 then none else start.bind readQuad
    match quad with
    | some (groups, rest) => ⟨groups, true, rest⟩
    | none =>
      match start.bind readGroup with
      | none => ⟨[], false, cs⟩
      | some (group, rest) =>
        let run := readRun false limit rest
        { run with groups := group :: run.groups }

def parse? (text : String) : Option Ipv6 := do
  let head := readRun true 8 text.toList
  if head.groups.length = 8 then
    if head.rest.isEmpty then return ofGroups head.groups else none
  else if head.quad then none
  else
    let rest ← expect ':' head.rest
    let rest ← expect ':' rest
    let tail := readRun true (7 - head.groups.length) rest
    if tail.rest.isEmpty then
      let left := 8 - head.groups.length - tail.groups.length
      return ofGroups (head.groups ++ List.replicate left 0 ++ tail.groups)
    else none

/-- The length of the run of zeros at the front of a list. -/
def leadingZeros (groups : List Nat) : Nat := (groups.takeWhile (· = 0)).length

/-- Where the longest run of zero groups begins, the first of several, and how long it is. -/
def longestZeros (groups : List Nat) : Nat × Nat :=
  (List.range groups.length).foldl
    (fun best i =>
      let length := leadingZeros (groups.drop i)
      if best.2 < length then (i, length) else best)
    (0, 0)

def renderGroups (groups : List Nat) : String :=
  String.intercalate ":" (groups.map (Numeral.hexLower 1))

def renderQuad (a b : Nat) : String :=
  String.intercalate "." ([a / 256, a % 256, b / 256, b % 256].map toString)

/-- The canonical form of an address. -/
def render (address : Ipv6) : String :=
  match address.toList.map UInt16.toNat with
  | [0, 0, 0, 0, 0, 0xffff, a, b] => "::ffff:" ++ renderQuad a b
  | groups =>
    let (start, length) := longestZeros groups
    if 1 < length then
      renderGroups (groups.take start) ++ "::" ++ renderGroups (groups.drop (start + length))
    else renderGroups groups

end Ipv6

end AirLink
