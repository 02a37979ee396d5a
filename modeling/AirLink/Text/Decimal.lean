import AirLink.Text.Numeral

/-! # Numbers with fixed places

A floating-point number is a fraction with a power of two below the line.  It is written with a
fixed number of decimal places by rounding that exact fraction; a half goes to the even neighbour.
-/

namespace AirLink.Decimal

/-- The quotient rounded to the nearest whole number, a half to the even neighbour. -/
def roundDiv (num den : Nat) : Nat :=
  let floor := num / den
  let rest := 2 * (num % den)
  if rest < den then floor
  else if den < rest then floor + 1
  else floor + floor % 2

structure Fraction where
  negative : Bool
  num : Nat
  den : Nat
  deriving DecidableEq, Repr

/-- The exact value of a floating-point number, if it is finite. -/
def ofFloat? (x : Float) : Option Fraction :=
  let bits := x.toBits.toNat
  let negative := bits.testBit 63
  let exponent := (bits >>> 52) % 2048
  let fraction := bits % (1 <<< 52)
  if exponent = 2047 then none
  else if exponent = 0 then some ⟨negative, fraction, 1 <<< 1074⟩
  else if exponent < 1075 then some ⟨negative, 1 <<< 52 + fraction, 1 <<< (1075 - exponent)⟩
  else some ⟨negative, (1 <<< 52 + fraction) <<< (exponent - 1075), 1⟩

def renderFraction (places : Nat) (x : Fraction) : String :=
  let unit := Nat.pow 10 places
  let scaled := roundDiv (x.num * unit) x.den
  let behind := Numeral.padLeft places '0' (Nat.toDigits 10 (scaled % unit))
  (if x.negative then "-" else "") ++ toString (scaled / unit)
    ++ (if places = 0 then "" else "." ++ String.ofList behind)

/-- The number with `places` digits behind the point. -/
def render (places : Nat) (x : Float) : String :=
  match ofFloat? x with
  | some fraction => renderFraction places fraction
  | none => if x.isNaN then "NaN" else if x < 0 then "-inf" else "inf"

end AirLink.Decimal
