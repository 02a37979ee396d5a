import AirLink.Bytes
import AirLink.Text.Numeral

/-! # Bytes in hexadecimal

Two digits for every byte, small letters on output and either case on input.
-/

namespace AirLink.Hex

def render (bs : Bytes) : String :=
  String.ofList (bs.flatMap fun b =>
    [Nat.digitChar (b.toNat / 16), Nat.digitChar (b.toNat % 16)])

/-- The bytes that pairs of digits stand for. -/
def ofDigits? : List Char → Option Bytes
  | [] => some []
  | a :: b :: rest => do
    let high ← Numeral.digit? 16 a
    let low ← Numeral.digit? 16 b
    return UInt8.ofNat (high * 16 + low) :: (← ofDigits? rest)
  | [_] => none

def parse? (text : String) : Option Bytes := ofDigits? text.toList

end AirLink.Hex
