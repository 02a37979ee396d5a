/-! # Ranges of characters

A property of characters is kept as a list of ranges in ascending order.
-/

namespace AirLink

/-- The characters whose numbers lie between two numbers, both of which count. -/
structure CharRange where
  first : Nat
  last : Nat
  deriving DecidableEq, Repr

namespace CharRange

/-- Whether a character lies in one of the ranges. -/
def covers (ranges : List CharRange) (c : Char) : Bool :=
  ranges.any fun range => Nat.ble range.first c.toNat && Nat.ble c.toNat range.last

/-- Whether each range starts no lower than a number, holds at least one character and ends below
those that follow. -/
def ascending : Nat → List CharRange → Bool
  | _, [] => true
  | low, range :: ranges =>
    Nat.ble low range.first && Nat.ble range.first range.last && ascending (range.last + 1) ranges

theorem covers_iff (ranges : List CharRange) (c : Char) :
    covers ranges c = true ↔ ∃ range ∈ ranges, range.first ≤ c.toNat ∧ c.toNat ≤ range.last := by
  simp [covers, List.any_eq_true]

end CharRange

end AirLink
