import AirLink.GF256

/-! # Square matrices over the field with 256 elements

Inversion by Gauss–Jordan elimination.  Each step picks a row whose entry in the present column is
not zero, moves it onto the diagonal, scales it and clears the column in every other row.  The same
operations are applied to a second matrix, which starts as the identity and ends as the inverse
when the first has become the identity.
-/

namespace AirLink.Erasure

abbrev Row (k : Nat) := Vector GF256 k

abbrev Matrix (k : Nat) := Vector (Row k) k

namespace Row

def unit (k i : Nat) : Row k := Vector.ofFn fun j => if j.val = i then 1 else 0

def scale {k : Nat} (factor : GF256) (row : Row k) : Row k := row.map (· * factor)

def addMultiple {k : Nat} (factor : GF256) (other row : Row k) : Row k :=
  if factor = 0 then row else Vector.zipWith (fun a b => a + factor * b) row other

/-- The sum of the rows of a matrix, weighted by the entries of this row. -/
def times {k : Nat} (row : Row k) (m : Matrix k) : Row k :=
  (List.finRange k).foldl (fun sum j => addMultiple row[j] m[j] sum) (Vector.replicate k 0)

end Row

namespace Matrix

def identity (k : Nat) : Matrix k := Vector.ofFn fun i => Row.unit k i

/-- The first row from `column` on whose entry in that column is not zero. -/
def pivot? {k : Nat} (m : Matrix k) (column : Fin k) : Option (Fin k) :=
  (List.finRange k).find? fun r => column ≤ r && m[r][column] != 0

/-- Replaces the row at `column` and subtracts a multiple of it from every other row, as many times
as that row's entry in the guiding matrix says. -/
def clear {k : Nat} (guide m : Matrix k) (column : Fin k) (row : Row k) : Matrix k :=
  Vector.ofFn fun r => if r = column then row else Row.addMultiple guide[r][column] row m[r]

/-- Makes one column of the first matrix a column of the identity, doing the same to the second. -/
def eliminate {k : Nat} (pair : Matrix k × Matrix k) (column : Fin k) :
    Option (Matrix k × Matrix k) :=
  (pivot? pair.1 column).map fun (p : Fin k) =>
    let left := pair.1.swap p column
    let right := pair.2.swap p column
    let factor := left[column][column]⁻¹
    (clear left left column (left[column].scale factor),
      clear left right column (right[column].scale factor))

/-- Eliminates every column in turn, with the identity beside the matrix. -/
def reduce {k : Nat} (m : Matrix k) : Option (Matrix k × Matrix k) :=
  (List.finRange k).foldlM eliminate (m, identity k)

def invert {k : Nat} (m : Matrix k) : Option (Matrix k) := (reduce m).map (·.2)

end Matrix

end AirLink.Erasure
