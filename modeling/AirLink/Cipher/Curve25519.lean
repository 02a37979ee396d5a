import AirLink.Bytes

/-! # Curve25519

Key agreement on the Montgomery curve over the integers modulo 2²⁵⁵ - 19, with points given by
their first coordinate alone.
-/

namespace AirLink.Cipher.Curve25519

def modulus : Nat := 1 <<< 255 - 19

def sub (a b : Nat) : Nat := (a + modulus - b) % modulus

/-- The bits of a number below 2²⁵⁵, the highest first. -/
def bits (n : Nat) : List Bool := (List.range 255).reverse.map n.testBit

/-- A residue to a power, squaring once for every bit of the exponent. -/
def pow (base exponent : Nat) : Nat :=
  (bits exponent).foldl
    (fun product bit =>
      let square := product * product % modulus
      if bit then square * base % modulus else square)
    1

/-- Two points of the ladder as fractions, numerators and denominators apart. -/
structure Ladder where
  x₂ : Nat
  z₂ : Nat
  x₃ : Nat
  z₃ : Nat

namespace Ladder

def swap (l : Ladder) : Ladder := ⟨l.x₃, l.z₃, l.x₂, l.z₂⟩

/-- Doubles the first point and adds it to the second, given the coordinate of their difference. -/
def double (x : Nat) (l : Ladder) : Ladder :=
  let sum₂ := (l.x₂ + l.z₂) % modulus
  let diff₂ := sub l.x₂ l.z₂
  let sumSquare := sum₂ * sum₂ % modulus
  let diffSquare := diff₂ * diff₂ % modulus
  let e := sub sumSquare diffSquare
  let da := sub l.x₃ l.z₃ * sum₂ % modulus
  let cb := (l.x₃ + l.z₃) % modulus * diff₂ % modulus
  let plus := (da + cb) % modulus
  let minus := sub da cb
  { x₂ := sumSquare * diffSquare % modulus
    z₂ := e * ((sumSquare + 121665 * e) % modulus) % modulus
    x₃ := plus * plus % modulus
    z₃ := minus * minus % modulus * x % modulus }

/-- One step: the bit of the scalar says which point is doubled. -/
def step (x : Nat) (l : Ladder) (bit : Bool) : Ladder :=
  if bit then (double x l.swap).swap else double x l

end Ladder

def order : Nat := 1 <<< 252 + 27742317777372353535851937790883648493

/-- The scalar of a secret key: a multiple of eight with the highest bit fixed, and of that the
residue modulo the order of the base point.  Multiples of the base point do not depend on the last
step; points outside its group are not cleared of their small components. -/
def scalar (secret : Octets 32) : Nat :=
  (Bytes.toNatLE secret.val % (1 <<< 254) / 8 * 8 + 1 <<< 254) % order

/-- The coordinate of a point times a scalar; no point is refused. -/
def multiply (secret : Octets 32) (point : Octets 32) : Octets 32 :=
  let x := Bytes.toNatLE point.val % (1 <<< 255) % modulus
  let l := (bits (scalar secret)).foldl (Ladder.step x) ⟨1, 0, x, 1⟩
  Octets.fit 32 (Bytes.ofNatLE 32 (l.x₂ * pow l.z₂ (modulus - 2) % modulus))

def base : Octets 32 := Octets.fit 32 [9]

def publicKey (secret : Octets 32) : Octets 32 := multiply secret base

end AirLink.Cipher.Curve25519
