/-! # The field with 256 elements

Field elements are bytes read as polynomials over two elements, of degree below eight.  Addition is
exclusive or; multiplication is modulo x⁸ + x⁴ + x³ + x² + 1, of which x is a primitive root.  So
every element but zero is a power of x, and a product is found by adding exponents.
-/

namespace AirLink

structure GF256 where
  byte : UInt8
  deriving DecidableEq, Repr

namespace GF256

/-- Multiplies a polynomial by x and reduces it. -/
def double (a : UInt8) : UInt8 :=
  if a < 128 then a <<< 1 else (a <<< 1) ^^^ 0x1D

/-- The powers of x, found by repeated doubling. -/
def power : Nat → UInt8
  | 0 => 1
  | i + 1 => double (power i)

/-- The powers of x with exponents below 255, after which they repeat. -/
def powers : Vector UInt8 255 := Vector.ofFn fun i => power i

/-- The exponent that gives each byte as a power of x; the entry of zero means nothing. -/
def exponents : Vector Nat 256 := Vector.ofFn fun a => powers.toList.idxOf (UInt8.ofNat a)

def exp (i : Nat) : GF256 := ⟨powers.get ⟨i % 255, Nat.mod_lt _ (by decide)⟩⟩

/-- The exponent of an element other than zero. -/
def log (a : GF256) : Nat := exponents.get ⟨a.byte.toNat, a.byte.toNat_lt⟩

instance : Zero GF256 := ⟨⟨0⟩⟩

instance : One GF256 := ⟨⟨1⟩⟩

/-- The sum of two elements, which is also their difference. -/
def add (a b : GF256) : GF256 := ⟨a.byte ^^^ b.byte⟩

instance : Add GF256 := ⟨add⟩

def mul (a b : GF256) : GF256 := if a = 0 ∨ b = 0 then 0 else exp (a.log + b.log)

instance : Mul GF256 := ⟨mul⟩

/-- The inverse of an element other than zero. -/
def inv (a : GF256) : GF256 := if a = 0 then 0 else exp (255 - a.log)

instance : Inv GF256 := ⟨inv⟩

def pow (a : GF256) (i : Nat) : GF256 :=
  if i = 0 then 1 else if a = 0 then 0 else exp (a.log * i)

end GF256

end AirLink
