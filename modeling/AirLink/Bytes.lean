/-! # Byte strings

Frames, keys and payloads are lists of bytes.  This module fixes how unsigned integers are laid out
in them and what it means to cut or pad a string to a width.  Big-endian is little-endian read
backwards, so every fact about one order gives the fact about the other.
-/

namespace AirLink

abbrev Bytes := List UInt8

/-- A byte string of a fixed length: a key, a nonce, a hardware address. -/
abbrev Octets (n : Nat) := { bytes : Bytes // bytes.length = n }

namespace Bytes

def zeros (n : Nat) : Bytes := List.replicate n 0

/-- The first `n` bytes, filled up with zeros where the string is shorter. -/
def fit (n : Nat) (bs : Bytes) : Bytes := bs.take n ++ zeros (n - bs.length)

theorem length_fit (n : Nat) (bs : Bytes) : (fit n bs).length = n := by
  simp [fit, zeros, List.length_take]
  omega

theorem fit_eq_take {n : Nat} {bs : Bytes} (h : n ≤ bs.length) : fit n bs = bs.take n := by
  simp [fit, zeros, Nat.sub_eq_zero_of_le h]

/-- The number written by a string whose first byte weighs least. -/
def toNatLE : Bytes → Nat
  | [] => 0
  | b :: bs => b.toNat + 256 * toNatLE bs

/-- The `n` low bytes of a number, the least significant first. -/
def ofNatLE : Nat → Nat → Bytes
  | 0, _ => []
  | n + 1, v => UInt8.ofNat v :: ofNatLE n (v / 256)

def toNatBE (bs : Bytes) : Nat := toNatLE bs.reverse

def ofNatBE (n v : Nat) : Bytes := (ofNatLE n v).reverse

theorem length_ofNatLE (n v : Nat) : (ofNatLE n v).length = n := by
  induction n generalizing v with
  | zero => rfl
  | succ n ih => simp [ofNatLE, ih]

theorem length_ofNatBE (n v : Nat) : (ofNatBE n v).length = n := by
  simp [ofNatBE, length_ofNatLE]

/-- Byte by byte exclusive or; the result is as long as the shorter string. -/
def xor (a b : Bytes) : Bytes := List.zipWith (· ^^^ ·) a b

/-- Writes `bs` over the beginning of `buffer`, whose tail stays as it was. -/
def overlay (bs buffer : Bytes) : Bytes := bs ++ buffer.drop bs.length

/-- The first pieces of `n` bytes, so many of them, the last of which may be shorter. -/
def pieces (n : Nat) : Nat → Bytes → List Bytes
  | 0, _ => []
  | count + 1, bs => bs.take n :: pieces n count (bs.drop n)

/-- The string in pieces of `n` bytes, the last of which may be shorter. -/
def chunks (n : Nat) (bs : Bytes) : List Bytes := pieces n ((bs.length + n - 1) / n) bs

end Bytes

namespace Octets

def fit (n : Nat) (bs : Bytes) : Octets n := ⟨Bytes.fit n bs, Bytes.length_fit n bs⟩

def ofBytes? (n : Nat) (bs : Bytes) : Option (Octets n) :=
  if h : bs.length = n then some ⟨bs, h⟩ else none

end Octets

end AirLink
