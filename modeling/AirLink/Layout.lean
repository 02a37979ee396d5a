import AirLink.Bytes

/-! # Fixed layouts

A `Layout` says how the values of a type lie in a fixed number of bytes.  The wire records of the
link (headers, announcements, envelopes) are built from the word layouts below by placing one after
another and naming the parts.  A reader looks only at the first `size` bytes, so whatever follows a
record is left for the next stage.
-/

namespace AirLink

/-- How values of `α` are written in exactly `size` bytes and read from the front of a string. -/
structure Layout (α : Type) where
  size : Nat
  write : α → Bytes
  read : Bytes → α

namespace Layout

def u8 : Layout UInt8 where
  size := 1
  write b := [b]
  read bs := bs.headD 0

/-- A 16-bit word, most significant byte first. -/
def u16 : Layout UInt16 where
  size := 2
  write v := Bytes.ofNatBE 2 v.toNat
  read bs := UInt16.ofNat (Bytes.toNatBE (bs.take 2))

/-- A 16-bit word, least significant byte first. -/
def u16le : Layout UInt16 where
  size := 2
  write v := Bytes.ofNatLE 2 v.toNat
  read bs := UInt16.ofNat (Bytes.toNatLE (bs.take 2))

def u32 : Layout UInt32 where
  size := 4
  write v := Bytes.ofNatBE 4 v.toNat
  read bs := UInt32.ofNat (Bytes.toNatBE (bs.take 4))

def u64 : Layout UInt64 where
  size := 8
  write v := Bytes.ofNatBE 8 v.toNat
  read bs := UInt64.ofNat (Bytes.toNatBE (bs.take 8))

def octets (n : Nat) : Layout (Octets n) where
  size := n
  write o := o.val
  read bs := Octets.fit n bs

/-- One record after another. -/
def both {α β : Type} (first : Layout α) (second : Layout β) : Layout (α × β) where
  size := first.size + second.size
  write p := first.write p.1 ++ second.write p.2
  read bs := (first.read bs, second.read (bs.drop first.size))

/-- The same bytes under another type. -/
def through {α β : Type} (layout : Layout α) (make : α → β) (parts : β → α) : Layout β where
  size := layout.size
  write b := layout.write (parts b)
  read bs := make (layout.read bs)

def i16 : Layout Int16 := u16.through UInt16.toInt16 Int16.toUInt16

/-- The record at the front of a string and what follows it, or nothing if the string is too
short. -/
def read? {α : Type} (layout : Layout α) (bs : Bytes) : Option (α × Bytes) :=
  if bs.length < layout.size then none else some (layout.read bs, bs.drop layout.size)

theorem read?_eq {α : Type} {layout : Layout α} {s : Bytes} (long : layout.size ≤ s.length) :
    layout.read? s = some (layout.read s, s.drop layout.size) :=
  if_neg (Nat.not_lt.mpr long)

theorem read?_eq_none {α : Type} {layout : Layout α} {s : Bytes} (short : s.length < layout.size) :
    layout.read? s = none :=
  if_pos short

end Layout

end AirLink
