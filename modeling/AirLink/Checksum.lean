import AirLink.Bytes
import AirLink.Fault

/-! # Frame check sequence

The last four bytes of a captured frame are the CRC-32 of everything before them, least significant
byte first.  The checksum is the remainder of polynomial division over the field with two elements,
with the bits of each byte taken from the least significant up.
-/

namespace AirLink.Checksum

/-- The generator polynomial, its coefficient of the highest power in the lowest bit. -/
def generator : UInt32 := 0xEDB88320

def step (remainder : UInt32) : UInt32 :=
  if remainder &&& 1 = 1 then (remainder >>> 1) ^^^ generator else remainder >>> 1

def steps : Nat → UInt32 → UInt32
  | 0, remainder => remainder
  | n + 1, remainder => steps n (step remainder)

def feed (remainder : UInt32) (byte : UInt8) : UInt32 :=
  steps 8 (remainder ^^^ byte.toUInt32)

/-- The CRC-32 of a string: the remainder starts with all bits set and is inverted at the end. -/
def crc32 (bs : Bytes) : UInt32 :=
  bs.foldl feed 0xFFFFFFFF ^^^ 0xFFFFFFFF

def size : Nat := 4

def trailer (frame : Bytes) : Bytes := Bytes.ofNatLE size (crc32 frame).toNat

def append (frame : Bytes) : Bytes := frame ++ trailer frame

/-- Takes the check sequence off.  The flag says whether it belongs to the frame; a caller that does
not ask for verification is told that it does. -/
def strip (frame : Bytes) (verify : Bool) : Except Fault (Bytes × Bool) :=
  if frame.length < size then .error (.truncated .checksum size frame.length)
  else
    let body := frame.take (frame.length - size)
    let sequence := frame.drop (frame.length - size)
    .ok (body, !verify || (crc32 body).toNat == Bytes.toNatLE sequence)

end AirLink.Checksum
