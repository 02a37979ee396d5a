import AirLink.Bytes

/-! # Keystreams

Both stream ciphers of the link mix sixteen 32-bit words by additions, rotations and exclusive ors,
and write the result out as 64 bytes.  A message is encrypted and decrypted alike, by exclusive or
with the blocks of such bytes in a row.
-/

namespace AirLink.Cipher

/-- The words that a stream cipher mixes. -/
abbrev State := Vector UInt32 16

def rotate (word amount : UInt32) : UInt32 := (word <<< amount) ||| (word >>> (32 - amount))

/-- The 32-bit words of a string, least significant byte first. -/
def words (bs : Bytes) : List UInt32 :=
  (Bytes.chunks 4 bs).map fun piece => UInt32.ofNat (Bytes.toNatLE piece)

namespace State

def word (s : State) (i : Nat) : UInt32 := s[i]?.getD 0

def put (s : State) (i : Nat) (w : UInt32) : State := s.setIfInBounds i w

def ofWords (ws : List UInt32) : State := Vector.ofFn fun i => ws.getD i 0

def add (a b : State) : State := Vector.zipWith (· + ·) a b

def toBytes (s : State) : Bytes := s.toList.flatMap fun word => Bytes.ofNatLE 4 word.toNat

end State

/-- The words `expand 32-byte k`, which fill the places of a state that hold neither key nor
nonce. -/
def constants : List UInt32 := [0x61707865, 0x3320646e, 0x79622d32, 0x6b206574]

/-- The first `n` bytes of a sequence of 64-byte blocks. -/
def keystream (block : Nat → Bytes) (n : Nat) : Bytes :=
  ((List.range ((n + 63) / 64)).flatMap block).take n

def apply (block : Nat → Bytes) (message : Bytes) : Bytes :=
  Bytes.xor message (keystream block message.length)

end AirLink.Cipher
