/-! # Limits of the link

The sizes and marks that every stage of the link agrees on.  All of them follow from the largest
frame the radio accepts and from the widths of the headers and tags that are added on the way.
-/

namespace AirLink.Limits

/-- The mark in the source address of every frame of the link. -/
def signature : UInt16 := 0x5742

/-- The largest 802.11 payload that is handled. -/
def frameSize : Nat := 4045

/-- A three-address 802.11 data header. -/
def dot11Header : Nat := 24

/-- A packet type and the 64-bit nonce of a data packet. -/
def dataHeader : Nat := 9

/-- A packet type and the nonce of a sealed box. -/
def sessionHeader : Nat := 25

/-- The flags and the size in front of a fragment. -/
def fragmentHeader : Nat := 3

/-- An authentication tag, of a data packet and of a sealed box alike. -/
def tag : Nat := 16

def key : Nat := 32

/-- The plaintext of a session announcement. -/
def sessionOffer : Nat := 47

/-- The shortest ciphertext of a data packet: a lone fragment header and its tag. -/
def dataCipher : Nat := fragmentHeader + tag

/-- The shortest ciphertext of a session packet. -/
def sessionCipher : Nat := sessionOffer + tag

def packet : Nat := frameSize - dot11Header

def fragment : Nat := packet - dataHeader - tag

def payload : Nat := fragment - fragmentHeader

/-- Block indices have 55 bits. -/
def blockIndex : Nat := 0x7fffffffffffff

/-- Data fragments and parity fragments of one block together. -/
def shares : Nat := 255

/-- Blocks that a receiver keeps open unless told otherwise. -/
def windowSize : Nat := 40

/-- The number of bytes that one buffer can have: the address space of the machine. -/
def memory : Nat := 0x800000000000

/-- The largest datagram that can be sent over the wire. -/
def datagram : Nat := 65507

/-- Signal strength that is not known. -/
def unknownSignal : Int16 := -32768

end AirLink.Limits
