import AirLink.Layout
import AirLink.Fault

/-! # Packets

The packets of the link come in two kinds.  A data packet carries one sealed fragment of a block
and names it in its nonce: 55 bits for the block, eight for the fragment.  A session packet carries
a sealed announcement of the key and the code that data packets use.  The first byte tells them
apart.
-/

namespace AirLink

inductive PacketType where
  | data
  | session
  deriving DecidableEq, Repr

namespace PacketType

def tag : PacketType → UInt8
  | data => 1
  | session => 2

def ofTag (tag : UInt8) : Except Fault PacketType :=
  if tag = 1 then .ok .data
  else if tag = 2 then .ok .session
  else .error (.unknownPacketType tag)

end PacketType

namespace Packet

/-- The part of a packet that is sent in the clear. -/
inductive Header where
  | data (nonce : UInt64) (block fragment : Nat)
  | session (nonce : Octets 24)
  deriving DecidableEq

namespace Header

/-- The header of a fragment; its nonce holds the block above the eight bits of the fragment. -/
def ofFragment (block fragment : Nat) : Header :=
  .data (UInt64.ofNat (block * 256 + fragment)) block fragment

def type : Header → PacketType
  | data .. => .data
  | session _ => .session

def size : Header → Nat
  | data .. => Limits.dataHeader
  | session _ => Limits.sessionHeader

def encode : Header → Bytes
  | data nonce _ _ => PacketType.data.tag :: Layout.u64.write nonce
  | session nonce => PacketType.session.tag :: nonce.val

/-- Reads a header; what follows is the ciphertext. -/
def parse (bs : Bytes) : Except Fault (Header × Bytes) := do
  if Limits.packet < bs.length then throw (.oversized Limits.packet bs.length)
  match bs with
  | [] => throw (.truncated .packet 1 0)
  | tag :: rest =>
    match ← PacketType.ofTag tag with
    | .data =>
      match Layout.u64.read? rest with
      | none => throw (.truncated .dataPacket Limits.dataHeader bs.length)
      | some (nonce, cipher) =>
        return (.data nonce (nonce.toNat / 256) (nonce.toNat % 256), cipher)
    | .session =>
      match (Layout.octets 24).read? rest with
      | none => throw (.truncated .sessionPacket Limits.sessionHeader bs.length)
      | some (nonce, cipher) => return (.session nonce, cipher)

end Header

end Packet

structure Packet where
  header : Packet.Header
  /-- The bytes of the header, which the authentication of the ciphertext covers. -/
  clear : Bytes
  cipher : Bytes
  deriving DecidableEq

/-- Takes a packet apart.  A block index of more than 55 bits is refused. -/
def Packet.parse (bs : Bytes) : Except Fault Packet := do
  let (header, cipher) ← Header.parse bs
  match header with
  | .data _ block _ => if Limits.blockIndex < block then throw (.blockIndexOverflow block)
  | .session _ => pure ()
  return { header, clear := bs.take header.size, cipher }

structure SessionOffer where
  epoch : UInt64
  channel : UInt32
  scheme : UInt8
  k : UInt8
  n : UInt8
  key : Octets 32
  deriving DecidableEq

namespace SessionOffer

def layout : Layout SessionOffer :=
  (Layout.u64.both <| Layout.u32.both <| Layout.u8.both <| Layout.u8.both <| Layout.u8.both
    (Layout.octets 32)).through
    (fun (epoch, channel, scheme, k, n, key) => ⟨epoch, channel, scheme, k, n, key⟩)
    (fun o => (o.epoch, o.channel, o.scheme, o.k, o.n, o.key))

def encode (offer : SessionOffer) : Bytes := layout.write offer

/-- Reads an announcement; bytes behind it are ignored. -/
def decode (bs : Bytes) : Except Fault SessionOffer :=
  match layout.read? bs with
  | none => .error (.truncated .sessionOffer layout.size bs.length)
  | some (offer, _) => .ok offer

end SessionOffer

/-- The three bytes in front of each fragment's payload. -/
structure FragmentHeader where
  flags : UInt8
  size : UInt16
  deriving DecidableEq, Repr

namespace FragmentHeader

/-- The flag of a fragment that only fills its place in the block and is never delivered. -/
def fillerFlag : UInt8 := 1

def layout : Layout FragmentHeader :=
  (Layout.u8.both Layout.u16).through (fun (flags, size) => ⟨flags, size⟩)
    (fun h => (h.flags, h.size))

def isFiller (h : FragmentHeader) : Bool := h.flags &&& fillerFlag != 0

def encode (h : FragmentHeader) : Bytes := layout.write h

def decode (bs : Bytes) : Except Fault FragmentHeader :=
  match layout.read? bs with
  | none => .error (.truncated .fragment layout.size bs.length)
  | some (header, _) => .ok header

end FragmentHeader

end AirLink
