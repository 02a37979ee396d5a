import AirLink.Checksum
import AirLink.Cipher.Aead
import AirLink.Cipher.SealedBox
import AirLink.Dot11
import AirLink.Erasure.Code
import AirLink.Keys
import AirLink.Packet
import AirLink.Radiotap

/-! # The transmitter

The sending end of a link announces its session and cuts a stream of payloads into blocks.  A block
has `k` data fragments, the last of which may be mere fillers, and `n - k` parity fragments; each
becomes one sealed packet.  No two packets of a session share a nonce as long as no block index is
used twice.
-/

namespace AirLink

structure Transmitter where
  boxKey : Key
  epoch : UInt64
  channel : UInt32
  key : Key
  code : ErasureCode
  /-- The index of the next block. -/
  nextBlock : Nat := 0

namespace Transmitter

def create (keys : LinkKeys) (epoch : UInt64) (channel : UInt32) (k n : UInt8) (key : Key) :
    Except Fault Transmitter := do
  let code ← ErasureCode.create k.toNat n.toNat
  return { boxKey := keys.boxKey, epoch, channel, key, code }

def offer (t : Transmitter) : SessionOffer :=
  { epoch := t.epoch, channel := t.channel, scheme := CodeScheme.vandermonde.code
    k := UInt8.ofNat t.code.k, n := UInt8.ofNat t.code.n, key := t.key }

/-- A session packet with the given content, sealed with the given key. -/
def sealSession (boxKey : Key) (nonce : Octets 24) (plain : Bytes) : Bytes :=
  (Packet.Header.session nonce).encode ++ Cipher.SealedBox.encrypt boxKey nonce plain

def sessionPacket (t : Transmitter) (nonce : Octets 24) (offer : SessionOffer) : Bytes :=
  sealSession t.boxKey nonce offer.encode

def sealFragment (key : Key) (block fragment : Nat) (plain : Bytes) : Bytes :=
  let clear := (Packet.Header.ofFragment block fragment).encode
  clear ++ Cipher.Aead.encrypt key (UInt64.ofNat (block * 256 + fragment)) clear plain

/-- A data fragment: a payload behind its header, or a filler where there is no payload. -/
def fragmentOf : Option Bytes → Bytes
  | some payload => FragmentHeader.encode ⟨0, UInt16.ofNat payload.length⟩ ++ payload
  | none => FragmentHeader.encode ⟨FragmentHeader.fillerFlag, 0⟩

def longest (shares : List Bytes) : Nat := (shares.map List.length).foldl max 0

def dataShares (t : Transmitter) (payloads : List Bytes) : List Bytes :=
  (List.range t.code.k).map fun i => fragmentOf payloads[i]?

/-- The packets of a block with at most `k` payloads. -/
def encodeBlock (t : Transmitter) (block : Nat) (payloads : List Bytes) :
    Except Fault (List Bytes) := do
  if Limits.blockIndex < block then throw (.blockIndexOverflow block)
  if t.code.k < payloads.length then throw (.oversized t.code.k payloads.length)
  if let some payload := payloads.find? (Limits.payload < ·.length) then
    throw (.oversized Limits.payload payload.length)
  let data := t.dataShares payloads
  let size := longest data
  let parity ← t.code.encode data (List.replicate (t.code.n - t.code.k) (Bytes.zeros size)) size
  return (data ++ parity).zipIdx.map fun (share, i) => sealFragment t.key block i share

/-- The packets of the next block.  A block that cannot be encoded takes no index. -/
def encodeNext (t : Transmitter) (payloads : List Bytes) :
    Except Fault (List Bytes × Transmitter) := do
  let packets ← t.encodeBlock t.nextBlock payloads
  return (packets, { t with nextBlock := t.nextBlock + 1 })

end Transmitter

/-- A packet as it is captured from the air: behind a radiotap header and an 802.11 header, with a
check sequence if asked for. -/
def captureFrame (channel : UInt32) (sequence frequency : UInt16) (signal : Int8) (packet : Bytes)
    (checksum : Bool) : Bytes :=
  let frame := (Dot11.Header.forChannel channel sequence).encode ++ packet
  Radiotap.encode frequency signal checksum
    ++ (if checksum then Checksum.append frame else frame)

end AirLink
