import AirLink.Layout
import AirLink.Fault

/-! # 802.11 data headers

Frames of the link travel as plain data frames with three addresses.  The source address holds the
signature of the link and the channel identifier, most significant byte first, while the words of
the header itself are little-endian.
-/

namespace AirLink.Dot11

structure Header where
  control : UInt16
  duration : UInt16
  receiver : Octets 6
  source : Octets 6
  destination : Octets 6
  sequenceControl : UInt16
  deriving DecidableEq

def Header.layout : Layout Header :=
  (Layout.u16le.both <| Layout.u16le.both <| (Layout.octets 6).both <| (Layout.octets 6).both <|
    (Layout.octets 6).both Layout.u16le).through
    (fun (control, duration, receiver, source, destination, sequenceControl) =>
      ⟨control, duration, receiver, source, destination, sequenceControl⟩)
    (fun h => (h.control, h.duration, h.receiver, h.source, h.destination, h.sequenceControl))

namespace Header

/-- The mark at the front of the source address. -/
def signature (h : Header) : UInt16 := Layout.u16.read h.source.val

def channel (h : Header) : UInt32 := Layout.u32.read (h.source.val.drop 2)

/-- The upper 24 bits of the channel identifier. -/
def link (h : Header) : UInt32 := h.channel >>> 8

/-- The lowest byte of the channel identifier. -/
def stream (h : Header) : UInt8 := h.source.val.getD 5 0

/-- The sequence number of the frame, without the fragment number. -/
def sequence (h : Header) : UInt16 := h.sequenceControl >>> 4

/-- One of the three parts of the low byte of the control word. -/
def version (h : Header) : Nat := h.control.toNat % 4

@[inherit_doc version] def type (h : Header) : Nat := h.control.toNat / 4 % 4

@[inherit_doc version] def subtype (h : Header) : Nat := h.control.toNat / 16 % 16

/-- The header of a frame sent on a channel; a sequence number keeps its 12 low bits. -/
def forChannel (channel : UInt32) (sequence : UInt16) : Header :=
  let address := Octets.fit 6 (Layout.u16.write Limits.signature ++ Layout.u32.write channel)
  { control := 8, duration := 0, receiver := Octets.fit 6 (List.replicate 6 0xFF),
    source := address, destination := address, sequenceControl := sequence <<< 4 }

def encode (h : Header) : Bytes := layout.write h

end Header

def dataType : Nat := 2

/-- Reads the header of a plain data frame of the link; what follows is the packet.  The checks come
in the order in which a receiver can make them: the control word first, then the length, then the
signature. -/
def parse (bs : Bytes) : Except Fault (Header × Bytes) :=
  if bs.length < 2 then .error (.truncated .dot11 2 bs.length)
  else
    let header := Header.layout.read bs
    if header.version ≠ 0 then .error (.unsupportedVersion header.version)
    else if header.type ≠ dataType then .error (.notDataFrame header.type)
    else if header.subtype ≠ 0 then .error (.unsupportedSubtype header.subtype)
    else if bs.length < Limits.dot11Header then
      .error (.truncated .dot11 Limits.dot11Header bs.length)
    else if header.signature ≠ Limits.signature then
      .error (.invalidSignature Limits.signature header.signature)
    else .ok (header, bs.drop Limits.dot11Header)

end AirLink.Dot11
