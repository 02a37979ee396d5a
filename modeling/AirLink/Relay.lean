import AirLink.Layout
import AirLink.Fault

/-! # Relayed frames

A receiver can pass what it captured on to others over a wired network.  Each datagram is an
eight-byte relay header with the frequency and the signal strength, followed by the packet that was
found behind the 802.11 header.  A frame that arrived damaged is announced by a flag and carries
nothing.
-/

namespace AirLink

/-- What is known about a captured frame besides its bytes. -/
structure FrameInfo where
  frequency : UInt16
  signal : Int16
  corrupt : Bool
  deriving DecidableEq, Repr

/-- Where a frame comes from: captured from the air, or received over the wire. -/
inductive Source where
  | capture
  | relay
  deriving DecidableEq, Repr

namespace Relay

/-- The flag of a damaged frame. -/
def corruptFlag : UInt32 := 1

structure Header where
  flags : UInt32
  frequency : UInt16
  signal : Int16
  deriving DecidableEq, Repr

namespace Header

def layout : Layout Header :=
  (Layout.u32.both (Layout.u16.both Layout.i16)).through
    (fun (flags, frequency, signal) => ⟨flags, frequency, signal⟩)
    (fun h => (h.flags, h.frequency, h.signal))

def ofInfo (info : FrameInfo) : Header :=
  ⟨if info.corrupt then corruptFlag else 0, info.frequency, info.signal⟩

def isCorrupt (h : Header) : Bool := h.flags &&& corruptFlag != 0

def info (h : Header) : FrameInfo := ⟨h.frequency, h.signal, h.isCorrupt⟩

def encode (h : Header) : Bytes := layout.write h

/-- A signal strength that no eight-bit field can hold counts as unknown. -/
def normalize (h : Header) : Header :=
  if -128 ≤ h.signal.toInt ∧ h.signal.toInt ≤ 127 then h
  else { h with signal := Limits.unknownSignal }

/-- Reads the header of a datagram; what follows is the packet. -/
def parse (bs : Bytes) : Except Fault (Header × Bytes) :=
  match layout.read? bs with
  | none => .error (.truncated .relay layout.size bs.length)
  | some (header, rest) => .ok (header.normalize, rest)

end Header

/-- The datagram that passes a captured frame on. -/
def datagram (info : FrameInfo) (packet : Bytes) : Bytes :=
  (Header.ofInfo info).encode ++ if info.corrupt then [] else packet

/-- What is sent over the wire for a captured frame: nothing, if the datagram would be too large. -/
def send (info : FrameInfo) (packet : Bytes) : Option Bytes :=
  if (datagram info packet).length ≤ Limits.datagram then some (datagram info packet) else none

end Relay

/-- The wrapping of a received buffer. -/
inductive Envelope where
  | capture
  | relay (header : Relay.Header)
  deriving DecidableEq, Repr

/-- Takes the wrapping off.  A captured buffer has none. -/
def Envelope.parse : Source → Bytes → Except Fault (Envelope × Bytes)
  | .capture, bs => .ok (.capture, bs)
  | .relay, bs => (Relay.Header.parse bs).map fun (header, rest) => (.relay header, rest)

end AirLink
