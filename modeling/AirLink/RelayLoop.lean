import AirLink.Receiver

/-! # The relay loop

A receiver on the wire waits for datagrams and handles them one after another.  Each is received
into a buffer of fixed size, so what is beyond it is cut off.  A datagram that is refused is merely
counted.  The loop ends when it is told to; nothing that comes after that is received.
-/

namespace AirLink

/-- What the loop can be woken by. -/
inductive LoopEvent where
  | datagram (now : Moment) (bs : Bytes)
  | report
  | shutdown
  deriving DecidableEq, Repr

namespace Receiver

/-- The size of the buffer that datagrams are received into. -/
def datagramBuffer : Nat := Limits.frameSize + Relay.Header.layout.size

/-- Handles what is left of a datagram in the buffer. -/
def takeDatagram (r : Receiver) (now : Moment) (bs : Bytes) : Reception × Receiver :=
  r.relay now (bs.take datagramBuffer)

/-- Runs the loop.  Also gives what each datagram brought about, in order. -/
def run (r : Receiver) : List LoopEvent → List Reception × Receiver
  | [] => ([], r)
  | .shutdown :: _ => ([], r)
  | .report :: events => r.run events
  | .datagram now bs :: events =>
    let (reception, r) := r.takeDatagram now bs
    let (receptions, r) := r.run events
    (reception :: receptions, r)

end Receiver

end AirLink
