import AirLink.Assembly
import AirLink.Text.Decimal

/-! # Counters

A receiver counts what happens to every buffer it is given and to every fragment it passes on.  The
counters sum up to a line of statistics.
-/

namespace AirLink

structure Counters where
  /-- Captured buffers without a readable radiotap header. -/
  radiotapFaults : Nat := 0
  /-- Captured frames that arrived damaged. -/
  badChecksums : Nat := 0
  /-- Captured frames of another channel. -/
  otherChannels : Nat := 0
  /-- Captured frames without a readable header or packet. -/
  frameFaults : Nat := 0
  captured : Nat := 0
  /-- Relayed datagrams without a readable header. -/
  relayHeaderFaults : Nat := 0
  /-- Relayed datagrams that announce a damaged frame. -/
  relayCorrupt : Nat := 0
  /-- Relayed datagrams without a readable packet. -/
  relayPacketFaults : Nat := 0
  relayed : Nat := 0
  /-- Captured frames passed on to relays. -/
  passedOn : Nat := 0
  /-- Payloads delivered, and their bytes. -/
  delivered : Nat := 0
  deliveredBytes : Nat := 0
  sessions : Nat := 0
  sessionRejects : Nat := 0
  /-- Data packets that were not authentic. -/
  authFailures : Nat := 0
  duplicates : Nat := 0
  /-- Fragments of blocks that the window had moved past. -/
  outOfWindow : Nat := 0
  /-- Uses of the erasure code, and the fragments it rebuilt. -/
  recoveries : Nat := 0
  rebuilt : Nat := 0
  lost : Nat := 0
  deriving DecidableEq, Repr

namespace Counters

def absorb (c : Counters) (r : Report) : Counters :=
  let deliveries := r.deliveries
  { c with
    delivered := c.delivered + deliveries.length
    deliveredBytes := c.deliveredBytes + (deliveries.flatMap (·.payload)).length
    lost := c.lost + (r.emissions.filter Emission.isLost).length
    recoveries := c.recoveries + (if r.rebuilt.isSome then 1 else 0)
    rebuilt := c.rebuilt + r.rebuilt.getD 0
    duplicates := c.duplicates + (if r.outcome matches .ok .duplicate then 1 else 0)
    outOfWindow := c.outOfWindow + (if r.outcome matches .ok .outOfWindow then 1 else 0) }

/-- Adds up what the handling of a data packet within a session brought about: a packet that is not
authentic counts as well. -/
def absorbSession (c : Counters) (r : Report) : Counters :=
  let c := c.absorb r
  let failed := r.outcome matches .error (.cipher _)
  { c with authFailures := c.authFailures + (if failed then 1 else 0) }

/-- A counter, or a sum of counters, as it is reported: a number of 64 bits. -/
def reported (n : Nat) : UInt64 := UInt64.ofNat n

def lossRate (c : Counters) : Float :=
  let total := reported (c.delivered + c.lost)
  if total = 0 then 0 else (reported c.lost).toFloat / total.toFloat

def throughput (c : Counters) (elapsed : Float) : Float :=
  if elapsed == 0 then 0 else (reported c.deliveredBytes).toFloat / elapsed

/-- The statistics line.  The time and the speed are left out if the time is not given. -/
def summary (c : Counters) (elapsed : Option Float) : String :=
  let time := match elapsed with
    | some seconds => "Elapsed: " ++ Decimal.render 2 seconds ++ "s | "
    | none => ""
  let speed := match elapsed with
    | some seconds => " (" ++ Decimal.render 2 (c.throughput seconds / 1000000) ++ " MB/s)"
    | none => ""
  time ++ "Accepted: " ++ toString c.captured ++ "+" ++ toString c.relayed
    ++ " | Decoded: " ++ toString c.delivered ++ speed
    ++ " | FEC: " ++ toString c.recoveries ++ "/" ++ toString c.rebuilt
    ++ " | Lost: " ++ toString c.lost ++ " (" ++ Decimal.render 2 (c.lossRate * 100) ++ "%)"
    ++ " | Errors: rt=" ++ toString c.radiotapFaults ++ " fcs=" ++ toString c.badChecksums
    ++ " ch=" ++ toString c.otherChannels ++ " wfb=" ++ toString c.frameFaults
    ++ " mirror=" ++ toString (reported (c.relayHeaderFaults + c.relayPacketFaults))
    ++ " auth=" ++ toString c.authFailures ++ " | Sessions: " ++ toString c.sessions

end Counters

end AirLink
