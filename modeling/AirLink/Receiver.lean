import AirLink.Checksum
import AirLink.Counters
import AirLink.Dot11
import AirLink.Radiotap
import AirLink.Relay
import AirLink.Session

/-! # The receiver

A receiver takes buffers from two sources.  A captured buffer is read through its radiotap header,
its check sequence and its 802.11 header down to the packet; a relayed datagram has only a relay
header in front of the packet.  Session packets go to the session, data packets to its assembly.

Three kinds of consumers can be attached.  Decoders get the payloads, relays get what was captured,
and observers get the news of each session.  A relay hears of every captured frame that was damaged
or carried a readable packet, except those that fail authentication; what came over the wire is
never relayed again.
-/

namespace AirLink

/-- What became of a buffer that was not refused. -/
inductive RxOutcome where
  | session (outcome : SessionOutcome)
  | data (outcome : DataOutcome)
  /-- The frame arrived damaged. -/
  | corrupt
  /-- The frame belongs to another channel. -/
  | otherChannel
  deriving DecidableEq, Repr

inductive Consumer where
  | decoder
  | relay
  | observer
  deriving DecidableEq, Repr

/-- A call of one consumer; those of a kind are numbered in the order of their attachment. -/
inductive Call where
  | decode (consumer : Nat) (payload : Bytes)
  | relay (consumer : Nat) (info : FrameInfo) (packet : Bytes)
  | observe (consumer : Nat) (info : SessionInfo)
  deriving DecidableEq, Repr

/-- Everything that handling one buffer brings about, besides the new state. -/
structure Reception where
  outcome : Except Fault RxOutcome
  /-- The calls of consumers, in order. -/
  calls : List Call := []
  gaps : List Gap := []

structure Receiver where
  settings : Settings
  session : Session
  counters : Counters := {}
  /-- Whether the erasure code is used. -/
  recovery : Bool
  decoders : Nat := 0
  relays : Nat := 0
  observers : Nat := 0

namespace Receiver

/-- The number of observers that can be attached. -/
def maxObservers : Nat := 4

def create (settings : Settings) (keys : LinkKeys) : Except Fault Receiver := do
  settings.validate
  return { settings, session := Session.create settings keys, recovery := settings.recovery }

/-- Attaches a consumer, as long as there are not too many of its kind. -/
def attach (r : Receiver) : Consumer → Except Fault Receiver
  | .decoder =>
    if r.settings.maxDecoders ≤ r.decoders then .error (.handlerLimit r.settings.maxDecoders)
    else .ok { r with decoders := r.decoders + 1 }
  | .relay =>
    if r.settings.maxRelays ≤ r.relays then .error (.handlerLimit r.settings.maxRelays)
    else .ok { r with relays := r.relays + 1 }
  | .observer =>
    if maxObservers ≤ r.observers then .error (.handlerLimit maxObservers)
    else .ok { r with observers := r.observers + 1 }

def setRecovery (r : Receiver) (on : Bool) : Receiver := { r with recovery := on }

def count (r : Receiver) (f : Counters → Counters) : Receiver :=
  { r with counters := f r.counters }

def decodeCalls (r : Receiver) (payload : Bytes) : List Call :=
  (List.range r.decoders).map fun i => .decode i payload

def observeCalls (r : Receiver) (info : SessionInfo) : List Call :=
  (List.range r.observers).map fun i => .observe i info

def relayCalls (r : Receiver) (info : FrameInfo) (packet : Bytes) : List Call :=
  (List.range r.relays).map fun i => .relay i info packet

/-- Hands a captured frame to the relays, and counts it if there are any. -/
def passOn (r : Receiver) (info : FrameInfo) (packet : Bytes) : List Call × Receiver :=
  (r.relayCalls info packet,
    if r.relays = 0 then r else r.count fun c => { c with passedOn := c.passedOn + 1 })

def announce (r : Receiver) (now : Moment) (nonce : Octets 24) (cipher : Bytes)
    (carrier : Option UInt32) : Reception × Receiver :=
  let (outcome, session) := r.session.announce now nonce cipher carrier
  let r := { r with session }
  match outcome with
  | .error fault =>
    ({ outcome := .error fault },
      r.count fun c => { c with sessionRejects := c.sessionRejects + 1 })
  | .ok .unchanged => ({ outcome := .ok (.session .unchanged) }, r)
  | .ok (.established info) =>
    ({ outcome := .ok (.session (.established info)), calls := r.observeCalls info },
      r.count fun c => { c with sessions := c.sessions + 1 })

def receive (r : Receiver) (now : Moment) (x : Arrival) : Reception × Receiver :=
  let (report, session) := r.session.receive now x r.recovery
  ({ outcome := report.outcome.map .data
     calls := report.deliveries.flatMap fun d => r.decodeCalls d.payload
     gaps := report.gaps },
    { r with session, counters := r.counters.absorbSession report })

def handle (r : Receiver) (now : Moment) (packet : Packet) (carrier : Option UInt32) :
    Reception × Receiver :=
  match packet.header with
  | .session nonce => r.announce now nonce packet.cipher carrier
  | .data nonce block fragment =>
    r.receive now { nonce, block, fragment, clear := packet.clear, cipher := packet.cipher }

def isForged : Except Fault RxOutcome → Bool
  | .error fault => fault.kind = .crypto
  | .ok _ => false

/-- Refuses a buffer and counts it. -/
def refuse (r : Receiver) (fault : Fault) (f : Counters → Counters) : Reception × Receiver :=
  ({ outcome := .error fault }, r.count f)

/-- Handles the packet of a captured frame and passes the frame on, unless it is forged. -/
def handleCaptured (r : Receiver) (now : Moment) (info : FrameInfo) (bs : Bytes)
    (packet : Packet) (carrier : UInt32) : Reception × Receiver :=
  let r := r.count fun c => { c with captured := c.captured + 1 }
  let (reception, r) := r.handle now packet (some carrier)
  if isForged reception.outcome then (reception, r)
  else
    let (calls, r) := r.passOn info bs
    ({ reception with calls := reception.calls ++ calls }, r)

/-- Handles the frame of a captured buffer that arrived undamaged. -/
def captureFrame (r : Receiver) (now : Moment) (info : FrameInfo) (frame : Bytes) :
    Reception × Receiver :=
  let frameFault (c : Counters) := { c with frameFaults := c.frameFaults + 1 }
  match Dot11.parse frame with
  | .error fault => r.refuse fault frameFault
  | .ok (header, bs) =>
    if r.settings.channel.any (· ≠ header.channel) then
      ({ outcome := .ok .otherChannel },
        r.count fun c => { c with otherChannels := c.otherChannels + 1 })
    else
      match Packet.parse bs with
      | .error fault => r.refuse fault frameFault
      | .ok packet => r.handleCaptured now info bs packet header.channel

def capture (r : Receiver) (now : Moment) (bs : Bytes) : Reception × Receiver :=
  match Radiotap.parse bs with
  | .error fault => r.refuse fault fun c => { c with radiotapFaults := c.radiotapFaults + 1 }
  | .ok (header, rest) =>
    let stripped :=
      if header.hasChecksum then Checksum.strip rest r.settings.verifyChecksum
      else .ok (rest, true)
    match stripped with
    | .error fault => r.refuse fault fun c => { c with frameFaults := c.frameFaults + 1 }
    | .ok (frame, intact) =>
      let info : FrameInfo := ⟨header.frequency, header.strength, header.badChecksum || !intact⟩
      if info.corrupt then
        let r := r.count fun c => { c with badChecksums := c.badChecksums + 1 }
        let (calls, r) := r.passOn info []
        ({ outcome := .ok .corrupt, calls }, r)
      else r.captureFrame now info frame

def relay (r : Receiver) (now : Moment) (bs : Bytes) : Reception × Receiver :=
  match Relay.Header.parse bs with
  | .error fault =>
    r.refuse fault fun c => { c with relayHeaderFaults := c.relayHeaderFaults + 1 }
  | .ok (header, rest) =>
    if header.isCorrupt then
      ({ outcome := .ok .corrupt },
        r.count fun c => { c with relayCorrupt := c.relayCorrupt + 1 })
    else
      match Packet.parse rest with
      | .error fault =>
        r.refuse fault fun c => { c with relayPacketFaults := c.relayPacketFaults + 1 }
      | .ok packet =>
        (r.count fun c => { c with relayed := c.relayed + 1 }).handle now packet none

def take (r : Receiver) (now : Moment) : Source → Bytes → Reception × Receiver
  | .capture, bs => r.capture now bs
  | .relay, bs => r.relay now bs

end Receiver

end AirLink
