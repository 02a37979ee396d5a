import AirLink.Assembly
import AirLink.Cipher.SealedBox
import AirLink.Settings

/-! # Sessions

A session packet announces a key and a code for the data packets that follow.  Announcements are
repeated all the time; the epoch tells a repetition from a new session, and a lower epoch is refused
unless the link has been silent for long enough.  From the moment a new announcement begins to be
checked the old key is gone, so a failure leaves no session rather than a stale one.

Time is a number, of milliseconds say, that the caller supplies.
-/

namespace AirLink

/-- A point in time, in milliseconds.  The unit does not matter: moments are only subtracted from one another,
and what is left is compared with a thousand times a setting.  If moments in any other unit are multiplied by
a thousand, the setting is a time in that unit. -/
abbrev Moment := Nat

structure SessionInfo where
  epoch : Nat
  channel : UInt32
  scheme : CodeScheme
  k : Nat
  n : Nat
  deriving DecidableEq, Repr

/-- What became of a session packet that was not refused. -/
inductive SessionOutcome where
  | established (info : SessionInfo)
  /-- The announcement of the present session, repeated. -/
  | unchanged
  deriving DecidableEq, Repr

/-- The state of the receiving end of a link. -/
structure Session where
  boxKey : Key
  channel : Option UInt32
  windowSize : Nat
  fragmentSize : Nat
  rollbackAfter : Option Nat
  /-- The epoch of the last session, zero before the first. -/
  epoch : Nat := 0
  lastInfo : Option SessionInfo := none
  /-- The key of the last session may be used. -/
  hasKey : Bool := false
  lastAssembly : Option Assembly := none
  /-- When a packet was last authenticated. -/
  lastAuthenticated : Option Moment := none

namespace Session

def create (settings : Settings) (keys : LinkKeys) : Session :=
  { boxKey := keys.boxKey, channel := settings.channel, windowSize := settings.windowSize
    fragmentSize := settings.fragmentSize, rollbackAfter := settings.rollbackAfter }

/-- What is known about the present session. -/
def info (s : Session) : Option SessionInfo := s.lastInfo.filter fun _ => s.hasKey

def codeSize (s : Session) : Option (Nat × Nat) := s.info.map fun info => (info.k, info.n)

/-- The assembly of the present session. -/
def assembly (s : Session) : Option Assembly := s.lastAssembly.filter fun _ => s.hasKey

/-- Whether a lower epoch is admitted. -/
def rollbackAllowed (s : Session) (now : Moment) : Bool :=
  match s.rollbackAfter, s.lastAuthenticated with
  | none, _ => false
  | some _, none => true
  | some seconds, some moment => 1000 * seconds ≤ now - moment

def readOffer (s : Session) (nonce : Octets 24) (cipher : Bytes) : Except Fault SessionOffer :=
  if cipher.length < Limits.sessionCipher then
    .error (.truncated .sessionCipher Limits.sessionCipher cipher.length)
  else do
    let plain ← (Cipher.SealedBox.decrypt s.boxKey nonce cipher).mapError Fault.cipher
    SessionOffer.decode plain

/-- Checks an announcement and prepares the assembly for it.  The channel must be the one that
carried the packet, or else the one that the receiver is set to. -/
def prepare (s : Session) (offer : SessionOffer) (carrier : Option UInt32) :
    Except Fault (SessionInfo × Assembly) := do
  if let some expected := carrier.or s.channel then
    if expected ≠ offer.channel then throw (.channelMismatch expected offer.channel)
  let scheme ← CodeScheme.ofCode offer.scheme
  let k := offer.k.toNat
  let n := offer.n.toNat
  if k < 1 ∨ n < k then throw (.invalidCodeSize k n)
  let assembly ← Assembly.create offer.key k n s.windowSize s.fragmentSize
  return ({ epoch := offer.epoch.toNat, channel := offer.channel, scheme, k, n }, assembly)

/-- Replaces whatever session there was by an announced one. -/
def establish (s : Session) (now : Moment) (offer : SessionOffer) (carrier : Option UInt32) :
    Except Fault SessionOutcome × Session :=
  match s.prepare offer carrier with
  | .error fault => (.error fault, { s with hasKey := false, lastAssembly := none })
  | .ok (info, assembly) =>
    (.ok (.established info),
      { s with epoch := info.epoch, lastInfo := some info, hasKey := true
               lastAssembly := some assembly, lastAuthenticated := some now })

/-- Handles one session packet.  `carrier` is the channel of the 802.11 header that carried it, if
there was one. -/
def announce (s : Session) (now : Moment) (nonce : Octets 24) (cipher : Bytes)
    (carrier : Option UInt32) : Except Fault SessionOutcome × Session :=
  match s.readOffer nonce cipher with
  | .error fault => (.error fault, s)
  | .ok offer =>
    let epoch := offer.epoch.toNat
    if epoch < s.epoch ∧ !s.rollbackAllowed now then (.error (.staleEpoch s.epoch epoch), s)
    else if epoch = s.epoch ∧ s.hasKey then
      (.ok .unchanged, { s with lastAuthenticated := some now })
    else s.establish now offer carrier

/-- Handles one data packet.  A packet that is not authentic ends the session. -/
def receive (s : Session) (now : Moment) (x : Arrival) (recover : Bool) : Report × Session :=
  match s.assembly with
  | none => ({ outcome := .ok .noSession }, s)
  | some assembly =>
    let (report, assembly) := assembly.receive x recover
    let s := { s with lastAssembly := some assembly }
    match report.outcome with
    | .error (.cipher _) => (report, { s with hasKey := false })
    | .error _ => (report, s)
    | .ok _ => (report, { s with lastAuthenticated := some now })

end Session

end AirLink
