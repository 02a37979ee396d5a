import AirLink.Fault
import AirLink.Text.Ipv6

/-! # Settings of a receiver

What can be set, the usual values, and two variations of them: one for small devices and one that
trusts nothing.
-/

namespace AirLink

/-- Where relayed frames are received and sent: a group of hosts, a service number there, and the
network interface that leads to them. -/
structure Endpoint where
  group : Ipv6
  service : UInt16
  interface : UInt32
  deriving DecidableEq

/-- The group is one that hosts join, not a single host. -/
def Endpoint.isGroup (e : Endpoint) : Bool := e.group[0] / 256 = 0xff

structure Settings where
  /-- The only channel to be received, if there is one. -/
  channel : Option UInt32 := none
  windowSize : Nat := Limits.windowSize
  /-- The room for one fragment with its header. -/
  fragmentSize : Nat := Limits.fragment
  recovery : Bool := true
  /-- Whether check sequences are computed, rather than believed. -/
  verifyChecksum : Bool := false
  /-- The seconds of silence after which a lower epoch is admitted; without them it never is.
  A second is any thousand units in which the moments of a session are given. -/
  rollbackAfter : Option Nat := some 10
  maxDecoders : Nat := 4
  maxRelays : Nat := 4
  endpoint : Endpoint := ⟨Ipv6.ofGroups [0xff02, 0, 0, 0, 0, 0, 0, 0x5742], 5742, 0⟩
  /-- The milliseconds between two statistics lines, zero for none. -/
  reportInterval : Nat := 1000
  deriving DecidableEq

namespace Settings

/-- For small devices: a shallow window and few consumers. -/
def lowSpec : Settings :=
  { windowSize := 16, maxDecoders := 2, maxRelays := 1, reportInterval := 5000 }

/-- Check sequences are computed and no lower epoch is ever admitted. -/
def strict : Settings := { verifyChecksum := true, rollbackAfter := none }

/-- The settings can be used: the window is not empty, and a fragment has room for its header and is
not larger than a packet can carry. -/
def validate (s : Settings) : Except Fault Unit :=
  if s.windowSize = 0 then .error (.settings .noWindow)
  else if s.fragmentSize < Limits.fragmentHeader ∨ Limits.fragment < s.fragmentSize then
    .error (.settings (.fragmentSize s.fragmentSize))
  else .ok ()

end Settings

end AirLink
