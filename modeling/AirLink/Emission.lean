import AirLink.Packet
import AirLink.Window

/-! # What leaves a block

The data fragments of a block leave it in order.  An `Emission` is one such departure: the fragment
was passed on, or given up.  A passed fragment becomes a delivery if its header names a payload that
lies inside its buffer; a filler or a malformed fragment is passed over in silence.

How far a block is emptied depends on the occasion: up to the first gap while it is still being
received, to its end with the gaps given up when a newer block arrives, or to its end with nothing
given up once the gaps have been filled by the erasure code.
-/

namespace AirLink

inductive Emission where
  /-- The fragment was passed on with the content of its buffer. -/
  | passed (block fragment : Nat) (recovered : Bool) (content : Bytes)
  /-- The fragment had not arrived and was given up. -/
  | lost (block fragment : Nat)
  deriving DecidableEq, Repr

structure Delivery where
  block : Nat
  fragment : Nat
  /-- The fragment did not arrive but was rebuilt from others. -/
  recovered : Bool
  payload : Bytes
  deriving DecidableEq, Repr

/-- A jump in the numbering of passed fragments. -/
structure Gap where
  skipped : Nat
  previous : Nat
  sequence : Nat
  deriving DecidableEq, Repr

/-- The payload in a fragment's buffer.  There is none in a filler, and none where the size in the
header is above the limit or reaches beyond the buffer. -/
def payload? (content : Bytes) : Option Bytes :=
  match FragmentHeader.decode content with
  | .error _ => none
  | .ok header =>
    let size := header.size.toNat
    if header.isFiller then none
    else if Limits.payload < size ∨ content.length < Limits.fragmentHeader + size then none
    else some ((content.drop Limits.fragmentHeader).take size)

namespace Emission

def delivery? : Emission → Option Delivery
  | passed block fragment recovered content =>
    (payload? content).map fun payload => ⟨block, fragment, recovered, payload⟩
  | lost .. => none

/-- The number of a passed fragment, counting `k` for every block. -/
def sequence? (k : Nat) : Emission → Option Nat
  | passed block fragment _ _ => some (block * k + fragment)
  | lost .. => none

def isLost : Emission → Bool
  | passed .. => false
  | lost .. => true

end Emission

/-- The jumps in a run of numbers that follows a given one. -/
def gaps : Option Nat → List Nat → List Gap
  | _, [] => []
  | none, sequence :: rest => gaps (some sequence) rest
  | some previous, sequence :: rest =>
    if previous + 1 < sequence then
      ⟨sequence - previous - 1, previous, sequence⟩ :: gaps (some sequence) rest
    else gaps (some sequence) rest

/-- The occasion on which a block is emptied. -/
inductive Mode where
  /-- The block is being received: everything up to the first gap. -/
  | cutThrough
  /-- The block has been overtaken: everything, gaps given up. -/
  | stale
  /-- The gaps have been filled: everything. -/
  | rebuilt
  deriving DecidableEq, Repr

namespace Slot

/-- The data fragments that have not left the block, in order. -/
def due (k : Nat) (s : Slot) : List Nat := (List.range k).drop s.cursor

/-- The fragments that leave the block on an occasion. -/
def leaving (k : Nat) (mode : Mode) (s : Slot) : List Nat :=
  match mode with
  | .cutThrough => (s.due k).takeWhile s.has
  | .stale | .rebuilt => s.due k

def departure (s : Slot) (mode : Mode) (block i : Nat) : Emission :=
  if s.has i then .passed block i false (s.bufferOf i)
  else if mode = .rebuilt then .passed block i true (s.bufferOf i)
  else .lost block i

/-- Empties a block as far as the occasion allows.  A free slot has nothing to pass on. -/
def drain (k : Nat) (mode : Mode) (s : Slot) : Slot × List Emission :=
  let run := s.leaving k mode
  ({ s with cursor := s.cursor + run.length },
    match s.index with
    | none => []
    | some block => run.map (s.departure mode block))

end Slot

end AirLink
