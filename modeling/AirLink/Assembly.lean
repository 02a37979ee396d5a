import AirLink.Cipher.Aead
import AirLink.Emission
import AirLink.Erasure.Code
import AirLink.Keys

/-! # Assembly of blocks

An `Assembly` turns the data packets of one session back into the payloads that were sent.  A packet
is authenticated before anything else; its fragment is then stored in the window, every older block
is given up, and the fragment's own block is emptied as far as it goes without a gap.  When exactly
`k` fragments of a block are there, the erasure code fills its gaps.

Fragments leave in ascending order of block and place, each at most once, and parity fragments
never leave.
-/

namespace AirLink

/-- A data packet that has not been authenticated. -/
structure Arrival where
  nonce : UInt64
  block : Nat
  fragment : Nat
  /-- The header as it was sent. -/
  clear : Bytes
  cipher : Bytes
  deriving DecidableEq

/-- What became of a data packet that was not refused. -/
inductive DataOutcome where
  | accepted
  | duplicate
  /-- The window has moved past the block. -/
  | outOfWindow
  | noSession
  deriving DecidableEq, Repr

/-- Everything that handling one data packet brings about, besides the new state. -/
structure Report where
  outcome : Except Fault DataOutcome
  emissions : List Emission := []
  /-- The number of data fragments that were rebuilt, if the erasure code was used. -/
  rebuilt : Option Nat := none
  gaps : List Gap := []

namespace Report

def deliveries (r : Report) : List Delivery := r.emissions.filterMap Emission.delivery?

end Report

namespace Slot

/-- The shares from which the data fragments at the given places are to be had: each is its own
share if it has arrived, and otherwise the next parity share that has. -/
def choose (s : Slot) : List Nat → List Nat → Option (List Nat)
  | [], _ => some []
  | i :: places, parity =>
    if s.has i then (s.choose places parity).map (i :: ·)
    else match parity with
      | [] => none
      | p :: parity => (s.choose places parity).map (p :: ·)

/-- The parity fragments that have arrived, in ascending order. -/
def parity (s : Slot) (k n : Nat) : List Nat := ((List.range n).drop k).filter s.has

def absent (s : Slot) (k : Nat) : List Nat := (List.range k).filter fun i => !s.has i

/-- The slot with new contents in the buffers at the given places.  The lengths stay as they are:
what is put in has not been received. -/
def refill (s : Slot) (places : List Nat) (buffers : List Bytes) : Slot :=
  (places.zip buffers).foldl
    (fun s (i, buffer) => { s with cells := s.cells.modify i fun c => { c with buffer } }) s

/-- Fills the gaps of a block from its parity fragments.  Also tells how many were filled. -/
def rebuild (code : ErasureCode) (s : Slot) : Except Fault (Slot × Nat) :=
  match s.choose (List.range code.k) (s.parity code.k code.n) with
  | none => .error (.shares .tooFewParityShares)
  | some shares =>
    let absent := s.absent code.k
    if absent.isEmpty then .ok (s, 0)
    else
      let size := (shares.map s.lengthOf).foldl max 0
      (code.decode (shares.map s.bufferOf) shares (absent.map s.bufferOf) size).map
        fun buffers => (s.refill absent buffers, absent.length)

end Slot

namespace Window

/-- Gives up every block in front of a slot. -/
def retireBefore (k place : Nat) : Nat → Window → Window × List Emission
  | 0, w => (w, [])
  | fuel + 1, w =>
    if w.span = 0 ∨ w.front = place then (w, [])
    else
      let front := w.front
      let (slot, emissions) := (w.slotAt front).drain k .stale
      let w := (w.modify front fun _ => slot).free front
      let (w, more) := w.retireBefore k place fuel
      (w, emissions ++ more)

def retire (w : Window) (k place : Nat) : Window × List Emission :=
  w.retireBefore k place w.span

end Window

structure Assembly where
  key : Key
  code : ErasureCode
  window : Window
  /-- The number of the last fragment that was passed on. -/
  lastSequence : Option Nat := none

namespace Assembly

def create (key : Key) (k n windowSize fragmentSize : Nat) : Except Fault Assembly := do
  let code ← ErasureCode.create k n
  let window ← Window.create windowSize fragmentSize n
  return { key, code, window }

/-- Checks a packet and opens it.  Nothing of the state is looked at but the sizes and the key. -/
def authenticate (a : Assembly) (x : Arrival) : Except Fault Bytes :=
  let room := a.window.fragmentSize + Limits.tag
  if x.cipher.length < Limits.dataCipher then
    .error (.truncated .dataCipher Limits.dataCipher x.cipher.length)
  else if Limits.blockIndex < x.block then .error (.blockIndexOverflow x.block)
  else if a.code.n ≤ x.fragment then .error (.fragmentIndexOverflow x.fragment a.code.n)
  else if room < x.cipher.length then .error (.oversized room x.cipher.length)
  else (Cipher.Aead.decrypt a.key x.nonce x.clear x.cipher).mapError Fault.cipher

/-- The report and the state after some emissions. -/
def conclude (a : Assembly) (window : Window) (outcome : Except Fault DataOutcome)
    (emissions : List Emission) (rebuilt : Option Nat := none) : Report × Assembly :=
  let sequences := emissions.filterMap (Emission.sequence? a.code.k)
  ({ outcome, emissions, rebuilt, gaps := AirLink.gaps a.lastSequence sequences },
    { a with window, lastSequence := sequences.getLast?.or a.lastSequence })

/-- Empties the block in a slot as far as possible, after a fragment has been stored in it.  The
block is freed once all its data fragments have left. -/
def forward (a : Assembly) (window : Window) (place : Nat) (recover : Bool)
    (before : List Emission) : Report × Assembly :=
  let k := a.code.k
  let (slot, sent) := (window.slotAt place).drain k .cutThrough
  let close (slot : Slot) := (window.modify place fun _ => slot).free place
  if slot.cursor = k then a.conclude (close slot) (.ok .accepted) (before ++ sent)
  else if recover && slot.used = k then
    match slot.rebuild a.code with
    | .ok (slot, count) =>
      let (slot, rest) := slot.drain k .rebuilt
      a.conclude (close slot) (.ok .accepted) (before ++ sent ++ rest) (some count)
    | .error fault =>
      let (slot, rest) := slot.drain k .stale
      a.conclude (close slot) (.error fault) (before ++ sent ++ rest)
  else a.conclude (window.modify place fun _ => slot) (.ok .accepted) (before ++ sent)

def accept (a : Assembly) (block fragment : Nat) (plain : Bytes) (recover : Bool) :
    Report × Assembly :=
  let k := a.code.k
  let acquired := a.window.acquire block
  let evictions := acquired.evicted.flatMap fun slot => (slot.drain k .stale).2
  match acquired.slot with
  | none => a.conclude acquired.window (.ok .outOfWindow) evictions
  | some place =>
    if (acquired.window.slotAt place).has fragment then
      a.conclude acquired.window (.ok .duplicate) evictions
    else
      let window := acquired.window.modify place (·.store fragment plain)
      let (window, retired) := window.retire k place
      a.forward window place recover (evictions ++ retired)

/-- Handles one data packet.  The flag says whether the erasure code may be used. -/
def receive (a : Assembly) (x : Arrival) (recover : Bool) : Report × Assembly :=
  match a.authenticate x with
  | .error fault => ({ outcome := .error fault }, a)
  | .ok plain => a.accept x.block x.fragment plain recover

end Assembly

end AirLink
