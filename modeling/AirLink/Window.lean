import AirLink.Bytes
import AirLink.Fault

/-! # The block window

A receiver keeps a few blocks open at a time.  They lie in a ring of slots: the window is a run of
slots that starts at the front and holds blocks of ascending indices, perhaps with holes where a
block has been freed.  Only indices above the last one enter the window, so a block that has been
let go never comes back.

Each slot has one cell for every fragment of a block.  Opening a slot for a block marks its cells
empty but leaves their bytes alone; storing a fragment overwrites the whole cell.
-/

namespace AirLink

/-- The place for one fragment: how many bytes of the present block are in it, and its buffer. -/
structure Cell where
  length : Nat
  buffer : Bytes
  deriving DecidableEq, Repr

structure Slot where
  /-- The block in the slot; a free slot has none. -/
  index : Option Nat
  cells : List Cell
  /-- How many fragments of the block have been stored. -/
  used : Nat
  /-- The next data fragment that is due for delivery. -/
  cursor : Nat
  deriving DecidableEq, Repr

namespace Slot

def blank (fragmentSize fragmentCount : Nat) : Slot :=
  { index := none, cells := List.replicate fragmentCount ⟨0, Bytes.zeros fragmentSize⟩,
    used := 0, cursor := 0 }

/-- The number of bytes stored of a fragment, zero if there are none. -/
def lengthOf (s : Slot) (i : Nat) : Nat := ((s.cells[i]?).map Cell.length).getD 0

def bufferOf (s : Slot) (i : Nat) : Bytes := ((s.cells[i]?).map Cell.buffer).getD []

/-- The fragment has been stored; one without bytes does not count. -/
def has (s : Slot) (i : Nat) : Bool := 0 < s.lengthOf i

/-- The slot opened for a block: all cells count as empty. -/
def reset (s : Slot) (index : Nat) : Slot :=
  { index := some index, cells := s.cells.map fun c => { c with length := 0 }, used := 0,
    cursor := 0 }

/-- Stores a fragment and fills the rest of its buffer with zeros. -/
def store (s : Slot) (i : Nat) (bs : Bytes) : Slot :=
  { s with
    cells := s.cells.modify i fun c => ⟨bs.length, Bytes.fit c.buffer.length bs⟩
    used := s.used + 1 }

def advance (s : Slot) : Slot := { s with cursor := s.cursor + 1 }

end Slot

/-- A ring of slots with a run of them in use. -/
structure Window where
  fragmentSize : Nat
  fragmentCount : Nat
  slots : Array Slot
  /-- The slot of the oldest block. -/
  front : Nat
  /-- The length of the run, holes included. -/
  span : Nat
  /-- The highest index that has entered the window. -/
  last : Option Nat

namespace Window

/-- A window of `size` slots for blocks of `fragmentCount` fragments with `fragmentSize` bytes.  It is refused
if its bytes are more than can be addressed; memory that runs out below that is not taken into account. -/
def create (size fragmentSize fragmentCount : Nat) : Except Fault Window :=
  if size = 0 ∨ fragmentSize = 0 ∨ fragmentCount = 0 then .error (.settings .emptyWindow)
  else if Limits.memory < fragmentSize * fragmentCount * size then .error (.exhausted .window)
  else .ok
    { fragmentSize, fragmentCount, front := 0, span := 0, last := none
      slots := Array.replicate size (Slot.blank fragmentSize fragmentCount) }

def capacity (w : Window) : Nat := w.slots.size

def slotAt (w : Window) (place : Nat) : Slot := w.slots.getD place (Slot.blank 0 0)

/-- Changes a slot.  A slot that is not there is left alone; nothing asks for one, and the checked window has
no result then. -/
def modify (w : Window) (place : Nat) (f : Slot → Slot) : Window :=
  { w with slots := w.slots.modify place f }

/-- The number of the slot that lies `i` slots behind the front. -/
def place (w : Window) (i : Nat) : Nat := (w.front + i) % w.capacity

/-- The numbers of the slots of the window, front first. -/
def places (w : Window) : List Nat := (List.range w.span).map w.place

def find? (w : Window) (index : Nat) : Option Nat :=
  w.places.find? fun p => (w.slotAt p).index == some index

/-- The indices of the open blocks, front first. -/
def indices (w : Window) : List Nat := w.places.filterMap fun p => (w.slotAt p).index

def front? (w : Window) : Option Nat := if w.span = 0 then none else some w.front

def isFront (w : Window) (place : Nat) : Bool := w.front? == some place

/-- Where a window with a given front and span begins once free slots at its front are dropped. -/
def skipFree (slots : Array Slot) (front : Nat) : Nat → Nat × Nat
  | 0 => (front, 0)
  | span + 1 =>
    if ((slots[front]?).bind Slot.index).isSome then (front, span + 1)
    else if span = 0 then (front, 0)
    else skipFree slots ((front + 1) % slots.size) span

/-- Frees a slot and moves the front on to the next open block.  If the slot is not there, no slot is freed;
a program that indexes its slots would stop at once, as the checked window does. -/
def free (w : Window) (place : Nat) : Window :=
  if w.span = 0 then w
  else
    let slots := w.slots.modify place fun s => { s with index := none }
    let (front, span) := skipFree slots w.front w.span
    { w with slots, front, span }

/-- Opens a block behind the window.  If the window takes up all slots, the oldest block is let go
first and returned as it was. -/
def push (w : Window) (index : Nat) : Window × List Slot :=
  let full := w.span = w.capacity
  let evicted := if full then [w.slotAt w.front] else []
  let w := if full then w.free w.front else w
  ({ w.modify (w.place w.span) (·.reset index) with span := w.span + 1 }, evicted)

def pushAll (w : Window) : List Nat → Window × List Slot
  | [] => (w, [])
  | index :: rest =>
    let (w, evicted) := w.push index
    let (w, more) := w.pushAll rest
    (w, evicted ++ more)

/-- What asking for a block leads to. -/
structure Acquired where
  /-- The slot of the block, unless the window has moved past it. -/
  slot : Option Nat
  window : Window
  /-- The blocks that were let go, oldest first. -/
  evicted : List Slot

/-- The slot of a block, opened if need be.  A block above the last index enters the window together
with as many of the indices below it as have not been seen and fit. -/
def acquire (w : Window) (index : Nat) : Acquired :=
  match w.find? index with
  | some slot => ⟨some slot, w, []⟩
  | none =>
    if w.last.any (index ≤ ·) then ⟨none, w, []⟩
    else
      let count := match w.last with
        | none => 1
        | some last => min (index - last) w.capacity
      let (w, evicted) := w.pushAll (List.range' (index + 1 - count) count)
      ⟨some (w.place (w.span - 1)), { w with last := some index }, evicted⟩

end Window

end AirLink
