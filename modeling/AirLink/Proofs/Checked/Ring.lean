import AirLink.Proofs.Window
import AirLink.Proofs.Checked.Words

/-! # The window in checked steps

All buffers of a window are one stretch of memory, in which the bytes of a slot are found by its number
and those of a fragment by its place in the block.  A block is worked on through a view: its state and
its part of the memory.  The operations of such a ring go through on a window whose slots have the right
sizes, and do what those of the window do.
-/

namespace AirLink.Checked

section

variable {α : Type} {n i : Nat} {pieces : List (List α)}

theorem length_flatten_of_length (length : ∀ piece ∈ pieces, piece.length = n) :
    pieces.flatten.length = pieces.length * n := by
  induction pieces with
  | nil => exact (Nat.zero_mul n).symm
  | cons piece pieces ih =>
      rw [List.flatten_cons, List.length_append, length piece (List.mem_cons_self ..),
        ih fun p h => length p (List.mem_cons_of_mem _ h), List.length_cons, Nat.succ_mul, Nat.add_comm]

/-- What lies in front of a piece and behind it. -/
theorem flatten_parts (length : ∀ piece ∈ pieces, piece.length = n) (hi : i < pieces.length) :
    ∃ before after, before.length = i * n ∧ pieces.flatten = before ++ pieces[i] ++ after ∧
      ∀ piece, (pieces.set i piece).flatten = before ++ piece ++ after := by
  refine ⟨(pieces.take i).flatten, (pieces.drop (i + 1)).flatten, ?_, ?_, fun piece => ?_⟩
  · rw [length_flatten_of_length fun piece member => length piece (List.mem_of_mem_take member),
      List.length_take_of_le (Nat.le_of_lt hi)]
  · rw [List.append_assoc, ← List.flatten_cons, ← List.flatten_append, ← List.drop_eq_getElem_cons hi,
      List.take_append_drop]
  · rw [List.set_eq_take_append_cons_drop, if_pos hi, List.flatten_append, List.flatten_cons, List.append_assoc]

/-- One of some pieces of the same length. -/
theorem slice_flatten (length : ∀ piece ∈ pieces, piece.length = n) (hi : i < pieces.length) :
    slice pieces.flatten (i * n) (i * n + n) = some pieces[i] := by
  obtain ⟨before, after, front, parts, -⟩ := flatten_parts length hi
  have here := length pieces[i] (List.getElem_mem hi)
  rw [parts, slice_add (by simp only [List.length_append]; omega), List.append_assoc, List.drop_left' front,
    List.take_left' here]

/-- Another piece in the place of one. -/
theorem blit_flatten (length : ∀ piece ∈ pieces, piece.length = n) (hi : i < pieces.length) {piece : List α}
    (fits : piece.length = n) :
    blit pieces.flatten (i * n) (i * n + n) piece = some (pieces.set i piece).flatten := by
  obtain ⟨before, after, front, parts, replaced⟩ := flatten_parts length hi
  have here := length pieces[i] (List.getElem_mem hi)
  rw [parts, blit_eq (Nat.le_add_right ..) (by simp only [List.length_append]; omega) (by omega), replaced,
    List.append_assoc before, List.take_left' front, ← List.append_assoc before,
    List.drop_left' (by rw [List.length_append]; omega)]

end

/-- The state of a block, without its bytes. -/
structure Block where
  index : Option Nat
  lengths : List Nat
  used : Nat
  cursor : Nat

/-- A block with its part of the memory, the buffers of its fragments one after the other. -/
structure View where
  block : Block
  data : Bytes
  /-- The room for one fragment. -/
  size : Nat

structure Ring where
  memory : Bytes
  blocks : List Block
  front : Nat
  span : Nat
  last : Option Nat
  fragmentSize : Nat
  fragmentCount : Nat

namespace Block

def of (s : Slot) : Block := ⟨s.index, s.cells.map Cell.length, s.used, s.cursor⟩

def reset (b : Block) (index : Nat) : Block := ⟨some index, b.lengths.map fun _ => 0, 0, 0⟩

theorem reset_of (s : Slot) (index : Nat) : (of s).reset index = of (s.reset index) := by
  simp [of, reset, Slot.reset]

end Block

/-- The bytes of all fragments of a slot. -/
def dataOf (s : Slot) : Bytes := (s.cells.map Cell.buffer).flatten

namespace View

def of (size : Nat) (s : Slot) : View := ⟨Block.of s, dataOf s, size⟩

end View

namespace Ring

def of (w : Window) : Ring :=
  { memory := (w.slots.toList.map dataOf).flatten
    blocks := w.slots.toList.map Block.of
    front := w.front, span := w.span, last := w.last
    fragmentSize := w.fragmentSize, fragmentCount := w.fragmentCount }

def view (r : Ring) (place : Nat) : Option View := do
  let length ← mul r.fragmentSize r.fragmentCount
  let start ← mul place length
  let block ← r.blocks[place]?
  let stop ← add start length
  let data ← slice r.memory start stop
  return ⟨block, data, r.fragmentSize⟩

/-- Takes over what has been done with a view. -/
def keep (r : Ring) (place : Nat) (v : View) : Option Ring := do
  let length ← mul r.fragmentSize r.fragmentCount
  let start ← mul place length
  let stop ← add start length
  let memory ← blit r.memory start stop v.data
  let blocks ← put r.blocks place v.block
  return { r with memory, blocks }

/-- The number of the slot that lies `i` slots behind the front. -/
def place (r : Ring) (i : Nat) : Option Nat := do
  let sum ← add r.front i
  mod sum r.blocks.length

def find (r : Ring) (index : Nat) : Option (Option Nat) := do
  let places ← (List.range r.span).mapM r.place
  places.findM? fun p => do
    let block ← r.blocks[p]?
    return block.index == some index

/-- Drops free slots at the front, one after the other. -/
def skip (r : Ring) : Option Ring := do
  let block ← r.blocks[r.front]?
  if block.index.isSome then return r
  let span ← sub r.span 1
  if span = 0 then return { r with span }
  let front ← r.place 1
  { r with front, span } |>.skip
partial_fixpoint

def free (r : Ring) (place : Nat) : Option Ring := do
  if r.span = 0 then return r
  let block ← r.blocks[place]?
  let blocks ← put r.blocks place { block with index := none }
  skip { r with blocks }

variable {σ : Type}

/-- Makes room behind the window.  If the window takes up all slots, its oldest block is looked at once
more and let go.  What that has done to its view is not kept: the slot is the one that is opened next,
and loses its state then. -/
def makeRoom (evict : View → σ → Option σ) (r : Ring) (s : σ) : Option (Ring × σ) :=
  if r.span = r.blocks.length then do
    let oldest ← r.view r.front
    let s ← evict oldest s
    let r ← r.free r.front
    return (r, s)
  else some (r, s)

/-- Opens a block behind the window and tells its slot. -/
def push (evict : View → σ → Option σ) (index : Nat) (r : Ring) (s : σ) : Option (Nat × Ring × σ) := do
  let (r, s) ← makeRoom evict r s
  let slot ← r.place r.span
  let block ← r.blocks[slot]?
  let blocks ← put r.blocks slot (block.reset index)
  let span ← add r.span 1
  return (slot, { r with blocks, span }, s)

/-- How many blocks enter the window together with a new one; none if it is not new. -/
def entering (r : Ring) (index : Nat) : Option (Option Nat) :=
  match r.last with
  | none => some (some 1)
  | some last =>
    if index ≤ last then some none
    else do
      let distance ← sub index last
      return some (min distance r.blocks.length)

/-- The slot of a block, opened if need be. -/
def acquire (evict : View → σ → Option σ) (r : Ring) (index : Nat) (s : σ) :
    Option (Option Nat × Ring × σ) := do
  let found ← r.find index
  match found with
  | some slot => return (some slot, r, s)
  | none =>
    let count ← r.entering index
    match count with
    | none => return (none, r, s)
    | some count =>
      let below ← sub count 1
      let first ← sub index below
      let (slot, r, s) ← (List.range count).foldlM (fun (_, r, s) i => do
        let next ← add first i
        push evict next r s) (r.front, r, s)
      return (some slot, { r with last := some index }, s)

end Ring

open Window (Wellformed Alike)

/-- What the ring relies on: its slots have their sizes, all its memory together has an address, and the
numbers of its blocks are those of packets. -/
structure Fitting (w : Window) : Prop where
  wellformed : w.Wellformed
  shaped : w.Shaped
  numbered : ∀ p < w.capacity, ∀ block, (w.slotAt p).index = some block → block ≤ Limits.blockIndex
  lastNumbered : ∀ last, w.last = some last → last ≤ Limits.blockIndex
  room : w.fragmentSize * w.fragmentCount * w.capacity ≤ Limits.memory
  sized : 0 < w.fragmentSize
  counted : 0 < w.fragmentCount

variable {w : Window} {p : Nat}

theorem length_of_mem_buffers {s : Slot} {size count : Nat} (shaped : s.Shaped size count) :
    ∀ buffer ∈ s.cells.map Cell.buffer, buffer.length = size := by
  intro buffer member
  obtain ⟨cell, inside, rfl⟩ := List.mem_map.mp member
  exact shaped.buffers cell inside

theorem getElem_buffers {s : Slot} {i : Nat} (hi : i < (s.cells.map Cell.buffer).length) :
    (s.cells.map Cell.buffer)[i] = s.bufferOf i := by
  have inside : i < s.cells.length := by rwa [List.length_map] at hi
  rw [Slot.bufferOf, List.getElem?_eq_getElem inside, List.getElem_map]
  rfl

theorem block_inside (room : w.fragmentSize * w.fragmentCount * w.capacity ≤ Limits.memory) (hp : p < w.capacity) :
    p * (w.fragmentSize * w.fragmentCount) + w.fragmentSize * w.fragmentCount ≤ Limits.memory := by
  rw [← Nat.succ_mul, Nat.mul_comm]
  exact (Nat.mul_le_mul_left _ hp).trans room

namespace Fitting

theorem capacity_le (fit : Fitting w) : w.capacity ≤ Limits.memory :=
  (Nat.le_mul_of_pos_left _ (Nat.mul_pos fit.sized fit.counted)).trans fit.room

theorem block_le (fit : Fitting w) (hp : p < w.capacity) :
    p * (w.fragmentSize * w.fragmentCount) + w.fragmentSize * w.fragmentCount ≤ Limits.memory :=
  block_inside fit.room hp

theorem modify (fit : Fitting w) {f : Slot → Slot} (hp : p < w.capacity)
    (index : (f (w.slotAt p)).index = (w.slotAt p).index)
    (shape : (f (w.slotAt p)).Shaped w.fragmentSize w.fragmentCount) : Fitting (w.modify p f) where
  wellformed := fit.wellformed.modify hp index
  shaped := fit.shaped.modify fun _ => shape
  numbered q hq block here := by
    rw [Window.capacity_modify] at hq
    by_cases same : q = p
    · rw [same, Window.slotAt_modify_self hp, index] at here
      exact fit.numbered p hp block here
    · rw [Window.slotAt_modify_ne w same] at here
      exact fit.numbered q hq block here
  lastNumbered := fit.lastNumbered
  room := by
    rw [Window.capacity_modify]
    exact fit.room
  sized := fit.sized
  counted := fit.counted

theorem free (fit : Fitting w) (hp : p < w.capacity) : Fitting (w.free p) := by
  have alike := Window.alike_free w p
  exact
    { wellformed := fit.wellformed.free hp
      shaped := fit.shaped.free p
      numbered := by
        intro q hq block here
        rw [Window.capacity_free] at hq
        by_cases some : 0 < w.span
        case neg =>
          rw [Window.free_of_span_zero (by omega)] at here
          exact fit.numbered q hq block here
        rw [Window.slotAt_free some] at here
        by_cases same : q = p
        · rw [same, Window.slotAt_modify_self hp] at here
          cases here
        · rw [Window.slotAt_modify_ne w same] at here
          exact fit.numbered q hq block here
      lastNumbered := by
        rw [Window.last_free]
        exact fit.lastNumbered
      room := by
        rw [alike.fragmentSize, alike.fragmentCount, alike.capacity]
        exact fit.room
      sized := by
        rw [alike.fragmentSize]
        exact fit.sized
      counted := by
        rw [alike.fragmentCount]
        exact fit.counted }

theorem roomy (fit : Fitting w) : Fitting w.roomy := by
  unfold Window.roomy
  split
  · exact fit.free fit.wellformed.front_lt
  · exact fit

theorem push (fit : Fitting w) {index : Nat} (le : index ≤ Limits.blockIndex) : Fitting (w.push index).1 := by
  have alike := Window.alike_push w index
  obtain ⟨wellformed, -, others, here⟩ := fit.wellformed.push index
  exact
    { wellformed
      shaped := fit.shaped.push index
      numbered := by
        intro q hq block numbered
        rw [alike.capacity, ← Window.capacity_roomy] at hq
        by_cases same : q = w.roomy.place w.roomy.span
        · rw [same, here] at numbered
          cases numbered
          exact le
        · rw [others q same] at numbered
          exact fit.roomy.numbered q hq block numbered
      lastNumbered := by
        rw [Window.push_eq]
        exact fit.roomy.lastNumbered
      room := by
        rw [alike.fragmentSize, alike.fragmentCount, alike.capacity]
        exact fit.room
      sized := by
        rw [alike.fragmentSize]
        exact fit.sized
      counted := by
        rw [alike.fragmentCount]
        exact fit.counted }

end Fitting

namespace Ring

theorem length_blocks (w : Window) : (of w).blocks.length = w.capacity := by
  rw [of, List.length_map, Array.length_toList]
  rfl

theorem getElem_slots (hp : p < w.slots.toList.length) : w.slots.toList[p] = w.slotAt p := by
  have inside : p < w.slots.size := by rwa [Array.length_toList] at hp
  simp [Window.slotAt, inside]

theorem getElem?_blocks (hp : p < w.capacity) : (of w).blocks[p]? = some (Block.of (w.slotAt p)) := by
  have length : p < w.slots.toList.length := hp
  rw [of, List.getElem?_map, List.getElem?_eq_getElem length, getElem_slots length]
  rfl

theorem slots_modify (hp : p < w.capacity) (f : Slot → Slot) :
    (w.modify p f).slots.toList = w.slots.toList.set p (f (w.slotAt p)) := by
  have length : p < w.slots.toList.length := hp
  rw [Window.modify, Array.toList_modify, List.modify_eq_set_get _ length, List.get_eq_getElem, getElem_slots length]

theorem put_blocks (hp : p < w.capacity) (f : Slot → Slot) :
    put (of w).blocks p (Block.of (f (w.slotAt p))) = some (of (w.modify p f)).blocks := by
  rw [put_eq (by rwa [length_blocks])]
  change some ((w.slots.toList.map Block.of).set p _) = some ((w.modify p f).slots.toList.map Block.of)
  rw [slots_modify hp, List.map_set]

theorem length_dataOf {size count : Nat} {s : Slot} (shaped : s.Shaped size count) :
    (dataOf s).length = size * count := by
  rw [dataOf, length_flatten_of_length (length_of_mem_buffers shaped), List.length_map, shaped.length, Nat.mul_comm]

theorem length_of_mem_data (shaped : w.Shaped) :
    ∀ data ∈ w.slots.toList.map dataOf, data.length = w.fragmentSize * w.fragmentCount := by
  intro data member
  obtain ⟨s, inside, rfl⟩ := List.mem_map.mp member
  obtain ⟨p, hp, rfl⟩ := List.mem_iff_getElem.mp inside
  rw [getElem_slots hp]
  exact length_dataOf (shaped p hp)

theorem block_room (room : w.fragmentSize * w.fragmentCount * w.capacity ≤ Limits.memory) (hp : p < w.capacity) :
    w.fragmentSize * w.fragmentCount < 2 ^ 63 ∧
      p * (w.fragmentSize * w.fragmentCount) + w.fragmentSize * w.fragmentCount < 2 ^ 63 := by
  have inside := block_inside room hp
  have memory : Limits.memory < 2 ^ 63 := by decide
  omega

theorem view_of (fit : Fitting w) (hp : p < w.capacity) :
    (of w).view p = some (View.of w.fragmentSize (w.slotAt p)) := by
  obtain ⟨length, inside⟩ := block_room fit.room hp
  have count : p < (w.slots.toList.map dataOf).length := by rwa [List.length_map]
  have data : (w.slots.toList.map dataOf)[p] = dataOf (w.slotAt p) := by
    rw [List.getElem_map, getElem_slots]
  apply step (mul_eq (show w.fragmentSize * w.fragmentCount < 2 ^ 64 by omega))
  apply step (mul_eq (show p * (w.fragmentSize * w.fragmentCount) < 2 ^ 64 by omega))
  apply step (getElem?_blocks hp)
  apply step (add_eq (show _ < 2 ^ 64 by omega))
  apply step (slice_flatten (length_of_mem_data fit.shaped) count)
  rw [data]
  rfl

theorem keep_of (fit : Fitting w) (hp : p < w.capacity) {s : Slot}
    (shaped : s.Shaped w.fragmentSize w.fragmentCount) :
    (of w).keep p (View.of w.fragmentSize s) = some (of (w.modify p fun _ => s)) := by
  obtain ⟨length, inside⟩ := block_room fit.room hp
  have count : p < (w.slots.toList.map dataOf).length := by rwa [List.length_map]
  apply step (mul_eq (show w.fragmentSize * w.fragmentCount < 2 ^ 64 by omega))
  apply step (mul_eq (show p * (w.fragmentSize * w.fragmentCount) < 2 ^ 64 by omega))
  apply step (add_eq (show _ < 2 ^ 64 by omega))
  apply step (blit_flatten (length_of_mem_data fit.shaped) count (length_dataOf shaped))
  apply step (put_blocks hp fun _ => s)
  rw [of, of, slots_modify hp, List.map_set]
  rfl

theorem capacity_lt (fit : Fitting w) : w.capacity < 2 ^ 62 := by
  have le := fit.capacity_le
  have memory : Limits.memory < 2 ^ 62 := by decide
  omega

theorem place_of (fit : Fitting w) {i : Nat} (le : i ≤ w.capacity) : (of w).place i = some (w.place i) := by
  have small := capacity_lt fit
  have front := fit.wellformed.front_lt
  apply step (add_eq (show w.front + i < 2 ^ 64 by omega))
  rw [length_blocks]
  exact mod_eq (Nat.zero_lt_of_lt front)

theorem find_of (fit : Fitting w) (index : Nat) : (of w).find index = some (w.find? index) := by
  have le := fit.wellformed.span_le
  apply step (mapM_eq fun i member => place_of fit ((List.mem_range.mp member).le.trans le))
  refine findM_eq fun p member => ?_
  exact step (getElem?_blocks (fit.wellformed.lt_capacity member)) rfl

/-- The front is moved as far as the window moves it, and every slot on the way is one of the ring's. -/
theorem skip_of (small : w.capacity < 2 ^ 62) {front span : Nat} (inside : front < w.capacity)
    (le : span ≤ w.capacity) (positive : 0 < span) :
    skip { of w with front, span } = some { of w with
      front := (Window.skipFree w.slots front span).1, span := (Window.skipFree w.slots front span).2 } := by
  induction span generalizing front with
  | zero => cases positive
  | succ span ih =>
      have index : (Block.of (w.slotAt front)).index = (w.slots[front]?).bind Slot.index :=
        Window.index_slotAt w front
      rw [skip]
      apply step (getElem?_blocks inside)
      rw [index]
      by_cases occupied : ((w.slots[front]?).bind Slot.index).isSome
      · rw [if_pos occupied, Window.skipFree, if_pos occupied]
        rfl
      rw [if_neg occupied, Window.skipFree, if_neg occupied]
      apply step (sub_eq (Nat.le_add_left 1 span))
      rw [Nat.add_sub_cancel]
      by_cases last : span = 0
      · rw [if_pos last, if_pos last, last]
        rfl
      · have next : place { of w with front, span := span + 1 } 1 = some ((front + 1) % w.capacity) := by
          apply step (add_eq (show front + 1 < 2 ^ 64 by omega))
          change mod (front + 1) (of w).blocks.length = _
          rw [length_blocks]
          exact mod_eq (Nat.zero_lt_of_lt inside)
        rw [if_neg last, if_neg last]
        apply step next
        exact ih (Nat.mod_lt _ (Nat.zero_lt_of_lt inside)) (Nat.le_of_succ_le le) (Nat.pos_of_ne_zero last)

theorem dataOf_modify (hp : p < w.capacity) {f : Slot → Slot}
    (same : dataOf (f (w.slotAt p)) = dataOf (w.slotAt p)) : (of (w.modify p f)).memory = (of w).memory := by
  have length : p < w.slots.toList.length := hp
  have kept : (w.slots.toList.map dataOf).set p (dataOf (w.slotAt p)) = w.slots.toList.map dataOf := by
    apply List.ext_getElem (List.length_set ..)
    intro q _ hq
    rw [List.getElem_set]
    split
    case isFalse => rfl
    case isTrue here =>
      subst here
      rw [List.getElem_map, getElem_slots]
  change ((w.modify p f).slots.toList.map dataOf).flatten = (w.slots.toList.map dataOf).flatten
  rw [slots_modify hp, List.map_set, same, kept]

theorem free_of (fit : Fitting w) (hp : p < w.capacity) : (of w).free p = some (of (w.free p)) := by
  by_cases empty : w.span = 0
  · rw [Window.free_of_span_zero empty]
    exact if_pos empty
  have blocks := put_blocks hp fun s => { s with index := none }
  have memory := @dataOf_modify w p hp (fun s => { s with index := none }) rfl
  have skipped := @skip_of (w.modify p fun s => { s with index := none })
    (by rw [Window.capacity_modify]; exact capacity_lt fit) w.front w.span
    (by rw [Window.capacity_modify]; exact fit.wellformed.front_lt)
    (by rw [Window.capacity_modify]; exact fit.wellformed.span_le) (Nat.pos_of_ne_zero empty)
  rw [free, if_neg (show ¬(of w).span = 0 from empty)]
  apply step (getElem?_blocks hp)
  apply step blocks
  rw [Window.free, if_neg empty]
  simp only [of] at memory skipped ⊢
  rw [← memory]
  exact skipped

section

variable {σ : Type} {evict : View → σ → Option σ} {evicted : Slot → σ → σ} {holds : σ → Prop}

/-- What is done with a block that is let go has a result as long as some property holds, and keeps it. -/
def Evicts (w : Window) (evict : View → σ → Option σ) (evicted : Slot → σ → σ) (holds : σ → Prop) :
    Prop :=
  ∀ s out, s.Shaped w.fragmentSize w.fragmentCount →
    (∀ block, s.index = some block → block ≤ Limits.blockIndex) → holds out →
      evict (View.of w.fragmentSize s) out = some (evicted s out) ∧ holds (evicted s out)

theorem Evicts.of_alike {v : Window} (evicts : Evicts w evict evicted holds) (alike : Alike v w) :
    Evicts v evict evicted holds := by
  rw [Evicts, alike.fragmentSize, alike.fragmentCount]
  exact evicts

theorem makeRoom_of (fit : Fitting w) (evicts : Evicts w evict evicted holds) {out : σ} (start : holds out) :
    makeRoom evict (of w) out = some (of w.roomy, w.leaving.foldl (fun out s => evicted s out) out) ∧
      holds (w.leaving.foldl (fun out s => evicted s out) out) := by
  have front := fit.wellformed.front_lt
  obtain ⟨gone, kept⟩ := evicts _ out (fit.shaped _ front) (fit.numbered _ front) start
  unfold makeRoom Window.roomy Window.leaving
  rw [length_blocks]
  by_cases full : w.span = w.capacity
  · rw [if_pos full, if_pos full, if_pos (show (of w).span = w.capacity from full)]
    refine ⟨?_, kept⟩
    apply step (view_of fit front)
    apply step gone
    exact step (free_of fit front) rfl
  · rw [if_neg full, if_neg full, if_neg (show ¬(of w).span = w.capacity from full)]
    exact ⟨rfl, start⟩

theorem push_of (fit : Fitting w) (evicts : Evicts w evict evicted holds) {out : σ} (start : holds out)
    (index : Nat) :
    push evict index (of w) out = some (w.roomy.place w.roomy.span, of (w.push index).1,
        (w.push index).2.foldl (fun out s => evicted s out) out) ∧
      holds ((w.push index).2.foldl (fun out s => evicted s out) out) := by
  obtain ⟨room, kept⟩ := makeRoom_of fit evicts start
  have span := fit.wellformed.roomy_span
  have small := capacity_lt fit
  have capacity := Window.capacity_roomy w
  have inside : w.roomy.place w.roomy.span < w.roomy.capacity :=
    Nat.mod_lt _ (Nat.zero_lt_of_lt fit.roomy.wellformed.front_lt)
  rw [Window.push_eq]
  refine ⟨?_, kept⟩
  apply step room
  apply step (place_of fit.roomy (show w.roomy.span ≤ w.roomy.capacity by omega))
  apply step (getElem?_blocks inside)
  rw [Block.reset_of]
  apply step (put_blocks inside (·.reset index))
  apply step (add_eq (show w.roomy.span + 1 < 2 ^ 64 by omega))
  have memory : (of (w.roomy.modify (w.roomy.place w.roomy.span) (·.reset index))).memory = (of w.roomy).memory := by
    apply dataOf_modify inside
    simp only [dataOf, Slot.reset, List.map_map]
    rfl
  simp only [of] at memory ⊢
  rw [← memory]
  rfl

/-- Blocks are opened one after the other, and the slot of the last one is the last of the window. -/
theorem pushAll_of {first : Nat} (steps : List Nat) (fit : Fitting w) (evicts : Evicts w evict evicted holds)
    {out : σ} (start : holds out) (numbers : ∀ i ∈ steps, first + i ≤ Limits.blockIndex) (slot : Nat) :
    ∃ last, (steps.foldlM (fun (_, r, s) i => do
        let next ← add first i
        push evict next r s) (slot, of w, out) : Option (Nat × Ring × σ)) =
      some (last, of (w.pushAll (steps.map (first + ·))).1,
        (w.pushAll (steps.map (first + ·))).2.foldl (fun out s => evicted s out) out) ∧
      holds ((w.pushAll (steps.map (first + ·))).2.foldl (fun out s => evicted s out) out) ∧
      Fitting (w.pushAll (steps.map (first + ·))).1 ∧
      (slot = w.place (w.span - 1) ∨ steps ≠ [] →
        last = (w.pushAll (steps.map (first + ·))).1.place ((w.pushAll (steps.map (first + ·))).1.span - 1)) := by
  induction steps generalizing w out slot with
  | nil => exact ⟨slot, rfl, start, fit, fun here => here.resolve_right fun none => none rfl⟩
  | cons i steps ih =>
      have number := numbers i (List.mem_cons_self ..)
      have small : Limits.blockIndex < 2 ^ 64 := by decide
      obtain ⟨pushed, kept⟩ := push_of fit evicts start (first + i)
      obtain ⟨last, rest, held, fitting, place⟩ := ih (fit.push number)
        (evicts.of_alike (Window.alike_push w (first + i))) kept
        (fun j hj => numbers j (List.mem_cons_of_mem _ hj)) (w.roomy.place w.roomy.span)
      have opened : w.roomy.place w.roomy.span =
          (w.push (first + i)).1.place ((w.push (first + i)).1.span - 1) := by
        rw [Window.push_eq]
        simp only [Window.place, Window.capacity, Window.modify, Array.size_modify, Nat.add_sub_cancel]
      simp only [List.map_cons, Window.pushAll, List.foldl_append]
      refine ⟨last, ?_, held, fitting, fun _ => place (.inl opened)⟩
      rw [List.foldlM_cons]
      exact step (step (add_eq (show first + i < 2 ^ 64 by omega)) pushed) rest

theorem entering_of (fit : Fitting w) (index : Nat) :
    (∃ last, w.last = some last ∧ index ≤ last ∧ (of w).entering index = some none) ∨
      (∀ last, w.last = some last → last < index) ∧
        ∃ count, 0 < count ∧ count ≤ index + 1 ∧ (of w).entering index = some (some count) ∧
          w.entering index = List.range' (index + 1 - count) count := by
  have positive := Nat.zero_lt_of_lt fit.wellformed.front_lt
  unfold entering Window.entering
  cases seen : w.last with
  | none =>
      have same : (of w).last = none := seen
      right
      exact ⟨nofun, 1, Nat.one_pos, Nat.le_add_left .., by rw [same], rfl⟩
  | some last =>
      have same : (of w).last = some last := seen
      by_cases late : index ≤ last
      · refine .inl ⟨last, rfl, late, ?_⟩
        simp only [same, if_pos late]
      · right
        refine ⟨fun l hl => (by cases hl; omega), min (index - last) w.capacity, by omega, by omega, ?_, rfl⟩
        simp only [same, if_neg late]
        apply step (sub_eq (Nat.le_of_not_le late))
        rw [length_blocks]
        rfl

theorem acquire_of (fit : Fitting w) (evicts : Evicts w evict evicted holds) {out : σ} (start : holds out)
    {index : Nat} (le : index ≤ Limits.blockIndex) :
    acquire evict (of w) index out = some ((w.acquire index).slot, of (w.acquire index).window,
        (w.acquire index).evicted.foldl (fun out s => evicted s out) out) ∧
      holds ((w.acquire index).evicted.foldl (fun out s => evicted s out) out) ∧
      Fitting (w.acquire index).window := by
  have found := find_of fit index
  cases known : w.find? index with
  | some p =>
      rw [Window.acquire_found known]
      rw [known] at found
      exact ⟨step found rfl, start, fit⟩
  | none =>
      rw [known] at found
      obtain ⟨last, seen, late, entering⟩ | ⟨above, count, positive, few, entering, row⟩ :=
        entering_of fit index
      · rw [Window.acquire_late known seen late]
        exact ⟨step found (step entering rfl), start, fit⟩
      · have numbers : ∀ i ∈ List.range count, index + 1 - count + i ≤ Limits.blockIndex := by
          intro i hi
          have hi := List.mem_range.mp hi
          omega
        obtain ⟨slot, pushed, held, fitting, place⟩ :=
          pushAll_of (List.range count) fit evicts start numbers w.front
        have some : List.range count ≠ [] := by
          rw [Ne, List.range_eq_nil]
          omega
        rw [place (.inr some)] at pushed
        rw [← List.range'_eq_map_range, ← row] at pushed held fitting
        rw [Window.acquire_new known above]
        refine ⟨step found (step entering ?_), held, ?_⟩
        · apply step (sub_eq positive)
          apply step (sub_eq (show count - 1 ≤ index by omega))
          rw [show index - (count - 1) = index + 1 - count by omega]
          exact step pushed rfl
        · exact
            { fitting with
              wellformed := ⟨fitting.wellformed.front_lt, fitting.wellformed.span_le,
                fitting.wellformed.front_open, fitting.wellformed.outside⟩
              lastNumbered := fun last here => by cases here; exact le }

end

end Ring

end AirLink.Checked
