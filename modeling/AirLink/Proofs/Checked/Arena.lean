import AirLink.Proofs.Checked.Rebuild
import AirLink.Proofs.Storage

/-! # The memory of a window

All buffers of a window lie in one stretch of memory, slot by slot and fragment by fragment, and only
storing writes to it.  Where a buffer begins is worked out anew each time.  The addresses never leave the
memory, and no two buffers share a byte: what is read from a buffer is what was last stored in it, with
zeros behind, whatever has been done with the others.
-/

namespace AirLink.Checked

open Window (Op)

/-- The buffers of all fragments, with the room for one of them and their number in a slot. -/
structure Arena where
  memory : Bytes
  size : Nat
  count : Nat

namespace Arena

/-- The memory for so many slots, filled with zeros. -/
def create (slots size count : Nat) : Option Arena := do
  let block ← mul size count
  let total ← mul block slots
  return ⟨Bytes.zeros total, size, count⟩

/-- Where the bytes of a slot begin and end. -/
def bounds (a : Arena) (place : Nat) : Option (Nat × Nat) := do
  let block ← mul a.size a.count
  let start ← mul place block
  let stop ← add start block
  return (start, stop)

/-- The buffers of a slot, one after the other. -/
def block (a : Arena) (place : Nat) : Option Bytes := do
  let (start, stop) ← a.bounds place
  slice a.memory start stop

def fragment (a : Arena) (place i : Nat) : Option Bytes := do
  let data ← a.block place
  let start ← mul i a.size
  let stop ← add start a.size
  slice data start stop

/-- The buffers of a slot, apart; they cannot have no size. -/
def fragments (a : Arena) (place : Nat) : Option (List Bytes) := do
  let data ← a.block place
  if a.size = 0 then none else some (Bytes.chunks a.size data)

/-- Overwrites a buffer and fills the rest of it with zeros. -/
def store (a : Arena) (place i : Nat) (bs : Bytes) : Option Arena := do
  let (first, last) ← a.bounds place
  let data ← slice a.memory first last
  let start ← mul i a.size
  let stop ← add start a.size
  let buffer ← slice data start stop
  let buffer ← View.fill buffer bs
  let data ← blit data start stop buffer
  let memory ← blit a.memory first last data
  return { a with memory }

/-- Working on a slot looks up its buffers, even where none is written. -/
def perform (a : Arena) : Op → Option Arena
  | .store place i bs => a.store place i bs
  | .advance place => (a.block place).map fun _ => a
  | .acquire _ | .free _ => some a

def performAll (a : Arena) (ops : List Op) : Option Arena := ops.foldlM perform a

def of (w : Window) : Arena := ⟨(w.slots.toList.map dataOf).flatten, w.fragmentSize, w.fragmentCount⟩

/-- What the addresses rely on: the slots have their sizes, which are not zero, and all memory together
has an address. -/
structure Roomy (w : Window) : Prop where
  shaped : w.Shaped
  sized : 0 < w.fragmentSize
  room : w.fragmentSize * w.fragmentCount * w.capacity ≤ Limits.memory

variable {w : Window} {p i : Nat}

theorem bounds_of (roomy : Roomy w) (hp : p < w.capacity) :
    (of w).bounds p = some (p * (w.fragmentSize * w.fragmentCount),
      p * (w.fragmentSize * w.fragmentCount) + w.fragmentSize * w.fragmentCount) := by
  obtain ⟨length, inside⟩ := Ring.block_room roomy.room hp
  apply step (mul_eq (show w.fragmentSize * w.fragmentCount < 2 ^ 64 by omega))
  apply step (mul_eq (show p * (w.fragmentSize * w.fragmentCount) < 2 ^ 64 by omega))
  exact step (add_eq (show _ < 2 ^ 64 by omega)) rfl

theorem slice_of (roomy : Roomy w) (hp : p < w.capacity) :
    slice (of w).memory (p * (w.fragmentSize * w.fragmentCount))
      (p * (w.fragmentSize * w.fragmentCount) + w.fragmentSize * w.fragmentCount) =
        some (dataOf (w.slotAt p)) := by
  have count : p < (w.slots.toList.map dataOf).length := by rwa [List.length_map]
  rw [of, slice_flatten (Ring.length_of_mem_data roomy.shaped) count, List.getElem_map, Ring.getElem_slots]

theorem block_of (roomy : Roomy w) (hp : p < w.capacity) : (of w).block p = some (dataOf (w.slotAt p)) :=
  step (bounds_of roomy hp) (slice_of roomy hp)

theorem fragment_lt (roomy : Roomy w) (hp : p < w.capacity) (hi : i < w.fragmentCount) :
    i * w.fragmentSize + w.fragmentSize < 2 ^ 63 := by
  obtain ⟨length, -⟩ := Ring.block_room roomy.room hp
  have inside : (i + 1) * w.fragmentSize ≤ w.fragmentCount * w.fragmentSize := Nat.mul_le_mul_right _ hi
  rw [Nat.succ_mul, Nat.mul_comm w.fragmentCount] at inside
  omega

theorem fragment_of (roomy : Roomy w) (hp : p < w.capacity) (hi : i < w.fragmentCount) :
    (of w).fragment p i = some ((w.slotAt p).bufferOf i) := by
  have formed := roomy.shaped p hp
  have small := fragment_lt roomy hp hi
  have inside : i < ((w.slotAt p).cells.map Cell.buffer).length := by rwa [List.length_map, formed.length]
  apply step (block_of roomy hp)
  apply step (mul_eq (show i * w.fragmentSize < 2 ^ 64 by omega))
  apply step (add_eq (show i * w.fragmentSize + w.fragmentSize < 2 ^ 64 by omega))
  rw [dataOf]
  exact (slice_flatten (length_of_mem_buffers formed) inside).trans (congrArg some (getElem_buffers inside))

theorem fragments_of (roomy : Roomy w) (hp : p < w.capacity) :
    (of w).fragments p = some ((w.slotAt p).cells.map Cell.buffer) := by
  apply step (block_of roomy hp)
  refine (if_neg (Nat.ne_of_gt roomy.sized)).trans ?_
  exact congrArg some (View.chunks_flatten (length_of_mem_buffers (roomy.shaped p hp)) roomy.sized)

/-- Storing replaces one of the buffers. -/
theorem buffers_store {s : Slot} {size count : Nat} (formed : s.Shaped size count) (hi : i < count) (bs : Bytes) :
    (s.store i bs).cells.map Cell.buffer = (s.cells.map Cell.buffer).set i (Bytes.fit size bs) := by
  have inside : i < s.cells.length := formed.length.symm ▸ hi
  have here := formed.buffers _ (List.getElem_mem inside)
  rw [Slot.store, List.modify_eq_set_get _ inside, List.map_set, List.get_eq_getElem, here]

theorem store_of (roomy : Roomy w) (hp : p < w.capacity) (hi : i < w.fragmentCount) {bs : Bytes}
    (fits : bs.length ≤ w.fragmentSize) :
    (of w).store p i bs = some (of (w.modify p (·.store i bs))) := by
  have formed := roomy.shaped p hp
  have small := fragment_lt roomy hp hi
  have slots : p < (w.slots.toList.map dataOf).length := by rwa [List.length_map]
  have buffers : i < ((w.slotAt p).cells.map Cell.buffer).length := by rwa [List.length_map, formed.length]
  have lengths := length_of_mem_buffers formed
  have length : ((w.slotAt p).cells.map Cell.buffer)[i].length = w.fragmentSize :=
    lengths _ (List.getElem_mem buffers)
  apply step (bounds_of roomy hp)
  apply step (slice_of roomy hp)
  apply step (mul_eq (show i * w.fragmentSize < 2 ^ 64 by omega))
  apply step (add_eq (show i * w.fragmentSize + w.fragmentSize < 2 ^ 64 by omega))
  apply step (slice_flatten lengths buffers)
  apply step (View.fill_eq (length.symm ▸ fits))
  rw [length]
  apply step (blit_flatten lengths buffers (Bytes.length_fit ..))
  rw [← buffers_store formed hi]
  apply step (blit_flatten (Ring.length_of_mem_data roomy.shaped) slots
    (Ring.length_dataOf (formed.store i bs)))
  rw [of, of, Ring.slots_modify hp, List.map_set]
  rfl

/-- As long as the slots keep their bytes, the memory stays the same. -/
theorem of_congr {v : Window} (alike : Window.Alike v w)
    (same : ∀ p < w.capacity, dataOf (v.slotAt p) = dataOf (w.slotAt p)) : of v = of w := by
  have slots : v.slots.toList.map dataOf = w.slots.toList.map dataOf := by
    apply List.ext_getElem
    · rw [List.length_map, List.length_map]
      exact alike.capacity
    · intro p _ hp
      rw [List.length_map] at hp
      rw [List.getElem_map, List.getElem_map, Ring.getElem_slots, Ring.getElem_slots]
      exact same p hp
  rw [of, of, slots, alike.fragmentSize, alike.fragmentCount]

variable {slots : Nat} {op : Op}

/-- What is done with a window is done with its memory. -/
theorem perform_of (h : w.Regular slots) (roomy : Roomy w)
    (fits : op.Fits slots w.fragmentSize w.fragmentCount) : (of w).perform op = some (of (w.perform op)) := by
  have unwritten (other : ∀ p i bytes, op ≠ .store p i bytes) : of (w.perform op) = of w := by
    refine of_congr (w.alike_perform op) fun p hp => ?_
    rw [dataOf, h.cells_perform roomy.shaped (h.capacity ▸ hp) (other p)]
    split
    · rw [List.map_map]
      rfl
    · rfl
  cases op with
  | acquire | free => exact congrArg some (unwritten fun _ _ _ same => by cases same).symm
  | store q i bs =>
      obtain ⟨place, inside, short⟩ := fits
      exact store_of roomy (h.capacity.symm ▸ place) inside short
  | advance q =>
      rw [unwritten (fun _ _ _ same => by cases same), perform, block_of roomy (h.capacity.symm ▸ fits)]
      rfl

theorem Roomy.of_alike {v : Window} (roomy : Roomy w) (alike : Window.Alike v w) (shaped : v.Shaped) : Roomy v where
  shaped := shaped
  sized := alike.fragmentSize.symm ▸ roomy.sized
  room := by
    rw [alike.fragmentSize, alike.fragmentCount, alike.capacity]
    exact roomy.room

theorem performAll_of (h : w.Regular slots) (roomy : Roomy w) {ops : List Op}
    (fits : ∀ op ∈ ops, op.Fits slots w.fragmentSize w.fragmentCount) :
    (of w).performAll ops = some (of (w.performAll ops)) := by
  induction ops generalizing w with
  | nil => rfl
  | cons op ops ih =>
      have alike := w.alike_perform op
      have next := perform_of h roomy (fits op (List.mem_cons_self ..))
      obtain ⟨regular, shaped⟩ := h.perform_any roomy.shaped op
      have rest := ih regular (roomy.of_alike alike shaped) fun later member => by
        rw [alike.fragmentSize, alike.fragmentCount]
        exact fits later (List.mem_cons_of_mem _ member)
      rw [performAll, List.foldlM_cons]
      exact step next rest

/-- A new window has the memory for its slots. -/
theorem create_of {size count : Nat} {new : Window} (created : Window.create slots size count = .ok new) :
    create slots size count = some (of new) ∧ Roomy new := by
  have shaped := (Window.create_regular created).2
  unfold Window.create at created
  split_ifs at created with empty large
  cases created
  have room := Nat.le_of_not_lt large
  have memory : Limits.memory < 2 ^ 63 := by decide
  have positive : 0 < slots := by omega
  have block : size * count ≤ size * count * slots := Nat.le_mul_of_pos_right _ positive
  have blank : dataOf (Slot.blank size count) = Bytes.zeros (size * count) := by
    rw [dataOf, Slot.blank, List.map_replicate, Bytes.zeros, List.flatten_replicate_replicate, Nat.mul_comm]
    rfl
  have zeros : (List.replicate slots (dataOf (Slot.blank size count))).flatten =
      Bytes.zeros (size * count * slots) := by
    rw [blank, Bytes.zeros, List.flatten_replicate_replicate, Nat.mul_comm]
    rfl
  refine ⟨?_, shaped, show 0 < size by omega, ?_⟩
  · apply step (mul_eq (show size * count < 2 ^ 64 by omega))
    apply step (mul_eq (show size * count * slots < 2 ^ 64 by omega))
    rw [of, Array.toList_replicate, List.map_replicate, zeros]
    rfl
  · simpa [Window.capacity] using room

theorem length_lastStored {size count : Nat} {ops : List Op} (fits : ∀ op ∈ ops, op.Fits slots size count) :
    ((Window.lastStored p i ops).getD []).length ≤ size := by
  cases last : Window.lastStored p i ops with
  | none => exact Nat.zero_le _
  | some bs =>
      obtain ⟨op, member, stored⟩ := List.mem_filterMap.mp (List.mem_of_getLast? last)
      have fit := fits op member
      cases op with
      | store place fragment bytes =>
          rw [Op.storedAt] at stored
          split at stored <;> cases stored
          exact fit.2.2
      | acquire | free | advance => cases stored

/-- Whatever is done with a window, within its measures: all addresses are those of its memory; each
buffer holds what was last stored in it, with zeros behind, or zeros alone if nothing was; as much of it
counts as has been stored since its slot was opened; and taking the buffers of a slot apart gives all of
them in their order. -/
theorem buffers_independent {slots size count : Nat} {new : Window}
    (created : Window.create slots size count = .ok new) {ops : List Op}
    (fits : ∀ op ∈ ops, op.Fits slots size count) :
    ∃ start arena, create slots size count = some start ∧ start.performAll ops = some arena ∧
      ∀ p < slots,
        (∀ i < count,
          let stored := (Window.lastStored p i ops).getD []
          let recent := (Window.lastStored p i (Window.sinceOpened p new ops)).getD []
          arena.fragment p i = some (stored ++ Bytes.zeros (size - stored.length)) ∧
          ((new.performAll ops).slotAt p).bufferOf i = stored ++ Bytes.zeros (size - stored.length) ∧
          ((new.performAll ops).slotAt p).lengthOf i = recent.length) ∧
        ∃ buffers, arena.fragments p = some buffers ∧ buffers.length = count ∧
          ∀ i < count, ∃ buffer, buffers[i]? = some buffer ∧ buffer.length = size ∧
            arena.fragment p i = some buffer := by
  have empty := Window.create_ok created
  obtain ⟨regular, shaped⟩ := Window.create_regular created
  obtain ⟨start, roomy⟩ := create_of created
  have alike := new.alike_performAll ops
  have width := alike.fragmentSize.trans empty.fragmentSize
  have many := alike.fragmentCount.trans empty.fragmentCount
  have done := performAll_of regular roomy (by rwa [empty.fragmentSize, empty.fragmentCount])
  have reached := roomy.of_alike alike (regular.performAll_any shaped ops).2
  have slot {p : Nat} (hp : p < slots) : p < (new.performAll ops).capacity := by
    rwa [alike.capacity, regular.capacity]
  refine ⟨of new, of (new.performAll ops), start, done, fun p hp => ⟨fun i hi => ?_, ?_⟩⟩
  · intro stored recent
    obtain ⟨buffer, length⟩ := Window.stored_performAll created ops hp hi
    have short : stored.length ≤ size := length_lastStored fits
    rw [Bytes.fit, List.take_of_length_le short] at buffer
    have read := fragment_of reached (slot hp) (many.symm ▸ hi)
    exact ⟨read.trans (congrArg some buffer), buffer, length⟩
  · have formed := reached.shaped p (slot hp)
    have buffers : (((new.performAll ops).slotAt p).cells.map Cell.buffer).length = count := by
      rw [List.length_map, formed.length, many]
    refine ⟨_, fragments_of reached (slot hp), buffers, fun i hi => ?_⟩
    have inside := hi.trans_eq buffers.symm
    refine ⟨_, List.getElem?_eq_getElem inside, ?_, ?_⟩
    · exact (length_of_mem_buffers formed _ (List.getElem_mem inside)).trans width
    · rw [getElem_buffers inside]
      exact fragment_of reached (slot hp) (many.symm ▸ hi)

/-- A slot is used for another block, and what is stored then is shorter. -/
theorem buffers_independent_reused :
    ∃ new start arena, Window.create 2 3 2 = .ok new ∧ create 2 3 2 = some start ∧
      let ops := [Op.acquire 4, .store 0 0 [5, 5, 5], .store 0 1 [7, 8, 9], .free 0, .acquire 5, .acquire 6,
        .store 0 0 [1]]
      start.performAll ops = some arena ∧ arena.fragment 0 0 = some [1, 0, 0] ∧
      arena.fragment 0 1 = some [7, 8, 9] ∧ arena.fragment 1 1 = some [0, 0, 0] ∧
      ((new.performAll ops).slotAt 0).lengthOf 0 = 1 ∧ ((new.performAll ops).slotAt 0).lengthOf 1 = 0 := by
  let ops := [Op.acquire 4, .store 0 0 [5, 5, 5], .store 0 1 [7, 8, 9], .free 0, .acquire 5, .acquire 6,
    .store 0 0 [1]]
  have fits : ∀ op ∈ ops, op.Fits 2 3 2 := by simp [ops, Op.Fits]
  obtain ⟨new, created⟩ : ∃ new, Window.create 2 3 2 = .ok new := ⟨_, rfl⟩
  obtain ⟨start, arena, begins, done, buffers⟩ := buffers_independent created fits
  have again := (buffers 0 (by decide)).1 0 (by decide)
  have before := (buffers 0 (by decide)).1 1 (by decide)
  have never := (buffers 1 (by decide)).1 1 (by decide)
  have since : Window.sinceOpened 0 new ops = [.acquire 6, .store 0 0 [1]] := by
    cases created
    decide
  rw [since] at again before
  exact ⟨new, start, arena, created, begins, done, again.1, before.1, never.1, again.2.2, before.2.2⟩

end Arena

end AirLink.Checked
