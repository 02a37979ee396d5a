import AirLink.Proofs.Recovery
import AirLink.Proofs.Window

/-! # Filling and emptying one block

A block in the window counts what has been stored in it, and everything in front of its cursor has
left.  Storing a fragment and emptying the block keep both true.  What leaves on one occasion is
always a run of fragments without a hole, from the cursor on.
-/

namespace AirLink.Slot

variable {s : Slot} {code : ErasureCode} {size block : Nat}

theorem lengthOf_store {i : Nat} (hi : i < s.cells.length) (bs : Bytes) (j : Nat) :
    (s.store i bs).lengthOf j = if j = i then bs.length else s.lengthOf j := by
  by_cases same : j = i
  · subst same
    simp [store, lengthOf, hi]
  · simp [store, lengthOf, same, Ne.symm same]

theorem has_store {i : Nat} (hi : i < s.cells.length) {bs : Bytes} (filled : 0 < bs.length) (j : Nat) :
    (s.store i bs).has j = (decide (j = i) || s.has j) := by
  rw [has, lengthOf_store hi]
  by_cases same : j = i
  · simp [same, filled]
  · simp [same, has]

theorem bufferOf_store_ne {i j : Nat} (other : j ≠ i) (bs : Bytes) :
    (s.store i bs).bufferOf j = s.bufferOf j := by
  simp [store, bufferOf, Ne.symm other]

theorem Shaped.length_bufferOf {count : Nat} (h : s.Shaped size count) {i : Nat} (hi : i < count) :
    (s.bufferOf i).length = size := by
  have inside : i < s.cells.length := h.length.symm ▸ hi
  simpa [bufferOf, inside] using h.buffers _ (List.getElem_mem inside)

theorem Shaped.bufferOf_store {count : Nat} (h : s.Shaped size count) {i : Nat} (hi : i < count)
    (bs : Bytes) : (s.store i bs).bufferOf i = Bytes.fit size bs := by
  have inside : i < s.cells.length := h.length.symm ▸ hi
  simp [store, bufferOf, inside, h.buffers _ (List.getElem_mem inside)]

theorem Shaped.store {count : Nat} (h : s.Shaped size count) (i : Nat) (bs : Bytes) :
    (s.store i bs).Shaped size count where
  length := by simp [Slot.store, h.length]
  buffers c hc := by
    obtain ⟨j, hj, rfl⟩ := List.mem_iff_getElem.mp hc
    simp only [Slot.store, List.length_modify] at hj
    have old := h.buffers _ (List.getElem_mem hj)
    by_cases same : i = j
    · subst same
      simpa [Slot.store, Bytes.length_fit] using old
    · simpa [Slot.store, List.getElem_modify, same] using old

/-- Marking one more member of a list marks one more. -/
theorem length_filter_mark {l : List Nat} (nodup : l.Nodup) {i : Nat} (member : i ∈ l)
    {f : Nat → Bool} (new : f i = false) :
    (l.filter fun j => decide (j = i) || f j).length = (l.filter f).length + 1 := by
  have same : (l.filter fun j => decide (j = i) || f j).Perm (i :: l.filter f) := by
    rw [List.perm_ext_iff_of_nodup (nodup.filter _)
      (List.nodup_cons.mpr ⟨by simp [new], nodup.filter _⟩)]
    intro j
    by_cases h : j = i
    · simp [h, member]
    · simp [h]
  simpa using same.length_eq

/-- The slot holds a block of the code of which some fragments have left. -/
structure Holding (code : ErasureCode) (size block : Nat) (s : Slot) : Prop where
  shaped : s.Shaped size code.n
  index : s.index = some block
  used : s.used = ((List.range code.n).filter s.has).length
  fits : ∀ i, s.lengthOf i ≤ size
  cursor_le : s.cursor ≤ code.k
  passed : ∀ i < s.cursor, s.has i = true

theorem Fresh.holding (h : s.Fresh size code.n block) : s.Holding code size block where
  shaped := h.shaped
  index := h.index
  used := by
    rw [h.used, List.filter_eq_nil_iff.mpr fun i _ => by simp [h.not_has i]]
    rfl
  fits i := by
    have empty := h.not_has i
    simp only [has, decide_eq_false_iff_not, Nat.not_lt, Nat.le_zero] at empty
    omega
  cursor_le := by simp [h.cursor]
  passed i hi := by simp [h.cursor] at hi

/-- A fragment that a block of `count` fragments with `size` bytes has room for. -/
structure Suits (size count i : Nat) (bs : Bytes) : Prop where
  lt : i < count
  filled : 0 < bs.length
  fits : bs.length ≤ size

theorem Holding.store (h : s.Holding code size block) {i : Nat} {bs : Bytes}
    (suits : Suits size code.n i bs) (new : s.has i = false) :
    (s.store i bs).Holding code size block := by
  have inside : i < s.cells.length := h.shaped.length.symm ▸ suits.lt
  have filled := suits.filled
  refine ⟨h.shaped.store i bs, h.index, ?_, ?_, h.cursor_le, ?_⟩
  · have one := length_filter_mark List.nodup_range (List.mem_range.mpr suits.lt) new
    rw [← h.used] at one
    rw [List.filter_congr fun j _ => has_store inside filled j, one]
    rfl
  · intro j
    rw [lengthOf_store inside]
    split
    · exact suits.fits
    · exact h.fits j
  · intro j hj
    rw [has_store inside filled, h.passed j hj, Bool.or_true]

@[simp]
theorem has_drain (k : Nat) (mode : Mode) (i : Nat) : (s.drain k mode).1.has i = s.has i := rfl

@[simp]
theorem bufferOf_drain (k : Nat) (mode : Mode) (i : Nat) :
    (s.drain k mode).1.bufferOf i = s.bufferOf i := rfl

theorem due_eq (k : Nat) (s : Slot) : s.due k = List.range' s.cursor (k - s.cursor) := by
  simp [due, List.range_eq_range', List.drop_range']

/-- What leaves is a run from the cursor on. -/
theorem leaving_eq (k : Nat) (mode : Mode) (s : Slot) :
    s.leaving k mode = List.range' s.cursor (s.leaving k mode).length := by
  have front : s.leaving k mode <+: s.due k := by
    cases mode with
    | cutThrough => exact List.takeWhile_prefix _
    | stale => exact List.prefix_refl _
    | rebuilt => exact List.prefix_refl _
  have short := front.length_le
  have taken := List.prefix_iff_eq_take.mp front
  simp only [due_eq, List.length_range'] at short taken
  rwa [List.take_range'_of_length_ge short] at taken

theorem cursor_drain_le {k : Nat} (h : s.cursor ≤ k) (mode : Mode) : (s.drain k mode).1.cursor ≤ k := by
  have front : (s.leaving k mode).length ≤ (s.due k).length := by
    cases mode with
    | cutThrough => exact (List.takeWhile_prefix _).length_le
    | stale => exact le_refl _
    | rebuilt => exact le_refl _
  simp only [due_eq, List.length_range'] at front
  change s.cursor + (s.leaving k mode).length ≤ k
  omega

theorem cursor_drain_all {k : Nat} (h : s.cursor ≤ k) {mode : Mode} (all : mode ≠ .cutThrough) :
    (s.drain k mode).1.cursor = k := by
  have everything : s.leaving k mode = s.due k := by
    cases mode with
    | cutThrough => exact absurd rfl all
    | stale => rfl
    | rebuilt => rfl
  change s.cursor + (s.leaving k mode).length = k
  rw [everything, due_eq, List.length_range']
  omega

theorem emissions_drain (h : s.index = some block) (k : Nat) (mode : Mode) :
    (s.drain k mode).2 = (s.leaving k mode).map (s.departure mode block) := by
  simp [drain, h]

theorem Fresh.drain_stale {count : Nat} (h : s.Fresh size count block) (k : Nat) :
    (s.drain k .stale).2 = (List.range k).map (Emission.lost block) := by
  rw [emissions_drain h.index]
  simp [leaving, due, h.cursor, departure, h.not_has]

theorem range_drain (k : Nat) (mode : Mode) (s : Slot) :
    List.range (s.drain k mode).1.cursor = List.range s.cursor ++ s.leaving k mode := by
  have glued := @List.range'_append_1 0 s.cursor (s.leaving k mode).length
  rw [Nat.zero_add, ← leaving_eq, ← List.range_eq_range', ← List.range_eq_range'] at glued
  exact glued.symm

/-- After as much as possible has left, the cursor is at the first gap. -/
theorem Holding.prefix_drain (h : s.Holding code size block) :
    (List.range code.k).takeWhile s.has =
      List.range (s.drain code.k .cutThrough).1.cursor := by
  have whole := range_drain code.k .stale s
  rw [cursor_drain_all h.cursor_le (by simp)] at whole
  rw [range_drain, whole, List.takeWhile_append_of_pos fun i hi => h.passed i (List.mem_range.mp hi)]
  rfl

theorem Holding.drain (h : s.Holding code size block) :
    (s.drain code.k .cutThrough).1.Holding code size block where
  shaped := ⟨h.shaped.length, h.shaped.buffers⟩
  index := h.index
  used := h.used
  fits := h.fits
  cursor_le := cursor_drain_le h.cursor_le _
  passed i hi := by
    have member := List.mem_range.mpr hi
    rw [← h.prefix_drain] at member
    exact List.mem_takeWhile_imp member

end AirLink.Slot
