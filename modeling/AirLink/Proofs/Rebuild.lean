import AirLink.Proofs.Departure
import AirLink.Transmitter

/-! # Filling the gaps of a block

With `k` fragments stored, a block has the shares that decoding asks for, so its gaps are always
filled.  If what is stored are shares of some data, they are filled with the data.
-/

namespace AirLink

namespace ErasureCode

open Shares
open Transmitter (longest)

variable {code : ErasureCode}

theorem foldl_max_le {l : List Nat} {bound start : Nat} (hs : start ≤ bound) (h : ∀ x ∈ l, x ≤ bound) :
    l.foldl max start ≤ bound := by
  induction l generalizing start with
  | nil => exact hs
  | cons x l ih =>
      exact ih (max_le hs (h x (List.mem_cons_self ..))) fun y hy => h y (List.mem_cons_of_mem _ hy)

theorem le_foldl_max {l : List Nat} {start x : Nat} (h : x ≤ start ∨ x ∈ l) :
    x ≤ l.foldl max start := by
  induction l generalizing start with
  | nil => simpa using h
  | cons y l ih =>
      rcases h with h | h
      · exact ih (.inl (h.trans (le_max_left ..)))
      · rcases List.mem_cons.mp h with rfl | h
        · exact ih (.inl (le_max_right ..))
        · exact ih (.inr h)

/-- The fragments of a block with the given data, as they are sealed. -/
def plainShare (code : ErasureCode) (data : List Bytes) (i : Nat) : Bytes :=
  if i < code.k then data.getD i [] else code.share (longest data) data i

theorem length_le_longest {data : List Bytes} (i : Nat) : (data.getD i []).length ≤ longest data := by
  by_cases hi : i < data.length
  · rw [List.getD_eq_getElem _ _ hi]
    exact le_foldl_max (.inr (List.mem_map_of_mem (List.getElem_mem hi)))
  · simp [hi]

theorem length_plainShare_le (code : ErasureCode) (data : List Bytes) (i : Nat) :
    (plainShare code data i).length ≤ longest data := by
  unfold plainShare
  split
  · exact length_le_longest i
  · rw [length_share]

theorem take_fit {n m : Nat} (le : n ≤ m) (bs : Bytes) : (Bytes.fit m bs).take n = Bytes.fit n bs := by
  simp only [Bytes.fit, Bytes.zeros, List.take_append, List.take_take, List.take_replicate,
    List.length_take, Nat.min_eq_left le]
  congr 2
  omega

theorem fit_plainShare {data : List Bytes} (length : data.length = code.k) (i : Nat) :
    Bytes.fit (longest data) (plainShare code data i) = code.share (longest data) data i := by
  unfold plainShare
  split
  next hi => exact (share_data length hi).symm
  next =>
    have size : (code.share (longest data) data i).length = longest data := length_share ..
    rw [Bytes.fit_eq_take size.ge, List.take_of_length_le size.le]

section choice

variable {present : Nat → Bool} {data : List Bytes} (sound : Sound code)
  (count : ((List.range code.n).filter present).length = code.k)

include sound count

/-- The longest of the shares is a parity share if any data share is missing. -/
theorem longest_choice {lengthOf : Nat → Nat}
    (lengths : ∀ i < code.n, present i = true → lengthOf i = (plainShare code data i).length)
    (gap : (List.range code.k).filter (!present ·) ≠ []) :
    ((choice code.k code.n present).map lengthOf).foldl max 0 = longest data := by
  have arranged := arranged_choice sound count
  have here {i : Nat} (hi : i ∈ choice code.k code.n present) := mem_choice sound count hi
  apply Nat.le_antisymm
  · refine foldl_max_le (Nat.zero_le _) ?_
    intro _ hx
    obtain ⟨i, hi, rfl⟩ := List.mem_map.mp hx
    rw [lengths i (here hi).2 (here hi).1]
    exact length_plainShare_le ..
  · obtain ⟨i, hi⟩ := List.exists_mem_of_ne_nil _ gap
    obtain ⟨place, absent⟩ := List.mem_filter.mp hi
    have place := List.mem_range.mp place
    have parity := getD_choice sound count place
    rw [if_neg (by simpa using absent)] at parity
    have inside : i < (choice code.k code.n present).length := by
      rw [arranged.length]
      exact place
    rw [List.getD_eq_getElem _ _ inside] at parity
    have member := List.getElem_mem inside
    refine le_foldl_max (.inr (List.mem_map.mpr ⟨_, member, ?_⟩))
    rw [lengths _ (here member).2 (here member).1, plainShare, if_neg (by omega), length_share]

/-- The missing shares of some data are decoded to the data. -/
theorem decode_choice (length : data.length = code.k) {room : Nat} (le : longest data ≤ room)
    {contents : Nat → Bytes} (holds : ∀ i < code.n, present i = true →
      contents i = Bytes.fit room (plainShare code data i)) {buffers : List Bytes}
    (many : buffers.length = ((List.range code.k).filter (!present ·)).length)
    (wide : ∀ b ∈ buffers, longest data ≤ b.length) :
    code.decode ((choice code.k code.n present).map contents) (choice code.k code.n present) buffers
        (longest data) =
      .ok (List.zipWith (fun i => Bytes.overlay (Bytes.fit (longest data) (data.getD i [])))
        ((List.range code.k).filter (!present ·)) buffers) := by
  have arranged := arranged_choice sound count
  have missing := missing_choice sound count
  have filled : ∀ b ∈ (choice code.k code.n present).map contents, longest data ≤ b.length := by
    intro b hb
    obtain ⟨i, hi, rfl⟩ := List.mem_map.mp hb
    have here := mem_choice sound count hi
    rwa [holds i here.2 here.1, Bytes.length_fit]
  rw [← missing, List.length_map] at many
  rw [decode_share sound arranged length (by simpa using arranged.length) filled ?_ many wide,
    ← missing, List.zipWith_map_left]
  intro i hi
  have inside : i < (choice code.k code.n present).length := by
    rw [arranged.length]
    exact hi
  have here := mem_choice sound count (List.getElem_mem inside)
  rw [List.getD_eq_getElem _ _ (by simpa using inside), List.getElem_map,
    List.getD_eq_getElem _ _ inside, holds _ here.2 here.1, take_fit le]
  exact fit_plainShare length _

end choice

end ErasureCode

namespace Slot

open ErasureCode Shares
open Transmitter (longest)

variable {s : Slot} {code : ErasureCode} {size block : Nat}

/-- Enough parity shares: each place gets a share. -/
theorem choose_eq {places spare : List Nat}
    (enough : (places.filter (!s.has ·)).length ≤ spare.length) :
    s.choose places spare = some (fillIn s.has places spare) := by
  fun_induction fillIn s.has places spare with
  | case1 => rfl
  | case2 i places spare hi ih =>
      rw [choose.eq_def]
      simp only [if_pos hi, ih (by simpa [hi] using enough)]
      rfl
  | case3 i places hi => simp [hi] at enough
  | case4 i places hi p spare ih =>
      rw [choose.eq_def]
      simp only [if_neg hi, ih (by simpa [hi] using enough)]
      rfl

theorem lengthOf_modify_buffer (p : Nat) (buffer : Bytes) (i : Nat) :
    { s with cells := s.cells.modify p fun c => { c with buffer } }.lengthOf i = s.lengthOf i := by
  by_cases here : p = i
  · subst here
    cases cell : s.cells[p]? <;> simp [lengthOf, cell]
  · simp [lengthOf, here]

theorem refill_frame (places : List Nat) (buffers : List Bytes) :
    (s.refill places buffers).index = s.index ∧ (s.refill places buffers).cursor = s.cursor ∧
      ∀ i, (s.refill places buffers).lengthOf i = s.lengthOf i := by
  unfold refill
  generalize places.zip buffers = parts
  induction parts generalizing s with
  | nil => exact ⟨rfl, rfl, fun _ => rfl⟩
  | cons part parts ih =>
      obtain ⟨index, cursor, lengths⟩ :=
        @ih { s with cells := s.cells.modify part.1 fun c => { c with buffer := part.2 } }
      exact ⟨index, cursor, fun i => (lengths i).trans (lengthOf_modify_buffer ..)⟩

theorem has_refill (places : List Nat) (buffers : List Bytes) :
    (s.refill places buffers).has = s.has := by
  funext i
  rw [has, has, (refill_frame places buffers).2.2]

theorem bufferOf_refill_of_not_mem {places : List Nat} {i : Nat} (absent : i ∉ places)
    (buffers : List Bytes) : (s.refill places buffers).bufferOf i = s.bufferOf i := by
  induction places generalizing s buffers with
  | nil => rfl
  | cons p places ih =>
      cases buffers with
      | nil => rfl
      | cons b buffers =>
          rw [List.mem_cons, not_or] at absent
          refine (ih absent.2 buffers).trans ?_
          simp [bufferOf, Ne.symm absent.1]

theorem Shaped.refill {count : Nat} (h : s.Shaped size count) (places : List Nat)
    {buffers : List Bytes} (fits : ∀ b ∈ buffers, b.length = size) :
    (s.refill places buffers).Shaped size count := by
  induction places generalizing s buffers with
  | nil => exact h
  | cons p places ih =>
      cases buffers with
      | nil => exact h
      | cons b buffers =>
          refine ih ?_ fun c hc => fits c (List.mem_cons_of_mem _ hc)
          constructor
          · simpa using h.length
          · intro c hc
            obtain ⟨j, hj, rfl⟩ := List.mem_iff_getElem.mp hc
            rw [List.getElem_modify]
            split
            · exact fits b (List.mem_cons_self ..)
            · exact h.buffers _ (List.getElem_mem _)

/-- Each gap takes the buffer that is made for it. -/
theorem bufferOf_refill {places : List Nat} (nodup : places.Nodup)
    (inside : ∀ i ∈ places, i < s.cells.length) (content : Nat → Bytes) {i : Nat} (hi : i ∈ places) :
    (s.refill places (places.map content)).bufferOf i = content i := by
  induction places generalizing s with
  | nil => simp at hi
  | cons p places ih =>
      obtain ⟨fresh, nodup⟩ := List.nodup_cons.mp nodup
      by_cases first : i = p
      · subst first
        refine (bufferOf_refill_of_not_mem fresh _).trans ?_
        simp [bufferOf, inside i (List.mem_cons_self ..)]
      · refine ih nodup (fun j hj => ?_) (List.mem_of_ne_of_mem first hi)
        simpa using inside j (List.mem_cons_of_mem _ hj)

/-- The shares that a block with `k` fragments is rebuilt from. -/
abbrev chosen (code : ErasureCode) (s : Slot) : List Nat := choice code.k code.n s.has

abbrev chosenSize (code : ErasureCode) (s : Slot) : Nat :=
  ((s.chosen code).map s.lengthOf).foldl max 0

theorem Holding.chosenSize_le (h : s.Holding code size block) : s.chosenSize code ≤ size := by
  refine foldl_max_le (Nat.zero_le _) ?_
  simpa using fun i _ => h.fits i

theorem Holding.room_absent (sound : Sound code) (h : s.Holding code size block) :
    ∀ b ∈ (s.absent code.k).map s.bufferOf, s.chosenSize code ≤ b.length := by
  intro b hb
  obtain ⟨i, hi, rfl⟩ := List.mem_map.mp hb
  have data := List.mem_range.mp (List.mem_filter.mp hi).1
  rw [h.shaped.length_bufferOf (data.trans_le sound.le)]
  exact h.chosenSize_le

/-- What has been stored in the slot are fragments of one block with the given data. -/
def Carries (code : ErasureCode) (size : Nat) (data : List Bytes) (s : Slot) : Prop :=
  ∀ i < code.n, s.has i = true → s.lengthOf i = (plainShare code data i).length ∧
    s.bufferOf i = Bytes.fit size (plainShare code data i)

section full

variable (sound : Sound code) (h : s.Holding code size block) (full : s.used = code.k)

include h full

theorem Holding.count : ((List.range code.n).filter s.has).length = code.k := h.used.symm.trans full

include sound

theorem Holding.rebuild_eq : s.rebuild code =
    if (s.absent code.k).isEmpty then .ok (s, 0)
    else (code.decode ((s.chosen code).map s.bufferOf) (s.chosen code)
      ((s.absent code.k).map s.bufferOf) (s.chosenSize code)).map
        fun buffers => (s.refill (s.absent code.k) buffers, (s.absent code.k).length) := by
  have enough := (length_absent sound.le (Holding.count h full)).le
  have chosen : s.choose (List.range code.k) (s.parity code.k code.n) = some (s.chosen code) :=
    choose_eq enough
  simp only [rebuild, chosen]

theorem Holding.long_chosen : ∀ b ∈ (s.chosen code).map s.bufferOf, s.chosenSize code ≤ b.length := by
  have arranged := arranged_choice sound (Holding.count h full)
  intro b hb
  obtain ⟨i, hi, rfl⟩ := List.mem_map.mp hb
  rw [h.shaped.length_bufferOf (arranged.lt hi)]
  exact h.chosenSize_le

theorem Holding.length_missing : ((s.absent code.k).map s.bufferOf).length =
    (code.missing (s.chosen code)).length := by
  rw [List.length_map, absent, ← missing_choice sound (Holding.count h full), List.length_map]

/-- Decoding the shares of a block with `k` fragments never fails, and the buffers keep their size. -/
theorem Holding.decode_chosen : ∃ buffers, (∀ b ∈ buffers, b.length = size) ∧
    code.decode ((s.chosen code).map s.bufferOf) (s.chosen code) ((s.absent code.k).map s.bufferOf)
      (s.chosenSize code) = .ok buffers := by
  have arranged := arranged_choice sound (Holding.count h full)
  have room := h.room_absent sound
  obtain ⟨_, -, decoded⟩ := decode_ok sound arranged (by simpa using arranged.length)
    (h.long_chosen sound full) (h.length_missing sound full) room
  refine ⟨_, ?_, decoded⟩
  intro b hb
  obtain ⟨j, hj, rfl⟩ := List.mem_iff_getElem.mp hb
  rw [List.length_zipWith, Nat.lt_min] at hj
  have member := List.getElem_mem hj.2
  rw [List.getElem_zipWith, length_overlay (length_weightedSum ..) (room _ member)]
  obtain ⟨i, hi, same⟩ := List.mem_map.mp member
  have data := List.mem_range.mp (List.mem_filter.mp hi).1
  rw [← same, h.shaped.length_bufferOf (data.trans_le sound.le)]

/-- The gaps of a block with `k` fragments are filled, whatever has been stored. -/
theorem Holding.rebuild_ok : ∃ buffers, (∀ b ∈ buffers, b.length = size) ∧
    s.rebuild code = .ok (s.refill (s.absent code.k) buffers, (s.absent code.k).length) := by
  rw [h.rebuild_eq sound full]
  split
  next none =>
    rw [List.isEmpty_iff.mp none]
    exact ⟨[], by simp, rfl⟩
  next =>
    obtain ⟨buffers, sizes, decoded⟩ := h.decode_chosen sound full
    rw [decoded]
    exact ⟨buffers, sizes, rfl⟩

theorem Holding.chosenSize_eq {data : List Bytes} (carries : s.Carries code size data)
    (gap : s.absent code.k ≠ []) : s.chosenSize code = longest data :=
  longest_choice sound (Holding.count h full) (fun i hi has => (carries i hi has).1) gap

/-- The gaps of a block that holds shares of some data are filled with the data. -/
theorem Holding.rebuild_share {data : List Bytes} (length : data.length = code.k)
    (carries : s.Carries code size data) :
    s.rebuild code = .ok (s.refill (s.absent code.k) ((s.absent code.k).map fun i =>
      Bytes.overlay (Bytes.fit (longest data) (data.getD i [])) (s.bufferOf i)),
      (s.absent code.k).length) := by
  rw [h.rebuild_eq sound full]
  split
  next none =>
    rw [List.isEmpty_iff.mp none]
    rfl
  next some =>
    have gap : s.absent code.k ≠ [] := fun none => some (List.isEmpty_iff.mpr none)
    have size_eq := h.chosenSize_eq sound full carries gap
    have le := h.chosenSize_le
    have wide := h.room_absent sound
    rw [size_eq] at le wide ⊢
    rw [decode_choice sound (Holding.count h full) length le (fun i hi has => (carries i hi has).2)
      (show ((s.absent code.k).map s.bufferOf).length = _ from List.length_map ..) wide]
    simp only [Except.map, absent, List.zipWith_map_right, List.zipWith_self]

end full

end Slot

end AirLink
