import AirLink.Proofs.Checked.Blocks
import AirLink.Proofs.Checked.Engine

/-! # Filling the gaps of a block in checked steps

The shares are chosen in one pass over the places of the data, which goes on through the parity
fragments where one is missing.  The missing buffers are taken out of the block before the others are
read, so that the code can write them; no share that is read is among them.
-/

namespace AirLink.Checked

/-- What has been chosen for the places that have been passed. -/
structure Choice where
  indices : List Nat := []
  missing : List Nat := []
  /-- Where to look for the next parity fragment. -/
  parity : Nat
  /-- The length of the longest share. -/
  size : Nat := 0

namespace View

/-- The next fragment that has arrived, from a place on. -/
def nextShare (n : Nat) (v : View) (p : Nat) : Option Nat :=
  if p < n then do
    let here ← v.has p
    if here then return p
    else
      let next ← add p 1
      v |>.nextShare n next
  else some p
partial_fixpoint

def chooseShares (n : Nat) (v : View) : List Nat → Choice → Option (Except Fault Choice)
  | [], choice => some (.ok choice)
  | i :: places, choice => do
    let here ← v.has i
    if here then
      let length ← v.lengthOf i
      chooseShares n v places
        { choice with indices := choice.indices ++ [i], size := max choice.size length }
    else
      let share ← v.nextShare n choice.parity
      if n ≤ share then return .error (.shares .tooFewParityShares)
      else
        let parity ← add share 1
        let length ← v.lengthOf share
        chooseShares n v places
          { indices := choice.indices ++ [share], missing := choice.missing ++ [i], parity
            size := max choice.size length }

/-- The buffers of a block; they cannot have no size. -/
def chunks (v : View) : Option (List Bytes) :=
  if v.size = 0 then none else some (Bytes.chunks v.size v.data)

/-- Takes some of the buffers out and leaves empty ones in their places. -/
def takeOut : List Nat → List Bytes → Option (List Bytes × List Bytes)
  | [], buffers => some ([], buffers)
  | i :: places, buffers => do
    let buffer ← buffers[i]?
    let buffers ← put buffers i []
    let (others, buffers) ← takeOut places buffers
    return (buffer :: others, buffers)

/-- Fills the gaps of a block from its parity fragments.  Also tells how many were filled. -/
def rebuild (code : Code) (v : View) : Option (Except Fault (View × Nat)) := do
  let chosen ← v.chooseShares code.n (List.range code.k) { parity := code.k }
  match chosen with
  | .error fault => return .error fault
  | .ok choice =>
    if choice.missing.isEmpty then return .ok (v, 0)
    else
      let buffers ← v.chunks
      let (outputs, buffers) ← takeOut choice.missing buffers
      let inputs ← choice.indices.mapM fun i => buffers[i]?
      let decoded ← code.decode inputs choice.indices outputs choice.size
      match decoded with
      | .error fault => return .error fault
      | .ok outputs =>
        let v ← (choice.missing.zip outputs).foldlM (fun v (i, buffer) => v.replace i buffer) v
        return .ok (v, choice.missing.length)

variable {s : Slot} {size count : Nat}

/-- The search ends at the first of the parity fragments that are left, or behind them all. -/
theorem nextShare_of (sized : Sized size count s) {p : Nat} :
    ∃ q, (of size s).nextShare count p = some q ∧ ((List.range count).drop p).filter s.has =
      if q < count then q :: ((List.range count).drop (q + 1)).filter s.has else [] := by
  have limits : Limits.shares < 2 ^ 63 := by decide
  have few := sized.few
  induction left : count - p generalizing p with
  | zero =>
      have done : ¬p < count := by omega
      refine ⟨p, ?_, ?_⟩
      · rw [nextShare, if_neg done]
      · rw [if_neg done, List.drop_eq_nil_of_le (by rw [List.length_range]; omega), List.filter_nil]
  | succ left ih =>
      have more : p < count := by omega
      have here := has_of sized more
      rw [List.drop_eq_getElem_cons (by rwa [List.length_range]), List.getElem_range]
      cases arrived : s.has p with
      | true =>
          rw [arrived] at here
          refine ⟨p, ?_, ?_⟩
          · rw [nextShare, if_pos more]
            exact step here rfl
          · rw [if_pos more, List.filter_cons_of_pos arrived]
      | false =>
          rw [arrived] at here
          obtain ⟨q, found, rest⟩ := @ih (p + 1) (by omega)
          refine ⟨q, ?_, ?_⟩
          · rw [nextShare, if_pos more]
            exact step here (step (add_eq (show p + 1 < 2 ^ 64 by omega)) found)
          · rw [List.filter_cons_of_neg (by simp [arrived]), rest]

theorem chooseShares_of (sized : Sized size count s) {places shares : List Nat}
    (inside : ∀ i ∈ places, i < count) (choice : Choice)
    (chosen : s.choose places (((List.range count).drop choice.parity).filter s.has) = some shares) :
    ∃ parity, (of size s).chooseShares count places choice = some (.ok
      { indices := choice.indices ++ shares, missing := choice.missing ++ places.filter (!s.has ·), parity
        size := (shares.map s.lengthOf).foldl max choice.size }) := by
  have limits : Limits.shares < 2 ^ 63 := by decide
  have few := sized.few
  induction places generalizing choice shares with
  | nil =>
      cases chosen
      exact ⟨choice.parity, by rw [chooseShares, List.filter_nil, List.append_nil, List.append_nil]; rfl⟩
  | cons i places ih =>
      have place := inside i (List.mem_cons_self ..)
      have others : ∀ i ∈ places, i < count := fun j hj => inside j (List.mem_cons_of_mem _ hj)
      have here := has_of sized place
      rw [Slot.choose.eq_def] at chosen
      cases arrived : s.has i with
      | true =>
          rw [arrived] at here
          simp only [arrived, if_true, Option.map_eq_some_iff] at chosen
          obtain ⟨rest, chosen, rfl⟩ := chosen
          obtain ⟨parity, done⟩ := @ih rest others
            { choice with indices := choice.indices ++ [i], size := max choice.size (s.lengthOf i) } chosen
          refine ⟨parity, ?_⟩
          rw [chooseShares]
          apply step here
          rw [if_pos rfl]
          apply step (lengthOf_of sized place)
          rw [done, List.filter_cons_of_neg (by simp [arrived]), List.append_assoc]
          rfl
      | false =>
          rw [arrived] at here
          obtain ⟨q, found, spare⟩ := @nextShare_of s size count sized choice.parity
          by_cases none : q < count
          case neg =>
            rw [spare, if_neg none] at chosen
            simp [arrived] at chosen
          rw [spare, if_pos none] at chosen
          simp only [arrived, Bool.false_eq_true, if_false, Option.map_eq_some_iff] at chosen
          obtain ⟨rest, chosen, rfl⟩ := chosen
          obtain ⟨parity, done⟩ := @ih rest others
            { indices := choice.indices ++ [q], missing := choice.missing ++ [i], parity := q + 1
              size := max choice.size (s.lengthOf q) } chosen
          refine ⟨parity, ?_⟩
          rw [chooseShares]
          apply step here
          rw [if_neg Bool.false_ne_true]
          apply step found
          rw [if_neg (Nat.not_le.mpr none)]
          apply step (add_eq (show q + 1 < 2 ^ 64 by omega))
          apply step (lengthOf_of sized none)
          rw [done, List.filter_cons_of_pos (by simp [arrived]), List.append_assoc, List.append_assoc]
          rfl

theorem pieces_flatten {buffers : List Bytes} (length : ∀ buffer ∈ buffers, buffer.length = size) :
    Bytes.pieces size buffers.length buffers.flatten = buffers := by
  induction buffers with
  | nil => rfl
  | cons buffer buffers ih =>
      have first := length buffer (List.mem_cons_self ..)
      rw [List.length_cons, List.flatten_cons, Bytes.pieces, List.take_left' first, List.drop_left' first,
        ih fun b hb => length b (List.mem_cons_of_mem _ hb)]

theorem chunks_flatten {buffers : List Bytes} (length : ∀ buffer ∈ buffers, buffer.length = size)
    (positive : 0 < size) : Bytes.chunks size buffers.flatten = buffers := by
  have many : (buffers.flatten.length + size - 1) / size = buffers.length := by
    rw [length_flatten_of_length length, Nat.add_sub_assoc positive, Nat.mul_comm, Nat.mul_add_div positive,
      Nat.div_eq_of_lt (Nat.sub_lt positive Nat.one_pos), Nat.add_zero]
  rw [Bytes.chunks, many]
  exact pieces_flatten length

theorem chunks_of (sized : Sized size count s) (positive : 0 < size) :
    (of size s).chunks = some (s.cells.map Cell.buffer) := by
  have whole : (of size s).chunks = some (Bytes.chunks size (dataOf s)) := if_neg (Nat.ne_of_gt positive)
  rw [whole, dataOf, chunks_flatten (length_of_mem_buffers sized.shaped) positive]

/-- What is taken out are the buffers at the places, and all others stay. -/
theorem takeOut_eq {places : List Nat} (nodup : places.Nodup) {buffers : List Bytes}
    (inside : ∀ i ∈ places, i < buffers.length) :
    ∃ left, takeOut places buffers = some (places.map fun i => buffers.getD i [], left) ∧
      ∀ j, j ∉ places → left[j]? = buffers[j]? := by
  induction places generalizing buffers with
  | nil => exact ⟨buffers, rfl, fun _ _ => rfl⟩
  | cons i places ih =>
      obtain ⟨fresh, nodup⟩ := List.nodup_cons.mp nodup
      have here := inside i (List.mem_cons_self ..)
      obtain ⟨left, taken, others⟩ := @ih nodup (buffers.set i []) (by
        intro j hj
        rw [List.length_set]
        exact inside j (List.mem_cons_of_mem _ hj))
      have same : places.map (fun j => (buffers.set i []).getD j []) = places.map fun j => buffers.getD j [] := by
        refine List.map_congr_left fun j hj => ?_
        have other : i ≠ j := fun same => fresh (same ▸ hj)
        rw [List.getD_eq_getElem?_getD, List.getD_eq_getElem?_getD, List.getElem?_set_ne other]
      refine ⟨left, ?_, ?_⟩
      · apply step (List.getElem?_eq_getElem here)
        apply step (put_eq here [])
        apply step taken
        rw [same, List.map_cons, List.getD_eq_getElem _ _ here]
        rfl
      · intro j hj
        rw [List.mem_cons, not_or] at hj
        rw [others j hj.2, List.getElem?_set_ne (Ne.symm hj.1)]

theorem getElem?_buffers (sized : Sized size count s) {i : Nat} (hi : i < count) :
    (s.cells.map Cell.buffer)[i]? = some (s.bufferOf i) := by
  have inside : i < (s.cells.map Cell.buffer).length := by
    rw [List.length_map, sized.shaped.length]
    exact hi
  rw [List.getElem?_eq_getElem inside, getElem_buffers]

theorem replaceAll_of {places : List Nat} {buffers : List Bytes} (sized : Sized size count s)
    (inside : ∀ i ∈ places, i < count) (length : ∀ b ∈ buffers, b.length = size) :
    (places.zip buffers).foldlM (fun v (i, buffer) => v.replace i buffer) (of size s) =
      some (of size (s.refill places buffers)) := by
  induction places generalizing s buffers with
  | nil => rfl
  | cons i places ih =>
      cases buffers with
      | nil => rfl
      | cons buffer buffers =>
          have first := length buffer (List.mem_cons_self ..)
          have one : ∀ b ∈ [buffer], b.length = size := by simpa using first
          have shaped := sized.shaped.refill [i] one
          rw [List.zip_cons_cons, List.foldlM_cons]
          apply step (replace_of sized (inside i (List.mem_cons_self ..)) first)
          exact ih ⟨shaped, sized.room, sized.few, sized.numbered⟩
            (fun j hj => inside j (List.mem_cons_of_mem _ hj)) fun b hb => length b (List.mem_cons_of_mem _ hb)

section full

variable {code : ErasureCode} {block : Nat} (sound : ErasureCode.Sound code) (sized : Sized size code.n s)
  (h : s.Holding code size block) (full : s.used = code.k) (positive : 0 < size)

include sound sized h full positive

/-- A block with `k` fragments is rebuilt without a fault. -/
theorem rebuild_of : (of size s).rebuild (Code.of code) =
    some ((s.rebuild code).map fun result => (of size result.1, result.2)) := by
  have counted := Slot.Holding.count h full
  have enough := (ErasureCode.length_absent sound.le counted).le
  obtain ⟨parity, chosen⟩ := chooseShares_of sized
    (fun i hi => (List.mem_range.mp hi).trans_le sound.le) { parity := code.k } (Slot.choose_eq enough)
  rw [h.rebuild_eq sound full]
  apply step chosen
  dsimp only
  rw [List.nil_append, List.nil_append]
  change (if (s.absent code.k).isEmpty then _ else _) = _
  by_cases none : (s.absent code.k).isEmpty
  · rw [if_pos none, if_pos none]
    rfl
  rw [if_neg none, if_neg none]
  have nodup : (s.absent code.k).Nodup := List.nodup_range.filter _
  have absent : ∀ i ∈ s.absent code.k, i < code.n := by
    intro i hi
    exact (List.mem_range.mp (List.mem_filter.mp hi).1).trans_le sound.le
  have places : ∀ i ∈ s.absent code.k, i < (s.cells.map Cell.buffer).length := by
    intro i hi
    rw [List.length_map, sized.shaped.length]
    exact absent i hi
  obtain ⟨left, taken, others⟩ := takeOut_eq nodup places
  obtain ⟨outputs, sizes, decoded⟩ := h.decode_chosen sound full
  have read : ∀ i ∈ s.chosen code, left[i]? = some (s.bufferOf i) := by
    intro i hi
    have here := ErasureCode.mem_choice sound counted hi
    rw [others i fun gone => by simpa [here.1] using (List.mem_filter.mp gone).2, getElem?_buffers sized here.2]
  have outs : (s.absent code.k).map (fun i => (s.cells.map Cell.buffer).getD i []) =
      (s.absent code.k).map s.bufferOf := by
    refine List.map_congr_left fun i hi => ?_
    rw [List.getD_eq_getElem?_getD, getElem?_buffers sized (absent i hi)]
    rfl
  rw [outs] at taken
  rw [decoded]
  apply step (chunks_of sized positive)
  apply step taken
  apply step (mapM_eq read)
  apply step ((Code.decode_eq sound ..).trans (congrArg some decoded))
  exact step (replaceAll_of sized absent sizes) rfl

end full

end View

end AirLink.Checked
