import AirLink.Proofs.Erasure

/-! # What can be decoded

Decoding takes shares only at their places and finds out by elimination whether their rows can be inverted.
They can unless the same parity share stands at two places: then two rows are the same, and no matrix undoes
the others.  So one can tell beforehand, from the numbers and the lengths alone, what will be decoded.
-/

namespace AirLink.ErasureCode

open Elimination

variable {code : ErasureCode} {inputs buffers : List Bytes} {indices : List Nat} {size : Nat}

/-- The shares with their places, place by place. -/
theorem zipIdx_eq {indices : List Nat} (length : indices.length = code.k) :
    indices.zipIdx = (List.finRange code.k).map fun i : Fin code.k => (indices.getD i 0, i.val) := by
  apply List.ext_getElem
  · simp [length]
  · intro i hi _
    rw [List.length_zipIdx] at hi
    simp [hi]

theorem missing_eq {indices : List Nat} (length : indices.length = code.k) :
    (indices.zipIdx.filter (code.k ≤ ·.1)).map (·.2) = (code.missing indices).map Fin.val := by
  rw [zipIdx_eq length, List.filter_map, List.map_map]
  rfl

theorem length_missing {indices : List Nat} (length : indices.length = code.k) :
    (indices.filter (code.k ≤ ·)).length = (code.missing indices).length := by
  have places := congrArg List.length (missing_eq length)
  rw [List.length_map, List.length_map] at places
  rw [← places, ← List.countP_eq_length_filter, ← List.countP_eq_length_filter]
  nth_rewrite 1 [← List.zipIdx_map_fst 0 indices]
  rw [List.countP_map]
  rfl

/-- What can be decoded with `k` of `n` shares: as many shares as there are data, all long enough and
each data share at its own place, with no parity share there twice; and a buffer with enough room for each
place that holds a parity share. -/
structure Decodable (k n : Nat) (inputs : List Bytes) (indices : List Nat) (buffers : List Bytes) (size : Nat) :
    Prop where
  shares : inputs.length = k
  places : indices.length = k
  long : ∀ input ∈ inputs, size ≤ input.length
  placed : ∀ i share, indices[i]? = some share → share < n ∧ (share = i ∨ k ≤ share)
  count : buffers.length = (indices.filter (k ≤ ·)).length
  distinct : (indices.filter (k ≤ ·)).Nodup
  room : ∀ buffer ∈ buffers, size ≤ buffer.length

theorem wellPlaced_iff : code.wellPlaced indices = true ↔
    ∀ i share, indices[i]? = some share → share < code.n ∧ (share = i ∨ code.k ≤ share) := by
  simp only [wellPlaced, List.all_eq_true, Prod.forall, List.mem_zipIdx_iff_getElem?, Bool.and_eq_true,
    decide_eq_true_eq, Bool.or_eq_true, or_comm]
  exact forall_comm

/-- Two data shares are different because they are at their own places. -/
theorem nodup_of_parity (placed : code.wellPlaced indices = true)
    (distinct : (indices.filter (code.k ≤ ·)).Nodup) : indices.Nodup := by
  rw [List.Nodup, List.pairwise_filter, List.pairwise_iff_getElem] at distinct
  rw [List.Nodup, List.pairwise_iff_getElem]
  intro i j hi hj before same
  have left := (wellPlaced_iff.mp placed i _ (List.getElem?_eq_getElem hi)).2
  have right := (wellPlaced_iff.mp placed j _ (List.getElem?_eq_getElem hj)).2
  rw [← same] at right
  by_cases parity : code.k ≤ indices[i]
  · exact distinct i j hi hj before (by simpa using parity) (by rw [← same]; simpa using parity) same
  · omega

/-- No matrix undoes one in which two rows are the same. -/
theorem rows_injective {k : Nat} {rows : Fin k → Erasure.Row k} {toData : Erasure.Matrix k}
    (inverted : Erasure.Matrix.invert (Vector.ofFn rows) = some toData) : Function.Injective rows := by
  have product := mul_eq_one_comm.mp ((invert_spec _).1 toData inverted)
  intro i j same
  have rowsSame : entries (Vector.ofFn rows) i = entries (Vector.ofFn rows) j := by
    ext c
    simp [entries_apply, same]
  have entry (r : Fin k) : ∑ c, entries (Vector.ofFn rows) r c * entries toData c j = if r = j then 1 else 0 := by
    rw [← Matrix.mul_apply, product, Matrix.one_apply]
  have here := entry i
  rw [rowsSame, entry j, if_pos rfl] at here
  by_contra other
  rw [if_neg other] at here
  exact one_ne_zero here

/-- What decoding has checked when it gives something back. -/
theorem decode_checked {out : List Bytes} (decoded : code.decode inputs indices buffers size = .ok out) :
    inputs.length = code.k ∧ indices.length = code.k ∧ (∀ input ∈ inputs, size ≤ input.length) ∧
      code.wellPlaced indices = true ∧ buffers.length = (code.missing indices).length ∧
      (code.missing indices = [] ∨
        (∃ toData, Erasure.Matrix.invert (Vector.ofFn fun i : Fin code.k => code.row (indices.getD i 0)) =
          some toData) ∧ ∀ buffer ∈ buffers, size ≤ buffer.length) := by
  unfold decode at decoded
  split_ifs at decoded with counts short misplaced count complete small
  all_goals
    have long : ∀ input ∈ inputs, size ≤ input.length := by simpa using short
    refine ⟨by omega, by omega, long, by simpa using misplaced, not_not.mp count, ?_⟩
  · exact .inl (List.isEmpty_iff.mp complete)
  · dsimp only at decoded
    split at decoded <;> cases decoded
  · right
    refine ⟨?_, by simpa using small⟩
    dsimp only at decoded
    split at decoded
    next => cases decoded
    next toData inverted => exact ⟨toData, inverted⟩

/-- Shares are decoded exactly if they can be. -/
theorem decode_eq_ok_iff (sound : Sound code) :
    (∃ out, code.decode inputs indices buffers size = .ok out) ↔
      Decodable code.k code.n inputs indices buffers size := by
  constructor
  · rintro ⟨out, decoded⟩
    obtain ⟨shares, places, long, placed, count, missing⟩ := decode_checked decoded
    have parity := length_missing places
    have checked := wellPlaced_iff.mp placed
    rcases missing with none | ⟨⟨toData, inverted⟩, room⟩
    · rw [none, List.length_nil] at parity count
      rw [List.length_eq_zero_iff] at count
      refine ⟨shares, places, long, checked, by rw [count, parity, List.length_nil], ?_, by simp [count]⟩
      rw [List.length_eq_zero_iff.mp parity]
      exact List.nodup_nil
    · refine ⟨shares, places, long, checked, count.trans parity.symm, .sublist List.filter_sublist ?_, room⟩
      have different := rows_injective inverted
      rw [List.Nodup, List.pairwise_iff_getElem]
      intro i j hi hj before same
      have rows : (⟨i, places ▸ hi⟩ : Fin code.k) = ⟨j, places ▸ hj⟩ := by
        apply different
        simp only [List.getD_eq_getElem _ _ hi, List.getD_eq_getElem _ _ hj, same]
      exact Nat.ne_of_lt before (Fin.mk.inj rows)
  · intro h
    have parity := length_missing h.places
    have placed := wellPlaced_iff.mpr h.placed
    obtain ⟨toData, -, ok⟩ := decode_ok sound ⟨h.places, placed, nodup_of_parity placed h.distinct⟩ h.shares h.long
      (h.count.trans parity) h.room
    exact ⟨_, ok⟩

end AirLink.ErasureCode
