import AirLink.Proofs.Elimination
import AirLink.Proofs.Shares

/-! # Any `k` shares give the data back

The row of a share holds the weights that turn the values of a polynomial at the first points into
its value at the point of the share.  A polynomial of degree below `k` that vanishes at `k` points is
zero, so the rows of any `k` different shares make a matrix that can be inverted, and decoding finds
the only data that agree with the shares.
-/

namespace AirLink.ErasureCode

open Elimination Shares
open Erasure (Row point powersRow weightedSum)

variable {code : ErasureCode}

theorem point_inj {i j : Nat} (hi : i < 256) (hj : j < 256) (h : point i = point j) : i = j := by
  cases i with
  | zero =>
      cases j with
      | zero => rfl
      | succ j => exact absurd h.symm (GF256.exp_ne_zero j)
  | succ i =>
      cases j with
      | zero => exact absurd h (GF256.exp_ne_zero i)
      | succ j =>
          have same := congrArg GF256.byte h
          simp only [point, GF256.byte_exp] at same
          rw [GF256.power_inj (by omega) (by omega) same]

theorem get_powersRow (k : Nat) (x : GF256) (j : Fin k) : (powersRow k x).get j = x ^ j.val := by
  simp [powersRow, GF256.pow_eq]

theorem get_times {k : Nat} (row : Row k) (m : Erasure.Matrix k) (j : Fin k) :
    (row.times m).get j = ∑ i : Fin k, row.get i * entries m i j := by
  have run (l : List (Fin k)) (sum : Row k) :
      (l.foldl (fun sum i => Row.addMultiple (row.get i) (m.get i) sum) sum).get j =
        sum.get j + (l.map fun i => row.get i * entries m i j).sum := by
    induction l generalizing sum with
    | nil => simp
    | cons i l ih =>
        simp only [List.foldl_cons, List.map_cons, List.sum_cons]
        rw [ih, get_addMultiple, ← add_assoc]
        rfl
  rw [Fin.sum_univ_def]
  exact (run _ _).trans (by simp)

/-- The weights of a share are those of its point: they take the values of a polynomial at the first
points to its coefficients and these to its value there. -/
structure Sound (code : ErasureCode) : Prop where
  pos : 0 < code.k
  le : code.k ≤ code.n
  few : code.n ≤ 255
  length_parityRows : code.parityRows.length = code.n - code.k
  rows : ∃ toCoefficients : Matrix (Fin code.k) (Fin code.k) GF256,
    (Matrix.vandermonde fun i : Fin code.k => point i) * toCoefficients = 1 ∧
    ∀ share < code.n, ∀ j : Fin code.k,
      (code.row share).get j = ∑ i : Fin code.k, point share ^ i.val * toCoefficients i j

theorem row_data {share : Nat} (h : share < code.k) (j : Fin code.k) :
    (code.row share).get j = if j.val = share then 1 else 0 := by
  simp [row, h, Row.unit]

theorem row_parity {share : Nat} (h : code.k ≤ share) :
    code.row share = code.parityRows.getD (share - code.k) (Vector.replicate code.k 0) := by
  simp [row, Nat.not_lt.mpr h]

theorem create_ok {k n : Nat} (hk : 0 < k) (hkn : k ≤ n) (hn : n ≤ 255) :
    ∃ code, create k n = .ok code ∧ code.k = k ∧ code.n = n ∧ Sound code := by
  let values : Erasure.Matrix k := Vector.ofFn fun i => powersRow k (point i)
  have vandermonde : entries values = Matrix.vandermonde fun i : Fin k => point i := by
    ext i j
    simp [values, entries_apply, get_powersRow]
  have distinct : Function.Injective fun i : Fin k => point i := by
    intro i j h
    exact Fin.ext (point_inj (by omega) (by omega) h)
  obtain ⟨inverse, inverted, product⟩ := invert_of_injective (m := values) (by
    intro v hv
    rw [vandermonde] at hv
    exact Matrix.eq_zero_of_forall_index_sum_pow_mul_eq_zero distinct (congrFun hv))
  have product' := mul_eq_one_comm.mp product
  let parityRows := (List.range (n - k)).map fun j => (powersRow k (point (k + j))).times inverse
  have guard : ¬ (k = 0 ∨ n < k ∨ Limits.shares < n) := by simp [Limits.shares]; omega
  refine ⟨⟨k, n, parityRows⟩, ?_, rfl, rfl, hk, hkn, hn, by simp [parityRows], entries inverse,
    vandermonde ▸ product', ?_⟩
  · simp only [create, if_neg guard]
    rw [show Erasure.Matrix.invert values = some inverse from inverted]
  · intro share inside j
    by_cases data : share < k
    · have entry := congrFun (congrFun product' ⟨share, data⟩) j
      rw [vandermonde, Matrix.mul_apply, Matrix.one_apply] at entry
      rw [@row_data ⟨k, n, parityRows⟩ share data]
      simpa [Fin.ext_iff, eq_comm] using entry.symm
    · rw [@row_parity ⟨k, n, parityRows⟩ share (Nat.not_lt.mp data)]
      have present : share - k < n - k := by change share < n at inside; omega
      simp [parityRows, List.getD_eq_getElem?_getD, present, get_times, get_powersRow,
        Nat.add_sub_cancel' (Nat.not_lt.mp data)]

theorem create_eq_ok {k n : Nat} (h : create k n = .ok code) :
    code.k = k ∧ code.n = n ∧ Sound code := by
  by_cases guard : k = 0 ∨ n < k ∨ Limits.shares < n
  · simp [create, guard] at h
  · simp only [Limits.shares] at guard
    obtain ⟨made, ok, size⟩ := create_ok (k := k) (n := n) (by omega) (by omega) (by omega)
    rw [h] at ok
    cases ok
    exact size

/-- Any `k` different shares determine the data. -/
theorem rows_independent (sound : Sound code) {shares : Fin code.k → Nat}
    (inside : ∀ i, shares i < code.n) (distinct : Function.Injective shares)
    (v : Fin code.k → GF256)
    (h : ∀ i, ∑ j : Fin code.k, (code.row (shares i)).get j * v j = 0) : v = 0 := by
  obtain ⟨toCoefficients, product, rows⟩ := sound.rows
  have points : Function.Injective fun i => point (shares i) := by
    intro i j same
    have few := sound.few
    exact distinct (point_inj (by have := inside i; omega) (by have := inside j; omega) same)
  -- The coefficients of a polynomial with as many zeros as it has coefficients.
  have coefficients : toCoefficients.mulVec v = 0 := by
    apply Matrix.eq_zero_of_forall_index_sum_pow_mul_eq_zero points
    intro i
    rw [← h i]
    simp only [rows _ (inside i), Finset.sum_mul, Matrix.mulVec, dotProduct, Finset.mul_sum,
      mul_assoc]
    exact Finset.sum_comm
  -- Its values at the first points are the data.
  have back := congrArg (Matrix.mulVec (Matrix.vandermonde fun i : Fin code.k => point i))
    coefficients
  rwa [Matrix.mulVec_mulVec, product, Matrix.one_mulVec, Matrix.mulVec_zero] at back

def share (code : ErasureCode) (size : Nat) (data : List Bytes) (i : Nat) : Bytes :=
  weightedSum size (code.row i).toList data

theorem length_share (size : Nat) (data : List Bytes) (i : Nat) :
    (code.share size data i).length = size :=
  length_weightedSum ..

theorem byteAt_share {size p : Nat} (h : p < size) {data : List Bytes} (length : data.length = code.k)
    (i : Nat) : byteAt p (code.share size data i) =
      ∑ j : Fin code.k, (code.row i).get j * byteAt p (data.getD j []) := by
  rw [share, byteAt_weightedSum h, sum_terms _ _ length]
  rfl

theorem share_data {size : Nat} {data : List Bytes} (length : data.length = code.k) {i : Nat}
    (h : i < code.k) : code.share size data i = Bytes.fit size (data.getD i []) := by
  apply eq_of_byteAt ((length_share ..).trans (Bytes.length_fit ..).symm)
  intro p hp
  rw [length_share] at hp
  rw [byteAt_share hp length, byteAt_fit hp]
  simp only [row_data h, ite_mul, one_mul, zero_mul]
  rw [Finset.sum_eq_single ⟨i, h⟩]
  · simp
  · intro j _ other
    exact if_neg fun same => other (Fin.ext same)
  · intro absent
    exact absurd (Finset.mem_univ _) absent

/-- Only the first bytes of the data go into a share. -/
theorem share_map {size : Nat} {data : List Bytes} (length : data.length = code.k) {change : Bytes → Bytes}
    (keeps : ∀ bs, ∀ p < size, byteAt p (change bs) = byteAt p bs) (i : Nat) :
    code.share size (data.map change) i = code.share size data i := by
  have same : (data.map change).length = code.k := by rwa [List.length_map]
  apply eq_of_byteAt (by rw [length_share, length_share])
  intro p hp
  rw [length_share] at hp
  rw [byteAt_share hp length, byteAt_share hp same]
  refine Finset.sum_congr rfl fun j _ => ?_
  have inside : j.val < data.length := length.symm ▸ j.isLt
  rw [List.getD_eq_getElem _ _ inside, List.getD_eq_getElem _ _ (by rwa [List.length_map]),
    List.getElem_map, keeps _ p hp]

theorem encode_ok (sound : Sound code) {data buffers : List Bytes} {size : Nat}
    (length : data.length = code.k) (few : buffers.length ≤ code.n - code.k)
    (room : ∀ b ∈ buffers, size ≤ b.length) :
    code.encode data buffers size =
      .ok (buffers.mapIdx fun j b => Bytes.overlay (code.share size data (code.k + j)) b) := by
  have fits : buffers.any (·.length < size) = false := by simpa using room
  have guard : ¬ (data.length ≠ code.k ∨ code.n - code.k < buffers.length) := by omega
  simp only [encode, if_neg guard, fits, Bool.false_eq_true, if_false]
  congr 1
  apply List.ext_getElem
  · simp [sound.length_parityRows, few]
  · intro j hj _
    have inside : j < code.parityRows.length := by
      simp only [List.length_zipWith] at hj
      omega
    simp [share, row_parity, List.getD_eq_getElem?_getD, inside]

/-- The list names `k` different shares, each data share at its own place. -/
structure Arranged (code : ErasureCode) (indices : List Nat) : Prop where
  length : indices.length = code.k
  placed : code.wellPlaced indices
  nodup : indices.Nodup

theorem Arranged.place {indices : List Nat} (h : Arranged code indices) {i : Nat} (hi : i < code.k) :
    indices.getD i 0 < code.n ∧ (code.k ≤ indices.getD i 0 ∨ indices.getD i 0 = i) := by
  have inside : i < indices.length := by rw [h.length]; exact hi
  have all := h.placed
  simp only [wellPlaced, List.all_eq_true] at all
  have here := all (indices[i], i) (List.mem_zipIdx_iff_getElem?.mpr (by simp [inside]))
  simpa [List.getD_eq_getElem?_getD, inside] using here

theorem Arranged.lt {indices : List Nat} (h : Arranged code indices) {share : Nat}
    (member : share ∈ indices) : share < code.n := by
  obtain ⟨i, hi, rfl⟩ := List.mem_iff_getElem.mp member
  have here := (h.place (i := i) (by rw [← h.length]; exact hi)).1
  rwa [List.getD_eq_getElem _ _ hi] at here

theorem Arranged.distinct {indices : List Nat} (h : Arranged code indices) :
    Function.Injective fun i : Fin code.k => indices.getD i 0 := by
  intro i j same
  have hi : i.val < indices.length := by rw [h.length]; exact i.isLt
  have hj : j.val < indices.length := by rw [h.length]; exact j.isLt
  have entries : indices[i.val] = indices[j.val] := by
    simpa [List.getD_eq_getElem?_getD, hi, hj] using same
  exact Fin.ext ((h.nodup.getElem_inj_iff).mp entries)

/-- Decoding of shares that are there and long enough does not fail, and multiplies by the inverse of
their rows. -/
theorem decode_ok (sound : Sound code) {inputs buffers : List Bytes} {indices : List Nat}
    {size : Nat} (arranged : Arranged code indices) (length : inputs.length = code.k)
    (long : ∀ b ∈ inputs, size ≤ b.length)
    (count : buffers.length = (code.missing indices).length)
    (room : ∀ b ∈ buffers, size ≤ b.length) :
    ∃ toData : Erasure.Matrix code.k,
      (entries toData * Matrix.of fun i j : Fin code.k => (code.row (indices.getD i 0)).get j) = 1 ∧
      code.decode inputs indices buffers size = .ok (List.zipWith
        (fun i buffer => Bytes.overlay (weightedSum size (toData.get i).toList inputs) buffer)
        (code.missing indices) buffers) := by
  let shares : Erasure.Matrix code.k := Vector.ofFn fun i => code.row (indices.getD i 0)
  have rows : entries shares =
      Matrix.of fun i j : Fin code.k => (code.row (indices.getD i 0)).get j := by
    ext i j
    simp [shares, entries_apply]
  obtain ⟨toData, inverted, product⟩ := invert_of_injective (m := shares) (by
    intro v hv
    rw [rows] at hv
    exact rows_independent sound (fun i => (arranged.place i.isLt).1) arranged.distinct v (congrFun hv))
  refine ⟨toData, rows ▸ product, ?_⟩
  have guard : ¬ (inputs.length ≠ code.k ∨ indices.length ≠ code.k) := by
    simp [length, arranged.length]
  have noShort : inputs.any (·.length < size) = false := by simpa using long
  have fits : buffers.any (·.length < size) = false := by simpa using room
  simp only [decode, if_neg guard, noShort, arranged.placed, count, fits, Bool.false_eq_true, if_false,
    Bool.not_true, ne_eq, not_true]
  split_ifs with none
  · rw [List.isEmpty_iff.mp none]
    rfl
  · rw [show Erasure.Matrix.invert shares = some toData from inverted]
    rfl

/-- Shares of some data decode to the data. -/
theorem decode_share (sound : Sound code) {data inputs buffers : List Bytes} {indices : List Nat}
    {size : Nat} (arranged : Arranged code indices) (dataLength : data.length = code.k)
    (length : inputs.length = code.k) (long : ∀ b ∈ inputs, size ≤ b.length)
    (shares : ∀ i < code.k,
      (inputs.getD i []).take size = code.share size data (indices.getD i 0))
    (count : buffers.length = (code.missing indices).length)
    (room : ∀ b ∈ buffers, size ≤ b.length) :
    code.decode inputs indices buffers size = .ok (List.zipWith
      (fun i buffer => Bytes.overlay (Bytes.fit size (data.getD i.val [])) buffer)
      (code.missing indices) buffers) := by
  obtain ⟨toData, product, ok⟩ := decode_ok sound arranged length long count room
  rw [ok]
  congr 2
  funext i buffer
  congr 1
  apply eq_of_byteAt (by rw [length_weightedSum, Bytes.length_fit])
  intro p hp
  rw [length_weightedSum] at hp
  have input (j : Fin code.k) : byteAt p (inputs.getD j []) =
      ∑ l : Fin code.k, (code.row (indices.getD j 0)).get l * byteAt p (data.getD l []) := by
    rw [← byteAt_take hp, shares j j.isLt, byteAt_share hp dataLength]
  have solved := congrFun (congrArg
    (Matrix.mulVec · fun l : Fin code.k => byteAt p (data.getD l [])) product) i
  rw [byteAt_weightedSum hp, sum_terms _ _ length, byteAt_fit hp]
  calc
    _ = ∑ j, entries toData i j * ∑ l : Fin code.k,
        (code.row (indices.getD j 0)).get l * byteAt p (data.getD l []) := by
      simp only [input]
      rfl
    _ = _ := by
      rw [← Matrix.mulVec_mulVec, Matrix.one_mulVec] at solved
      exact solved

end AirLink.ErasureCode
