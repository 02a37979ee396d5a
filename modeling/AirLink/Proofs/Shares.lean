import AirLink.Proofs.Field

/-! # Sums of shares, byte by byte

A weighted sum of shares is, at each place, the weighted sum of the bytes there.  A share that ends
before a place counts as zero at it.
-/

namespace AirLink.Shares

open Erasure

/-- The byte of a share at a place, zero behind its end. -/
def byteAt (p : Nat) (share : Bytes) : GF256 := ⟨share.getD p 0⟩

@[simp]
theorem byteAt_nil (p : Nat) : byteAt p [] = 0 := rfl

@[simp]
theorem byteAt_cons_zero (b : UInt8) (bs : Bytes) : byteAt 0 (b :: bs) = ⟨b⟩ := rfl

@[simp]
theorem byteAt_cons_succ (p : Nat) (b : UInt8) (bs : Bytes) :
    byteAt (p + 1) (b :: bs) = byteAt p bs := rfl

@[simp]
theorem byteAt_zeros (p n : Nat) : byteAt p (Bytes.zeros n) = 0 := by
  apply GF256.ext
  simp only [byteAt, Bytes.zeros, List.getD_eq_getElem?_getD,
    List.getElem?_getD_replicate_default_eq, GF256.byte_zero]

theorem byteAt_fit {p n : Nat} (h : p < n) (bs : Bytes) :
    byteAt p (Bytes.fit n bs) = byteAt p bs := by
  apply GF256.ext
  simp only [byteAt, Bytes.fit, Bytes.zeros]
  by_cases inside : p < bs.length
  · rw [List.getD_append _ _ _ _ (by simp; omega)]
    simp [List.getD_eq_getElem?_getD, h]
  · rw [List.getD_append_right _ _ _ _ (by simp; omega), List.getD_eq_default bs _ (by omega),
      List.getD_eq_getElem?_getD, List.getElem?_getD_replicate_default_eq]

theorem byteAt_take {p n : Nat} (h : p < n) (bs : Bytes) : byteAt p (bs.take n) = byteAt p bs := by
  simp [byteAt, List.getD_eq_getElem?_getD, h]

theorem eq_of_byteAt {a b : Bytes} (length : a.length = b.length)
    (bytes : ∀ p < a.length, byteAt p a = byteAt p b) : a = b := by
  apply List.ext_getElem length
  intro p ha hb
  have same := congrArg GF256.byte (bytes p ha)
  simpa [byteAt, List.getD_eq_getElem?_getD, ha, hb] using same

@[simp]
theorem length_addScaled (factor : GF256) (share sum : Bytes) :
    (addScaled factor share sum).length = sum.length := by
  fun_induction addScaled factor share sum with
  | case1 => rfl
  | case2 => rfl
  | case3 b share s sum ih => simpa using ih

theorem byteAt_addScaled (factor : GF256) (share sum : Bytes) (p : Nat) (h : p < sum.length) :
    byteAt p (addScaled factor share sum) = byteAt p sum + factor * byteAt p share := by
  fun_induction addScaled factor share sum generalizing p with
  | case1 sum => simp
  | case2 => simp at h
  | case3 b share s sum ih =>
      cases p with
      | zero => rfl
      | succ p => simpa using ih p (by simpa using h)

/-- The terms of a weighted sum of bytes. -/
abbrev terms (p : Nat) (weights : List GF256) (shares : List Bytes) : List GF256 :=
  (weights.zip shares).map fun (weight, share) => weight * byteAt p share

theorem foldl_addScaled (pairs : List (GF256 × Bytes)) (sum : Bytes) :
    (pairs.foldl (fun sum (weight, share) =>
      if weight = 0 then sum else addScaled weight share sum) sum).length = sum.length ∧
    ∀ p < sum.length, byteAt p (pairs.foldl (fun sum (weight, share) =>
      if weight = 0 then sum else addScaled weight share sum) sum) =
      byteAt p sum + (pairs.map fun (weight, share) => weight * byteAt p share).sum := by
  induction pairs generalizing sum with
  | nil => simp
  | cons pair pairs ih =>
      obtain ⟨weight, share⟩ := pair
      by_cases zero : weight = 0
      · simpa [zero] using ih sum
      · obtain ⟨length, bytes⟩ := ih (addScaled weight share sum)
        simp only [length_addScaled] at length bytes
        simp only [List.foldl_cons, zero, if_false, List.map_cons, List.sum_cons]
        refine ⟨length, fun p h => ?_⟩
        rw [bytes p h, byteAt_addScaled weight share sum p h, add_assoc]

@[simp]
theorem length_weightedSum (size : Nat) (weights : List GF256) (shares : List Bytes) :
    (weightedSum size weights shares).length = size := by
  have zeros : (Bytes.zeros size).length = size := by simp [Bytes.zeros]
  exact (foldl_addScaled _ _).1.trans zeros

theorem byteAt_weightedSum {p size : Nat} (h : p < size) (weights : List GF256)
    (shares : List Bytes) :
    byteAt p (weightedSum size weights shares) = (terms p weights shares).sum := by
  have inside : p < (Bytes.zeros size).length := by simpa [Bytes.zeros] using h
  have bytes := (foldl_addScaled (weights.zip shares) _).2 p inside
  simpa [weightedSum] using bytes

/-- The weights of a row as a sum over its columns. -/
theorem sum_terms {k : Nat} (row : Row k) (shares : List Bytes) (h : shares.length = k) (p : Nat) :
    (terms p row.toList shares).sum = ∑ j : Fin k, row[j] * byteAt p (shares.getD j []) := by
  subst h
  rw [← List.sum_ofFn]
  congr 1
  apply List.ext_getElem
  · simp
  · intro i hi _
    simp [List.getD_eq_getElem?_getD]

end AirLink.Shares
