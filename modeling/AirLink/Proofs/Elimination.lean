import AirLink.Proofs.Field

/-! # Elimination inverts

A step of the elimination multiplies both matrices from the left by one and the same invertible
matrix.  So the left one stays the product of the right one with the matrix that is inverted, and
when the left one has become the identity, the right one is the inverse.  A step fails only if the
left matrix, and with it the given one, sends some vector other than zero to zero.
-/

namespace AirLink.Elimination

open Erasure.Matrix

variable {k : Nat}

/-- A stored matrix as a function of its indices. -/
def entries (m : Erasure.Matrix k) : Matrix (Fin k) (Fin k) GF256 :=
  Matrix.of fun i j => (m.get i).get j

theorem entries_apply (m : Erasure.Matrix k) (i j : Fin k) : entries m i j = (m.get i).get j := rfl

/-- What one elimination step multiplies with: row `p` goes to place `c` and is scaled there, and
multiples of it are added to the others. -/
def stepMatrix (guide : Matrix (Fin k) (Fin k) GF256) (p c : Fin k) :
    Matrix (Fin k) (Fin k) GF256 := Matrix.of fun i l =>
  if i = c then if l = p then (guide p c)⁻¹ else 0
  else (if l = Equiv.swap p c i then 1 else 0) +
    if l = p then guide (Equiv.swap p c i) c * (guide p c)⁻¹ else 0

theorem entries_identity : entries (identity k) = 1 := by
  ext i j
  simp [entries, identity, Erasure.Row.unit, Matrix.one_apply, Fin.ext_iff, eq_comm]

theorem get_scale (factor : GF256) (row : Erasure.Row k) (j : Fin k) :
    (row.scale factor).get j = row.get j * factor := by
  simp [Erasure.Row.scale]

theorem get_addMultiple (factor : GF256) (other row : Erasure.Row k) (j : Fin k) :
    (Erasure.Row.addMultiple factor other row).get j = row.get j + factor * other.get j := by
  by_cases zero : factor = 0 <;> simp [Erasure.Row.addMultiple, Vector.get_eq_getElem, zero]

theorem get_swap (m : Erasure.Matrix k) (p c i : Fin k) :
    (m.swap p c p.isLt c.isLt).get i = m.get (Equiv.swap p c i) := by
  simp only [Vector.get_eq_getElem, Vector.getElem_swap, Equiv.swap_apply_def, Fin.ext_iff]
  split_ifs <;> rfl

theorem stepMatrix_mul (guide m : Matrix (Fin k) (Fin k) GF256) (p c i j : Fin k) :
    (stepMatrix guide p c * m) i j =
      if i = c then m p j * (guide p c)⁻¹
      else m (Equiv.swap p c i) j + guide (Equiv.swap p c i) c * (m p j * (guide p c)⁻¹) := by
  by_cases h : i = c
  · simp [stepMatrix, Matrix.mul_apply, h, mul_comm]
  · simp only [stepMatrix, Matrix.mul_apply, Matrix.of_apply, h, if_false, add_mul, ite_mul,
      zero_mul, one_mul, Finset.sum_add_distrib, Finset.sum_ite_eq', Finset.mem_univ, if_true]
    ring

theorem entries_clear (guide m : Erasure.Matrix k) (p c : Fin k) :
    entries (clear (guide.swap p c p.isLt c.isLt) (m.swap p c p.isLt c.isLt) c
      (((m.swap p c p.isLt c.isLt).get c).scale
        (((guide.swap p c p.isLt c.isLt).get c).get c)⁻¹)) =
      stepMatrix (entries guide) p c * entries m := by
  ext i j
  rw [stepMatrix_mul]
  by_cases h : i = c
  · simp [entries_apply, clear, h, get_scale, get_swap]
  · simp [entries_apply, clear, h, get_addMultiple, get_swap, get_scale, ← Vector.get_eq_getElem]

/-- A step loses nothing: with a pivot other than zero it can be undone. -/
theorem stepMatrix_faithful {guide : Matrix (Fin k) (Fin k) GF256} {p c : Fin k}
    (pivot : guide p c ≠ 0) {v : Fin k → GF256} (h : (stepMatrix guide p c).mulVec v = 0) :
    v = 0 := by
  -- Row `c` of the product reads the entry at the pivot, and the other rows add multiples of it.
  have atPivot : v p = 0 := by
    have row := congrFun h c
    simpa [stepMatrix, Matrix.mulVec, dotProduct, pivot] using row
  funext l
  by_cases hl : l = p
  · rw [hl, atPivot, Pi.zero_apply]
  · have row := congrFun h (Equiv.swap p c l)
    have other : Equiv.swap p c l ≠ c := by
      intro same
      exact hl ((Equiv.swap p c).injective (same.trans (Equiv.swap_apply_left p c).symm))
    simpa [stepMatrix, Matrix.mulVec, dotProduct, other, add_mul, Finset.sum_add_distrib, atPivot]
      using row

/-- What holds of the two matrices when the first `c` columns have been eliminated. -/
structure Reduced (m : Erasure.Matrix k) (c : Nat) (pair : Erasure.Matrix k × Erasure.Matrix k) :
    Prop where
  product : entries pair.1 = entries pair.2 * entries m
  faithful : ∀ v, (entries pair.2).mulVec v = 0 → v = 0
  unit : ∀ i j : Fin k, j < c → entries pair.1 i j = if i = j then 1 else 0

theorem reduced_start (m : Erasure.Matrix k) : Reduced m 0 (m, identity k) where
  product := by rw [entries_identity, one_mul]
  faithful v h := by simpa [entries_identity] using h
  unit _ _ h := absurd h (Nat.not_lt_zero _)

theorem pivot_some {m : Erasure.Matrix k} {c p : Fin k} (h : pivot? m c = some p) :
    c ≤ p ∧ entries m p c ≠ 0 := by
  have found := List.find?_some h
  simpa [entries_apply, Vector.get_eq_getElem] using found

theorem pivot_none {m : Erasure.Matrix k} {c : Fin k} (h : pivot? m c = none) (r : Fin k)
    (hr : c ≤ r) : entries m r c = 0 := by
  have missed := List.find?_eq_none.mp h r (List.mem_finRange r)
  simpa [entries_apply, Vector.get_eq_getElem, hr] using missed

theorem eliminate_eq (pair : Erasure.Matrix k × Erasure.Matrix k) (c : Fin k) :
    eliminate pair c = (pivot? pair.1 c).map fun (p : Fin k) =>
      let guide := pair.1.swap p c p.isLt c.isLt
      let other := pair.2.swap p c p.isLt c.isLt
      (clear guide guide c ((guide.get c).scale ((guide.get c).get c)⁻¹),
        clear guide other c ((other.get c).scale ((guide.get c).get c)⁻¹)) := rfl

/-- A column that has been eliminated before is not touched again: the pivot row is zero there. -/
theorem stepMatrix_unit {guide : Matrix (Fin k) (Fin k) GF256} {p c : Fin k} (after : c ≤ p)
    (pivot : guide p c ≠ 0)
    (before : ∀ i j : Fin k, j < c → guide i j = if i = j then 1 else 0) (i j : Fin k)
    (hj : j ≤ c) : (stepMatrix guide p c * guide) i j = if i = j then 1 else 0 := by
  rw [stepMatrix_mul]
  have swapped (hi : i ≠ c) : Equiv.swap p c i = i ∨ (i = p ∧ Equiv.swap p c i = c) := by
    by_cases hp : i = p
    · exact .inr ⟨hp, by rw [hp, Equiv.swap_apply_left]⟩
    · exact .inl (Equiv.swap_apply_of_ne_of_ne hp hi)
  -- Column `c` is cleared by the step.  An earlier one is zero in the pivot row, and so in both rows
  -- that may change places.
  rcases eq_or_lt_of_le hj with rfl | earlier
  · split_ifs with hi
    · exact mul_inv_cancel₀ pivot
    · rw [mul_inv_cancel₀ pivot, mul_one]
      exact GF256.add_self _
  · have zero : guide p j = 0 := by
      rw [before p j earlier, if_neg (ne_of_gt (lt_of_lt_of_le earlier after))]
    simp only [zero, zero_mul, mul_zero, add_zero]
    split_ifs with hi hij hij
    · exact absurd (hi.symm.trans hij) (ne_of_gt earlier)
    · rfl
    · rcases swapped hi with same | ⟨rfl, -⟩
      · rw [same, before i j earlier, if_pos hij]
      · exact absurd hij (ne_of_gt (lt_of_lt_of_le earlier after))
    · rcases swapped hi with same | ⟨-, same⟩
      · rw [same, before i j earlier, if_neg hij]
      · rw [same, before c j earlier, if_neg (ne_of_gt earlier)]

theorem eliminate_some {m : Erasure.Matrix k} {c : Fin k} {pair next}
    (h : Reduced m c pair) (step : eliminate pair c = some next) : Reduced m (c + 1) next := by
  rw [eliminate_eq, Option.map_eq_some_iff] at step
  obtain ⟨p, found, rfl⟩ := step
  obtain ⟨after, pivot⟩ := pivot_some found
  constructor
  · simp only [entries_clear, h.product, Matrix.mul_assoc]
  · intro v hv
    rw [entries_clear, ← Matrix.mulVec_mulVec] at hv
    exact h.faithful v (stepMatrix_faithful pivot hv)
  · intro i j hj
    rw [entries_clear]
    exact stepMatrix_unit after pivot h.unit i j (Nat.lt_succ_iff.mp hj)

/-- A column without a pivot is a combination of the columns before it. -/
theorem eliminate_none {m : Erasure.Matrix k} {c : Fin k} {pair}
    (h : Reduced m c pair) (stuck : eliminate pair c = none) :
    ∃ v, v ≠ 0 ∧ (entries m).mulVec v = 0 := by
  rw [eliminate_eq, Option.map_eq_none_iff] at stuck
  -- From place `c` on the column is zero, so the unit columns before it make up all of it.
  let left := entries pair.1
  let v : Fin k → GF256 := fun j => if j < c then left j c else if j = c then 1 else 0
  have term (i j : Fin k) : left i j * v j =
      (if j = i then if i < c then left i c else 0 else 0) + if j = c then left i c else 0 := by
    rcases lt_trichotomy j c with earlier | rfl | later
    · rw [show left i j = _ from h.unit i j earlier]
      by_cases hij : i = j
      · simp [v, hij, earlier, ne_of_lt earlier]
      · simp [hij, Ne.symm hij, ne_of_lt earlier]
    · by_cases hij : j = i <;> simp [v, hij]
    · have unit : ¬ j < c := not_lt_of_gt later
      by_cases hij : j = i
      · subst hij
        simp [v, unit, ne_of_gt later]
      · simp [v, hij, unit, ne_of_gt later]
  have zero : left.mulVec v = 0 := by
    funext i
    simp only [Matrix.mulVec, dotProduct, term, Finset.sum_add_distrib, Finset.sum_ite_eq',
      Finset.mem_univ, if_true, Pi.zero_apply]
    split_ifs with hi
    · exact GF256.add_self _
    · rw [zero_add]
      exact pivot_none stuck i (not_lt.mp hi)
  refine ⟨v, fun trivial => one_ne_zero (α := GF256) ?_, h.faithful _ ?_⟩
  · simpa [v] using congrFun trivial c
  · rw [Matrix.mulVec_mulVec, ← h.product, zero]

theorem reduce_from {m : Erasure.Matrix k} (c : Nat) (hc : c ≤ k) {pair} (h : Reduced m c pair) :
    (∀ last, ((List.finRange k).drop c).foldlM eliminate pair = some last → Reduced m k last) ∧
    (((List.finRange k).drop c).foldlM eliminate pair = none →
      ∃ v, v ≠ 0 ∧ (entries m).mulVec v = 0) := by
  -- On the number of columns that are left.
  induction left : k - c generalizing c pair with
  | zero =>
      obtain rfl : c = k := by omega
      simp only [List.drop_of_length_le (List.length_finRange ..).le, List.foldlM_nil]
      exact ⟨fun last same => Option.some.inj same ▸ h, fun stuck => by simp at stuck⟩
  | succ n ih =>
      have inside : c < (List.finRange k).length := by rw [List.length_finRange]; omega
      rw [List.drop_eq_getElem_cons inside, List.foldlM_cons]
      have here : (List.finRange k)[c] = ⟨c, by omega⟩ := by simp
      rw [here]
      cases step : eliminate pair ⟨c, by omega⟩ with
      | none => exact ⟨fun _ h => by simp at h, fun _ => eliminate_none h step⟩
      | some next => exact ih (c + 1) (by omega) (eliminate_some h step) (by omega)

/-- Elimination of all columns leaves the identity, unless the matrix sends some vector other than zero to
zero. -/
theorem reduce_spec (m : Erasure.Matrix k) :
    (∀ pair, reduce m = some pair → Reduced m k pair) ∧
    (reduce m = none → ∃ v, v ≠ 0 ∧ (entries m).mulVec v = 0) := by
  have run := reduce_from 0 (Nat.zero_le k) (reduced_start m)
  rwa [List.drop_zero] at run

theorem Reduced.identity {m : Erasure.Matrix k} {pair} (h : Reduced m k pair) : entries pair.1 = 1 := by
  ext i j
  rw [h.unit i j j.isLt, Matrix.one_apply]

theorem Reduced.inverse {m : Erasure.Matrix k} {pair} (h : Reduced m k pair) :
    entries pair.2 * entries m = 1 := by
  rw [← h.product, h.identity]

/-- A matrix is reduced exactly if it is not singular. -/
theorem reduce_isSome_iff (m : Erasure.Matrix k) : (reduce m).isSome ↔ (entries m).det ≠ 0 := by
  constructor
  · intro reduced
    obtain ⟨pair, result⟩ := Option.isSome_iff_exists.mp reduced
    have inverse := ((reduce_spec m).1 pair result).inverse
    exact (Matrix.isUnit_det_of_left_inverse inverse).ne_zero
  · intro regular
    by_contra stuck
    have kernel := (reduce_spec m).2 (by simpa using stuck)
    exact regular (Matrix.exists_mulVec_eq_zero_iff.mp kernel)

/-- Inversion succeeds exactly for the matrices that send nothing but zero to zero, and then gives
the inverse. -/
theorem invert_spec (m : Erasure.Matrix k) :
    (∀ inverse, invert m = some inverse → entries inverse * entries m = 1) ∧
    (invert m = none → ∃ v, v ≠ 0 ∧ (entries m).mulVec v = 0) := by
  constructor
  · intro inverse h
    obtain ⟨pair, result, rfl⟩ := Option.map_eq_some_iff.mp h
    exact ((reduce_spec m).1 pair result).inverse
  · intro h
    exact (reduce_spec m).2 (Option.map_eq_none_iff.mp h)

theorem invert_of_injective {m : Erasure.Matrix k}
    (h : ∀ v, (entries m).mulVec v = 0 → v = 0) :
    ∃ inverse, invert m = some inverse ∧ entries inverse * entries m = 1 := by
  cases result : invert m with
  | none =>
      obtain ⟨v, nonzero, zero⟩ := (invert_spec m).2 result
      exact absurd (h v zero) nonzero
  | some inverse => exact ⟨inverse, rfl, (invert_spec m).1 inverse result⟩

end AirLink.Elimination
