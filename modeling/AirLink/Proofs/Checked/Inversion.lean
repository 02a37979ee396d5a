import AirLink.Proofs.Checked.Engine

/-! # Inversion in place

The elimination works on two lists of elements, row after row: one holds the matrix and becomes the identity,
the other holds anything and becomes the inverse.  It comes to an end for every matrix, which means that it
never leaves the lists and never inverts zero; and it is refused exactly the singular ones.
-/

namespace AirLink.Checked

namespace Engine

open Table (stored)
open Elimination (entries)

/-- Inverts a matrix in its place, or tells that it cannot be inverted. -/
def invertMatrix (k : Nat) (matrix inverse : List GF256) :
    Option (Except Fault Unit × List GF256 × List GF256) := do
  let (regular, matrix, inverse) ← Table.invert k matrix inverse
  return (if regular then .ok () else .error (.shares .singularMatrix), matrix, inverse)

/-- What decoding does with the matrix of its shares. -/
theorem solve_eq (e : Engine) (inputs : List Bytes) (indices : List Nat) (buffers : List Bytes) (size : Nat) :
    e.solve inputs indices buffers size = (do
      let (result, matrix, inverse) ← invertMatrix e.code.k e.matrix e.inverse
      match result with
      | .error fault => return (.error fault, buffers, { e with matrix, inverse })
      | .ok () =>
        let (result, buffers) ← fillBuffers e.code inverse inputs size indices.zipIdx buffers
        return (result, buffers, { e with matrix, inverse })) := by
  unfold solve invertMatrix
  cases Table.invert e.code.k e.matrix e.inverse with
  | none => rfl
  | some inverted =>
      obtain ⟨regular, matrix, inverse⟩ := inverted
      cases regular <;> rfl

/-- Every matrix that is not singular is inverted in its place, whatever the place of the inverse held before;
the singular ones are refused.  The inversion of rows gives the same.  The number of elements is one that a
word can hold, as it is for any list in memory. -/
theorem inverts_exactly (k : Nat) (small : k * k < 2 ^ 64) (m : Erasure.Matrix k) :
    ∃ result, ∃ left right : Erasure.Matrix k,
      (∀ inverse, inverse.length = k * k →
        invertMatrix k (stored m) inverse = some (result, stored left, stored right)) ∧
      (result = .ok () ↔ (entries m).det ≠ 0) ∧
      ((entries m).det = 0 → result = .error (.shares .singularMatrix)) ∧
      (result = .ok () →
        entries left = 1 ∧ entries right * entries m = 1 ∧ entries m * entries right = 1) ∧
      m.invert = result.toOption.map fun _ => right := by
  obtain ⟨left, right, done, same⟩ := Table.invert_reduces small m
  have regular := Elimination.reduce_isSome_iff m
  cases reduced : m.reduce with
  | none =>
      rw [reduced] at done regular
      have singular : (entries m).det = 0 := by simpa using regular
      refine ⟨.error (.shares .singularMatrix), left, right, fun inverse length => ?_, ?_, fun _ => rfl, nofun, ?_⟩
      · exact step (done inverse length) rfl
      · simp [singular]
      · rw [Erasure.Matrix.invert, reduced]
        rfl
  | some pair =>
      rw [reduced] at done regular
      have invertible : (entries m).det ≠ 0 := by simpa using regular
      have final := (Elimination.reduce_spec m).1 pair reduced
      obtain rfl := same pair reduced
      refine ⟨.ok (), left, right, fun inverse length => ?_, ?_, fun singular => absurd singular invertible,
        fun _ => ⟨final.identity, final.inverse, mul_eq_one_comm.mp final.inverse⟩, ?_⟩
      · exact step (done inverse length) rfl
      · simp [invertible]
      · rw [Erasure.Matrix.invert, reduced]
        rfl

/-- A matrix with zero at the first place, so that rows change places, and one with equal rows; the place of
the inverse holds something else. -/
theorem inverts_exactly_two :
    (∃ left right : Erasure.Matrix 2,
      invertMatrix 2 [0, 1, ⟨3⟩, ⟨2⟩] [⟨7⟩, 1, 0, ⟨9⟩] = some (.ok (), stored left, stored right) ∧
      entries right * entries #v[#v[0, 1], #v[⟨3⟩, ⟨2⟩]] = 1) ∧
    ∃ left right : Erasure.Matrix 2,
      invertMatrix 2 [⟨3⟩, 1, ⟨3⟩, 1] [⟨7⟩, 1, 0, ⟨9⟩] =
        some (.error (.shares .singularMatrix), stored left, stored right) := by
  constructor
  · obtain ⟨result, left, right, done, regular, -, inverse, -⟩ :=
      inverts_exactly 2 (by decide) #v[#v[0, 1], #v[⟨3⟩, ⟨2⟩]]
    have determinant : (entries #v[#v[0, 1], #v[⟨3⟩, ⟨2⟩]]).det ≠ 0 := by
      rw [Matrix.det_fin_two]
      decide +kernel
    obtain rfl := regular.mpr determinant
    exact ⟨left, right, done _ rfl, (inverse rfl).2.1⟩
  · obtain ⟨result, left, right, done, -, singular, -⟩ := inverts_exactly 2 (by decide) #v[#v[⟨3⟩, 1], #v[⟨3⟩, 1]]
    have determinant : (entries #v[#v[⟨3⟩, 1], #v[⟨3⟩, 1]]).det = 0 := by
      rw [Matrix.det_fin_two]
      decide +kernel
    obtain rfl := singular determinant
    exact ⟨left, right, done _ rfl⟩

end Engine

end AirLink.Checked
