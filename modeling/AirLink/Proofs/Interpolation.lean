import AirLink.Proofs.Recovery

/-! # Parity as the values of a polynomial

The field of the bytes is that of the polynomials over two elements modulo x⁸ + x⁴ + x³ + x² + 1, a byte
standing for the polynomial that has its bits as coefficients.  There the first bytes of the data shares,
or the second, or those at any other place, are values of a polynomial of degree below `k`, and a parity
share has at that place the value of the same polynomial at its own point.
-/

namespace AirLink.Interpolation

open Polynomial

/-- The polynomial over two elements with the low bits of a number as coefficients. -/
noncomputable def ofBits (width bits : Nat) : (ZMod 2)[X] :=
  ∑ i ∈ Finset.range width, if bits.testBit i then X ^ i else 0

/-- x⁸ + x⁴ + x³ + x² + 1. -/
noncomputable def modulus : (ZMod 2)[X] := ofBits 9 0x11D

/-- The polynomials over two elements modulo x⁸ + x⁴ + x³ + x² + 1. -/
abbrev Residue : Type := AdjoinRoot modulus

noncomputable def residue (b : UInt8) : Residue := AdjoinRoot.mk modulus (ofBits 8 b.toNat)

theorem ofBits_xor (width a b : Nat) : ofBits width (a ^^^ b) = ofBits width a + ofBits width b := by
  unfold ofBits
  rw [← Finset.sum_add_distrib]
  refine Finset.sum_congr rfl fun i _ => ?_
  rw [Nat.testBit_xor]
  cases a.testBit i <;> cases b.testBit i <;> simp [CharTwo.add_self_eq_zero]

/-- Twice the number is x times the polynomial. -/
theorem ofBits_double (width a : Nat) : ofBits (width + 1) (2 * a) = X * ofBits width a := by
  unfold ofBits
  rw [Finset.sum_range_succ', Finset.mul_sum]
  simp [Nat.testBit_succ, pow_succ', mul_ite]

/-- Bits above those of the number add nothing. -/
theorem ofBits_succ {width a : Nat} (small : a < 2 ^ width) : ofBits (width + 1) a = ofBits width a := by
  unfold ofBits
  rw [Finset.sum_range_succ, Nat.testBit_lt_two_pow small]
  simp

theorem modulus_eq : modulus = X ^ 8 + X ^ 4 + X ^ 3 + X ^ 2 + 1 := by
  simp [modulus, ofBits, Finset.sum_range_succ, Nat.testBit]
  ring

theorem degree_modulus : modulus.degree = 8 := by
  rw [modulus_eq]
  compute_degree!

theorem residue_xor (a b : UInt8) : residue (a ^^^ b) = residue a + residue b := by
  rw [residue, UInt8.toNat_xor, ofBits_xor, map_add]
  rfl

theorem residue_zero : residue 0 = 0 := by
  simp [residue, ofBits]

theorem residue_one : residue 1 = 1 := by
  simp [residue, ofBits, Finset.sum_range_succ, Nat.testBit]

theorem toNat_double (a : UInt8) : (GF256.double a).toNat =
    if a.toNat < 128 then 2 * a.toNat else (2 * a.toNat) ^^^ 0x11D := by
  have all : ∀ a : BitVec 8, (GF256.double ⟨a⟩).toNat =
      if a.toNat < 128 then 2 * a.toNat else (2 * a.toNat) ^^^ 0x11D := by decide +kernel
  exact all a.toBitVec

/-- Doubling is multiplication by x: the modulus is taken off where there is a power of eight. -/
theorem residue_double (a : UInt8) :
    residue (GF256.double a) = AdjoinRoot.root modulus * residue a := by
  have shifted : AdjoinRoot.mk modulus (ofBits 9 (2 * a.toNat)) =
      AdjoinRoot.root modulus * residue a := by
    rw [ofBits_double, map_mul, AdjoinRoot.mk_X]
    rfl
  rw [← shifted, residue, ← ofBits_succ (GF256.double a).toNat_lt, toNat_double]
  split_ifs
  · rfl
  · rw [ofBits_xor, map_add]
    change _ + AdjoinRoot.mk modulus modulus = _
    rw [AdjoinRoot.mk_self, add_zero]

theorem residue_power (i : Nat) : residue (GF256.power i) = AdjoinRoot.root modulus ^ i := by
  induction i with
  | zero => exact residue_one.trans (pow_zero _).symm
  | succ i ih => rw [GF256.power, residue_double, ih, pow_succ']

/-- The byte two is x. -/
theorem residue_two : residue 2 = AdjoinRoot.root modulus := by
  have power := residue_power 1
  rwa [pow_one] at power

/-- The bytes as residues, with their sums and products. -/
noncomputable def toResidue : GF256 →+* Residue where
  toFun a := residue a.byte
  map_zero' := residue_zero
  map_one' := residue_one
  map_add' a b := residue_xor a.byte b.byte
  map_mul' a b := by
    obtain rfl | ⟨i, rfl⟩ := GF256.eq_zero_or_exp a
    · rw [zero_mul, GF256.byte_zero, residue_zero, zero_mul]
    obtain rfl | ⟨j, rfl⟩ := GF256.eq_zero_or_exp b
    · rw [mul_zero, GF256.byte_zero, residue_zero, mul_zero]
    rw [GF256.exp_mul_exp, GF256.byte_exp, GF256.byte_exp, GF256.byte_exp, residue_power, residue_power,
      residue_power, pow_add]

instance : Nontrivial Residue := AdjoinRoot.nontrivial _ (by rw [degree_modulus]; decide)

theorem toResidue_surjective : Function.Surjective toResidue := by
  intro x
  induction x using AdjoinRoot.induction_on with
  | ih p =>
    induction p using Polynomial.induction_on' with
    | add p q hp hq =>
        obtain ⟨a, ha⟩ := hp
        obtain ⟨b, hb⟩ := hq
        exact ⟨a + b, by rw [map_add, map_add, ha, hb]⟩
    | monomial i c =>
        obtain rfl | rfl : c = 0 ∨ c = 1 := by revert c; decide
        · exact ⟨0, by simp⟩
        · refine ⟨GF256.exp i, ?_⟩
          rw [monomial_one_right_eq_X_pow, map_pow, AdjoinRoot.mk_X]
          exact (congrArg residue (GF256.byte_exp i)).trans (residue_power i)

theorem toResidue_bijective : Function.Bijective toResidue := ⟨toResidue.injective, toResidue_surjective⟩

theorem residue_bijective : Function.Bijective residue :=
  toResidue_bijective.comp ⟨fun _ _ same => congrArg GF256.byte same, fun a => ⟨a.byte, rfl⟩⟩

theorem isField_residue : IsField Residue :=
  (RingEquiv.ofBijective toResidue toResidue_bijective).symm.toMulEquiv.isField (Field.toIsField GF256)

instance : IsDomain Residue := isField_residue.isDomain

/-- The points of the shares: zero, and then the powers of two. -/
noncomputable def node : Nat → Residue
  | 0 => 0
  | j + 1 => residue 2 ^ j

theorem toResidue_point (i : Nat) : toResidue (Erasure.point i) = node i := by
  cases i with
  | zero => exact map_zero toResidue
  | succ j =>
      change residue (GF256.exp j).byte = residue 2 ^ j
      rw [GF256.byte_exp, residue_power, residue_two]

theorem node_inj {i j : Nat} (hi : i < 256) (hj : j < 256) (same : node i = node j) : i = j := by
  rw [← toResidue_point, ← toResidue_point] at same
  exact ErasureCode.point_inj hi hj (toResidue.injective same)

/-- The polynomial of degree below `k` that takes at the first points the bytes of the shares at a place.
A share that ends before it has a zero there. -/
structure Fits (k : Nat) (data : List Bytes) (place : Nat) (P : Residue[X]) : Prop where
  degree : P.degree < k
  value : ∀ i < k, P.eval (node i) = residue ((data.getD i []).getD place 0)

theorem Fits.unique {k : Nat} (few : k ≤ 255) {data : List Bytes} {place : Nat} {P Q : Residue[X]}
    (first : Fits k data place P) (second : Fits k data place Q) : P = Q := by
  have degree : (Finset.univ : Finset (Fin k)).card = k := by rw [Finset.card_univ, Fintype.card_fin]
  refine Polynomial.eq_of_degrees_lt_of_eval_index_eq (v := fun i : Fin k => node i) Finset.univ ?_
    (degree.symm ▸ first.degree) (degree.symm ▸ second.degree) fun i _ => ?_
  · intro i _ j _ same
    exact Fin.ext (node_inj (by omega) (by omega) same)
  · rw [first.value i i.isLt, second.value i i.isLt]

end AirLink.Interpolation

namespace AirLink.ErasureCode

open Interpolation Polynomial Shares

variable {code : ErasureCode}

/-- The bytes of all shares at one place are the values of one polynomial at their points. -/
theorem exists_polynomial (sound : Sound code) {size place : Nat} (inside : place < size)
    {data : List Bytes} (length : data.length = code.k) :
    ∃ P : Residue[X], P.degree < code.k ∧ ∀ share < code.n,
      P.eval (node share) = toResidue (byteAt place (code.share size data share)) := by
  obtain ⟨toCoefficients, -, rows⟩ := sound.rows
  let bytes : Fin code.k → GF256 := fun j => byteAt place (data.getD j [])
  let coefficients := toCoefficients.mulVec bytes
  refine ⟨∑ i : Fin code.k, C (toResidue (coefficients i)) * X ^ i.val,
    Polynomial.degree_sum_fin_lt _, fun share hs => ?_⟩
  rw [byteAt_share inside length, eval_finsetSum]
  simp only [eval_mul, eval_C, eval_pow, eval_X, ← toResidue_point, ← map_pow, ← map_mul, ← map_sum]
  congr 1
  calc ∑ i, coefficients i * Erasure.point share ^ i.val
      = ∑ i : Fin code.k, ∑ j, toCoefficients i j * bytes j * Erasure.point share ^ i.val := by
        simp only [coefficients, Matrix.mulVec, dotProduct, Finset.sum_mul]
    _ = ∑ j, ∑ i : Fin code.k, toCoefficients i j * bytes j * Erasure.point share ^ i.val :=
        Finset.sum_comm
    _ = ∑ j, (code.row share).get j * bytes j := by
        refine Finset.sum_congr rfl fun j _ => ?_
        rw [rows share hs, Finset.sum_mul]
        exact Finset.sum_congr rfl fun i _ => by ring

/-- At every place the data shares have a polynomial, and the other shares are its values. -/
theorem share_eq_eval (sound : Sound code) {size place : Nat} (inside : place < size)
    {data : List Bytes} (length : data.length = code.k) :
    (∃! P, Fits code.k data place P) ∧ ∀ P, Fits code.k data place P → ∀ share < code.n,
      residue ((code.share size data share).getD place 0) = P.eval (node share) := by
  have few := sound.le.trans sound.few
  obtain ⟨P, degree, values⟩ := exists_polynomial sound inside length
  have fits : Fits code.k data place P := by
    refine ⟨degree, fun i hi => ?_⟩
    rw [values i (hi.trans_le sound.le), share_data length hi, byteAt_fit inside]
    rfl
  refine ⟨⟨P, fits, fun Q other => other.unique few fits⟩, fun Q other share hs => ?_⟩
  rw [other.unique few fits, values share hs]
  rfl

/-- A share is written over the beginning of a buffer, and behind it the buffer stays as it was. -/
theorem overlay_share (size : Nat) (data : List Bytes) (share : Nat) {buffer : Bytes}
    (room : size ≤ buffer.length) :
    let written := Bytes.overlay (code.share size data share) buffer
    written.length = buffer.length ∧ written.drop size = buffer.drop size ∧
      ∀ place < size, written.getD place 0 = (code.share size data share).getD place 0 := by
  have size_share : (code.share size data share).length = size := length_share ..
  refine ⟨length_overlay size_share room, ?_, fun place inside => ?_⟩
  · rw [Bytes.overlay, size_share, List.drop_left' size_share]
  · rw [Bytes.overlay, List.getD_append _ _ _ _ (by rwa [size_share])]

/-- A share is made from the first bytes of the data. -/
theorem share_take (size : Nat) {data : List Bytes} (length : data.length = code.k) (share : Nat) :
    code.share size (data.map (·.take size)) share = code.share size data share :=
  share_map length (fun _ _ hp => byteAt_take hp _) share

/-- Encoding always succeeds, and at every place writes into the buffer of a parity share the value that
the polynomial through the bytes of the data shares has at the point of the share.  Nothing is written
behind the given number of bytes, and nothing of the data is read there. -/
theorem encodes_values (k n : Nat) (hk : 1 ≤ k) (hkn : k ≤ n) (hn : n ≤ 255) :
    Function.Bijective residue ∧ ∃ code, create k n = .ok code ∧ code.k = k ∧ code.n = n ∧
    ∀ (size : Nat) (data buffers : List Bytes), data.length = k → buffers.length ≤ n - k →
      (∀ b ∈ buffers, size ≤ b.length) →
      ∃ parity, code.encode data buffers size = .ok parity ∧ parity.length = buffers.length ∧
        code.encode (data.map (·.take size)) buffers size = .ok parity ∧
        ∀ j < buffers.length,
          (parity.getD j []).length = (buffers.getD j []).length ∧
          (parity.getD j []).drop size = (buffers.getD j []).drop size ∧
          ∀ place < size, (∃! P, Fits k data place P) ∧ ∀ P, Fits k data place P →
            residue ((parity.getD j []).getD place 0) = P.eval (node (k + j)) := by
  obtain ⟨code, made, rfl, rfl, sound⟩ := create_ok hk hkn hn
  refine ⟨residue_bijective, code, made, rfl, rfl, fun size data buffers length few room => ?_⟩
  have same : (data.map (·.take size)).length = code.k := by rwa [List.length_map]
  refine ⟨_, encode_ok sound length few room, List.length_mapIdx .., ?_, fun j hj => ?_⟩
  · rw [encode_ok sound same few room]
    simp only [share_take size length]
  · rw [List.getD_eq_getElem _ _ (by rwa [List.length_mapIdx]), List.getElem_mapIdx,
      List.getD_eq_getElem _ _ hj]
    obtain ⟨width, behind, written⟩ :=
      @overlay_share code size data (code.k + j) _ (room _ (List.getElem_mem hj))
    refine ⟨width, behind, fun place inside => ?_⟩
    obtain ⟨unique, values⟩ := share_eq_eval sound inside length
    refine ⟨unique, fun P fits => ?_⟩
    rw [← values P fits (code.k + j) (by omega), written place inside]

/-- The line through one and two at the first points has the value seven at the third. -/
theorem encodes_values_line : ∃ code, create 2 3 = .ok code ∧
    code.encode [[1], [2, 9]] [[0, 5]] 1 = .ok [[7, 5]] := by
  obtain ⟨injective, code, made, -, -, encodes⟩ :=
    encodes_values 2 3 (by decide) (by decide) (by decide)
  obtain ⟨parity, encoded, count, -, written⟩ :=
    encodes 1 [[1], [2, 9]] [[0, 5]] rfl (by decide) (by decide)
  obtain ⟨bs, rfl⟩ := List.length_eq_one_iff.mp count
  obtain ⟨width, behind, values⟩ := written 0 (by decide)
  obtain ⟨-, value⟩ := values 0 (by decide)
  let line : Residue[X] := C (residue 3) * X + C (residue 1)
  have sum : residue 3 + residue 1 = residue 2 := (residue_xor 3 1).symm
  have product : residue 3 * residue 2 = residue 6 := by
    rw [residue_two, mul_comm, ← residue_double]
    rfl
  have fits : Fits 2 [[1], [2, 9]] 0 line := by
    refine ⟨(degree_linear_le).trans_lt (by decide), fun i hi => ?_⟩
    obtain rfl | rfl : i = 0 ∨ i = 1 := by omega
    · simp [line, node]
    · simp [line, node, sum]
  have seven : bs.getD 0 0 = 7 := by
    apply injective.injective
    refine (value line fits).trans ?_
    simp only [line, node, eval_add, eval_mul, eval_C, eval_X, pow_one, product]
    exact (residue_xor 6 1).symm
  refine ⟨code, made, encoded.trans ?_⟩
  obtain ⟨first, second, rfl⟩ := List.length_eq_two.mp width
  obtain rfl : first = 7 := seven
  obtain rfl : second = 5 := List.singleton_inj.mp behind
  rfl

end AirLink.ErasureCode
