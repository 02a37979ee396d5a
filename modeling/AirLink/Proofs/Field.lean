import Mathlib
import AirLink.Erasure.Code

/-! # The bytes form a field

Multiplication adds exponents, so everything about products reduces to one fact: the powers of x
run through all bytes but zero before they repeat.  Distributivity comes from the other reading of a
power, as repeated doubling, which respects sums.
-/

namespace AirLink.GF256

theorem double_eq_shift (a : UInt8) :
    double a = a <<< 1 ^^^ if a.toBitVec.msb then 0x1D else 0 := by
  have all : ∀ a : BitVec 8,
      double ⟨a⟩ = (⟨a⟩ : UInt8) <<< 1 ^^^ if a.msb then 0x1D else 0 := by decide +kernel
  exact all a.toBitVec

theorem double_xor (a b : UInt8) : double (a ^^^ b) = double a ^^^ double b := by
  have shift : (a ^^^ b) <<< 1 = a <<< 1 ^^^ b <<< 1 := UInt8.shiftLeft_xor
  simp only [double_eq_shift, UInt8.toBitVec_xor, BitVec.msb_xor, shift]
  cases a.toBitVec.msb <;> cases b.toBitVec.msb <;> simp [UInt8.xor_assoc]
  ac_rfl

theorem double_ne_zero {a : UInt8} (h : a ≠ 0) : double a ≠ 0 := by
  have all : ∀ a : BitVec 8, (⟨a⟩ : UInt8) ≠ 0 → double ⟨a⟩ ≠ 0 := by decide +kernel
  exact all a.toBitVec h

theorem iterate_double_xor (i : Nat) (a b : UInt8) :
    double^[i] (a ^^^ b) = double^[i] a ^^^ double^[i] b := by
  induction i generalizing a b with
  | zero => rfl
  | succ i ih => simp only [Function.iterate_succ_apply, double_xor, ih]

theorem iterate_double_zero (i : Nat) : double^[i] 0 = 0 := by
  induction i with
  | zero => rfl
  | succ i ih => exact ih

theorem power_eq_iterate (i : Nat) : power i = double^[i] 1 := by
  induction i with
  | zero => rfl
  | succ i ih => rw [Function.iterate_succ_apply', ← ih]; rfl

theorem power_ne_zero (i : Nat) : power i ≠ 0 := by
  induction i with
  | zero => decide
  | succ i ih => exact double_ne_zero ih

/-- The powers of x repeat after 255 steps and not before: the proper divisors of 255 all divide
85, 51 or 15, and none of these exponents gives one. -/
theorem period_one : Function.minimalPeriod double 1 = 255 := by
  have whole : Function.IsPeriodicPt double 255 1 := by
    change double^[255] 1 = 1
    rw [← power_eq_iterate]
    decide +kernel
  have proper : ∀ d ∈ Nat.divisors 255, d = 255 ∨ d ∣ 85 ∨ d ∣ 51 ∨ d ∣ 15 := by decide +kernel
  have notPeriod : ∀ d, power d ≠ 1 → ¬ Function.minimalPeriod double 1 ∣ d := by
    intro d hd divides
    apply hd
    rw [power_eq_iterate]
    exact Function.isPeriodicPt_iff_minimalPeriod_dvd.mpr divides
  have member := Nat.mem_divisors.mpr ⟨whole.minimalPeriod_dvd, by decide⟩
  rcases proper _ member with h | h | h | h
  · exact h
  · exact absurd h (notPeriod 85 (by decide +kernel))
  · exact absurd h (notPeriod 51 (by decide +kernel))
  · exact absurd h (notPeriod 15 (by decide +kernel))

theorem power_mod (i : Nat) : power (i % 255) = power i := by
  simp only [power_eq_iterate, ← period_one, Function.iterate_mod_minimalPeriod_eq]

theorem power_inj {i j : Nat} (hi : i < 255) (hj : j < 255) (h : power i = power j) : i = j := by
  simp only [power_eq_iterate] at h
  exact Function.iterate_injOn_Iio_minimalPeriod (by simpa [period_one] using hi)
    (by simpa [period_one] using hj) h

theorem toList_powers : powers.toList = (List.range 255).map power := by
  simp [powers, List.ext_getElem_iff]

theorem nodup_powers : powers.toList.Nodup := by
  rw [toList_powers]
  refine List.Nodup.map_on ?_ List.nodup_range
  intro i hi j hj h
  exact power_inj (List.mem_range.mp hi) (List.mem_range.mp hj) h

/-- Every byte but zero is a power: there are as many of either. -/
theorem mem_powers {a : UInt8} (h : a ≠ 0) : a ∈ powers.toList := by
  have sub : powers.toList.toFinset ⊆ Finset.univ.erase 0 := by
    intro b hb
    simp only [toList_powers, List.mem_toFinset, List.mem_map] at hb
    obtain ⟨i, -, rfl⟩ := hb
    simp [power_ne_zero]
  have card : (Finset.univ.erase (0 : UInt8)).card ≤ powers.toList.toFinset.card := by
    rw [List.toFinset_card_of_nodup nodup_powers, Finset.card_erase_of_mem (Finset.mem_univ _),
      Finset.card_univ, ← FinEnum.card_eq_fintypeCard]
    simp
  have all := Finset.eq_of_subset_of_card_le sub card
  have member : a ∈ Finset.univ.erase (0 : UInt8) := by simp [h]
  simpa [← all] using member

@[simp]
theorem byte_zero : (0 : GF256).byte = 0 := rfl

@[simp]
theorem byte_one : (1 : GF256).byte = 1 := rfl

@[simp]
theorem byte_add (a b : GF256) : (a + b).byte = a.byte ^^^ b.byte := rfl

@[simp]
theorem byte_exp (i : Nat) : (exp i).byte = power i := by
  simp [exp, powers, Vector.get_eq_getElem, power_mod]

theorem ext {a b : GF256} (h : a.byte = b.byte) : a = b := by
  cases a; cases b; exact congrArg GF256.mk h

theorem byte_ne_zero {a : GF256} (h : a ≠ 0) : a.byte ≠ 0 := fun zero => h (ext zero)

theorem exp_ne_zero (i : Nat) : exp i ≠ 0 :=
  fun zero => power_ne_zero i (by simpa using congrArg GF256.byte zero)

theorem exp_mod (i : Nat) : exp (i % 255) = exp i := ext (by simp [power_mod])

theorem exp_zero : exp 0 = 1 := ext (by simp; rfl)

theorem log_eq_idxOf (a : GF256) : a.log = powers.toList.idxOf a.byte := by
  simp [log, exponents, Vector.get_eq_getElem]

theorem log_lt {a : GF256} (h : a ≠ 0) : a.log < 255 := by
  rw [log_eq_idxOf]
  simpa using List.idxOf_lt_length_of_mem (mem_powers (byte_ne_zero h))

theorem exp_log {a : GF256} (h : a ≠ 0) : exp a.log = a := by
  have inside := List.idxOf_lt_length_of_mem (mem_powers (byte_ne_zero h))
  have found := List.getElem_idxOf inside
  simp only [toList_powers, List.getElem_map, List.getElem_range] at found
  exact ext (by simpa [log_eq_idxOf, toList_powers] using found)

theorem log_exp (i : Nat) : (exp i).log = i % 255 := by
  have inside : i % 255 < powers.toList.length := by simp [Nat.mod_lt]
  have at_index := nodup_powers.idxOf_getElem _ inside
  simpa [log_eq_idxOf, toList_powers, power_mod] using at_index

theorem mul_def (a b : GF256) : a * b = if a = 0 ∨ b = 0 then 0 else exp (a.log + b.log) := rfl

theorem mul_of_ne_zero {a b : GF256} (ha : a ≠ 0) (hb : b ≠ 0) :
    a * b = exp (a.log + b.log) := by
  simp [mul_def, ha, hb]

theorem exp_mul_exp (i j : Nat) : exp i * exp j = exp (i + j) := by
  rw [mul_of_ne_zero (exp_ne_zero i) (exp_ne_zero j), log_exp, log_exp, ← exp_mod, ← Nat.add_mod,
    exp_mod]

protected theorem zero_mul (a : GF256) : 0 * a = 0 := by simp [mul_def]

protected theorem mul_zero (a : GF256) : a * 0 = 0 := by simp [mul_def]

theorem eq_zero_or_exp (a : GF256) : a = 0 ∨ ∃ i, a = exp i := by
  by_cases h : a = 0
  · exact .inl h
  · exact .inr ⟨a.log, (exp_log h).symm⟩

/-- Multiplication by a power of x is as many doublings. -/
theorem exp_mul (i : Nat) (b : GF256) : exp i * b = ⟨double^[i] b.byte⟩ := by
  obtain rfl | ⟨j, rfl⟩ := eq_zero_or_exp b
  · rw [GF256.mul_zero]
    exact ext (iterate_double_zero i).symm
  · rw [exp_mul_exp]
    apply ext
    simp only [byte_exp, power_eq_iterate, Function.iterate_add_apply]

protected theorem mul_comm (a b : GF256) : a * b = b * a := by
  obtain rfl | ⟨i, rfl⟩ := eq_zero_or_exp a
  · rw [GF256.zero_mul, GF256.mul_zero]
  obtain rfl | ⟨j, rfl⟩ := eq_zero_or_exp b
  · rw [GF256.zero_mul, GF256.mul_zero]
  rw [exp_mul_exp, exp_mul_exp, Nat.add_comm]

protected theorem mul_assoc (a b c : GF256) : a * b * c = a * (b * c) := by
  obtain rfl | ⟨i, rfl⟩ := eq_zero_or_exp a
  · simp only [GF256.zero_mul]
  obtain rfl | ⟨j, rfl⟩ := eq_zero_or_exp b
  · simp only [GF256.zero_mul, GF256.mul_zero]
  obtain rfl | ⟨k, rfl⟩ := eq_zero_or_exp c
  · simp only [GF256.mul_zero]
  simp only [exp_mul_exp, Nat.add_assoc]

protected theorem one_mul (a : GF256) : 1 * a = a := by
  rw [← exp_zero, exp_mul]
  rfl

protected theorem mul_add (a b c : GF256) : a * (b + c) = a * b + a * c := by
  obtain rfl | ⟨i, rfl⟩ := eq_zero_or_exp a
  · simp only [GF256.zero_mul]
    rfl
  · simp only [exp_mul]
    exact ext (iterate_double_xor i b.byte c.byte)

protected theorem mul_inv_cancel (a : GF256) (h : a ≠ 0) : a * a⁻¹ = 1 := by
  have inverse : a⁻¹ = exp (255 - a.log) := if_neg h
  have small := log_lt h
  rw [inverse]
  nth_rewrite 1 [← exp_log h]
  rw [exp_mul_exp, show a.log + (255 - a.log) = 255 by omega, ← exp_mod, ← exp_zero]

instance : Neg GF256 := ⟨id⟩

instance : Field GF256 where
  add_assoc a b c := ext (UInt8.xor_assoc ..)
  zero_add a := ext (by simp)
  add_zero a := ext (by simp)
  add_comm a b := ext (UInt8.xor_comm ..)
  neg_add_cancel a := ext (UInt8.xor_self)
  nsmul := nsmulRec
  zsmul := zsmulRec
  left_distrib := GF256.mul_add
  right_distrib a b c := by rw [GF256.mul_comm, GF256.mul_add, GF256.mul_comm c, GF256.mul_comm c]
  zero_mul := GF256.zero_mul
  mul_zero := GF256.mul_zero
  mul_assoc := GF256.mul_assoc
  one_mul := GF256.one_mul
  mul_one a := by rw [GF256.mul_comm, GF256.one_mul]
  mul_comm := GF256.mul_comm
  exists_pair_ne := ⟨0, 1, by decide⟩
  mul_inv_cancel := GF256.mul_inv_cancel
  inv_zero := rfl
  nnqsmul := _
  nnqsmul_def _ _ := rfl
  qsmul := _
  qsmul_def _ _ := rfl

theorem add_self (a : GF256) : a + a = 0 := neg_add_cancel a

theorem exp_eq_pow (i : Nat) : exp i = exp 1 ^ i := by
  induction i with
  | zero => rw [pow_zero, exp_zero]
  | succ i ih => rw [pow_succ, ← ih, exp_mul_exp]

theorem pow_eq (a : GF256) (i : Nat) : a.pow i = a ^ i := by
  by_cases hi : i = 0
  · subst hi
    simp [pow]
  by_cases ha : a = 0
  · subst ha
    simp [pow, hi]
  · simp only [pow, hi, ha, if_false]
    nth_rewrite 2 [← exp_log ha]
    rw [exp_eq_pow, exp_eq_pow a.log, ← pow_mul]

end AirLink.GF256
