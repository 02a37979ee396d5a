import AirLink.Proofs.Decoding
import AirLink.Proofs.Checked.Matrices

/-! # The erasure code in checked steps

The weights of all shares are one list, row after row, that is computed when the code is created and
copied from when data are rebuilt.
-/

namespace AirLink.Checked

namespace Shares

open Erasure

def addScaled (factor : GF256) : Bytes → Bytes → Option Bytes
  | [], sum => some sum
  | _, [] => some []
  | b :: share, s :: sum => do
    let product ← Field.mul factor ⟨b⟩
    let rest ← addScaled factor share sum
    return (⟨s⟩ + product : GF256).byte :: rest

/-- Adds multiples of shares, of each as many bytes as are asked for. -/
def weightedSum (reach : Bytes → Nat) : List GF256 → List Bytes → Bytes → Option Bytes
  | weight :: weights, share :: shares, sum => do
    let front ← slice share 0 (reach share)
    let sum ← if weight = 0 then some sum else addScaled weight front sum
    weightedSum reach weights shares sum
  | _, _, sum => some sum

theorem addScaled_eq (factor : GF256) (share sum : Bytes) :
    addScaled factor share sum = some (Erasure.addScaled factor share sum) := by
  induction share generalizing sum with
  | nil => cases sum <;> rfl
  | cons b share ih =>
      cases sum with
      | nil => rfl
      | cons s sum =>
          apply step (Field.mul_eq ..)
          exact step (ih sum) rfl

/-- What lies behind the end of the sum does not count. -/
theorem addScaled_take (factor : GF256) (share sum : Bytes) {size : Nat} (length : sum.length ≤ size) :
    Erasure.addScaled factor (share.take size) sum = Erasure.addScaled factor share sum := by
  induction share generalizing sum size with
  | nil => rw [List.take_nil]
  | cons b share ih =>
      cases sum with
      | nil => cases size <;> rfl
      | cons s sum =>
          cases size with
          | zero => cases length
          | succ size =>
              rw [List.take_succ_cons, Erasure.addScaled, Erasure.addScaled, ih sum (Nat.le_of_succ_le_succ length)]

/-- The first `size` bytes of each share are added, or the whole of a share that is shorter. -/
theorem weightedSum_eq {size : Nat} {reach : Bytes → Nat} (weights : List GF256) {shares : List Bytes}
    (front : ∀ share ∈ shares, reach share = min share.length size) {sum : Bytes} (length : sum.length = size) :
    weightedSum reach weights shares sum =
      some ((weights.zip shares).foldl
        (fun sum (weight, share) => if weight = 0 then sum else Erasure.addScaled weight share sum) sum) := by
  induction weights generalizing shares sum with
  | nil => cases shares <;> rfl
  | cons weight weights ih =>
      cases shares with
      | nil => rfl
      | cons share shares =>
          obtain ⟨here, others⟩ := List.forall_mem_cons.mp front
          have cut : share.take (min share.length size) = share.take size := by
            rw [Nat.min_comm, ← List.take_take, List.take_length]
          rw [List.zip_cons_cons, List.foldl_cons, weightedSum, here]
          apply step (slice_front (Nat.min_le_left ..))
          by_cases zero : weight = 0
          · simp only [zero, if_true]
            exact ih others length
          · simp only [zero, if_false, addScaled_eq, cut, addScaled_take weight share sum (Nat.le_of_eq length)]
            exact ih others ((Shares.length_addScaled ..).trans length)

end Shares

/-- A code with the weights of all its shares. -/
structure Code where
  k : Nat
  n : Nat
  weights : List GF256

namespace Code

/-- An entry of a product of two matrices. -/
def product (k : Nat) (left right : List GF256) (r c : Nat) : Option GF256 :=
  (List.range k).foldlM (fun sum j => do
    let a ← Table.get k left r j
    let b ← Table.get k right j c
    let term ← Field.mul a b
    return sum + term) 0

def fillRow (k r : Nat) (value : Nat → Option GF256) (m : List GF256) : Option (List GF256) :=
  (List.range k).foldlM (fun m c => do
    let x ← value c
    Table.set k m r c x) m

/-- The powers of all points. -/
def vandermonde (k n : Nat) : Option (List GF256) := do
  let size ← mul n k
  let values ← put (List.replicate size 0) 0 1
  let points ← sub n 1
  (List.range points).foldlM (fun m r => do
    let next ← add r 1
    fillRow k next (fun c => do
      let product ← mul r c
      let exponent ← mod product 255
      Field.powers[exponent]?) m) values

def create (k n : Nat) : Option (Except Fault Code) := do
  if k = 0 ∨ n < k ∨ Limits.shares < n then return .error (.invalidCodeSize k n)
  let values ← vandermonde k n
  let square ← mul k k
  let top ← slice values 0 square
  let (regular, _, inverse) ← Table.invert k top (List.replicate square 0)
  if !regular then return .error (.shares .singularMatrix)
  let size ← mul n k
  let weights ← (List.range k).foldlM (fun m i => Table.set k m i i 1) (List.replicate size 0)
  let weights ← (List.range' k (n - k)).foldlM
    (fun m r => fillRow k r (product k values inverse r) m) weights
  return .ok ⟨k, n, weights⟩

/-- The number of parity shares, with one more share counted. -/
def tally (code : Code) (share missing : Nat) : Option Nat :=
  if code.k ≤ share then add missing 1 else some missing

variable {k n r : Nat} {entry : Nat → Nat → GF256}

theorem fillRow_eq {value : Nat → Option GF256} {values : Nat → GF256} (hr : r < n) (small : n * k < 2 ^ 64)
    (known : ∀ c < k, value c = some (values c)) :
    fillRow k r value (Table.flat n k entry) =
      some (Table.flat n k fun i j => if i = r then values j else entry i j) := by
  have sets : ∀ c ∈ List.range k, ∀ m, (do
      let x ← value c
      Table.set k (Table.flat n k m) r c x) =
        some (Table.flat n k fun i j => if i = r ∧ j = c then values j else m i j) := by
    intro c member m
    have hc : c < k := List.mem_range.mp member
    apply step (known c hc)
    rw [Table.set_flat hr hc small]
    apply congrArg some
    apply Table.flat_congr
    intro i _ j _
    by_cases here : j = c
    · rw [here]
    · simp only [here, and_false, if_false]
  apply (Table.foldlM_turns (fun c i j => i = r ∧ j = c) sets entry).trans
  apply congrArg some
  apply Table.flat_congr
  intro i _ j hj
  have same : (∃ c ∈ List.range k, i = r ∧ j = c) ↔ i = r :=
    ⟨fun ⟨_, _, own, _⟩ => own, fun own => ⟨j, List.mem_range.mpr hj, own, rfl⟩⟩
  simp only [same]

open Erasure (point powersRow)

/-- The powers of the point of a share. -/
def powerOf (r c : Nat) : GF256 := point r ^ c

/-- The first row: the powers of zero. -/
theorem first_row (hk : 0 < k) :
    (List.replicate (n * k) 0).set 0 1 = Table.flat n k fun i j => if i = 0 then powerOf i j else 0 := by
  apply List.ext_getElem
  · rw [List.length_set, List.length_replicate, Table.length_flat]
  intro p _ _
  simp only [List.getElem_set, List.getElem_replicate, Table.flat, List.getElem_map, List.getElem_range,
    Nat.div_eq_zero_iff, Nat.ne_of_gt hk, false_or, powerOf]
  by_cases first : p < k
  · rw [if_pos first, Nat.div_eq_of_lt first, Nat.mod_eq_of_lt first, point, zero_pow_eq]
    simp only [eq_comm]
  · rw [if_neg first, if_neg (by omega)]

/-- The exponent is reduced before the table is asked, and the table has it. -/
theorem power_eq {c : Nat} (hr : r < 255) (hc : c < 255) : (do
    let product ← mul r c
    let exponent ← mod product 255
    Field.powers[exponent]? : Option GF256) = some (powerOf (r + 1) c) := by
  have product : r * c ≤ 255 * 255 := Nat.mul_le_mul hr.le hc.le
  apply step (mul_eq (by omega))
  apply step (mod_eq (by decide))
  rw [Field.getElem?_powers (Nat.lt_trans (Nat.mod_lt _ (by decide)) (by decide)), GF256.exp_mod,
    GF256.exp_eq_pow, pow_mul, ← GF256.exp_eq_pow]
  rfl

theorem vandermonde_eq (hk : 0 < k) (hkn : k ≤ n) (hn : n ≤ 255) :
    vandermonde k n = some (Table.flat n k powerOf) := by
  have small : n * k < 2 ^ 64 := Nat.lt_of_le_of_lt (Nat.mul_le_mul hn (hkn.trans hn)) (by decide)
  have positive : 0 < n * k := Nat.mul_pos (by omega) hk
  have sets : ∀ r ∈ List.range (n - 1), ∀ m, (do
      let next ← add r 1
      fillRow k next (fun c => do
        let product ← mul r c
        let exponent ← mod product 255
        Field.powers[exponent]?) (Table.flat n k m)) =
        some (Table.flat n k fun i j => if i = r + 1 then powerOf i j else m i j) := by
    intro r member m
    have hr : r < n - 1 := List.mem_range.mp member
    apply step (add_eq (by omega))
    rw [fillRow_eq (by omega) small fun c hc => power_eq (by omega) (by omega)]
    apply congrArg some
    apply Table.flat_congr
    intro i _ j _
    by_cases here : i = r + 1
    · rw [here]
    · simp only [here, if_false]
  apply step (mul_eq (by omega))
  apply step (put_eq (by rwa [List.length_replicate]) 1)
  apply step (sub_eq (by omega))
  rw [first_row hk]
  apply (Table.foldlM_turns (fun r i _ => i = r + 1) sets _).trans
  apply congrArg some
  apply Table.flat_congr
  intro i hi j _
  cases i with
  | zero => simp
  | succ i => simp [show i < n - 1 by omega]

open Table (stored entryOf)

theorem product_eq {values : Nat → Nat → GF256} (inverse : Erasure.Matrix k) {c : Nat} (hr : r < n) (hc : c < k)
    (small : n * k < 2 ^ 64) (square : k * k < 2 ^ 64) :
    product k (Table.flat n k values) (stored inverse) r c =
      some (∑ j : Fin k, values r j * entryOf inverse j c) := by
  have sum := foldlM_range (fun m => ∑ j ∈ Finset.range m, values r j * entryOf inverse j c) k
    (f := fun sum j => do
      let a ← Table.get k (Table.flat n k values) r j
      let b ← Table.get k (stored inverse) j c
      let term ← Field.mul a b
      return sum + term) fun j hj => by
    apply step (Table.get_flat hr hj small)
    apply step (Table.get_flat hj hc square)
    apply step (Field.mul_eq ..)
    rw [Finset.sum_range_succ]
    rfl
  rw [Fin.sum_univ_eq_sum_range fun j => values r j * entryOf inverse j c]
  exact sum

/-- A code with the weights of all its shares written out. -/
def weightOf (code : ErasureCode) (i j : Nat) : GF256 :=
  if h : j < code.k then (code.row i).get ⟨j, h⟩ else 0

def of (code : ErasureCode) : Code := ⟨code.k, code.n, Table.flat code.n code.k (weightOf code)⟩

/-- The powers of the points of the data shares are the first rows. -/
theorem take_powers (hk : 0 < k) (hkn : k ≤ n) :
    (Table.flat n k powerOf).take (k * k) = stored (Vector.ofFn fun i : Fin k => powersRow k (point i)) := by
  have square : k * k ≤ n * k := Nat.mul_le_mul_right k hkn
  apply List.ext_getElem
  · rw [List.length_take, Table.length_flat, stored, Table.length_flat, Nat.min_eq_left square]
  intro p _ hp
  rw [stored, Table.length_flat] at hp
  have row : p / k < k := Nat.div_lt_of_lt_mul hp
  have column : p % k < k := Nat.mod_lt _ hk
  simp only [List.getElem_take, Table.flat, stored, List.getElem_map, List.getElem_range]
  rw [entryOf, dif_pos ⟨row, column⟩, Elimination.entries_apply]
  simp [ErasureCode.get_powersRow, powerOf]

/-- The rows of the parity shares are products, those of the data shares stay unit vectors. -/
theorem parityRows_eq (inverse : Erasure.Matrix k) (hkn : k ≤ n) (small : n * k < 2 ^ 64) :
    (List.range' k (n - k)).foldlM
        (fun m r => fillRow k r (product k (Table.flat n k powerOf) (stored inverse) r) m)
        (Table.flat n k fun i j => if i = j then 1 else 0) =
      some (of ⟨k, n, (List.range (n - k)).map fun j =>
        (powersRow k (point (k + j))).times inverse⟩).weights := by
  have square : k * k ≤ n * k := Nat.mul_le_mul_right k hkn
  let parityRows := (List.range (n - k)).map fun j => (powersRow k (point (k + j))).times inverse
  have own {r j : Nat} (hr : k ≤ r ∧ r < n) (hj : j < k) :
      weightOf ⟨k, n, parityRows⟩ r j = ∑ c : Fin k, powerOf r c * entryOf inverse c j := by
    obtain ⟨m, rfl⟩ := Nat.exists_eq_add_of_le hr.1
    have inside : m < n - k := by omega
    rw [weightOf, dif_pos hj, ErasureCode.row_parity (Nat.le_add_right ..), Nat.add_sub_cancel_left]
    have row : parityRows.getD m (Vector.replicate k 0) = (powersRow k (point (k + m))).times inverse := by
      simp [parityRows, List.getD_eq_getElem?_getD, inside]
    rw [row, ErasureCode.get_times]
    simp only [ErasureCode.get_powersRow, powerOf, entryOf, Fin.isLt, hj, and_self, dif_pos]
  have sets : ∀ r ∈ List.range' k (n - k), ∀ m,
      fillRow k r (product k (Table.flat n k powerOf) (stored inverse) r) (Table.flat n k m) =
        some (Table.flat n k fun i j => if i = r then weightOf ⟨k, n, parityRows⟩ i j else m i j) := by
    intro r member m
    have hr : k ≤ r ∧ r < n := by
      have := List.mem_range'_1.mp member
      omega
    rw [fillRow_eq hr.2 small fun c hc => product_eq inverse hr.2 hc small (by omega)]
    apply congrArg some
    apply Table.flat_congr
    intro i _ j hj
    by_cases here : i = r
    · rw [if_pos here, if_pos here, here, own hr hj]
    · rw [if_neg here, if_neg here]
  apply (Table.foldlM_turns (fun r i _ => i = r) sets _).trans
  apply congrArg some
  apply Table.flat_congr
  intro i hi j hj
  change i < n at hi
  have parity : (∃ r ∈ List.range' k (n - k), i = r) ↔ k ≤ i := by
    simp only [exists_eq_right', List.mem_range'_1]
    omega
  simp only [parity]
  by_cases data : i < k
  · rw [if_neg (Nat.not_le.mpr data), weightOf, dif_pos hj, ErasureCode.row_data data]
    simp only [eq_comm]
  · rw [if_pos (Nat.le_of_not_lt data)]

/-- A code is created, or refused, like the one that is not checked. -/
theorem create_eq (k n : Nat) : create k n = some ((ErasureCode.create k n).map of) := by
  unfold create ErasureCode.create
  by_cases refused : k = 0 ∨ n < k ∨ Limits.shares < n
  · rw [if_pos refused, if_pos refused]
    rfl
  rw [if_neg refused, if_neg refused]
  have hk : 0 < k := by omega
  have hkn : k ≤ n := by omega
  have hn : n ≤ 255 := by
    simp only [not_or, Limits.shares] at refused
    omega
  have small : n * k < 2 ^ 64 := Nat.lt_of_le_of_lt (Nat.mul_le_mul hn (hkn.trans hn)) (by decide)
  have square : k * k ≤ n * k := Nat.mul_le_mul_right k hkn
  obtain ⟨left, right, inverted, same⟩ := Table.invert_of (k := k) (by omega)
    (Vector.ofFn fun i => powersRow k (point i)) (@List.length_replicate GF256 (k * k) 0)
  apply step (vandermonde_eq hk hkn hn)
  apply step (mul_eq (by omega))
  apply step (slice_front (by rwa [Table.length_flat]))
  rw [take_powers hk hkn]
  apply step inverted
  dsimp only
  cases known : Erasure.Matrix.invert (Vector.ofFn fun i : Fin k => powersRow k (point i)) with
  | none => rfl
  | some inverse =>
      obtain rfl := same inverse known
      apply step (mul_eq (by omega))
      apply step (Table.diagonal_eq hkn small)
      apply step (parityRows_eq inverse hkn small)
      rfl

variable {code : ErasureCode}

theorem small_of_sound (sound : ErasureCode.Sound code) : code.n * code.k < 2 ^ 64 ∧ code.k * code.k < 2 ^ 64 := by
  have few := sound.few
  have le := sound.le
  exact ⟨Nat.lt_of_le_of_lt (Nat.mul_le_mul few (le.trans few)) (by decide),
    Nat.lt_of_le_of_lt (Nat.mul_le_mul (le.trans few) (le.trans few)) (by decide)⟩

/-- A matrix with the weights of some shares as its rows from `start` on. -/
def withRows (code : ErasureCode) (start : Nat) (shares : List Nat) (entry : Nat → Nat → GF256) (i j : Nat) :
    GF256 :=
  if start ≤ i ∧ i < start + shares.length then weightOf code (shares.getD (i - start) 0) j else entry i j

theorem withRows_nil (start : Nat) : withRows code start [] entry = entry := by
  funext i j
  have none : ¬(start ≤ i ∧ i < start + 0) := by omega
  exact if_neg none

theorem withRows_cons (start share : Nat) (shares : List Nat) :
    withRows code start (share :: shares) entry =
      withRows code (start + 1) shares fun i j => if i = start then weightOf code share j else entry i j := by
  funext i j
  simp only [withRows, List.length_cons]
  rcases Nat.lt_trichotomy i start with before | rfl | behind
  · rw [if_neg (by omega), if_neg (by omega), if_neg (by omega)]
  · rw [if_pos (by omega), if_neg (by omega), if_pos rfl, Nat.sub_self, List.getD_cons_zero]
  · have next : i - start = i - (start + 1) + 1 := by omega
    have same : (start ≤ i ∧ i < start + (shares.length + 1)) ↔
        (start + 1 ≤ i ∧ i < start + 1 + shares.length) := by omega
    rw [next, List.getD_cons_succ, if_neg (Nat.ne_of_gt behind)]
    simp only [same]

/-- One more parity share is counted; there are so few shares that a word holds their number. -/
theorem tally_eq {share missing : Nat} (few : missing < 255) :
    (of code).tally share missing = some (missing + if code.k ≤ share then 1 else 0) := by
  change (if code.k ≤ share then _ else _) = _
  split
  · exact add_eq (by omega)
  · rfl

/-- Once each place has the row of a share, nothing is left of what was there before. -/
theorem withRows_all {indices : List Nat} (length : indices.length = code.k) :
    Table.flat code.k code.k (withRows code 0 indices entry) =
      stored (Vector.ofFn fun i : Fin code.k => code.row (indices.getD i 0)) := by
  symm
  apply Table.stored_eq
  intro i j
  have here : 0 ≤ i.val ∧ i.val < 0 + indices.length := by
    rw [length]
    omega
  rw [withRows, if_pos here, weightOf, dif_pos j.isLt, Elimination.entries_apply]
  simp

theorem row_stored (m : Erasure.Matrix k) (i : Fin k) :
    (List.range k).map (entryOf m i) = (getElem m i i.isLt).toList := by
  apply List.ext_getElem
  · simp
  · intro j hj _
    rw [List.length_map, List.length_range] at hj
    simp [entryOf, hj, Elimination.entries_apply, Vector.get_eq_getElem]

end Code

end AirLink.Checked
