import AirLink.Proofs.Elimination
import AirLink.Proofs.Checked.Words

/-! # Matrices in checked steps

The elements of the field are looked up in two tables, and a matrix is one list of elements, row after
row, in which an entry is found by its place.  Inversion on such lists goes through entry by entry; it
reads and writes inside the lists and gives what the inversion of rows gives.
-/

namespace AirLink.Checked

namespace Field

/-- The powers of the root, so many that the sum of two exponents is a place in the table. -/
def powers : List GF256 := (List.range 512).map GF256.exp

/-- The exponent of each byte. -/
def exponents : List Nat := GF256.exponents.toList

def log (a : GF256) : Option Nat := exponents[a.byte.toNat]?

def mul (a b : GF256) : Option GF256 := do
  if a = 0 ∨ b = 0 then return 0
  let i ← log a
  let j ← log b
  let sum ← add i j
  powers[sum]?

/-- The inverse of an element; zero is not asked for. -/
def inv (a : GF256) : Option GF256 := do
  if a = 0 then none
  else
    let i ← log a
    let opposite ← sub 255 i
    powers[opposite]?

theorem log_eq (a : GF256) : log a = some a.log := by
  have inside : a.byte.toNat < exponents.length := by
    rw [exponents, Vector.length_toList]
    exact a.byte.toNat_lt
  rw [log, List.getElem?_eq_getElem inside, GF256.log, Vector.get_eq_getElem]
  exact congrArg some (Vector.getElem_toList _)

theorem getElem?_powers {i : Nat} (h : i < 512) : powers[i]? = some (GF256.exp i) := by
  rw [powers, List.getElem?_map, List.getElem?_range h]
  rfl

theorem mul_eq (a b : GF256) : mul a b = some (a * b) := by
  rw [mul, GF256.mul_def]
  by_cases zero : a = 0 ∨ b = 0
  · rw [if_pos zero, if_pos zero]
    rfl
  · have left := GF256.log_lt (not_or.mp zero).1
    have right := GF256.log_lt (not_or.mp zero).2
    rw [if_neg zero, if_neg zero]
    apply step (log_eq a)
    apply step (log_eq b)
    apply step (add_eq (by omega))
    exact getElem?_powers (by omega)

theorem inv_eq {a : GF256} (h : a ≠ 0) : inv a = some a⁻¹ := by
  have inverse : a⁻¹ = GF256.exp (255 - a.log) := if_neg h
  have small := GF256.log_lt h
  rw [inv, if_neg h, inverse]
  apply step (log_eq a)
  apply step (sub_eq (Nat.le_of_lt small))
  exact getElem?_powers (by omega)

end Field

namespace Table

/-- The entries of a matrix, row after row. -/
def flat (n k : Nat) (entry : Nat → Nat → GF256) : List GF256 :=
  (List.range (n * k)).map fun p => entry (p / k) (p % k)

/-- The place of an entry in rows of length `k`. -/
def place (k r c : Nat) : Option Nat := do
  let start ← mul r k
  add start c

def get (k : Nat) (m : List GF256) (r c : Nat) : Option GF256 := do
  let p ← place k r c
  m[p]?

def set (k : Nat) (m : List GF256) (r c : Nat) (x : GF256) : Option (List GF256) := do
  let p ← place k r c
  put m p x

variable {n k r c : Nat} {entry : Nat → Nat → GF256}

theorem length_flat (n k : Nat) (entry : Nat → Nat → GF256) : (flat n k entry).length = n * k := by
  rw [flat, List.length_map, List.length_range]

theorem place_lt (hr : r < n) (hc : c < k) : r * k + c < n * k := by
  have rows : (r + 1) * k ≤ n * k := Nat.mul_le_mul_right k hr
  rw [Nat.succ_mul] at rows
  omega

theorem place_eq (hr : r < n) (hc : c < k) (small : n * k < 2 ^ 64) : place k r c = some (r * k + c) := by
  have inside := place_lt hr hc
  apply step (mul_eq (by omega))
  exact add_eq (by omega)

theorem div_place (hc : c < k) : (r * k + c) / k = r := by
  rw [Nat.mul_comm, Nat.mul_add_div (by omega), Nat.div_eq_of_lt hc, Nat.add_zero]

theorem mod_place (hc : c < k) : (r * k + c) % k = c := by
  rw [Nat.mul_comm, Nat.mul_add_mod, Nat.mod_eq_of_lt hc]

theorem getElem?_flat (hr : r < n) (hc : c < k) : (flat n k entry)[r * k + c]? = some (entry r c) := by
  rw [flat, List.getElem?_map, List.getElem?_range (place_lt hr hc), Option.map_some, div_place hc, mod_place hc]

theorem flat_congr {other : Nat → Nat → GF256} (same : ∀ i < n, ∀ j < k, entry i j = other i j) :
    flat n k entry = flat n k other := by
  apply List.map_congr_left
  intro p hp
  have inside : p < n * k := List.mem_range.mp hp
  have positive : 0 < k := Nat.pos_of_ne_zero fun zero => by simp [zero] at inside
  exact same _ (Nat.div_lt_of_lt_mul (by rwa [Nat.mul_comm])) _ (Nat.mod_lt _ positive)

theorem replicate_zero (n k : Nat) : List.replicate (n * k) 0 = flat n k fun _ _ => 0 := by
  simp [flat, List.map_const']

theorem get_flat (hr : r < n) (hc : c < k) (small : n * k < 2 ^ 64) :
    get k (flat n k entry) r c = some (entry r c) := by
  apply step (place_eq hr hc small)
  exact getElem?_flat hr hc

theorem set_flat (hr : r < n) (hc : c < k) (small : n * k < 2 ^ 64) (x : GF256) :
    set k (flat n k entry) r c x =
      some (flat n k fun i j => if i = r ∧ j = c then x else entry i j) := by
  have inside := place_lt hr hc
  apply step (place_eq hr hc small)
  rw [put_eq (by rwa [length_flat])]
  apply congrArg some
  apply List.ext_getElem
  · rw [List.length_set, length_flat, length_flat]
  intro p hp hp'
  rw [length_flat] at hp'
  have here : r * k + c = p ↔ p / k = r ∧ p % k = c := by
    constructor
    · rintro rfl
      exact ⟨div_place hc, mod_place hc⟩
    · rintro ⟨rfl, rfl⟩
      rw [Nat.mul_comm]
      exact Nat.div_add_mod p k
  simp only [List.getElem_set, flat, List.getElem_map, List.getElem_range, here]

/-- Cuts out a row. -/
def row (k : Nat) (m : List GF256) (r : Nat) : Option (List GF256) := do
  let start ← mul r k
  let next ← add r 1
  let stop ← mul next k
  slice m start stop

/-- Replaces a row. -/
def putRow (k : Nat) (m : List GF256) (r : Nat) (entries : List GF256) : Option (List GF256) := do
  let start ← mul r k
  let next ← add r 1
  let stop ← mul next k
  blit m start stop entries

theorem row_le (hr : r < n) : (r + 1) * k ≤ n * k := Nat.mul_le_mul_right k hr

theorem row_flat (hr : r < n) (small : n * k < 2 ^ 64) (few : n < 2 ^ 64) :
    row k (flat n k entry) r = some ((List.range k).map (entry r)) := by
  have inside : (r + 1) * k ≤ n * k := row_le hr
  have stop : (r + 1) * k = r * k + k := Nat.succ_mul r k
  apply step (mul_eq (by omega))
  apply step (add_eq (by omega))
  apply step (mul_eq (by omega))
  rw [stop, slice_add (by rw [length_flat]; omega)]
  apply congrArg some
  apply List.ext_getElem
  · rw [List.length_take, List.length_drop, length_flat, List.length_map, List.length_range]
    omega
  intro c hc hc'
  rw [List.length_map, List.length_range] at hc'
  simp only [List.getElem_take, List.getElem_drop, flat, List.getElem_map, List.getElem_range, div_place hc',
    mod_place hc']

theorem putRow_flat (hr : r < n) (small : n * k < 2 ^ 64) (few : n < 2 ^ 64) (value : Nat → GF256) :
    putRow k (flat n k entry) r ((List.range k).map value) =
      some (flat n k fun i j => if i = r then value j else entry i j) := by
  have inside : (r + 1) * k ≤ n * k := row_le hr
  have stop : (r + 1) * k = r * k + k := Nat.succ_mul r k
  apply step (mul_eq (by omega))
  apply step (add_eq (by omega))
  apply step (mul_eq (by omega))
  have length : ((List.range k).map value).length = (r + 1) * k - r * k := by
    rw [List.length_map, List.length_range, stop, Nat.add_sub_cancel_left]
  rw [blit_eq (Nat.mul_le_mul_right k (Nat.le_add_right r 1)) (by rwa [length_flat]) length]
  apply congrArg some
  apply List.ext_getElem
  · simp only [List.length_append, List.length_take, List.length_drop, length_flat, length]
    omega
  intro p _ hp
  rw [length_flat] at hp
  have positive : 0 < k := Nat.pos_of_ne_zero fun zero => by simp [zero] at hp
  have before : min (r * k) (n * k) = r * k := Nat.min_eq_left (by omega)
  have lower : r ≤ p / k ↔ r * k ≤ p := Nat.le_div_iff_mul_le positive
  have upper : p / k < r + 1 ↔ p < (r + 1) * k := Nat.div_lt_iff_lt_mul positive
  simp only [List.getElem_append, List.length_append, List.length_take, before, List.length_map,
    List.length_range, List.getElem_take, List.getElem_drop, List.getElem_map, List.getElem_range, flat]
  by_cases first : p < r * k
  · rw [dif_pos (by omega), dif_pos first, if_neg (by omega)]
  by_cases here : p < (r + 1) * k
  · have own : p / k = r := by omega
    have column : p % k = p - r * k := by
      have parts := Nat.div_add_mod p k
      rw [own, Nat.mul_comm] at parts
      omega
    rw [dif_pos (by omega), dif_neg first, if_pos own, column]
  · have same : (r + 1) * k + (p - (r * k + k)) = p := by omega
    rw [dif_neg (by omega), if_neg (by omega), same]

/-- A loop in each round of which the entries whose turn it is are set. -/
theorem foldlM_turns {round : List GF256 → Nat → Option (List GF256)} {value : Nat → Nat → GF256}
    (turn : Nat → Nat → Nat → Prop) [∀ t i j, Decidable (turn t i j)] {rounds : List Nat}
    (sets : ∀ t ∈ rounds, ∀ entry, round (flat n k entry) t =
      some (flat n k fun i j => if turn t i j then value i j else entry i j)) (entry : Nat → Nat → GF256) :
    rounds.foldlM round (flat n k entry) =
      some (flat n k fun i j => if ∃ t ∈ rounds, turn t i j then value i j else entry i j) := by
  induction rounds generalizing entry with
  | nil => simp
  | cons t rounds ih =>
      rw [List.foldlM_cons]
      apply step (sets t (List.mem_cons_self ..) entry)
      rw [ih fun u member => sets u (List.mem_cons_of_mem _ member)]
      apply congrArg some
      apply flat_congr
      intro i _ j _
      by_cases here : turn t i j <;> simp [here]

/-! ## Loops over the columns of one row -/

/-- One round for each of two matrices. -/
def inBoth (round : List GF256 → Nat → Option (List GF256)) (pair : List GF256 × List GF256) (c : Nat) :
    Option (List GF256 × List GF256) := do
  let left ← round pair.1 c
  let right ← round pair.2 c
  return (left, right)

/-- Exchanges the entries of two rows. -/
def swapEntries (k p r : Nat) (m : List GF256) (c : Nat) : Option (List GF256) := do
  let upper ← get k m p c
  let lower ← get k m r c
  let m ← set k m p c lower
  set k m r c upper

def scaleEntry (k r : Nat) (factor : GF256) (m : List GF256) (c : Nat) : Option (List GF256) := do
  let entry ← get k m r c
  let scaled ← Field.mul entry factor
  set k m r c scaled

/-- Adds a multiple of another row. -/
def addEntry (k r other : Nat) (factor : GF256) (m : List GF256) (c : Nat) : Option (List GF256) := do
  let entry ← get k m r c
  let source ← get k m other c
  let scaled ← Field.mul factor source
  set k m r c (entry + scaled)

/-- A round that changes one column, by itself. -/
def Columnwise (k : Nat) (round : List GF256 → Nat → Option (List GF256))
    (change : (Nat → GF256) → Nat → GF256) : Prop :=
  ∀ entry c, c < k → round (flat k k entry) c =
    some (flat k k fun i j => if j = c then change (entry · j) i else entry i j)

theorem columnwise_swap {p : Nat} (hp : p < k) (hr : r < k) (small : k * k < 2 ^ 64) :
    Columnwise k (swapEntries k p r) fun column i =>
      if i = r then column p else if i = p then column r else column i := by
  intro entry c hc
  apply step (get_flat hp hc small)
  apply step (get_flat hr hc small)
  apply step (set_flat hp hc small _)
  rw [set_flat hr hc small]
  apply congrArg some
  apply flat_congr
  intro i _ j _
  by_cases other : j = c
  · subst other
    simp only [and_true, if_true]
  · simp only [other, and_false, if_false]

/-- A round that sets the entry of one row to a value that depends on its column. -/
theorem columnwise_row {round : List GF256 → Nat → Option (List GF256)} {value : (Nat → GF256) → GF256}
    (hr : r < k) (small : k * k < 2 ^ 64)
    (sets : ∀ entry c, c < k → round (flat k k entry) c = set k (flat k k entry) r c (value (entry · c))) :
    Columnwise k round fun column i => if i = r then value column else column i := by
  intro entry c hc
  rw [sets entry c hc, set_flat hr hc small]
  apply congrArg some
  apply flat_congr
  intro i _ j _
  by_cases other : j = c
  · subst other
    simp only [and_true, if_true]
  · simp only [other, and_false, if_false]

theorem columnwise_scale {factor : GF256} (hr : r < k) (small : k * k < 2 ^ 64) :
    Columnwise k (scaleEntry k r factor) fun column i => if i = r then column r * factor else column i := by
  refine columnwise_row hr small fun entry c hc => ?_
  rw [scaleEntry, get_flat hr hc small, Option.bind_eq_bind, Option.bind_some, Field.mul_eq]
  rfl

theorem columnwise_add {other : Nat} {factor : GF256} (hr : r < k) (ho : other < k) (small : k * k < 2 ^ 64) :
    Columnwise k (addEntry k r other factor) fun column i =>
      if i = r then column r + factor * column other else column i := by
  refine columnwise_row hr small fun entry c hc => ?_
  rw [addEntry, get_flat hr hc small, get_flat ho hc small, Option.bind_eq_bind, Option.bind_some,
    Option.bind_some, Field.mul_eq]
  rfl

/-- A matrix of which the columns before `c` have been changed. -/
def changedBefore (change : (Nat → GF256) → Nat → GF256) (entry : Nat → Nat → GF256) (c i j : Nat) :
    GF256 :=
  if j < c then change (entry · j) i else entry i j

theorem Columnwise.next {round : List GF256 → Nat → Option (List GF256)}
    {change : (Nat → GF256) → Nat → GF256} (columnwise : Columnwise k round change) (entry : Nat → Nat → GF256) (hc : c < k) :
    round (flat k k (changedBefore change entry c)) c = some (flat k k (changedBefore change entry (c + 1))) := by
  rw [columnwise _ c hc]
  apply congrArg some
  apply flat_congr
  intro i _ j _
  unfold changedBefore
  rcases Nat.lt_trichotomy j c with before | rfl | behind
  · rw [if_neg (Nat.ne_of_lt before), if_pos before, if_pos (Nat.lt_succ_of_lt before)]
  · simp only [Nat.lt_irrefl, if_false, if_true, Nat.lt_succ_self]
  · rw [if_neg (Nat.ne_of_gt behind), if_neg (Nat.not_lt_of_gt behind), if_neg (by omega)]

/-- All columns are changed, those of the right matrix like those of the left one. -/
theorem columns_eq {round : List GF256 → Nat → Option (List GF256)} {change : (Nat → GF256) → Nat → GF256}
    (columnwise : Columnwise k round change) (left right : Nat → Nat → GF256) :
    (List.range k).foldlM (inBoth round) (flat k k left, flat k k right) =
      some (flat k k fun i j => change (left · j) i, flat k k fun i j => change (right · j) i) := by
  have start (entry) : flat k k entry = flat k k (changedBefore change entry 0) :=
    flat_congr fun _ _ _ _ => rfl
  have stop (entry) : (flat k k fun i j => change (entry · j) i) = flat k k (changedBefore change entry k) :=
    flat_congr fun _ _ _ hj => (if_pos hj).symm
  rw [start left, start right, stop left, stop right]
  exact foldlM_range (fun c => (flat k k (changedBefore change left c), flat k k (changedBefore change right c))) k
    fun c hc => step (columnwise.next left hc) (step (columnwise.next right hc) rfl)

/-! ## Elimination -/

def swapRows (k p r : Nat) (pair : List GF256 × List GF256) : Option (List GF256 × List GF256) :=
  if p = r then some pair else (List.range k).foldlM (inBoth (swapEntries k p r)) pair

/-- Clears an entry of the column in the left matrix by adding a multiple of the column's own row. -/
def clearRow (k column : Nat) (pair : List GF256 × List GF256) (r : Nat) : Option (List GF256 × List GF256) := do
  let factor ← get k pair.1 r column
  if r = column ∨ factor = 0 then return pair
  (List.range k).foldlM (inBoth (addEntry k r column factor)) pair

/-- Makes one column of the left matrix a column of the identity, if a row can be found for it. -/
def eliminate (k : Nat) (pair : List GF256 × List GF256) (column : Nat) :
    Option (Option (List GF256 × List GF256)) := do
  let pivot ← (List.range' column (k - column)).findM? fun r => do
    let entry ← get k pair.1 r column
    return entry != 0
  match pivot with
  | none => return none
  | some p =>
    let pair ← swapRows k p column pair
    let entry ← get k pair.1 column column
    let factor ← Field.inv entry
    let pair ← (List.range k).foldlM (inBoth (scaleEntry k column factor)) pair
    let pair ← (List.range k).foldlM (clearRow k column) pair
    return some pair

/-- Eliminates columns as long as there are pivots, and tells whether there was one for each. -/
def eliminateAll (k : Nat) : List Nat → List GF256 × List GF256 → Option (Bool × List GF256 × List GF256)
  | [], pair => some (true, pair)
  | column :: columns, pair => do
    let result ← eliminate k pair column
    match result with
    | none => return (false, pair)
    | some pair => eliminateAll k columns pair

/-- Inverts a matrix in its place, with the inverse in the place of another one. -/
def invert (k : Nat) (matrix inverse : List GF256) : Option (Bool × List GF256 × List GF256) := do
  let identity ← (List.range k).foldlM (fun m i => set k m i i 1) (inverse.map fun _ => 0)
  eliminateAll k (List.range k) (matrix, identity)

variable {column : Nat}

theorem clearRow_eq (hr : r < k) (hc : column < k) (small : k * k < 2 ^ 64) (left right : Nat → Nat → GF256) :
    clearRow k column (flat k k left, flat k k right) r =
      some (
        flat k k fun i j => if i = r ∧ r ≠ column then left r j + left r column * left column j else left i j,
        flat k k fun i j =>
          if i = r ∧ r ≠ column then right r j + left r column * right column j else right i j) := by
  apply step (get_flat hr hc small)
  by_cases same : r = column
  · rw [if_pos (.inl same)]
    simp only [same, ne_eq, not_true, and_false, if_false]
    rfl
  by_cases zero : left r column = 0
  · rw [if_pos (.inr zero)]
    have kept (m : Nat → Nat → GF256) :
        (fun i j => if i = r ∧ r ≠ column then m r j + left r column * m column j else m i j) = m := by
      funext i j
      by_cases here : i = r <;> simp [here, zero]
    rw [kept left, kept right]
    rfl
  · rw [if_neg (not_or.mpr ⟨same, zero⟩), columns_eq (columnwise_add hr hc small)]
    simp only [same, ne_eq, not_false_iff, and_true]

/-- A matrix of which the rows before `r` have been cleared in a column, guided by another one; the
column's own row stays as it is. -/
def clearedBefore (column : Nat) (guide m : Nat → Nat → GF256) (r i j : Nat) : GF256 :=
  if i = column ∨ r ≤ i then m i j else m i j + guide i column * m column j

theorem clearedBefore_next (guide m : Nat → Nat → GF256) (r : Nat) :
    (fun i j => if i = r ∧ r ≠ column then
      clearedBefore column guide m r r j +
        clearedBefore column guide guide r r column * clearedBefore column guide m r column j
      else clearedBefore column guide m r i j) = clearedBefore column guide m (r + 1) := by
  funext i j
  by_cases here : i = r ∧ r ≠ column
  · obtain ⟨rfl, other⟩ := here
    simp [clearedBefore, other]
  · have same : (i = column ∨ r ≤ i) ↔ (i = column ∨ r + 1 ≤ i) := by omega
    simp only [clearedBefore, here, if_false, same]

theorem clearRows_eq (hc : column < k) (small : k * k < 2 ^ 64) (left right : Nat → Nat → GF256) :
    (List.range k).foldlM (clearRow k column) (flat k k left, flat k k right) =
      some (flat k k fun i j => if i = column then left i j else left i j + left i column * left column j,
        flat k k fun i j => if i = column then right i j else right i j + left i column * right column j) := by
  have start (m) : flat k k m = flat k k (clearedBefore column left m 0) :=
    flat_congr fun _ _ _ _ => by simp [clearedBefore]
  have stop (m : Nat → Nat → GF256) :
      (flat k k fun i j => if i = column then m i j else m i j + left i column * m column j) =
        flat k k (clearedBefore column left m k) :=
    flat_congr fun i hi _ _ => by simp [clearedBefore, Nat.not_le.mpr hi]
  rw [start left, start right, stop left, stop right]
  refine foldlM_range (fun r => (flat k k (clearedBefore column left left r),
    flat k k (clearedBefore column left right r))) k fun r hr => ?_
  rw [clearRow_eq hr hc small, clearedBefore_next, clearedBefore_next]

/-- The row that is at a place after two rows have been exchanged. -/
def exchanged (p column i : Nat) : Nat := if i = column then p else if i = p then column else i

/-- A matrix after the elimination of a column, guided by the left one, with the pivot in row `p`. -/
def eliminated (guide m : Nat → Nat → GF256) (p column i j : Nat) : GF256 :=
  if i = column then m p j * (guide p column)⁻¹
  else m (exchanged p column i) j + guide (exchanged p column i) column * (m p j * (guide p column)⁻¹)

theorem swapRows_eq {p : Nat} (hp : p < k) (hc : column < k) (small : k * k < 2 ^ 64)
    (left right : Nat → Nat → GF256) :
    swapRows k p column (flat k k left, flat k k right) =
      some (flat k k fun i => left (exchanged p column i), flat k k fun i => right (exchanged p column i)) := by
  unfold swapRows
  by_cases same : p = column
  · have kept (i : Nat) : exchanged p column i = i := by
      unfold exchanged
      split
      · exact same.trans (Eq.symm ‹_›)
      · split
        · exact same.symm.trans (Eq.symm ‹_›)
        · rfl
    simp only [same, if_true]
    simp only [same] at kept
    simp only [kept]
  · rw [if_neg same, columns_eq (columnwise_swap hp hc small)]
    have row (m : Nat → Nat → GF256) (i j : Nat) :
        (if i = column then m p j else if i = p then m column j else m i j) = m (exchanged p column i) j := by
      unfold exchanged
      split
      · rfl
      · split <;> rfl
    simp only [row]

theorem eliminate_eq (hc : column < k) (small : k * k < 2 ^ 64) (left right : Nat → Nat → GF256) :
    eliminate k (flat k k left, flat k k right) column =
      some (((List.range' column (k - column)).find? fun r => left r column != 0).map fun p =>
        (flat k k (eliminated left left p column), flat k k (eliminated left right p column))) := by
  have look : (List.range' column (k - column)).findM? (fun r => do
      let entry ← get k (flat k k left) r column
      return entry != 0) = some ((List.range' column (k - column)).find? fun r => left r column != 0) := by
    apply findM_eq
    intro r member
    have hr : r < k := by
      have := List.mem_range'_1.mp member
      omega
    exact step (get_flat hr hc small) rfl
  apply step look
  cases found : (List.range' column (k - column)).find? fun r => left r column != 0 with
  | none => rfl
  | some p =>
      have pivot : left p column ≠ 0 := by simpa using List.find?_some found
      have hp : p < k := by
        have := List.mem_range'_1.mp (List.mem_of_find?_eq_some found)
        omega
      have entry : get k (flat k k fun i => left (exchanged p column i)) column column = some (left p column) := by
        rw [get_flat hc hc small, exchanged, if_pos rfl]
      apply step (swapRows_eq hp hc small left right)
      apply step entry
      apply step (Field.inv_eq pivot)
      apply step (columns_eq (columnwise_scale hc small) ..)
      apply step (clearRows_eq hc small ..)
      have final (m : Nat → Nat → GF256) : (flat k k fun i j =>
          if i = column then
            (if i = column then m (exchanged p column column) j * (left p column)⁻¹
              else m (exchanged p column i) j)
          else (if i = column then m (exchanged p column column) j * (left p column)⁻¹
              else m (exchanged p column i) j) +
            (if i = column then left (exchanged p column column) column * (left p column)⁻¹
              else left (exchanged p column i) column) *
            (if column = column then m (exchanged p column column) j * (left p column)⁻¹
              else m (exchanged p column column) j)) = flat k k (eliminated left m p column) := by
        have here : exchanged p column column = p := if_pos rfl
        apply flat_congr
        intro i _ j _
        by_cases own : i = column <;> simp [eliminated, own, here]
      exact congrArg (fun pair => some (some pair)) (Prod.ext (final left) (final right))

/-! ## Rows of a given length -/

/-- The entries of a matrix of rows, zero outside. -/
def entryOf (m : Erasure.Matrix k) (i j : Nat) : GF256 :=
  if h : i < k ∧ j < k then Elimination.entries m ⟨i, h.1⟩ ⟨j, h.2⟩ else 0

def stored (m : Erasure.Matrix k) : List GF256 := flat k k (entryOf m)

theorem entryOf_val (m : Erasure.Matrix k) (i j : Fin k) : entryOf m i j = Elimination.entries m i j :=
  dif_pos ⟨i.isLt, j.isLt⟩

theorem stored_eq {m : Erasure.Matrix k} (same : ∀ i j : Fin k, Elimination.entries m i j = entry i j) :
    stored m = flat k k entry :=
  flat_congr fun i hi j hj => (entryOf_val m ⟨i, hi⟩ ⟨j, hj⟩).trans (same ⟨i, hi⟩ ⟨j, hj⟩)

theorem pivot_eq (m : Erasure.Matrix k) (column : Fin k) :
    (List.range' column (k - column)).find? (fun r => entryOf m r column != 0) =
      (Erasure.Matrix.pivot? m column).map Fin.val := by
  let fits (r : Nat) : Bool := decide (column.val ≤ r) && entryOf m r column != 0
  have places : List.range k = List.range column ++ List.range' column (k - column) := by
    have parts := @List.range'_append 0 column (k - column) 1
    rw [Nat.one_mul, Nat.zero_add, Nat.add_sub_cancel' column.isLt.le] at parts
    rw [List.range_eq_range', List.range_eq_range', parts]
  have skipped : (List.range column).find? fits = none := by
    rw [List.find?_eq_none]
    intro r member
    simp [fits, List.mem_range.mp member]
  have late : (List.range' column (k - column)).find? (fun r => entryOf m r column != 0) =
      (List.range' column (k - column)).find? fits := by
    apply List.find?_congr
    intro r member
    simp [fits, (List.mem_range'_1.mp member).1]
  have all : (List.range k).find? fits = (Erasure.Matrix.pivot? m column).map Fin.val := by
    have here : (fits ∘ fun r : Fin k => r.val) = fun r => decide (column ≤ r) && m[r][column] != 0 := by
      funext r
      simp only [fits, Function.comp_apply, entryOf_val, Elimination.entries_apply, Vector.get_eq_getElem]
      rfl
    rw [← List.map_coe_finRange_eq_range, List.find?_map, here]
    rfl
  rw [late, ← all, places, List.find?_append, skipped, Option.none_or]

theorem eliminate_stored (small : k * k < 2 ^ 64) (a b : Erasure.Matrix k) (column : Fin k) :
    eliminate k (stored a, stored b) column =
      some ((Erasure.Matrix.eliminate (a, b) column).map fun pair => (stored pair.1, stored pair.2)) := by
  have after (m : Erasure.Matrix k) (p : Fin k) :
      flat k k (eliminated (entryOf a) (entryOf m) p column) =
        stored (Erasure.Matrix.clear (a.swap p column p.isLt column.isLt) (m.swap p column p.isLt column.isLt) column
          (((m.swap p column p.isLt column.isLt).get column).scale
            (((a.swap p column p.isLt column.isLt).get column).get column)⁻¹)) := by
    symm
    apply stored_eq
    intro i j
    have row : exchanged p column i = (Equiv.swap p column i).val := by
      by_cases own : i = column
      · rw [exchanged, own, if_pos rfl, Equiv.swap_apply_right]
      rw [exchanged, if_neg (Fin.val_ne_of_ne own)]
      by_cases pivot : i = p
      · rw [pivot, if_pos rfl, Equiv.swap_apply_left]
      · rw [if_neg (Fin.val_ne_of_ne pivot), Equiv.swap_apply_of_ne_of_ne pivot own]
    rw [Elimination.entries_clear, Elimination.stepMatrix_mul, eliminated, row]
    simp only [entryOf_val, Fin.ext_iff]
  rw [stored, stored, eliminate_eq column.isLt small, pivot_eq, Elimination.eliminate_eq, Option.map_map,
    Option.map_map]
  apply congrArg some
  apply congrFun
  apply congrArg
  funext p
  exact Prod.ext (after a p) (after b p)

/-- Elimination stops at the first column without a pivot and leaves both matrices as they are then. -/
theorem eliminateAll_of (small : k * k < 2 ^ 64) (columns : List (Fin k)) (a b : Erasure.Matrix k) :
    ∃ left right, eliminateAll k (columns.map Fin.val) (stored a, stored b) =
        some ((columns.foldlM Erasure.Matrix.eliminate (a, b)).isSome, stored left, stored right) ∧
      ∀ pair, columns.foldlM Erasure.Matrix.eliminate (a, b) = some pair → pair = (left, right) := by
  induction columns generalizing a b with
  | nil => exact ⟨a, b, rfl, fun _ here => (Option.some.inj here).symm⟩
  | cons column columns ih =>
      have eliminated := eliminate_stored small a b column
      rw [List.map_cons, eliminateAll, List.foldlM_cons]
      cases here : Erasure.Matrix.eliminate (a, b) column with
      | none =>
          rw [here] at eliminated
          exact ⟨a, b, step eliminated rfl, nofun⟩
      | some pair =>
          rw [here] at eliminated
          obtain ⟨left, right, done, same⟩ := ih pair.1 pair.2
          exact ⟨left, right, step eliminated done, same⟩

theorem diagonal_eq (le : k ≤ n) (small : n * k < 2 ^ 64) :
    (List.range k).foldlM (fun m i => set k m i i 1) (List.replicate (n * k) 0) =
      some (flat n k fun i j => if i = j then 1 else 0) := by
  rw [replicate_zero, foldlM_turns (fun t i j => i = t ∧ j = t) fun t member m =>
    have inside : t < k := List.mem_range.mp member
    set_flat (Nat.lt_of_lt_of_le inside le) inside small 1]
  apply congrArg some
  apply flat_congr
  intro i _ j hj
  have same : (∃ t ∈ List.range k, i = t ∧ j = t) ↔ i = j := by
    constructor
    · rintro ⟨t, -, rfl, rfl⟩
      rfl
    · rintro rfl
      exact ⟨i, List.mem_range.mpr hj, rfl, rfl⟩
  simp only [same]

theorem stored_identity : stored (Erasure.Matrix.identity k) = flat k k fun i j => if i = j then 1 else 0 := by
  apply stored_eq
  intro i j
  simp [Elimination.entries_identity, Matrix.one_apply, Fin.val_inj]

/-- Inversion in place ends with the two matrices of the elimination, whatever was in the second one. -/
theorem invert_reduces (small : k * k < 2 ^ 64) (m : Erasure.Matrix k) :
    ∃ left right : Erasure.Matrix k,
      (∀ inverse, inverse.length = k * k →
        invert k (stored m) inverse = some (m.reduce.isSome, stored left, stored right)) ∧
      ∀ pair, m.reduce = some pair → pair = (left, right) := by
  obtain ⟨left, right, done, same⟩ := eliminateAll_of small (List.finRange k) m (Erasure.Matrix.identity k)
  refine ⟨left, right, fun inverse length => ?_, same⟩
  have cleared : (inverse.map fun _ => (0 : GF256)) = List.replicate (k * k) 0 := by
    rw [List.map_const', length]
  rw [invert, cleared]
  apply step (diagonal_eq (Nat.le_refl k) small)
  rw [← stored_identity, ← List.map_coe_finRange_eq_range, done]
  rfl

/-- Inversion has a result for every matrix, the one of the inversion of rows. -/
theorem invert_of (small : k * k < 2 ^ 64) (m : Erasure.Matrix k) {inverse : List GF256}
    (length : inverse.length = k * k) :
    ∃ left right : Erasure.Matrix k, invert k (stored m) inverse =
        some (m.invert.isSome, stored left, stored right) ∧
      ∀ toData, m.invert = some toData → toData = right := by
  obtain ⟨left, right, done, same⟩ := invert_reduces small m
  refine ⟨left, right, ?_, fun toData inverted => ?_⟩
  · rw [done inverse length, Erasure.Matrix.invert, Option.isSome_map]
  · obtain ⟨pair, here, rfl⟩ := Option.map_eq_some_iff.mp inverted
    rw [same pair here]

end Table

end AirLink.Checked
