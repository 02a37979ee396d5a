import AirLink.Proofs.Checked.Shares

/-! # An engine that is used again and again

Decoding works on two matrices that are kept from call to call, and a call that fails leaves them half
overwritten, and perhaps some of its buffers written.  Nothing of this shows later: the rows of the shares
overwrite the one matrix before it is read, and the other is made the identity anew.  So what a call gives
back depends on its arguments alone, and it succeeds exactly with those that can be decoded.
-/

namespace AirLink.Checked

/-- A code with the room for two matrices, in which the last call may have left anything. -/
structure Engine where
  code : Code
  matrix : List GF256
  inverse : List GF256

namespace Engine

/-- The engine of a code before its first call. -/
def fresh (code : Code) : Option Engine := do
  let square ← mul code.k code.k
  return ⟨code, List.replicate square 0, List.replicate square 0⟩

def create (k n : Nat) : Option (Except Fault Engine) := do
  let made ← Code.create k n
  match made with
  | .error fault => return .error fault
  | .ok code =>
    let e ← fresh code
    return .ok e

/-- Writes parity shares over the buffers, up to the first that has not the room. -/
def encodeFrom (code : Code) (data : List Bytes) (size : Nat) :
    Nat → List Bytes → Option (Except Fault Unit × List Bytes)
  | _, [] => some (.ok (), [])
  | j, buffer :: buffers => do
    if buffer.length < size then return (.error (.shares .bufferTooSmall), buffer :: buffers)
    let share ← add code.k j
    let row ← Table.row code.k code.weights share
    let sum ← Shares.weightedSum (fun share => min share.length size) row data (Bytes.zeros size)
    let filled ← blit buffer 0 size sum
    let next ← add j 1
    let (result, others) ← encodeFrom code data size next buffers
    return (result, filled :: others)

/-- Computes parity shares; also gives what the buffers hold then. -/
def encode (e : Engine) (data buffers : List Bytes) (size : Nat) : Option (Except Fault Unit × List Bytes) := do
  let spare ← sub e.code.n e.code.k
  if data.length ≠ e.code.k ∨ spare < buffers.length then return (.error (.shares .shareCount), buffers)
  encodeFrom e.code data size 0 buffers

/-- Copies the weights of the given shares, each share with its place, up to the first that is not one of
the code or not at its place, and counts the parity shares. -/
def placeRows (code : Code) : List (Nat × Nat) → List GF256 → Nat → Option (List GF256 × Option Nat)
  | [], m, missing => some (m, some missing)
  | (share, i) :: rest, m, missing => do
    if code.n ≤ share ∨ share < code.k ∧ share ≠ i then return (m, none)
    let missing ← code.tally share missing
    let row ← Table.row code.k code.weights share
    let m ← Table.putRow code.k m i row
    placeRows code rest m missing

/-- Writes the data shares at the places of parity shares over the buffers, up to the first that has not the
room. -/
def fillBuffers (code : Code) (inverse : List GF256) (inputs : List Bytes) (size : Nat) :
    List (Nat × Nat) → List Bytes → Option (Except Fault Unit × List Bytes)
  | [], buffers => some (.ok (), buffers)
  | (share, i) :: rest, buffers => do
    if share < code.k then fillBuffers code inverse inputs size rest buffers
    else match buffers with
      | [] => return (.error (.shares .outputCount), [])
      | buffer :: buffers =>
        if buffer.length < size then return (.error (.shares .bufferTooSmall), buffer :: buffers)
        let row ← Table.row code.k inverse i
        let sum ← Shares.weightedSum (fun _ => size) row inputs (Bytes.zeros size)
        let filled ← blit buffer 0 size sum
        let (result, others) ← fillBuffers code inverse inputs size rest buffers
        return (result, filled :: others)

/-- Inverts the rows of the shares and rebuilds the data shares at the places of parity shares. -/
def solve (e : Engine) (inputs : List Bytes) (indices : List Nat) (buffers : List Bytes) (size : Nat) :
    Option (Except Fault Unit × List Bytes × Engine) := do
  let (regular, matrix, inverse) ← Table.invert e.code.k e.matrix e.inverse
  let e := { e with matrix, inverse }
  if !regular then return (.error (.shares .singularMatrix), buffers, e)
  let (result, buffers) ← fillBuffers e.code inverse inputs size indices.zipIdx buffers
  return (result, buffers, e)

/-- Rebuilds data shares; also gives what the buffers hold then, and what is left in the matrices. -/
def decode (e : Engine) (inputs : List Bytes) (indices : List Nat) (buffers : List Bytes) (size : Nat) :
    Option (Except Fault Unit × List Bytes × Engine) := do
  if inputs.length ≠ e.code.k ∨ indices.length ≠ e.code.k then
    return (.error (.shares .inputCount), buffers, e)
  if inputs.any (·.length < size) then return (.error (.shares .inputTooShort), buffers, e)
  let (matrix, placed) ← placeRows e.code indices.zipIdx e.matrix 0
  let e := { e with matrix }
  match placed with
  | none => return (.error (.shares .badIndex), buffers, e)
  | some missing =>
    if buffers.length ≠ missing then return (.error (.shares .outputCount), buffers, e)
    if missing = 0 then return (.ok (), buffers, e)
    e.solve inputs indices buffers size

inductive Call where
  | encode (data buffers : List Bytes) (size : Nat)
  | decode (inputs : List Bytes) (indices : List Nat) (buffers : List Bytes) (size : Nat)

def perform (e : Engine) : Call → Option Engine
  | .encode data buffers size => do
    let _ ← e.encode data buffers size
    return e
  | .decode inputs indices buffers size => do
    let (_, _, e) ← e.decode inputs indices buffers size
    return e

def performAll (e : Engine) (calls : List Call) : Option Engine := calls.foldlM perform e

/-- The engine is one for the code, and its matrices have their sizes. -/
structure Built (code : ErasureCode) (e : Engine) : Prop where
  weighs : e.code = Code.of code
  matrix : e.matrix.length = code.k * code.k
  inverse : e.inverse.length = code.k * code.k

/-- The buffers keep their lengths and what lies behind their first `size` bytes. -/
def KeptBehind (size : Nat) (before after : List Bytes) : Prop :=
  List.Forall₂ (fun old new : Bytes => new.length = old.length ∧ new.drop size = old.drop size) before after

/-- A list of the right length has an entry for each place of a matrix. -/
theorem eq_flat {n k : Nat} {m : List GF256} (length : m.length = n * k) :
    m = Table.flat n k fun i j => m.getD (i * k + j) 0 := by
  apply List.ext_getElem
  · rw [length, Table.length_flat]
  · intro p hp _
    have place : p / k * k + p % k = p := by rw [Nat.mul_comm, Nat.div_add_mod]
    simp only [Table.flat, List.getElem_map, List.getElem_range, place, List.getD_eq_getElem _ _ hp]

theorem KeptBehind.refl (size : Nat) (buffers : List Bytes) : KeptBehind size buffers buffers :=
  List.forall₂_same.mpr fun _ _ => And.intro rfl rfl

/-- Writing `size` bytes into a buffer that has the room for them. -/
theorem KeptBehind.cons {size : Nat} {sum buffer : Bytes} {before after : List Bytes} (length : sum.length = size)
    (room : size ≤ buffer.length) (others : KeptBehind size before after) :
    KeptBehind size (buffer :: before) (sum.overlay buffer :: after) := by
  refine List.Forall₂.cons (And.intro ?_ ?_) others
  · rw [Bytes.overlay, List.length_append, List.length_drop, length]
    omega
  · rw [Bytes.overlay, length, List.drop_left' length]

theorem blit_front {size : Nat} {sum buffer : Bytes} (length : sum.length = size) (room : size ≤ buffer.length) :
    blit buffer 0 size sum = some (sum.overlay buffer) := by
  rw [blit_eq (Nat.zero_le _) room length, Bytes.overlay, length]
  rfl

variable {code : ErasureCode} {data inputs buffers : List Bytes} {indices : List Nat} {size : Nat}

open Table (stored entryOf)
open Code (withRows weightOf small_of_sound)

/-- If one more buffer has the room for it, one more is written. -/
theorem written_cons {buffer first : Bytes} {rest outs after : List Bytes} {result : Except Fault Unit}
    (room : size ≤ buffer.length)
    (same : (if rest.any (·.length < size) then .error (.shares .bufferTooSmall) else .ok outs) =
      result.map fun _ => after) :
    (if (buffer :: rest).any (·.length < size) then .error (.shares .bufferTooSmall) else .ok (first :: outs)) =
      result.map fun _ => first :: after := by
  have long : ¬buffer.length < size := Nat.not_lt.mpr room
  rw [List.any_cons, decide_eq_false long, Bool.false_or]
  split at same
  case isTrue unfit =>
    cases result with
    | ok => cases same
    | error fault =>
        rw [if_pos unfit]
        exact same
  case isFalse fits =>
    cases result with
    | ok =>
        cases same
        rw [if_neg fits]
        rfl
    | error fault => cases same

/-! ## Encoding -/

theorem row_parity {j : Nat} (hj : j < code.parityRows.length) :
    (List.range code.k).map (weightOf code (code.k + j)) = code.parityRows[j].toList := by
  apply List.ext_getElem
  · simp
  · intro c hc _
    rw [List.length_map, List.length_range] at hc
    rw [List.getElem_map, List.getElem_range, weightOf, dif_pos hc, ErasureCode.row_parity (Nat.le_add_right ..),
      Nat.add_sub_cancel_left, List.getD_eq_getElem _ _ hj]
    rfl

theorem encodeFrom_of (sound : ErasureCode.Sound code) (data : List Bytes) (size : Nat) {j : Nat}
    (few : j + buffers.length ≤ code.n - code.k) :
    ∃ result after, encodeFrom (Code.of code) data size j buffers = some (result, after) ∧
      KeptBehind size buffers after ∧
      (if buffers.any (·.length < size) then .error (.shares .bufferTooSmall)
        else .ok (List.zipWith (fun row buffer => Bytes.overlay (Erasure.weightedSum size row.toList data) buffer)
          (code.parityRows.drop j) buffers)) = result.map fun _ => after := by
  induction buffers generalizing j with
  | nil =>
      refine ⟨.ok (), [], by rw [encodeFrom], .nil, ?_⟩
      rw [List.zipWith_nil_right]
      rfl
  | cons buffer buffers ih =>
      obtain ⟨small, -⟩ := small_of_sound sound
      have le := sound.le
      have bound := sound.few
      rw [List.length_cons] at few
      have inside : j < code.parityRows.length := by
        rw [sound.length_parityRows]
        omega
      by_cases short : buffer.length < size
      · refine ⟨.error (.shares .bufferTooSmall), buffer :: buffers, ?_, .refl .., ?_⟩
        · rw [encodeFrom, if_pos short]
          rfl
        · rw [if_pos (by simp [short])]
          rfl
      · obtain ⟨result, after, done, kept, same⟩ := @ih (j + 1) (by omega)
        have room := Nat.le_of_not_lt short
        have length := Shares.length_weightedSum size code.parityRows[j].toList data
        refine ⟨result, _ :: after, ?_, kept.cons length room, ?_⟩
        · rw [encodeFrom, if_neg short]
          apply step (add_eq (show code.k + j < 2 ^ 64 by omega))
          apply step (Table.row_flat (show code.k + j < code.n by omega) small (by omega))
          rw [row_parity inside]
          apply step (Shares.weightedSum_eq _ (fun _ _ => rfl) List.length_replicate)
          apply step (blit_front length room)
          apply step (add_eq (show j + 1 < 2 ^ 64 by omega))
          exact step done rfl
        · rw [List.drop_eq_getElem_cons inside, List.zipWith_cons_cons]
          exact written_cons room same

/-- Encoding gives what the encoding that is not checked gives. -/
theorem encode_of (sound : ErasureCode.Sound code) {e : Engine} (built : Built code e)
    (data buffers : List Bytes) (size : Nat) :
    ∃ result after, e.encode data buffers size = some (result, after) ∧ KeptBehind size buffers after ∧
      code.encode data buffers size = result.map fun _ => after := by
  unfold encode ErasureCode.encode
  rw [built.weighs]
  by_cases counts : data.length ≠ code.k ∨ code.n - code.k < buffers.length
  · refine ⟨_, buffers, step (sub_eq sound.le) (if_pos counts), .refl .., ?_⟩
    rw [if_pos counts]
    rfl
  · obtain ⟨result, after, done, kept, same⟩ := @encodeFrom_of code buffers sound data size 0 (by omega)
    refine ⟨result, after, step (sub_eq sound.le) ((if_neg counts).trans done), kept, ?_⟩
    rw [if_neg counts]
    exact same

/-! ## Decoding -/

/-- Each share is one of the code, and each data share at its own place. -/
def inPlace (code : ErasureCode) (pairs : List (Nat × Nat)) : Bool :=
  pairs.all fun pair => pair.1 < code.n && (code.k ≤ pair.1 || pair.1 = pair.2)

/-- As many rows are copied as there are shares in front of the first that is out of place. -/
theorem placeRows_of (sound : ErasureCode.Sound code) (shares : List Nat) {start missing : Nat}
    (inside : start + shares.length ≤ code.k) (few : missing + shares.length ≤ 255) (entry : Nat → Nat → GF256) :
    ∃ rows, placeRows (Code.of code) (shares.zipIdx start) (Table.flat code.k code.k entry) missing =
        some (Table.flat code.k code.k rows,
          if inPlace code (shares.zipIdx start) then some (missing + (shares.filter (code.k ≤ ·)).length)
          else none) ∧
      (inPlace code (shares.zipIdx start) → rows = withRows code start shares entry) := by
  induction shares generalizing start missing entry with
  | nil => exact ⟨entry, rfl, fun _ => (Code.withRows_nil start).symm⟩
  | cons share shares ih =>
      rw [List.length_cons] at inside few
      obtain ⟨small, square⟩ := small_of_sound sound
      have le := sound.le
      have bound := sound.few
      rw [List.zipIdx_cons]
      by_cases bad : code.n ≤ share ∨ share < code.k ∧ share ≠ start
      · have out : inPlace code ((share, start) :: shares.zipIdx (start + 1)) = false := by
          have here : (decide (share < code.n) && (decide (code.k ≤ share) || decide (share = start))) = false := by
            simp only [Bool.and_eq_false_iff, Bool.or_eq_false_iff, decide_eq_false_iff_not]
            omega
          rw [inPlace, List.all_cons, here, Bool.false_and]
        rw [out]
        refine ⟨entry, ?_, nofun⟩
        rw [placeRows]
        exact if_pos bad
      · have own : inPlace code ((share, start) :: shares.zipIdx (start + 1)) =
            inPlace code (shares.zipIdx (start + 1)) := by
          have here : (decide (share < code.n) && (decide (code.k ≤ share) || decide (share = start))) = true := by
            simp only [Bool.and_eq_true, Bool.or_eq_true, decide_eq_true_eq]
            omega
          rw [inPlace, List.all_cons, here, Bool.true_and]
          rfl
        have counted : (missing + if code.k ≤ share then 1 else 0) + (shares.filter (code.k ≤ ·)).length =
            missing + ((share :: shares).filter (code.k ≤ ·)).length := by
          rw [List.filter_cons]
          by_cases parity : code.k ≤ share
          · simp only [parity, if_true, decide_true, List.length_cons]
            omega
          · simp only [parity, if_false, decide_false, Bool.false_eq_true, Nat.add_zero]
        obtain ⟨rows, done, same⟩ := @ih (start + 1) (missing + if code.k ≤ share then 1 else 0) (by omega)
          (by split <;> omega) fun i j => if i = start then weightOf code share j else entry i j
        rw [counted] at done
        rw [own]
        refine ⟨rows, ?_, fun placed => (same placed).trans (Code.withRows_cons ..).symm⟩
        rw [placeRows]
        refine (if_neg bad).trans ?_
        apply step (Code.tally_eq (show missing < 255 by omega))
        apply step (Table.row_flat (show share < code.n by omega) small (by omega))
        exact step (Table.putRow_flat (by omega) square (by omega) _) done

open Erasure (Matrix)

theorem fillBuffers_of (sound : ErasureCode.Sound code) (long : ∀ input ∈ inputs, size ≤ input.length)
    (toData : Matrix code.k) {pairs : List (Nat × Nat)} (inside : ∀ pair ∈ pairs, pair.2 < code.k)
    (count : buffers.length = (pairs.filter (code.k ≤ ·.1)).length) :
    ∃ result after, fillBuffers (Code.of code) (stored toData) inputs size pairs buffers = some (result, after) ∧
      KeptBehind size buffers after ∧
      (if buffers.any (·.length < size) then .error (.shares .bufferTooSmall)
        else .ok (List.zipWith (fun i buffer => Bytes.overlay
          (Erasure.weightedSum size ((List.range code.k).map (entryOf toData i)) inputs) buffer)
          ((pairs.filter (code.k ≤ ·.1)).map (·.2)) buffers)) = result.map fun _ => after := by
  induction pairs generalizing buffers with
  | nil =>
      cases List.length_eq_zero_iff.mp count
      exact ⟨.ok (), [], rfl, .nil, rfl⟩
  | cons pair pairs ih =>
      obtain ⟨share, i⟩ := pair
      have others : ∀ pair ∈ pairs, pair.2 < code.k := fun pair member => inside pair (List.mem_cons_of_mem _ member)
      have front : ∀ input ∈ inputs, size = min input.length size :=
        fun input member => (Nat.min_eq_right (long input member)).symm
      rw [fillBuffers.eq_def]
      by_cases data : share < code.k
      · have left : ((share, i) :: pairs).filter (code.k ≤ ·.1) = pairs.filter (code.k ≤ ·.1) :=
          List.filter_cons_of_neg (by simpa using data)
        rw [left] at count ⊢
        obtain ⟨result, after, done, rest⟩ := ih others count
        exact ⟨result, after, (if_pos data).trans done, rest⟩
      · have left : ((share, i) :: pairs).filter (code.k ≤ ·.1) = (share, i) :: pairs.filter (code.k ≤ ·.1) :=
          List.filter_cons_of_pos (by simpa using data)
        rw [left] at count ⊢
        cases buffers with
        | nil => cases count
        | cons buffer buffers =>
            by_cases short : buffer.length < size
            · refine ⟨.error (.shares .bufferTooSmall), buffer :: buffers, (if_neg data).trans (if_pos short),
                .refl .., ?_⟩
              rw [if_pos (by simp [short])]
              rfl
            · obtain ⟨-, square⟩ := small_of_sound sound
              have few := sound.le.trans sound.few
              have room := Nat.le_of_not_lt short
              have length := Shares.length_weightedSum size ((List.range code.k).map (entryOf toData i)) inputs
              obtain ⟨result, after, done, kept, same⟩ := ih others (Nat.succ.inj count)
              refine ⟨result, _ :: after, (if_neg data).trans ((if_neg short).trans ?_), kept.cons length room,
                written_cons room same⟩
              apply step (Table.row_flat (inside (share, i) (List.mem_cons_self ..)) square (by omega))
              apply step (Shares.weightedSum_eq _ front List.length_replicate)
              apply step (blit_front length room)
              exact step done rfl

/-- The matrix of the rows of the shares, whatever was in its place before. -/
theorem placed_of (sound : ErasureCode.Sound code) (places : indices.length = code.k) {matrix : List GF256}
    (length : matrix.length = code.k * code.k) :
    ∃ rows, placeRows (Code.of code) indices.zipIdx matrix 0 =
        some (rows, if code.wellPlaced indices then some (code.missing indices).length else none) ∧
      rows.length = code.k * code.k ∧
      (code.wellPlaced indices = true →
        rows = stored (Vector.ofFn fun i : Fin code.k => code.row (indices.getD i 0))) := by
  have few := sound.le.trans sound.few
  have same : inPlace code indices.zipIdx = code.wellPlaced indices := rfl
  have inside : 0 + indices.length ≤ code.k := by omega
  have small : 0 + indices.length ≤ 255 := by omega
  obtain ⟨rows, done, all⟩ := placeRows_of sound indices inside small
    fun i j => matrix.getD (i * code.k + j) 0
  rw [← eq_flat length, same, Nat.zero_add, ErasureCode.length_missing places] at done
  refine ⟨_, done, Table.length_flat .., fun placed => ?_⟩
  rw [all placed, Code.withRows_all places]

/-- What is left to do with the rows of the shares does not depend on the other matrix. -/
theorem solve_of (sound : ErasureCode.Sound code) (long : ∀ input ∈ inputs, size ≤ input.length)
    (places : indices.length = code.k) (count : buffers.length = (code.missing indices).length) :
    ∃ result after, KeptBehind size buffers after ∧
      (match Matrix.invert (Vector.ofFn fun i : Fin code.k => code.row (indices.getD i 0)) with
        | none => .error (.shares .singularMatrix)
        | some toData =>
          if buffers.any (·.length < size) then .error (.shares .bufferTooSmall)
          else .ok (List.zipWith
            (fun i buffer =>
              Bytes.overlay (Erasure.weightedSum size (getElem toData i i.isLt).toList inputs) buffer)
            (code.missing indices) buffers)) = result.map (fun _ => after) ∧
      ∀ e, Built code e → e.matrix = stored (Vector.ofFn fun i : Fin code.k => code.row (indices.getD i 0)) →
        ∃ next, Built code next ∧ e.solve inputs indices buffers size = some (result, after, next) := by
  obtain ⟨-, square⟩ := small_of_sound sound
  let shares : Matrix code.k := Vector.ofFn fun i => code.row (indices.getD i 0)
  have inside : ∀ pair ∈ indices.zipIdx, pair.2 < code.k := by
    intro pair member
    have below := (List.getElem?_eq_some_iff.mp (List.mem_zipIdx_iff_getElem?.mp member)).1
    exact below.trans_eq places
  have parity := congrArg List.length (ErasureCode.missing_eq places)
  rw [List.length_map, List.length_map] at parity
  have inverted {e : Engine} (built : Built code e) := Table.invert_of square shares built.inverse
  cases known : shares.invert with
  | none =>
      refine ⟨.error (.shares .singularMatrix), buffers, .refl .., rfl, fun e built rows => ?_⟩
      obtain ⟨left, right, done, -⟩ := inverted built
      rw [known] at done
      refine ⟨{ e with matrix := stored left, inverse := stored right },
        ⟨built.weighs, Table.length_flat .., Table.length_flat ..⟩, ?_⟩
      rw [solve, built.weighs, rows]
      exact step done rfl
  | some toData =>
      obtain ⟨result, after, filled, kept, same⟩ := fillBuffers_of sound long toData inside (count.trans parity.symm)
      refine ⟨result, after, kept, ?_, fun e built rows => ?_⟩
      · rw [← same, ErasureCode.missing_eq places, List.zipWith_map_left]
        simp only [Code.row_stored]
      · obtain ⟨left, right, done, inverse⟩ := inverted built
        rw [known] at done
        refine ⟨{ e with matrix := stored left, inverse := stored right },
          ⟨built.weighs, Table.length_flat .., Table.length_flat ..⟩, ?_⟩
        rw [← inverse toData known] at done ⊢
        rw [solve, built.weighs, rows]
        exact step done (step filled rfl)

/-- What is left to do once the rows of the shares have been copied. -/
theorem copied_of (sound : ErasureCode.Sound code) {e : Engine} (built : Built code e)
    (shares : inputs.length = code.k) (places : indices.length = code.k)
    (long : ¬inputs.any (·.length < size) = true) :
    ∃ rows, Built code { e with matrix := rows } ∧
      (code.wellPlaced indices = true →
        rows = stored (Vector.ofFn fun i : Fin code.k => code.row (indices.getD i 0))) ∧
      e.decode inputs indices buffers size =
        if !code.wellPlaced indices then some (.error (.shares .badIndex), buffers, { e with matrix := rows })
        else if buffers.length ≠ (code.missing indices).length then
          some (.error (.shares .outputCount), buffers, { e with matrix := rows })
        else if (code.missing indices).isEmpty then some (.ok (), buffers, { e with matrix := rows })
        else { e with matrix := rows }.solve inputs indices buffers size := by
  obtain ⟨rows, done, length, same⟩ := placed_of sound places built.matrix
  have counts : ¬(inputs.length ≠ code.k ∨ indices.length ≠ code.k) := by omega
  refine ⟨rows, ⟨built.weighs, length, built.inverse⟩, same, ?_⟩
  rw [decode, built.weighs]
  refine (if_neg counts).trans ((if_neg long).trans ?_)
  rw [done]
  cases placed : code.wellPlaced indices with
  | false => rfl
  | true =>
      simp only [List.isEmpty_iff_length_eq_zero]
      rfl

/-- What decoding gives back and writes depends on its arguments alone, and is what the decoding that is not
checked gives. -/
theorem decode_of (sound : ErasureCode.Sound code) (inputs : List Bytes) (indices : List Nat)
    (buffers : List Bytes) (size : Nat) :
    ∃ result after, KeptBehind size buffers after ∧
      code.decode inputs indices buffers size = result.map (fun _ => after) ∧
      ∀ e, Built code e → ∃ next, Built code next ∧
        e.decode inputs indices buffers size = some (result, after, next) := by
  unfold ErasureCode.decode
  by_cases counts : inputs.length ≠ code.k ∨ indices.length ≠ code.k
  · refine ⟨.error (.shares .inputCount), buffers, .refl .., if_pos counts, fun e built => ⟨e, built, ?_⟩⟩
    rw [decode, built.weighs]
    exact if_pos counts
  rw [if_neg counts]
  obtain ⟨shares, places⟩ : inputs.length = code.k ∧ indices.length = code.k := by omega
  by_cases short : inputs.any (·.length < size)
  · refine ⟨.error (.shares .inputTooShort), buffers, .refl .., if_pos short, fun e built => ⟨e, built, ?_⟩⟩
    rw [decode, built.weighs]
    exact (if_neg counts).trans (if_pos short)
  rw [if_neg short]
  have copied {e : Engine} (built : Built code e) :=
    @copied_of code inputs buffers indices size sound e built shares places short
  by_cases misplaced : !code.wellPlaced indices
  · refine ⟨.error (.shares .badIndex), buffers, .refl .., if_pos misplaced, fun e built => ?_⟩
    obtain ⟨rows, next, -, done⟩ := copied built
    exact ⟨_, next, done.trans (if_pos misplaced)⟩
  rw [if_neg misplaced]
  by_cases count : buffers.length ≠ (code.missing indices).length
  · refine ⟨.error (.shares .outputCount), buffers, .refl .., if_pos count, fun e built => ?_⟩
    obtain ⟨rows, next, -, done⟩ := copied built
    exact ⟨_, next, done.trans ((if_neg misplaced).trans (if_pos count))⟩
  rw [if_neg count]
  by_cases complete : (code.missing indices).isEmpty
  · have empty : buffers = [] := by
      rw [← List.length_eq_zero_iff, not_not.mp count, List.isEmpty_iff.mp complete, List.length_nil]
    refine ⟨.ok (), buffers, .refl .., ?_, fun e built => ?_⟩
    · rw [if_pos complete, empty]
      rfl
    · obtain ⟨rows, next, -, done⟩ := copied built
      exact ⟨_, next, done.trans ((if_neg misplaced).trans ((if_neg count).trans (if_pos complete)))⟩
  · have long : ∀ input ∈ inputs, size ≤ input.length := by simpa using short
    obtain ⟨result, after, kept, same, solved⟩ := solve_of sound long places (not_not.mp count)
    refine ⟨result, after, kept, (if_neg complete).trans same, fun e built => ?_⟩
    obtain ⟨rows, next, own, done⟩ := copied built
    obtain ⟨last, stays, result⟩ := solved _ next (own (by simpa using misplaced))
    exact ⟨last, stays,
      (done.trans ((if_neg misplaced).trans ((if_neg count).trans (if_neg complete)))).trans result⟩

/-! ## Any calls -/

theorem fresh_of (sound : ErasureCode.Sound code) : ∃ new, fresh (Code.of code) = some new ∧ Built code new := by
  obtain ⟨-, square⟩ := small_of_sound sound
  exact ⟨_, step (mul_eq square) rfl, rfl, List.length_replicate, List.length_replicate⟩

theorem create_of {k n : Nat} (made : ErasureCode.create k n = .ok code) :
    ∃ new, create k n = some (.ok new) ∧ Built code new := by
  obtain ⟨rfl, rfl, sound⟩ := ErasureCode.create_eq_ok made
  obtain ⟨new, made', built⟩ := fresh_of sound
  have checked := Code.create_eq code.k code.n
  rw [made] at checked
  exact ⟨new, step checked (step made' rfl), built⟩

theorem Built.perform (sound : ErasureCode.Sound code) {e : Engine} (built : Built code e) (call : Call) :
    ∃ next, e.perform call = some next ∧ Built code next := by
  cases call with
  | encode data buffers size =>
      obtain ⟨result, after, done, -⟩ := encode_of sound built data buffers size
      exact ⟨e, step done rfl, built⟩
  | decode inputs indices buffers size =>
      obtain ⟨result, after, -, -, always⟩ := decode_of sound inputs indices buffers size
      obtain ⟨next, stays, done⟩ := always e built
      exact ⟨next, step done rfl, stays⟩

theorem Built.performAll (sound : ErasureCode.Sound code) {e : Engine} (built : Built code e) (calls : List Call) :
    ∃ next, e.performAll calls = some next ∧ Built code next := by
  induction calls generalizing e with
  | nil => exact ⟨e, rfl, built⟩
  | cons call calls ih =>
      obtain ⟨next, done, stays⟩ := built.perform sound call
      obtain ⟨last, rest, kept⟩ := ih stays
      rw [Engine.performAll, List.foldlM_cons]
      exact ⟨last, step done rest, kept⟩

/-- Whatever an engine has been used for, with success or without: it decodes exactly what can be decoded;
it gives back and writes what a new one would, which is what the code gives; and it writes no more than the
first `size` bytes of a buffer. -/
theorem decodes_exactly (k n : Nat) (hk : 1 ≤ k) (hkn : k ≤ n) (hn : n ≤ 255) :
    ∃ code new, ErasureCode.create k n = .ok code ∧ create k n = some (.ok new) ∧
      ∀ calls, ∃ e, new.performAll calls = some e ∧
        ∀ inputs indices buffers size, ∃ result after used fresh,
          e.decode inputs indices buffers size = some (result, after, used) ∧
          new.decode inputs indices buffers size = some (result, after, fresh) ∧
          (result = .ok () ↔ ErasureCode.Decodable k n inputs indices buffers size) ∧
          code.decode inputs indices buffers size = result.map (fun _ => after) ∧
          KeptBehind size buffers after := by
  obtain ⟨code, made, rfl, rfl, sound⟩ := ErasureCode.create_ok hk hkn hn
  obtain ⟨new, created, built⟩ := create_of made
  refine ⟨code, new, made, created, fun calls => ?_⟩
  obtain ⟨e, done, reached⟩ := built.performAll sound calls
  refine ⟨e, done, fun inputs indices buffers size => ?_⟩
  obtain ⟨result, after, kept, same, always⟩ := decode_of sound inputs indices buffers size
  obtain ⟨used, -, now⟩ := always e reached
  obtain ⟨fresh, -, first⟩ := always new built
  refine ⟨result, after, used, fresh, now, first, ?_, same, kept⟩
  rw [← ErasureCode.decode_eq_ok_iff sound, same]
  cases result with
  | ok => exact ⟨fun _ => ⟨after, rfl⟩, fun _ => rfl⟩
  | error fault => exact ⟨nofun, nofun⟩

/-- After a parity share that is there twice and a call with too short a buffer, a share that can be decoded
is, into a buffer that is longer, and the one that is there twice is refused again. -/
theorem decodes_exactly_again :
    ∃ new e, create 2 4 = some (.ok new) ∧
      new.performAll [.decode [[1], [2]] [3, 3] [[0], [0]] 1, .decode [[1], [2]] [2, 3] [[0], []] 1] = some e ∧
      (∃ after used, e.decode [[5], [6, 7]] [2, 1] [[0, 9]] 1 = some (.ok (), [after], used) ∧ after.drop 1 = [9]) ∧
      ∃ fault after used, e.decode [[1], [2]] [3, 3] [[0], [0]] 1 = some (.error fault, after, used) := by
  obtain ⟨code, new, -, created, runs⟩ := decodes_exactly 2 4 (by decide) (by decide) (by decide)
  obtain ⟨e, done, decodes⟩ :=
    runs [.decode [[1], [2]] [3, 3] [[0], [0]] 1, .decode [[1], [2]] [2, 3] [[0], []] 1]
  refine ⟨new, e, created, done, ?_, ?_⟩
  · obtain ⟨result, after, used, -, now, -, exact, -, kept⟩ := decodes [[5], [6, 7]] [2, 1] [[0, 9]] 1
    have can : ErasureCode.Decodable 2 4 [[5], [6, 7]] [2, 1] [[0, 9]] 1 := by
      refine ⟨rfl, rfl, by decide, fun i share here => ?_, rfl, by decide, by decide⟩
      match i with
      | 0 => cases here; decide
      | 1 => cases here; decide
    cases exact.mpr can
    cases kept with
    | cons written rest =>
        cases rest
        exact ⟨_, used, now, written.2⟩
  · obtain ⟨result, after, used, -, now, -, exact, -⟩ := decodes [[1], [2]] [3, 3] [[0], [0]] 1
    cases result with
    | ok => exact absurd (exact.mp rfl).distinct (by decide)
    | error fault => exact ⟨fault, after, used, now⟩

end Engine

namespace Code

/-- Rebuilds data shares over the buffers, by an engine of its own.  One that has been used before gives the
same. -/
def decode (code : Code) (inputs : List Bytes) (indices : List Nat) (buffers : List Bytes) (size : Nat) :
    Option (Except Fault (List Bytes)) := do
  let e ← Engine.fresh code
  let (result, buffers, _) ← e.decode inputs indices buffers size
  return result.map fun _ => buffers

/-- Decoding always has a result, the one of the code that is not checked. -/
theorem decode_eq {code : ErasureCode} (sound : ErasureCode.Sound code) (inputs : List Bytes)
    (indices : List Nat) (buffers : List Bytes) (size : Nat) :
    (of code).decode inputs indices buffers size = some (code.decode inputs indices buffers size) := by
  obtain ⟨new, made, built⟩ := Engine.fresh_of sound
  obtain ⟨result, after, -, same, always⟩ := Engine.decode_of sound inputs indices buffers size
  obtain ⟨used, -, done⟩ := always new built
  rw [same]
  exact step made (step done rfl)

end Code

end AirLink.Checked
