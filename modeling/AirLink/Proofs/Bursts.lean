import AirLink.Proofs.Frames

/-! # Bursts of errors

A frame with its check sequence is damaged where some of its bits are inverted.  Damage that lies within
32 consecutive bits is always noticed, wherever it is and however long the frame.  The remainder takes in
one bit after the other, by a step that respects exclusive or and loses nothing; so what a burst leaves in
it is not zero, and no number of further steps makes it zero again.
-/

namespace AirLink

namespace Bytes

/-- The bits of a string, the lowest bit of each byte first. -/
def bits (bs : Bytes) : List Bool := bs.flatMap fun b => (List.range 8).map b.toNat.testBit

theorem bits_cons (b : UInt8) (bs : Bytes) : bits (b :: bs) = (List.range 8).map b.toNat.testBit ++ bits bs :=
  List.flatMap_cons

theorem length_bits (bs : Bytes) : (bits bs).length = 8 * bs.length := by
  induction bs with
  | nil => rfl
  | cons b bs ih =>
      rw [bits_cons, List.length_append, ih, List.length_map, List.length_range, List.length_cons]
      omega

theorem getElem?_bits (bs : Bytes) (i : Nat) :
    (bits bs)[i]? = bs[i / 8]?.map fun b => b.toNat.testBit (i % 8) := by
  induction bs generalizing i with
  | nil => rfl
  | cons b bs ih =>
      rw [bits_cons, List.getElem?_append, List.length_map, List.length_range]
      by_cases first : i < 8
      · rw [if_pos first, List.getElem?_map, List.getElem?_range first, Nat.div_eq_of_lt first,
          Nat.mod_eq_of_lt first]
        rfl
      · have place : i / 8 = (i - 8) / 8 + 1 := by omega
        have same : (i - 8) % 8 = i % 8 := by omega
        rw [if_neg first, ih, place, List.getElem?_cons_succ, same]

end Bytes

namespace Checksum

/-! ## One bit -/

theorem step_eq (r : UInt32) : step r = r >>> 1 ^^^ if r.toNat % 2 = 1 then generator else 0 := by
  have low : r &&& 1 = 1 ↔ r.toNat % 2 = 1 := by
    rw [← UInt32.toNat_inj, UInt32.toNat_and, UInt32.toNat_one, Nat.and_one_is_mod]
  simp only [step, low]
  split
  · rfl
  · exact UInt32.xor_zero.symm

theorem step_xor (a b : UInt32) : step (a ^^^ b) = step a ^^^ step b := by
  simp only [step_eq, UInt32.toNat_xor, UInt32.shiftRight_xor, Nat.xor_mod_two_eq_one]
  by_cases ha : a.toNat % 2 = 1 <;> by_cases hb : b.toNat % 2 = 1 <;> simp [ha, hb, UInt32.xor_assoc]
  ac_rfl

theorem toNat_half (r : UInt32) : (r >>> 1).toNat = r.toNat / 2 := by
  rw [UInt32.toNat_shiftRight]
  exact Nat.shiftRight_one _

/-- Nothing is lost in a step: the bit that leaves the remainder comes back as its highest one. -/
theorem step_ne_zero {r : UInt32} (h : r ≠ 0) : step r ≠ 0 := by
  have half := toNat_half r
  have large := r.toNat_lt
  intro zero
  rw [step_eq, UInt32.xor_eq_zero_iff] at zero
  rw [zero] at half
  split at half
  next odd =>
    have high : generator.toNat = 0xEDB88320 := rfl
    omega
  next even =>
    have none : (0 : UInt32).toNat = 0 := rfl
    exact h (UInt32.toNat_inj.mp (by omega))

/-- A word whose lowest bit is clear is halved. -/
theorem step_double {v : Nat} (small : v < 2 ^ 31) : step (UInt32.ofNat (2 * v)) = UInt32.ofNat v := by
  have double : (UInt32.ofNat (2 * v)).toNat = 2 * v :=
    UInt32.toNat_ofNat_of_lt' (show _ < 2 ^ 32 by omega)
  have single : (UInt32.ofNat v).toNat = v := UInt32.toNat_ofNat_of_lt' (show _ < 2 ^ 32 by omega)
  have half : UInt32.ofNat (2 * v) >>> 1 = UInt32.ofNat v := by
    rw [← UInt32.toNat_inj, toNat_half, double, single]
    omega
  rw [step_eq, if_neg (by omega), half, UInt32.xor_zero]

theorem steps_xor (n : Nat) (a b : UInt32) : steps n (a ^^^ b) = steps n a ^^^ steps n b := by
  induction n generalizing a b with
  | zero => rfl
  | succ n ih => rw [steps, step_xor, ih, steps, steps]

theorem steps_ne_zero (n : Nat) {r : UInt32} (h : r ≠ 0) : steps n r ≠ 0 := by
  induction n generalizing r with
  | zero => exact h
  | succ n ih => exact ih (step_ne_zero h)

theorem steps_zero (n : Nat) : steps n 0 = 0 := by
  induction n with
  | zero => rfl
  | succ n ih => exact ih

theorem steps_inj {n : Nat} {a b : UInt32} : steps n a = steps n b ↔ a = b := by
  refine ⟨fun same => ?_, congrArg _⟩
  by_contra other
  refine steps_ne_zero n (mt UInt32.xor_eq_zero_iff.mp other) ?_
  rw [steps_xor, same, UInt32.xor_self]

/-! ## Strings of bits -/

/-- The remainder takes in a bit. -/
def enter (r : UInt32) (bit : Bool) : UInt32 := step (r ^^^ if bit then 1 else 0)

/-- The number that is written by some bits, the lowest first. -/
def number (bits : List Bool) : Nat := Nat.ofDigits 2 (bits.map Bool.toNat)

theorem number_cons (bit : Bool) (bits : List Bool) :
    number (bit :: bits) = bit.toNat + 2 * number bits := Nat.ofDigits_cons ..

theorem number_append (a b : List Bool) : number (a ++ b) = number a + 2 ^ a.length * number b := by
  rw [number, List.map_append, Nat.ofDigits_append, List.length_map]
  rfl

theorem number_lt (bits : List Bool) : number bits < 2 ^ bits.length := by
  have digits : ∀ d ∈ bits.map Bool.toNat, d < 2 := by
    intro d member
    obtain ⟨bit, -, rfl⟩ := List.mem_map.mp member
    exact bit.toNat_lt
  have below := Nat.ofDigits_lt_base_pow_length (by decide) digits
  rwa [List.length_map] at below

theorem number_ne_zero {bits : List Bool} (filled : true ∈ bits) : number bits ≠ 0 := by
  induction bits with
  | nil => cases filled
  | cons bit bits ih =>
      rw [number_cons]
      cases List.mem_cons.mp filled with
      | inl here =>
          rw [← here, Bool.toNat_true]
          omega
      | inr later =>
          have := ih later
          omega

theorem number_testBit (n v : Nat) : number ((List.range n).map v.testBit) = v % 2 ^ n := by
  induction n generalizing v with
  | zero => exact (Nat.mod_one v).symm
  | succ n ih =>
      have rest : (List.range n).map (v.testBit ∘ Nat.succ) = (List.range n).map (v / 2).testBit :=
        List.map_congr_left fun i _ => Nat.testBit_succ v i
      have low : (v.testBit 0).toNat = v % 2 := by
        rw [Nat.testBit_zero]
        rcases Nat.mod_two_eq_zero_or_one v with h | h <;> simp [h]
      rw [List.range_succ_eq_map, List.map_cons, List.map_map, number_cons, rest, ih, low, Nat.pow_succ',
        Nat.mod_mul]

theorem number_bits (bs : Bytes) : number bs.bits = bs.toNatLE := by
  induction bs with
  | nil => rfl
  | cons b bs ih =>
      rw [Bytes.bits_cons, number_append, number_testBit, ih, List.length_map, List.length_range,
        Nat.mod_eq_of_lt b.toNat_lt]
      rfl

/-- A word is entered bit by bit. -/
theorem foldl_enter (r : UInt32) {bits : List Bool} (short : bits.length ≤ 32) :
    bits.foldl enter r = steps bits.length (r ^^^ UInt32.ofNat (number bits)) := by
  induction bits generalizing r with
  | nil => exact UInt32.xor_zero.symm
  | cons bit bits ih =>
      rw [List.length_cons] at short
      have small : number bits < 2 ^ 31 :=
        (number_lt bits).trans_le (Nat.pow_le_pow_right (by decide) (by omega))
      have split : UInt32.ofNat (number (bit :: bits)) =
          (if bit then 1 else 0) ^^^ UInt32.ofNat (2 * number bits) := by
        rw [number_cons]
        cases bit with
        | false => simp
        | true =>
            have odd : 2 * number bits ^^^ 1 = 2 * number bits + 1 := Nat.xor_one_of_even (even_two_mul _)
            rw [Bool.toNat_true, Nat.add_comm, ← odd, UInt32.ofNat_xor, UInt32.xor_comm]
            rfl
      rw [List.foldl_cons, ih _ (by omega), List.length_cons, steps, split, ← UInt32.xor_assoc, step_xor,
        step_double small, enter]

theorem feed_eq (r : UInt32) (b : UInt8) : feed r b = ((List.range 8).map b.toNat.testBit).foldl enter r := by
  rw [foldl_enter r (by simp), number_testBit, Nat.mod_eq_of_lt b.toNat_lt, UInt32.ofNat_uInt8ToNat]
  simp only [List.length_map, List.length_range]
  rfl

theorem foldl_feed (r : UInt32) (bs : Bytes) : bs.foldl feed r = bs.bits.foldl enter r := by
  rw [Bytes.bits, List.foldl_flatMap]
  exact congrArg (fun f => bs.foldl f r) (funext₂ feed_eq)

theorem foldl_feed_xor {x y : Bytes} (same : x.length = y.length) (a b : UInt32) :
    (Bytes.xor x y).foldl feed (a ^^^ b) = x.foldl feed a ^^^ y.foldl feed b := by
  induction x generalizing y a b with
  | nil =>
      obtain rfl := List.length_eq_zero_iff.mp same.symm
      rfl
  | cons c x ih =>
      cases y with
      | nil => cases same
      | cons d y =>
          have first : feed (a ^^^ b) (c ^^^ d) = feed a c ^^^ feed b d := by
            rw [feed, feed, feed, ← steps_xor, UInt8.toUInt32_xor]
            ac_rfl
          rw [Bytes.xor, List.zipWith_cons_cons, List.foldl_cons, first]
          exact ih (Nat.succ.inj same) ..

/-! ## The check -/

theorem xor_eq_iff {a b c : UInt32} : a ^^^ b = c ↔ a ^^^ c = b := by
  have twice (a b : UInt32) : a ^^^ (a ^^^ b) = b := by
    rw [← UInt32.xor_assoc, UInt32.xor_self, UInt32.zero_xor]
  exact ⟨fun same => same ▸ twice a b, fun same => same ▸ twice a c⟩

/-- The remainder of a frame with its check sequence, if they belong together. -/
def residue : UInt32 := steps 32 0xFFFFFFFF

example : residue = 0xDEBB20E3 := by decide +kernel

/-- Whether a check sequence belongs to its frame shows in the remainder of both. -/
theorem strip_eq {received : Bytes} (long : size ≤ received.length) :
    strip received true =
      .ok (received.take (received.length - size), received.foldl feed 0xFFFFFFFF == residue) := by
  generalize body_eq : received.take (received.length - size) = body
  generalize sequence_eq : received.drop (received.length - size) = sequence
  have glued : received = body ++ sequence := by rw [← body_eq, ← sequence_eq, List.take_append_drop]
  have whole : sequence.length = size := by
    rw [← sequence_eq, List.length_drop]
    omega
  have small : Bytes.toNatLE sequence < 2 ^ 32 := by
    have below := Bytes.toNatLE_lt sequence
    rwa [whole] at below
  have word : (UInt32.ofNat (Bytes.toNatLE sequence)).toNat = Bytes.toNatLE sequence :=
    UInt32.toNat_ofNat_of_lt' small
  have bits : (Bytes.bits sequence).length = 32 := by rw [Bytes.length_bits, whole]; rfl
  have remainder : received.foldl feed 0xFFFFFFFF =
      steps 32 (body.foldl feed 0xFFFFFFFF ^^^ UInt32.ofNat (Bytes.toNatLE sequence)) := by
    rw [glued, List.foldl_append, foldl_feed _ sequence, foldl_enter _ bits.le, bits, number_bits]
  have belongs : (crc32 body).toNat = Bytes.toNatLE sequence ↔ received.foldl feed 0xFFFFFFFF = residue := by
    rw [remainder, residue, steps_inj, ← word, UInt32.toNat_inj, word, crc32]
    exact xor_eq_iff
  unfold strip
  rw [if_neg (Nat.not_lt.mpr long)]
  simp only [body_eq, sequence_eq, Bool.not_true, Bool.false_or, beq_eq_decide, belongs]

theorem length_append (frame : Bytes) : (append frame).length = frame.length + size := by
  rw [append, List.length_append, trailer, Bytes.length_ofNatLE]

theorem foldl_append (frame : Bytes) : (append frame).foldl feed 0xFFFFFFFF = residue := by
  have long : size ≤ (append frame).length := (length_append frame).symm ▸ Nat.le_add_left ..
  have stripped := (strip_eq long).symm.trans (strip_append frame true)
  exact beq_iff_eq.mp (Prod.mk.inj (Except.ok.inj stripped)).2

/-! ## Errors -/

/-- Some bits are set, and they all lie within so many consecutive places. -/
structure Burst (width : Nat) (bits : List Bool) : Prop where
  filled : true ∈ bits
  narrow : ∃ start, ∀ i, bits[i]? = some true → start ≤ i ∧ i < start + width

/-- Where no bits are set, the remainder is only moved on. -/
theorem foldl_enter_clear (r : UInt32) {bits : List Bool} (clear : true ∉ bits) :
    bits.foldl enter r = steps bits.length r := by
  induction bits generalizing r with
  | nil => rfl
  | cons bit bits ih =>
      obtain ⟨first, rest⟩ := not_or.mp (mt List.mem_cons.mpr clear)
      have zero : bit = false := by simpa using Ne.symm first
      rw [List.foldl_cons, ih _ rest, zero, enter]
      exact congrArg (steps bits.length ∘ step) UInt32.xor_zero

/-- What is set in a burst lies in one word of it. -/
theorem Burst.split {width : Nat} {bits : List Bool} (burst : Burst width bits) :
    ∃ before word behind, bits = before ++ (word ++ behind) ∧ word.length ≤ width ∧
      true ∉ before ∧ true ∈ word ∧ true ∉ behind := by
  obtain ⟨filled, start, narrow⟩ := burst
  have whole : bits = bits.take start ++ ((bits.drop start).take width ++ (bits.drop start).drop width) := by
    rw [List.take_append_drop, List.take_append_drop]
  have before : true ∉ bits.take start := by
    intro member
    obtain ⟨i, here⟩ := List.mem_iff_getElem?.mp member
    rw [List.getElem?_take] at here
    split at here
    next early => exact Nat.not_le.mpr early (narrow i here).1
    next => cases here
  have behind : true ∉ (bits.drop start).drop width := by
    intro member
    obtain ⟨i, here⟩ := List.mem_iff_getElem?.mp member
    rw [List.drop_drop, List.getElem?_drop] at here
    exact absurd (narrow _ here).2 (by omega)
  refine ⟨_, _, _, whole, List.length_take_le .., before, ?_, behind⟩
  rw [whole] at filled
  exact ((List.mem_append.mp filled).resolve_left before |> List.mem_append.mp).resolve_right behind

/-- A burst leaves something in the remainder. -/
theorem Burst.foldl_ne_zero {bits : List Bool} (burst : Burst 32 bits) : bits.foldl enter 0 ≠ 0 := by
  obtain ⟨before, word, behind, rfl, short, before_clear, filled, behind_clear⟩ := burst.split
  have some : UInt32.ofNat (number word) ≠ 0 := by
    have small := (number_lt word).trans_le (Nat.pow_le_pow_right (by decide) short)
    intro zero
    refine number_ne_zero filled ?_
    rw [← UInt32.toNat_ofNat_of_lt' (show _ < 2 ^ 32 from small), zero]
    rfl
  rw [List.foldl_append, foldl_enter_clear 0 before_clear, steps_zero, List.foldl_append,
    foldl_enter 0 short, UInt32.zero_xor, foldl_enter_clear _ behind_clear]
  exact steps_ne_zero _ (steps_ne_zero _ some)

/-- A frame is found damaged if the errors leave something in the remainder. -/
theorem strip_xor (frame : Bytes) {errors : Bytes} (same : errors.length = (append frame).length)
    (left : errors.foldl feed 0 ≠ 0) :
    strip (Bytes.xor (append frame) errors) true =
      .ok ((Bytes.xor (append frame) errors).take frame.length, false) := by
  have length : (Bytes.xor (append frame) errors).length = frame.length + size := by
    rw [Bytes.xor, List.length_zipWith, same, Nat.min_self, length_append]
  have sum := foldl_feed_xor same.symm 0xFFFFFFFF 0
  rw [UInt32.xor_zero, foldl_append] at sum
  have damaged : residue ^^^ errors.foldl feed 0 ≠ residue := by
    intro equal
    rw [xor_eq_iff, UInt32.xor_self] at equal
    exact left equal.symm
  rw [strip_eq (length.symm ▸ Nat.le_add_left ..), sum, length, Nat.add_sub_cancel,
    beq_eq_false_iff_ne.mpr damaged]

/-- Two different bytes differ in a bit. -/
theorem exists_testBit_ne {b c : UInt8} (other : b ≠ c) :
    ∃ i < 8, b.toNat.testBit i ≠ c.toNat.testBit i := by
  by_contra none
  refine other (UInt8.toNat_inj.mp (Nat.eq_of_testBit_eq fun i => ?_))
  by_cases inside : i < 8
  · by_contra differ
    exact none ⟨i, inside, differ⟩
  · have above (d : UInt8) : d.toNat < 2 ^ i :=
      d.toNat_lt.trans_le (Nat.pow_le_pow_right (by decide) (Nat.not_lt.mp inside))
    rw [Nat.testBit_lt_two_pow (above b), Nat.testBit_lt_two_pow (above c)]

/-- Strings that differ in no more than four adjacent bytes differ by a burst. -/
theorem burst_of_adjacent {sent received : Bytes} (same : received.length = sent.length)
    (other : received ≠ sent)
    (adjacent : ∃ start, ∀ i, received[i]? ≠ sent[i]? → start ≤ i ∧ i < start + 4) :
    Burst 32 (Bytes.bits (Bytes.xor received sent)) := by
  have set {i : Nat} : (Bytes.bits (Bytes.xor received sent))[i]? = some true ↔
      ∃ b c, received[i / 8]? = some b ∧ sent[i / 8]? = some c ∧
        b.toNat.testBit (i % 8) ≠ c.toNat.testBit (i % 8) := by
    rw [Bytes.getElem?_bits, Bytes.xor, List.getElem?_zipWith]
    cases received[i / 8]? with
    | none => simp
    | some b => cases sent[i / 8]? <;> simp
  constructor
  case filled =>
    obtain ⟨i, hr, hs, differ⟩ : ∃ i, ∃ (hr : i < received.length) (hs : i < sent.length),
        received[i] ≠ sent[i] := by
      by_contra none
      refine other (List.ext_getElem same fun i hr hs => ?_)
      by_contra differ
      exact none ⟨i, hr, hs, differ⟩
    obtain ⟨j, hj, differ⟩ := exists_testBit_ne differ
    have place : (8 * i + j) / 8 = i := by omega
    have bit : (8 * i + j) % 8 = j := by omega
    have here : (Bytes.bits (Bytes.xor received sent))[8 * i + j]? = some true := by
      rw [set, place, bit]
      exact ⟨_, _, List.getElem?_eq_getElem hr, List.getElem?_eq_getElem hs, differ⟩
    exact List.mem_of_getElem? here
  case narrow =>
    obtain ⟨start, adjacent⟩ := adjacent
    refine ⟨8 * start, fun i here => ?_⟩
    obtain ⟨b, c, first, second, differ⟩ := set.mp here
    have place := adjacent (i / 8) (by
      rw [first, second]
      exact fun equal => differ (by rw [Option.some.inj equal]))
    omega

/-- A check sequence belongs to its frame, whether that is asked for or not.  If a burst of errors of at
most 32 bits has hit a frame with its check sequence, wherever and in whatever way, this is noticed, and so
is any damage to no more than four adjacent bytes. -/
theorem bursts_noticed (frame : Bytes) :
    (∀ verify, strip (append frame) verify = .ok (frame, true)) ∧
    (∀ errors : Bytes, errors.length = (append frame).length → Burst 32 (Bytes.bits errors) →
      strip (Bytes.xor (append frame) errors) true =
        .ok ((Bytes.xor (append frame) errors).take frame.length, false)) ∧
    ∀ received : Bytes, received.length = (append frame).length → received ≠ append frame →
      (∃ start, ∀ i, received[i]? ≠ (append frame)[i]? → start ≤ i ∧ i < start + 4) →
      strip received true = .ok (received.take frame.length, false) := by
  have noticed (errors : Bytes) (same : errors.length = (append frame).length)
      (burst : Burst 32 (Bytes.bits errors)) :
      strip (Bytes.xor (append frame) errors) true =
        .ok ((Bytes.xor (append frame) errors).take frame.length, false) := by
    refine strip_xor frame same ?_
    rw [foldl_feed]
    exact burst.foldl_ne_zero
  refine ⟨strip_append frame, noticed, fun received same other adjacent => ?_⟩
  have errors := noticed (Bytes.xor received (append frame))
    (by rw [Bytes.xor, List.length_zipWith, same, Nat.min_self]) (burst_of_adjacent same other adjacent)
  have restored : Bytes.xor (append frame) (Bytes.xor received (append frame)) = received := by
    rw [Bytes.xor, List.zipWith_comm_of_comm UInt8.xor_comm]
    exact Cipher.xor_xor same.le
  rwa [restored] at errors

/-- A burst of 32 bits that begins in the frame and ends in its check sequence, and four bytes inverted. -/
theorem bursts_noticed_across :
    let sent := append [0x61]
    let errors : Bytes := [0x80, 0xFF, 0xFF, 0xFF, 0x7F]
    let received : Bytes := [0x9E, 0xBC, 0x41, 0x48, 0xE8]
    sent = [0x61, 0x43, 0xBE, 0xB7, 0xE8] ∧ strip sent true = .ok ([0x61], true) ∧
      errors.length = sent.length ∧ Burst 32 (Bytes.bits errors) ∧
      strip (Bytes.xor sent errors) true = .ok ([0xE1], false) ∧
      received.length = sent.length ∧ received ≠ sent ∧
      (∃ start, ∀ i, received[i]? ≠ sent[i]? → start ≤ i ∧ i < start + 4) ∧
      strip received true = .ok ([0x9E], false) := by
  intro sent errors received
  have same : sent = [0x61, 0x43, 0xBE, 0xB7, 0xE8] := by decide +kernel
  have length : sent.length = 5 := length_append ..
  have burst : Burst 32 (Bytes.bits errors) := by
    refine ⟨by decide, 7, fun i here => ?_⟩
    have inside : ∀ i < 40, (Bytes.bits errors)[i]? = some true → 7 ≤ i ∧ i < 7 + 32 := by decide
    exact inside i (List.getElem?_eq_some_iff.mp here).1 here
  have other : received ≠ sent := by
    rw [same]
    decide
  have adjacent : ∀ i, received[i]? ≠ sent[i]? → 0 ≤ i ∧ i < 0 + 4 := by
    intro i differ
    rw [same] at differ
    match i with
    | 0 | 1 | 2 | 3 => omega
    | i + 4 => exact absurd rfl differ
  obtain ⟨intact, bursts, bytes⟩ := bursts_noticed [0x61]
  refine ⟨same, intact true, length.symm, burst, ?_, length.symm, other, ⟨0, adjacent⟩,
    bytes received length.symm other ⟨0, adjacent⟩⟩
  have found := bursts errors length.symm burst
  have rest : (Bytes.xor sent errors).take 1 = [0xE1] := by
    rw [same]
    rfl
  exact found.trans (congrArg (fun bs => Except.ok (bs, false)) rest)

end Checksum

namespace Receiver

/-- A receiver that computes check sequences takes a frame that was hit by a burst for damaged: nothing of
it reaches the session or a decoder. -/
theorem capture_burst {r : Receiver} (computes : r.settings.verifyChecksum = true) (now : Moment)
    {radio : Bytes} {header : Radiotap.Header} (read : Radiotap.parse radio = .ok (header, []))
    (checked : header.hasChecksum = true) (frame : Bytes) {errors : Bytes}
    (same : errors.length = (Checksum.append frame).length) (burst : Checksum.Burst 32 (Bytes.bits errors)) :
    let result := r.capture now (radio ++ Bytes.xor (Checksum.append frame) errors)
    result.1.outcome = .ok .corrupt ∧ result.2.session = r.session ∧
      result.1.calls.filter Call.isDecode = [] := by
  have damaged := Checksum.strip_xor frame same (Checksum.foldl_feed 0 errors ▸ burst.foldl_ne_zero)
  let info : FrameInfo := ⟨header.frequency, header.strength, true⟩
  let counted := r.count fun c => { c with badChecksums := c.badChecksums + 1 }
  have alike : Alike (counted.passOn info []).2 r := (alike_count ..).passOn info []
  intro result
  have told : result =
      ({ outcome := .ok .corrupt, calls := r.relayCalls info [] }, (counted.passOn info []).2) := by
    simp only [result, capture, Radiotap.parse_append read, checked, computes, if_true, damaged,
      Bool.not_false, Bool.or_true]
    rfl
  rw [told]
  exact ⟨rfl, alike.session, filter_relayCalls r info []⟩

end Receiver

end AirLink
