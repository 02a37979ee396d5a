import AirLink.Proofs.Contents
import AirLink.Proofs.Ordering
import AirLink.Proofs.Packets

/-! # What a block has been given

An `Intake` is a fragment that has been accepted.  The intakes of a block say what lies at each of its
places: a fragment that arrived, or a share that is decoded from those that did.  The buffer at a place
begins with these bytes.  Behind a fragment it holds zeros, and behind a decoded share whatever an
earlier block has left there, since opening a slot for a block does not clear it.

What is delivered of a block is read from its buffers.  As long as no fragment claims more bytes than
it has, that depends on the intakes alone.
-/

namespace AirLink

/-- There is a header, and the size in it fits the fragment. -/
def Truthful (content : Bytes) : Prop :=
  match FragmentHeader.decode content with
  | .ok header => Limits.fragmentHeader + header.size.toNat ≤ content.length
  | .error _ => False

instance (content : Bytes) : Decidable (Truthful content) := by
  unfold Truthful
  split <;> infer_instance

theorem FragmentHeader.decode_append {content : Bytes} (long : Limits.fragmentHeader ≤ content.length)
    (rest : Bytes) : decode (content ++ rest) = decode content := by
  match content, long with
  | a :: b :: c :: content, _ => rfl

/-- What follows a fragment does not matter if its header is truthful. -/
theorem payload?_append {content : Bytes} (truthful : Truthful content) (rest : Bytes) :
    payload? (content ++ rest) = payload? content := by
  unfold Truthful at truthful
  cases read : FragmentHeader.decode content with
  | error fault =>
      rw [read] at truthful
      exact truthful.elim
  | ok header =>
      simp only [read] at truthful
      have long : Limits.fragmentHeader ≤ content.length := by omega
      have whole : ¬(content ++ rest).length < Limits.fragmentHeader + header.size.toNat := by
        rw [List.length_append]
        omega
      have own : ¬content.length < Limits.fragmentHeader + header.size.toNat := by omega
      have inside : header.size.toNat ≤ (content.drop Limits.fragmentHeader).length := by
        rw [List.length_drop]
        omega
      unfold payload?
      simp only [FragmentHeader.decode_append long, read, whole, own,
        List.drop_append_of_le_length long, List.take_append_of_le_length inside]

namespace ErasureCode

open Erasure Elimination Shares

variable {code : ErasureCode}

/-- Decoding computes its shares from the inputs alone, and then writes them over the buffers. -/
theorem decode_over (sound : Sound code) {inputs : List Bytes} {indices : List Nat} {size : Nat}
    (arranged : Arranged code indices) (length : inputs.length = code.k)
    (long : ∀ b ∈ inputs, size ≤ b.length) :
    ∃ shares : List Bytes, shares.length = (code.missing indices).length ∧
      (∀ b ∈ shares, b.length = size) ∧
      ∀ buffers : List Bytes, buffers.length = (code.missing indices).length →
        (∀ b ∈ buffers, size ≤ b.length) →
        code.decode inputs indices buffers size = .ok (List.zipWith Bytes.overlay shares buffers) := by
  let clean := (code.missing indices).map fun _ => Bytes.zeros size
  obtain ⟨toData, product, -⟩ := @decode_ok code sound inputs clean indices size arranged length long
    (by simp [clean]) (by simp [clean, Bytes.zeros])
  refine ⟨(code.missing indices).map fun i => weightedSum size (toData.get i).toList inputs, by simp,
    by simp, fun buffers count room => ?_⟩
  obtain ⟨again, product', decoded⟩ := decode_ok sound arranged length long count room
  -- A matrix has one inverse at most.
  have same : entries again = entries toData :=
    left_inv_eq_right_inv product' (mul_eq_one_comm.mp product)
  rw [decoded, List.zipWith_map_left]
  have rows : again = toData := by
    apply Vector.ext
    intro i hi
    apply Vector.ext
    intro j hj
    exact congrFun (congrFun same ⟨i, hi⟩) ⟨j, hj⟩
  rw [rows]

end ErasureCode

namespace Intake

def ofBlock (taken : List Intake) (b : Nat) : List Intake := taken.filter (·.block = b)

/-- A fragment of a newer block has been taken in. -/
def overtaken (taken : List Intake) (b : Nat) : Bool := taken.any (b < ·.block)

/-! Of one block: what lies at its places. -/

section block

variable (code : ErasureCode) (room : Nat) (taken : List Intake)

def plain? (i : Nat) : Option Bytes := (taken.find? (·.fragment = i)).map Intake.plain

def has (i : Nat) : Bool := (plain? taken i).isSome

def plainAt (i : Nat) : Bytes := (plain? taken i).getD []

def absent : List Nat := (List.range code.k).filter (!has taken ·)

/-- The shares that the absent fragments are decoded from, and the length of the longest. -/
def sources : List Nat := ErasureCode.choice code.k code.n (has taken)

def shareSize : Nat := ((sources code taken).map fun i => (plainAt taken i).length).foldl max 0

/-- The absent fragments, decoded into buffers that hold nothing else. -/
def decoded : Except Fault (List Bytes) :=
  code.decode ((sources code taken).map fun i => Bytes.fit room (plainAt taken i))
    (sources code taken) ((absent code taken).map fun _ => Bytes.zeros (shareSize code taken))
    (shareSize code taken)

def share (i : Nat) : Bytes :=
  match decoded code room taken with
  | .ok shares => shares.getD ((absent code taken).idxOf i) []
  | .error _ => []

/-- The bytes that a block has of its own at a place. -/
def own (i : Nat) : Bytes := if has taken i then plainAt taken i else share code room taken i

/-- The buffer at a place where an earlier block has left something. -/
def content (left : Nat → Bytes) (i : Nat) : Bytes :=
  if has taken i then Bytes.fit room (plainAt taken i)
  else Bytes.overlay (share code room taken i) (left i)

def delivery (left : Nat → Bytes) (b i : Nat) : Option Delivery :=
  (payload? (content code room taken left i)).map fun payload => ⟨b, i, !has taken i, payload⟩

/-- The erasure code is used when the `k`-th fragment is taken in, or not at all. -/
def rebuilt (k : Nat) : Bool := taken[k - 1]?.any Intake.recover

/-- The places that are passed on. -/
def passed (k : Nat) (overtaken : Bool) : List Nat :=
  if rebuilt taken k then List.range k
  else if overtaken then (List.range k).filter (has taken)
  else (List.range k).takeWhile (has taken)

def deliveries (left : Nat → Bytes) (b : Nat) (overtaken : Bool) : List Delivery :=
  (passed taken code.k overtaken).filterMap (delivery code room taken left b)

end block

variable {code : ErasureCode} {room : Nat} {taken : List Intake}

@[simp]
theorem has_nil (i : Nat) : has [] i = false := rfl

theorem plain?_concat (x : Intake) (i : Nat) :
    plain? (taken ++ [x]) i = (plain? taken i).or (if x.fragment = i then some x.plain else none) := by
  unfold plain?
  rw [List.find?_append, Option.map_or, List.find?_singleton]
  split <;> simp_all

theorem has_concat (x : Intake) (i : Nat) :
    has (taken ++ [x]) i = (has taken i || decide (x.fragment = i)) := by
  rw [has, plain?_concat, Option.isSome_or]
  split <;> simp_all [has]

theorem plainAt_concat (x : Intake) (i : Nat) :
    plainAt (taken ++ [x]) i =
      if has taken i then plainAt taken i else if x.fragment = i then x.plain else [] := by
  unfold plainAt has
  rw [plain?_concat]
  cases plain? taken i with
  | none => split <;> rfl
  | some bs => rfl

theorem plainAt_of_not_has {i : Nat} (h : has taken i = false) : plainAt taken i = [] := by
  rw [has, Option.isSome_eq_false_iff, Option.isNone_iff_eq_none] at h
  rw [plainAt, h]
  rfl

/-- What is at a place where a fragment has arrived is not changed by another. -/
theorem delivery_concat (x : Intake) (left : Nat → Bytes) (b : Nat) {i : Nat} (h : has taken i = true) :
    delivery code room (taken ++ [x]) left b i = delivery code room taken left b i := by
  have still : has (taken ++ [x]) i = true := by rw [has_concat, h, Bool.true_or]
  rw [delivery, delivery, content, content, if_pos still, if_pos h, plainAt_concat, if_pos h, still, h]

/-- Where nothing has arrived, nothing is passed on. -/
theorem passed_nil (k : Nat) (overtaken : Bool) : passed [] k overtaken = [] := by
  have stop : (List.range k).takeWhile (has []) = [] := by
    rw [List.takeWhile_eq_nil_iff]
    simp
  cases overtaken <;> simp [passed, rebuilt, stop]

theorem deliveries_nil (left : Nat → Bytes) (b : Nat) (overtaken : Bool) :
    deliveries code room [] left b overtaken = [] := by
  rw [deliveries, passed_nil, List.filterMap_nil]

theorem getD_idxOf {α β : Type} [BEq α] [LawfulBEq α] {places : List α} (nodup : places.Nodup)
    {parts : List β} (length : parts.length = places.length) (default : β) :
    places.map (fun i => parts.getD (places.idxOf i) default) = parts := by
  apply List.ext_getElem (by simpa using length.symm)
  intro j hj inside
  rw [List.length_map] at hj
  rw [List.getElem_map, nodup.idxOf_getElem, List.getD_eq_getElem _ _ inside]

theorem overlay_zeros {size : Nat} {bs : Bytes} (h : bs.length = size) :
    Bytes.overlay bs (Bytes.zeros size) = bs := by
  simp [Bytes.overlay, Bytes.zeros, h]

/-- The shares are taken from what is decoded. -/
theorem map_share {shares : List Bytes} (decoded : decoded code room taken = .ok shares)
    (many : shares.length = (absent code taken).length) :
    (absent code taken).map (share code room taken) = shares := by
  have distinct : (absent code taken).Nodup := List.nodup_range.filter _
  have parts := getD_idxOf distinct many []
  unfold share
  rw [decoded]
  exact parts

section full

open ErasureCode
open Transmitter (longest)

variable (sound : Sound code) (fits : ∀ i, (plainAt taken i).length ≤ room)
  (count : ((List.range code.n).filter (has taken)).length = code.k)

include fits in
theorem shareSize_le : shareSize code taken ≤ room := by
  refine foldl_max_le (Nat.zero_le _) ?_
  simpa using fun i _ => fits i

include sound fits count

/-- The absent fragments are decoded to shares of one length, whatever these are written over. -/
theorem decode_sources :
    (∀ i ∈ absent code taken, (share code room taken i).length = shareSize code taken) ∧
      ∀ buffers : List Bytes, buffers.length = (absent code taken).length →
        (∀ b ∈ buffers, shareSize code taken ≤ b.length) →
        code.decode ((sources code taken).map fun i => Bytes.fit room (plainAt taken i))
            (sources code taken) buffers (shareSize code taken) =
          .ok (List.zipWith Bytes.overlay ((absent code taken).map (share code room taken)) buffers) := by
  have arranged : Arranged code (sources code taken) := arranged_choice sound count
  have missing : (code.missing (sources code taken)).length = (absent code taken).length := by
    rw [absent, ← missing_choice sound count, List.length_map, sources]
  have long : ∀ b ∈ (sources code taken).map fun i => Bytes.fit room (plainAt taken i),
      shareSize code taken ≤ b.length := by
    intro b hb
    obtain ⟨i, -, rfl⟩ := List.mem_map.mp hb
    rw [Bytes.length_fit]
    exact shareSize_le fits
  obtain ⟨shares, many, sizes, decodes⟩ :=
    decode_over sound arranged (by simpa using arranged.length) long
  rw [missing] at many decodes
  have clean : decoded code room taken = .ok shares := by
    rw [decoded, decodes _ (List.length_map ..) (by simp [Bytes.zeros]), List.zipWith_map_right]
    congr 1
    apply List.ext_getElem
    · rw [List.length_zipWith, many, Nat.min_self]
    · intro j hj hj'
      rw [List.getElem_zipWith, overlay_zeros (sizes _ (List.getElem_mem _))]
  rw [map_share clean many]
  refine ⟨fun i hi => sizes _ ?_, decodes⟩
  rw [← map_share clean many]
  exact List.mem_map_of_mem hi

/-- The shares of the absent fragments of a block with the given data are the data. -/
theorem share_eq_data {data : List Bytes} (length : data.length = code.k)
    (sent : ∀ i < code.n, has taken i = true → plainAt taken i = plainShare code data i) {i : Nat}
    (hi : i ∈ absent code taken) :
    share code room taken i = Bytes.fit (longest data) (data.getD i []) := by
  have size : shareSize code taken = longest data :=
    longest_choice sound count (fun i hi present => congrArg List.length (sent i hi present))
      (List.ne_nil_of_mem hi)
  have le : shareSize code taken ≤ room := shareSize_le fits
  rw [size] at le
  have clean : decoded code room taken =
      .ok ((absent code taken).map fun i => Bytes.fit (longest data) (data.getD i [])) := by
    rw [decoded, size, sources, decode_choice sound count length le
      (fun i hi present => congrArg _ (sent i hi present))
      (show ((absent code taken).map _).length = _ from List.length_map ..) (by simp [Bytes.zeros])]
    rw [← absent, List.zipWith_map_right, List.zipWith_self]
    congr 1
    exact List.map_congr_left fun i _ => overlay_zeros (Bytes.length_fit ..)
  have shares := map_share clean (List.length_map ..)
  exact List.map_inj_left.mp shares i hi

end full

end Intake

namespace Slot

open ErasureCode Intake

variable {s : Slot} {code : ErasureCode} {size block : Nat} {left : Nat → Bytes} {taken : List Intake}

/-- The slot holds what has been taken in, and before that something else was left in it. -/
structure Keeps (code : ErasureCode) (size : Nat) (left : Nat → Bytes) (taken : List Intake) (s : Slot) :
    Prop where
  has : s.has = Intake.has taken
  length : ∀ i, s.lengthOf i = (plainAt taken i).length
  buffer : ∀ i < code.n, s.bufferOf i =
    if Intake.has taken i then Bytes.fit size (plainAt taken i) else left i
  used : s.used = taken.length

theorem Fresh.keeps (h : s.Fresh size code.n block) : s.Keeps code size s.bufferOf [] where
  has := funext h.not_has
  length i := by
    have empty := h.not_has i
    simp only [has, decide_eq_false_iff_not, Nat.not_lt, Nat.le_zero] at empty
    rw [empty, plainAt_of_not_has (has_nil i)]
    rfl
  buffer i _ := by rw [has_nil, if_neg Bool.false_ne_true]
  used := h.used

theorem Keeps.store (keeps : s.Keeps code size left taken) (shaped : s.Shaped size code.n) {x : Intake}
    (suits : Suits size code.n x.fragment x.plain) (new : s.has x.fragment = false) :
    (s.store x.fragment x.plain).Keeps code size left (taken ++ [x]) := by
  have inside : x.fragment < s.cells.length := shaped.length.symm ▸ suits.lt
  rw [keeps.has] at new
  refine ⟨?_, fun i => ?_, fun i hi => ?_, ?_⟩
  · funext i
    rw [has_store inside suits.filled, has_concat, keeps.has, Bool.or_comm]
    simp only [eq_comm]
  · rw [lengthOf_store inside, plainAt_concat, keeps.length]
    by_cases same : i = x.fragment
    · subst same
      simp [new]
    · rw [if_neg same, if_neg (Ne.symm same)]
      split
      · rfl
      next absent => rw [plainAt_of_not_has (Bool.eq_false_iff.mpr absent)]
  · rw [has_concat, plainAt_concat]
    by_cases same : i = x.fragment
    · subst same
      simp [shaped.bufferOf_store suits.lt, new]
    · rw [bufferOf_store_ne same, keeps.buffer i hi]
      by_cases present : Intake.has taken i = true <;> simp [present, Ne.symm same]
  · rw [List.length_append, ← keeps.used]
    rfl

theorem Keeps.drain (keeps : s.Keeps code size left taken) (k : Nat) (mode : Mode) :
    (s.drain k mode).1.Keeps code size left taken :=
  ⟨keeps.has, keeps.length, keeps.buffer, keeps.used⟩

/-- The payloads of the places that leave, read from their buffers. -/
theorem deliveries_drain (index : s.index = some block) {k : Nat} {mode : Mode}
    {hand : Nat → Option Delivery}
    (reads : ∀ i ∈ s.leaving k mode, s.has i = true ∨ mode = .rebuilt →
      (payload? (s.bufferOf i)).map (⟨block, i, !s.has i, ·⟩) = hand i) :
    (s.drain k mode).2.filterMap Emission.delivery? =
      ((s.leaving k mode).filter fun i => s.has i || mode = .rebuilt).filterMap hand := by
  rw [emissions_drain index, List.filterMap_map, List.filterMap_filter]
  refine List.filterMap_congr fun i hi => ?_
  have read := reads i hi
  rw [Function.comp_apply, departure]
  by_cases present : s.has i = true
  · simpa [present, Emission.delivery?] using read
  · by_cases filled : mode = .rebuilt
    · simpa [present, filled, Emission.delivery?] using read
    · simp [present, filled, Emission.delivery?]

theorem Keeps.reads (keeps : s.Keeps code size left taken) (sound : Sound code) {i : Nat} (hi : i < code.k)
    (present : s.has i = true) :
    (payload? (s.bufferOf i)).map (⟨block, i, !s.has i, ·⟩) =
      Intake.delivery code size taken left block i := by
  rw [keeps.has] at present ⊢
  rw [Intake.delivery, content, keeps.buffer i (hi.trans_le sound.le), if_pos present, if_pos present]

section held

variable (holding : s.Holding code size block) (keeps : s.Keeps code size left taken)
  (sound : Sound code)

include holding keeps sound

theorem Keeps.deliveries_cutThrough :
    (List.range s.cursor).filterMap (Intake.delivery code size taken left block) ++
        (s.drain code.k .cutThrough).2.filterMap Emission.delivery? =
      ((List.range code.k).takeWhile (Intake.has taken)).filterMap
        (Intake.delivery code size taken left block) := by
  have present : ∀ i ∈ s.leaving code.k .cutThrough, s.has i = true :=
    fun i hi => List.mem_takeWhile_imp hi
  rw [← keeps.has, holding.prefix_drain, range_drain, List.filterMap_append,
    deliveries_drain holding.index fun i hi _ => keeps.reads sound (mem_leaving_lt hi) (present i hi)]
  rw [List.filter_eq_self.mpr fun i hi => by simp [present i hi]]

theorem Keeps.deliveries_stale :
    (List.range s.cursor).filterMap (Intake.delivery code size taken left block) ++
        (s.drain code.k .stale).2.filterMap Emission.delivery? =
      ((List.range code.k).filter (Intake.has taken)).filterMap
        (Intake.delivery code size taken left block) := by
  have whole := range_drain code.k .stale s
  have before : (List.range s.cursor).filter s.has = List.range s.cursor :=
    List.filter_eq_self.mpr fun i hi => holding.passed i (List.mem_range.mp hi)
  rw [cursor_drain_all holding.cursor_le (by simp)] at whole
  rw [← keeps.has, whole, List.filter_append, before, List.filterMap_append,
    deliveries_drain holding.index fun i hi filled => keeps.reads sound (mem_leaving_lt hi)
      (by simpa using filled)]
  simp

end held

section full

variable (holding : s.Holding code size block) (keeps : s.Keeps code size left taken)
  (sound : Sound code) (full : s.used = code.k)

include holding keeps sound full

/-- Filling a gap writes its decoded share over what has been left there. -/
theorem Keeps.rebuild_eq : s.rebuild code = .ok (s.refill (s.absent code.k) ((s.absent code.k).map fun i =>
    Bytes.overlay (share code size taken i) (s.bufferOf i)), (s.absent code.k).length) := by
  have count := Holding.count holding full
  rw [keeps.has] at count
  have chosen : s.chosen code = sources code taken := by rw [chosen, keeps.has, sources]
  have places : s.absent code.k = Intake.absent code taken := by rw [Slot.absent, keeps.has, Intake.absent]
  have longest : s.chosenSize code = shareSize code taken := by
    rw [chosenSize, chosen, shareSize, List.map_congr_left fun i _ => keeps.length i]
  have inputs : (s.chosen code).map s.bufferOf =
      (sources code taken).map fun i => Bytes.fit size (plainAt taken i) := by
    rw [chosen]
    refine List.map_congr_left fun i hi => ?_
    obtain ⟨present, inside⟩ := mem_choice sound count hi
    rw [keeps.buffer i inside, if_pos present]
  have decodes := (decode_sources sound (fun i => keeps.length i ▸ holding.fits i) count).2
    ((s.absent code.k).map s.bufferOf) (by rw [List.length_map, places])
    (longest ▸ holding.room_absent sound)
  rw [holding.rebuild_eq sound full, inputs, chosen, longest, decodes, ← places]
  split
  next none =>
    rw [List.isEmpty_iff.mp none]
    rfl
  next =>
    simp only [Except.map, List.zipWith_map, List.zipWith_self]

theorem Keeps.deliveries_rebuilt {filled : Slot} {count : Nat}
    (rebuild : s.rebuild code = .ok (filled, count)) :
    (List.range s.cursor).filterMap (Intake.delivery code size taken left block) ++
        (filled.drain code.k .rebuilt).2.filterMap Emission.delivery? =
      (List.range code.k).filterMap (Intake.delivery code size taken left block) := by
  rw [keeps.rebuild_eq holding sound full, Except.ok.injEq, Prod.mk.injEq] at rebuild
  obtain ⟨rfl, -⟩ := rebuild
  let buffer i := Bytes.overlay (share code size taken i) (s.bufferOf i)
  let filled := s.refill (s.absent code.k) ((s.absent code.k).map buffer)
  obtain ⟨index, cursor, -⟩ := refill_frame (s := s) (s.absent code.k) ((s.absent code.k).map buffer)
  have has : filled.has = Intake.has taken := (has_refill ..).trans keeps.has
  have whole := range_drain code.k .rebuilt filled
  rw [cursor_drain_all (cursor.trans_le holding.cursor_le) (by simp), cursor] at whole
  have reads : ∀ i ∈ filled.leaving code.k .rebuilt, filled.has i = true ∨ Mode.rebuilt = .rebuilt →
      (payload? (filled.bufferOf i)).map (⟨block, i, !filled.has i, ·⟩) =
        Intake.delivery code size taken left block i := by
    intro i hi _
    have place : i < code.k := mem_leaving_lt hi
    rw [Intake.delivery, has, content]
    by_cases present : Intake.has taken i = true
    · have other : i ∉ s.absent code.k := by simp [Slot.absent, keeps.has, present]
      rw [bufferOf_refill_of_not_mem other, keeps.buffer i (place.trans_le sound.le), if_pos present,
        if_pos present]
    · have gap : i ∈ s.absent code.k := by simp [Slot.absent, keeps.has, present, place]
      have inside : ∀ j ∈ s.absent code.k, j < s.cells.length := by
        intro j hj
        rw [holding.shaped.length]
        exact (List.mem_range.mp (List.mem_filter.mp hj).1).trans_le sound.le
      have distinct : (s.absent code.k).Nodup := List.nodup_range.filter _
      rw [bufferOf_refill distinct inside buffer gap, if_neg present]
      simp only [buffer]
      rw [keeps.buffer i (place.trans_le sound.le), if_neg present]
  rw [whole, List.filterMap_append, deliveries_drain (index.trans holding.index) reads]
  simp [filled, buffer]

end full

/-- The block is open, and what has been passed on of it are the fragments up to the first gap. -/
structure Pending (code : ErasureCode) (size : Nat) (left : Nat → Bytes) (taken : List Intake) (s : Slot) :
    Prop where
  keeps : s.Keeps code size left taken
  unused : rebuilt taken code.k = false
  front : (List.range code.k).takeWhile (Intake.has taken) = List.range s.cursor

theorem passed_of_complete {k : Nat} (complete : (List.range k).takeWhile (Intake.has taken) = List.range k)
    (overtaken : Bool) : passed taken k overtaken = List.range k := by
  have present : ∀ i ∈ List.range k, Intake.has taken i = true := fun i hi =>
    List.mem_takeWhile_imp (complete ▸ hi)
  unfold passed
  split_ifs
  · rfl
  · exact List.filter_eq_self.mpr present
  · exact complete

theorem rebuilt_concat {k : Nat} (pos : 0 < k) (x : Intake) (unused : rebuilt taken k = false) :
    rebuilt (taken ++ [x]) k = (x.recover && decide ((taken ++ [x]).length = k)) := by
  unfold rebuilt at unused ⊢
  rw [List.length_append, List.length_singleton]
  rcases Nat.lt_trichotomy (k - 1) taken.length with less | same | more
  · rw [List.getElem?_append_left less, unused, decide_eq_false (by omega), Bool.and_false]
  · rw [List.getElem?_append_right same.ge, same, Nat.sub_self, decide_eq_true (by omega), Bool.and_true]
    rfl
  · rw [List.getElem?_eq_none (by simp; omega), decide_eq_false (by omega), Bool.and_false]
    rfl

/-- A block that has been given one more fragment passes on what its intakes are worth. -/
theorem Keeps.settled (sound : Sound code) {x : Intake} (unused : rebuilt taken code.k = false)
    (holding : s.Holding code size block) (keeps : s.Keeps code size left (taken ++ [x]))
    {emissions : List Emission} {rest : Option Slot}
    (settled : Settled code x.recover s emissions rest) :
    (List.range s.cursor).filterMap (Intake.delivery code size (taken ++ [x]) left block) ++
        emissions.filterMap Emission.delivery? =
      deliveries code size (taken ++ [x]) left block false ∧
    (rest = none → ∀ o, passed (taken ++ [x]) code.k o = List.range code.k) ∧
    ∀ u, rest = some u → u.Pending code size left (taken ++ [x]) := by
  have cut := keeps.deliveries_cutThrough holding sound
  have stop := holding.prefix_drain
  rw [keeps.has] at stop
  have used := rebuilt_concat sound.pos x unused
  rw [← keeps.used] at used
  cases settled with
  | complete all =>
      rw [all] at stop
      have everything := passed_of_complete stop
      refine ⟨?_, fun _ => everything, by simp⟩
      rw [cut, deliveries, everything, stop]
  | waiting gap few =>
      have unused : rebuilt (taken ++ [x]) code.k = false := by
        rw [used, Bool.eq_false_iff]
        simpa using few
      refine ⟨?_, by simp, ?_⟩
      · rw [cut, deliveries, passed, unused]
        rfl
      · rintro u kept
        obtain rfl := Option.some.inj kept
        exact ⟨keeps.drain .., unused, stop⟩
  | rebuilt gap allowed full rebuild =>
      have everything (o : Bool) : passed (taken ++ [x]) code.k o = List.range code.k := by
        rw [passed, used, allowed, full]
        simp
      have rest := (keeps.drain code.k .cutThrough).deliveries_rebuilt holding.drain sound full rebuild
      refine ⟨?_, fun _ => everything, by simp⟩
      rw [List.filterMap_append, ← List.append_assoc, cut, stop, rest, deliveries, everything]

end Slot

end AirLink
