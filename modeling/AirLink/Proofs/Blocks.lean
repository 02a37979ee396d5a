import AirLink.Proofs.Packets
import AirLink.Proofs.Rebuild

/-! # The packets of a block

A block within the limits is always encoded.  Its packets carry the data fragments as they are, and
behind them the parity shares, which are as long as the longest of them.
-/

namespace AirLink.Transmitter

open ErasureCode

variable {t : Transmitter} {payloads : List Bytes}

theorem length_dataShares (t : Transmitter) (payloads : List Bytes) :
    (t.dataShares payloads).length = t.code.k := by
  simp [dataShares]

theorem getD_dataShares {i : Nat} (hi : i < t.code.k) :
    (t.dataShares payloads).getD i [] = fragmentOf payloads[i]? := by
  simp [dataShares, hi]

theorem fragment_bounds (small : ∀ p ∈ payloads, p.length ≤ Limits.payload) (i : Nat) :
    Limits.fragmentHeader ≤ (fragmentOf payloads[i]?).length ∧
      (fragmentOf payloads[i]?).length ≤ Limits.fragment := by
  refine length_fragmentOf fun bs hbs => small bs ?_
  exact List.mem_of_getElem? hbs

theorem longest_bounds (pos : 0 < t.code.k) (small : ∀ p ∈ payloads, p.length ≤ Limits.payload) :
    Limits.fragmentHeader ≤ longest (t.dataShares payloads) ∧
      longest (t.dataShares payloads) ≤ Limits.fragment := by
  constructor
  · have first := @length_le_longest (t.dataShares payloads) 0
    rw [getD_dataShares pos] at first
    exact (fragment_bounds small 0).1.trans first
  · refine foldl_max_le (Nat.zero_le _) ?_
    intro _ hx
    obtain ⟨share, hs, rfl⟩ := List.mem_map.mp hx
    obtain ⟨i, -, rfl⟩ := List.mem_map.mp hs
    exact (fragment_bounds small i).2

theorem plainShare_bounds (pos : 0 < t.code.k) (small : ∀ p ∈ payloads, p.length ≤ Limits.payload)
    (i : Nat) :
    Limits.fragmentHeader ≤ (plainShare t.code (t.dataShares payloads) i).length ∧
      (plainShare t.code (t.dataShares payloads) i).length ≤ Limits.fragment := by
  unfold plainShare
  split
  next hi =>
    rw [getD_dataShares hi]
    exact fragment_bounds small i
  next =>
    rw [length_share]
    exact longest_bounds pos small

theorem overlay_all {bs buffer : Bytes} (covers : buffer.length ≤ bs.length) :
    Bytes.overlay bs buffer = bs := by
  rw [Bytes.overlay, List.drop_of_length_le covers, List.append_nil]

/-- The parity of a block, which covers the zeros that it is written over. -/
theorem encode_zeros {code : ErasureCode} (sound : Sound code) {data : List Bytes}
    (length : data.length = code.k) (size : Nat) :
    code.encode data (List.replicate (code.n - code.k) (Bytes.zeros size)) size =
      .ok ((List.range (code.n - code.k)).map fun j => code.share size data (code.k + j)) := by
  have wide : (Bytes.zeros size).length = size := by simp [Bytes.zeros]
  have room : ∀ b ∈ List.replicate (code.n - code.k) (Bytes.zeros size), size ≤ b.length := by
    intro b hb
    rw [List.eq_of_mem_replicate hb, wide]
  rw [encode_ok sound length (by simp) room]
  congr 1
  apply List.ext_getElem (by simp)
  intro j _ _
  simp only [List.getElem_mapIdx, List.getElem_replicate, List.getElem_map, List.getElem_range]
  exact overlay_all (by rw [length_share, wide])

/-- The fragments of a block are its data with the parity behind it. -/
theorem map_plainShare {code : ErasureCode} (sound : Sound code) {data : List Bytes}
    (length : data.length = code.k) : (List.range code.n).map (plainShare code data) =
      data ++ (List.range (code.n - code.k)).map fun j => code.share (longest data) data (code.k + j) := by
  have both : code.n = code.k + (code.n - code.k) := (Nat.add_sub_cancel' sound.le).symm
  have front : (List.range code.k).map (plainShare code data) = data := by
    apply List.ext_getElem (by simp [length])
    intro i hi inside
    rw [List.getElem_map, List.getElem_range, plainShare, if_pos (length ▸ inside),
      List.getD_eq_getElem _ _ inside]
  rw [both, List.range_add, List.map_append, front, List.map_map, ← both]
  congr 1
  refine List.map_congr_left fun j _ => ?_
  exact if_neg (Nat.not_lt.mpr (Nat.le_add_right ..))

/-- The packets of a block within the limits. -/
theorem encodeBlock_ok (sound : Sound t.code) {block : Nat} (hb : block ≤ Limits.blockIndex)
    (few : payloads.length ≤ t.code.k) (small : ∀ p ∈ payloads, p.length ≤ Limits.payload) :
    t.encodeBlock block payloads = .ok ((List.range t.code.n).map fun i =>
      sealFragment t.key block i (plainShare t.code (t.dataShares payloads) i)) := by
  have noLong : payloads.find? (Limits.payload < ·.length) = none := by
    simpa using small
  have length := length_dataShares t payloads
  unfold encodeBlock
  simp only [if_neg (Nat.not_lt.mpr hb), if_neg (Nat.not_lt.mpr few), noLong, bind, Except.bind, pure,
    Except.pure, encode_zeros sound length, ← map_plainShare sound length]
  congr 1
  apply List.ext_getElem (by simp)
  intro i _ _
  simp

/-- Only blocks within the limits are encoded. -/
theorem encodeBlock_eq_ok {block : Nat} {packets : List Bytes}
    (encoded : t.encodeBlock block payloads = .ok packets) :
    block ≤ Limits.blockIndex ∧ payloads.length ≤ t.code.k ∧ ∀ p ∈ payloads, p.length ≤ Limits.payload := by
  unfold encodeBlock at encoded
  simp only [bind, Except.bind, throw, throwThe, MonadExceptOf.throw, pure, Except.pure] at encoded
  split_ifs at encoded with far many
  cases long : payloads.find? (Limits.payload < ·.length) with
  | some p => simp [long] at encoded
  | none =>
      rw [List.find?_eq_none] at long
      exact ⟨Nat.not_lt.mp far, Nat.not_lt.mp many, fun p hp => by simpa using long p hp⟩

/-- A packet that has been encoded as a part of a block, as it reaches an assembly. -/
def Sent (t : Transmitter) (block : Nat) (payloads : List Bytes) (x : Arrival) : Prop :=
  ∃ packets p packet, t.encodeBlock block payloads = .ok packets ∧ p ∈ packets ∧
    Packet.parse p = .ok packet ∧ packet.arrival? = some x

/-- The packets of a block are its shares under seal. -/
theorem sent_iff (sound : Sound t.code) {block : Nat} {x : Arrival} : t.Sent block payloads x ↔
    (block ≤ Limits.blockIndex ∧ payloads.length ≤ t.code.k ∧ ∀ p ∈ payloads, p.length ≤ Limits.payload) ∧
      ∃ i < t.code.n,
        x = Packet.sealed t.key block i (plainShare t.code (t.dataShares payloads) i) := by
  have few := sound.few
  constructor
  · rintro ⟨packets, p, packet, encoded, member, parsed, arrives⟩
    obtain ⟨hb, many, small⟩ := encodeBlock_eq_ok encoded
    refine ⟨⟨hb, many, small⟩, ?_⟩
    rw [encodeBlock_ok sound hb many small, Except.ok.injEq] at encoded
    subst encoded
    obtain ⟨i, hi, rfl⟩ := List.mem_map.mp member
    have place := List.mem_range.mp hi
    obtain ⟨_, again, same⟩ := Packet.parse_sealFragment t.key hb (show i < 256 by omega)
      (plainShare_bounds sound.pos small i).2
    obtain rfl := Except.ok.inj (parsed.symm.trans again)
    exact ⟨i, place, Option.some.inj (arrives.symm.trans same)⟩
  · rintro ⟨⟨hb, many, small⟩, i, hi, rfl⟩
    obtain ⟨packet, parsed, arrives⟩ := Packet.parse_sealFragment t.key hb (show i < 256 by omega)
      (plainShare_bounds sound.pos small i).2
    exact ⟨_, _, packet, encodeBlock_ok sound hb many small,
      List.mem_map_of_mem (List.mem_range.mpr hi), parsed, arrives⟩

end AirLink.Transmitter
