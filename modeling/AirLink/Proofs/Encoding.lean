import AirLink.Proofs.Blocks
import AirLink.Proofs.Refusal

/-! # What is encoded is accepted

A transmitter encodes the blocks within the limits, and no others.  Each of the packets can be read and
opened, and holds a payload, a filler or the parity of all of these.  An assembly with the same key and
code never refuses it, whatever it has been given before.
-/

namespace AirLink

open ErasureCode

namespace Assembly

variable {a : Assembly}

theorem Ready.run_key (ready : a.Ready) (calls : List (Arrival × Bool)) : (a.run calls).2.key = a.key := by
  refine (run_keeps (motive := fun b => b.Ready ∧ b.key = a.key) ?_ ⟨ready, rfl⟩ calls).2
  rintro b ⟨ready, same⟩ x recover
  obtain ⟨next, -, key⟩ := ready.receive x recover
  exact ⟨next, key.trans same⟩

/-- What can be opened is taken in. -/
theorem Ready.receive_opened (ready : a.Ready) {x : Arrival} {plain : Bytes}
    (opened : a.authenticate x = .ok plain) (recover : Bool) :
    ∃ outcome, (a.receive x recover).1.outcome = .ok outcome := by
  cases result : (a.receive x recover).1.outcome with
  | ok outcome => exact ⟨outcome, rfl⟩
  | error fault =>
      have refused := authenticate_eq_error.mpr (ready.refusal result)
      cases refused.symm.trans opened

/-- A sealed fragment that fits is taken in at any time. -/
theorem run_receive_sealed {key : Key} {k n slots size : Nat} (created : create key k n slots size = .ok a)
    (calls : List (Arrival × Bool)) {block i : Nat} (hb : block ≤ Limits.blockIndex) (hi : i < n)
    {plain : Bytes} (filled : Limits.fragmentHeader ≤ plain.length) (fits : plain.length ≤ size)
    (recover : Bool) : ∃ outcome,
      ((a.run calls).2.receive (Packet.sealed key block i plain) recover).1.outcome = .ok outcome := by
  obtain ⟨ready, -, -, isSize, isKey, -, isN⟩ := create_ready created
  obtain ⟨code, same, -⟩ := ready.run_frame calls
  have opened := authenticate_sealed (a := (a.run calls).2) hb (by rwa [code, isN]) filled
    (by rwa [same, isSize])
  rw [ready.run_key calls, isKey] at opened
  exact (ready.run calls).receive_opened opened recover

end Assembly

namespace Transmitter

variable {t : Transmitter} {payloads : List Bytes}

/-- A transmitter is new when it is created. -/
theorem of_create {keys : LinkKeys} {epoch : UInt64} {channel : UInt32} {k n : UInt8} {key : Key}
    (created : create keys epoch channel k n key = .ok t) :
    t = { boxKey := keys.boxKey, epoch, channel, key, code := t.code, nextBlock := 0 } ∧
      ErasureCode.create k.toNat n.toNat = .ok t.code := by
  unfold create at created
  cases made : ErasureCode.create k.toNat n.toNat with
  | error fault =>
      rw [made] at created
      cases created
  | ok code =>
      rw [made] at created
      obtain rfl := Except.ok.inj created
      exact ⟨rfl, rfl⟩

theorem create_eq_ok {keys : LinkKeys} {epoch : UInt64} {channel : UInt32} {k n : UInt8} {key : Key}
    (created : create keys epoch channel k n key = .ok t) :
    t.key = key ∧ ErasureCode.create k.toNat n.toNat = .ok t.code := by
  obtain ⟨new, made⟩ := of_create created
  exact ⟨congrArg Transmitter.key new, made⟩

theorem create_ok (keys : LinkKeys) (epoch : UInt64) (channel : UInt32) {k n : UInt8} (key : Key)
    (hk : 1 ≤ k.toNat) (hkn : k.toNat ≤ n.toNat) : ∃ t, create keys epoch channel k n key = .ok t := by
  obtain ⟨code, made, -⟩ := ErasureCode.create_ok hk hkn (Nat.le_of_lt_succ n.toNat_lt)
  unfold create
  rw [made]
  exact ⟨_, rfl⟩

/-- What the packets of a block hold: each payload behind its size, a header alone where there is no
payload, and the parity of these, filled up with zeros to the longest. -/
structure Plaintexts (k n : Nat) (payloads plains : List Bytes) : Prop where
  count : plains.length = n
  payload : ∀ i < k, ∀ payload, payloads[i]? = some payload →
    plains[i]? = some (0 :: Bytes.ofNatBE 2 payload.length ++ payload)
  filler : ∀ i < k, payloads[i]? = none → plains[i]? = some [FragmentHeader.fillerFlag, 0, 0]
  parity : ∃ code size, ErasureCode.create k n = .ok code ∧
    ((plains.take k).map List.length).max? = some size ∧
    code.encode ((plains.take k).map (Bytes.fit size)) (List.replicate (n - k) (Bytes.zeros size)) size =
      .ok (plains.drop k) ∧
    ∀ share ∈ plains.drop k, share.length = size

/-- The bytes of a packet as the given fragment of a block. -/
def asArrival (block fragment : Nat) (bytes : Bytes) : Arrival :=
  { nonce := UInt64.ofNat (block * 256 + fragment), block, fragment
    clear := bytes.take Limits.dataHeader, cipher := bytes.drop Limits.dataHeader }

/-- The bytes are a packet with the given fragment of a block.  No assembly with the same key and code
refuses it. -/
structure Acceptable (key : Key) (k n block i : Nat) (plain bytes : Bytes) : Prop where
  small : bytes.length ≤ Limits.packet
  parsed : ∃ packet, Packet.parse bytes = .ok packet ∧ packet.arrival? = some (asArrival block i bytes)
  opened : Cipher.Aead.decrypt key (asArrival block i bytes).nonce (asArrival block i bytes).clear
    (asArrival block i bytes).cipher = .ok plain
  taken : ∀ slots a, Assembly.create key k n slots Limits.fragment = .ok a → ∀ calls recover,
    ∃ outcome, ((a.run calls).2.receive (asArrival block i bytes) recover).1.outcome = .ok outcome

/-- A sealed fragment falls into its header and what is sealed. -/
theorem asArrival_sealFragment (key : Key) (block i : Nat) (plain : Bytes) :
    asArrival block i (sealFragment key block i plain) = Packet.sealed key block i plain := by
  have size : (Packet.Header.ofFragment block i).encode.length = Limits.dataHeader :=
    Packet.Header.length_data ..
  rw [asArrival, sealFragment, List.take_left' size, List.drop_left' size]
  rfl

theorem length_sealFragment (key : Key) (block i : Nat) (plain : Bytes) :
    (sealFragment key block i plain).length = Limits.dataHeader + (plain.length + Limits.tag) := by
  rw [sealFragment, List.length_append, Packet.Header.ofFragment, Packet.Header.length_data,
    Cipher.Aead.length_encrypt]

theorem sealFragment_small (key : Key) (block i : Nat) {plain : Bytes} (fits : plain.length ≤ Limits.fragment) :
    (sealFragment key block i plain).length ≤ Limits.packet := by
  rw [length_sealFragment]
  simp only [Limits.fragment, Limits.packet, Limits.frameSize, Limits.dot11Header, Limits.dataHeader,
    Limits.tag] at fits ⊢
  omega

theorem sealFragment_acceptable (key : Key) {k n block i : Nat} (hb : block ≤ Limits.blockIndex)
    (hi : i < n) (few : n ≤ 255) {plain : Bytes} (filled : Limits.fragmentHeader ≤ plain.length)
    (fits : plain.length ≤ Limits.fragment) :
    Acceptable key k n block i plain (sealFragment key block i plain) := by
  have arrives := asArrival_sealFragment key block i plain
  constructor
  case small => exact sealFragment_small key block i fits
  case parsed =>
    rw [arrives]
    exact Packet.parse_sealFragment key hb (show i < 256 by omega) fits
  case opened =>
    rw [arrives]
    exact Cipher.Aead.decrypt_encrypt ..
  case taken =>
    intro slots a created calls recover
    rw [arrives]
    exact Assembly.run_receive_sealed created calls hb hi filled fits recover

theorem encode_header (h : FragmentHeader) : h.encode = h.flags :: Bytes.ofNatBE 2 h.size.toNat := rfl

theorem fragmentOf_payload {payload : Bytes} (short : payload.length ≤ Limits.payload) :
    fragmentOf (some payload) = 0 :: Bytes.ofNatBE 2 payload.length ++ payload := by
  rw [fragmentOf, encode_header, toNat_size short]

theorem max?_eq_longest {data : List Bytes} (filled : data ≠ []) :
    (data.map List.length).max? = some (longest data) := by
  cases isMax : (data.map List.length).max? with
  | none => exact absurd (List.map_eq_nil_iff.mp (List.max?_eq_none_iff.mp isMax)) filled
  | some size =>
      rw [longest, List.foldl_max, isMax]
      exact congrArg some (Nat.zero_max size).symm

theorem plaintexts_plainShare {k n : Nat} (made : ErasureCode.create k n = .ok t.code)
    (small : ∀ p ∈ payloads, p.length ≤ Limits.payload) :
    Plaintexts k n payloads ((List.range n).map (plainShare t.code (t.dataShares payloads))) := by
  obtain ⟨rfl, rfl, sound⟩ := ErasureCode.create_eq_ok made
  have length := length_dataShares t payloads
  have filled : t.dataShares payloads ≠ [] := List.ne_nil_of_length_pos (length ▸ sound.pos)
  have fragment {i : Nat} (hi : i < t.code.k) :
      ((List.range t.code.n).map (plainShare t.code (t.dataShares payloads)))[i]? =
        some (fragmentOf payloads[i]?) := by
    rw [List.getElem?_map, List.getElem?_range (hi.trans_le sound.le), Option.map_some, plainShare,
      if_pos hi, getD_dataShares hi]
  constructor
  case count => simp
  case payload =>
    intro i hi payload here
    rw [fragment hi, here, fragmentOf_payload (small payload (List.mem_of_getElem? here))]
  case filler =>
    intro i hi absent
    rw [fragment hi, absent]
    rfl
  case parity =>
    refine ⟨t.code, longest (t.dataShares payloads), made, ?_⟩
    rw [map_plainShare sound length, List.take_left' length, List.drop_left' length]
    refine ⟨max?_eq_longest filled, ?_, ?_⟩
    · rw [encode_zeros sound (by rwa [List.length_map])]
      congr 1
      exact List.map_congr_left fun j _ => share_map length (fun bs _ hp => Shares.byteAt_fit hp bs) _
    · intro share member
      obtain ⟨j, -, rfl⟩ := List.mem_map.mp member
      exact length_share ..

/-- A transmitter encodes exactly the blocks with a small index, with few payloads and with small ones,
whichever block is its next.  Each packet holds its plaintext and is accepted for it. -/
theorem packets_acceptable {keys : LinkKeys} {epoch : UInt64} {channel : UInt32} {k n : UInt8} {key : Key}
    (created : create keys epoch channel k n key = .ok t) (next block : Nat) (payloads : List Bytes) :
    ((∃ packets, { t with nextBlock := next }.encodeBlock block payloads = .ok packets) ↔
      block ≤ Limits.blockIndex ∧ payloads.length ≤ k.toNat ∧
        ∀ p ∈ payloads, p.length ≤ Limits.payload) ∧
    ∀ packets, { t with nextBlock := next }.encodeBlock block payloads = .ok packets →
      packets.length = n.toNat ∧
      ∃ plains, Plaintexts k.toNat n.toNat payloads plains ∧
        ∀ i < n.toNat, ∃ plain bytes, plains[i]? = some plain ∧ packets[i]? = some bytes ∧
          Acceptable key k.toNat n.toNat block i plain bytes := by
  obtain ⟨rfl, made⟩ := create_eq_ok created
  obtain ⟨isK, isN, sound⟩ := ErasureCode.create_eq_ok made
  have encoded {block : Nat} {payloads : List Bytes} (hb : block ≤ Limits.blockIndex)
      (few : payloads.length ≤ t.code.k) (small : ∀ p ∈ payloads, p.length ≤ Limits.payload) :=
    encodeBlock_ok (t := { t with nextBlock := next }) sound hb few small
  refine ⟨⟨fun ⟨packets, result⟩ => ?_, fun ⟨hb, few, small⟩ => ⟨_, encoded hb (isK ▸ few) small⟩⟩, ?_⟩
  · rw [← isK]
    exact encodeBlock_eq_ok result
  · intro packets result
    obtain ⟨hb, few, small⟩ := encodeBlock_eq_ok result
    obtain rfl := Except.ok.inj ((encoded hb few small).symm.trans result)
    refine ⟨by simpa using isN, _, plaintexts_plainShare made small, fun i hi => ?_⟩
    obtain ⟨filled, fits⟩ := plainShare_bounds sound.pos small i
    refine ⟨_, _, ?_, ?_, sealFragment_acceptable t.key hb hi (isN ▸ sound.few) filled fits⟩
    · simp [hi]
    · simp [isN, hi, dataShares]

/-- An empty payload and a largest one, in the last block: the parity is as long as a fragment may be, and
there is an assembly that takes in all the packets. -/
theorem packets_acceptable_largest :
    let key : Key := ⟨Bytes.zeros 32, rfl⟩
    let largest := Bytes.zeros Limits.payload
    ∃ (t : Transmitter) (packets plains : List Bytes) (a : Assembly),
      create ⟨key, key⟩ 1 0 3 4 key = .ok t ∧ Assembly.create key 3 4 1 Limits.fragment = .ok a ∧
      t.encodeBlock Limits.blockIndex [[], largest] = .ok packets ∧ packets.length = 4 ∧
      plains.take 3 = [[0, 0, 0], 0 :: 0x0F :: 0x99 :: largest, [1, 0, 0]] ∧
      (plains.drop 3).map List.length = [Limits.fragment] ∧
      ∀ i < 4, ∃ plain bytes, plains[i]? = some plain ∧ packets[i]? = some bytes ∧
        Acceptable key 3 4 Limits.blockIndex i plain bytes := by
  intro key largest
  obtain ⟨t, created⟩ := create_ok (k := 3) (n := 4) ⟨key, key⟩ 1 0 key (by decide) (by decide)
  obtain ⟨encodable, encoded⟩ := packets_acceptable created t.nextBlock Limits.blockIndex [[], largest]
  have size : largest.length = Limits.payload := List.length_replicate ..
  obtain ⟨packets, result⟩ := encodable.mpr ⟨le_rfl, by decide, by simp [size]⟩
  obtain ⟨count, plains, holds, acceptable⟩ := encoded packets result
  have first : plains[0]? = some [0, 0, 0] := holds.payload 0 (by decide) [] rfl
  have second : plains[1]? = some (0 :: 0x0F :: 0x99 :: largest) := by
    rw [holds.payload 1 (by decide) largest rfl, size]
    rfl
  have third : plains[2]? = some [1, 0, 0] := holds.filler 2 (by decide) rfl
  have front : plains.take 3 = [[0, 0, 0], 0 :: 0x0F :: 0x99 :: largest, [1, 0, 0]] := by
    simp [List.take_add_one, first, second, third]
  obtain ⟨code, longest, -, isLongest, -, wide⟩ := holds.parity
  have isLongest : ((plains.take 3).map List.length).max? = some longest := isLongest
  have long : longest = Limits.fragment := by
    simp only [front, List.map_cons, List.length_cons, size] at isLongest
    exact (Option.some.inj isLongest).symm
  obtain ⟨a, taking⟩ : ∃ a, Assembly.create key 3 4 1 Limits.fragment = .ok a :=
    Assembly.create_succeeds key (by decide) (by decide) (by decide) le_rfl (by decide) (by decide)
  refine ⟨t, packets, plains, a, created, taking, result, count, front, ?_, acceptable⟩
  have behind : (plains.drop 3).length = 1 := by rw [List.length_drop, holds.count]; rfl
  obtain ⟨parity, one⟩ := List.length_eq_one_iff.mp behind
  have member : parity ∈ plains.drop 3 := by simp [one]
  rw [one, List.map_singleton, ← long, wide parity member]

end Transmitter

end AirLink
