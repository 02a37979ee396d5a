import AirLink.Proofs.Encoding

/-! # Nonces are used once

The cipher keeps its promises only as long as no nonce is used twice under one key.  A station keeps a
record of all that its transmitter seals, in calls that fail as well as in the others.  The nonces in it
count up, through the fragments of a block and then on to the next block, and stop with the last block.
-/

namespace AirLink

open ErasureCode

theorem Cipher.Aead.nonce_injective : Function.Injective nonce := by
  intro wire other same
  have bytes (wire : UInt64) : (nonce wire).val = Bytes.zeros 4 ++ Layout.u64.write wire := by
    have size : (Bytes.zeros 4 ++ Layout.u64.write wire).length = 12 := by
      rw [List.length_append, Layout.u64_lawful.length]
      rfl
    exact (Bytes.fit_eq_take size.ge).trans (List.take_of_length_le size.le)
  have written := (bytes wire).symm.trans ((congrArg Subtype.val same).trans (bytes other))
  exact Layout.u64_lawful.write_inj (List.append_cancel_left written)

/-- One use of the cipher. -/
structure Sealing where
  wire : UInt64
  clear : Bytes
  plain : Bytes

namespace Sealing

/-- The 64 bits of a nonce: the block above the eight bits of the fragment. -/
def wireOf (block fragment : Nat) : UInt64 := UInt64.ofNat block <<< 8 ||| UInt64.ofNat fragment

theorem wireOf_eq {block fragment : Nat} (hb : block ≤ Limits.blockIndex) (hf : fragment < 256) :
    wireOf block fragment = UInt64.ofNat (block * 256 + fragment) := by
  apply UInt64.toNat_inj.mp
  have eight : (8 : UInt64).toNat % 64 = 8 := rfl
  rw [Packet.toNat_nonce hb hf]
  simp only [Limits.blockIndex] at hb
  rw [wireOf, UInt64.toNat_or, UInt64.toNat_shiftLeft, eight,
    UInt64.toNat_ofNat_of_lt' (show block < 2 ^ 64 by omega),
    UInt64.toNat_ofNat_of_lt' (show fragment < 2 ^ 64 by omega), Nat.shiftLeft_eq,
    Nat.mod_eq_of_lt (show block * 2 ^ 8 < 2 ^ 64 by omega), ← Nat.shiftLeft_eq,
    ← Nat.shiftLeft_add_eq_or_of_lt hf, Nat.shiftLeft_eq]

theorem wireOf_inj {block fragment block' fragment' : Nat} (hb : block ≤ Limits.blockIndex)
    (hf : fragment < 256) (hb' : block' ≤ Limits.blockIndex) (hf' : fragment' < 256)
    (same : wireOf block fragment = wireOf block' fragment') : block = block' ∧ fragment = fragment' := by
  have numbers := congrArg UInt64.toNat same
  rw [wireOf_eq hb hf, wireOf_eq hb' hf', Packet.toNat_nonce hb hf, Packet.toNat_nonce hb' hf'] at numbers
  omega

/-- The nonces of the fragments of the first blocks, in order. -/
def wires (n count : Nat) : List UInt64 :=
  (List.range count).flatMap fun block => (List.range n).map fun i => wireOf block i

theorem wires_succ (n count : Nat) :
    wires n (count + 1) = wires n count ++ (List.range n).map fun i => wireOf count i := by
  rw [wires, List.range_succ, List.flatMap_append, List.flatMap_singleton]
  rfl

theorem nodup_wires {n count : Nat} (few : n ≤ 256) (room : count ≤ Limits.blockIndex + 1) :
    (wires n count).Nodup := by
  have blockBound {block : Nat} (member : block ∈ List.range count) : block ≤ Limits.blockIndex :=
    Nat.le_of_lt_succ ((List.mem_range.mp member).trans_le room)
  have fragmentBound {i : Nat} (member : i ∈ List.range n) : i < 256 :=
    (List.mem_range.mp member).trans_le few
  rw [wires, List.nodup_flatMap]
  constructor
  · intro block hb
    refine List.nodup_range.map_on fun i hi j hj same => ?_
    exact (wireOf_inj (blockBound hb) (fragmentBound hi) (blockBound hb) (fragmentBound hj) same).2
  · refine List.nodup_range.pairwise_of_forall_ne fun block hb block' hb' other => ?_
    intro wire here there
    obtain ⟨i, hi, rfl⟩ := List.mem_map.mp here
    obtain ⟨j, hj, same⟩ := List.mem_map.mp there
    have blocks := (wireOf_inj (blockBound hb') (fragmentBound hj) (blockBound hb) (fragmentBound hi) same).1
    exact other blocks.symm

def ofFragment (block fragment : Nat) (plain : Bytes) : Sealing :=
  let wire := wireOf block fragment
  { wire, clear := (Packet.Header.data wire block fragment).encode, plain }

def nonce (sealing : Sealing) : Octets 12 := Cipher.Aead.nonce sealing.wire

def packet (key : Key) (sealing : Sealing) : Bytes :=
  sealing.clear ++ Cipher.Aead.encrypt key sealing.wire sealing.clear sealing.plain

theorem packet_ofFragment (key : Key) {block fragment : Nat} (hb : block ≤ Limits.blockIndex)
    (hf : fragment < 256) (plain : Bytes) :
    (ofFragment block fragment plain).packet key = Transmitter.sealFragment key block fragment plain := by
  simp only [packet, ofFragment, wireOf_eq hb hf]
  rfl

end Sealing

namespace Transmitter

variable {t : Transmitter} {block : Nat} {payloads packets : List Bytes}

/-- What is sealed for a block. -/
def sealings (t : Transmitter) (block : Nat) (payloads : List Bytes) : List Sealing :=
  (List.range t.code.n).map fun i =>
    Sealing.ofFragment block i (plainShare t.code (t.dataShares payloads) i)

theorem map_zipIdx_plainShare (t : Transmitter) (block : Nat) (payloads : List Bytes) :
    ((List.range t.code.n).map (plainShare t.code (t.dataShares payloads))).zipIdx.map
      (fun (share, i) => Sealing.ofFragment block i share) = t.sealings block payloads := by
  apply List.ext_getElem (by simp [sealings])
  intro i _ _
  simp [sealings]

theorem map_wire_sealings (t : Transmitter) (block : Nat) (payloads : List Bytes) :
    (t.sealings block payloads).map Sealing.wire =
      (List.range t.code.n).map fun i => Sealing.wireOf block i := by
  rw [sealings, List.map_map]
  rfl

theorem map_packet_sealings (sound : Sound t.code) (encoded : t.encodeBlock block payloads = .ok packets) :
    (t.sealings block payloads).map (Sealing.packet t.key) = packets := by
  have few := sound.few
  obtain ⟨hb, many, small⟩ := encodeBlock_eq_ok encoded
  obtain rfl := Except.ok.inj ((encodeBlock_ok sound hb many small).symm.trans encoded)
  rw [sealings, List.map_map]
  refine List.map_congr_left fun i hi => ?_
  have inside := List.mem_range.mp hi
  exact Sealing.packet_ofFragment t.key hb (by omega) _

theorem create_nextBlock {keys : LinkKeys} {epoch : UInt64} {channel : UInt32} {k n : UInt8} {key : Key}
    (created : create keys epoch channel k n key = .ok t) : t.nextBlock = 0 :=
  congrArg Transmitter.nextBlock (of_create created).1

theorem encodes_iff (sound : Sound t.code) (block : Nat) (payloads : List Bytes) : (∃ packets, t.encodeBlock block payloads = .ok packets) ↔
    block ≤ Limits.blockIndex ∧ payloads.length ≤ t.code.k ∧ ∀ p ∈ payloads, p.length ≤ Limits.payload := by
  constructor
  · rintro ⟨packets, encoded⟩
    exact encodeBlock_eq_ok encoded
  · rintro ⟨hb, few, small⟩
    exact ⟨_, encodeBlock_ok sound hb few small⟩

theorem encodeNext_eq (t : Transmitter) (block : Nat) (payloads : List Bytes) :
    { t with nextBlock := block }.encodeNext payloads =
      (t.encodeBlock block payloads).map fun packets => (packets, { t with nextBlock := block + 1 }) := by
  have same : { t with nextBlock := block }.encodeBlock block payloads = t.encodeBlock block payloads := rfl
  rw [encodeNext, same]
  cases t.encodeBlock block payloads <;> rfl

end Transmitter

/-- A transmitter with the record of all that it has sealed. -/
structure Station where
  transmitter : Transmitter
  sealings : List Sealing := []

namespace Station

/-- A call may fail, and then what it has done so far remains done. -/
abbrev Call := ExceptT Fault (StateM Station)

/-- What a call returns and what it leaves behind. -/
def perform {α : Type} (station : Station) (call : Call α) : Except Fault α × Station :=
  call.run.run station

def sealFragment (block fragment : Nat) (plain : Bytes) : Call Bytes := do
  let station ← get
  let sealing := Sealing.ofFragment block fragment plain
  set { station with sealings := station.sealings ++ [sealing] }
  return sealing.packet station.transmitter.key

def encodeBlock (block : Nat) (payloads : List Bytes) : Call (List Bytes) := do
  let t := (← get).transmitter
  if Limits.blockIndex < block then throw (.blockIndexOverflow block)
  if t.code.k < payloads.length then throw (.oversized t.code.k payloads.length)
  if let some payload := payloads.find? (Limits.payload < ·.length) then
    throw (.oversized Limits.payload payload.length)
  let data := t.dataShares payloads
  let size := Transmitter.longest data
  let parity ← liftExcept <| t.code.encode data (List.replicate (t.code.n - t.code.k) (Bytes.zeros size)) size
  (data ++ parity).zipIdx.mapM fun (share, i) => sealFragment block i share

def encodeNext (payloads : List Bytes) : Call (List Bytes) := do
  let packets ← encodeBlock (← get).transmitter.nextBlock payloads
  modify fun station => { station with transmitter.nextBlock := station.transmitter.nextBlock + 1 }
  return packets

section Calls

variable {α β : Type} {next : Station} {call : Call α} {rest : α → Call β}

theorem perform_get (station : Station) : station.perform get = (.ok station, station) := rfl

theorem perform_throw (station : Station) (fault : Fault) :
    station.perform (throw fault : Call α) = (.error fault, station) := rfl

theorem perform_liftExcept (station : Station) (result : Except Fault α) :
    station.perform (liftExcept result : Call α) = (result, station) := by
  cases result <;> rfl

theorem perform_bind {station : Station} {a : α} (done : station.perform call = (.ok a, next)) :
    station.perform (call >>= rest) = next.perform (rest a) := by
  unfold perform at *
  rw [ExceptT.run_bind, StateT.run_bind, done]
  rfl

theorem perform_bind_error {station : Station} {fault : Fault}
    (failed : station.perform call = (.error fault, next)) :
    station.perform (call >>= rest) = (.error fault, next) := by
  unfold perform at *
  rw [ExceptT.run_bind, StateT.run_bind, failed]
  rfl

end Calls

theorem perform_sealFragment (station : Station) (block fragment : Nat) (plain : Bytes) :
    let sealing := Sealing.ofFragment block fragment plain
    station.perform (sealFragment block fragment plain) =
      (.ok (sealing.packet station.transmitter.key),
        { station with sealings := station.sealings ++ [sealing] }) := rfl

theorem perform_sealFragments (station : Station) (block : Nat) (shares : List (Bytes × Nat)) :
    let sealings := shares.map fun (share, i) => Sealing.ofFragment block i share
    station.perform (shares.mapM fun (share, i) => sealFragment block i share) =
      (.ok (sealings.map (Sealing.packet station.transmitter.key)),
        { station with sealings := station.sealings ++ sealings }) := by
  induction shares generalizing station with
  | nil => exact congrArg (fun sealings => (Except.ok [], { station with sealings })) (List.append_nil _).symm
  | cons share shares ih =>
      have first := station.perform_sealFragment block share.2 share.1
      rw [List.mapM_cons, perform_bind first, perform_bind (ih _), List.append_assoc]
      rfl

variable {station : Station}

/-- A station encodes what its transmitter would, and seals the blocks that it encodes and no others. -/
theorem perform_encodeBlock (sound : Sound station.transmitter.code) (block : Nat) (payloads : List Bytes) :
    station.perform (encodeBlock block payloads) =
      match station.transmitter.encodeBlock block payloads with
      | .ok packets => (.ok packets,
          { station with sealings := station.sealings ++ station.transmitter.sealings block payloads })
      | .error fault => (.error fault, station) := by
  have length := Transmitter.length_dataShares station.transmitter payloads
  unfold encodeBlock
  rw [perform_bind station.perform_get]
  dsimp only
  by_cases far : Limits.blockIndex < block
  · simp only [Transmitter.encodeBlock, if_pos far]
    exact perform_bind_error (station.perform_throw _)
  by_cases many : station.transmitter.code.k < payloads.length
  · simp only [Transmitter.encodeBlock, if_neg far, if_pos many]
    exact perform_bind_error (station.perform_throw _)
  rw [if_neg far, if_neg many]
  cases long : payloads.find? (Limits.payload < ·.length) with
  | some payload =>
      simp only [Transmitter.encodeBlock, if_neg far, if_neg many, long]
      exact perform_bind_error (station.perform_throw _)
  | none =>
      have small : ∀ p ∈ payloads, p.length ≤ Limits.payload := by simpa using long
      have encoded := Transmitter.encodeBlock_ok sound (Nat.le_of_not_lt far) (Nat.le_of_not_lt many) small
      dsimp only
      rw [Transmitter.encode_zeros sound length, perform_bind (station.perform_liftExcept _),
        ← Transmitter.map_plainShare sound length, perform_sealFragments,
        Transmitter.map_zipIdx_plainShare, Transmitter.map_packet_sealings sound encoded, encoded]

theorem perform_encodeNext (sound : Sound station.transmitter.code) (payloads : List Bytes) :
    station.perform (encodeNext payloads) =
      match station.transmitter.encodeNext payloads with
      | .ok (packets, next) => (.ok packets,
          { transmitter := next
            sealings := station.sealings ++
              station.transmitter.sealings station.transmitter.nextBlock payloads })
      | .error fault => (.error fault, station) := by
  have done := perform_encodeBlock sound station.transmitter.nextBlock payloads
  unfold encodeNext Transmitter.encodeNext
  rw [perform_bind station.perform_get]
  cases result : station.transmitter.encodeBlock station.transmitter.nextBlock payloads with
  | ok packets =>
      rw [result] at done
      rw [perform_bind done]
      rfl
  | error fault =>
      rw [result] at done
      rw [perform_bind_error done]
      rfl

/-- The calls are made one after the other, whether they fail or not. -/
def run (station : Station) : List (List Bytes) → List (Except Fault (List Bytes)) × Station
  | [] => ([], station)
  | payloads :: calls =>
    let (result, next) := station.perform (encodeNext payloads)
    let (results, last) := next.run calls
    (result :: results, last)

/-- The blocks that a run returns. -/
def blocks (station : Station) (calls : List (List Bytes)) : List (List Bytes) :=
  (station.run calls).1.filterMap Except.toOption

theorem blocks_cons (station : Station) (payloads : List Bytes) (calls : List (List Bytes)) :
    station.blocks (payloads :: calls) =
      (station.perform (encodeNext payloads)).1.toOption.toList ++
        (station.perform (encodeNext payloads)).2.blocks calls := by
  rw [blocks, run, List.filterMap_cons]
  cases (station.perform (encodeNext payloads)).1 <;> rfl

/-- The station has sent these blocks, and sealed nothing else. -/
structure HasSent (t : Transmitter) (sent : List (List Bytes)) (station : Station) : Prop where
  transmitter : station.transmitter = { t with nextBlock := sent.length }
  room : sent.length ≤ Limits.blockIndex + 1
  wires : station.sealings.map Sealing.wire = Sealing.wires t.code.n sent.length
  packets : station.sealings.map (Sealing.packet t.key) = sent.flatten
  encoded : ∀ block packets, sent[block]? = some packets →
    ∃ payloads, t.encodeBlock block payloads = .ok packets

variable {t : Transmitter} {sent : List (List Bytes)}

theorem hasSent_none (t : Transmitter) (first : t.nextBlock = 0) : HasSent t [] { transmitter := t } where
  transmitter := by
    rw [List.length_nil, ← first]
  room := Nat.zero_le _
  wires := rfl
  packets := rfl
  encoded := by simp

/-- What a call comes to. -/
theorem HasSent.perform (h : HasSent t sent station) (sound : Sound t.code) (payloads : List Bytes) :
    station.perform (encodeNext payloads) =
      match t.encodeBlock sent.length payloads with
      | .ok packets => (.ok packets,
          { transmitter := { t with nextBlock := sent.length + 1 }
            sealings := station.sealings ++ t.sealings sent.length payloads })
      | .error fault => (.error fault, station) := by
  have sound' : Sound station.transmitter.code := by rwa [h.transmitter]
  rw [perform_encodeNext sound', h.transmitter, t.encodeNext_eq]
  cases t.encodeBlock sent.length payloads <;> rfl

/-- Another block is sent. -/
theorem HasSent.another (h : HasSent t sent station) (sound : Sound t.code) {payloads packets : List Bytes}
    (encoded : t.encodeBlock sent.length payloads = .ok packets) :
    HasSent t (sent ++ [packets])
      { transmitter := { t with nextBlock := sent.length + 1 }
        sealings := station.sealings ++ t.sealings sent.length payloads } := by
  have count : (sent ++ [packets]).length = sent.length + 1 := List.length_append ..
  constructor
  case transmitter => rw [count]
  case room =>
    rw [count]
    exact Nat.succ_le_succ (Transmitter.encodeBlock_eq_ok encoded).1
  case wires => rw [List.map_append, h.wires, t.map_wire_sealings, count, Sealing.wires_succ]
  case packets =>
    rw [List.map_append, h.packets, Transmitter.map_packet_sealings sound encoded, List.flatten_append]
    exact congrArg _ (List.flatten_singleton ..).symm
  case encoded =>
    intro block other here
    rcases Nat.lt_trichotomy block sent.length with before | rfl | behind
    · rw [List.getElem?_append_left before] at here
      exact h.encoded block other here
    · rw [List.getElem?_concat_length] at here
      exact ⟨payloads, Option.some.inj here ▸ encoded⟩
    · rw [List.getElem?_eq_none (count ▸ behind)] at here
      cases here

/-- A call sends another block or changes nothing. -/
theorem HasSent.step (h : HasSent t sent station) (sound : Sound t.code) (payloads : List Bytes) :
    HasSent t (sent ++ (station.perform (encodeNext payloads)).1.toOption.toList)
      (station.perform (encodeNext payloads)).2 := by
  rw [h.perform sound]
  cases encoded : t.encodeBlock sent.length payloads with
  | error fault => exact (List.append_nil sent).symm ▸ h
  | ok packets => exact h.another sound encoded

theorem HasSent.run (h : HasSent t sent station) (sound : Sound t.code) (calls : List (List Bytes)) :
    HasSent t (sent ++ station.blocks calls) (station.run calls).2 := by
  induction calls generalizing sent station with
  | nil => exact (List.append_nil sent).symm ▸ h
  | cons payloads calls ih =>
      rw [blocks_cons, ← List.append_assoc]
      exact ih (h.step sound payloads)

/-- Calls within the limits are answered as long as there are blocks. -/
theorem HasSent.length_blocks (h : HasSent t sent station) (sound : Sound t.code) {calls : List (List Bytes)}
    (room : sent.length + calls.length ≤ Limits.blockIndex + 1)
    (fit : ∀ payloads ∈ calls, payloads.length ≤ t.code.k ∧ ∀ p ∈ payloads, p.length ≤ Limits.payload) :
    (station.blocks calls).length = calls.length := by
  induction calls generalizing sent station with
  | nil => rfl
  | cons payloads calls ih =>
      rw [List.length_cons] at room
      obtain ⟨few, small⟩ := fit payloads List.mem_cons_self
      obtain ⟨packets, encoded⟩ :=
        (Transmitter.encodes_iff sound sent.length payloads).mpr ⟨by omega, few, small⟩
      have rest := ih (h.another sound encoded) (by rw [List.length_append, List.length_singleton]; omega)
        fun other member => fit other (List.mem_cons_of_mem _ member)
      rw [blocks_cons, h.perform sound, encoded, List.length_append, rest, List.length_cons, Nat.add_comm]
      rfl

/-- Each packet of a block names the block and its own place in it. -/
theorem HasSent.parse (h : HasSent t sent station) (sound : Sound t.code) {block : Nat} {packets : List Bytes}
    (here : sent[block]? = some packets) : packets.length = t.code.n ∧
      ∀ i bytes, packets[i]? = some bytes → ∃ packet,
        Packet.parse bytes = .ok packet ∧ packet.header = Packet.Header.ofFragment block i := by
  have few := sound.few
  obtain ⟨payloads, encoded⟩ := h.encoded block packets here
  obtain ⟨hb, many, small⟩ := Transmitter.encodeBlock_eq_ok encoded
  obtain rfl := Except.ok.inj ((Transmitter.encodeBlock_ok sound hb many small).symm.trans encoded)
  refine ⟨by simp, fun i bytes at_i => ?_⟩
  obtain ⟨inside, rfl⟩ := List.getElem?_eq_some_iff.mp at_i
  rw [List.length_map, List.length_range] at inside
  rw [List.getElem_map, List.getElem_range]
  have fits := (Transmitter.plainShare_bounds sound.pos small i).2
  have header := Packet.sound_ofFragment hb (show i < 256 by omega)
  exact ⟨_, Packet.parse_encode header (Transmitter.sealFragment_small t.key block i fits), rfl⟩

end Station

/-- No two uses of the cipher have a nonce in common, whatever calls are made and whether they fail or not.
The nonces count up, from block to block and from fragment to fragment, and what is sealed is what the calls
return.  After them another call does what the transmitter would do.  It fails if it is beyond the limits,
or if the last block has been sent, and then it changes nothing. -/
theorem Transmitter.nonces_used_once {keys : LinkKeys} {epoch : UInt64} {channel : UInt32} {k n : UInt8}
    {key : Key} {t : Transmitter} (created : create keys epoch channel k n key = .ok t)
    (calls : List (List Bytes)) :
    let new : Station := { transmitter := t }
    let station := (new.run calls).2
    let blocks := new.blocks calls
    (station.sealings.map Sealing.nonce).Nodup ∧
    station.sealings.map Sealing.wire = ((List.range blocks.length).flatMap fun block =>
      (List.range n.toNat).map fun i => UInt64.ofNat block <<< 8 ||| UInt64.ofNat i) ∧
    station.sealings.map (Sealing.packet key) = blocks.flatten ∧
    (∀ block packets, blocks[block]? = some packets → packets.length = n.toNat ∧
      ∀ i bytes, packets[i]? = some bytes → ∃ packet,
        Packet.parse bytes = .ok packet ∧ packet.header = Packet.Header.ofFragment block i) ∧
    ∀ payloads : List Bytes,
      let result := (station.perform (Station.encodeNext payloads)).1
      let next := (station.perform (Station.encodeNext payloads)).2
      station.transmitter.encodeNext payloads = result.map (fun packets => (packets, next.transmitter)) ∧
      ((∃ packets, result = .ok packets) ↔ blocks.length ≤ Limits.blockIndex ∧
        payloads.length ≤ k.toNat ∧ ∀ p ∈ payloads, p.length ≤ Limits.payload) ∧
      (∀ fault, result = .error fault → next = station) ∧
      (Limits.blockIndex < blocks.length → result = .error (.blockIndexOverflow blocks.length)) := by
  intro new station blocks
  obtain ⟨rfl, made⟩ := create_eq_ok created
  obtain ⟨isK, isN, sound⟩ := ErasureCode.create_eq_ok made
  have sent : Station.HasSent t blocks station :=
    (Station.hasSent_none t (create_nextBlock created)).run sound calls
  rw [← isN, ← isK]
  refine ⟨?distinct, sent.wires, sent.packets, fun _ _ => sent.parse sound, fun payloads => ?next⟩
  case distinct =>
    have nonces : station.sealings.map Sealing.nonce =
        (Sealing.wires t.code.n blocks.length).map Cipher.Aead.nonce := by
      rw [← sent.wires, List.map_map]
      rfl
    rw [nonces]
    exact (Sealing.nodup_wires (sound.few.trans (by decide)) sent.room).map Cipher.Aead.nonce_injective
  case next =>
    rw [sent.perform sound, sent.transmitter, t.encodeNext_eq, ← encodes_iff sound]
    cases encoded : t.encodeBlock blocks.length payloads with
    | ok packets =>
        have room := (encodeBlock_eq_ok encoded).1
        exact ⟨rfl, by simp, nofun, fun far => absurd room (Nat.not_le.mpr far)⟩
    | error fault =>
        refine ⟨rfl, by simp, fun _ _ => rfl, fun far => ?_⟩
        rw [encodeBlock, if_pos far] at encoded
        exact encoded.symm

/-- A station that is called until the last block has been sent, and then once more. -/
theorem Transmitter.nonces_used_once_exhausted :
    let key : Key := ⟨Bytes.zeros 32, rfl⟩
    ∃ (t : Transmitter) (calls : List (List Bytes)), create ⟨key, key⟩ 1 0 2 3 key = .ok t ∧
      calls = List.replicate (Limits.blockIndex + 1) [] ∧
      let station := (Station.run { transmitter := t } calls).2
      (station.sealings.map Sealing.nonce).Nodup ∧ station.sealings.length = 3 * (Limits.blockIndex + 1) ∧
      station.perform (Station.encodeNext []) =
        (.error (.blockIndexOverflow (Limits.blockIndex + 1)), station) := by
  intro key
  obtain ⟨t, created⟩ := create_ok (k := 2) (n := 3) ⟨key, key⟩ 1 0 key (by decide) (by decide)
  obtain ⟨-, made⟩ := create_eq_ok created
  obtain ⟨isK, isN, sound⟩ := ErasureCode.create_eq_ok made
  -- Hidden behind a name, so that the calls are not written out.
  obtain ⟨calls, isCalls⟩ : ∃ calls : List (List Bytes), calls = List.replicate (Limits.blockIndex + 1) [] :=
    ⟨_, rfl⟩
  have many : calls.length = Limits.blockIndex + 1 := by rw [isCalls, List.length_replicate]
  have empty : ∀ payloads ∈ calls, payloads = [] := by
    rw [isCalls]
    exact fun _ => List.eq_of_mem_replicate
  have fit : ∀ payloads ∈ calls, payloads.length ≤ t.code.k ∧ ∀ p ∈ payloads, p.length ≤ Limits.payload := by
    intro payloads member
    rw [empty payloads member]
    exact ⟨Nat.zero_le _, List.forall_mem_nil _⟩
  have all := (Station.hasSent_none t (create_nextBlock created)).length_blocks sound (by simp [many]) fit
  rw [many] at all
  obtain ⟨distinct, wires, -, -, next⟩ := nonces_used_once created calls
  obtain ⟨-, -, unchanged, exhausted⟩ := next []
  have result := exhausted (by omega)
  refine ⟨t, calls, created, isCalls, distinct, ?_, Prod.ext (all ▸ result) (unchanged _ result)⟩
  have count := congrArg List.length wires
  simp only [List.length_map, List.length_flatMap, List.length_range, List.map_const',
    List.sum_replicate_nat, all] at count
  rw [count]
  exact Nat.mul_comm ..

end AirLink
