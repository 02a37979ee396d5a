import AirLink.Proofs.Atomicity
import AirLink.Proofs.Encoding
import AirLink.Proofs.Events

/-! # The two ends agree

What a transmitter announces is what a session with the same key reads.  If the epoch admits it, the
session that is established has the key and the code of the transmitter, and as long as it lives it takes
in every packet that the transmitter encodes.
-/

namespace AirLink

namespace Transmitter

variable {t : Transmitter}

theorem offer_of_create {keys : LinkKeys} {epoch : UInt64} {channel : UInt32} {k n : UInt8} {key : Key}
    (created : create keys epoch channel k n key = .ok t) :
    t.offer = ⟨epoch, channel, CodeScheme.vandermonde.code, k, n, key⟩ := by
  obtain ⟨new, made⟩ := of_create created
  obtain ⟨isK, isN, -⟩ := ErasureCode.create_eq_ok made
  rw [offer, isK, isN, UInt8.ofNat_toNat, UInt8.ofNat_toNat, new]

/-- A block that is encoded, packet by packet. -/
theorem encodeBlock_plaintexts {k n : Nat} (made : ErasureCode.create k n = .ok t.code) {block : Nat}
    {payloads packets : List Bytes} (encoded : t.encodeBlock block payloads = .ok packets) :
    block ≤ Limits.blockIndex ∧ ∃ plains, Plaintexts k n payloads plains ∧ packets.length = n ∧
      ∀ i plain, plains[i]? = some plain → packets[i]? = some (sealFragment t.key block i plain) ∧
        Limits.fragmentHeader ≤ plain.length ∧ plain.length ≤ Limits.fragment := by
  obtain ⟨-, isN, sound⟩ := ErasureCode.create_eq_ok made
  obtain ⟨hb, few, small⟩ := encodeBlock_eq_ok encoded
  obtain rfl := Except.ok.inj ((encodeBlock_ok sound hb few small).symm.trans encoded)
  refine ⟨hb, _, plaintexts_plainShare made small, by simpa using isN, fun i plain here => ?_⟩
  obtain ⟨hi, rfl⟩ := List.getElem?_eq_some_iff.mp here
  simp only [List.length_map, List.length_range] at hi
  simp only [List.getElem_map, List.getElem_range]
  exact ⟨by simp [isN, hi], plainShare_bounds sound.pos small i⟩

end Transmitter

/-- An assembly never answers as where there is no session. -/
theorem Assembly.Ready.receive_outcome_ne {a : Assembly} (ready : a.Ready) (x : Arrival) (recover : Bool) :
    (a.receive x recover).1.outcome ≠ .ok .noSession := by
  unfold Assembly.receive
  cases opened : a.authenticate x with
  | error fault => exact nofun
  | ok plain =>
      obtain ⟨-, suits⟩ := authenticate_ok opened
      cases ready.accept suits recover with
      | late _ _ _ _ outcome | duplicate _ _ _ _ outcome | stored _ _ _ _ _ _ outcome
      | opened _ _ _ _ _ _ _ _ _ outcome =>
          rw [outcome]
          exact nofun

namespace Session

variable {s : Session}

/-- The bytes are a data packet, and it is processed without a fault. -/
def TakesIn (s : Session) (bytes : Bytes) : Prop :=
  ∃ packet x, Packet.parse bytes = .ok packet ∧ packet.arrival? = some x ∧ ∀ now recover,
    ∃ outcome, (s.receive now x recover).1.outcome = .ok outcome ∧ outcome ≠ .noSession

/-- Of every block that the transmitter encodes, the packets are taken in whose plaintexts have at most
`size` bytes. -/
def Serves (s : Session) (t : Transmitter) (size : Nat) : Prop :=
  ∀ next block payloads packets,
    { t with nextBlock := next : Transmitter }.encodeBlock block payloads = .ok packets →
    ∃ plains, Transmitter.Plaintexts t.code.k t.code.n payloads plains ∧ packets.length = t.code.n ∧
      ∀ i plain, plains[i]? = some plain →
        packets[i]? = some (Transmitter.sealFragment t.key block i plain) ∧
        (plain.length ≤ size → s.TakesIn (Transmitter.sealFragment t.key block i plain))

theorem takesIn_of_alive {a : Assembly} {key : Key} {k n slots size : Nat}
    (created : Assembly.create key k n slots size = .ok a) {calls : List (Arrival × Bool)}
    (alive : s.assembly = some (a.run calls).2) {block i : Nat} (hb : block ≤ Limits.blockIndex)
    (hi : i < n) (few : n ≤ 255) {plain : Bytes} (filled : Limits.fragmentHeader ≤ plain.length)
    (small : plain.length ≤ Limits.fragment) (fits : plain.length ≤ size) :
    s.TakesIn (Transmitter.sealFragment key block i plain) := by
  obtain ⟨packet, parsed, arrives⟩ := Packet.parse_sealFragment key hb (show i < 256 by omega) small
  refine ⟨packet, _, parsed, arrives, fun now recover => ?_⟩
  obtain ⟨outcome, taken⟩ := Assembly.run_receive_sealed created calls hb hi filled fits recover
  have ready := (Assembly.create_ready created).1.run calls
  refine ⟨outcome, ?_, fun idle => ready.receive_outcome_ne _ _ (idle ▸ taken)⟩
  rw [receive_taken alive taken now]
  exact taken

theorem serves_of_alive {t : Transmitter} {a : Assembly} {slots size : Nat}
    (made : ErasureCode.create t.code.k t.code.n = .ok t.code)
    (created : Assembly.create t.key t.code.k t.code.n slots size = .ok a) {calls : List (Arrival × Bool)}
    (alive : s.assembly = some (a.run calls).2) : s.Serves t size := by
  intro next block payloads packets encoded
  obtain ⟨-, -, sound⟩ := ErasureCode.create_eq_ok made
  obtain ⟨hb, plains, holds, count, each⟩ :=
    Transmitter.encodeBlock_plaintexts (t := { t with nextBlock := next }) made encoded
  refine ⟨plains, holds, count, fun i plain here => ?_⟩
  obtain ⟨packet, filled, small⟩ := each i plain here
  have hi : i < t.code.n := by
    rw [← holds.count]
    exact (List.getElem?_eq_some_iff.mp here).1
  exact ⟨packet, takesIn_of_alive created alive hb hi sound.few filled small⟩

/-- An announcement of a lower epoch is refused where none is ever admitted. -/
theorem announce_stale {now : Moment} {nonce : Octets 24} {offer : SessionOffer} {carrier : Option UInt32}
    (strict : s.rollbackAfter = none) (lower : offer.epoch.toNat < s.epoch) :
    s.announce now nonce (Cipher.SealedBox.encrypt s.boxKey nonce offer.encode) carrier =
      (.error (.staleEpoch s.epoch offer.epoch.toNat), s) := by
  rw [announce, readOffer_sealed]
  simp only [lower, rollbackAllowed_of_none strict, Bool.not_false, and_self, if_true]

theorem announce_repeated {now : Moment} {nonce : Octets 24} {offer : SessionOffer}
    {carrier : Option UInt32} (same : offer.epoch.toNat = s.epoch) (key : s.hasKey = true) :
    s.announce now nonce (Cipher.SealedBox.encrypt s.boxKey nonce offer.encode) carrier =
      (.ok .unchanged, { s with lastAuthenticated := some now }) := by
  rw [announce, readOffer_sealed]
  simp only [same, key, Nat.lt_irrefl, false_and, if_false, and_self, if_true]

/-- An announcement that can be installed, and what the session is then. -/
theorem announce_agreed {t : Transmitter} {sender : LinkKeys} {epoch : UInt64} {channel : UInt32}
    {k n : UInt8} {key : Key} (created : Transmitter.create sender epoch channel k n key = .ok t)
    (slots : 1 ≤ s.windowSize) (room : 1 ≤ s.fragmentSize) {carrier : Option UInt32}
    (own : ∀ expected ∈ carrier.or s.channel, expected = channel)
    (fits : s.fragmentSize * n.toNat * s.windowSize ≤ Limits.memory) (admitted : s.epoch ≤ epoch.toNat)
    (new : epoch.toNat = s.epoch → s.hasKey = false) (now : Moment) (nonce : Octets 24) :
    let info : SessionInfo := ⟨epoch.toNat, channel, .vandermonde, k.toNat, n.toNat⟩
    ∃ a, Assembly.create t.key t.code.k t.code.n s.windowSize s.fragmentSize = .ok a ∧
      s.announce now nonce (Cipher.SealedBox.encrypt s.boxKey nonce t.offer.encode) carrier =
        (.ok (.established info), { s with
          epoch := epoch.toNat, lastInfo := some info, hasKey := true, lastAssembly := some a
          lastAuthenticated := some now }) := by
  intro info
  obtain ⟨sameKey, made⟩ := Transmitter.create_eq_ok created
  obtain ⟨isK, isN, sound⟩ := ErasureCode.create_eq_ok made
  have size : 1 ≤ k.toNat ∧ k.toNat ≤ n.toNat := ⟨isK ▸ sound.pos, isK ▸ isN ▸ sound.le⟩
  obtain ⟨a, installs⟩ := Assembly.create_succeeds key size.1 size.2 (Nat.le_of_lt_succ n.toNat_lt) slots
    room fits
  rw [Transmitter.offer_of_create created, sameKey, isK, isN]
  let offer : SessionOffer := ⟨epoch, channel, CodeScheme.vandermonde.code, k, n, key⟩
  have fit : s.prepare offer carrier = .ok (info, a) :=
    prepare_eq_ok.mpr ⟨own, size, installs, .vandermonde, rfl, rfl⟩
  refine ⟨a, installs, (@announce_sealed s now nonce offer carrier admitted new).trans ?_⟩
  rw [establish, fit]

/-- The announcement of a transmitter at a session with the same key for announcements, which never admits
a lower epoch and is to receive the channel, or any.  If the epoch is higher, or is the same and there is
no key, exactly what the transmitter has is established, memory permitting; and until another session is
established or this one ends, whatever comes in between, every packet that the transmitter encodes and that
there is room for is processed without a fault.  With a key, an announcement of the same epoch changes
nothing but the time.  That of a lower epoch is refused. -/
theorem announcement_agreed {settings : Settings} {sender receiver : LinkKeys} {k n : UInt8}
    (pos : 1 ≤ k.toNat) (le : k.toNat ≤ n.toNat) (valid : settings.validate = .ok ())
    (strict : settings.rollbackAfter = none) (matching : receiver.boxKey = sender.boxKey)
    (reached : Reached settings receiver s) {channel : UInt32} {carrier : Option UInt32}
    (own : ∀ expected ∈ carrier.or settings.channel, expected = channel) (epoch : UInt64) (key : Key)
    (now : Moment) (nonce : Octets 24) :
    ∃ t packet, Transmitter.create sender epoch channel k n key = .ok t ∧
      Packet.parse (t.sessionPacket nonce t.offer) = .ok packet ∧ packet.header = .session nonce ∧
      let info : SessionInfo := ⟨epoch.toNat, channel, .vandermonde, k.toNat, n.toNat⟩
      let result := s.announce now nonce packet.cipher carrier
      (s.epoch < epoch.toNat ∨ s.epoch = epoch.toNat ∧ s.hasKey = false →
        settings.fragmentSize * n.toNat * settings.windowSize ≤ Limits.memory →
        result.1 = .ok (.established info) ∧ result.2.info = some info ∧
          ∀ after, result.2.Steady after → (result.2.run after).2.Serves t settings.fragmentSize) ∧
      (s.epoch = epoch.toNat → s.hasKey = true →
        result = (.ok .unchanged, { s with lastAuthenticated := some now })) ∧
      (epoch.toNat < s.epoch → result = (.error (.staleEpoch s.epoch epoch.toNat), s)) := by
  have alike := reached.alike
  have isChannel : s.channel = settings.channel := alike.channel
  have windowSize : s.windowSize = settings.windowSize := alike.windowSize
  have fragmentSize : s.fragmentSize = settings.fragmentSize := alike.fragmentSize
  obtain ⟨slots, room⟩ := sizes_of_valid valid
  obtain ⟨t, created⟩ := Transmitter.create_ok sender epoch channel key pos le
  have offer := Transmitter.offer_of_create created
  have isEpoch : t.offer.epoch = epoch := congrArg SessionOffer.epoch offer
  have sameKey : t.boxKey = s.boxKey := by
    rw [(Transmitter.of_create created).1]
    exact matching.symm.trans alike.boxKey.symm
  have parsed := Packet.parse_session nonce (Packet.length_sealSession t.boxKey nonce t.offer)
  refine ⟨t, _, created, parsed, rfl, ?_⟩
  simp only [sameKey]
  refine ⟨fun admitted fits => ?established, fun same present => ?unchanged, fun lower => ?stale⟩
  case established =>
    have new : epoch.toNat = s.epoch → s.hasKey = false := by
      intro same
      rcases admitted with higher | ⟨-, lost⟩
      · exact absurd same higher.ne'
      · exact lost
    obtain ⟨a, installs, answer⟩ := announce_agreed created (windowSize ▸ slots) (fragmentSize ▸ room)
      (isChannel.symm ▸ own) (windowSize.symm ▸ fragmentSize.symm ▸ fits) (by omega) new now nonce
    rw [answer]
    refine ⟨rfl, rfl, fun after steady => ?_⟩
    obtain ⟨-, alive, -⟩ := steady_run (a := a) rfl steady
    obtain ⟨-, made⟩ := Transmitter.create_eq_ok created
    obtain ⟨isK, isN, -⟩ := ErasureCode.create_eq_ok made
    exact fragmentSize ▸ serves_of_alive (by rw [isK, isN, made]) installs alive
  case unchanged => exact announce_repeated ((congrArg UInt64.toNat isEpoch).trans same.symm) present
  case stale =>
    have stale := @announce_stale s now nonce t.offer carrier (alike.rollbackAfter.trans strict)
    rw [isEpoch] at stale
    exact stale lower

/-- The two ends of a link with the given secret keys.  The announcement is taken for what it is, and both
packets of a block with one small payload are taken in. -/
theorem announcement_agreed_pair :
    let first : Key := ⟨Bytes.zeros 32, rfl⟩
    let keys := LinkKeys.pair first ⟨List.replicate 32 0x22, rfl⟩
    let settings : Settings := { windowSize := 1, fragmentSize := 16, rollbackAfter := none }
    let s := create settings keys.2
    let nonce : Octets 24 := ⟨Bytes.zeros 24, rfl⟩
    settings.validate = .ok () ∧ keys.2.boxKey = keys.1.boxKey ∧ Reached settings keys.2 s ∧
      ∃ t packet packets, Transmitter.create keys.1 1 7 1 2 first = .ok t ∧
        Packet.parse (t.sessionPacket nonce t.offer) = .ok packet ∧
        (s.announce 0 nonce packet.cipher (some 7)).1 = .ok (.established ⟨1, 7, .vandermonde, 1, 2⟩) ∧
        t.encodeBlock 0 [[7]] = .ok packets ∧ packets.length = 2 ∧
        ∀ bytes ∈ packets, (s.announce 0 nonce packet.cipher (some 7)).2.TakesIn bytes := by
  intro first keys settings s nonce
  have valid : settings.validate = .ok () := rfl
  have matching : keys.2.boxKey = keys.1.boxKey := by decide +kernel
  have reached : Reached settings keys.2 s := ⟨[], rfl⟩
  have own : ∀ expected ∈ (some 7).or settings.channel, expected = 7 := by simp
  obtain ⟨t, packet, created, parsed, -, established, -⟩ :=
    announcement_agreed (k := 1) (n := 2) (by decide) (by decide) valid rfl matching reached own 1 first 0
      nonce
  obtain ⟨outcome, -, serves⟩ := established (.inl (show 0 < 1 by decide)) (by decide)
  obtain ⟨isK, isN, sound⟩ := ErasureCode.create_eq_ok (Transmitter.create_eq_ok created).2
  obtain ⟨packets, encoded⟩ : ∃ packets, t.encodeBlock 0 [[7]] = .ok packets :=
    ⟨_, Transmitter.encodeBlock_ok sound (Nat.zero_le _) (by rw [isK]; decide) (by decide)⟩
  refine ⟨valid, matching, reached, t, packet, packets, created, parsed, outcome, encoded, ?_⟩
  obtain ⟨plains, holds, count, each⟩ := serves [] trivial t.nextBlock 0 [[7]] packets encoded
  rw [isK, isN] at holds
  have count : packets.length = 2 := count.trans isN
  obtain ⟨data, parity, rfl⟩ := List.length_eq_two.mp holds.count
  have isData : data = [0, 0, 1, 7] := Option.some.inj (holds.payload 0 (by decide) [7] rfl)
  have isParity : parity.length = 4 := by
    obtain ⟨_, longest, -, isLongest, -, wide⟩ := holds.parity
    have isLongest : [data.length].max? = some longest := isLongest
    rw [isData] at isLongest
    exact (wide parity (List.mem_singleton_self _)).trans (Option.some.inj isLongest).symm
  refine ⟨count, fun bytes member => ?_⟩
  obtain ⟨i, hi, rfl⟩ := List.getElem_of_mem member
  have small : i = 0 ∨ i = 1 := by omega
  rcases small with rfl | rfl
  · obtain ⟨same, taken⟩ := each 0 data rfl
    rw [List.getElem?_eq_getElem hi, Option.some.injEq] at same
    exact same ▸ taken (by rw [isData]; decide)
  · obtain ⟨same, taken⟩ := each 1 parity rfl
    rw [List.getElem?_eq_getElem hi, Option.some.injEq] at same
    exact same ▸ taken (by rw [isParity]; decide)

end Session

end AirLink
