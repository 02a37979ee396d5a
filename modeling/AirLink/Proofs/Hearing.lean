import AirLink.Proofs.Delivery
import AirLink.Proofs.Events

/-! # A receiver that hears a transmitter

A receiver that shares the key of a transmitter, and has room for its blocks, establishes the session
that is announced and hands over what the fragments are worth.  Here the packets come over the wire.
-/

namespace AirLink

open Assembly (Tracks Legal Drawn Advances)

/-- The receiver shares the key of the transmitter and has room for its blocks. -/
structure Receiver.Hears (r : Receiver) (t : Transmitter) : Prop where
  code : ErasureCode.create t.code.k t.code.n = .ok t.code
  boxKey : r.session.boxKey = t.boxKey
  channel : ∀ channel ∈ r.session.channel, channel = t.channel
  slots : 1 ≤ r.session.windowSize
  room : Limits.fragment * t.code.n * r.session.windowSize ≤ Limits.memory
  fragmentSize : r.session.fragmentSize = Limits.fragment

namespace Receiver.Hears

variable {r next : Receiver} {t : Transmitter}

theorem of_alike (hears : r.Hears t) {s : Session} (same : s.Alike r.session)
    (alike : next.Alike { r with session := s }) : next.Hears t := by
  obtain ⟨boxKey, channel, windowSize, fragmentSize, -⟩ := same
  have session : next.session = s := alike.session
  rw [← session] at boxKey channel windowSize fragmentSize
  exact ⟨hears.code, boxKey.trans hears.boxKey, channel ▸ hears.channel, windowSize ▸ hears.slots,
    windowSize ▸ hears.room, fragmentSize.trans hears.fragmentSize⟩

theorem prepared (hears : r.Hears t) : ∃ info a,
    r.session.prepare t.offer none = .ok (info, a) ∧ info.epoch = t.epoch.toNat ∧
      ∀ payloads, Tracks t payloads [] a := by
  obtain ⟨-, -, sound⟩ := ErasureCode.create_eq_ok hears.code
  have few := sound.few
  have le := sound.le
  have k : t.offer.k.toNat = t.code.k := UInt8.toNat_ofNat_of_lt' (show _ < 256 by omega)
  have n : t.offer.n.toNat = t.code.n := UInt8.toNat_ofNat_of_lt' (show _ < 256 by omega)
  obtain ⟨a, made⟩ := Assembly.create_succeeds t.key sound.pos le few hears.slots
    (show 1 ≤ Limits.fragment by decide) hears.room
  have same : a.code = t.code := Except.ok.inj ((Assembly.create_code made).symm.trans hears.code)
  refine ⟨⟨t.epoch.toNat, t.channel, .vandermonde, t.offer.k.toNat, t.offer.n.toNat⟩, a, ?_, rfl,
    fun payloads => Assembly.tracks_create made same rfl⟩
  refine Session.prepare_eq_ok.mpr ⟨hears.channel, ?_, ?_, .vandermonde, rfl, rfl⟩
  · rw [k, n]
    exact ⟨sound.pos, le⟩
  · rw [k, n, hears.fragmentSize]
    exact made

variable {info : FrameInfo} (intact : info.corrupt = false) (now : Moment)

include intact

theorem installs (hears : r.Hears t) (nonce : Octets 24) (admitted : r.session.epoch ≤ t.epoch.toNat)
    (new : t.epoch.toNat = r.session.epoch → r.session.hasKey = false) :
    let action := Action.take now .relay (Relay.datagram info (t.sessionPacket nonce t.offer))
    r.events action = [.installed t.epoch.toNat t.key] ∧ (r.act action).2.Hears t ∧
      (r.act action).2.Alike { r with session := (r.act action).2.session } ∧
      (r.act action).2.session.epoch = t.epoch.toNat ∧
      ∃ a, (r.act action).2.session.assembly = some a ∧ ∀ payloads, Tracks t payloads [] a := by
  intro action
  obtain ⟨info, a, fit, epoch, tracks⟩ := hears.prepared
  have small := Packet.length_sealSession t.boxKey nonce t.offer
  have found := r.packet?_datagram intact (Packet.parse_session nonce small)
  obtain ⟨events, alike⟩ := @events_announced r now _ _ _ _ _ found rfl
  have established : r.session.announce now nonce
      (Cipher.SealedBox.encrypt t.boxKey nonce t.offer.encode) none =
        r.session.establish now t.offer none := by
    rw [← hears.boxKey]
    exact Session.announce_sealed admitted new
  have frame := (r.session.announced now nonce
    (Cipher.SealedBox.encrypt t.boxKey nonce t.offer.encode) none).alike
  simp only [established, Session.establish, fit] at events alike frame
  have session := alike.session
  refine ⟨events.trans ?_, hears.of_alike frame alike, alike.except_session, ?_, a, ?_, tracks⟩
  · rw [← epoch, ← (tracks fun _ => []).key]
    rfl
  · exact (congrArg Session.epoch session).trans epoch
  · exact congrArg Session.assembly session

/-- A fragment adds to what is handed over what its arrival adds to the worth of the history. -/
theorem delivers (hears : r.Hears t) (recovery : r.recovery = true) {a : Assembly}
    (present : r.session.assembly = some a) {payloads : Nat → List Bytes} {blocks : List Nat}
    (legal : Legal t payloads blocks) {h : History} (tracks : Tracks t payloads h a) {b i : Nat}
    (drawn : Drawn t blocks (h ++ [(b, i)])) :
    let packet := Transmitter.sealFragment t.key b i
      (ErasureCode.plainShare t.code (t.dataShares (payloads b)) i)
    let action := Action.take now .relay (Relay.datagram info packet)
    (r.act action).2.Hears t ∧
      (r.act action).2.Alike { r with session := (r.act action).2.session } ∧
      (r.act action).2.session.epoch = r.session.epoch ∧
      ∃ report next, Advances t payloads h (b, i) report next ∧
        (r.act action).2.session.assembly = some next ∧
        r.events action = report.deliveries.flatMap fun d =>
          (List.range r.decoders).map fun j => .handed j t.key d := by
  intro packet action
  have step := tracks.advances legal drawn
  obtain ⟨hb, hi⟩ := drawn (b, i) (by simp)
  have bounds := Transmitter.plainShare_bounds legal.sound.pos (legal.small b hb) i
  obtain ⟨packet, read, arrival⟩ := Packet.parse_sealFragment t.key (legal.block b hb)
    (show i < 256 from hi.trans_le (legal.sound.few.trans (by decide))) bounds.2
  change packet.arrival? = some (Assembly.packetOf t payloads b i) at arrival
  generalize Assembly.packetOf t payloads b i = x at step arrival
  have found := r.packet?_datagram intact read
  obtain ⟨events, alike⟩ := @events_received r now _ _ _ _ x found arrival a present
  have frame := (r.session.received now x r.recovery).alike
  obtain ⟨outcome, taken⟩ := step.outcome
  have received : r.session.receive now x r.recovery = ((a.receive x true).1,
      { r.session with lastAssembly := some (a.receive x true).2, lastAuthenticated := some now }) := by
    rw [recovery]
    exact Session.receive_taken present taken now
  rw [received] at events alike frame
  refine ⟨hears.of_alike frame alike, alike.except_session,
    (congrArg Session.epoch alike.session).trans rfl, (a.receive x true).1, (a.receive x true).2,
    step, ?_, events.trans ?_⟩
  · refine (congrArg Session.assembly alike.session).trans ?_
    exact Session.assembly_eq_some.mpr ⟨rfl, (Session.assembly_eq_some.mp present).2⟩
  · rw [taken, recovery, Assembly.handedOver, tracks.key]
    exact List.append_nil _

end Receiver.Hears

end AirLink
