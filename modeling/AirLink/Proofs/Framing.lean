import AirLink.Proofs.Forgery
import AirLink.Proofs.Records

/-! # Framing is transparent

A packet that is framed for the air and captured comes to the same as the packet alone, handed to the
session together with the channel from its header.  What the relays are told of it is what was captured,
and a relay header brings it to the other side as it is.
-/

namespace AirLink

namespace Relay.Header

/-- A strength that fits into eight bits is known. -/
theorem normalize_ofInfo (frequency : UInt16) (signal : Int8) (corrupt : Bool) :
    (ofInfo ⟨frequency, signal.toInt16, corrupt⟩).normalize = ofInfo ⟨frequency, signal.toInt16, corrupt⟩ := by
  have low := signal.le_toInt
  have high := signal.toInt_lt
  refine normalize_of_passable (.inl ?_)
  simp only [ofInfo, Int8.toInt_toInt16]
  omega

end Relay.Header

namespace Receiver

variable {r : Receiver}

/-- Reads a packet that was found on a channel and handles it.  Nothing is counted for it but what the
session tells, and nothing is passed on. -/
def unwrapped (r : Receiver) (now : Moment) (bs : Bytes) (carrier : Option UInt32) : Reception × Receiver :=
  match Packet.parse bs with
  | .error fault => ({ outcome := .error fault }, r)
  | .ok packet => r.handle now packet carrier

/-- Counting something before a packet is handled makes no difference. -/
theorem handle_count (r : Receiver) (f : Counters → Counters) (now : Moment) (packet : Packet)
    (carrier : Option UInt32) :
    ((r.count f).handle now packet carrier).1 = (r.handle now packet carrier).1 ∧
      ((r.count f).handle now packet carrier).2.session = (r.handle now packet carrier).2.session := by
  unfold handle
  cases packet.header with
  | session nonce =>
      simp only [announce, count]
      cases (r.session.announce now nonce packet.cipher carrier).1 with
      | error fault => exact ⟨rfl, rfl⟩
      | ok result => cases result <;> exact ⟨rfl, rfl⟩
  | data nonce block fragment => exact ⟨rfl, rfl⟩

theorem capture_captureFrame (r : Receiver) (now : Moment) (channel : UInt32) (sequence frequency : UInt16)
    (signal : Int8) (bs : Bytes) (checksum : Bool) :
    r.capture now (AirLink.captureFrame channel sequence frequency signal bs checksum) =
      r.captureFrame now ⟨frequency, signal.toInt16, false⟩
        ((Dot11.Header.forChannel channel sequence).encode ++ bs) := by
  obtain ⟨radio, rest, parsed, stripped, rfl, strength, intact⟩ :=
    read_captureFrame channel sequence frequency signal bs checksum
  unfold capture
  simp only [parsed, stripped, strength, intact, Bool.not_true, Bool.or_self, Bool.false_eq_true, if_false]

theorem session_passOn (r : Receiver) (info : FrameInfo) (bs : Bytes) :
    (r.passOn info bs).2.session = r.session := by
  simp only [passOn]
  split <;> rfl

/-- What the packet of a captured frame brings about, and the calls of the relays behind it. -/
structure Unwraps (info : FrameInfo) (bs : Bytes) (staged captured : Reception × Receiver) : Prop where
  outcome : captured.1.outcome = staged.1.outcome
  gaps : captured.1.gaps = staged.1.gaps
  session : captured.2.session = staged.2.session
  calls : ∃ passes, captured.1.calls = staged.1.calls ++ passes ∧
    ∀ call ∈ passes, ∃ i, call = .relay i info bs

theorem Unwraps.of_handled {info : FrameInfo} {bs : Bytes} {staged handled : Reception × Receiver}
    (same : handled.1 = staged.1) (session : handled.2.session = staged.2.session) (r : Receiver) :
    Unwraps info bs staged (if isForged handled.1.outcome then handled
      else ({ handled.1 with calls := handled.1.calls ++ r.relayCalls info bs },
        (handled.2.passOn info bs).2)) := by
  by_cases forged : isForged handled.1.outcome = true
  · rw [if_pos forged]
    exact ⟨by rw [same], by rw [same], session, [], by rw [same, List.append_nil], List.forall_mem_nil _⟩
  · rw [if_neg forged]
    refine ⟨by rw [same], by rw [same], (handled.2.session_passOn info bs).trans session,
      r.relayCalls info bs, by rw [same], fun call hc => ?_⟩
    obtain ⟨i, -, rfl⟩ := List.mem_map.mp hc
    exact ⟨i, rfl⟩

/-- A frame of another channel is left alone, and any other one comes to what its packet does. -/
theorem capture_cases (r : Receiver) (now : Moment) (channel : UInt32) (sequence frequency : UInt16)
    (signal : Int8) (bs : Bytes) (checksum : Bool) :
    let captured := r.capture now (AirLink.captureFrame channel sequence frequency signal bs checksum)
    ((∃ expected, r.settings.channel = some expected ∧ expected ≠ channel) ∧
        captured.1 = { outcome := .ok .otherChannel }) ∨
      (∀ expected, r.settings.channel = some expected → expected = channel) ∧
        captured.1.outcome ≠ .ok .otherChannel ∧
        Unwraps ⟨frequency, signal.toInt16, false⟩ bs (r.unwrapped now bs (some channel)) captured := by
  rw [capture_captureFrame]
  unfold captureFrame unwrapped
  simp only [Dot11.parse_forChannel, Dot11.Header.channel_forChannel]
  by_cases foreign : ∃ expected, r.settings.channel = some expected ∧ expected ≠ channel
  · obtain ⟨expected, set, other⟩ := foreign
    rw [if_pos (by simp [set, other])]
    exact .inl ⟨⟨expected, set, other⟩, rfl⟩
  have own : ∀ expected, r.settings.channel = some expected → expected = channel :=
    fun expected set => not_not.mp fun other => foreign ⟨expected, set, other⟩
  have native : ¬r.settings.channel.any (· ≠ channel) := by
    cases set : r.settings.channel with
    | none => exact Bool.false_ne_true
    | some expected => simp [own expected set]
  rw [if_neg native]
  refine .inr ⟨own, ?_⟩
  cases Packet.parse bs with
  | error fault => exact ⟨by simp [refuse], rfl, rfl, rfl, [], rfl, List.forall_mem_nil _⟩
  | ok packet =>
      obtain ⟨same, session⟩ :=
        r.handle_count (fun c => { c with captured := c.captured + 1 }) now packet (some channel)
      have unwraps := @Unwraps.of_handled ⟨frequency, signal.toInt16, false⟩ bs _ _ same session r
      rw [← handleCaptured_eq] at unwraps
      have kept := (r.handle_outcome_ne now packet (some channel)).2
      rw [← unwraps.outcome] at kept
      exact ⟨kept, unwraps⟩

theorem ne_relay_of_unwrapped {now : Moment} {bs : Bytes} {carrier : Option UInt32} {call : Call}
    (hc : call ∈ (r.unwrapped now bs carrier).1.calls) (i : Nat) (info : FrameInfo) (packet : Bytes) :
    call ≠ .relay i info packet := by
  unfold unwrapped at hc
  cases read : Packet.parse bs with
  | error fault =>
      rw [read] at hc
      cases hc
  | ok found =>
      rw [read] at hc
      exact ne_relay_of_handle hc i info packet

/-- A frame that is captured as it was sent, whether or not it has a check sequence and this is verified:
its packet is found with the channel, the low bits of the sequence number and what is known of the frame.
It is one of another channel if the receiver is set to another.  Otherwise it comes to the same as its packet
on that channel, whether that can be read and opened or not.  Whoever relays it is told this packet and what
is known of the frame, and a relay header in front of the packet tells the same. -/
theorem framing_transparent (r : Receiver) (now : Moment) (channel : UInt32) (sequence frequency : UInt16)
    (signal : Int8) (bs : Bytes) (checksum : Bool) :
    let frame := AirLink.captureFrame channel sequence frequency signal bs checksum
    let info : FrameInfo := ⟨frequency, signal.toInt16, false⟩
    let captured := r.capture now frame
    (∃ body header, r.Heard frame info body ∧ Dot11.parse body = .ok (header, bs) ∧
      header.channel = channel ∧ header.sequence.toNat = sequence.toNat % 4096) ∧
    (captured.1.outcome = .ok .otherChannel ↔
      ∃ expected, r.settings.channel = some expected ∧ expected ≠ channel) ∧
    (captured.1.outcome ≠ .ok .otherChannel →
      Unwraps info bs (r.unwrapped now bs (some channel)) captured) ∧
    (∀ i told packet, .relay i told packet ∈ captured.1.calls → told = info ∧ packet = bs) ∧
    ∃ header, Envelope.parse .relay ((Relay.Header.ofInfo info).encode ++ bs) = .ok (.relay header, bs) ∧
      header.info = info := by
  intro frame info captured
  have heard := r.heard_captureFrame channel sequence frequency signal bs checksum
  have split := r.capture_cases now channel sequence frequency signal bs checksum
  refine ⟨⟨_, _, heard, Dot11.parse_forChannel .., Dot11.Header.channel_forChannel ..,
    Dot11.Header.sequence_forChannel ..⟩, ?_, ?_, ?_, ?_⟩
  · rcases split with ⟨foreign, other⟩ | ⟨own, other, -⟩
    · exact iff_of_true (congrArg Reception.outcome other) foreign
    · refine iff_of_false other ?_
      rintro ⟨expected, set, foreign⟩
      exact foreign (own expected set)
  · rcases split with ⟨-, other⟩ | ⟨-, -, unwraps⟩
    · exact fun here => absurd (congrArg Reception.outcome other) here
    · exact fun _ => unwraps
  · intro i told packet hc
    rcases split with ⟨-, other⟩ | ⟨-, -, unwraps⟩
    · have none : captured.1.calls = [] := congrArg Reception.calls other
      rw [none] at hc
      cases hc
    · obtain ⟨passes, calls, passed⟩ := unwraps.calls
      rw [calls] at hc
      rcases List.mem_append.mp hc with own | pass
      · exact absurd rfl (ne_relay_of_unwrapped own i told packet)
      · obtain ⟨_, same⟩ := passed _ pass
        cases same
        exact ⟨rfl, rfl⟩
  · have sent := Relay.parse_datagram info bs
    rw [Relay.Header.normalize_ofInfo] at sent
    refine ⟨Relay.Header.ofInfo info, ?_, Relay.Header.info_ofInfo info⟩
    rw [Relay.datagram, if_neg Bool.false_ne_true] at sent
    rw [Envelope.parse, sent]
    rfl

end Receiver

end AirLink
