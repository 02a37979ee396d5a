import AirLink.RelayLoop
import AirLink.Proofs.Checked.Headers
import AirLink.Proofs.Framing

/-! # Datagrams and the buffer of the relay loop

The buffer of the loop holds the relay header and more than the largest packet.  What is cut off belongs
to a datagram that announces a damaged frame, whose packet nobody reads, or to one whose packet is too
large, and what is left of that is still too large.  So the loop does for each datagram what would have
been done for the whole of it.
-/

namespace AirLink

theorem Relay.Header.layout_local : layout.Local :=
  (Layout.u32_local.both (Layout.u16_local.both Layout.u16_local.through)).through

/-- Two receptions that are the same, but for the size that is named where a packet is refused as too
large. -/
inductive Reception.SameButSize : Reception → Reception → Prop where
  | same (x : Reception) : SameButSize x x
  | oversized (most got other : Nat) :
    SameButSize { outcome := .error (.oversized most got) } { outcome := .error (.oversized most other) }

theorem Reception.SameButSize.calls {x y : Reception} (h : SameButSize x y) : x.calls = y.calls := by
  cases h <;> rfl

namespace LoopEvent

/-- The datagrams that are received before the loop is told to end, each as it was sent. -/
def takes : List LoopEvent → List Receiver.Action
  | [] => []
  | .shutdown :: _ => []
  | .report :: events => takes events
  | .datagram now bs :: events => .take now .relay bs :: takes events

end LoopEvent

namespace Receiver

variable {r t : Receiver}

/-! ## One datagram -/

theorem relay_of_limit_lt (r : Receiver) (now : Moment) {bs rest : Bytes} {header : Relay.Header}
    (parsed : Relay.Header.parse bs = .ok (header, rest)) (intact : header.isCorrupt = false)
    (large : Limits.packet < rest.length) :
    r.relay now bs = r.refuse (.oversized Limits.packet rest.length)
      fun c => { c with relayPacketFaults := c.relayPacketFaults + 1 } := by
  unfold relay
  simp only [parsed, intact, Bool.false_eq_true, if_false, Packet.parse_of_limit_lt large]

theorem relay_of_isCorrupt (r : Receiver) (now : Moment) {bs rest : Bytes} {header : Relay.Header}
    (parsed : Relay.Header.parse bs = .ok (header, rest)) (corrupt : header.isCorrupt = true) :
    r.relay now bs = ({ outcome := .ok .corrupt },
      r.count fun c => { c with relayCorrupt := c.relayCorrupt + 1 }) := by
  unfold relay
  simp only [parsed, corrupt, if_true]

/-- The buffer has room for the header and for one byte more than a packet may have. -/
theorem packet_lt_datagramBuffer : Limits.packet + Relay.Header.layout.size < datagramBuffer := by decide

/-- Cutting a datagram off makes no difference, but for the size that a refusal names. -/
theorem takeDatagram_relay (r : Receiver) (now : Moment) (bs : Bytes) :
    (r.takeDatagram now bs).1.SameButSize (r.relay now bs).1 ∧
      (r.takeDatagram now bs).2 = (r.relay now bs).2 := by
  unfold takeDatagram
  by_cases fits : bs.length ≤ datagramBuffer
  · rw [List.take_of_length_le fits]
    exact ⟨.same _, rfl⟩
  have cut := Nat.lt_of_not_le fits
  have room := packet_lt_datagramBuffer
  have left : (bs.take datagramBuffer).length = datagramBuffer := List.length_take_of_le (Nat.le_of_lt cut)
  -- The header is within the buffer, so that it is the same one.
  have long : Relay.Header.layout.size ≤ bs.length := by omega
  have enough : Relay.Header.layout.size ≤ (bs.take datagramBuffer).length := by omega
  have whole := Relay.Header.parse_of_size_le long
  have part := Relay.Header.parse_of_size_le enough
  rw [Relay.Header.layout_local bs (by omega)] at part
  cases corrupt : (Relay.Header.layout.read bs).normalize.isCorrupt with
  | true =>
      rw [r.relay_of_isCorrupt now whole corrupt, r.relay_of_isCorrupt now part corrupt]
      exact ⟨.same _, rfl⟩
  | false =>
      have large : Limits.packet < (bs.drop Relay.Header.layout.size).length := by
        rw [List.length_drop]
        omega
      have still : Limits.packet < ((bs.take datagramBuffer).drop Relay.Header.layout.size).length := by
        rw [List.length_drop, left]
        omega
      rw [r.relay_of_limit_lt now whole corrupt large, r.relay_of_limit_lt now part corrupt still]
      exact ⟨.oversized .., rfl⟩

/-! ## The loop -/

theorem run_perform (r : Receiver) (events : List LoopEvent) :
    List.Forall₂ Reception.SameButSize (r.run events).1 (r.perform (LoopEvent.takes events)).1 ∧
      (r.run events).2 = (r.perform (LoopEvent.takes events)).2 := by
  induction events generalizing r with
  | nil => exact ⟨.nil, rfl⟩
  | cons event events ih =>
      cases event with
      | shutdown => exact ⟨.nil, rfl⟩
      | report => exact ih r
      | datagram now bs =>
          obtain ⟨reception, next⟩ := r.takeDatagram_relay now bs
          obtain ⟨receptions, last⟩ := ih (r.takeDatagram now bs).2
          simp only [run, LoopEvent.takes, perform]
          rw [next] at receptions last ⊢
          exact ⟨.cons reception receptions, last⟩

theorem calls_of_forall₂ {xs ys : List Reception} (h : List.Forall₂ Reception.SameButSize xs ys) :
    xs.flatMap Reception.calls = ys.flatMap Reception.calls := by
  induction h with
  | nil => rfl
  | cons first _ ih => rw [List.flatMap_cons, List.flatMap_cons, first.calls, ih]

/-! ## What a datagram leaves behind -/

theorem Alike.symm (alike : Alike t r) : Alike r t :=
  ⟨alike.settings.symm, alike.session.symm, alike.recovery.symm, alike.decoders.symm, alike.relays.symm,
    alike.observers.symm⟩

theorem Alike.exists_count (alike : Alike t r) : ∃ f, t = r.count f := by
  refine ⟨fun _ => t.counters, ?_⟩
  obtain ⟨_, _, _, _, _, _, _⟩ := t
  obtain ⟨_, _, _, _, _, _, _⟩ := r
  obtain ⟨rfl, rfl, rfl, rfl, rfl, rfl⟩ := alike
  rfl

/-- What is counted makes no difference to a datagram. -/
theorem relay_count (r : Receiver) (f : Counters → Counters) (now : Moment) (bs : Bytes) :
    ((r.count f).relay now bs).1 = (r.relay now bs).1 ∧
      ((r.count f).relay now bs).2.session = (r.relay now bs).2.session := by
  unfold relay
  cases Relay.Header.parse bs with
  | error fault => exact ⟨rfl, rfl⟩
  | ok found =>
      cases corrupt : found.1.isCorrupt with
      | true => simp only [corrupt, if_true, count, and_self]
      | false =>
          simp only [corrupt, Bool.false_eq_true, if_false]
          cases Packet.parse found.2 with
          | error fault => exact ⟨rfl, rfl⟩
          | ok packet =>
              have counted := r.handle_count (fun c => (f c).enter .relay) now packet none
              have plain := r.handle_count (·.enter .relay) now packet none
              exact ⟨counted.1.trans plain.1.symm, counted.2.trans plain.2.symm⟩

theorem Alike.relay (alike : Alike t r) (now : Moment) (bs : Bytes) :
    (t.relay now bs).1 = (r.relay now bs).1 ∧ Alike (t.relay now bs).2 (r.relay now bs).2 := by
  obtain ⟨f, rfl⟩ := alike.exists_count
  obtain ⟨reception, session⟩ := r.relay_count f now bs
  have counted := ((r.count f).took now .relay bs).frame
  have plain := (r.took now .relay bs).frame
  refine ⟨reception, Alike.trans ?_ plain.symm⟩
  exact ⟨counted.settings, session, counted.recovery, counted.decoders, counted.relays, counted.observers⟩

theorem Alike.run (alike : Alike t r) (events : List LoopEvent) :
    (t.run events).1 = (r.run events).1 ∧ Alike (t.run events).2 (r.run events).2 := by
  induction events generalizing t r with
  | nil => exact ⟨rfl, alike⟩
  | cons event events ih =>
      cases event with
      | shutdown => exact ⟨rfl, alike⟩
      | report => exact ih alike
      | datagram now bs =>
          obtain ⟨reception, next⟩ := alike.relay now (bs.take datagramBuffer)
          obtain ⟨receptions, last⟩ := ih next
          simp only [Receiver.run, takeDatagram]
          exact ⟨congrArg₂ List.cons reception receptions, last⟩

theorem Took.still {now : Moment} {source : Source} {bs : Bytes} {outcome : Except Fault RxOutcome}
    {decodes : List Call} {next : Receiver} (h : Took r now source bs outcome decodes next)
    (nothing : r.packet? source bs = none) : Alike next r := by
  cases h with
  | unseen _ _ alike => exact alike
  | seen something => cases nothing.symm.trans something

/-- The loop comes to the same as taking each whole datagram that is received before its end, one after
another: to the same receiver with the same counters, and, but for the size that is named where a packet
is too large, to the same receptions, the calls of decoders and observers included.  All that a datagram
leaves for the later ones, be it refused or not, is the session that the whole datagram makes.  If no
packet is found in it, that is the session from before. -/
theorem run_whole (r : Receiver) :
    (∀ events, (r.run events).2 = (r.perform (LoopEvent.takes events)).2 ∧
      List.Forall₂ Reception.SameButSize (r.run events).1 (r.perform (LoopEvent.takes events)).1 ∧
      (r.run events).1.flatMap Reception.calls =
        (r.perform (LoopEvent.takes events)).1.flatMap Reception.calls) ∧
    ∀ now bs later,
      let ran := r.run (.datagram now bs :: later)
      let left : Receiver := { r with session := (r.relay now bs).2.session }
      ran.1.tail = (left.run later).1 ∧ Alike ran.2 (left.run later).2 ∧
        (r.packet? .relay bs = none → left = r) := by
  refine ⟨fun events => ?_, fun now bs later => ?_⟩
  · obtain ⟨receptions, last⟩ := r.run_perform events
    exact ⟨last, receptions, calls_of_forall₂ receptions⟩
  · intro ran left
    have next : Alike (r.takeDatagram now bs).2 left :=
      (r.takeDatagram_relay now bs).2 ▸ (r.took now .relay bs).frame
    obtain ⟨receptions, last⟩ := next.run later
    refine ⟨receptions, last, fun nothing => ?_⟩
    have still : (r.relay now bs).2.session = r.session := ((r.took now .relay bs).still nothing).session
    simp only [left, still]

end Receiver

end AirLink
