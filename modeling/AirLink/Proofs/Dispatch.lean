import AirLink.Proofs.Packets
import AirLink.Receiver

/-! # How a buffer reaches the session

Of a buffer that is taken from either source, the session sees one packet or nothing.  Whatever else
is done with the buffer changes only the counters, and calls no decoder.
-/

namespace AirLink

def Call.isDecode : Call → Bool
  | decode .. => true
  | _ => false

namespace Relay

theorem Header.layout_lawful : Header.layout.Lawful :=
  (Layout.u32_lawful.both (Layout.u16_lawful.both Layout.i16_lawful)).through fun _ => rfl

theorem parse_datagram (info : FrameInfo) (bs : Bytes) :
    Header.parse (datagram info bs) =
      .ok ((Header.ofInfo info).normalize, if info.corrupt then [] else bs) := by
  rw [datagram, Header.parse, Header.encode, Header.layout_lawful.read?]

/-- The flag of a damaged frame comes through. -/
theorem isCorrupt_normalize (info : FrameInfo) :
    (Header.ofInfo info).normalize.isCorrupt = info.corrupt := by
  rw [Header.normalize]
  cases corrupt : info.corrupt with
  | true => split <;> simp [Header.isCorrupt, Header.ofInfo, corrupt, corruptFlag]
  | false => split <;> simp [Header.isCorrupt, Header.ofInfo, corrupt, corruptFlag]

end Relay

namespace Receiver

variable {r t : Receiver}

/-- Two receivers that differ at most in their counters. -/
structure Alike (r t : Receiver) : Prop where
  settings : r.settings = t.settings
  session : r.session = t.session
  recovery : r.recovery = t.recovery
  decoders : r.decoders = t.decoders
  relays : r.relays = t.relays
  observers : r.observers = t.observers

theorem Alike.refl (r : Receiver) : Alike r r :=
  ⟨rfl, rfl, rfl, rfl, rfl, rfl⟩

theorem alike_count (r : Receiver) (f : Counters → Counters) : Alike (r.count f) r :=
  ⟨rfl, rfl, rfl, rfl, rfl, rfl⟩

theorem Alike.trans {u : Receiver} (h : Alike r t) (h' : Alike t u) : Alike r u :=
  ⟨h.settings.trans h'.settings, h.session.trans h'.session, h.recovery.trans h'.recovery,
    h.decoders.trans h'.decoders, h.relays.trans h'.relays, h.observers.trans h'.observers⟩

theorem Alike.except_session {s : Session} (h : Alike t { r with session := s }) :
    Alike t { r with session := t.session } :=
  ⟨h.settings, rfl, h.recovery, h.decoders, h.relays, h.observers⟩

theorem Alike.passOn (h : Alike r t) (info : FrameInfo) (bs : Bytes) :
    Alike (r.passOn info bs).2 t := by
  simp only [Receiver.passOn]
  split
  · exact h
  · exact (alike_count ..).trans h

/-- The packet of a buffer that reaches the session, with the channel that carried it. -/
def packet? (r : Receiver) : Source → Bytes → Option (Packet × Option UInt32)
  | .capture, bs => do
    let (radio, rest) ← (Radiotap.parse bs).toOption
    let (frame, intact) ←
      (if radio.hasChecksum then Checksum.strip rest r.settings.verifyChecksum
        else .ok (rest, true)).toOption
    if radio.badChecksum || !intact then none
    else do
      let (header, bs) ← (Dot11.parse frame).toOption
      if r.settings.channel.any (· ≠ header.channel) then none
      else (Packet.parse bs).toOption.map fun packet => (packet, some header.channel)
  | .relay, bs => do
    let (header, rest) ← (Relay.Header.parse bs).toOption
    if header.isCorrupt then none
    else (Packet.parse rest).toOption.map fun packet => (packet, none)

/-- What handling a packet does, apart from the counters and the calls of other consumers. -/
inductive Handled (r : Receiver) (now : Moment) (packet : Packet) (carrier : Option UInt32) :
    Except Fault RxOutcome → List Call → Receiver → Prop where
  | announced {nonce : Octets 24} {next : Receiver} (header : packet.header = .session nonce)
      (alike : Alike next
        { r with session := (r.session.announce now nonce packet.cipher carrier).2 }) :
      Handled r now packet carrier
        ((r.session.announce now nonce packet.cipher carrier).1.map RxOutcome.session) [] next
  | received {x : Arrival} {next : Receiver} (arrival : packet.arrival? = some x)
      (alike : Alike next { r with session := (r.session.receive now x r.recovery).2 }) :
      Handled r now packet carrier
        ((r.session.receive now x r.recovery).1.outcome.map RxOutcome.data)
        ((r.session.receive now x r.recovery).1.deliveries.flatMap fun d => r.decodeCalls d.payload)
        next

/-- What taking a buffer does, apart from the counters and the calls of other consumers. -/
inductive Took (r : Receiver) (now : Moment) (source : Source) (bs : Bytes) :
    Except Fault RxOutcome → List Call → Receiver → Prop where
  | unseen {outcome : Except Fault RxOutcome} {next : Receiver}
      (nothing : r.packet? source bs = none) (quiet : ∀ session, outcome ≠ .ok (.session session))
      (alike : Alike next r) : Took r now source bs outcome [] next
  | seen {packet : Packet} {carrier : Option UInt32} {outcome : Except Fault RxOutcome}
      {decodes : List Call} {next : Receiver} (something : r.packet? source bs = some (packet, carrier))
      (handled : Handled r now packet carrier outcome decodes next) :
      Took r now source bs outcome decodes next

theorem filter_observeCalls (r : Receiver) (info : SessionInfo) :
    (r.observeCalls info).filter Call.isDecode = [] := by
  simp [observeCalls, Call.isDecode]

theorem filter_decodeCalls (r : Receiver) (deliveries : List Delivery) :
    (deliveries.flatMap fun d => r.decodeCalls d.payload).filter Call.isDecode =
      deliveries.flatMap fun d => r.decodeCalls d.payload := by
  refine List.filter_eq_self.mpr fun call hc => ?_
  obtain ⟨d, -, member⟩ := List.mem_flatMap.mp hc
  obtain ⟨i, -, rfl⟩ := List.mem_map.mp member
  rfl

/-- Handling a packet looks at everything but the counters. -/
theorem handled (alike : Alike t r) (now : Moment) (packet : Packet) (carrier : Option UInt32) :
    Handled r now packet carrier (t.handle now packet carrier).1.outcome
      ((t.handle now packet carrier).1.calls.filter Call.isDecode)
      (t.handle now packet carrier).2 := by
  obtain ⟨settings, session, recovery, decoders, relays, observers⟩ := alike
  unfold handle
  cases header : packet.header with
  | session nonce =>
      have step := @Handled.announced r now packet carrier nonce
      rw [← session] at step
      simp only [announce]
      cases outcome : (t.session.announce now nonce packet.cipher carrier).1 with
      | error fault =>
          rw [outcome] at step
          exact step header ⟨settings, rfl, recovery, decoders, relays, observers⟩
      | ok result =>
          rw [outcome] at step
          cases result with
          | unchanged => exact step header ⟨settings, rfl, recovery, decoders, relays, observers⟩
          | established info =>
              simp only [filter_observeCalls]
              exact step header ⟨settings, rfl, recovery, decoders, relays, observers⟩
  | data nonce block fragment =>
      have step := @Handled.received r now packet carrier
        { nonce, block, fragment, clear := packet.clear, cipher := packet.cipher }
      rw [← session, ← recovery] at step
      simp only [receive, filter_decodeCalls]
      have same (payload : Bytes) : t.decodeCalls payload = r.decodeCalls payload := by
        rw [decodeCalls, decodeCalls, decoders]
      simp only [same]
      refine step ?_ ⟨settings, rfl, rfl, decoders, relays, observers⟩
      rw [Packet.arrival?, header]

theorem Handled.alike {now : Moment} {packet : Packet} {carrier : Option UInt32}
    {outcome : Except Fault RxOutcome} {decodes : List Call} {next other : Receiver}
    (h : Handled r now packet carrier outcome decodes next) (same : Alike other next) :
    Handled r now packet carrier outcome decodes other := by
  cases h with
  | announced header alike => exact .announced header (same.trans alike)
  | received arrival alike => exact .received arrival (same.trans alike)

theorem Handled.frame {now : Moment} {packet : Packet} {carrier : Option UInt32}
    {outcome : Except Fault RxOutcome} {decodes : List Call} {next : Receiver}
    (h : Handled r now packet carrier outcome decodes next) :
    Alike next { r with session := next.session } := by
  cases h with
  | announced _ alike => exact alike.except_session
  | received _ alike => exact alike.except_session

theorem took_refuse {source : Source} {bs : Bytes} (nothing : r.packet? source bs = none)
    (now : Moment) (fault : Fault) (f : Counters → Counters) :
    Took r now source bs (r.refuse fault f).1.outcome
      ((r.refuse fault f).1.calls.filter Call.isDecode) (r.refuse fault f).2 :=
  .unseen nothing (by simp [refuse]) (alike_count r f)

theorem took_relay (r : Receiver) (now : Moment) (bs : Bytes) :
    Took r now .relay bs (r.relay now bs).1.outcome
      ((r.relay now bs).1.calls.filter Call.isDecode) (r.relay now bs).2 := by
  unfold relay
  cases parsed : Relay.Header.parse bs with
  | error fault =>
      have unseen : r.packet? .relay bs = none := by simp [packet?, parsed, Except.toOption]
      exact took_refuse unseen now fault _
  | ok result =>
      obtain ⟨header, rest⟩ := result
      simp only []
      by_cases corrupt : header.isCorrupt = true
      · have unseen : r.packet? .relay bs = none := by
          simp [packet?, parsed, Except.toOption, corrupt]
        rw [if_pos corrupt]
        exact .unseen unseen (by simp) (alike_count r fun c => { c with relayCorrupt := c.relayCorrupt + 1 })
      rw [if_neg corrupt]
      have found : r.packet? .relay bs = (Packet.parse rest).toOption.map fun p => (p, none) := by
        simp [packet?, parsed, Except.toOption, corrupt]
      cases read : Packet.parse rest with
      | error fault =>
          rw [read] at found
          exact took_refuse found now fault _
      | ok packet =>
          rw [read] at found
          exact .seen found (handled (alike_count ..) now packet none)

/-- The four ways of taking a captured buffer, with all calls that are made. -/
inductive Captured (r : Receiver) (now : Moment) (bs : Bytes) : Reception → Receiver → Prop where
  | silent {x : Reception} {next : Receiver} (nothing : r.packet? .capture bs = none)
      (quiet : ∀ session, x.outcome ≠ .ok (.session session)) (calls : x.calls = []) (alike : Alike next r) :
      Captured r now bs x next
  | damaged {info : FrameInfo} {next : Receiver} (nothing : r.packet? .capture bs = none)
      (corrupt : info.corrupt = true) (alike : Alike next r) :
      Captured r now bs { outcome := .ok .corrupt, calls := r.relayCalls info [] } next
  | forged {t : Receiver} {packet : Packet} {channel : UInt32}
      (found : r.packet? .capture bs = some (packet, some channel)) (same : Alike t r)
      (forged : isForged (t.handle now packet (some channel)).1.outcome = true) :
      Captured r now bs (t.handle now packet (some channel)).1 (t.handle now packet (some channel)).2
  | passedOn {t next : Receiver} {info : FrameInfo} {rest : Bytes} {packet : Packet} {channel : UInt32}
      (found : r.packet? .capture bs = some (packet, some channel)) (same : Alike t r)
      (intact : info.corrupt = false) (own : ∀ expected ∈ r.settings.channel, channel = expected)
      (read : Packet.parse rest = .ok packet)
      (alike : Alike next (t.handle now packet (some channel)).2) :
      Captured r now bs
        { (t.handle now packet (some channel)).1 with
          calls := (t.handle now packet (some channel)).1.calls ++ r.relayCalls info rest } next

variable {bs : Bytes}

theorem captured_refuse (nothing : r.packet? .capture bs = none) (now : Moment) (fault : Fault)
    (f : Counters → Counters) : Captured r now bs (r.refuse fault f).1 (r.refuse fault f).2 :=
  .silent nothing (by simp [refuse]) rfl (alike_count r f)

/-- A captured packet is handled, and its frame is passed on if the packet could be opened. -/
theorem handleCaptured_eq (r : Receiver) (now : Moment) (info : FrameInfo) (rest : Bytes)
    (packet : Packet) (channel : UInt32) :
    let t := r.count fun c => { c with captured := c.captured + 1 }
    let handled := t.handle now packet (some channel)
    r.handleCaptured now info rest packet channel =
      if isForged handled.1.outcome then handled
      else ({ handled.1 with calls := handled.1.calls ++ r.relayCalls info rest },
        (handled.2.passOn info rest).2) := by
  intro t handled
  have same : Alike t r := alike_count ..
  have relays : handled.2.relays = r.relays :=
    (Receiver.handled same now packet (some channel)).frame.relays
  have calls : (handled.2.passOn info rest).1 = r.relayCalls info rest := by
    rw [passOn, relayCalls, relayCalls, relays]
  rw [← calls]
  rfl

theorem captured_handled (now : Moment) {info : FrameInfo} (intact : info.corrupt = false) {rest : Bytes}
    {packet : Packet} (read : Packet.parse rest = .ok packet) {channel : UInt32}
    (found : r.packet? .capture bs = some (packet, some channel))
    (own : ∀ expected ∈ r.settings.channel, channel = expected) :
    Captured r now bs (r.handleCaptured now info rest packet channel).1
      (r.handleCaptured now info rest packet channel).2 := by
  let t := r.count fun c => { c with captured := c.captured + 1 }
  have same : Alike t r := alike_count ..
  rw [handleCaptured_eq]
  by_cases forged : isForged (t.handle now packet (some channel)).1.outcome = true
  · rw [if_pos forged]
    exact .forged found same forged
  · rw [if_neg forged]
    exact .passedOn found same intact own read (Alike.passOn (.refl _) info rest)

theorem captured_frame (now : Moment) {info : FrameInfo} (intact : info.corrupt = false) {frame : Bytes}
    (found : r.packet? .capture bs = do
      let (header, bs) ← (Dot11.parse frame).toOption
      if r.settings.channel.any (· ≠ header.channel) then none
      else (Packet.parse bs).toOption.map fun packet => (packet, some header.channel)) :
    Captured r now bs (r.captureFrame now info frame).1 (r.captureFrame now info frame).2 := by
  unfold captureFrame
  cases parsed : Dot11.parse frame with
  | error fault =>
      rw [parsed] at found
      exact captured_refuse found now fault _
  | ok result =>
      obtain ⟨header, rest⟩ := result
      rw [parsed] at found
      simp only [Except.toOption, Option.bind_eq_bind, Option.bind_some] at found ⊢
      by_cases foreign : r.settings.channel.any (· ≠ header.channel) = true
      · rw [if_pos foreign] at found ⊢
        exact .silent found (by simp) rfl (alike_count r fun c => { c with otherChannels := c.otherChannels + 1 })
      rw [if_neg foreign] at found ⊢
      cases read : Packet.parse rest with
      | error fault =>
          rw [read] at found
          exact captured_refuse found now fault _
      | ok packet =>
          rw [read] at found
          refine captured_handled now intact read found fun expected set => ?_
          rw [Option.mem_def.mp set] at foreign
          exact (not_not.mp fun other => foreign (decide_eq_true other)).symm

theorem captured (r : Receiver) (now : Moment) (bs : Bytes) :
    Captured r now bs (r.capture now bs).1 (r.capture now bs).2 := by
  unfold capture
  cases parsed : Radiotap.parse bs with
  | error fault =>
      have unseen : r.packet? .capture bs = none := by simp [packet?, parsed, Except.toOption]
      exact captured_refuse unseen now fault _
  | ok result =>
      obtain ⟨radio, rest⟩ := result
      simp only []
      cases stripped : (if radio.hasChecksum then Checksum.strip rest r.settings.verifyChecksum
          else .ok (rest, true) : Except Fault (Bytes × Bool)) with
      | error fault =>
          have unseen : r.packet? .capture bs = none := by
            simp [packet?, parsed, stripped, Except.toOption]
          exact captured_refuse unseen now fault _
      | ok result =>
          obtain ⟨frame, intact⟩ := result
          simp only []
          by_cases corrupt : (radio.badChecksum || !intact) = true
          · have unseen : r.packet? .capture bs = none := by
              simp only [packet?, parsed, stripped, Except.toOption, Option.bind_eq_bind,
                Option.bind_some, if_pos corrupt]
            rw [if_pos corrupt]
            let info : FrameInfo := ⟨radio.frequency, radio.strength, radio.badChecksum || !intact⟩
            exact @Captured.damaged r now bs info _ unseen corrupt ((alike_count ..).passOn info [])
          · rw [if_neg corrupt]
            refine captured_frame now (by simpa using corrupt) ?_
            simp only [packet?, parsed, stripped, Except.toOption, Option.bind_eq_bind,
              Option.bind_some, if_neg corrupt]

theorem filter_relayCalls (r : Receiver) (info : FrameInfo) (bs : Bytes) :
    (r.relayCalls info bs).filter Call.isDecode = [] := by
  simp [relayCalls, Call.isDecode]

theorem Captured.took {now : Moment} {x : Reception} {next : Receiver} (h : Captured r now bs x next) :
    Took r now .capture bs x.outcome (x.calls.filter Call.isDecode) next := by
  cases h with
  | silent nothing quiet calls alike =>
      rw [calls]
      exact .unseen nothing quiet alike
  | damaged nothing _ alike =>
      rw [filter_relayCalls]
      exact .unseen nothing (by simp) alike
  | forged found same => exact .seen found (handled same ..)
  | passedOn found same _ _ _ alike =>
      rw [List.filter_append, filter_relayCalls, List.append_nil]
      exact .seen found ((handled same ..).alike alike)

theorem create_eq_ok {settings : Settings} {keys : LinkKeys} (h : create settings keys = .ok r) :
    r = { settings, session := Session.create settings keys, recovery := settings.recovery } := by
  unfold create at h
  cases valid : settings.validate with
  | error fault => simp [valid, bind, Except.bind] at h
  | ok =>
      simp only [valid, bind, Except.bind, pure, Except.pure, Except.ok.injEq] at h
      exact h.symm

/-- Of a buffer, the session sees one packet or nothing. -/
theorem took (r : Receiver) (now : Moment) (source : Source) (bs : Bytes) :
    Took r now source bs (r.take now source bs).1.outcome
      ((r.take now source bs).1.calls.filter Call.isDecode) (r.take now source bs).2 := by
  cases source with
  | capture => exact (captured r now bs).took
  | relay => exact took_relay r now bs

theorem Took.frame {now : Moment} {source : Source} {bs : Bytes} {outcome : Except Fault RxOutcome}
    {decodes : List Call} {next : Receiver} (h : Took r now source bs outcome decodes next) :
    Alike next { r with session := next.session } := by
  cases h with
  | unseen _ _ alike =>
      exact ⟨alike.settings, rfl, alike.recovery, alike.decoders, alike.relays, alike.observers⟩
  | seen _ handled => exact handled.frame

theorem Took.handled {now : Moment} {source : Source} {bs : Bytes} {outcome : Except Fault RxOutcome}
    {decodes : List Call} {next : Receiver} {packet : Packet} {carrier : Option UInt32}
    (h : Took r now source bs outcome decodes next) (found : r.packet? source bs = some (packet, carrier)) :
    Handled r now packet carrier outcome decodes next := by
  cases h with
  | unseen nothing => cases nothing.symm.trans found
  | seen something handled =>
      obtain ⟨rfl, rfl⟩ := Prod.mk.inj (Option.some.inj (something.symm.trans found))
      exact handled

theorem Handled.of_session {now : Moment} {packet : Packet} {carrier : Option UInt32}
    {outcome : Except Fault RxOutcome} {decodes : List Call} {next : Receiver} {nonce : Octets 24}
    (h : Handled r now packet carrier outcome decodes next) (header : packet.header = .session nonce) :
    outcome = (r.session.announce now nonce packet.cipher carrier).1.map RxOutcome.session ∧
      decodes = [] ∧
      Alike next { r with session := (r.session.announce now nonce packet.cipher carrier).2 } := by
  cases h with
  | announced same alike =>
      obtain rfl := Packet.Header.session.inj (same.symm.trans header)
      exact ⟨rfl, rfl, alike⟩
  | received arrival => simp [Packet.arrival?, header] at arrival

theorem Handled.of_data {now : Moment} {packet : Packet} {carrier : Option UInt32}
    {outcome : Except Fault RxOutcome} {decodes : List Call} {next : Receiver} {x : Arrival}
    (h : Handled r now packet carrier outcome decodes next) (arrival : packet.arrival? = some x) :
    outcome = (r.session.receive now x r.recovery).1.outcome.map RxOutcome.data ∧
      decodes =
        (r.session.receive now x r.recovery).1.deliveries.flatMap (fun d => r.decodeCalls d.payload) ∧
      Alike next { r with session := (r.session.receive now x r.recovery).2 } := by
  cases h with
  | announced header => simp [Packet.arrival?, header] at arrival
  | received same alike =>
      obtain rfl := Option.some.inj (same.symm.trans arrival)
      exact ⟨rfl, rfl, alike⟩

theorem Took.announced {now : Moment} {source : Source} {bs : Bytes}
    {outcome : Except Fault RxOutcome} {decodes : List Call} {next : Receiver} {packet : Packet}
    {carrier : Option UInt32} {nonce : Octets 24} (h : Took r now source bs outcome decodes next)
    (found : r.packet? source bs = some (packet, carrier))
    (header : packet.header = .session nonce) :
    outcome = (r.session.announce now nonce packet.cipher carrier).1.map RxOutcome.session ∧
      Alike next { r with session := (r.session.announce now nonce packet.cipher carrier).2 } := by
  obtain ⟨outcome, -, alike⟩ := (h.handled found).of_session header
  exact ⟨outcome, alike⟩

theorem Took.received {now : Moment} {source : Source} {bs : Bytes}
    {outcome : Except Fault RxOutcome} {decodes : List Call} {next : Receiver} {packet : Packet}
    {carrier : Option UInt32} {x : Arrival} (h : Took r now source bs outcome decodes next)
    (found : r.packet? source bs = some (packet, carrier)) (arrival : packet.arrival? = some x) :
    outcome = (r.session.receive now x r.recovery).1.outcome.map RxOutcome.data ∧
      Alike next { r with session := (r.session.receive now x r.recovery).2 } := by
  obtain ⟨outcome, -, alike⟩ := (h.handled found).of_data arrival
  exact ⟨outcome, alike⟩

/-- A packet that is relayed undamaged reaches the session. -/
theorem packet?_datagram (r : Receiver) {info : FrameInfo} (intact : info.corrupt = false) {bs : Bytes}
    {packet : Packet} (read : Packet.parse bs = .ok packet) :
    r.packet? .relay (Relay.datagram info bs) = some (packet, none) := by
  have parsed := Relay.parse_datagram info bs
  have clean := (Relay.isCorrupt_normalize info).trans intact
  rw [intact, if_neg Bool.false_ne_true] at parsed
  simp [packet?, parsed, clean, read, Except.toOption]

theorem take_datagram (r : Receiver) (now : Moment) {info : FrameInfo} (intact : info.corrupt = false)
    {bs : Bytes} {packet : Packet} (read : Packet.parse bs = .ok packet) :
    r.take now .relay (Relay.datagram info bs) =
      (r.count fun c => { c with relayed := c.relayed + 1 }).handle now packet none := by
  have parsed := Relay.parse_datagram info bs
  have clean := (Relay.isCorrupt_normalize info).trans intact
  rw [intact, if_neg Bool.false_ne_true] at parsed
  simp only [take, relay, parsed, clean, read]
  rfl

theorem handle_arrival {packet : Packet} {x : Arrival} (found : packet.arrival? = some x) (now : Moment)
    (carrier : Option UInt32) : r.handle now packet carrier = r.receive now x := by
  unfold Packet.arrival? at found
  unfold handle
  split at found
  next isData =>
    obtain rfl := Option.some.inj found
    simp only [isData]
  next => cases found

end Receiver

end AirLink
