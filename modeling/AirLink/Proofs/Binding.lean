import AirLink.Proofs.Coherence
import AirLink.Proofs.Frames

/-! # Sessions and channels

The channel is checked twice: a receiver that is set to one passes over captured frames of any other,
and an announcement must name the channel that carried it, or else the one that the receiver is set to.
What comes over the wire has no carrier.  Between them the two checks bind a session to its channel.
-/

namespace AirLink

namespace Session

variable {s next : Session}

/-- If the receiving end is set to a channel, an installed session is one of this channel. -/
def Bound (s : Session) : Prop := ∀ info, s.info = some info → ∀ expected ∈ s.channel, info.channel = expected

theorem Bound.of_same (h : s.Bound) (info : next.info = s.info) (channel : next.channel = s.channel) :
    next.Bound := by
  intro told present expected set
  rw [info] at present
  rw [channel] at set
  exact h told present expected set

theorem bound_of_lost (lost : s.hasKey = false) : s.Bound := by
  intro info present
  cases (info_of_lost lost).symm.trans present

/-- An announcement that establishes a session names the channel that carried it, or else the one that is
set. -/
theorem Announced.channel {now : Moment} {nonce : Octets 24} {cipher : Bytes} {carrier : Option UInt32}
    {outcome : Except Fault SessionOutcome} (h : Announced s now nonce cipher carrier outcome next)
    {info : SessionInfo} (begins : outcome = .ok (.established info)) :
    ∀ expected ∈ carrier.or s.channel, info.channel = expected := by
  obtain ⟨offer, a, -, -, -, fit, -⟩ := h.begins begins
  obtain ⟨own, -, -, scheme, -, rfl⟩ := prepare_eq_ok.mp fit
  exact fun expected known => (own expected known).symm

theorem Announced.bound {now : Moment} {nonce : Octets 24} {cipher : Bytes} {carrier : Option UInt32}
    {outcome : Except Fault SessionOutcome} (h : Announced s now nonce cipher carrier outcome next)
    (own : ∀ expected ∈ s.channel, ∀ channel ∈ carrier, channel = expected) (bound : s.Bound) :
    next.Bound := by
  have alike := h.alike
  have named {info : SessionInfo} (begins : outcome = .ok (.established info)) :
      ∀ expected ∈ s.channel, info.channel = expected := by
    intro expected set
    cases carrier with
    | none => exact h.channel begins expected set
    | some channel => exact (h.channel begins channel rfl).trans (own expected set channel rfl)
  cases h with
  | unread | stale => exact bound
  | repeated => exact bound.of_same rfl rfl
  | failed => exact bound_of_lost rfl
  | established =>
      intro told present expected set
      obtain rfl := Option.some.inj present
      exact named rfl expected (alike.channel ▸ set)

theorem Received.bound {now : Moment} {x : Arrival} {recover : Bool} {report : Report}
    (h : Received s now x recover report next) (bound : s.Bound) : next.Bound := by
  cases h with
  | idle => exact bound
  | forged => exact bound_of_lost rfl
  | refused | taken => exact bound.of_same rfl rfl

end Session

namespace Receiver

variable {r next : Receiver} {bs : Bytes} {settings : Settings} {keys : LinkKeys}

/-- The packet of a captured buffer comes with the channel in the header of its frame. -/
theorem reads_of_packet? {packet : Packet} {carrier : Option UInt32}
    (found : r.packet? .capture bs = some (packet, carrier)) :
    ∃ told frame header, r.Heard bs told frame ∧ told.corrupt = false ∧ r.Reads frame header packet ∧
      carrier = some header.channel := by
  have step := r.overheard 0 bs
  rw [found] at step
  generalize r.capture 0 bs = result at step
  cases step with
  | read heard intact reads => exact ⟨_, _, _, heard, intact, reads, rfl⟩

theorem carrier_of_packet? {source : Source} {packet : Packet} {carrier : Option UInt32}
    (found : r.packet? source bs = some (packet, carrier)) :
    ∀ expected ∈ r.settings.channel, ∀ channel ∈ carrier, channel = expected := by
  cases source with
  | capture =>
      obtain ⟨told, frame, header, -, -, reads, rfl⟩ := reads_of_packet? found
      rintro expected set channel ⟨⟩
      have own := reads.own
      rw [Option.mem_def.mp set, Option.any_some, decide_eq_false_iff_not] at own
      exact (not_not.mp own).symm
  | relay =>
      rcases r.relay_eq 0 bs with ⟨none, -⟩ | ⟨other, same, -⟩
      · cases found.symm.trans none
      · cases found.symm.trans same
        exact fun _ _ _ none => by cases none

/-- The receiver keeps its settings, and its session is bound to the channel that is set. -/
structure Tuned (settings : Settings) (r : Receiver) : Prop where
  unchanged : r.settings = settings
  channel : r.session.channel = settings.channel
  bound : r.session.Bound

theorem tuned_create (created : create settings keys = .ok r) : r.Tuned settings := by
  rw [create_eq_ok created]
  exact ⟨rfl, rfl, Session.bound_of_lost rfl⟩

theorem Handled.bound {now : Moment} {packet : Packet} {carrier : Option UInt32}
    {outcome : Except Fault RxOutcome} {decodes : List Call}
    (h : Handled r now packet carrier outcome decodes next)
    (own : ∀ expected ∈ r.session.channel, ∀ channel ∈ carrier, channel = expected)
    (bound : r.session.Bound) : next.session.Bound ∧ next.session.channel = r.session.channel := by
  cases h with
  | @announced nonce _ _ alike =>
      have step := r.session.announced now nonce packet.cipher carrier
      rw [alike.session]
      exact ⟨step.bound own bound, step.alike.channel⟩
  | @received x _ _ alike =>
      have step := r.session.received now x r.recovery
      rw [alike.session]
      exact ⟨step.bound bound, step.alike.channel⟩

theorem Took.tuned {now : Moment} {source : Source} {outcome : Except Fault RxOutcome}
    {decodes : List Call} (h : Took r now source bs outcome decodes next) (tuned : r.Tuned settings) :
    next.Tuned settings := by
  have frame := h.frame.settings.trans tuned.unchanged
  cases h with
  | unseen _ _ alike =>
      exact ⟨frame, alike.session ▸ tuned.channel, alike.session ▸ tuned.bound⟩
  | seen found handled =>
      have own := carrier_of_packet? found
      rw [tuned.unchanged, ← tuned.channel] at own
      obtain ⟨bound, channel⟩ := handled.bound own tuned.bound
      exact ⟨frame, channel.trans tuned.channel, bound⟩

theorem Tuned.act (tuned : r.Tuned settings) (action : Action) : (r.act action).2.Tuned settings := by
  cases action with
  | attach consumer =>
      have session := r.session_attach consumer
      exact ⟨(r.attach_frame consumer).1.trans tuned.unchanged, session ▸ tuned.channel,
        session ▸ tuned.bound⟩
  | setRecovery on => exact ⟨tuned.unchanged, tuned.channel, tuned.bound⟩
  | take now source bs => exact (r.took now source bs).tuned tuned

theorem Tuned.perform (tuned : r.Tuned settings) (actions : List Action) :
    (r.perform actions).2.Tuned settings := by
  induction actions generalizing r with
  | nil => exact tuned
  | cons action actions ih => exact ih (tuned.act action)

/-- The captured buffer is a frame with this channel in its header. -/
def Carries (r : Receiver) (bs : Bytes) (channel : UInt32) : Prop :=
  ∃ told frame header rest, r.Heard bs told frame ∧ Dot11.parse frame = .ok (header, rest) ∧
    header.channel = channel

theorem Carries.unique {channel other : UInt32} (h : r.Carries bs channel) (h' : r.Carries bs other) :
    channel = other := by
  obtain ⟨told, frame, header, rest, heard, parsed, rfl⟩ := h
  obtain ⟨told', frame', header', rest', heard', parsed', rfl⟩ := h'
  obtain ⟨rfl, rfl⟩ := heard.unique heard'
  obtain ⟨rfl, -⟩ := Prod.mk.inj (Except.ok.inj (parsed.symm.trans parsed'))
  rfl

/-- Of a captured frame that is not one of the channel that is set, the session sees nothing, and nobody
is told of it but that it was damaged. -/
theorem capture_foreign {c : UInt32} (set : r.settings.channel = some c) (foreign : ¬r.Carries bs c)
    (now : Moment) :
    (r.capture now bs).2.session = r.session ∧
      ∀ call ∈ (r.capture now bs).1.calls, ∃ i told, call = .relay i told [] ∧ told.corrupt = true := by
  have unseen {packet : Packet} {carrier : Option UInt32} :
      r.packet? .capture bs ≠ some (packet, carrier) := by
    intro found
    obtain ⟨told, frame, header, heard, -, reads, rfl⟩ := reads_of_packet? found
    exact foreign ⟨told, frame, header, _, heard, reads.parsed, carrier_of_packet? found c set _ rfl⟩
  have step := r.captured now bs
  generalize (r.capture now bs).1 = x at step ⊢
  generalize (r.capture now bs).2 = next at step ⊢
  cases step with
  | silent _ _ calls alike => exact ⟨alike.session, fun call member => by simp [calls] at member⟩
  | @damaged told _ _ corrupt alike =>
      refine ⟨alike.session, fun call member => ?_⟩
      obtain ⟨i, -, rfl⟩ := List.mem_map.mp member
      exact ⟨i, told, rfl, corrupt⟩
  | forged found | passedOn found => exact absurd found unseen

/-- A session is established by what the session sees in a buffer. -/
theorem Took.established {now : Moment} {source : Source} {outcome : Except Fault RxOutcome}
    {decodes : List Call} (h : Took r now source bs outcome decodes next) {info : SessionInfo}
    (begins : outcome = .ok (.session (.established info))) :
    ∃ packet carrier nonce, r.packet? source bs = some (packet, carrier) ∧
      packet.header = .session nonce ∧ ∀ expected ∈ carrier.or r.session.channel, info.channel = expected := by
  cases h with
  | unseen _ quiet => exact absurd begins (quiet _)
  | @seen packet carrier _ _ _ found handled =>
      cases handled with
      | @announced nonce _ header =>
          have step := r.session.announced now nonce packet.cipher carrier
          refine ⟨packet, carrier, nonce, found, header, step.channel ?_⟩
          cases result : (r.session.announce now nonce packet.cipher carrier).1 with
          | error fault =>
              rw [result] at begins
              cases begins
          | ok session =>
              rw [result] at begins
              exact congrArg Except.ok (RxOutcome.session.inj (Except.ok.inj begins))
      | @received x =>
          cases result : (r.session.receive now x r.recovery).1.outcome <;>
            simp [result, Except.map] at begins

theorem established?_eq_some {x : Reception} {info : SessionInfo} :
    x.established? = some info ↔ x.outcome = .ok (.session (.established info)) := by
  unfold Reception.established?
  split <;> simp_all

/-- Whatever a receiver has been given: if it is set to a channel, its session is one of this channel, and
a captured frame that does not carry it neither changes the session nor calls anyone, but for telling the
relays of a damaged frame.  A session that is established by a captured frame has the channel that the
header of this frame carries. -/
theorem channel_bound {settings : Settings} {keys : LinkKeys} {r : Receiver}
    (created : create settings keys = .ok r) (actions : List Action) :
    let t := (r.perform actions).2
    (∀ c, settings.channel = some c →
      (∀ info, t.session.info = some info → info.channel = c) ∧
      ∀ now bs, ¬t.Carries bs c →
        (t.take now .capture bs).2.session = t.session ∧
        ∀ call ∈ (t.take now .capture bs).1.calls,
          ∃ i told, call = .relay i told [] ∧ told.corrupt = true) ∧
    ∀ now bs info, (t.take now .capture bs).1.outcome = .ok (.session (.established info)) →
      (t.take now .capture bs).2.session.info = some info ∧
      ∃ told frame header packet nonce, t.Heard bs told frame ∧ t.Reads frame header packet ∧
        packet.header = .session nonce ∧ info.channel = header.channel := by
  intro t
  have tuned : t.Tuned settings := (tuned_create created).perform actions
  refine ⟨fun c set => ⟨fun info present => ?_, fun now bs foreign => ?_⟩, fun now bs info begins => ?_⟩
  · exact tuned.bound info present c (tuned.channel.trans set)
  · exact capture_foreign ((congrArg Settings.channel tuned.unchanged).trans set) foreign now
  · refine ⟨(t.heralds_take now .capture bs).installed info (established?_eq_some.mpr begins), ?_⟩
    obtain ⟨packet, carrier, nonce, found, session, own⟩ := (t.took now .capture bs).established begins
    obtain ⟨told, frame, header, heard, -, reads, rfl⟩ := reads_of_packet? found
    exact ⟨told, frame, header, packet, nonce, heard, reads, session, own _ rfl⟩

/-- The announcement of a session on channel 0, as it is captured. -/
def airOffer (boxKey key : Key) : Bytes :=
  AirLink.captureFrame 0 0 2412 (-40)
    (Transmitter.sealSession boxKey (Octets.fit 24 []) (Session.offerOf 1 1 key).encode) false

theorem take_airOffer (key : Key) (fresh : r.session.epoch = 0) (lost : r.session.hasKey = false)
    (windowSize : r.session.windowSize = 1) (fragmentSize : r.session.fragmentSize = 16)
    (own : ∀ expected ∈ r.settings.channel, expected = 0) :
    (r.take 0 .capture (airOffer r.session.boxKey key)).1.outcome =
      .ok (.session (.established ⟨1, 0, .vandermonde, 1, 1⟩)) := by
  have found : r.packet? .capture (airOffer r.session.boxKey key) = some (_, some 0) :=
    r.packet?_captureFrame own
      (Packet.parse_session _ (Packet.length_sealSession r.session.boxKey _ (Session.offerOf 1 1 key)))
  obtain ⟨outcome, -⟩ := (r.took 0 .capture (airOffer r.session.boxKey key)).announced found rfl
  obtain ⟨a, -, opens⟩ := @Session.announce_offerOf r.session key fresh lost windowSize fragmentSize
    (some 0) (by simp)
  rw [outcome, opens]
  rfl

/-- A frame that is captured undamaged carries the channel on which it was sent. -/
theorem carries_captureFrame (r : Receiver) (channel : UInt32) (bs : Bytes) :
    r.Carries (AirLink.captureFrame channel 0 2412 (-40) bs false) channel := by
  have sent : r.Heard (AirLink.captureFrame channel 0 2412 (-40) bs false) ⟨2412, -40, false⟩
      ((Dot11.Header.forChannel channel 0).encode ++ bs) :=
    r.heard_captureFrame channel 0 2412 (-40) bs false
  exact ⟨_, _, _, bs, sent, Dot11.parse_forChannel channel 0 bs, Dot11.Header.channel_forChannel channel 0⟩

/-- A session is established on channel 0.  A receiver that is set to this channel keeps it when a frame of
another one is captured, and one that is set to none has the channel from the header. -/
theorem channel_bound_zero :
    let key : Key := ⟨Bytes.zeros 32, rfl⟩
    let keys : LinkKeys := ⟨key, key⟩
    let settings : Settings := { windowSize := 1, fragmentSize := 16 }
    let info : SessionInfo := ⟨1, 0, .vandermonde, 1, 1⟩
    let offer := airOffer keys.boxKey key
    let foreign := AirLink.captureFrame 1 0 2412 (-40) [] false
    (∃ r, create { settings with channel := some 0 } keys = .ok r ∧
      let t := (r.take 0 .capture offer).2
      t.session.info = some info ∧ info.channel = 0 ∧ ¬t.Carries foreign 0 ∧
      (t.take 0 .capture foreign).2.session = t.session) ∧
    ∃ r, create settings keys = .ok r ∧
      (r.take 0 .capture offer).1.outcome = .ok (.session (.established info)) ∧
      ∃ told frame header packet, r.Heard offer told frame ∧ r.Reads frame header packet ∧
        info.channel = header.channel := by
  intro key keys settings info offer foreign
  refine ⟨⟨_, rfl, ?_⟩, ⟨_, rfl, ?_⟩⟩
  · let tuned : Settings := { settings with channel := some 0 }
    let r : Receiver := { settings := tuned, session := Session.create tuned keys, recovery := true }
    have begins := @take_airOffer r key rfl rfl rfl rfl (fun expected set => (Option.some.inj set).symm)
    obtain ⟨-, captured⟩ := @channel_bound tuned keys r rfl []
    obtain ⟨bound, -⟩ := @channel_bound tuned keys r rfl ([] ++ [.take 0 .capture offer])
    rw [(r.perform_take [] 0 .capture offer).2] at bound
    obtain ⟨channel, quiet⟩ := bound 0 rfl
    have installed := (captured 0 offer info begins).1
    have other : ¬(r.take 0 .capture offer).2.Carries foreign 0 :=
      fun carries => absurd (carries.unique (carries_captureFrame _ 1 [])) (by decide)
    exact ⟨installed, channel info installed, other, (quiet 0 foreign other).1⟩
  · let r : Receiver := { settings, session := Session.create settings keys, recovery := true }
    have begins := @take_airOffer r key rfl rfl rfl rfl (fun expected set => by cases set)
    obtain ⟨-, from_air⟩ := @channel_bound settings keys r rfl []
    obtain ⟨-, told, frame, header, packet, nonce, heard, reads, -, channel⟩ := from_air 0 offer info begins
    exact ⟨begins, told, frame, header, packet, heard, reads, channel⟩

end Receiver

end AirLink
