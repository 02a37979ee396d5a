import AirLink.Proofs.Forgery
import AirLink.Proofs.Occupancy
import AirLink.Proofs.Refusal

/-! # A session is there as a whole

A session with a key has an assembly and knows what was announced, and the assembly is made for the
announced code and for the settings, whatever it has been given since.  A session without a key shows
nothing of what it had.  A receiver counts the sessions that are established and tells every observer of
each of them once.
-/

namespace AirLink

namespace Assembly

open Window (Alike)

variable {a : Assembly} {k n slots size : Nat}

/-- The assembly is made for blocks of `k` and `n` fragments, and its window has so many slots, each with a
buffer of the given size for every fragment. -/
structure BuiltFor (k n slots size : Nat) (a : Assembly) : Prop where
  code : ErasureCode.create k n = .ok a.code
  capacity : a.window.capacity = slots
  fragmentSize : a.window.fragmentSize = size
  fragmentCount : a.window.fragmentCount = n
  shaped : ∀ p < slots, (a.window.slotAt p).Shaped size n

theorem builtFor_create {key : Key} (created : create key k n slots size = .ok a) :
    a.BuiltFor k n slots size := by
  obtain ⟨code, window, made, opened, rfl⟩ := create_eq_ok.mp created
  obtain ⟨regular, shaped⟩ := Window.create_regular opened
  have empty := Window.create_ok opened
  refine ⟨made, regular.capacity, empty.fragmentSize, empty.fragmentCount, fun p hp => ?_⟩
  have slot := shaped p (regular.capacity.symm ▸ hp)
  rwa [empty.fragmentSize, empty.fragmentCount] at slot

theorem BuiltFor.receive (h : a.BuiltFor k n slots size) (ready : a.Ready) (x : Arrival) (recover : Bool) :
    (a.receive x recover).2.BuiltFor k n slots size := by
  obtain ⟨ready', code, -⟩ := ready.receive x recover
  have alike := ready.receive_alike x recover
  have capacity := alike.capacity.trans h.capacity
  have fragmentSize := alike.fragmentSize.trans h.fragmentSize
  have fragmentCount := alike.fragmentCount.trans h.fragmentCount
  refine ⟨code ▸ h.code, capacity, fragmentSize, fragmentCount, fun p hp => ?_⟩
  have slot := ready'.shaped p (capacity.symm ▸ hp)
  rwa [fragmentSize, fragmentCount] at slot

end Assembly

namespace Session

variable {s next : Session} {settings : Settings} {keys : LinkKeys}

/-- What a session with a key shows: the announcement of its present epoch, with a legal code, and an
assembly that is made for this code and the settings. -/
structure Keyed (settings : Settings) (s : Session) (told : SessionInfo) (a : Assembly) : Prop where
  assembly : s.assembly = some a
  info : s.info = some told
  codeSize : s.codeSize = some (told.k, told.n)
  epoch : told.epoch = s.epoch
  pos : 1 ≤ told.k
  le : told.k ≤ told.n
  built : a.BuiltFor told.k told.n settings.windowSize settings.fragmentSize

structure Coherent (settings : Settings) (s : Session) : Prop where
  keyed : s.hasKey = true → ∃ info a, s.Keyed settings info a
  keyless : s.hasKey = false → s.info = none ∧ s.codeSize = none ∧ s.assembly = none

theorem info_of_lost (lost : s.hasKey = false) : s.info = none := by
  simp [info, lost]

theorem coherent_of_keyed (keyed : s.hasKey = true → ∃ info a, s.Keyed settings info a) :
    s.Coherent settings where
  keyed := keyed
  keyless lost := ⟨info_of_lost lost, by rw [codeSize, info_of_lost lost]; rfl, assembly_of_lost lost⟩

theorem coherent_create (settings : Settings) (keys : LinkKeys) : (create settings keys).Coherent settings :=
  coherent_of_keyed fun key => by cases key

/-- A session with the epoch and the announcement of a keyed one is keyed, with its own assembly. -/
theorem Keyed.keep {told : SessionInfo} {a b : Assembly} (h : s.Keyed settings told a)
    (hasKey : next.hasKey = true) (epoch : next.epoch = s.epoch) (lastInfo : next.lastInfo = s.lastInfo)
    (present : next.lastAssembly = some b)
    (built : b.BuiltFor told.k told.n settings.windowSize settings.fragmentSize) :
    next.Keyed settings told b := by
  have lastTold : s.lastInfo = some told := (Option.filter_eq_some_iff.mp h.info).1
  have shown : next.info = some told := Option.filter_eq_some_iff.mpr ⟨lastInfo.trans lastTold, hasKey⟩
  exact ⟨assembly_eq_some.mpr ⟨present, hasKey⟩, shown, congrArg (Option.map _) shown,
    h.epoch.trans epoch.symm, h.pos, h.le, built⟩

theorem Announced.info {now : Moment} {nonce : Octets 24} {cipher : Bytes} {carrier : Option UInt32}
    {outcome : Except Fault SessionOutcome} (h : Announced s now nonce cipher carrier outcome next)
    {told : SessionInfo} (begins : outcome = .ok (.established told)) : next.info = some told := by
  cases h with
  | unread | stale | repeated | failed => cases begins
  | established =>
      obtain rfl := SessionOutcome.established.inj (Except.ok.inj begins)
      rfl

theorem Announced.coherent {now : Moment} {nonce : Octets 24} {cipher : Bytes} {carrier : Option UInt32}
    {outcome : Except Fault SessionOutcome} (h : Announced s now nonce cipher carrier outcome next)
    (alike : Alike s (create settings keys)) (coherent : s.Coherent settings) :
    next.Coherent settings := by
  cases h with
  | unread | stale => exact coherent
  | repeated =>
      refine coherent_of_keyed fun key => ?_
      obtain ⟨info, a, keyed⟩ := coherent.keyed key
      exact ⟨info, a, keyed.keep key rfl rfl (assembly_eq_some.mp keyed.assembly).1 keyed.built⟩
  | failed => exact coherent_of_keyed fun key => by cases key
  | established _ _ _ fit =>
      obtain ⟨-, legal, created, scheme, -, rfl⟩ := prepare_eq_ok.mp fit
      rw [alike.windowSize, alike.fragmentSize] at created
      exact coherent_of_keyed fun _ =>
        ⟨_, _, rfl, rfl, rfl, rfl, legal.1, legal.2, Assembly.builtFor_create created⟩

theorem Received.coherent {now : Moment} {x : Arrival} {recover : Bool} {report : Report}
    (h : Received s now x recover report next) (ready : s.Ready) (coherent : s.Coherent settings) :
    next.Coherent settings := by
  -- Only the window of the assembly changes, and not its measures.
  have kept {a : Assembly} (present : s.assembly = some a) :
      ∃ info, s.Keyed settings info a ∧ (a.receive x recover).2.BuiltFor info.k info.n
        settings.windowSize settings.fragmentSize := by
    obtain ⟨info, b, keyed⟩ := coherent.keyed (assembly_eq_some.mp present).2
    obtain rfl := Option.some.inj (present.symm.trans keyed.assembly)
    exact ⟨info, keyed, keyed.built.receive (ready a (assembly_eq_some.mp present).1) x recover⟩
  cases h with
  | idle => exact coherent
  | forged => exact coherent_of_keyed fun key => by cases key
  | refused present | taken present =>
      obtain ⟨info, keyed, built⟩ := kept present
      exact coherent_of_keyed fun key => ⟨info, _, keyed.keep key rfl rfl rfl built⟩

theorem Coherent.step (coherent : s.Coherent settings) (ready : s.Ready)
    (alike : Alike s (create settings keys)) (input : Input) : (s.step input).2.Coherent settings := by
  cases input with
  | announcement => exact (announced ..).coherent alike coherent
  | data => exact (received ..).coherent ready coherent

theorem Coherent.run (coherent : s.Coherent settings) (ready : s.Ready)
    (alike : Alike s (create settings keys)) (inputs : List Input) :
    (s.run inputs).2.Coherent settings := by
  induction inputs generalizing s with
  | nil => exact coherent
  | cons input inputs ih =>
      exact ih (coherent.step ready alike input) (ready.step input) ((alike_step s input).trans alike)

theorem Reached.coherent (reached : Reached settings keys s) : s.Coherent settings := by
  obtain ⟨inputs, rfl⟩ := reached
  have ready : (create settings keys).Ready := fun a present => by cases present
  exact (coherent_create settings keys).run ready (.refl _) inputs

theorem run_append (s : Session) (before after : List Input) :
    (s.run (before ++ after)).2 = ((s.run before).2.run after).2 := by
  induction before generalizing s with
  | nil => rfl
  | cons input before ih => exact ih _

end Session

def Call.isObserve : Call → Bool
  | observe .. => true
  | _ => false

/-- The session that was established with a buffer. -/
def Reception.established? (x : Reception) : Option SessionInfo :=
  match x.outcome with
  | .ok (.session (.established info)) => some info
  | _ => none

namespace Receiver

variable {r t : Receiver} {settings : Settings} {keys : LinkKeys}

/-! ## The session of a receiver -/

theorem Handled.session_run {now : Moment} {packet : Packet} {carrier : Option UInt32}
    {outcome : Except Fault RxOutcome} {decodes : List Call} {next : Receiver}
    (h : Handled r now packet carrier outcome decodes next) :
    ∃ input, next.session = (r.session.step input).2 := by
  cases h with
  | @announced nonce _ _ alike =>
      exact ⟨.announcement now nonce packet.cipher carrier, alike.session⟩
  | @received x _ _ alike => exact ⟨.data now x r.recovery, alike.session⟩

/-- With a buffer, the session is given one packet or nothing. -/
theorem session_act (r : Receiver) (action : Action) :
    ∃ inputs, (r.act action).2.session = (r.session.run inputs).2 := by
  cases action with
  | attach consumer => exact ⟨[], r.session_attach consumer⟩
  | setRecovery on => exact ⟨[], rfl⟩
  | take now source bs =>
      have took := r.took now source bs
      generalize (r.take now source bs).1.calls.filter Call.isDecode = decodes at took
      cases took with
      | unseen _ _ alike => exact ⟨[], alike.session⟩
      | seen _ handled =>
          obtain ⟨input, session⟩ := handled.session_run
          exact ⟨[input], session⟩

theorem session_perform (r : Receiver) (actions : List Action) :
    ∃ inputs, (r.perform actions).2.session = (r.session.run inputs).2 := by
  induction actions generalizing r with
  | nil => exact ⟨[], rfl⟩
  | cons action actions ih =>
      obtain ⟨first, here⟩ := r.session_act action
      obtain ⟨rest, later⟩ := ih (r.act action).2
      rw [here, ← Session.run_append] at later
      exact ⟨first ++ rest, later⟩

theorem reached_perform (created : create settings keys = .ok r) (actions : List Action) :
    Session.Reached settings keys (r.perform actions).2.session := by
  obtain ⟨inputs, session⟩ := r.session_perform actions
  rw [create_eq_ok created] at session ⊢
  exact ⟨inputs, session⟩

/-! ## What observers are told -/

/-- Of a result of handling a buffer: an established session is counted, installed and told to every
observer, and nothing else is. -/
structure Heralds (r : Receiver) (result : Reception × Receiver) : Prop where
  sessions : result.2.counters.sessions = r.counters.sessions + result.1.established?.toList.length
  notified : result.1.calls.filter Call.isObserve = result.1.established?.toList.flatMap r.observeCalls
  installed : ∀ info, result.1.established? = some info → result.2.session.info = some info

theorem heralds_quiet {result : Reception × Receiver} (none : result.1.established? = none)
    (silent : result.1.calls.filter Call.isObserve = [])
    (same : result.2.counters.sessions = r.counters.sessions) : Heralds r result where
  sessions := by rw [none, same]; rfl
  notified := by rw [none, silent]; rfl
  installed info some := by cases none.symm.trans some

theorem heralds_refuse (r : Receiver) (fault : Fault) {f : Counters → Counters}
    (same : ∀ c, (f c).sessions = c.sessions) : Heralds r (r.refuse fault f) :=
  heralds_quiet rfl rfl (same _)

/-- Other counters make no difference. -/
theorem Heralds.count {result : Reception × Receiver} {f : Counters → Counters}
    (h : Heralds (r.count f) result) (same : ∀ c, (f c).sessions = c.sessions) : Heralds r result :=
  ⟨h.sessions.trans (congrArg (· + _) (same _)), h.notified, h.installed⟩

theorem filter_observe_relayCalls (r : Receiver) (info : FrameInfo) (bs : Bytes) :
    (r.relayCalls info bs).filter Call.isObserve = [] := by
  simp [relayCalls, Call.isObserve]

theorem filter_observe_observeCalls (r : Receiver) (info : SessionInfo) :
    (r.observeCalls info).filter Call.isObserve = r.observeCalls info := by
  simp [observeCalls, Call.isObserve]

theorem filter_observe_decodeCalls (r : Receiver) (deliveries : List Delivery) :
    (deliveries.flatMap fun d => r.decodeCalls d.payload).filter Call.isObserve = [] := by
  simp [List.filter_flatMap, decodeCalls, Call.isObserve]

theorem established?_of_map {α : Type} {outcome : Except Fault α} {f : α → RxOutcome} {calls : List Call}
    {gaps : List Gap} (other : ∀ x session, f x ≠ .session session) :
    Reception.established? { outcome := outcome.map f, calls, gaps } = none := by
  cases outcome with
  | error fault => rfl
  | ok x =>
      unfold Reception.established?
      split
      next info same => exact absurd (Except.ok.inj same) (other x _)
      next => rfl

theorem heralds_announce (r : Receiver) (now : Moment) (nonce : Octets 24) (cipher : Bytes)
    (carrier : Option UInt32) : Heralds r (r.announce now nonce cipher carrier) := by
  have step := r.session.announced now nonce cipher carrier
  simp only [announce]
  cases outcome : (r.session.announce now nonce cipher carrier).1 with
  | error fault => exact heralds_quiet rfl rfl rfl
  | ok result =>
      cases result with
      | unchanged => exact heralds_quiet rfl rfl rfl
      | established info =>
          refine ⟨rfl, ?_, fun told same => ?_⟩
          · exact (filter_observe_observeCalls ..).trans (List.flatMap_singleton ..).symm
          · obtain rfl := Option.some.inj same
            exact step.info outcome

theorem heralds_receive (r : Receiver) (now : Moment) (x : Arrival) : Heralds r (r.receive now x) :=
  heralds_quiet (established?_of_map nofun) (filter_observe_decodeCalls ..) rfl

theorem heralds_handle (r : Receiver) (now : Moment) (packet : Packet) (carrier : Option UInt32) :
    Heralds r (r.handle now packet carrier) := by
  unfold handle
  cases packet.header with
  | session nonce => exact r.heralds_announce ..
  | data nonce block fragment => exact r.heralds_receive ..

/-- Passing the frame on adds calls of relays only. -/
theorem Heralds.passOn {result : Reception × Receiver} (h : Heralds r result) (info : FrameInfo) (bs : Bytes) :
    Heralds r ({ result.1 with calls := result.1.calls ++ (result.2.passOn info bs).1 },
      (result.2.passOn info bs).2) := by
  have others : (result.2.passOn info bs).2.counters.sessions = result.2.counters.sessions ∧
      (result.2.passOn info bs).2.session = result.2.session := by
    unfold Receiver.passOn
    split <;> exact ⟨rfl, rfl⟩
  refine ⟨others.1.trans h.sessions, ?_, fun told same => ?_⟩
  · rw [List.filter_append]
    exact (congrArg₂ (· ++ ·) h.notified (filter_observe_relayCalls ..)).trans (List.append_nil _)
  · rw [others.2]
    exact h.installed told same

theorem heralds_handleCaptured (r : Receiver) (now : Moment) (info : FrameInfo) (bs : Bytes) (packet : Packet)
    (carrier : UInt32) : Heralds r (r.handleCaptured now info bs packet carrier) := by
  let t := r.count fun c => { c with captured := c.captured + 1 }
  have handled : Heralds r (t.handle now packet (some carrier)) := (heralds_handle ..).count fun _ => rfl
  unfold handleCaptured
  simp only
  split
  · exact handled
  · exact handled.passOn info bs

theorem heralds_captureFrame (r : Receiver) (now : Moment) (info : FrameInfo) (frame : Bytes) :
    Heralds r (r.captureFrame now info frame) := by
  unfold captureFrame
  split
  · exact heralds_refuse _ _ fun _ => rfl
  split
  · exact heralds_quiet rfl rfl rfl
  split
  · exact heralds_refuse _ _ fun _ => rfl
  · exact r.heralds_handleCaptured ..

theorem heralds_capture (r : Receiver) (now : Moment) (bs : Bytes) : Heralds r (r.capture now bs) := by
  unfold capture
  split
  · exact heralds_refuse _ _ fun _ => rfl
  simp only
  split
  · exact heralds_refuse _ _ fun _ => rfl
  split
  · let t := r.count fun c => { c with badChecksums := c.badChecksums + 1 }
    have nothing : Heralds r ({ outcome := .ok .corrupt }, t) := heralds_quiet rfl rfl rfl
    exact nothing.passOn _ []
  · exact r.heralds_captureFrame ..

theorem heralds_relay (r : Receiver) (now : Moment) (bs : Bytes) : Heralds r (r.relay now bs) := by
  unfold relay
  split
  · exact heralds_refuse _ _ fun _ => rfl
  split
  · exact heralds_quiet rfl rfl rfl
  split
  · exact heralds_refuse _ _ fun _ => rfl
  · exact (heralds_handle ..).count fun _ => rfl

theorem heralds_take (r : Receiver) (now : Moment) (source : Source) (bs : Bytes) :
    Heralds r (r.take now source bs) := by
  cases source with
  | capture => exact r.heralds_capture now bs
  | relay => exact r.heralds_relay now bs

theorem attach_frame (r : Receiver) (consumer : Consumer) :
    ((r.attach consumer).toOption.getD r).settings = r.settings ∧
      ((r.attach consumer).toOption.getD r).counters = r.counters := by
  cases consumer <;> simp only [attach] <;> split <;> exact ⟨rfl, rfl⟩

theorem sessions_act (r : Receiver) (action : Action) :
    (r.act action).2.counters.sessions =
      r.counters.sessions + ((r.reception? action).toList.filterMap Reception.established?).length := by
  cases action with
  | attach consumer => exact congrArg Counters.sessions (r.attach_frame consumer).2
  | setRecovery on => rfl
  | take now source bs =>
      refine (r.heralds_take now source bs).sessions.trans ?_
      rw [reception?, Option.toList_some, List.filterMap_cons, List.filterMap_nil]
      cases (r.take now source bs).1.established? <;> rfl

theorem sessions_perform (r : Receiver) (actions : List Action) :
    (r.perform actions).2.counters.sessions =
      r.counters.sessions + ((r.perform actions).1.filterMap Reception.established?).length := by
  induction actions generalizing r with
  | nil => rfl
  | cons action actions ih =>
      rw [perform, ih, sessions_act, List.filterMap_append, List.length_append, Nat.add_assoc]

theorem perform_take (r : Receiver) (before : List Action) (now : Moment) (source : Source) (bs : Bytes) :
    (r.perform (before ++ [.take now source bs])).1 =
        (r.perform before).1 ++ [((r.perform before).2.take now source bs).1] ∧
      (r.perform (before ++ [.take now source bs])).2 = ((r.perform before).2.take now source bs).2 := by
  rw [perform_append]
  exact ⟨rfl, rfl⟩

/-- In every state that can be reached, a session with a key has an assembly that is made for what was
announced under its epoch and for the settings, and a session without a key shows nothing.  A receiver has
counted as many sessions as were established in its run, and whatever it takes then, each of its observers
is called once for a session that is established, which is the one that is then installed, and not
otherwise. -/
theorem sessions_coherent (settings : Settings) (keys : LinkKeys) :
    (∀ s, Session.Reached settings keys s → s.Coherent settings) ∧
    ∀ r, create settings keys = .ok r → ∀ actions,
      let t := (r.perform actions).2
      t.session.Coherent settings ∧
      t.counters.sessions = ((r.perform actions).1.filterMap Reception.established?).length ∧
      ∀ now source bs,
        let result := t.take now source bs
        result.1.calls.filter Call.isObserve =
          result.1.established?.toList.flatMap (fun info => (List.range t.observers).map (.observe · info)) ∧
        ∀ info, result.1.established? = some info → result.2.session.info = some info := by
  refine ⟨fun s reached => reached.coherent, fun r created actions => ?_⟩
  intro t
  have start : r.counters.sessions = 0 := by rw [create_eq_ok created]
  have counted := r.sessions_perform actions
  rw [start, Nat.zero_add] at counted
  refine ⟨(reached_perform created actions).coherent, counted, fun now source bs => ?_⟩
  have heralds := t.heralds_take now source bs
  exact ⟨heralds.notified, heralds.installed⟩

/-- The announcement of a session with blocks of one fragment, as it comes over the wire. -/
def wireOffer (boxKey key : Key) : Bytes :=
  Relay.datagram ⟨0, 0, false⟩
    (Transmitter.sealSession boxKey (Octets.fit 24 []) (Session.offerOf 1 1 key).encode)

theorem take_wireOffer (key : Key) (fresh : r.session.epoch = 0) (lost : r.session.hasKey = false)
    (windowSize : r.session.windowSize = 1) (fragmentSize : r.session.fragmentSize = 16)
    (own : ∀ expected ∈ r.session.channel, expected = 0) :
    (r.take 0 .relay (wireOffer r.session.boxKey key)).1.established? = some ⟨1, 0, .vandermonde, 1, 1⟩ ∧
      (r.take 0 .relay (wireOffer r.session.boxKey key)).2.session.hasKey = true := by
  have found : r.packet? .relay (wireOffer r.session.boxKey key) = some (_, none) :=
    r.packet?_datagram (show FrameInfo.corrupt ⟨0, 0, false⟩ = false from rfl)
      (Packet.parse_session _ (Packet.length_sealSession r.session.boxKey _ (Session.offerOf 1 1 key)))
  obtain ⟨outcome, alike⟩ :=
    (r.took 0 .relay (wireOffer r.session.boxKey key)).announced found rfl
  obtain ⟨a, -, opens⟩ :=
    @Session.announce_offerOf r.session key fresh lost windowSize fragmentSize none own
  have session := alike.session
  rw [opens] at outcome session
  refine ⟨?_, congrArg Session.hasKey session⟩
  unfold Reception.established?
  rw [outcome]
  rfl

/-- An observer is told of the session that is announced over the wire. -/
theorem sessions_coherent_observed :
    let key : Key := ⟨Bytes.zeros 32, rfl⟩
    let settings : Settings := { windowSize := 1, fragmentSize := 16 }
    let info : SessionInfo := ⟨1, 0, .vandermonde, 1, 1⟩
    ∃ r, create settings ⟨key, key⟩ = .ok r ∧
      let t := (r.perform [.attach .observer]).2
      let result := t.take 0 .relay (wireOffer t.session.boxKey key)
      result.1.calls.filter Call.isObserve = [.observe 0 info] ∧ result.2.counters.sessions = 1 ∧
      ∃ a, result.2.session.Keyed settings info a := by
  intro key settings info
  refine ⟨_, rfl, ?_⟩
  let r : Receiver := { settings, session := Session.create settings ⟨key, key⟩, recovery := true }
  let t := (r.perform [.attach .observer]).2
  let offer := wireOffer t.session.boxKey key
  have any : t.session.channel = none := rfl
  obtain ⟨established, hasKey⟩ := @take_wireOffer t key rfl rfl rfl rfl (by simp [any])
  obtain ⟨-, -, told⟩ := (sessions_coherent settings ⟨key, key⟩).2 r rfl [.attach .observer]
  obtain ⟨calls, installed⟩ := told 0 .relay offer
  obtain ⟨coherent, counted, -⟩ := (sessions_coherent settings ⟨key, key⟩).2 r rfl
    ([.attach .observer] ++ [.take 0 .relay offer])
  obtain ⟨receptions, final⟩ := perform_take r [.attach .observer] 0 .relay offer
  rw [final] at coherent counted
  rw [receptions] at counted
  obtain ⟨other, a, keyed⟩ := coherent.keyed hasKey
  obtain rfl := Option.some.inj ((installed info established).symm.trans keyed.info)
  rw [established] at calls
  rw [List.filterMap_append, List.filterMap_cons, established] at counted
  exact ⟨calls, counted, a, keyed⟩

end Receiver

end AirLink
