import AirLink.Proofs.Lifetime

/-! # All or nothing

An announcement leaves the session as it was, or with another time of authentication, or makes it all
new, or leaves none.  No way of failing comes to rest in between: whatever a session has at any time, it
has from one and the same announcement.
-/

namespace AirLink

namespace Assembly

variable {a : Assembly} {key : Key} {k n slots size : Nat}

/-- A new assembly has passed nothing on, and its window fits into the memory. -/
theorem create_shape (created : create key k n slots size = .ok a) :
    a.lastSequence = none ∧ size * n * slots ≤ Limits.memory := by
  obtain ⟨code, window, -, opened, rfl⟩ := create_eq_ok.mp created
  refine ⟨rfl, ?_⟩
  unfold Window.create at opened
  split_ifs at opened with none large
  exact Nat.le_of_not_lt large

theorem receive_fixed (a : Assembly) (x : Arrival) (recover : Bool) :
    (a.receive x recover).2.code = a.code ∧ (a.receive x recover).2.key = a.key := by
  unfold receive
  cases a.authenticate x with
  | error fault => exact ⟨rfl, rfl⟩
  | ok plain => exact accept_frame a x.block x.fragment plain recover

end Assembly

namespace Session

variable {s : Session}

/-- The announcement cannot be read. -/
inductive Unreadable (s : Session) (nonce : Octets 24) (cipher : Bytes) : Fault → Prop where
  | short (short : cipher.length < Limits.sessionCipher) :
      Unreadable s nonce cipher (.truncated .sessionCipher Limits.sessionCipher cipher.length)
  | closed {cause : CipherFault} (long : Limits.sessionCipher ≤ cipher.length)
      (closed : Cipher.SealedBox.decrypt s.boxKey nonce cipher = .error cause) :
      Unreadable s nonce cipher (.cipher cause)
  | garbled {plain : Bytes} {fault : Fault} (long : Limits.sessionCipher ≤ cipher.length)
      (opened : Cipher.SealedBox.decrypt s.boxKey nonce cipher = .ok plain)
      (garbled : SessionOffer.decode plain = .error fault) : Unreadable s nonce cipher fault

theorem readOffer_eq_error {nonce : Octets 24} {cipher : Bytes} {fault : Fault} :
    s.readOffer nonce cipher = .error fault ↔ s.Unreadable nonce cipher fault := by
  unfold readOffer
  by_cases short : cipher.length < Limits.sessionCipher
  · rw [if_pos short]
    constructor
    · intro error
      exact Except.error.inj error ▸ .short short
    · intro unreadable
      cases unreadable with
      | short => rfl
      | closed long | garbled long => omega
  · rw [if_neg short]
    cases opened : Cipher.SealedBox.decrypt s.boxKey nonce cipher with
    | error cause =>
        constructor
        · intro error
          exact Except.error.inj error ▸ .closed (Nat.le_of_not_lt short) opened
        · intro unreadable
          cases unreadable with
          | short less => omega
          | closed _ closed =>
              rw [opened, Except.error.injEq] at closed
              rw [closed]
              rfl
          | garbled _ other => cases opened.symm.trans other
    | ok plain =>
        constructor
        · exact fun error => .garbled (Nat.le_of_not_lt short) opened error
        · intro unreadable
          cases unreadable with
          | short less => omega
          | closed _ closed => cases opened.symm.trans closed
          | garbled _ other garbled =>
              obtain rfl := Except.ok.inj (opened.symm.trans other)
              exact garbled

/-- Why an announcement that has been read and is neither stale nor a repetition is rejected. -/
inductive Rejection (s : Session) (offer : SessionOffer) (carrier : Option UInt32) : Fault → Prop where
  | channel {expected : UInt32} (known : carrier.or s.channel = some expected)
      (other : expected ≠ offer.channel) :
      Rejection s offer carrier (.channelMismatch expected offer.channel)
  | scheme (other : offer.scheme ≠ CodeScheme.vandermonde.code) :
      Rejection s offer carrier (.unsupportedScheme offer.scheme)
  | size (unfit : offer.k.toNat < 1 ∨ offer.n.toNat < offer.k.toNat) :
      Rejection s offer carrier (.invalidCodeSize offer.k.toNat offer.n.toNat)
  | memory (large : Limits.memory < s.fragmentSize * offer.n.toNat * s.windowSize) :
      Rejection s offer carrier (.exhausted .window)

/-- With room for one fragment at least, a legal announcement can only be too large. -/
theorem create_eq_error {key : Key} {k n slots size : Nat} (hk : 1 ≤ k) (hkn : k ≤ n) (hn : n ≤ 255)
    (hslots : 1 ≤ slots) (hsize : 1 ≤ size) {fault : Fault}
    (failed : Assembly.create key k n slots size = .error fault) :
    fault = .exhausted .window ∧ Limits.memory < size * n * slots := by
  by_cases large : Limits.memory < size * n * slots
  · refine ⟨?_, large⟩
    obtain ⟨code, made, -⟩ := ErasureCode.create_ok hk hkn hn
    have some : ¬(slots = 0 ∨ size = 0 ∨ n = 0) := by omega
    unfold Assembly.create at failed
    simp only [made, Window.create, if_neg some, if_pos large, bind, Except.bind] at failed
    exact (Except.error.inj failed).symm
  · obtain ⟨a, created⟩ := Assembly.create_succeeds key hk hkn hn hslots hsize (Nat.le_of_not_lt large)
    cases created.symm.trans failed

theorem checked_error {α : Type} {expected : Option UInt32} {channel : UInt32} {settle : Except Fault α}
    {fault : Fault}
    (failed : (match expected with
      | some value =>
          if value ≠ channel then Except.error (Fault.channelMismatch value channel) else settle
      | _ => settle) = .error fault) :
    (∃ value, expected = some value ∧ value ≠ channel ∧ fault = .channelMismatch value channel) ∨
      settle = .error fault := by
  cases expected with
  | none => exact .inr failed
  | some value =>
      by_cases same : value = channel
      · exact .inr (by simpa [same] using failed)
      · simp only [ne_eq, same, not_false_eq_true, if_true, Except.error.injEq] at failed
        exact .inl ⟨value, rfl, same, failed.symm⟩

theorem rejection {offer : SessionOffer} {carrier : Option UInt32} {fault : Fault}
    (slots : 1 ≤ s.windowSize) (room : 1 ≤ s.fragmentSize)
    (failed : s.prepare offer carrier = .error fault) : s.Rejection offer carrier fault := by
  unfold prepare at failed
  simp only [bind, Except.bind, pure, Except.pure, throw, throwThe, MonadExceptOf.throw] at failed
  rcases checked_error failed with ⟨expected, known, other, rfl⟩ | failed
  · exact .channel known other
  by_cases scheme : offer.scheme = CodeScheme.vandermonde.code
  · have found : CodeScheme.ofCode offer.scheme = .ok .vandermonde := by rw [scheme]; rfl
    simp only [found] at failed
    by_cases unfit : offer.k.toNat < 1 ∨ offer.n.toNat < offer.k.toNat
    · rw [if_pos unfit] at failed
      exact Except.error.inj failed ▸ .size unfit
    · rw [if_neg unfit] at failed
      cases made : Assembly.create offer.key offer.k.toNat offer.n.toNat s.windowSize s.fragmentSize with
      | ok a => simp [made] at failed
      | error cause =>
          simp only [made, Except.error.injEq] at failed
          subst failed
          obtain ⟨rfl, large⟩ := create_eq_error (by omega) (by omega)
            (Nat.le_of_lt_succ offer.n.toNat_lt) slots room made
          exact .memory large
  · have unknown : CodeScheme.ofCode offer.scheme = .error (.unsupportedScheme offer.scheme) :=
      if_neg scheme
    simp only [unknown, Except.error.injEq] at failed
    exact failed ▸ .scheme scheme

/-- A legal announcement of the right channel with few enough fragments is not rejected. -/
theorem not_rejection {offer : SessionOffer} {carrier : Option UInt32} {info : SessionInfo} {a : Assembly}
    (fit : s.prepare offer carrier = .ok (info, a)) (fault : Fault) : ¬s.Rejection offer carrier fault := by
  obtain ⟨channel, size, created, scheme, found, -⟩ := prepare_eq_ok.mp fit
  intro rejection
  cases rejection with
  | channel known other => exact other (channel _ known)
  | scheme other => cases found.symm.trans (if_neg other)
  | size unfit => omega
  | memory large => exact Nat.not_lt.mpr ((Assembly.create_shape created).2) large

/-- What is told of a session is what its announcement says. -/
structure Describes (info : SessionInfo) (offer : SessionOffer) : Prop where
  epoch : info.epoch = offer.epoch.toNat
  channel : info.channel = offer.channel
  scheme : CodeScheme.ofCode offer.scheme = .ok info.scheme
  k : info.k = offer.k.toNat
  n : info.n = offer.n.toNat

/-- The assembly is a new one for an announced session. -/
structure MadeFor (settings : Settings) (offer : SessionOffer) (a : Assembly) : Prop where
  created : Assembly.create offer.key offer.k.toNat offer.n.toNat settings.windowSize
    settings.fragmentSize = .ok a
  key : a.key = offer.key
  k : a.code.k = offer.k.toNat
  n : a.code.n = offer.n.toNat
  live : a.window.live = []
  last : a.window.last = none
  lastSequence : a.lastSequence = none

theorem madeFor {settings : Settings} {offer : SessionOffer} {a : Assembly}
    (created : Assembly.create offer.key offer.k.toNat offer.n.toNat settings.windowSize
      settings.fragmentSize = .ok a) : MadeFor settings offer a := by
  obtain ⟨-, live, last, -, key, k, n⟩ := Assembly.create_ready created
  exact ⟨created, key, k, n, live, last, (Assembly.create_shape created).1⟩

/-- The packet is an announcement, and this is what the session reads in it. -/
inductive Announces (s : Session) : Input → SessionOffer → Prop where
  | read {now : Moment} {nonce : Octets 24} {cipher : Bytes} {carrier : Option UInt32} {offer : SessionOffer}
      (read : s.readOffer nonce cipher = .ok offer) :
      Announces s (.announcement now nonce cipher carrier) offer

/-- The session has everything from one of the announcements that it has been given: its epoch, what is
told of it, and the key and the code of its assembly. -/
structure Whole (inputs : List Input) (s : Session) : Prop where
  present : s.hasKey = true → ∃ a, s.lastAssembly = some a
  origin : ∀ a, s.lastAssembly = some a → ∃ input ∈ inputs, ∃ offer info, s.Announces input offer ∧
    s.epoch = offer.epoch.toNat ∧ s.lastInfo = some info ∧ Describes info offer ∧
    a.key = offer.key ∧ a.code.k = offer.k.toNat ∧ a.code.n = offer.n.toNat

theorem whole_create (settings : Settings) (keys : LinkKeys) : (create settings keys).Whole [] where
  present := by
    intro key
    cases key
  origin := by
    intro a present
    cases present

variable {inputs : List Input}

theorem readOffer_congr {t : Session} (same : t.boxKey = s.boxKey) (nonce : Octets 24) (cipher : Bytes) :
    t.readOffer nonce cipher = s.readOffer nonce cipher := by
  rw [readOffer, readOffer, same]

theorem Announces.congr {t : Session} {input : Input} {offer : SessionOffer} (h : s.Announces input offer)
    (same : t.boxKey = s.boxKey) : t.Announces input offer := by
  cases h with
  | read read => exact .read ((readOffer_congr same ..).trans read)

/-- A packet that keeps the epoch and what is told of the session keeps it whole, whatever is in the
window of the assembly. -/
theorem Whole.keep {t : Session} (h : s.Whole inputs) (input : Input) (boxKey : t.boxKey = s.boxKey)
    (epoch : t.epoch = s.epoch) (info : t.lastInfo = s.lastInfo)
    (present : t.hasKey = true → ∃ a, t.lastAssembly = some a)
    (kept : ∀ a, t.lastAssembly = some a →
      ∃ b, s.lastAssembly = some b ∧ a.key = b.key ∧ a.code = b.code) : t.Whole (inputs ++ [input]) where
  present := present
  origin := by
    intro a here
    obtain ⟨b, before, key, code⟩ := kept a here
    obtain ⟨source, member, offer, told, announces, sameEpoch, known, describes, sameKey, k, n⟩ :=
      h.origin b before
    rw [key, code, epoch, info]
    exact ⟨source, List.mem_append_left _ member, offer, told, announces.congr boxKey, sameEpoch, known,
      describes, sameKey, k, n⟩

theorem Announced.whole {now : Moment} {nonce : Octets 24} {cipher : Bytes} {carrier : Option UInt32}
    {outcome : Except Fault SessionOutcome} {next : Session}
    (h : Announced s now nonce cipher carrier outcome next) (whole : s.Whole inputs) :
    next.Whole (inputs ++ [.announcement now nonce cipher carrier]) := by
  cases h with
  | unread | stale | repeated =>
      exact whole.keep _ rfl rfl rfl whole.present fun a here => ⟨a, here, rfl, rfl⟩
  | failed =>
      refine whole.keep _ rfl rfl rfl (fun key => ?_) (fun a here => ?_)
      · cases key
      · cases here
  | @established offer info a read _ _ fit =>
      obtain ⟨-, -, created, scheme, found, rfl⟩ := prepare_eq_ok.mp fit
      obtain ⟨-, -, -, -, key, k, n⟩ := Assembly.create_ready created
      refine ⟨fun _ => ⟨a, rfl⟩, fun b here => ?_⟩
      obtain rfl := Option.some.inj here
      exact ⟨_, List.mem_append_right _ (List.mem_singleton_self _), offer, _, .read read, rfl, rfl,
        ⟨rfl, rfl, found, rfl, rfl⟩, key, k, n⟩

theorem Received.whole {now : Moment} {x : Arrival} {recover : Bool} {report : Report} {next : Session}
    (h : Received s now x recover report next) (whole : s.Whole inputs) :
    next.Whole (inputs ++ [.data now x recover]) := by
  cases h with
  | idle => exact whole.keep _ rfl rfl rfl whole.present fun a here => ⟨a, here, rfl, rfl⟩
  | @forged a _ present | @refused a _ present | @taken a _ present =>
      obtain ⟨code, key⟩ := a.receive_fixed x recover
      refine whole.keep _ rfl rfl rfl (fun _ => ⟨_, rfl⟩) (fun b here => ?_)
      obtain rfl := Option.some.inj here
      exact ⟨a, (assembly_eq_some.mp present).1, key, code⟩

theorem Whole.step (h : s.Whole inputs) (input : Input) : (s.step input).2.Whole (inputs ++ [input]) := by
  cases input with
  | announcement => exact (announced ..).whole h
  | data => exact (received ..).whole h

theorem Whole.run (h : s.Whole inputs) (more : List Input) : (s.run more).2.Whole (inputs ++ more) := by
  induction more generalizing s inputs with
  | nil => simpa [Session.run] using h
  | cons input more ih =>
      have rest := ih (h.step input)
      rwa [List.append_assoc] at rest

theorem whole_run (settings : Settings) (keys : LinkKeys) (inputs : List Input) :
    ((create settings keys).run inputs).2.Whole inputs :=
  (whole_create settings keys).run inputs

theorem sizes_of_valid {settings : Settings} (valid : settings.validate = .ok ()) :
    1 ≤ settings.windowSize ∧ 1 ≤ settings.fragmentSize := by
  unfold Settings.validate at valid
  by_cases window : settings.windowSize = 0
  · cases (if_pos window).symm.trans valid
  rw [if_neg window] at valid
  by_cases size : settings.fragmentSize < Limits.fragmentHeader ∨ Limits.fragment < settings.fragmentSize
  · cases (if_pos size).symm.trans valid
  · rw [not_or, Limits.fragmentHeader] at size
    omega

/-- What becomes of an announcement that has been read and is neither stale nor a repetition: the session
is all new, or there is none. -/
theorem establish_atomic {settings : Settings} {keys : LinkKeys} (alike : Alike s (create settings keys))
    (valid : settings.validate = .ok ()) (now : Moment) (offer : SessionOffer) (carrier : Option UInt32) :
    ((∀ fault, ¬s.Rejection offer carrier fault) ∧ ∃ info a, Describes info offer ∧
        MadeFor settings offer a ∧ s.establish now offer carrier = (.ok (.established info),
          { s with epoch := offer.epoch.toNat, lastInfo := some info, hasKey := true
                   lastAssembly := some a, lastAuthenticated := some now })) ∨
      ∃ fault, s.Rejection offer carrier fault ∧
        s.establish now offer carrier = (.error fault, { s with hasKey := false, lastAssembly := none }) := by
  obtain ⟨slots, room⟩ := sizes_of_valid valid
  have windowSize : s.windowSize = settings.windowSize := alike.windowSize
  have fragmentSize : s.fragmentSize = settings.fragmentSize := alike.fragmentSize
  unfold establish
  cases fit : s.prepare offer carrier with
  | error fault =>
      exact .inr ⟨fault, rejection (windowSize ▸ slots) (fragmentSize ▸ room) fit, rfl⟩
  | ok result =>
      obtain ⟨info, a⟩ := result
      obtain ⟨-, -, created, scheme, found, rfl⟩ := prepare_eq_ok.mp fit
      rw [windowSize, fragmentSize] at created
      exact .inl ⟨not_rejection fit, _, a, ⟨rfl, rfl, found, rfl, rfl⟩, madeFor created, rfl⟩

/-- An announcement that cannot be read or is stale changes nothing, a repetition changes the time of
authentication only, and any other makes the session all new or leaves none.  The outcome is whole. -/
theorem announce_atomic {settings : Settings} (keys : LinkKeys) (valid : settings.validate = .ok ())
    (inputs : List Input) (now : Moment) (nonce : Octets 24) (cipher : Bytes) (carrier : Option UInt32) :
    let s := ((create settings keys).run inputs).2
    ((∃ fault, s.Unreadable nonce cipher fault ∧ s.announce now nonce cipher carrier = (.error fault, s)) ∨
      ∃ offer, s.readOffer nonce cipher = .ok offer ∧
        (offer.epoch.toNat < s.epoch → s.rollbackAllowed now = false →
          s.announce now nonce cipher carrier = (.error (.staleEpoch s.epoch offer.epoch.toNat), s)) ∧
        (offer.epoch.toNat = s.epoch → s.hasKey = true →
          s.announce now nonce cipher carrier =
            (.ok .unchanged, { s with lastAuthenticated := some now })) ∧
        (s.epoch ≤ offer.epoch.toNat ∨ s.rollbackAllowed now = true →
          ¬(offer.epoch.toNat = s.epoch ∧ s.hasKey = true) →
          ((∀ fault, ¬s.Rejection offer carrier fault) ∧ ∃ info a, Describes info offer ∧
            MadeFor settings offer a ∧ s.announce now nonce cipher carrier = (.ok (.established info),
              { s with epoch := offer.epoch.toNat, lastInfo := some info, hasKey := true
                       lastAssembly := some a, lastAuthenticated := some now })) ∨
          ∃ fault, s.Rejection offer carrier fault ∧
            s.announce now nonce cipher carrier =
              (.error fault, { s with hasKey := false, lastAssembly := none }))) ∧
      (s.announce now nonce cipher carrier).2.Whole
        (inputs ++ [.announcement now nonce cipher carrier]) := by
  intro s
  have alike : Alike s (create settings keys) := alike_run ..
  refine ⟨?_, (announced ..).whole (whole_run settings keys inputs)⟩
  cases read : s.readOffer nonce cipher with
  | error fault => exact .inl ⟨fault, readOffer_eq_error.mp read, by rw [announce, read]⟩
  | ok offer =>
      refine .inr ⟨offer, rfl, fun lower refused => ?_, fun same key => ?_, fun admitted new => ?_⟩
      · rw [announce, read]
        simp only [lower, refused, Bool.not_false, and_self, if_true]
      · rw [announce, read]
        simp only [same, key, Nat.lt_irrefl, false_and, if_false, and_self, if_true]
      · rw [announce_new read admitted new]
        exact establish_atomic alike valid now offer carrier

/-- An announcement with an impossible code ends the session that was established before it. -/
theorem announce_atomic_unfit :
    let key : Key := ⟨Bytes.zeros 32, rfl⟩
    let settings : Settings := { windowSize := 1, fragmentSize := 16 }
    let boxKey := (create settings ⟨key, key⟩).boxKey
    let s := ((create settings ⟨key, key⟩).run [sealedOffer boxKey (offerOf 1 1 key)]).2
    settings.validate = .ok () ∧ s.hasKey = true ∧
      s.announce 0 (Octets.fit 24 [])
          (Cipher.SealedBox.encrypt boxKey (Octets.fit 24 []) (offerOf 2 0 key).encode) none =
        (.error (.invalidCodeSize 0 1), { s with hasKey := false, lastAssembly := none }) := by
  intro key settings boxKey s
  obtain ⟨a, created, opens⟩ :=
    @announce_offerOf (create settings ⟨key, key⟩) key rfl rfl rfl rfl none (by simp [settings, create])
  have here : s = { create settings ⟨key, key⟩ with
      epoch := 1, lastInfo := some ⟨1, 0, .vandermonde, 1, 1⟩, hasKey := true, lastAssembly := some a
      lastAuthenticated := some 0 } := by
    have first := run_singleton (create settings ⟨key, key⟩) (sealedOffer boxKey (offerOf 1 1 key))
    exact (first.trans (step_sealedOffer ..)).trans (congrArg Prod.snd opens)
  have read : s.readOffer (Octets.fit 24 [])
      (Cipher.SealedBox.encrypt boxKey (Octets.fit 24 []) (offerOf 2 0 key).encode) = .ok (offerOf 2 0 key) := by
    rw [here]
    exact readOffer_sealed ..
  have epoch : s.epoch = 1 := by rw [here]
  have only : ∀ fault, s.Rejection (offerOf 2 0 key) none fault → fault = .invalidCodeSize 0 1 := by
    intro fault rejection
    rw [here] at rejection
    cases rejection with
    | channel known => cases known
    | scheme other => exact absurd rfl other
    | size => rfl
    | memory large => exact absurd (show Limits.memory < 16 * 1 * 1 from large) (by decide)
  refine ⟨rfl, by rw [here], ?_⟩
  obtain ⟨atomic, -⟩ := announce_atomic ⟨key, key⟩ (show settings.validate = .ok () from rfl)
    [sealedOffer boxKey (offerOf 1 1 key)] 0 (Octets.fit 24 [])
    (Cipher.SealedBox.encrypt boxKey (Octets.fit 24 []) (offerOf 2 0 key).encode) none
  rcases atomic with ⟨fault, unreadable, -⟩ | ⟨offer, same, -, -, atomic⟩
  · cases (readOffer_eq_error.mpr unreadable).symm.trans read
  obtain rfl := Except.ok.inj (same.symm.trans read)
  have higher : s.epoch ≤ (offerOf 2 0 key).epoch.toNat := by
    rw [epoch]
    exact Nat.le_succ 1
  have other : ¬((offerOf 2 0 key).epoch.toNat = s.epoch ∧ s.hasKey = true) := by
    rw [epoch]
    exact fun same => absurd same.1 (show ¬2 = 1 by decide)
  rcases atomic (.inl higher) other with ⟨legal, -⟩ | ⟨fault, rejection, outcome⟩
  · exact absurd (.size (.inl Nat.zero_lt_one)) (legal (.invalidCodeSize 0 1))
  · obtain rfl := only fault rejection
    exact outcome

end Session

end AirLink
