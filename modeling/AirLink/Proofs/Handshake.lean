import AirLink.Proofs.Admission
import AirLink.Proofs.Packets
import AirLink.Session

/-! # What a packet does to a session

A session packet does one of five things, and a data packet one of four.  Between them they set and
clear the two marks that make a session usable: whether there is a key, and whether there is an
assembly.  The settings stay as they are, and where no lower epoch is admitted the epoch never falls.
-/

namespace AirLink.Session

variable {s : Session}

/-- Two sessions with the same settings. -/
structure Alike (s t : Session) : Prop where
  boxKey : s.boxKey = t.boxKey
  channel : s.channel = t.channel
  windowSize : s.windowSize = t.windowSize
  fragmentSize : s.fragmentSize = t.fragmentSize
  rollbackAfter : s.rollbackAfter = t.rollbackAfter

theorem Alike.refl (s : Session) : Alike s s := ⟨rfl, rfl, rfl, rfl, rfl⟩

def Ready (s : Session) : Prop := ∀ a, s.lastAssembly = some a → a.Ready

theorem assembly_eq_some {a : Assembly} :
    s.assembly = some a ↔ s.lastAssembly = some a ∧ s.hasKey = true := by
  rw [assembly, Option.filter_eq_some_iff]

theorem assembly_of_lost (lost : s.hasKey = false) : s.assembly = none := by
  simp [assembly, lost]

/-- The five ways of handling a session packet. -/
inductive Announced (s : Session) (now : Moment) (nonce : Octets 24) (cipher : Bytes)
    (carrier : Option UInt32) : Except Fault SessionOutcome → Session → Prop where
  | unread {fault : Fault} (read : s.readOffer nonce cipher = .error fault) :
      Announced s now nonce cipher carrier (.error fault) s
  | stale {offer : SessionOffer} (read : s.readOffer nonce cipher = .ok offer)
      (lower : offer.epoch.toNat < s.epoch) (refused : s.rollbackAllowed now = false) :
      Announced s now nonce cipher carrier (.error (.staleEpoch s.epoch offer.epoch.toNat)) s
  | repeated {offer : SessionOffer} (read : s.readOffer nonce cipher = .ok offer)
      (same : offer.epoch.toNat = s.epoch) (key : s.hasKey = true) :
      Announced s now nonce cipher carrier (.ok .unchanged) { s with lastAuthenticated := some now }
  | failed {offer : SessionOffer} {fault : Fault} (read : s.readOffer nonce cipher = .ok offer)
      (admitted : s.epoch ≤ offer.epoch.toNat ∨ s.rollbackAllowed now = true)
      (new : offer.epoch.toNat = s.epoch → s.hasKey = false)
      (unfit : s.prepare offer carrier = .error fault) :
      Announced s now nonce cipher carrier (.error fault)
        { s with hasKey := false, lastAssembly := none }
  | established {offer : SessionOffer} {info : SessionInfo} {a : Assembly}
      (read : s.readOffer nonce cipher = .ok offer)
      (admitted : s.epoch ≤ offer.epoch.toNat ∨ s.rollbackAllowed now = true)
      (new : offer.epoch.toNat = s.epoch → s.hasKey = false)
      (fit : s.prepare offer carrier = .ok (info, a)) :
      Announced s now nonce cipher carrier (.ok (.established info))
        { s with epoch := info.epoch, lastInfo := some info, hasKey := true
                 lastAssembly := some a, lastAuthenticated := some now }

theorem announced (s : Session) (now : Moment) (nonce : Octets 24) (cipher : Bytes)
    (carrier : Option UInt32) :
    Announced s now nonce cipher carrier (s.announce now nonce cipher carrier).1
      (s.announce now nonce cipher carrier).2 := by
  unfold announce
  cases read : s.readOffer nonce cipher with
  | error fault => exact .unread read
  | ok offer =>
      simp only []
      by_cases lower : offer.epoch.toNat < s.epoch ∧ !s.rollbackAllowed now
      · rw [if_pos lower]
        exact .stale read lower.1 (by simpa using lower.2)
      by_cases same : offer.epoch.toNat = s.epoch ∧ s.hasKey
      · rw [if_neg lower, if_pos same]
        exact .repeated read same.1 same.2
      have admitted : s.epoch ≤ offer.epoch.toNat ∨ s.rollbackAllowed now = true := by
        rcases Nat.lt_or_ge offer.epoch.toNat s.epoch with less | le
        · exact .inr (by simpa [less] using lower)
        · exact .inl le
      have new : offer.epoch.toNat = s.epoch → s.hasKey = false := by
        intro equal
        simpa [equal] using same
      rw [if_neg lower, if_neg same, establish]
      cases fit : s.prepare offer carrier with
      | error fault => exact .failed read admitted new fit
      | ok result => exact .established read admitted new fit

/-- A check of an optional value before another computation. -/
theorem checked_ok {α : Type} {expected : Option UInt32} {channel : UInt32} {settle : Except Fault α}
    {result : α} :
    (match expected with
      | some value =>
          if value ≠ channel then Except.error (Fault.channelMismatch value channel) else settle
      | _ => settle) = .ok result ↔ (∀ value ∈ expected, value = channel) ∧ settle = .ok result := by
  cases expected with
  | none => simp
  | some value =>
      by_cases same : value = channel
      · simp [same]
      · simp [same]

theorem prepare_eq_ok {offer : SessionOffer} {carrier : Option UInt32} {info : SessionInfo}
    {a : Assembly} :
    s.prepare offer carrier = .ok (info, a) ↔
      (∀ expected ∈ carrier.or s.channel, expected = offer.channel) ∧
      (1 ≤ offer.k.toNat ∧ offer.k.toNat ≤ offer.n.toNat) ∧
      Assembly.create offer.key offer.k.toNat offer.n.toNat s.windowSize s.fragmentSize = .ok a ∧
      ∃ scheme, CodeScheme.ofCode offer.scheme = .ok scheme ∧
        info = ⟨offer.epoch.toNat, offer.channel, scheme, offer.k.toNat, offer.n.toNat⟩ := by
  unfold prepare
  simp only [bind, Except.bind, pure, Except.pure, throw, throwThe, MonadExceptOf.throw]
  refine checked_ok.trans (and_congr_right fun _ => ?_)
  cases CodeScheme.ofCode offer.scheme with
  | error fault => simp
  | ok found =>
      by_cases size : offer.k.toNat < 1 ∨ offer.n.toNat < offer.k.toNat
      · have unfit : ¬(1 ≤ offer.k.toNat ∧ offer.k.toNat ≤ offer.n.toNat) := by omega
        simp only [if_pos size, unfit, false_and, reduceCtorEq]
      · have fits : 1 ≤ offer.k.toNat ∧ offer.k.toNat ≤ offer.n.toNat := by omega
        simp only [if_neg size, fits, true_and]
        cases Assembly.create offer.key offer.k.toNat offer.n.toNat s.windowSize s.fragmentSize with
        | error fault => simp
        | ok b =>
            constructor
            · intro made
              obtain ⟨rfl, rfl⟩ := Prod.mk.inj (Except.ok.inj made)
              exact ⟨rfl, found, rfl⟩
            · rintro ⟨made, scheme, rfl⟩
              rw [Except.ok.inj made]

theorem readOffer_sealed (s : Session) (nonce : Octets 24) (offer : SessionOffer) :
    s.readOffer nonce (Cipher.SealedBox.encrypt s.boxKey nonce offer.encode) = .ok offer := by
  have size : (Cipher.SealedBox.encrypt s.boxKey nonce offer.encode).length = Limits.sessionCipher := by
    rw [Cipher.SealedBox.length_encrypt, SessionOffer.length_encode]
    rfl
  rw [readOffer, if_neg (by omega), Cipher.SealedBox.decrypt_encrypt]
  exact SessionOffer.decode_encode offer

/-- A sealed announcement of a higher epoch, or of the same without a key, is not passed over. -/
theorem announce_sealed {now : Moment} {nonce : Octets 24} {offer : SessionOffer}
    {carrier : Option UInt32} (admitted : s.epoch ≤ offer.epoch.toNat)
    (new : offer.epoch.toNat = s.epoch → s.hasKey = false) :
    s.announce now nonce (Cipher.SealedBox.encrypt s.boxKey nonce offer.encode) carrier =
      s.establish now offer carrier := by
  have other : ¬(offer.epoch.toNat = s.epoch ∧ s.hasKey = true) := by
    rintro ⟨same, key⟩
    rw [new same] at key
    cases key
  rw [announce, readOffer_sealed]
  simp only []
  rw [if_neg (by omega), if_neg other]

/-- The four ways of handling a data packet. -/
inductive Received (s : Session) (now : Moment) (x : Arrival) (recover : Bool) :
    Report → Session → Prop where
  | idle (none : s.assembly = none) : Received s now x recover { outcome := .ok .noSession } s
  | forged {a : Assembly} {cause : CipherFault} (present : s.assembly = some a)
      (outcome : (a.receive x recover).1.outcome = .error (.cipher cause)) :
      Received s now x recover (a.receive x recover).1
        { s with lastAssembly := some (a.receive x recover).2, hasKey := false }
  | refused {a : Assembly} {fault : Fault} (present : s.assembly = some a)
      (outcome : (a.receive x recover).1.outcome = .error fault)
      (other : ∀ cause, fault ≠ .cipher cause) :
      Received s now x recover (a.receive x recover).1
        { s with lastAssembly := some (a.receive x recover).2 }
  | taken {a : Assembly} {outcome : DataOutcome} (present : s.assembly = some a)
      (outcome : (a.receive x recover).1.outcome = .ok outcome) :
      Received s now x recover (a.receive x recover).1
        { s with lastAssembly := some (a.receive x recover).2, lastAuthenticated := some now }

theorem received (s : Session) (now : Moment) (x : Arrival) (recover : Bool) :
    Received s now x recover (s.receive now x recover).1 (s.receive now x recover).2 := by
  unfold receive
  cases present : s.assembly with
  | none => exact .idle present
  | some a =>
      cases outcome : (a.receive x recover).1.outcome with
      | ok result =>
          simp only [outcome]
          exact .taken present outcome
      | error fault =>
          cases fault with
          | cipher cause =>
              simp only [outcome]
              exact .forged present outcome
          | _ =>
              simp only [outcome]
              exact .refused present outcome (by simp)

theorem receive_taken {a : Assembly} {x : Arrival} {recover : Bool} {outcome : DataOutcome}
    (alive : s.assembly = some a) (taken : (a.receive x recover).1.outcome = .ok outcome) (now : Moment) :
    s.receive now x recover = ((a.receive x recover).1,
      { s with lastAssembly := some (a.receive x recover).2, lastAuthenticated := some now }) := by
  rw [receive, alive]
  simp only [taken]

theorem Announced.alike {now : Moment} {nonce : Octets 24} {cipher : Bytes}
    {carrier : Option UInt32} {outcome : Except Fault SessionOutcome} {next : Session}
    (h : Announced s now nonce cipher carrier outcome next) : Alike next s := by
  cases h <;> exact ⟨rfl, rfl, rfl, rfl, rfl⟩

theorem Received.alike {now : Moment} {x : Arrival} {recover : Bool} {report : Report}
    {next : Session} (h : Received s now x recover report next) : Alike next s := by
  cases h <;> exact ⟨rfl, rfl, rfl, rfl, rfl⟩

theorem Announced.ready {now : Moment} {nonce : Octets 24} {cipher : Bytes}
    {carrier : Option UInt32} {outcome : Except Fault SessionOutcome} {next : Session}
    (h : Announced s now nonce cipher carrier outcome next) (ready : s.Ready) : next.Ready := by
  intro a present
  cases h with
  | unread => exact ready a present
  | stale => exact ready a present
  | repeated => exact ready a present
  | failed => cases present
  | established read admitted new fit =>
      obtain rfl := Option.some.inj present
      exact (Assembly.create_ready (prepare_eq_ok.mp fit).2.2.1).1

theorem Received.ready {now : Moment} {x : Arrival} {recover : Bool} {report : Report}
    {next : Session} (h : Received s now x recover report next) (ready : s.Ready) : next.Ready := by
  intro a here
  cases h with
  | idle => exact ready a here
  | forged present | refused present | taken present =>
      obtain rfl := Option.some.inj here
      exact ((ready _ (assembly_eq_some.mp present).1).receive x recover).1

end AirLink.Session
