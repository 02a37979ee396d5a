import AirLink.Counters
import AirLink.Proofs.Handshake
import AirLink.Proofs.Provenance

/-! # The lifetime of a session

A session lives from the announcement that establishes it to the packet that ends it, or to the next
announcement that establishes one.  As long as it lives, it answers data packets as a new assembly does,
made from its announcement and given the same packets.  Once it has ended, data packets do nothing until
another is established, and what had been stored before is gone for good.
-/

namespace AirLink.Session

open Intake (has)

/-- A packet that a session is given. -/
inductive Input where
  | announcement (now : Moment) (nonce : Octets 24) (cipher : Bytes) (carrier : Option UInt32)
  | data (now : Moment) (x : Arrival) (recover : Bool)

inductive Answer where
  | announcement (outcome : Except Fault SessionOutcome)
  | data (report : Report)

def Answer.report? : Answer → Option Report
  | announcement _ => none
  | data report => some report

/-- The data packet, if it is one, as an assembly is given it. -/
def Input.call? : Input → Option (Arrival × Bool)
  | announcement .. => none
  | data _ x recover => some (x, recover)

variable {s : Session}

def step (s : Session) : Input → Answer × Session
  | .announcement now nonce cipher carrier =>
    let (outcome, next) := s.announce now nonce cipher carrier
    (.announcement outcome, next)
  | .data now x recover =>
    let (report, next) := s.receive now x recover
    (.data report, next)

def run (s : Session) : List Input → List Answer × Session
  | [] => ([], s)
  | input :: rest =>
    let (answer, next) := s.step input
    let (answers, final) := next.run rest
    (answer :: answers, final)

/-- What a run answers to its data packets. -/
def reports (s : Session) (inputs : List Input) : List Report := (s.run inputs).1.filterMap Answer.report?

/-- The packet establishes a session. -/
inductive Begins (s : Session) : Input → SessionInfo → Prop where
  | established {now : Moment} {nonce : Octets 24} {cipher : Bytes} {carrier : Option UInt32}
      {info : SessionInfo}
      (outcome : (s.announce now nonce cipher carrier).1 = .ok (.established info)) :
      Begins s (.announcement now nonce cipher carrier) info

/-- The packet ends the session if there is one: it is a data packet that cannot be opened, or an
announcement that passes the check of its epoch and is then refused. -/
inductive Ends (s : Session) : Input → Prop where
  | forged {now : Moment} {x : Arrival} {recover : Bool} {cause : CipherFault}
      (outcome : (s.receive now x recover).1.outcome = .error (.cipher cause)) :
      Ends s (.data now x recover)
  | rejected {now : Moment} {nonce : Octets 24} {cipher : Bytes} {carrier : Option UInt32}
      {offer : SessionOffer} {fault : Fault} (read : s.readOffer nonce cipher = .ok offer)
      (admitted : s.epoch ≤ offer.epoch.toNat ∨ s.rollbackAllowed now = true)
      (new : ¬(offer.epoch.toNat = s.epoch ∧ s.hasKey = true))
      (unfit : s.prepare offer carrier = .error fault) :
      Ends s (.announcement now nonce cipher carrier)

/-- None of the packets establishes a session. -/
def Idle (s : Session) : List Input → Prop
  | [] => True
  | input :: rest => (∀ info, ¬s.Begins input info) ∧ (s.step input).2.Idle rest

/-- None of the packets establishes a session or ends it. -/
def Steady (s : Session) : List Input → Prop
  | [] => True
  | input :: rest => (∀ info, ¬s.Begins input info) ∧ ¬s.Ends input ∧ (s.step input).2.Steady rest

section alive

variable {a : Assembly} (alive : s.assembly = some a)

include alive

theorem Announced.keeps {now : Moment} {nonce : Octets 24} {cipher : Bytes} {carrier : Option UInt32}
    {outcome : Except Fault SessionOutcome} {next : Session}
    (h : Announced s now nonce cipher carrier outcome next) :
    next.assembly = some a ∨ (∃ info, outcome = .ok (.established info)) ∨
      s.Ends (.announcement now nonce cipher carrier) := by
  cases h with
  | unread => exact .inl alive
  | stale => exact .inl alive
  | repeated => exact .inl alive
  | established => exact .inr (.inl ⟨_, rfl⟩)
  | failed read admitted new unfit =>
      refine .inr (.inr (.rejected read admitted ?_ unfit))
      rintro ⟨same, key⟩
      cases (new same).symm.trans key

theorem Received.keeps {now : Moment} {x : Arrival} {recover : Bool} {report : Report} {next : Session}
    (h : Received s now x recover report next) :
    report = (a.receive x recover).1 ∧ ((∃ cause, report.outcome = .error (.cipher cause)) ∨
      next.assembly = some (a.receive x recover).2) := by
  have key := (assembly_eq_some.mp alive).2
  cases h with
  | idle none => cases none.symm.trans alive
  | forged present outcome =>
      obtain rfl := Option.some.inj (present.symm.trans alive)
      exact ⟨rfl, .inl ⟨_, outcome⟩⟩
  | refused present | taken present =>
      obtain rfl := Option.some.inj (present.symm.trans alive)
      exact ⟨rfl, .inr (assembly_eq_some.mpr ⟨rfl, key⟩)⟩

end alive

theorem absorbSession_of_opened {report : Report} (opened : ∀ cause, report.outcome ≠ .error (.cipher cause))
    (c : Counters) : c.absorbSession report = c.absorb report := by
  unfold Counters.absorbSession
  split
  next cause outcome => exact absurd outcome (opened cause)
  next => rfl

/-- As long as a session lives, its answers to data packets are those of its assembly. -/
theorem steady_run {a : Assembly} (alive : s.assembly = some a) {inputs : List Input}
    (steady : s.Steady inputs) :
    s.reports inputs = (a.run (inputs.filterMap Input.call?)).1 ∧
      (s.run inputs).2.assembly = some (a.run (inputs.filterMap Input.call?)).2 ∧
      ∀ r ∈ s.reports inputs, ∀ c : Counters, c.absorbSession r = c.absorb r := by
  induction inputs generalizing s a with
  | nil => exact ⟨rfl, alive, fun r hr => by cases hr⟩
  | cons input inputs ih =>
      obtain ⟨begins, ends, steady⟩ := steady
      cases input with
      | announcement now nonce cipher carrier =>
          rcases (announced s now nonce cipher carrier).keeps alive with kept | ⟨info, outcome⟩ | ended
          · exact ih kept steady
          · exact absurd (.established outcome) (begins info)
          · exact absurd ended ends
      | data now x recover =>
          obtain ⟨report, ended⟩ := (received s now x recover).keeps alive
          have opened : ∀ cause, (s.receive now x recover).1.outcome ≠ .error (.cipher cause) :=
            fun cause outcome => ends (.forged outcome)
          rcases ended with ⟨cause, outcome⟩ | kept
          · exact absurd outcome (opened cause)
          obtain ⟨answers, final, counts⟩ := ih kept steady
          have glued : s.reports (.data now x recover :: inputs) =
              (s.receive now x recover).1 :: (s.receive now x recover).2.reports inputs := rfl
          rw [glued]
          refine ⟨?_, final, fun r hr => ?_⟩
          · rw [answers, report]
            rfl
          · cases List.mem_cons.mp hr with
            | inl here => exact here ▸ absorbSession_of_opened opened
            | inr later => exact counts r later

/-! After its end a session has no assembly until another is established. -/

theorem Received.ends {now : Moment} {x : Arrival} {recover : Bool} {report : Report} {next : Session}
    (h : Received s now x recover report next) {cause : CipherFault}
    (forged : report.outcome = .error (.cipher cause)) : next.assembly = none := by
  cases h with
  | idle => cases forged
  | forged => exact assembly_of_lost rfl
  | refused _ outcome other => exact absurd (Except.error.inj (outcome.symm.trans forged)) (other cause)
  | taken _ outcome => cases outcome.symm.trans forged

/-- An announcement that is neither stale nor a repetition is put to the test. -/
theorem announce_new {now : Moment} {nonce : Octets 24} {cipher : Bytes} {carrier : Option UInt32}
    {offer : SessionOffer} (read : s.readOffer nonce cipher = .ok offer)
    (admitted : s.epoch ≤ offer.epoch.toNat ∨ s.rollbackAllowed now = true)
    (new : ¬(offer.epoch.toNat = s.epoch ∧ s.hasKey = true)) :
    s.announce now nonce cipher carrier = s.establish now offer carrier := by
  have passed : ¬(offer.epoch.toNat < s.epoch ∧ !s.rollbackAllowed now) := by
    rintro ⟨lower, refused⟩
    cases admitted with
    | inl le => omega
    | inr allowed => simp [allowed] at refused
  rw [announce, read]
  simp only [if_neg passed, if_neg new]

theorem Ends.lost {input : Input} (ends : s.Ends input) : (s.step input).2.assembly = none := by
  cases ends with
  | forged outcome => exact (received ..).ends outcome
  | @rejected now nonce cipher carrier offer fault read admitted new unfit =>
      rw [step, announce_new read admitted new, establish, unfit]
      rfl

theorem receive_idle (lost : s.assembly = none) (now : Moment) (x : Arrival) (recover : Bool) :
    s.receive now x recover = ({ outcome := .ok .noSession }, s) := by
  rw [receive, lost]

theorem Announced.idle {now : Moment} {nonce : Octets 24} {cipher : Bytes} {carrier : Option UInt32}
    {outcome : Except Fault SessionOutcome} {next : Session}
    (h : Announced s now nonce cipher carrier outcome next) (lost : s.assembly = none)
    (begins : ∀ info, outcome ≠ .ok (.established info)) : next.assembly = none := by
  cases h with
  | unread | stale | repeated => exact lost
  | failed => rfl
  | established => exact absurd rfl (begins _)

theorem idle_step (lost : s.assembly = none) {input : Input} (begins : ∀ info, ¬s.Begins input info) :
    (s.step input).2.assembly = none := by
  cases input with
  | announcement now nonce cipher carrier =>
      exact (announced ..).idle lost fun info outcome => begins info (.established outcome)
  | data now x recover =>
      rw [step, receive_idle lost]
      exact lost

theorem idle_run (lost : s.assembly = none) {inputs : List Input} (idle : s.Idle inputs) :
    (s.run inputs).2.assembly = none := by
  induction inputs generalizing s with
  | nil => exact lost
  | cons input inputs ih => exact ih (idle_step lost idle.1) idle.2

/-! What is delivered after a session has been established. -/

theorem Alike.trans {s t u : Session} (h : Alike s t) (h' : Alike t u) : Alike s u :=
  ⟨h.boxKey.trans h'.boxKey, h.channel.trans h'.channel, h.windowSize.trans h'.windowSize,
    h.fragmentSize.trans h'.fragmentSize, h.rollbackAfter.trans h'.rollbackAfter⟩

theorem alike_step (s : Session) (input : Input) : Alike (s.step input).2 s := by
  cases input with
  | announcement => exact (announced ..).alike
  | data => exact (received ..).alike

theorem alike_run (s : Session) (inputs : List Input) : Alike (s.run inputs).2 s := by
  induction inputs generalizing s with
  | nil => exact .refl s
  | cons input inputs ih => exact (ih _).trans (s.alike_step input)

theorem Announced.begins {now : Moment} {nonce : Octets 24} {cipher : Bytes} {carrier : Option UInt32}
    {outcome : Except Fault SessionOutcome} {next : Session}
    (h : Announced s now nonce cipher carrier outcome next) {info : SessionInfo}
    (begins : outcome = .ok (.established info)) :
    ∃ offer a, s.readOffer nonce cipher = .ok offer ∧
      (s.epoch ≤ offer.epoch.toNat ∨ s.rollbackAllowed now = true) ∧
      ¬(offer.epoch.toNat = s.epoch ∧ s.hasKey = true) ∧ s.prepare offer carrier = .ok (info, a) ∧
      next.assembly = some a := by
  cases h with
  | unread | stale | repeated | failed => cases begins
  | established read admitted new fit =>
      obtain rfl := SessionOutcome.established.inj (Except.ok.inj begins)
      refine ⟨_, _, read, admitted, ?_, fit, rfl⟩
      rintro ⟨same, key⟩
      cases (new same).symm.trans key

/-- What was stored before makes no difference to an announcement that establishes a session. -/
theorem Begins.forgets {input : Input} {info : SessionInfo} (begins : s.Begins input info)
    (stored : Option Assembly) : { s with lastAssembly := stored }.step input = s.step input := by
  cases begins with
  | @established now nonce cipher carrier info outcome =>
      obtain ⟨offer, a, read, admitted, new, fit, -⟩ := (announced ..).begins outcome
      let t : Session := { s with lastAssembly := stored }
      have fit' : t.prepare offer carrier = .ok (info, a) := fit
      change t.step _ = _
      rw [step, step, announce_new read admitted new,
        @announce_new t now _ _ _ _ read admitted new, establish, establish, fit, fit']

/-- The fragments that a session accepts. -/
def intakes (s : Session) : List Input → List Intake
  | [] => []
  | input :: rest =>
    (s.assembly.bind fun a => input.call?.bind fun call => a.intake? call.1 call.2).toList ++
      (s.step input).2.intakes rest

/-- The assembly has been given none but some of these fragments. -/
def Given (size : Nat) (taken : List Intake) (a : Assembly) : Prop :=
  ∃ given delivered, Assembly.Accounts given delivered a ∧
    (∀ y ∈ given, y ∈ taken ∧ y.plain.length ≤ size) ∧ a.window.fragmentSize = size

def Holds (taken : List Intake) (s : Session) : Prop :=
  ∀ a, s.lastAssembly = some a → Given s.fragmentSize taken a

variable {taken : List Intake}

theorem Given.receive {size : Nat} {a : Assembly} (h : Given size taken a) (x : Arrival) (recover : Bool) :
    Given size (taken ++ (a.intake? x recover).toList) (a.receive x recover).2 ∧
      ∀ d ∈ (a.receive x recover).1.deliveries,
        Assembly.Sourced size (taken ++ (a.intake? x recover).toList) d := by
  obtain ⟨given, delivered, accounts, members, rfl⟩ := h
  obtain ⟨same, fits⟩ := accounts.ready.receive_frame x recover
  have after := accounts.receive x recover
  have members' : ∀ y ∈ given ++ (a.intake? x recover).toList,
      y ∈ taken ++ (a.intake? x recover).toList ∧ y.plain.length ≤ a.window.fragmentSize := by
    intro y hy
    cases List.mem_append.mp hy with
    | inl old => exact ⟨List.mem_append_left _ (members y old).1, (members y old).2⟩
    | inr new => exact ⟨List.mem_append_right _ new, fits y (Option.mem_toList.mp new)⟩
  refine ⟨⟨_, _, after, members', same⟩, fun d hd => ?_⟩
  have sourced := after.sourced (fun y hy => same ▸ (members' y hy).2) (List.mem_append_right _ hd)
  rw [same] at sourced
  exact sourced.mono fun y hy => (members' y hy).1

theorem Announced.holds {now : Moment} {nonce : Octets 24} {cipher : Bytes} {carrier : Option UInt32}
    {outcome : Except Fault SessionOutcome} {next : Session}
    (h : Announced s now nonce cipher carrier outcome next) (holds : s.Holds taken) : next.Holds taken := by
  intro a present
  cases h with
  | unread | stale | repeated => exact holds a present
  | failed => cases present
  | established _ _ _ fit =>
      obtain rfl := Option.some.inj present
      have created := (prepare_eq_ok.mp fit).2.2.1
      exact ⟨[], [], Assembly.accounts_create created, by simp, (Assembly.create_ready created).2.2.2.1⟩

theorem Received.holds {now : Moment} {x : Arrival} {recover : Bool} {report : Report} {next : Session}
    (h : Received s now x recover report next) (holds : s.Holds taken) :
    next.Holds (taken ++ (s.assembly.bind fun a => a.intake? x recover).toList) ∧
      ∀ d ∈ report.deliveries,
        Assembly.Sourced s.fragmentSize
          (taken ++ (s.assembly.bind fun a => a.intake? x recover).toList) d := by
  cases h with
  | idle none =>
      rw [none]
      simpa [Report.deliveries] using holds
  | forged present | refused present | taken present =>
      have result := (holds _ (assembly_eq_some.mp present).1).receive x recover
      rw [present]
      refine ⟨fun a here => ?_, result.2⟩
      obtain rfl := Option.some.inj here
      exact result.1

/-- Whatever a run delivers comes from fragments that it has accepted, or that the session held. -/
theorem Holds.run (holds : s.Holds taken) (inputs : List Input) :
    ∀ r ∈ s.reports inputs, ∀ d ∈ r.deliveries,
      Assembly.Sourced s.fragmentSize (taken ++ s.intakes inputs) d := by
  induction inputs generalizing s taken with
  | nil => simp [reports, run]
  | cons input inputs ih =>
      have size := (s.alike_step input).fragmentSize
      cases input with
      | announcement now nonce cipher carrier =>
          have rest := ih ((announced s now nonce cipher carrier).holds holds)
          rw [(announced ..).alike.fragmentSize] at rest
          have none : s.intakes (.announcement now nonce cipher carrier :: inputs) =
              (s.announce now nonce cipher carrier).2.intakes inputs := by
            simp [intakes, Input.call?, step]
          rw [none]
          exact rest
      | data now x recover =>
          obtain ⟨after, here⟩ := (received s now x recover).holds holds
          have rest := ih after
          rw [(received ..).alike.fragmentSize] at rest
          have split : taken ++ s.intakes (.data now x recover :: inputs) =
              taken ++ (s.assembly.bind fun a => a.intake? x recover).toList ++
                (s.receive now x recover).2.intakes inputs := by
            rw [List.append_assoc]
            rfl
          rw [split]
          intro r hr d hd
          cases List.mem_cons.mp hr with
          | inl first => exact (here d (first ▸ hd)).mono fun y hy => List.mem_append_left _ hy
          | inr later => exact rest r later d hd

/-- The session can be reached from a new one. -/
def Reached (settings : Settings) (keys : LinkKeys) (s : Session) : Prop :=
  ∃ inputs, s = ((create settings keys).run inputs).2

theorem Reached.alike {settings : Settings} {keys : LinkKeys} (reached : Reached settings keys s) :
    Alike s (create settings keys) := by
  obtain ⟨inputs, rfl⟩ := reached
  exact alike_run ..

/-- As long as the session lives, it answers data packets as the assembly does, and they count alike. -/
def LivesAs (s : Session) (a : Assembly) : Prop :=
  ∀ inputs, s.Steady inputs →
    s.reports inputs = (a.run (inputs.filterMap Input.call?)).1 ∧
      ∀ counters : Counters, (s.reports inputs).foldl Counters.absorbSession counters =
        (a.run (inputs.filterMap Input.call?)).1.foldl Counters.absorb counters

/-- Until a session is established, data packets are answered with nothing, and nothing changes. -/
def Silent (s : Session) : Prop :=
  ∀ inputs, s.Idle inputs → ∀ now x recover,
    (s.run inputs).2.receive now x recover = ({ outcome := .ok .noSession }, (s.run inputs).2) ∧
      ∀ counters : Counters, counters.absorbSession { outcome := .ok .noSession } = counters

theorem livesAs_of_assembly {a : Assembly} (alive : s.assembly = some a) : s.LivesAs a := by
  intro inputs steady
  obtain ⟨same, -, counts⟩ := steady_run alive steady
  refine ⟨same, fun counters => ?_⟩
  rw [← same]
  exact List.foldl_ext _ _ _ fun c r hr => counts r hr c

theorem silent_of_lost (lost : s.assembly = none) : s.Silent := fun _ idle now x recover =>
  ⟨receive_idle (idle_run lost idle) now x recover, fun _ => rfl⟩

/-- From the announcement that establishes a session to the packet that ends it, or to the next such
announcement, data packets are answered as by a new assembly.  Nothing that was stored before matters
from then on: every delivery comes from fragments accepted since.  From the end of a session to the next
announcement that establishes one, data packets are answered with nothing. -/
theorem lives_as_new_assembly {settings : Settings} {keys : LinkKeys} (reached : Reached settings keys s) :
    (∀ input info, s.Begins input info →
      (∃ now nonce cipher carrier offer a, input = .announcement now nonce cipher carrier ∧
        s.readOffer nonce cipher = .ok offer ∧
        Assembly.create offer.key offer.k.toNat offer.n.toNat settings.windowSize
          settings.fragmentSize = .ok a ∧
        (s.step input).2.LivesAs a) ∧
      (∀ stored after, { s with lastAssembly := stored }.run (input :: after) = s.run (input :: after)) ∧
      ∀ after, ∀ r ∈ (s.step input).2.reports after, ∀ d ∈ r.deliveries,
        Assembly.Sourced settings.fragmentSize ((s.step input).2.intakes after) d) ∧
    ∀ input, s.Ends input → (s.step input).2.Silent := by
  have alike := reached.alike
  refine ⟨fun input info begins => ⟨?_, fun stored after => ?_, fun after => ?_⟩, fun input ends => ?_⟩
  · cases begins with
    | @established now nonce cipher carrier info outcome =>
        obtain ⟨offer, a, read, -, -, fit, alive⟩ := (announced ..).begins outcome
        have created := (prepare_eq_ok.mp fit).2.2.1
        rw [alike.windowSize, alike.fragmentSize] at created
        exact ⟨now, nonce, cipher, carrier, offer, a, rfl, read, created, livesAs_of_assembly alive⟩
  · rw [run, run, begins.forgets stored]
  · -- A new assembly has been given nothing.
    have holds : (s.step input).2.Holds [] := by
      rw [← begins.forgets none]
      cases begins with
      | established => exact (announced ..).holds (by simp [Holds])
    have size := (s.alike_step input).trans alike
    have sourced := holds.run after
    rw [size.fragmentSize] at sourced
    exact sourced
  · exact silent_of_lost ends.lost

/-- The announcement of a session whose blocks have `k` data fragments, of one in all. -/
def offerOf (epoch : UInt64) (k : UInt8) (key : Key) : SessionOffer := ⟨epoch, 0, 1, k, 1, key⟩

def sealedOffer (boxKey : Key) (offer : SessionOffer) : Input :=
  .announcement 0 (Octets.fit 24 []) (Cipher.SealedBox.encrypt boxKey (Octets.fit 24 []) offer.encode) none

theorem step_sealedOffer (s : Session) (boxKey : Key) (offer : SessionOffer) :
    (s.step (sealedOffer boxKey offer)).2 = (s.announce 0 (Octets.fit 24 [])
      (Cipher.SealedBox.encrypt boxKey (Octets.fit 24 []) offer.encode) none).2 := rfl

/-- A fragment with a payload of one byte. -/
def fragmentOf (key : Key) : Arrival := Packet.sealed key 0 0 [0, 0, 1, 7]

theorem receive_fragment {key : Key} (zero : key = ⟨Bytes.zeros 32, rfl⟩) {a : Assembly}
    (created : Assembly.create key 1 1 1 16 = .ok a) :
    (a.receive (fragmentOf key) true).1.outcome = .ok .accepted ∧
      (a.receive (fragmentOf key) true).1.deliveries = [⟨0, 0, false, [7]⟩] := by
  have taken := Assembly.run_takeIn created
    (show ∀ x ∈ [(⟨0, 0, [0, 0, 1, 7], true⟩ : Intake)], x.Fits 1 16 by decide)
  change a.run [(fragmentOf key, true)] = _ at taken
  subst zero
  have holds : ∀ a ∈ (Assembly.create ⟨Bytes.zeros 32, rfl⟩ 1 1 1 16).toOption,
      (a.takeIn [⟨0, 0, [0, 0, 1, 7], true⟩]).1.map Report.outcome = [.ok .accepted] ∧
      (a.takeIn [⟨0, 0, [0, 0, 1, 7], true⟩]).1.flatMap Report.deliveries = [⟨0, 0, false, [7]⟩] := by
    decide +kernel
  have only : (a.takeIn [⟨0, 0, [0, 0, 1, 7], true⟩]).1 =
      [(a.receive (fragmentOf ⟨Bytes.zeros 32, rfl⟩) true).1] :=
    congrArg Prod.fst taken.symm
  obtain ⟨outcome, deliveries⟩ := holds a (by rw [created]; rfl)
  rw [only] at outcome deliveries
  exact ⟨List.singleton_inj.mp outcome, (List.append_nil _).symm.trans deliveries⟩

/-- The session of blocks of one fragment can be installed by any session with room for it. -/
theorem establish_offerOf (key : Key) (windowSize : s.windowSize = 1) (fragmentSize : s.fragmentSize = 16)
    {carrier : Option UInt32} (own : ∀ expected ∈ carrier.or s.channel, expected = 0) :
    let info : SessionInfo := ⟨1, 0, .vandermonde, 1, 1⟩
    ∃ a, Assembly.create key 1 1 1 16 = .ok a ∧
      s.establish 0 (offerOf 1 1 key) carrier = (.ok (.established info), { s with
        epoch := 1, lastInfo := some info, hasKey := true, lastAssembly := some a
        lastAuthenticated := some 0 }) := by
  intro info
  obtain ⟨a, created⟩ := Assembly.create_succeeds key (show 1 ≤ 1 by decide) (show 1 ≤ 1 by decide)
    (by decide) (show 1 ≤ 1 by decide) (show 1 ≤ 16 by decide) (by decide)
  have made : Assembly.create key 1 1 s.windowSize s.fragmentSize = .ok a := by
    rw [windowSize, fragmentSize]
    exact created
  have fit : s.prepare (offerOf 1 1 key) carrier = .ok (info, a) :=
    prepare_eq_ok.mpr ⟨own, ⟨Nat.le_refl 1, Nat.le_refl 1⟩, made, _, rfl, rfl⟩
  refine ⟨a, created, ?_⟩
  rw [establish, fit]

theorem announce_offerOf (key : Key) (fresh : s.epoch = 0) (lost : s.hasKey = false)
    (windowSize : s.windowSize = 1) (fragmentSize : s.fragmentSize = 16) {carrier : Option UInt32}
    (own : ∀ expected ∈ carrier.or s.channel, expected = 0) :
    let info : SessionInfo := ⟨1, 0, .vandermonde, 1, 1⟩
    ∃ a, Assembly.create key 1 1 1 16 = .ok a ∧
      s.announce 0 (Octets.fit 24 [])
          (Cipher.SealedBox.encrypt s.boxKey (Octets.fit 24 []) (offerOf 1 1 key).encode) carrier =
        (.ok (.established info), { s with
          epoch := 1, lastInfo := some info, hasKey := true, lastAssembly := some a
          lastAuthenticated := some 0 }) := by
  intro info
  obtain ⟨a, created, installs⟩ := establish_offerOf key windowSize fragmentSize own
  exact ⟨a, created, (announce_sealed (fresh ▸ Nat.zero_le _) fun _ => lost).trans installs⟩

/-- One data packet at a time. -/
theorem LivesAs.reports_singleton {a : Assembly} (lives : s.LivesAs a) {now : Moment} {x : Arrival}
    {recover : Bool} (steady : s.Steady [.data now x recover]) :
    (s.reports [.data now x recover]).flatMap Report.deliveries = (a.receive x recover).1.deliveries := by
  rw [(lives _ steady).1]
  exact List.append_nil _

theorem steady_singleton {now : Moment} {x : Arrival} {recover : Bool}
    (lasts : ¬s.Ends (.data now x recover)) : s.Steady [.data now x recover] :=
  ⟨fun _ begins => (by cases begins), lasts, trivial⟩

theorem run_singleton (s : Session) (input : Input) : (s.run [input]).2 = (s.step input).2 := rfl

theorem reached_step (settings : Settings) (keys : LinkKeys) (input : Input) :
    Reached settings keys ((create settings keys).step input).2 := ⟨[input], rfl⟩

theorem Silent.receive (silent : s.Silent) (now : Moment) (x : Arrival) (recover : Bool) :
    s.receive now x recover = ({ outcome := .ok .noSession }, s) := (silent [] trivial now x recover).1

/-- A session is established and delivers a fragment.  A faulty announcement ends it, and then the
fragment is of no use. -/
theorem lives_as_new_assembly_once :
    let key : Key := ⟨Bytes.zeros 32, rfl⟩
    let s := create { windowSize := 1, fragmentSize := 16 } ⟨key, key⟩
    ∃ info, s.Begins (sealedOffer s.boxKey (offerOf 1 1 key)) info ∧
      let t := (s.step (sealedOffer s.boxKey (offerOf 1 1 key))).2
      t.Steady [.data 0 (fragmentOf key) true] ∧
      (t.reports [.data 0 (fragmentOf key) true]).flatMap Report.deliveries = [⟨0, 0, false, [7]⟩] ∧
      t.Ends (sealedOffer s.boxKey (offerOf 2 0 key)) ∧
      let u := (t.step (sealedOffer s.boxKey (offerOf 2 0 key))).2
      u.receive 0 (fragmentOf key) true = ({ outcome := .ok .noSession }, u) := by
  intro key s
  obtain ⟨a, created, opens⟩ := @announce_offerOf s key rfl rfl rfl rfl none (by simp [s, create])
  obtain ⟨accepted, delivered⟩ := receive_fragment rfl created
  let info : SessionInfo := ⟨1, 0, .vandermonde, 1, 1⟩
  let t : Session := { s with
    epoch := 1, lastInfo := some info, hasKey := true, lastAssembly := some a, lastAuthenticated := some 0 }
  have begins : s.Begins (sealedOffer s.boxKey (offerOf 1 1 key)) info :=
    .established (congrArg Prod.fst opens)
  have next : (s.step (sealedOffer s.boxKey (offerOf 1 1 key))).2 = t := by
    rw [step_sealedOffer, opens]
  have unfit : t.prepare (offerOf 2 0 key) none = .error (.invalidCodeSize 0 1) := rfl
  have ends : t.Ends (sealedOffer s.boxKey (offerOf 2 0 key)) :=
    .rejected (readOffer_sealed t _ _) (.inl (show 1 ≤ 2 by decide))
      (fun same => absurd same.1 (show ¬2 = 1 by decide)) unfit
  have steady : t.Steady [.data 0 (fragmentOf key) true] := by
    refine steady_singleton fun ends => ?_
    cases ends with
    | forged outcome =>
        have same := (@Received.keeps t a rfl _ _ _ _ _ (received t 0 (fragmentOf key) true)).1
        rw [same, accepted] at outcome
        cases outcome
  have reached : Reached { windowSize := 1, fragmentSize := 16 } ⟨key, key⟩ t := next ▸ reached_step ..
  refine ⟨info, begins, ?_⟩
  simp only [next]
  refine ⟨steady, ?_, ends, ((lives_as_new_assembly reached).2 _ ends).receive 0 _ true⟩
  obtain ⟨⟨now, nonce, cipher, carrier, offer, a', same, read, made, lives⟩, -⟩ :=
    (lives_as_new_assembly (s := s) ⟨[], rfl⟩).1 _ info begins
  cases same
  rw [readOffer_sealed, Except.ok.injEq] at read
  subst read
  obtain rfl := Except.ok.inj (created.symm.trans made)
  rw [next] at lives
  exact (lives.reports_singleton steady).trans delivered

end AirLink.Session
