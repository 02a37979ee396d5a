import AirLink.Proofs.Dispatch
import AirLink.Proofs.Handshake

/-! # The history of a receiver

The history of a run tells when a session key was installed, when it was given up, and which payloads
were handed to the decoders under it.  The calls of the decoders can be read off it.  A session that
admits no lower epoch takes one of four turns with every action.
-/

namespace AirLink

/-- What a run does with session keys. -/
inductive Event where
  | installed (epoch : Nat) (key : Key)
  | dropped (cause : Fault)
  /-- A decoder was handed a payload that was authenticated with the key, or rebuilt from fragments
  that were. -/
  | handed (decoder : Nat) (key : Key) (delivery : Delivery)

def Event.call? : Event → Option Call
  | handed decoder _ delivery => some (.decode decoder delivery.payload)
  | _ => none

/-- What an assembly hands to the decoders when it handles a data packet. -/
def Assembly.handedOver (decoders : Nat) (a : Assembly) (x : Arrival) (recover : Bool) : List Event :=
  (a.receive x recover).1.deliveries.flatMap fun d =>
    (List.range decoders).map fun i => .handed i a.key d

/-- Whether a session began or ended with a buffer. -/
def Session.keyEvents (s next : Session) : Except Fault RxOutcome → List Event
  | .ok (.session (.established info)) =>
    next.assembly.toList.map fun a => .installed info.epoch a.key
  | .ok _ => []
  | .error cause => if s.hasKey && !next.hasKey then [.dropped cause] else []

namespace Receiver

/-- What can be done with a receiver. -/
inductive Action where
  | take (now : Moment) (source : Source) (bs : Bytes)
  | attach (consumer : Consumer)
  | setRecovery (on : Bool)

def act (r : Receiver) : Action → List Call × Receiver
  | .take now source bs => ((r.take now source bs).1.calls, (r.take now source bs).2)
  | .attach consumer => ([], (r.attach consumer).toOption.getD r)
  | .setRecovery on => ([], r.setRecovery on)

def handedOver (r : Receiver) (source : Source) (bs : Bytes) : List Event :=
  ((r.packet? source bs).bind fun found => found.1.arrival?).toList.flatMap fun x =>
    r.session.assembly.toList.flatMap fun a => a.handedOver r.decoders x r.recovery

def events (r : Receiver) : Action → List Event
  | .take now source bs =>
    r.handedOver source bs ++
      r.session.keyEvents (r.take now source bs).2.session (r.take now source bs).1.outcome
  | _ => []

def calls (r : Receiver) : List Action → List Call
  | [] => []
  | action :: rest => (r.act action).1 ++ (r.act action).2.calls rest

/-- What a run does with session keys, in order. -/
def history (r : Receiver) : List Action → List Event
  | [] => []
  | action :: rest => r.events action ++ (r.act action).2.history rest

end Receiver

namespace Session

/-- What one action does to a session that admits no lower epoch. -/
inductive Turn (s : Session) (decoders : Nat) : List Event → Session → Prop where
  | kept {next : Session} (assembly : next.assembly = s.assembly) (hasKey : next.hasKey = s.hasKey)
      (epoch : next.epoch = s.epoch) : Turn s decoders [] next
  | installed {next : Session} {a : Assembly} (assembly : next.assembly = some a)
      (le : s.epoch ≤ next.epoch) (lt : s.hasKey = true → s.epoch < next.epoch) :
      Turn s decoders [.installed next.epoch a.key] next
  | dropped {next : Session} (cause : Fault) (hasKey : next.hasKey = false)
      (epoch : next.epoch = s.epoch) :
      Turn s decoders (if s.hasKey && !next.hasKey then [.dropped cause] else []) next
  | received {next : Session} {a : Assembly} {x : Arrival} {recover : Bool}
      (assembly : s.assembly = some a) (after : next.assembly = some (a.receive x recover).2)
      (epoch : next.epoch = s.epoch) : Turn s decoders (a.handedOver decoders x recover) next

variable {s : Session}

theorem rollbackAllowed_of_none (strict : s.rollbackAfter = none) (now : Moment) :
    s.rollbackAllowed now = false := by
  rw [rollbackAllowed, strict]

theorem Announced.turn {now : Moment} {nonce : Octets 24} {cipher : Bytes}
    {carrier : Option UInt32} {outcome : Except Fault SessionOutcome} {next : Session}
    (h : Announced s now nonce cipher carrier outcome next) (strict : s.rollbackAfter = none)
    (decoders : Nat) :
    Turn s decoders (s.keyEvents next (outcome.map RxOutcome.session)) next := by
  have never := rollbackAllowed_of_none strict now
  cases h with
  | unread read =>
      rw [Except.map, keyEvents, Bool.and_not_self]
      exact .kept rfl rfl rfl
  | stale read lower refused =>
      rw [Except.map, keyEvents, Bool.and_not_self]
      exact .kept rfl rfl rfl
  | repeated read same key => exact .kept rfl rfl rfl
  | failed read admitted new unfit => exact .dropped _ rfl rfl
  | @established offer info a read admitted new fit =>
      have epoch : info.epoch = offer.epoch.toNat := by
        obtain ⟨-, -, -, scheme, -, rfl⟩ := prepare_eq_ok.mp fit
        rfl
      have le : s.epoch ≤ info.epoch := epoch ▸ admitted.resolve_right (by simp [never])
      let next : Session :=
        { s with epoch := info.epoch, lastInfo := some info, hasKey := true
                 lastAssembly := some a, lastAuthenticated := some now }
      refine @Turn.installed s decoders next a rfl le ?_
      intro key
      -- With a key, an announcement of the same epoch is passed over.
      refine lt_of_le_of_ne le fun same => ?_
      have lost := new (epoch.symm.trans same.symm)
      rw [key] at lost
      cases lost

theorem Received.turn {now : Moment} {x : Arrival} {recover : Bool} {report : Report}
    {next : Session} (h : Received s now x recover report next) (ready : s.Ready) (decoders : Nat) :
    Turn s decoders (s.assembly.toList.flatMap (fun a => a.handedOver decoders x recover) ++
      s.keyEvents next (report.outcome.map RxOutcome.data)) next := by
  cases h with
  | idle none =>
      rw [none]
      exact .kept rfl rfl rfl
  | forged present outcome =>
      have nothing := (ready _ (assembly_eq_some.mp present).1).deliveries_of_error outcome
      rw [present, outcome]
      simp only [Option.toList_some, List.flatMap_singleton, Assembly.handedOver, nothing]
      exact .dropped _ rfl rfl
  | refused present outcome =>
      have key := (assembly_eq_some.mp present).2
      rw [present, outcome, Except.map, keyEvents, Bool.and_not_self, if_neg (by simp),
        List.append_nil, Option.toList_some, List.flatMap_singleton]
      exact .received present (assembly_eq_some.mpr ⟨rfl, key⟩) rfl
  | taken present outcome =>
      have key := (assembly_eq_some.mp present).2
      rw [present, outcome, Except.map, keyEvents, List.append_nil, Option.toList_some,
        List.flatMap_singleton]
      · exact .received present (assembly_eq_some.mpr ⟨rfl, key⟩) rfl
      · simp

theorem filterMap_keyEvents (s next : Session) (outcome : Except Fault RxOutcome) :
    (s.keyEvents next outcome).filterMap Event.call? = [] := by
  cases outcome with
  | error cause =>
      rw [keyEvents]
      split <;> rfl
  | ok result =>
      cases result with
      | session result =>
          cases result with
          | established info =>
              rw [keyEvents, List.filterMap_map]
              exact List.filterMap_eq_nil_iff.mpr fun _ _ => rfl
          | unchanged => rfl
      | _ => rfl

theorem filterMap_handedOver (decoders : Nat) (a : Assembly) (x : Arrival) (recover : Bool) :
    (a.handedOver decoders x recover).filterMap Event.call? =
      (a.receive x recover).1.deliveries.flatMap fun d =>
        (List.range decoders).map fun i => .decode i d.payload := by
  rw [Assembly.handedOver, List.filterMap_flatMap]
  refine List.flatMap_congr fun d _ => ?_
  rw [List.filterMap_map]
  exact congrFun List.filterMap_eq_map (List.range decoders)

theorem Received.calls {now : Moment} {x : Arrival} {recover : Bool} {report : Report}
    {next : Session} (h : Received s now x recover report next) (decoders : Nat) :
    (s.assembly.toList.flatMap fun a => a.handedOver decoders x recover).filterMap Event.call? =
      report.deliveries.flatMap fun d => (List.range decoders).map fun i => .decode i d.payload := by
  cases h with
  | idle none =>
      rw [none]
      rfl
  | forged present | refused present | taken present =>
      rw [present, Option.toList_some, List.flatMap_singleton, filterMap_handedOver]

/-- A session whose assembly can be used and that admits no lower epoch. -/
structure Strict (s : Session) : Prop where
  ready : s.Ready
  never : s.rollbackAfter = none

end Session

namespace Receiver

variable {r : Receiver}

theorem session_attach (r : Receiver) (consumer : Consumer) :
    ((r.attach consumer).toOption.getD r).session = r.session := by
  cases consumer <;> simp only [attach] <;> split <;> rfl

/-- What an action does, as far as the history tells. -/
structure Stepped (r : Receiver) (events : List Event) (decodes : List Call) (next : Session) :
    Prop where
  turn : r.session.Turn r.decoders events next
  strict : next.Strict
  decodes : decodes = events.filterMap Event.call?

theorem Handled.stepped {now : Moment} {packet : Packet} {carrier : Option UInt32}
    {outcome : Except Fault RxOutcome} {decodes : List Call} {next : Receiver}
    (h : Handled r now packet carrier outcome decodes next) (strict : r.session.Strict)
    {source : Source} {bs : Bytes} (found : r.packet? source bs = some (packet, carrier)) :
    r.Stepped (r.handedOver source bs ++ r.session.keyEvents next.session outcome) decodes
      next.session := by
  unfold handedOver
  rw [found, Option.bind_some]
  cases h with
  | @announced nonce next header alike =>
      have step := r.session.announced now nonce packet.cipher carrier
      have none : packet.arrival? = none := by rw [Packet.arrival?, header]
      rw [none, alike.session]
      refine ⟨step.turn strict.never r.decoders, ⟨step.ready strict.ready, ?_⟩, ?_⟩
      · exact step.alike.rollbackAfter.trans strict.never
      · exact (Session.filterMap_keyEvents ..).symm
  | @received x next arrival alike =>
      have step := r.session.received now x r.recovery
      rw [arrival, alike.session]
      simp only [Option.toList_some, List.flatMap_singleton]
      refine ⟨step.turn strict.ready r.decoders, ⟨step.ready strict.ready, ?_⟩, ?_⟩
      · exact step.alike.rollbackAfter.trans strict.never
      · rw [List.filterMap_append, Session.filterMap_keyEvents, List.append_nil]
        exact (step.calls r.decoders).symm

theorem Took.stepped {now : Moment} {source : Source} {bs : Bytes}
    {outcome : Except Fault RxOutcome} {decodes : List Call} {next : Receiver}
    (h : Took r now source bs outcome decodes next) (strict : r.session.Strict) :
    r.Stepped (r.handedOver source bs ++ r.session.keyEvents next.session outcome) decodes
      next.session := by
  cases h with
  | seen found handled => exact handled.stepped strict found
  | unseen nothing quiet alike =>
      have none : r.handedOver source bs = [] := by rw [handedOver, nothing]; rfl
      have still : r.session.keyEvents r.session outcome = [] := by
        cases outcome with
        | error cause => rw [Session.keyEvents, Bool.and_not_self, if_neg (by simp)]
        | ok result =>
            cases result with
            | session result => exact absurd rfl (quiet result)
            | _ => rfl
      rw [none, alike.session, still]
      exact ⟨.kept rfl rfl rfl, strict, rfl⟩

theorem stepped (strict : r.session.Strict) (action : Action) :
    r.Stepped (r.events action) ((r.act action).1.filter Call.isDecode)
      (r.act action).2.session := by
  cases action with
  | attach consumer =>
      have same : (r.act (.attach consumer)).2.session = r.session := r.session_attach consumer
      exact ⟨same ▸ .kept rfl rfl rfl, same ▸ strict, rfl⟩
  | setRecovery on => exact ⟨.kept rfl rfl rfl, strict, rfl⟩
  | take now source bs => exact (r.took now source bs).stepped strict

theorem events_announced {now : Moment} {source : Source} {bs : Bytes} {packet : Packet}
    {carrier : Option UInt32} {nonce : Octets 24}
    (found : r.packet? source bs = some (packet, carrier))
    (header : packet.header = .session nonce) :
    r.events (.take now source bs) =
      r.session.keyEvents (r.session.announce now nonce packet.cipher carrier).2
        ((r.session.announce now nonce packet.cipher carrier).1.map RxOutcome.session) ∧
      Alike (r.act (.take now source bs)).2
        { r with session := (r.session.announce now nonce packet.cipher carrier).2 } := by
  obtain ⟨outcome, alike⟩ := (r.took now source bs).announced found header
  have none : r.handedOver source bs = [] := by
    rw [handedOver, found, Option.bind_some, Packet.arrival?, header]
    rfl
  rw [events, none, outcome, alike.session]
  exact ⟨rfl, alike⟩

theorem events_received {now : Moment} {source : Source} {bs : Bytes} {packet : Packet}
    {carrier : Option UInt32} {x : Arrival} (found : r.packet? source bs = some (packet, carrier))
    (arrival : packet.arrival? = some x) {a : Assembly} (present : r.session.assembly = some a) :
    r.events (.take now source bs) = a.handedOver r.decoders x r.recovery ++
      r.session.keyEvents (r.session.receive now x r.recovery).2
        ((r.session.receive now x r.recovery).1.outcome.map RxOutcome.data) ∧
      Alike (r.act (.take now source bs)).2
        { r with session := (r.session.receive now x r.recovery).2 } := by
  obtain ⟨outcome, alike⟩ := (r.took now source bs).received found arrival
  have handed : r.handedOver source bs = a.handedOver r.decoders x r.recovery := by
    rw [handedOver, found, Option.bind_some, arrival, present]
    simp
  rw [events, handed, outcome, alike.session]
  exact ⟨rfl, alike⟩

/-- A data packet that is not authentic ends the session. -/
theorem events_forged {now : Moment} {source : Source} {bs : Bytes} {packet : Packet}
    {carrier : Option UInt32} {x : Arrival} (found : r.packet? source bs = some (packet, carrier))
    (arrival : packet.arrival? = some x) {a : Assembly} (present : r.session.assembly = some a)
    {cause : CipherFault} (forged : a.authenticate x = .error (.cipher cause)) :
    r.events (.take now source bs) = [.dropped (.cipher cause)] ∧
      Alike (r.act (.take now source bs)).2
        { r with session := { r.session with lastAssembly := some a, hasKey := false } } := by
  have nothing (recover : Bool) :
      a.receive x recover = ({ outcome := .error (.cipher cause) }, a) := by
    rw [Assembly.receive, forged]
  have received : r.session.receive now x r.recovery = ({ outcome := .error (.cipher cause) },
      { r.session with lastAssembly := some a, hasKey := false }) := by
    rw [Session.receive, present]
    simp only [nothing]
  have hasKey := (Session.assembly_eq_some.mp present).2
  obtain ⟨events, alike⟩ := @events_received r now _ _ _ _ _ found arrival a present
  rw [received] at events alike
  refine ⟨events.trans ?_, alike⟩
  rw [Assembly.handedOver, nothing]
  simp [Session.keyEvents, Report.deliveries, Except.map, hasKey]

/-- The calls of the decoders in a run are those of its history. -/
theorem decodes_history (strict : r.session.Strict) (actions : List Action) :
    (r.calls actions).filter Call.isDecode = (r.history actions).filterMap Event.call? := by
  induction actions generalizing r with
  | nil => rfl
  | cons action actions ih =>
      have step := r.stepped strict action
      rw [calls, history, List.filter_append, List.filterMap_append, step.decodes, ih step.strict]

end Receiver

end AirLink
