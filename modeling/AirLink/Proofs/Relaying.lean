import AirLink.Proofs.Events
import AirLink.Proofs.Frames
import AirLink.Proofs.Lifetime

/-! # A receiver behind a relay

A receiver that is given what another one passes on goes through the same session.  It answers each
datagram as the other answered the captured buffer, and hands over the same payloads.  A buffer that
was not passed on has left no trace in the other's session.
-/

namespace AirLink

namespace Session

/-- Two sessions that differ at most in the time of authentication. -/
def Twin (s t : Session) : Prop := t = { s with lastAuthenticated := t.lastAuthenticated }

variable {s t : Session}

theorem Twin.refl (s : Session) : s.Twin s := rfl

theorem Twin.epoch (twin : s.Twin t) : t.epoch = s.epoch := by
  rw [twin]

/-- If no lower epoch is ever admitted, the time is of no consequence. -/
theorem Twin.announce (twin : s.Twin t) (strict : s.rollbackAfter = none) {carrier other : Option UInt32}
    (expected : carrier.or s.channel = other.or s.channel) (now later : Moment) (nonce : Octets 24)
    (cipher : Bytes) :
    (s.announce now nonce cipher carrier).1 = (t.announce later nonce cipher other).1 ∧
      (s.announce now nonce cipher carrier).2.Twin (t.announce later nonce cipher other).2 := by
  obtain ⟨time, rfl⟩ : ∃ time, t = { s with lastAuthenticated := time } := ⟨_, twin⟩
  let t : Session := { s with lastAuthenticated := time }
  have never := rollbackAllowed_of_none strict now
  have never' := @rollbackAllowed_of_none t strict later
  have read : t.readOffer nonce cipher = s.readOffer nonce cipher := rfl
  change _ = (t.announce later nonce cipher other).1 ∧ Twin _ (t.announce later nonce cipher other).2
  unfold Session.announce
  rw [read]
  cases s.readOffer nonce cipher with
  | error fault => exact ⟨rfl, rfl⟩
  | ok offer =>
      have fit : t.prepare offer other = s.prepare offer carrier := by
        unfold prepare
        rw [expected]
      simp only [never, never']
      by_cases lower : offer.epoch.toNat < s.epoch ∧ !false
      · rw [if_pos lower, if_pos lower]
        exact ⟨rfl, rfl⟩
      by_cases same : offer.epoch.toNat = s.epoch ∧ s.hasKey = true
      · rw [if_neg lower, if_neg lower, if_pos same, if_pos same]
        exact ⟨rfl, rfl⟩
      · rw [if_neg lower, if_neg lower, if_neg same, if_neg same, establish, establish, fit]
        cases s.prepare offer carrier with
        | error fault => exact ⟨rfl, rfl⟩
        | ok result => exact ⟨rfl, rfl⟩

theorem Twin.receive (twin : s.Twin t) (now later : Moment) (x : Arrival) (recover : Bool) :
    (s.receive now x recover).1 = (t.receive later x recover).1 ∧
      (s.receive now x recover).2.Twin (t.receive later x recover).2 := by
  obtain ⟨time, rfl⟩ : ∃ time, t = { s with lastAuthenticated := time } := ⟨_, twin⟩
  let t : Session := { s with lastAuthenticated := time }
  have same : t.assembly = s.assembly := rfl
  change _ = (t.receive later x recover).1 ∧ Twin _ (t.receive later x recover).2
  unfold Session.receive
  rw [same]
  cases s.assembly with
  | none => exact ⟨rfl, rfl⟩
  | some a =>
      cases outcome : (a.receive x recover).1.outcome with
      | ok result =>
          simp only [outcome, true_and]
          rfl
      | error fault =>
          cases fault with
          | cipher cause =>
              simp only [outcome, true_and]
              rfl
          | _ =>
              simp only [outcome, true_and]
              rfl

end Session

/-- The payload that a decoder is handed with a call. -/
def Call.payload? (j : Nat) : Call → Option Bytes
  | decode i payload => if i = j then some payload else none
  | _ => none

/-- The datagram that a relay sends with a call. -/
def Call.datagram? (m : Nat) : Call → Option Bytes
  | relay i info packet => if i = m then Relay.send info packet else none
  | _ => none

namespace Reception

/-- The payloads that decoder `j` is handed. -/
def payloads (x : Reception) (j : Nat) : List Bytes := x.calls.filterMap (Call.payload? j)

/-- The datagrams that relay `m` sends. -/
def datagrams (x : Reception) (m : Nat) : List Bytes := x.calls.filterMap (Call.datagram? m)

/-- The same outcome, and the same payloads for the decoders of either receiver. -/
structure Agrees (decoders others : Nat) (x y : Reception) : Prop where
  outcome : x.outcome = y.outcome
  payloads : ∀ i < decoders, ∀ j < others, x.payloads i = y.payloads j

theorem payloads_filter (x : Reception) (j : Nat) :
    x.payloads j = (x.calls.filter Call.isDecode).filterMap (Call.payload? j) := by
  rw [payloads, List.filterMap_filter]
  refine List.filterMap_congr fun call _ => ?_
  cases call <;> rfl

end Reception

theorem filterMap_range {α : Type} {m n : Nat} (h : m < n) (value : Option α) :
    ((List.range n).filterMap fun i => if i = m then value else none) = value.toList := by
  induction n with
  | zero => cases h
  | succ n ih =>
      rw [List.range_succ, List.filterMap_append]
      by_cases last : n = m
      · subst last
        have none : ((List.range n).filterMap fun i => if i = n then value else none) = [] := by
          rw [List.filterMap_eq_nil_iff]
          intro i hi
          exact if_neg (List.mem_range.mp hi).ne
        rw [none]
        cases value <;> simp
      · rw [ih (by omega)]
        simp [last]

namespace Receiver

variable {r a b t : Receiver} {m : Nat} {c : UInt32}

theorem payloads_decodeCalls {j : Nat} (attached : j < r.decoders) (deliveries : List Delivery) :
    (deliveries.flatMap fun d => r.decodeCalls d.payload).filterMap (Call.payload? j) =
      deliveries.map Delivery.payload := by
  induction deliveries with
  | nil => rfl
  | cons d deliveries ih =>
      have here : (r.decodeCalls d.payload).filterMap (Call.payload? j) = [d.payload] := by
        rw [decodeCalls, List.filterMap_map]
        exact filterMap_range attached (some d.payload)
      rw [List.flatMap_cons, List.filterMap_append, ih, here]
      rfl

theorem datagrams_relayCalls (attached : m < r.relays) (info : FrameInfo) (packet : Bytes) :
    (r.relayCalls info packet).filterMap (Call.datagram? m) = (Relay.send info packet).toList := by
  rw [relayCalls, List.filterMap_map]
  exact filterMap_range attached (Relay.send info packet)

theorem payloads_relayCalls (r : Receiver) (info : FrameInfo) (packet : Bytes) {j : Nat} :
    (r.relayCalls info packet).filterMap (Call.payload? j) = [] := by
  rw [relayCalls, List.filterMap_map, List.filterMap_eq_nil_iff]
  exact fun _ _ => rfl

/-- The calls that handling a packet makes are none of relays. -/
theorem ne_relay_of_handle {now : Moment} {packet : Packet} {carrier : Option UInt32} {call : Call}
    (hc : call ∈ (r.handle now packet carrier).1.calls) (i : Nat) (info : FrameInfo) (bs : Bytes) :
    call ≠ .relay i info bs := by
  unfold handle at hc
  cases header : packet.header with
  | session nonce =>
      simp only [header, announce] at hc
      split at hc
      · cases hc
      · cases hc
      · obtain ⟨i, -, rfl⟩ := List.mem_map.mp hc
        intro same
        cases same
  | data nonce block fragment =>
      simp only [header, receive] at hc
      obtain ⟨d, -, member⟩ := List.mem_flatMap.mp hc
      obtain ⟨i, -, rfl⟩ := List.mem_map.mp member
      intro same
      cases same

theorem datagrams_handle (r : Receiver) (now : Moment) (packet : Packet) (carrier : Option UInt32) :
    (r.handle now packet carrier).1.datagrams m = [] := by
  rw [Reception.datagrams, List.filterMap_eq_nil_iff]
  intro call hc
  cases call with
  | relay i info bs => exact absurd rfl (ne_relay_of_handle hc i info bs)
  | decode | observe => rfl

/-! A relay sends every packet that has been read: none is too large. -/

theorem length_of_parse {bs : Bytes} {packet : Packet} (read : Packet.parse bs = .ok packet) :
    bs.length ≤ Limits.packet := by
  by_contra large
  cases read.symm.trans (Packet.parse_of_limit_lt (Nat.lt_of_not_le large))

theorem send_of_read {bs : Bytes} {packet : Packet} (read : Packet.parse bs = .ok packet) (info : FrameInfo) :
    Relay.send info bs = some (Relay.datagram info bs) := by
  have small := length_of_parse read
  refine if_pos ?_
  rw [Relay.datagram, List.length_append, Relay.Header.encode, Relay.Header.layout_lawful.length]
  have size : Relay.Header.layout.size = 8 := rfl
  have cut : (if info.corrupt then [] else bs : Bytes).length ≤ bs.length := by
    split
    · exact Nat.zero_le _
    · exact le_rfl
  simp only [Limits.packet, Limits.frameSize, Limits.dot11Header] at small
  simp only [Limits.datagram]
  omega

theorem send_of_corrupt {info : FrameInfo} (corrupt : info.corrupt = true) (bs : Bytes) :
    Relay.send info bs = some (Relay.datagram info bs) := by
  refine if_pos ?_
  rw [Relay.datagram, corrupt, if_pos rfl, List.append_nil, Relay.Header.encode,
    Relay.Header.layout_lawful.length]
  decide

/-- What is announced as damaged changes nothing at the other end. -/
theorem relay_corrupt (r : Receiver) {info : FrameInfo} (corrupt : info.corrupt = true) (now : Moment)
    (bs : Bytes) :
    (r.relay now (Relay.datagram info bs)).1 = { outcome := .ok .corrupt } ∧
      Alike (r.relay now (Relay.datagram info bs)).2 r := by
  have parsed := Relay.parse_datagram info bs
  have flagged := (Relay.isCorrupt_normalize info).trans corrupt
  unfold relay
  rw [parsed]
  simp only [flagged, if_true, true_and]
  exact alike_count ..

/-! Two receivers side by side. -/

/-- Another receiver with the session `t` can follow this one: the sessions are the same but for the time,
admit no lower epoch and expect the only channel that this one captures. -/
structure Follows (c : UInt32) (a : Receiver) (t : Session) : Prop where
  settings : a.settings.channel = some c
  channel : a.session.channel = some c
  strict : a.session.rollbackAfter = none
  twin : a.session.Twin t

theorem Follows.of_alike {t u : Session} {next : Receiver} (h : Follows c a t)
    (frame : Alike next { a with session := next.session }) (alike : Session.Alike next.session a.session)
    (twin : next.session.Twin u) : Follows c next u :=
  ⟨(congrArg Settings.channel frame.settings).trans h.settings, alike.channel.trans h.channel,
    alike.rollbackAfter.trans h.strict, twin⟩

theorem Follows.of_same {t : Session} {next : Receiver} (h : Follows c a t) (alike : Alike next a) :
    Follows c next t where
  settings := (congrArg Settings.channel alike.settings).trans h.settings
  channel := (congrArg Session.channel alike.session).trans h.channel
  strict := (congrArg Session.rollbackAfter alike.session).trans h.strict
  twin := alike.session.symm ▸ h.twin

/-- Handling the same packet, the one captured on the channel and the other relayed. -/
theorem Follows.handled {next other : Receiver} (h : Follows c a b.session) (recovery : a.recovery = b.recovery)
    {now later : Moment} {packet : Packet} {outcome outcome' : Except Fault RxOutcome}
    {decodes decodes' : List Call} (here : Handled a now packet (some c) outcome decodes next)
    (there : Handled b later packet none outcome' decodes' other) :
    outcome = outcome' ∧
      (∀ i < a.decoders, ∀ j < b.decoders,
        decodes.filterMap (Call.payload? i) = decodes'.filterMap (Call.payload? j)) ∧
      Follows c next other.session := by
  cases here with
  | @announced nonce _ header alike =>
      obtain ⟨rfl, rfl, alike'⟩ := there.of_session header
      have expected : (some c).or a.session.channel = Option.none.or a.session.channel := by
        rw [h.channel]
        rfl
      obtain ⟨same, twin⟩ := h.twin.announce h.strict expected now later nonce packet.cipher
      have session : next.session = (a.session.announce now nonce packet.cipher (some c)).2 :=
        alike.session
      have session' : other.session = (b.session.announce later nonce packet.cipher none).2 :=
        alike'.session
      rw [← session, ← session'] at twin
      refine ⟨congrArg (·.map RxOutcome.session) same, fun _ _ _ _ => rfl, ?_⟩
      refine h.of_alike alike.except_session ?_ twin
      rw [session]
      exact (Session.announced ..).alike
  | @received x _ arrival alike =>
      obtain ⟨rfl, rfl, alike'⟩ := there.of_data arrival
      obtain ⟨same, twin⟩ := h.twin.receive now later x b.recovery
      have session : next.session = (a.session.receive now x b.recovery).2 :=
        recovery ▸ alike.session
      have session' : other.session = (b.session.receive later x b.recovery).2 := alike'.session
      rw [← session, ← session'] at twin
      rw [recovery]
      refine ⟨congrArg (·.outcome.map RxOutcome.data) same, fun i hi j hj => ?_, ?_⟩
      · rw [payloads_decodeCalls hi, payloads_decodeCalls hj, same]
      · refine h.of_alike alike.except_session ?_ twin
        rw [session]
        exact (Session.received ..).alike

/-- A captured buffer is passed on in one datagram, with which the second receiver can go on, or nothing
at all happens. -/
theorem Captured.relayed {now : Moment} {bs : Bytes} {x : Reception} {next : Receiver}
    (h : Captured a now bs x next) (genuine : isForged x.outcome = false) (attached : m < a.relays)
    (follows : Follows c a b.session) (recovery : a.recovery = b.recovery) :
    (x.datagrams m = [] ∧ x.calls = [] ∧ next.session = a.session ∧ Follows c next b.session) ∨
      ∃ d, x.datagrams m = [d] ∧ ∀ later,
        x.Agrees a.decoders b.decoders (b.relay later d).1 ∧ Follows c next (b.relay later d).2.session := by
  cases h with
  | silent _ _ calls alike =>
      exact .inl ⟨by rw [Reception.datagrams, calls]; rfl, calls, alike.session, follows.of_same alike⟩
  | forged _ _ forged => cases forged.symm.trans genuine
  | @damaged info _ _ corrupt alike =>
      refine .inr ⟨Relay.datagram info [], ?_, fun later => ?_⟩
      · rw [Reception.datagrams, datagrams_relayCalls attached, send_of_corrupt corrupt]
        rfl
      obtain ⟨reception, alike'⟩ := relay_corrupt b corrupt later []
      rw [reception]
      refine ⟨⟨rfl, fun i _ j _ => payloads_relayCalls a info []⟩, ?_⟩
      exact alike'.session ▸ follows.of_same alike
  | @passedOn t _ info rest packet channel _ same intact own read alike =>
      obtain rfl : channel = c := own c follows.settings
      refine .inr ⟨Relay.datagram info rest, ?_, fun later => ?_⟩
      · rw [Reception.datagrams, List.filterMap_append, datagrams_relayCalls attached, send_of_read read]
        have none : (t.handle now packet (some channel)).1.calls.filterMap (Call.datagram? m) = [] :=
          datagrams_handle ..
        rw [none]
        rfl
      have here := handled same now packet (some channel)
      have there := (Receiver.took b later .relay (Relay.datagram info rest)).handled
        (packet?_datagram b intact read)
      obtain ⟨outcome, payloads, follows⟩ := follows.handled recovery here there
      refine ⟨⟨outcome, fun i hi j hj => ?_⟩, ?_⟩
      · have calls : ((t.handle now packet (some channel)).1.calls ++ a.relayCalls info rest).filterMap
            (Call.payload? i) = (t.handle now packet (some channel)).1.payloads i := by
          rw [List.filterMap_append, payloads_relayCalls, List.append_nil, Reception.payloads]
        rw [Reception.payloads, calls, Reception.payloads_filter, Reception.payloads_filter]
        exact payloads i hi j hj
      · exact follows.of_same alike

/-- A buffer that a receiver is given, with the time and the position of the switch. -/
structure Buffer where
  now : Moment
  recover : Bool
  bs : Bytes
  deriving DecidableEq, Repr

def step (r : Receiver) (source : Source) (x : Buffer) : Reception × Receiver :=
  (r.setRecovery x.recover).take x.now source x.bs

/-- Takes buffers one after another.  Also gives what each brought about. -/
def feed (r : Receiver) (source : Source) : List Buffer → List Reception × Receiver
  | [] => ([], r)
  | x :: rest =>
    let (reception, next) := r.step source x
    let (receptions, final) := next.feed source rest
    (reception :: receptions, final)

theorem feed_cons (r : Receiver) (source : Source) (x : Buffer) (rest : List Buffer) :
    r.feed source (x :: rest) = ((r.step source x).1 :: ((r.step source x).2.feed source rest).1,
      ((r.step source x).2.feed source rest).2) := rfl

/-- What relay `m` sends while captured buffers are taken, with the position of the switch. -/
def forwarded (r : Receiver) (m : Nat) : List Buffer → List (Bool × Bytes)
  | [] => []
  | x :: rest => ((r.step .capture x).1.datagrams m).map (x.recover, ·) ++ (r.step .capture x).2.forwarded m rest

/-- Nothing but the session, the counters and the switch changes with a step. -/
theorem step_frame (r : Receiver) (source : Source) (x : Buffer) :
    (r.step source x).2.settings = r.settings ∧ (r.step source x).2.decoders = r.decoders ∧
      (r.step source x).2.relays = r.relays := by
  have frame := (took (r.setRecovery x.recover) x.now source x.bs).frame
  exact ⟨frame.settings, frame.decoders, frame.relays⟩

/-- What one captured buffer does: the relay sends nothing and nothing happens, or it sends one datagram,
with which the second receiver can go on. -/
theorem Follows.step (h : Follows c a b.session) (attached : m < a.relays) (x : Buffer)
    (genuine : isForged (a.step .capture x).1.outcome = false) :
    ((a.step .capture x).1.datagrams m = [] ∧ (a.step .capture x).1.calls = [] ∧
      (a.step .capture x).2.session = a.session ∧ Follows c (a.step .capture x).2 b.session) ∨
    ∃ d, (a.step .capture x).1.datagrams m = [d] ∧ ∀ later,
      (a.step .capture x).1.Agrees a.decoders b.decoders (b.step .relay ⟨later, x.recover, d⟩).1 ∧
      Follows c (a.step .capture x).2 (b.step .relay ⟨later, x.recover, d⟩).2.session := by
  have follows : Follows c (a.setRecovery x.recover) (b.setRecovery x.recover).session :=
    ⟨h.settings, h.channel, h.strict, h.twin⟩
  exact (captured (a.setRecovery x.recover) x.now x.bs).relayed genuine attached follows rfl

/-- A captured buffer of which relay `m` sends nothing has no effect on the session or on any consumer. -/
def Quiet (r : Receiver) (m : Nat) : List Buffer → Prop
  | [] => True
  | x :: rest =>
    ((r.step .capture x).1.datagrams m = [] →
      (r.step .capture x).1.calls = [] ∧ (r.step .capture x).2.session = r.session) ∧
    (r.step .capture x).2.Quiet m rest

theorem Follows.feed (h : Follows c a b.session) (attached : m < a.relays) {air wire : List Buffer}
    (genuine : ∀ x ∈ (a.feed .capture air).1, isForged x.outcome = false)
    (carried : wire.map (fun x => (x.recover, x.bs)) = a.forwarded m air) :
    List.Forall₂ (Reception.Agrees a.decoders b.decoders)
        ((a.feed .capture air).1.filter fun x => !(x.datagrams m).isEmpty) (b.feed .relay wire).1 ∧
      (∀ i < a.decoders, ∀ j < b.decoders, (a.feed .capture air).1.flatMap (·.payloads i) =
        (b.feed .relay wire).1.flatMap (·.payloads j)) ∧
      Follows c (a.feed .capture air).2 (b.feed .relay wire).2.session ∧ a.Quiet m air := by
  induction air generalizing a b wire with
  | nil =>
      obtain rfl := List.map_eq_nil_iff.mp carried
      exact ⟨.nil, fun _ _ _ _ => rfl, h, trivial⟩
  | cons x air ih =>
      obtain ⟨here, later⟩ := List.forall_mem_cons.mp genuine
      obtain ⟨-, decoders, relays⟩ := a.step_frame .capture x
      rcases h.step attached x here with ⟨none, calls, session, follows⟩ | ⟨d, one, go⟩
      · rw [forwarded, none] at carried
        obtain ⟨agree, payloads, follows, quiet⟩ := ih follows (relays ▸ attached) later carried
        rw [decoders] at agree payloads
        refine ⟨?_, fun i hi j hj => ?_, follows, fun _ => ⟨calls, session⟩, quiet⟩
        · rw [feed_cons, List.filter_cons_of_neg (by simp [none])]
          exact agree
        · rw [feed_cons, List.flatMap_cons, payloads i hi j hj, Reception.payloads, calls]
          rfl
      · rw [forwarded, one] at carried
        cases wire with
        | nil => cases carried
        | cons y wire =>
            obtain ⟨same, rest⟩ := List.cons.inj carried
            obtain ⟨recover, rfl⟩ := Prod.mk.inj same
            have answered := go y.now
            rw [← recover] at answered
            obtain ⟨answer, follows⟩ := answered
            obtain ⟨-, others, -⟩ := b.step_frame .relay y
            obtain ⟨agree, payloads, follows, quiet⟩ := ih follows (relays ▸ attached) later rest
            rw [decoders, others] at agree payloads
            refine ⟨?_, fun i hi j hj => ?_, follows, fun none => ?_, quiet⟩
            · rw [feed_cons, feed_cons, List.filter_cons_of_pos (by simp [one])]
              exact .cons answer agree
            · rw [feed_cons, feed_cons, List.flatMap_cons, List.flatMap_cons, payloads i hi j hj,
                answer.payloads i hi j hj]
            · cases one.symm.trans none

/-- A receiver that has been created, with consumers attached. -/
inductive New (settings : Settings) (keys : LinkKeys) : Receiver → Prop where
  | created {r : Receiver} (created : create settings keys = .ok r) : New settings keys r
  | attached {r next : Receiver} {consumer : Consumer} (new : New settings keys r)
      (attached : r.attach consumer = .ok next) : New settings keys next

theorem New.start {settings : Settings} {keys : LinkKeys} (new : New settings keys r) :
    r.settings = settings ∧ r.session = Session.create settings keys := by
  induction new with
  | created created =>
      rw [create_eq_ok created]
      exact ⟨rfl, rfl⟩
  | @attached r next consumer _ attached ih =>
      suffices same : next.settings = r.settings ∧ next.session = r.session from
        ⟨same.1.trans ih.1, same.2.trans ih.2⟩
      unfold attach at attached
      cases consumer with
      | decoder | relay | observer =>
          simp only at attached
          split at attached
          · cases attached
          · cases attached
            exact ⟨rfl, rfl⟩

/-- Of two new receivers with the same settings and keys that admit no lower epoch and receive one
channel only, let the one be fed with what relay `m` of the other sends, with the switch in the same
position.  If nothing that the other captures is forged, then the one answers each datagram as the other
answered the buffer that it comes from, the decoders are handed the same payloads, and the sessions end up
the same but for the time.  A buffer of which nothing was sent had no effect. -/
theorem relay_transparent {settings : Settings} {keys : LinkKeys} (channel : settings.channel = some c)
    (strict : settings.rollbackAfter = none) (newA : New settings keys a) (newB : New settings keys b)
    (attached : m < a.relays) {air wire : List Buffer}
    (genuine : ∀ x ∈ (a.feed .capture air).1, isForged x.outcome = false)
    (carried : wire.map (fun x => (x.recover, x.bs)) = a.forwarded m air) :
    List.Forall₂ (Reception.Agrees a.decoders b.decoders)
        ((a.feed .capture air).1.filter fun x => !(x.datagrams m).isEmpty) (b.feed .relay wire).1 ∧
      (∀ i < a.decoders, ∀ j < b.decoders, (a.feed .capture air).1.flatMap (·.payloads i) =
        (b.feed .relay wire).1.flatMap (·.payloads j)) ∧
      (a.feed .capture air).2.session.Twin (b.feed .relay wire).2.session ∧ a.Quiet m air := by
  obtain ⟨settingsA, sessionA⟩ := newA.start
  obtain ⟨-, sessionB⟩ := newB.start
  have follows : Follows c a b.session := by
    refine ⟨settingsA ▸ channel, sessionA ▸ channel, sessionA ▸ strict, ?_⟩
    rw [sessionA, sessionB]
    exact .refl _
  obtain ⟨agree, payloads, follows, quiet⟩ := follows.feed attached genuine carried
  exact ⟨agree, payloads, follows.twin, quiet⟩

/-! Frames as they are transmitted, captured on their own channel. -/

section onAir

variable {frequency : UInt16} {signal : Int8} (own : r.settings.channel = some c) (now : Moment)
  (recover : Bool) (sequence : UInt16)

include own

theorem step_announcement (nonce : Octets 24) (boxKey : Key) (offer : SessionOffer) (j : Nat) :
    let frame := AirLink.captureFrame c sequence frequency signal
      (Transmitter.sealSession boxKey nonce offer.encode) false
    let announced := r.session.announce now nonce
      (Cipher.SealedBox.encrypt boxKey nonce offer.encode) (some c)
    (r.step .capture ⟨now, recover, frame⟩).1.outcome = announced.1.map RxOutcome.session ∧
      (r.step .capture ⟨now, recover, frame⟩).1.payloads j = [] ∧
      (r.step .capture ⟨now, recover, frame⟩).2.session = announced.2 := by
  intro frame announced
  have found : (r.setRecovery recover).packet? .capture frame = some (_, some c) :=
    packet?_captureFrame _ (fun expected set => Option.some.inj (set.symm.trans own))
      (Packet.parse_session nonce (Packet.length_sealSession boxKey nonce offer))
  obtain ⟨outcome, decodes, alike⟩ :=
    ((took (r.setRecovery recover) now .capture frame).handled found).of_session rfl
  refine ⟨outcome, ?_, alike.session⟩
  rw [Reception.payloads_filter]
  exact congrArg (List.filterMap _) decodes

theorem step_fragment (key : Key) {block fragment : Nat} (hb : block ≤ Limits.blockIndex)
    (hf : fragment < 256) {bs : Bytes} (fits : bs.length ≤ Limits.fragment) {j : Nat}
    (attached : j < r.decoders) :
    let frame := AirLink.captureFrame c sequence frequency signal
      (Transmitter.sealFragment key block fragment bs) false
    let received := r.session.receive now (Packet.sealed key block fragment bs) recover
    (r.step .capture ⟨now, recover, frame⟩).1.outcome = received.1.outcome.map RxOutcome.data ∧
      (r.step .capture ⟨now, recover, frame⟩).1.payloads j = received.1.deliveries.map Delivery.payload ∧
      (r.step .capture ⟨now, recover, frame⟩).2.session = received.2 := by
  intro frame received
  obtain ⟨packet, read, arrival⟩ := Packet.parse_sealFragment key hb hf fits
  have found : (r.setRecovery recover).packet? .capture frame = some (packet, some c) :=
    packet?_captureFrame _ (fun expected set => Option.some.inj (set.symm.trans own)) read
  obtain ⟨outcome, decodes, alike⟩ :=
    ((took (r.setRecovery recover) now .capture frame).handled found).of_data arrival
  refine ⟨outcome, ?_, alike.session⟩
  have same := congrArg (List.filterMap (Call.payload? j)) decodes
  have attached' : j < (r.setRecovery recover).decoders := attached
  rw [payloads_decodeCalls attached'] at same
  rw [Reception.payloads_filter]
  exact same

end onAir

theorem step_nothing (r : Receiver) (now : Moment) (recover : Bool) :
    (r.step .capture ⟨now, recover, []⟩).1 =
        { outcome := .error (.truncated .radiotap Radiotap.minimumLength 0) } ∧
      (r.step .capture ⟨now, recover, []⟩).2.session = r.session := ⟨rfl, rfl⟩

/-- An announcement, a buffer that cannot be read, and a fragment with a payload of one byte. -/
def opening (boxKey key : Key) : List Buffer :=
  let announcement := Transmitter.sealSession boxKey (Octets.fit 24 []) (Session.offerOf 1 1 key).encode
  let fragment := Transmitter.sealFragment key 0 0 [0, 0, 1, 7]
  [⟨0, true, AirLink.captureFrame 0 0 2412 (-40) announcement false⟩, ⟨1, true, []⟩,
    ⟨2, true, AirLink.captureFrame 0 1 2412 (-40) fragment false⟩]

theorem feed_opening {key : Key} (zero : key = ⟨Bytes.zeros 32, rfl⟩) (own : r.settings.channel = some 0)
    (fresh : r.session.epoch = 0) (lost : r.session.hasKey = false) (windowSize : r.session.windowSize = 1)
    (fragmentSize : r.session.fragmentSize = 16) (attached : 0 < r.decoders) :
    (∀ x ∈ (r.feed .capture (opening r.session.boxKey key)).1, isForged x.outcome = false) ∧
      (r.feed .capture (opening r.session.boxKey key)).1.flatMap (·.payloads 0) = [[7]] ∧
      (r.feed .capture (opening r.session.boxKey key)).2.session.epoch = 1 := by
  obtain ⟨a, created, opens⟩ := @Session.announce_offerOf r.session key fresh lost windowSize fragmentSize
    (some 0) (by simp)
  obtain ⟨accepted, delivered⟩ := Session.receive_fragment zero created
  obtain ⟨outcome, nothing, session⟩ := @step_announcement r 0 2412 (-40) own 0 true 0
    (Octets.fit 24 []) r.session.boxKey (Session.offerOf 1 1 key) 0
  rw [opens] at outcome session
  let first := r.step .capture ⟨0, true, AirLink.captureFrame 0 0 2412 (-40)
    (Transmitter.sealSession r.session.boxKey (Octets.fit 24 []) (Session.offerOf 1 1 key).encode) false⟩
  obtain ⟨settings, decoders, -⟩ := r.step_frame .capture ⟨0, true, _⟩
  let second := first.2.step .capture ⟨1, true, []⟩
  obtain ⟨unread, same⟩ := first.2.step_nothing 1 true
  obtain ⟨settings', decoders', -⟩ := first.2.step_frame .capture ⟨1, true, []⟩
  have alive : second.2.session.assembly = some a ∧ second.2.session.epoch = 1 := by
    rw [same, session]
    exact ⟨rfl, rfl⟩
  have own' : second.2.settings.channel = some 0 := by
    rw [settings', settings]
    exact own
  obtain ⟨outcome', handed, session'⟩ := @step_fragment second.2 0 2412 (-40) own' 2 true 1 key
    0 0 (Nat.zero_le _) (by decide) [0, 0, 1, 7] (by decide) 0 (by rw [decoders', decoders]; exact attached)
  have received : second.2.session.receive 2 (Packet.sealed key 0 0 [0, 0, 1, 7]) true = _ :=
    Session.receive_taken alive.1 accepted 2
  rw [received] at outcome' handed session'
  simp only [accepted] at outcome'
  simp only [delivered] at handed
  unfold opening
  simp only [feed, List.forall_mem_cons, List.flatMap_cons]
  refine ⟨⟨?_, ?_, ?_, fun x hx => by cases hx⟩, ?_, ?_⟩
  · rw [outcome]
    rfl
  · rw [unread]
    rfl
  · rw [outcome']
    rfl
  · rw [nothing, unread, handed]
    rfl
  · exact (congrArg Session.epoch session').trans alive.2

/-- A session and a fragment reach a second receiver, and a buffer that cannot be read does not. -/
theorem relay_transparent_session :
    let key : Key := ⟨Bytes.zeros 32, rfl⟩
    let settings : Settings :=
      { channel := some 0, windowSize := 1, fragmentSize := 16, rollbackAfter := none }
    let fresh : Receiver := { settings, session := Session.create settings ⟨key, key⟩, recovery := true }
    let a := { fresh with decoders := 1, relays := 1 }
    let b := { fresh with decoders := 1 }
    let air := opening a.session.boxKey key
    let wire : List Buffer := (a.forwarded 0 air).map fun sent => ⟨5, sent.1, sent.2⟩
    New settings ⟨key, key⟩ a ∧ New settings ⟨key, key⟩ b ∧
      (∀ x ∈ (a.feed .capture air).1, isForged x.outcome = false) ∧
      (b.feed .relay wire).1.flatMap (·.payloads 0) = [[7]] ∧
      (b.feed .relay wire).2.session.epoch = 1 := by
  intro key settings fresh a b air wire
  have newA : New settings ⟨key, key⟩ a := by
    refine @New.attached _ _ { fresh with decoders := 1 } _ .relay ?_ rfl
    exact @New.attached _ _ fresh _ .decoder (.created rfl) rfl
  have newB : New settings ⟨key, key⟩ b := @New.attached _ _ fresh _ .decoder (.created rfl) rfl
  have carried : wire.map (fun x => (x.recover, x.bs)) = a.forwarded 0 air := by
    rw [List.map_map]
    exact List.map_id _
  obtain ⟨genuine, handed, epoch⟩ := @feed_opening a key rfl rfl rfl rfl rfl rfl Nat.zero_lt_one
  obtain ⟨-, same, twin, -⟩ :=
    @relay_transparent a b 0 0 settings ⟨key, key⟩ rfl rfl newA newB Nat.zero_lt_one air wire genuine carried
  exact ⟨newA, newB, genuine, (same 0 Nat.zero_lt_one 0 Nat.zero_lt_one).symm.trans handed,
    twin.epoch.trans epoch⟩

end Receiver

end AirLink
