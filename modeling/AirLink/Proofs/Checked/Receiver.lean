import Mathlib.Data.List.Infix
import AirLink.Proofs.Checked.Radiotap
import AirLink.Proofs.Checked.Session
import AirLink.Proofs.Forgery

/-! # The receiver in checked steps

The stages that a buffer goes through are put together.  A run of a checked receiver ends with what the
receiver comes to, whatever the buffers hold and whatever is in the packets that authenticate, as long as
there are words for the counters.  So no word overflows on the way, nothing outside of a buffer, a window
or a matrix is looked at, and every loop ends.
-/

namespace AirLink

namespace Counters

/-- All counters. -/
def values (c : Counters) : List Nat :=
  [c.radiotapFaults, c.badChecksums, c.otherChannels, c.frameFaults, c.captured, c.relayHeaderFaults,
    c.relayCorrupt, c.relayPacketFaults, c.relayed, c.passedOn, c.delivered, c.deliveredBytes, c.sessions,
    c.sessionRejects, c.authFailures, c.duplicates, c.outOfWindow, c.recoveries, c.rebuilt, c.lost]

/-- There are words for all counters. -/
def Fit (c : Counters) : Prop := ∀ n ∈ c.values, n < 2 ^ 64

instance (c : Counters) : Decidable c.Fit := inferInstanceAs (Decidable (∀ n ∈ c.values, n < 2 ^ 64))

end Counters

deriving instance DecidableEq for Reception

namespace Receiver

variable {r : Receiver}

/-- An announcement, as it comes over the wire. -/
def Action.announcement (boxKey : Key) (offer : SessionOffer) : Action :=
  .take 0 .relay (Relay.datagram ⟨0, 0, false⟩ (Transmitter.sealSession boxKey (Octets.fit 24 []) offer.encode))

/-- A fragment, as it comes over the wire. -/
def Action.fragment (key : Key) (x : Intake) : Action :=
  .take 0 .relay (Relay.datagram ⟨0, 0, false⟩ (Transmitter.sealFragment key x.block x.fragment x.plain))

theorem act_announcement {offer : SessionOffer} {info : SessionInfo} {a : Assembly}
    (prepared : r.session.prepare offer none = .ok (info, a)) (admitted : r.session.epoch ≤ offer.epoch.toNat)
    (new : offer.epoch.toNat = r.session.epoch → r.session.hasKey = false) :
    r.reception? (.announcement r.session.boxKey offer) =
        some { outcome := .ok (.session (.established info)), calls := r.observeCalls info } ∧
      (r.act (.announcement r.session.boxKey offer)).2 = { r with
        session := { r.session with
          epoch := info.epoch, lastInfo := some info, hasKey := true, lastAssembly := some a
          lastAuthenticated := some 0 }
        counters := { r.counters with relayed := r.counters.relayed + 1, sessions := r.counters.sessions + 1 } } := by
  have installs := @Session.announce_sealed r.session 0 (Octets.fit 24 []) offer none admitted new
  rw [Session.establish, prepared] at installs
  have taken : r.take 0 .relay (Relay.datagram ⟨0, 0, false⟩
      (Transmitter.sealSession r.session.boxKey (Octets.fit 24 []) offer.encode)) = _ :=
    r.take_datagram 0 (show FrameInfo.corrupt ⟨0, 0, false⟩ = false from rfl)
      (Packet.parse_session (Octets.fit 24 []) (Packet.length_sealSession r.session.boxKey (Octets.fit 24 []) offer))
  constructor
  · rw [Action.announcement, reception?, taken]
    simp only [handle, announce, count, installs]
    rfl
  · rw [Action.announcement, act, taken]
    simp only [handle, announce, count, installs]

/-- What a receiver makes of a fragment that is taken in. -/
def reception (r : Receiver) (report : Report) : Reception where
  outcome := report.outcome.map .data
  calls := report.deliveries.flatMap fun d => r.decodeCalls d.payload
  gaps := report.gaps

/-- Counts a fragment that comes over the wire. -/
def tally (c : Counters) (report : Report) : Counters :=
  Counters.absorbSession { c with relayed := c.relayed + 1 } report

theorem act_fragment {a : Assembly} (ready : a.Ready) (alive : r.session.assembly = some a) {x : Intake}
    (fits : x.Fits a.code.n a.window.fragmentSize) (small : a.window.fragmentSize ≤ Limits.fragment)
    (recovery : x.recover = r.recovery) {outcome : DataOutcome}
    (taken : (a.accept x.block x.fragment x.plain x.recover).1.outcome = .ok outcome) :
    let accepted := a.accept x.block x.fragment x.plain x.recover
    r.reception? (.fragment a.key x) = some (reception r accepted.1) ∧
      (r.act (.fragment a.key x)).2 = { r with
        session := { r.session with lastAssembly := some accepted.2, lastAuthenticated := some 0 }
        counters := tally r.counters accepted.1 } := by
  intro accepted
  have few : x.fragment < 256 := fits.2.1.trans_le (ready.sound.few.trans (by decide))
  obtain ⟨packet, read, arrival⟩ :=
    Packet.parse_sealFragment a.key fits.1 few (fits.2.2.2.trans small)
  have arrived := r.take_datagram 0 (show FrameInfo.corrupt ⟨0, 0, false⟩ = false from rfl) read
  rw [handle_arrival arrival] at arrived
  have opened := Assembly.receive_sealed fits
  rw [← opened] at taken
  have received := Session.receive_taken alive taken 0
  rw [opened] at received
  constructor
  · rw [Action.fragment, reception?, arrived, receive]
    simp only [count, ← recovery, received]
    rfl
  · rw [Action.fragment, act, arrived, receive]
    simp only [count, ← recovery, received]
    rfl

/-- Fragments that come over the wire reach the assembly of the session one after the other. -/
theorem perform_fragments {a : Assembly} (ready : a.Ready) (alive : r.session.assembly = some a)
    {fragments : List Intake} (fits : ∀ x ∈ fragments, x.Fits a.code.n a.window.fragmentSize)
    (small : a.window.fragmentSize ≤ Limits.fragment) (recovery : ∀ x ∈ fragments, x.recover = r.recovery)
    (taken : ∀ report ∈ (a.takeIn fragments).1, ∃ outcome, report.outcome = .ok outcome) :
    let run := r.perform (fragments.map (.fragment a.key))
    run.1 = (a.takeIn fragments).1.map (reception r) ∧
      run.2.counters = (a.takeIn fragments).1.foldl tally r.counters := by
  induction fragments generalizing a r with
  | nil => exact ⟨rfl, rfl⟩
  | cons x fragments ih =>
      let accepted := a.accept x.block x.fragment x.plain x.recover
      have parts : a.takeIn (x :: fragments) =
          (accepted.1 :: (accepted.2.takeIn fragments).1, (accepted.2.takeIn fragments).2) := rfl
      rw [parts] at taken ⊢
      obtain ⟨here, others⟩ := List.forall_mem_cons.mp fits
      obtain ⟨same, recovery⟩ := List.forall_mem_cons.mp recovery
      obtain ⟨⟨outcome, first⟩, taken⟩ := List.forall_mem_cons.mp taken
      obtain ⟨received, next⟩ := act_fragment ready alive here small same first
      obtain ⟨ready', key, code, size⟩ := ready.accept_sealed here
      have alive' : (r.act (.fragment a.key x)).2.session.assembly = some accepted.2 := by
        rw [next]
        exact Session.assembly_eq_some.mpr ⟨rfl, (Session.assembly_eq_some.mp alive).2⟩
      rw [← code, ← size] at others
      rw [← size] at small
      obtain ⟨receptions, counters⟩ := @ih (r.act (.fragment a.key x)).2 accepted.2 ready' alive' others small
        (by rw [next]; exact recovery) taken
      rw [key, next] at receptions counters
      simp only [List.map_cons, perform, received, next]
      exact ⟨congrArg (reception r accepted.1 :: ·) receptions, counters⟩

/-- The fragments after an announcement that is admitted reach a new assembly, as they were before they were
sealed. -/
theorem perform_announced {offer : SessionOffer} {info : SessionInfo} {a : Assembly}
    (prepared : r.session.prepare offer none = .ok (info, a)) (admitted : r.session.epoch ≤ offer.epoch.toNat)
    (new : offer.epoch.toNat = r.session.epoch → r.session.hasKey = false)
    (small : r.session.fragmentSize ≤ Limits.fragment) {fragments : List Intake}
    (fits : ∀ x ∈ fragments, x.Fits offer.n.toNat r.session.fragmentSize)
    (recovery : ∀ x ∈ fragments, x.recover = r.recovery)
    (taken : ∀ report ∈ (a.takeIn fragments).1, ∃ outcome, report.outcome = .ok outcome) :
    let run := r.perform (.announcement r.session.boxKey offer :: fragments.map (.fragment offer.key))
    run.1 = { outcome := .ok (.session (.established info)), calls := r.observeCalls info } ::
        (a.takeIn fragments).1.map (reception r) ∧
      run.2.counters = (a.takeIn fragments).1.foldl tally
        { r.counters with relayed := r.counters.relayed + 1, sessions := r.counters.sessions + 1 } := by
  obtain ⟨-, -, created, -⟩ := Session.prepare_eq_ok.mp prepared
  obtain ⟨ready, -, -, size, key, -, n⟩ := Assembly.create_ready created
  rw [← n, ← size] at fits
  rw [← size] at small
  obtain ⟨announced, established⟩ := act_announcement prepared admitted new
  have alive : (r.act (.announcement r.session.boxKey offer)).2.session.assembly = some a := by
    rw [established]
    rfl
  obtain ⟨receptions, counters⟩ := perform_fragments ready alive fits small (by rw [established]; exact recovery) taken
  rw [key, established] at receptions counters
  simp only [perform, announced, established]
  exact ⟨congrArg (_ :: ·) receptions, counters⟩

end Receiver

namespace Checked

/-- A receiver with the assembly of its session on the side. -/
structure Receiver where
  base : AirLink.Receiver
  link : Option Assembly

namespace Receiver

open AirLink.Receiver (Action isForged reception tally)

def session (r : Receiver) : Session := ⟨r.base.session, r.link⟩

def withSession (r : Receiver) (s : Session) : Receiver := ⟨{ r.base with session := s.base }, s.link⟩

def count (r : Receiver) (f : Counters → Counters) : Receiver := { r with base := r.base.count f }

def refuse (r : Receiver) (fault : Fault) (f : Counters → Counters) : Reception × Receiver :=
  ({ outcome := .error fault }, r.count f)

def passOn (r : Receiver) (info : FrameInfo) (packet : Bytes) : List Call × Receiver :=
  ((r.base.passOn info packet).1, { r with base := (r.base.passOn info packet).2 })

def announce (r : Receiver) (now : Moment) (nonce : Octets 24) (cipher : Bytes) (carrier : Option UInt32) :
    Option (Reception × Receiver) := do
  let (outcome, session) ← r.session.announce now nonce cipher carrier
  let r := r.withSession session
  match outcome with
  | .error fault => return r.refuse fault fun c => { c with sessionRejects := c.sessionRejects + 1 }
  | .ok .unchanged => return ({ outcome := .ok (.session .unchanged) }, r)
  | .ok (.established info) =>
    return ({ outcome := .ok (.session (.established info)), calls := r.base.observeCalls info },
      r.count fun c => { c with sessions := c.sessions + 1 })

def receive (r : Receiver) (now : Moment) (x : Arrival) : Option (Reception × Receiver) := do
  let ((report, deliveries), session) ← r.session.receive now x r.base.recovery
  return (
    { outcome := report.outcome.map .data
      calls := deliveries.flatMap fun d => r.base.decodeCalls d.payload
      gaps := report.gaps },
    (r.withSession session).count (·.absorbSession report))

def handle (r : Receiver) (now : Moment) (packet : AirLink.Packet) (carrier : Option UInt32) :
    Option (Reception × Receiver) :=
  match packet.header with
  | .session nonce => r.announce now nonce packet.cipher carrier
  | .data nonce block fragment =>
    r.receive now { nonce, block, fragment, clear := packet.clear, cipher := packet.cipher }

/-- Handles the packet of a captured frame and passes the frame on, unless it is forged. -/
def handleCaptured (r : Receiver) (now : Moment) (info : FrameInfo) (bs : Bytes) (packet : AirLink.Packet)
    (carrier : UInt32) : Option (Reception × Receiver) := do
  let r := r.count fun c => { c with captured := c.captured + 1 }
  let (reception, r) ← r.handle now packet (some carrier)
  if isForged reception.outcome then return (reception, r)
  else
    let (calls, r) := r.passOn info bs
    return ({ reception with calls := reception.calls ++ calls }, r)

/-- Handles the frame of a captured buffer that arrived undamaged. -/
def captureFrame (r : Receiver) (now : Moment) (info : FrameInfo) (frame : Bytes) :
    Option (Reception × Receiver) := do
  let framed ← Dot11.parse frame
  match framed with
  | .error fault => return r.refuse fault fun c => { c with frameFaults := c.frameFaults + 1 }
  | .ok (header, bs) =>
    if r.base.settings.channel.any (· ≠ header.channel) then
      return ({ outcome := .ok .otherChannel }, r.count fun c => { c with otherChannels := c.otherChannels + 1 })
    else
      let parsed ← Packet.parse bs
      match parsed with
      | .error fault => return r.refuse fault fun c => { c with frameFaults := c.frameFaults + 1 }
      | .ok packet => r.handleCaptured now info bs packet header.channel

/-- Takes the check sequence off, if there is one. -/
def strip (r : Receiver) (header : AirLink.Radiotap.Header) (rest : Bytes) : Option (Except Fault (Bytes × Bool)) :=
  if header.hasChecksum then Checksum.strip rest r.base.settings.verifyChecksum else some (.ok (rest, true))

def capture (r : Receiver) (now : Moment) (bs : Bytes) : Option (Reception × Receiver) := do
  let tapped ← Radiotap.parse bs
  match tapped with
  | .error fault => return r.refuse fault fun c => { c with radiotapFaults := c.radiotapFaults + 1 }
  | .ok (header, rest) =>
    let stripped ← r.strip header rest
    match stripped with
    | .error fault => return r.refuse fault fun c => { c with frameFaults := c.frameFaults + 1 }
    | .ok (frame, intact) =>
      let info : FrameInfo := ⟨header.frequency, header.strength, header.badChecksum || !intact⟩
      if info.corrupt then
        let r := r.count fun c => { c with badChecksums := c.badChecksums + 1 }
        let (calls, r) := r.passOn info []
        return ({ outcome := .ok .corrupt, calls }, r)
      else r.captureFrame now info frame

def relay (r : Receiver) (now : Moment) (bs : Bytes) : Option (Reception × Receiver) := do
  let relayed ← Relay.parse bs
  match relayed with
  | .error fault => return r.refuse fault fun c => { c with relayHeaderFaults := c.relayHeaderFaults + 1 }
  | .ok (header, rest) =>
    if header.isCorrupt then
      return ({ outcome := .ok .corrupt }, r.count fun c => { c with relayCorrupt := c.relayCorrupt + 1 })
    else
      let parsed ← Packet.parse rest
      match parsed with
      | .error fault => return r.refuse fault fun c => { c with relayPacketFaults := c.relayPacketFaults + 1 }
      | .ok packet => (r.count fun c => { c with relayed := c.relayed + 1 }).handle now packet none

def take (r : Receiver) (now : Moment) : Source → Bytes → Option (Reception × Receiver)
  | .capture, bs => r.capture now bs
  | .relay, bs => r.relay now bs

/-- Does something with a receiver.  A buffer must leave counters that there are words for. -/
def act (r : Receiver) : Action → Option (Option Reception × Receiver)
  | .take now source bs => do
    let (reception, r) ← r.take now source bs
    if r.base.counters.Fit then return (some reception, r) else none
  | .attach consumer => some (none, { r with base := (r.base.attach consumer).toOption.getD r.base })
  | .setRecovery on => some (none, { r with base := r.base.setRecovery on })

/-- What becomes of every buffer of a run, and the receiver afterwards. -/
def perform (r : Receiver) : List Action → Option (List Reception × Receiver)
  | [] => some ([], r)
  | action :: rest => do
    let (reception, r) ← r.act action
    let (receptions, r) ← r.perform rest
    return (reception.toList ++ receptions, r)

def of (r : AirLink.Receiver) : Receiver :=
  ⟨{ r with session := { r.session with lastAssembly := none } }, r.session.lastAssembly.map Assembly.of⟩

/-- A checked computation has a result, and it is the given one. -/
structure Agrees (checked : Option (Reception × Receiver)) (result : Reception × AirLink.Receiver) : Prop where
  eq : checked = some (result.1, of result.2)
  fit : Session.Fit result.2.session

variable {r : AirLink.Receiver}

theorem announce_of (fit : Session.Fit r.session) (now : Moment) (nonce : Octets 24) (cipher : Bytes)
    (carrier : Option UInt32) :
    Agrees ((of r).announce now nonce cipher carrier) (r.announce now nonce cipher carrier) := by
  obtain ⟨announced, fits⟩ := Session.announce_of fit now nonce cipher carrier
  unfold announce AirLink.Receiver.announce
  cases outcome : (r.session.announce now nonce cipher carrier).1 with
  | error fault =>
      rw [outcome] at announced
      simp only [outcome]
      exact ⟨step announced rfl, fits⟩
  | ok became =>
      rw [outcome] at announced
      cases became with
      | unchanged =>
          simp only [outcome]
          exact ⟨step announced rfl, fits⟩
      | established info =>
          simp only [outcome]
          exact ⟨step announced rfl, fits⟩

theorem receive_of (fit : Session.Fit r.session) (now : Moment) (x : Arrival) :
    Agrees ((of r).receive now x) (r.receive now x) := by
  obtain ⟨received, fits⟩ := Session.receive_of fit now x r.recovery
  exact ⟨step received rfl, fits⟩

theorem handle_of (fit : Session.Fit r.session) (now : Moment) (packet : AirLink.Packet) (carrier : Option UInt32) :
    Agrees ((of r).handle now packet carrier) (r.handle now packet carrier) := by
  unfold handle AirLink.Receiver.handle
  cases packet.header with
  | session nonce => exact announce_of fit now nonce packet.cipher carrier
  | data nonce block fragment => exact receive_of fit now _

theorem passOn_of (r : AirLink.Receiver) (info : FrameInfo) (packet : Bytes) :
    (of r).passOn info packet = ((r.passOn info packet).1, of (r.passOn info packet).2) ∧
      (r.passOn info packet).2.session = r.session := by
  unfold passOn AirLink.Receiver.passOn
  by_cases none : r.relays = 0
  · have base : (of r).base.relays = 0 := none
    rw [if_pos none]
    exact ⟨by rw [if_pos base]; rfl, rfl⟩
  · have base : ¬(of r).base.relays = 0 := none
    rw [if_neg none]
    exact ⟨by rw [if_neg base]; rfl, rfl⟩

theorem handleCaptured_of (fit : Session.Fit r.session) (now : Moment) (info : FrameInfo) (bs : Bytes)
    (packet : AirLink.Packet) (carrier : UInt32) :
    Agrees ((of r).handleCaptured now info bs packet carrier) (r.handleCaptured now info bs packet carrier) := by
  let t := r.count fun c => { c with captured := c.captured + 1 }
  obtain ⟨handled, fits⟩ := @handle_of t fit now packet carrier
  have parts : r.handleCaptured now info bs packet carrier =
      let result := t.handle now packet (some carrier)
      if isForged result.1.outcome then result
      else ({ result.1 with calls := result.1.calls ++ (result.2.passOn info bs).1 },
        (result.2.passOn info bs).2) := rfl
  rw [parts]
  generalize t.handle now packet (some carrier) = result at handled fits
  dsimp only
  by_cases forged : isForged result.1.outcome
  · rw [if_pos forged]
    exact ⟨step handled (if_pos forged), fits⟩
  · rw [if_neg forged]
    obtain ⟨passed, same⟩ := passOn_of result.2 info bs
    refine ⟨step handled ((if_neg forged).trans ?_), same ▸ fits⟩
    rw [passed]
    rfl

theorem captureFrame_of (fit : Session.Fit r.session) (now : Moment) (info : FrameInfo) (frame : Bytes) :
    Agrees ((of r).captureFrame now info frame) (r.captureFrame now info frame) := by
  have framed := Dot11.parse_eq frame
  unfold captureFrame AirLink.Receiver.captureFrame
  cases result : AirLink.Dot11.parse frame with
  | error fault =>
      rw [result] at framed
      exact ⟨step framed rfl, fit⟩
  | ok framing =>
      obtain ⟨header, bs⟩ := framing
      rw [result] at framed
      dsimp only
      by_cases other : r.settings.channel.any (· ≠ header.channel)
      · rw [if_pos other]
        exact ⟨step framed (if_pos other), fit⟩
      rw [if_neg other]
      have parsed := Packet.parse_eq bs
      cases read : AirLink.Packet.parse bs with
      | error fault =>
          rw [read] at parsed
          exact ⟨step framed ((if_neg other).trans (step parsed rfl)), fit⟩
      | ok packet =>
          rw [read] at parsed
          obtain ⟨handled, fits⟩ := handleCaptured_of fit now info bs packet header.channel
          exact ⟨step framed ((if_neg other).trans (step parsed handled)), fits⟩

theorem strip_of (r : AirLink.Receiver) (header : AirLink.Radiotap.Header) (rest : Bytes) :
    (of r).strip header rest = some (if header.hasChecksum then
      AirLink.Checksum.strip rest r.settings.verifyChecksum else .ok (rest, true)) := by
  unfold strip
  split
  · exact Checksum.strip_eq rest r.settings.verifyChecksum
  · rfl

theorem capture_of (fit : Session.Fit r.session) (now : Moment) (bs : Bytes) :
    Agrees ((of r).capture now bs) (r.capture now bs) := by
  have tapped := Radiotap.parse_eq bs
  unfold capture AirLink.Receiver.capture
  cases result : AirLink.Radiotap.parse bs with
  | error fault =>
      rw [result] at tapped
      exact ⟨step tapped rfl, fit⟩
  | ok tap =>
      obtain ⟨header, rest⟩ := tap
      rw [result] at tapped
      have stripped := strip_of r header rest
      dsimp only
      generalize (if header.hasChecksum then AirLink.Checksum.strip rest r.settings.verifyChecksum
        else .ok (rest, true)) = bare at stripped
      cases bare with
      | error fault => exact ⟨step tapped (step stripped rfl), fit⟩
      | ok frame =>
          obtain ⟨frame, intact⟩ := frame
          dsimp only
          let info : FrameInfo := ⟨header.frequency, header.strength, header.badChecksum || !intact⟩
          by_cases corrupt : info.corrupt
          · obtain ⟨passed, same⟩ :=
              passOn_of (r.count fun c => { c with badChecksums := c.badChecksums + 1 }) info []
            rw [if_pos corrupt]
            refine ⟨step tapped (step stripped ((if_pos corrupt).trans ?_)), same ▸ fit⟩
            exact congrArg
              (fun passed => some (({ outcome := .ok .corrupt, calls := passed.1 } : Reception), passed.2)) passed
          · obtain ⟨captured, fits⟩ := captureFrame_of fit now info frame
            rw [if_neg corrupt]
            exact ⟨step tapped (step stripped ((if_neg corrupt).trans captured)), fits⟩

theorem relay_of (fit : Session.Fit r.session) (now : Moment) (bs : Bytes) :
    Agrees ((of r).relay now bs) (r.relay now bs) := by
  have relayed := Relay.parse_eq bs
  unfold relay AirLink.Receiver.relay
  cases result : Relay.Header.parse bs with
  | error fault =>
      rw [result] at relayed
      exact ⟨step relayed rfl, fit⟩
  | ok header =>
      obtain ⟨header, rest⟩ := header
      rw [result] at relayed
      dsimp only
      by_cases corrupt : header.isCorrupt
      · rw [if_pos corrupt]
        exact ⟨step relayed (if_pos corrupt), fit⟩
      rw [if_neg corrupt]
      have parsed := Packet.parse_eq rest
      cases read : AirLink.Packet.parse rest with
      | error fault =>
          rw [read] at parsed
          exact ⟨step relayed ((if_neg corrupt).trans (step parsed rfl)), fit⟩
      | ok packet =>
          rw [read] at parsed
          obtain ⟨handled, fits⟩ :=
            @handle_of (r.count fun c => { c with relayed := c.relayed + 1 }) fit now packet none
          exact ⟨step relayed ((if_neg corrupt).trans (step parsed handled)), fits⟩

theorem take_of (fit : Session.Fit r.session) (now : Moment) (source : Source) (bs : Bytes) :
    Agrees ((of r).take now source bs) (r.take now source bs) := by
  cases source with
  | capture => exact capture_of fit now bs
  | relay => exact relay_of fit now bs

theorem attach_of (r : AirLink.Receiver) (consumer : Consumer) :
    (of r).base.attach consumer = (r.attach consumer).map fun t => (of t).base := by
  cases consumer with
  | decoder =>
      by_cases full : r.settings.maxDecoders ≤ r.decoders <;> simp [AirLink.Receiver.attach, of, full, Except.map]
  | relay =>
      by_cases full : r.settings.maxRelays ≤ r.relays <;> simp [AirLink.Receiver.attach, of, full, Except.map]
  | observer =>
      by_cases full : AirLink.Receiver.maxObservers ≤ r.observers <;>
        simp [AirLink.Receiver.attach, of, full, Except.map]

theorem session_attach {consumer : Consumer} {t : AirLink.Receiver} (attached : r.attach consumer = .ok t) :
    t.session = r.session := by
  unfold AirLink.Receiver.attach at attached
  split at attached <;> split at attached <;> cases attached <;> rfl

/-- Whatever is done with a receiver has a result, unless a counter overflows. -/
theorem act_of (fit : Session.Fit r.session) {action : Action} (counters : (r.act action).2.counters.Fit) :
    (of r).act action = some (r.reception? action, of (r.act action).2) ∧ Session.Fit (r.act action).2.session := by
  cases action with
  | take now source bs =>
      obtain ⟨taken, fits⟩ := take_of fit now source bs
      exact ⟨step taken (if_pos counters), fits⟩
  | attach consumer =>
      have attached := attach_of r consumer
      change some (none, ⟨((of r).base.attach consumer).toOption.getD (of r).base, (of r).link⟩) =
          some (none, of ((r.attach consumer).toOption.getD r)) ∧
        Session.Fit ((r.attach consumer).toOption.getD r).session
      rw [attached]
      cases result : r.attach consumer with
      | error fault => exact ⟨rfl, fit⟩
      | ok t =>
          have same := session_attach result
          have link : (of r).link = (of t).link := by
            change r.session.lastAssembly.map _ = t.session.lastAssembly.map _
            rw [same]
          exact ⟨by rw [link]; rfl, same.symm ▸ fit⟩
  | setRecovery on => exact ⟨rfl, fit⟩

theorem perform_of (fit : Session.Fit r.session) {actions : List Action}
    (counters : ∀ before, before <+: actions → (r.perform before).2.counters.Fit) :
    (of r).perform actions = some ((r.perform actions).1, of (r.perform actions).2) := by
  induction actions generalizing r with
  | nil => rfl
  | cons action rest ih =>
      have first := counters [action] ⟨rest, rfl⟩
      obtain ⟨acted, fits⟩ := act_of fit first
      have others := ih fits fun before part =>
        counters (action :: before) ((List.prefix_cons_inj action).mpr part)
      exact step acted (step others rfl)

/-- The counters fit at each moment of a run if they do at its start and at each moment after the first
action. -/
theorem counters_cons {action : Action} {rest : List Action} (start : r.counters.Fit)
    (others : ∀ before, before <+: rest → ((r.act action).2.perform before).2.counters.Fit) (before : List Action)
    (part : before <+: action :: rest) : (r.perform before).2.counters.Fit := by
  cases before with
  | nil => exact start
  | cons first before =>
      obtain ⟨rfl, behind⟩ := List.cons_prefix_cons.mp part
      exact others before behind

theorem counters_append {before after : List Action}
    (early : ∀ part, part <+: before → (r.perform part).2.counters.Fit)
    (late : ∀ part, part <+: after → ((r.perform before).2.perform part).2.counters.Fit) (part : List Action)
    (inside : part <+: before ++ after) : (r.perform part).2.counters.Fit := by
  rcases List.prefix_or_prefix_of_prefix inside (List.prefix_append before after) with short | ⟨rest, rfl⟩
  · exact early part short
  · rw [AirLink.Receiver.perform_append]
    exact late rest ((List.prefix_append_right_inj before).mp inside)

/-- What is done before there is a session: buffers are taken that are cut off, that are not a packet, and that
are a data packet. -/
def strays : List Action :=
  [.attach .decoder, .take 0 .capture [0, 0, 8, 0], .take 0 .relay (Bytes.zeros 17), .setRecovery true,
    .take 0 .relay (Bytes.zeros 8 ++ 1 :: Bytes.zeros 8)]

/-- Of a block of two, the second fragment and the one for parity. -/
def incomplete : List Intake := [⟨0, 1, [0, 0, 1, 7], true⟩, ⟨0, 2, [0, 0, 1, 21], true⟩]

/-- No buffer brings a receiver down.  What it does with any buffers, in any order and with any consumers
attached on the way, it does in checked steps too. -/
theorem perform_total {settings : Settings} {keys : LinkKeys}
    (created : AirLink.Receiver.create settings keys = .ok r) (actions : List Action)
    (counters : ∀ before, before <+: actions → (r.perform before).2.counters.Fit) :
    (of r).perform actions = some ((r.perform actions).1, of (r.perform actions).2) := by
  have new : Session.Fit r.session := by
    rw [AirLink.Receiver.create_eq_ok created]
    exact nofun
  exact perform_of new counters

/-- After some strays a session is announced, and of its first block the first fragment is rebuilt. -/
theorem perform_total_rebuilt :
    let key : Key := ⟨Bytes.zeros 32, rfl⟩
    let keys : LinkKeys := ⟨key, key⟩
    let actions := strays ++ .announcement keys.boxKey ⟨1, 0, 1, 2, 3, key⟩ :: incomplete.map (.fragment key)
    ∃ r next, AirLink.Receiver.create { windowSize := 1, fragmentSize := 16 } keys = .ok r ∧
      (of r).perform actions = some (
        [{ outcome := .error (.truncated .radiotap 8 4) }, { outcome := .error (.unknownPacketType 0) },
          { outcome := .ok (.data .noSession) },
          { outcome := .ok (.session (.established ⟨1, 0, .vandermonde, 2, 3⟩)) },
          { outcome := .ok (.data .accepted) },
          { outcome := .ok (.data .accepted), calls := [.decode 0 [9], .decode 0 [7]] }], of next) ∧
      next.counters.rebuilt = 1 := by
  intro key keys actions
  let offer : SessionOffer := ⟨1, 0, 1, 2, 3, key⟩
  let r : AirLink.Receiver :=
    { settings := { windowSize := 1, fragmentSize := 16 }
      session := AirLink.Session.create { windowSize := 1, fragmentSize := 16 } keys
      recovery := true }
  have created : AirLink.Receiver.create { windowSize := 1, fragmentSize := 16 } keys = .ok r := rfl
  let s := { r with decoders := 1, counters := { radiotapFaults := 1, relayPacketFaults := 1, relayed := 1 } }
  have passed : r.perform strays = ([{ outcome := .error (.truncated .radiotap 8 4) },
      { outcome := .error (.unknownPacketType 0) }, { outcome := .ok (.data .noSession) }], s) := rfl
  have early : ∀ before ∈ strays.inits, (r.perform before).2.counters.Fit := by decide +kernel
  let counted : Counters := { radiotapFaults := 1, relayPacketFaults := 1, relayed := 2, sessions := 1 }
  -- Only the assembly is evaluated here.  How the fragments are opened is in `perform_announced`.
  have late : ∀ a ∈ (AirLink.Assembly.create key 2 3 1 16).toOption,
      (∀ given ∈ incomplete.inits, (∀ report ∈ (a.takeIn given).1, report.outcome = .ok .accepted) ∧
        ((a.takeIn given).1.foldl tally counted).Fit) ∧
      (a.takeIn incomplete).1.map (reception s) = [{ outcome := .ok (.data .accepted) },
        { outcome := .ok (.data .accepted), calls := [.decode 0 [9], .decode 0 [7]] }] ∧
      ((a.takeIn incomplete).1.foldl tally counted).rebuilt = 1 := by decide +kernel
  obtain ⟨a, made, parts, received, rebuilt⟩ := AirLink.Assembly.create_holds (by decide) late
  have prepared : s.session.prepare offer none = .ok (⟨1, 0, .vandermonde, 2, 3⟩, a) :=
    AirLink.Session.prepare_eq_ok.mpr ⟨nofun, by decide, made, _, rfl, rfl⟩
  have taken (given : List Intake) (part : given <+: incomplete) :
      ∃ next, s.perform (.announcement keys.boxKey offer :: given.map (.fragment key)) =
        ({ outcome := .ok (.session (.established ⟨1, 0, .vandermonde, 2, 3⟩)) } ::
          (a.takeIn given).1.map (reception s), next) ∧ next.counters = (a.takeIn given).1.foldl tally counted := by
    have fits : ∀ x ∈ incomplete, x.Fits 3 16 ∧ x.recover = true := by decide
    have accepted := (parts given ((List.mem_inits ..).mpr part)).1
    obtain ⟨receptions, counters⟩ := AirLink.Receiver.perform_announced prepared (Nat.zero_le 1) nofun
      (show 16 ≤ Limits.fragment by decide) (fun x hx => (fits x (part.subset hx)).1)
      (fun x hx => (fits x (part.subset hx)).2) fun report hr => ⟨_, accepted report hr⟩
    exact ⟨_, Prod.ext receptions rfl, counters⟩
  have fit : ∀ before, before <+: actions → (r.perform before).2.counters.Fit := by
    refine counters_append (fun before part => early before ((List.mem_inits ..).mpr part)) ?_
    rw [passed]
    refine counters_cons (by decide +kernel) fun before part => ?_
    obtain ⟨given, front, rfl⟩ := List.prefix_map_iff.mp part
    obtain ⟨next, run, counters⟩ := taken given front
    have last : (s.perform (.announcement keys.boxKey offer :: given.map (.fragment key))).2.counters = _ :=
      (congrArg (·.2.counters) run).trans counters
    exact last ▸ (parts given ((List.mem_inits ..).mpr front)).2
  obtain ⟨next, run, counters⟩ := taken incomplete (List.prefix_refl _)
  have checked := perform_total created actions fit
  rw [AirLink.Receiver.perform_append, passed, run, received] at checked
  refine ⟨r, next, created, checked, ?_⟩
  rw [counters]
  exact rebuilt

end Receiver

end Checked

end AirLink
