import AirLink.Proofs.Coherence

/-! # Every buffer is counted once

There is a counter for each way in which a buffer can be dealt with: it is refused at some stage, set
aside, or its packet is handled.  Whatever a receiver is given, it adds one to one of them.  A buffer
whose packet is not handled has no other effect, but that the relays hear of a damaged one.
-/

namespace AirLink

/-- How a buffer is dealt with. -/
inductive Disposal where
  | radiotapFault
  | badChecksum
  | otherChannel
  | frameFault
  | captured
  | relayHeaderFault
  | relayCorrupt
  | relayPacketFault
  | relayed
  deriving DecidableEq, Repr

namespace Disposal

/-- The ways of dealing with the buffers of a source. -/
def ofSource : Source → List Disposal
  | .capture => [radiotapFault, badChecksum, otherChannel, frameFault, captured]
  | .relay => [relayHeaderFault, relayCorrupt, relayPacketFault, relayed]

/-- The packet in the buffer is handled. -/
def accepts : Disposal → Bool
  | captured | relayed => true
  | _ => false

def counter : Disposal → Counters → Nat
  | radiotapFault => Counters.radiotapFaults
  | badChecksum => Counters.badChecksums
  | otherChannel => Counters.otherChannels
  | frameFault => Counters.frameFaults
  | captured => Counters.captured
  | relayHeaderFault => Counters.relayHeaderFaults
  | relayCorrupt => Counters.relayCorrupt
  | relayPacketFault => Counters.relayPacketFaults
  | relayed => Counters.relayed

def count : Disposal → Counters → Counters
  | radiotapFault, c => { c with radiotapFaults := c.radiotapFaults + 1 }
  | badChecksum, c => { c with badChecksums := c.badChecksums + 1 }
  | otherChannel, c => { c with otherChannels := c.otherChannels + 1 }
  | frameFault, c => { c with frameFaults := c.frameFaults + 1 }
  | captured, c => { c with captured := c.captured + 1 }
  | relayHeaderFault, c => { c with relayHeaderFaults := c.relayHeaderFaults + 1 }
  | relayCorrupt, c => { c with relayCorrupt := c.relayCorrupt + 1 }
  | relayPacketFault, c => { c with relayPacketFaults := c.relayPacketFaults + 1 }
  | relayed, c => { c with relayed := c.relayed + 1 }

theorem counter_count (d e : Disposal) (c : Counters) :
    e.counter (d.count c) = e.counter c + if e = d then 1 else 0 := by
  cases d <;> cases e <;> rfl

/-- The number of buffers of a source, as the counters tell it. -/
def total (source : Source) (c : Counters) : Nat := ((ofSource source).map fun d => d.counter c).sum

end Disposal

namespace Receiver

open Disposal (total)

variable {r : Receiver} {source : Source} {d : Disposal} {result : Reception × Receiver}

/-- Nothing but this counter changes, and only of a damaged frame the relays are told. -/
structure Passes (r : Receiver) (d : Disposal) (result : Reception × Receiver) : Prop where
  session : result.2.session = r.session
  silent : ∀ call ∈ result.1.calls, call.isDecode = false ∧ call.isObserve = false
  calls : d ≠ .badChecksum → result.1.calls = []
  counters : result.2.counters = { d.count r.counters with
    passedOn := r.counters.passedOn + if d = .badChecksum ∧ r.relays ≠ 0 then 1 else 0 }

/-- The buffer is dealt with in this way and in no other. -/
structure Disposes (r : Receiver) (source : Source) (d : Disposal) (result : Reception × Receiver) :
    Prop where
  ofSource : d ∈ Disposal.ofSource source
  counted : ∀ e : Disposal, e.counter result.2.counters = e.counter r.counters + if e = d then 1 else 0
  passes : d.accepts = false → r.Passes d result

theorem Passes.disposes (h : r.Passes d result) (ofSource : d ∈ Disposal.ofSource source) :
    r.Disposes source d result := by
  refine ⟨ofSource, fun e => ?_, fun _ => h⟩
  rw [h.counters, ← Disposal.counter_count]
  cases e <;> rfl

/-- A buffer is set aside with nobody being called. -/
theorem passes_quiet (r : Receiver) (other : d ≠ .badChecksum) (outcome : Except Fault RxOutcome) :
    r.Passes d ({ outcome }, r.count d.count) := by
  refine ⟨rfl, List.forall_mem_nil _, fun _ => rfl, ?_⟩
  rw [if_neg fun damaged => other damaged.1]
  cases d <;> rfl

/-! Handling a packet counts nothing of this kind. -/

theorem counter_handle (r : Receiver) (now : Moment) (packet : Packet) (carrier : Option UInt32)
    (d : Disposal) : d.counter (r.handle now packet carrier).2.counters = d.counter r.counters := by
  unfold handle
  cases packet.header with
  | data nonce block fragment => cases d <;> rfl
  | session nonce =>
      simp only [announce]
      cases (r.session.announce now nonce packet.cipher carrier).1 with
      | error fault => cases d <;> rfl
      | ok result => cases result <;> cases d <;> rfl

theorem counter_passOn (r : Receiver) (info : FrameInfo) (bs : Bytes) (d : Disposal) :
    d.counter (r.passOn info bs).2.counters = d.counter r.counters := by
  unfold passOn
  split <;> cases d <;> rfl

theorem disposes_handled {now : Moment} {packet : Packet} {carrier : Option UInt32} {x : Reception}
    {next : Receiver} (ofSource : d ∈ Disposal.ofSource source) (accepts : d.accepts = true)
    (same : ∀ e : Disposal, e.counter next.counters =
      e.counter ((r.count d.count).handle now packet carrier).2.counters) :
    r.Disposes source d (x, next) := by
  refine ⟨ofSource, fun e => ?_, fun refused => absurd (refused.symm.trans accepts) Bool.false_ne_true⟩
  rw [same, counter_handle]
  exact Disposal.counter_count d e r.counters

theorem disposes_handleCaptured (r : Receiver) (now : Moment) (info : FrameInfo) (bs : Bytes) (packet : Packet)
    (carrier : UInt32) :
    r.Disposes .capture .captured (r.handleCaptured now info bs packet carrier) := by
  rw [handleCaptured_eq]
  split
  · exact disposes_handled (by decide) rfl fun _ => rfl
  · exact disposes_handled (by decide) rfl fun e => counter_passOn _ info bs e

theorem disposes_captureFrame (r : Receiver) (now : Moment) (info : FrameInfo) (frame : Bytes) :
    ∃ d, r.Disposes .capture d (r.captureFrame now info frame) := by
  unfold captureFrame
  split
  · exact ⟨_, (r.passes_quiet (d := .frameFault) (by decide) _).disposes (by decide)⟩
  split
  · exact ⟨_, (r.passes_quiet (d := .otherChannel) (by decide) _).disposes (by decide)⟩
  split
  · exact ⟨_, (r.passes_quiet (d := .frameFault) (by decide) _).disposes (by decide)⟩
  · exact ⟨_, r.disposes_handleCaptured ..⟩

/-- Of a damaged frame the relays are told, and nobody else. -/
theorem passes_damaged (r : Receiver) (info : FrameInfo) :
    let passed := (r.count Disposal.badChecksum.count).passOn info []
    r.Passes .badChecksum ({ outcome := .ok .corrupt, calls := passed.1 }, passed.2) := by
  intro passed
  refine ⟨?_, fun call hc => ?_, fun other => absurd rfl other, ?_⟩
  · simp only [passed, passOn]
    split <;> rfl
  · obtain ⟨i, -, rfl⟩ := List.mem_map.mp hc
    exact ⟨rfl, rfl⟩
  · simp only [passed, passOn]
    split <;> simp_all [Receiver.count, Disposal.count]

theorem disposes_capture (r : Receiver) (now : Moment) (bs : Bytes) :
    ∃ d, r.Disposes .capture d (r.capture now bs) := by
  unfold capture
  split
  · exact ⟨_, (r.passes_quiet (d := .radiotapFault) (by decide) _).disposes (by decide)⟩
  simp only
  split
  · exact ⟨_, (r.passes_quiet (d := .frameFault) (by decide) _).disposes (by decide)⟩
  split
  · exact ⟨_, (r.passes_damaged _).disposes (by decide)⟩
  · exact r.disposes_captureFrame ..

theorem disposes_relay (r : Receiver) (now : Moment) (bs : Bytes) :
    ∃ d, r.Disposes .relay d (r.relay now bs) := by
  unfold relay
  split
  · exact ⟨_, (r.passes_quiet (d := .relayHeaderFault) (by decide) _).disposes (by decide)⟩
  split
  · exact ⟨_, (r.passes_quiet (d := .relayCorrupt) (by decide) _).disposes (by decide)⟩
  split
  · exact ⟨_, (r.passes_quiet (d := .relayPacketFault) (by decide) _).disposes (by decide)⟩
  · exact ⟨.relayed, disposes_handled (by decide) rfl fun _ => rfl⟩

theorem disposes_take (r : Receiver) (now : Moment) (source : Source) (bs : Bytes) :
    ∃ d, r.Disposes source d (r.take now source bs) := by
  cases source with
  | capture => exact r.disposes_capture now bs
  | relay => exact r.disposes_relay now bs

/-- One more buffer of its source has been counted, and none of the other. -/
theorem Disposes.total (h : r.Disposes source d result) (other : Source) :
    total other result.2.counters = total other r.counters + if source = other then 1 else 0 := by
  have counted := h.counted
  have member := h.ofSource
  simp only [Disposal.total, counted]
  cases source <;> cases other <;> simp only [Disposal.ofSource, List.mem_cons, List.not_mem_nil, or_false] at member ⊢ <;>
    rcases member with rfl | rfl | rfl | rfl | rfl <;> simp <;> omega

/-- A buffer is taken from this source. -/
def Action.takes (source : Source) : Action → Bool
  | .take _ origin _ => origin = source
  | _ => false

theorem total_act (r : Receiver) (action : Action) (source : Source) :
    total source (r.act action).2.counters =
      total source r.counters + if action.takes source then 1 else 0 := by
  cases action with
  | attach consumer => exact congrArg (total source) (r.attach_frame consumer).2
  | setRecovery on => rfl
  | take now origin bs =>
      obtain ⟨d, disposes⟩ := r.disposes_take now origin bs
      refine (disposes.total source).trans ?_
      simp [Action.takes]

theorem total_perform (r : Receiver) (actions : List Action) (source : Source) :
    total source (r.perform actions).2.counters =
      total source r.counters + actions.countP (Action.takes source) := by
  induction actions generalizing r with
  | nil => rfl
  | cons action actions ih => rw [perform, ih, total_act, List.countP_cons]; omega

/-- Of all buffers that a receiver has been given, each is counted once.  A buffer that does not count as
accepted leaves the session as it was and reaches no decoder and no observer, and but for its own count
nothing is counted; only of a captured frame that is damaged the relays are told. -/
theorem each_counted_once {r : Receiver} (zero : r.counters = {}) (actions : List Action) :
    let t := (r.perform actions).2
    let c := t.counters
    actions.countP (Action.takes .capture) =
        c.radiotapFaults + c.badChecksums + c.otherChannels + c.frameFaults + c.captured ∧
      actions.countP (Action.takes .relay) =
        c.relayHeaderFaults + c.relayCorrupt + c.relayPacketFaults + c.relayed ∧
      ∀ now source bs,
        let result := t.take now source bs
        ∃ d ∈ Disposal.ofSource source,
          (∀ e : Disposal, e.counter result.2.counters = e.counter c + if e = d then 1 else 0) ∧
          (result.2.counters.captured = c.captured → result.2.counters.relayed = c.relayed →
            result.2.session = t.session ∧
            (∀ call ∈ result.1.calls, call.isDecode = false ∧ call.isObserve = false) ∧
            (d ≠ .badChecksum → result.1.calls = []) ∧
            result.2.counters = { d.count c with
              passedOn := c.passedOn + if d = .badChecksum ∧ t.relays ≠ 0 then 1 else 0 }) := by
  intro t c
  have start (source : Source) : total source r.counters = 0 := by
    rw [zero]
    cases source <;> rfl
  have captured := r.total_perform actions .capture
  have relayed := r.total_perform actions .relay
  rw [start, Nat.zero_add] at captured relayed
  refine ⟨?_, ?_, fun now source bs => ?_⟩
  · rw [← captured]
    simp [total, Disposal.ofSource, Disposal.counter, t, c, Nat.add_assoc]
  · rw [← relayed]
    simp [total, Disposal.ofSource, Disposal.counter, t, c, Nat.add_assoc]
  · intro result
    obtain ⟨d, disposes⟩ := t.disposes_take now source bs
    refine ⟨d, disposes.ofSource, disposes.counted, fun notCaptured notRelayed => ?_⟩
    have refused : d.accepts = false := by
      have first := disposes.counted .captured
      have second := disposes.counted .relayed
      simp only [Disposal.counter] at first second
      cases d <;> simp_all [result, c, Disposal.accepts]
    obtain ⟨session, silent, calls, counters⟩ := disposes.passes refused
    exact ⟨session, silent, calls, counters⟩

/-- A frame whose header says that the driver found the check sequence to be wrong. -/
def flaggedFrame : Bytes := [0, 0, 9, 0, 2, 0, 0, 0, 0x40]

/-- Of three buffers the first two are refused, and the third is damaged: it is counted as such and passed
on, and nothing else changes. -/
theorem each_counted_once_damaged :
    let key : Key := ⟨Bytes.zeros 32, rfl⟩
    let actions : List Action := [.attach .relay, .take 0 .capture [1, 2, 3], .take 0 .relay [0, 0]]
    ∃ r, create {} ⟨key, key⟩ = .ok r ∧ r.counters = {} ∧
      let t := (r.perform actions).2
      let result := t.take 0 .capture flaggedFrame
      t.counters = { radiotapFaults := 1, relayHeaderFaults := 1 } ∧
      result.2.counters = { t.counters with badChecksums := 1, passedOn := 1 } ∧
      result.2.session = r.session := by
  intro key actions
  refine ⟨_, rfl, rfl, ?_⟩
  let r : Receiver := { settings := {}, session := Session.create {} ⟨key, key⟩, recovery := true }
  let t := (r.perform actions).2
  have before : t.counters = { radiotapFaults := 1, relayHeaderFaults := 1 } := by decide
  have damaged : (t.take 0 .capture flaggedFrame).2.counters.badChecksums = 1 ∧
      (t.take 0 .capture flaggedFrame).2.counters.captured = 0 ∧
      (t.take 0 .capture flaggedFrame).2.counters.relayed = 0 := by decide
  obtain ⟨-, -, each⟩ := @each_counted_once r rfl actions
  obtain ⟨d, -, counted, passes⟩ := each 0 .capture flaggedFrame
  have isDamaged : d = .badChecksum := by
    have one := counted .badChecksum
    simp only [Disposal.counter] at one
    by_contra other
    rw [if_neg (Ne.symm other)] at one
    exact absurd (damaged.1.symm.trans one) (by rw [before]; decide)
  subst isDamaged
  obtain ⟨session, -, -, counters⟩ := passes (by rw [damaged.2.1, before]) (by rw [damaged.2.2, before])
  refine ⟨before, counters.trans ?_, session⟩
  rw [before]
  decide

end Receiver

end AirLink
