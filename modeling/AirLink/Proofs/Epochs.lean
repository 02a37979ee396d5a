import AirLink.Proofs.Coherence

/-! # Epochs without rollback

In a session that admits no lower epoch the epoch only rises, even while there is no key.  A session with
a key is replaced under a higher epoch only, so two sessions of one epoch have lost a key between them.
-/

namespace AirLink.Session

variable {s next : Session} {input : Input} {info : SessionInfo}

def Answer.established? : Answer → Option SessionInfo
  | announcement (.ok (.established info)) => some info
  | _ => none

/-- The sessions that a run establishes. -/
def installations (s : Session) (inputs : List Input) : List SessionInfo :=
  (s.run inputs).1.filterMap Answer.established?

theorem begins_iff : s.Begins input info ↔ (s.step input).1.established? = some info := by
  constructor
  · rintro ⟨outcome⟩
    simp only [step, outcome, Answer.established?]
  · cases input with
    | announcement now nonce cipher carrier =>
        intro some
        simp only [step] at some
        unfold Answer.established? at some
        split at some
        next other outcome =>
          obtain rfl := Option.some.inj some
          exact .established (Answer.announcement.inj outcome)
        next => cases some
    | data => exact fun none => by cases none

theorem installations_cons (s : Session) (input : Input) (inputs : List Input) :
    s.installations (input :: inputs) =
      (s.step input).1.established?.toList ++ (s.step input).2.installations inputs := by
  rw [installations, run, List.filterMap_cons]
  cases (s.step input).1.established? <;> rfl

/-- The packet takes the key away, or would if there were one: it is a data packet that is not authentic,
or an announcement of no lower epoch that is not taken for a repetition and refused. -/
inductive Loses (s : Session) : Input → Prop where
  | forged {now : Moment} {x : Arrival} {recover : Bool} {cause : CipherFault}
      (outcome : (s.receive now x recover).1.outcome = .error (.cipher cause)) :
      Loses s (.data now x recover)
  | rejected {now : Moment} {nonce : Octets 24} {cipher : Bytes} {carrier : Option UInt32}
      {offer : SessionOffer} {fault : Fault} (read : s.readOffer nonce cipher = .ok offer)
      (le : s.epoch ≤ offer.epoch.toNat) (unfit : s.prepare offer carrier = .error fault)
      (outcome : (s.announce now nonce cipher carrier).1 = .error fault) :
      Loses s (.announcement now nonce cipher carrier)

theorem epoch_le_offer (strict : s.rollbackAfter = none) {now : Moment} {offer : SessionOffer}
    (admitted : s.epoch ≤ offer.epoch.toNat ∨ s.rollbackAllowed now = true) :
    s.epoch ≤ offer.epoch.toNat :=
  admitted.resolve_right (by simp [rollbackAllowed_of_none strict])

/-! ## One packet -/

/-- A session is established under an epoch that is not lower, and higher if there was a key. -/
theorem Begins.epoch (begins : s.Begins input info) (strict : s.rollbackAfter = none) :
    s.epoch ≤ info.epoch ∧ (s.hasKey = true → s.epoch < info.epoch) ∧
      (s.step input).2.epoch = info.epoch ∧ (s.step input).2.hasKey = true := by
  cases begins with
  | @established now nonce cipher carrier _ outcome =>
      have step := s.announced now nonce cipher carrier
      rw [Session.step]
      generalize (s.announce now nonce cipher carrier).1 = result at step outcome
      generalize (s.announce now nonce cipher carrier).2 = next at step
      cases step with
      | unread | stale | repeated | failed => cases outcome
      | @established offer told a read admitted new fit =>
          obtain rfl := SessionOutcome.established.inj (Except.ok.inj outcome)
          have epoch : told.epoch = offer.epoch.toNat := by
            obtain ⟨-, -, -, scheme, -, rfl⟩ := prepare_eq_ok.mp fit
            rfl
          have le : s.epoch ≤ told.epoch := epoch ▸ epoch_le_offer strict admitted
          refine ⟨le, fun key => lt_of_le_of_ne le fun same => ?_, rfl, rfl⟩
          cases (new (epoch.symm.trans same.symm)).symm.trans key

theorem Announced.epoch {now : Moment} {nonce : Octets 24} {cipher : Bytes} {carrier : Option UInt32}
    {outcome : Except Fault SessionOutcome} (h : Announced s now nonce cipher carrier outcome next)
    (other : ∀ info, outcome ≠ .ok (.established info)) : next.epoch = s.epoch := by
  cases h with
  | unread | stale | repeated | failed => rfl
  | established => exact absurd rfl (other _)

theorem Received.epoch {now : Moment} {x : Arrival} {recover : Bool} {report : Report}
    (h : Received s now x recover report next) : next.epoch = s.epoch := by
  cases h <;> rfl

/-- Only the announcement that establishes a session moves the epoch. -/
theorem epoch_step (other : ∀ info, ¬s.Begins input info) : (s.step input).2.epoch = s.epoch := by
  cases input with
  | announcement now nonce cipher carrier =>
      exact (announced ..).epoch fun info outcome => other info (.established outcome)
  | data => exact (received ..).epoch

theorem epoch_le_step (strict : s.rollbackAfter = none) (input : Input) :
    s.epoch ≤ (s.step input).2.epoch := by
  by_cases begins : ∃ info, s.Begins input info
  · obtain ⟨info, begins⟩ := begins
    obtain ⟨le, -, epoch, -⟩ := begins.epoch strict
    exact epoch ▸ le
  · exact (epoch_step fun info here => begins ⟨info, here⟩).ge

theorem Announced.loses {now : Moment} {nonce : Octets 24} {cipher : Bytes} {carrier : Option UInt32}
    (h : Announced s now nonce cipher carrier (s.announce now nonce cipher carrier).1 next)
    (strict : s.rollbackAfter = none) (key : s.hasKey = true) (lost : next.hasKey = false) :
    s.Loses (.announcement now nonce cipher carrier) := by
  generalize result : (s.announce now nonce cipher carrier).1 = outcome at h
  cases h with
  | unread | stale | repeated => cases key.symm.trans lost
  | established => cases lost
  | failed read admitted _ unfit => exact .rejected read (epoch_le_offer strict admitted) unfit result

theorem Received.loses {now : Moment} {x : Arrival} {recover : Bool}
    (h : Received s now x recover (s.receive now x recover).1 next) (key : s.hasKey = true)
    (lost : next.hasKey = false) : s.Loses (.data now x recover) := by
  generalize result : (s.receive now x recover).1 = report at h
  cases h with
  | idle | refused | taken => cases key.symm.trans lost
  | forged _ outcome => exact .forged (result ▸ outcome)

/-- A key is lost in no other way. -/
theorem loses_of_step (strict : s.rollbackAfter = none) (key : s.hasKey = true)
    (lost : (s.step input).2.hasKey = false) : s.Loses input := by
  cases input with
  | announcement now nonce cipher carrier => exact (announced s now nonce cipher carrier).loses strict key lost
  | data now x recover => exact (received s now x recover).loses key lost

/-! ## Runs -/

theorem strict_step (strict : s.rollbackAfter = none) (input : Input) :
    (s.step input).2.rollbackAfter = none := (s.alike_step input).rollbackAfter.trans strict

theorem strict_run (strict : s.rollbackAfter = none) (inputs : List Input) :
    (s.run inputs).2.rollbackAfter = none := (s.alike_run inputs).rollbackAfter.trans strict

theorem epoch_le_run (strict : s.rollbackAfter = none) (inputs : List Input) :
    s.epoch ≤ (s.run inputs).2.epoch := by
  induction inputs generalizing s with
  | nil => exact Nat.le_refl _
  | cons input inputs ih => exact (epoch_le_step strict input).trans (ih (strict_step strict input))

/-- The sessions that a run establishes have epochs between the first and the last of the run, in order. -/
theorem installations_ascend (strict : s.rollbackAfter = none) (inputs : List Input) :
    (∀ info ∈ s.installations inputs, s.epoch ≤ info.epoch) ∧
      (s.installations inputs).Pairwise (·.epoch ≤ ·.epoch) := by
  induction inputs generalizing s with
  | nil => exact ⟨nofun, .nil⟩
  | cons input inputs ih =>
      obtain ⟨above, ascending⟩ := ih (strict_step strict input)
      rw [installations_cons]
      cases here : (s.step input).1.established? with
      | none => exact ⟨fun info member => (epoch_le_step strict input).trans (above info member), ascending⟩
      | some first =>
          obtain ⟨le, -, epoch, -⟩ := (begins_iff.mpr here).epoch strict
          have later : ∀ info ∈ (s.step input).2.installations inputs, first.epoch ≤ info.epoch :=
            epoch ▸ above
          refine ⟨fun info member => ?_, .cons later ascending⟩
          cases List.mem_cons.mp member with
          | inl same => exact same ▸ le
          | inr member => exact le.trans (later info member)

/-- A key that is gone at the end of a run has been lost at one of its packets. -/
theorem exists_loses (strict : s.rollbackAfter = none) (key : s.hasKey = true) {inputs : List Input}
    (lost : (s.run inputs).2.hasKey = false) :
    ∃ before input after, inputs = before ++ input :: after ∧ (s.run before).2.hasKey = true ∧
      (s.run before).2.Loses input ∧ ((s.run before).2.step input).2.hasKey = false := by
  induction inputs generalizing s with
  | nil => cases key.symm.trans lost
  | cons input inputs ih =>
      cases here : (s.step input).2.hasKey with
      | false => exact ⟨[], input, inputs, rfl, key, loses_of_step strict key here, here⟩
      | true =>
          obtain ⟨before, last, after, rfl, rest⟩ := ih (strict_step strict input) here lost
          exact ⟨input :: before, last, after, rfl, rest⟩

/-- Between two sessions of one epoch there is a packet at which the key is lost. -/
theorem Begins.loses (strict : s.rollbackAfter = none) {first second : Input} {between : List Input}
    {other : SessionInfo} (begins : s.Begins first info)
    (again : (s.run (first :: between)).2.Begins second other) (same : info.epoch = other.epoch) :
    ∃ before input after, between = before ++ input :: after ∧
      (s.run (first :: before)).2.hasKey = true ∧ (s.run (first :: before)).2.Loses input ∧
      ((s.run (first :: before)).2.step input).2.hasKey = false := by
  obtain ⟨-, -, epoch, key⟩ := begins.epoch strict
  obtain ⟨-, lt, -, -⟩ := again.epoch (strict_run strict _)
  have le : (s.step first).2.epoch ≤ (s.run (first :: between)).2.epoch :=
    epoch_le_run (strict_step strict first) between
  have lost : (s.run (first :: between)).2.hasKey = false := by
    by_contra keyed
    have higher := lt (Bool.eq_true_of_not_eq_false keyed)
    omega
  exact exists_loses (strict_step strict first) key lost

/-- In a session that admits no lower epoch, whatever it is given: the epoch never falls; the sessions that
are established follow each other with epochs that do not fall; and if two of them have the same epoch,
then in between the key was there and was lost, with a data packet that was not authentic or with an
announcement of no lower epoch that was refused. -/
theorem epochs_ascend (s : Session) (strict : s.rollbackAfter = none) (inputs : List Input) :
    (∀ before after, inputs = before ++ after → (s.run before).2.epoch ≤ (s.run inputs).2.epoch) ∧
    (s.installations inputs).Pairwise (·.epoch ≤ ·.epoch) ∧
    ∀ before first between second after info other,
      inputs = before ++ first :: (between ++ second :: after) →
      (s.run before).2.Begins first info → (s.run (before ++ first :: between)).2.Begins second other →
      info.epoch = other.epoch →
      ∃ kept input rest, between = kept ++ input :: rest ∧
        let t := (s.run (before ++ first :: kept)).2
        t.hasKey = true ∧ t.Loses input ∧ (t.step input).2.hasKey = false := by
  refine ⟨?_, (installations_ascend strict inputs).2, ?_⟩
  · rintro before after rfl
    rw [run_append]
    exact epoch_le_run (strict_run strict before) after
  · rintro before first between second after info other - begins again same
    rw [run_append] at again
    obtain ⟨kept, input, rest, split, lost⟩ := begins.loses (strict_run strict before) again same
    refine ⟨kept, input, rest, split, ?_⟩
    rw [run_append]
    exact lost

/-- The announcement of the first epoch establishes a session wherever there is none of a higher one. -/
theorem begins_sealedOffer (key : Key) (le : s.epoch ≤ 1) (lost : s.hasKey = false)
    (windowSize : s.windowSize = 1) (fragmentSize : s.fragmentSize = 16) (any : s.channel = none) :
    s.Begins (sealedOffer s.boxKey (offerOf 1 1 key)) ⟨1, 0, .vandermonde, 1, 1⟩ := by
  obtain ⟨a, -, installs⟩ := @establish_offerOf s key windowSize fragmentSize none (by simp [any])
  exact .established (congrArg Prod.fst ((announce_sealed le fun _ => lost).trans installs))

/-- A session that has lost its key to a forged packet is established anew by the same announcement. -/
theorem begins_again (key : Key) {a : Assembly} {x : Arrival} {cause : CipherFault}
    (present : s.assembly = some a) (refused : a.authenticate x = .error (.cipher cause))
    (le : s.epoch ≤ 1) (windowSize : s.windowSize = 1) (fragmentSize : s.fragmentSize = 16)
    (any : s.channel = none) :
    (s.step (.data 0 x true)).2.Begins (sealedOffer s.boxKey (offerOf 1 1 key)) ⟨1, 0, .vandermonde, 1, 1⟩ := by
  have lost : (s.step (.data 0 x true)).2 = s.afterForgery .data :=
    congrArg Prod.snd (receive_unopened present refused 0 true)
  rw [lost]
  exact @begins_sealedOffer (s.afterForgery .data) key le rfl windowSize fragmentSize any

theorem run_pair (s : Session) (first second : Input) :
    (s.run [first, second]).2 = ((s.step first).2.step second).2 := rfl

/-- One announcement establishes a session twice, with a forged packet in between. -/
theorem epochs_ascend_forged :
    let key : Key := ⟨Bytes.zeros 32, rfl⟩
    let s := create { windowSize := 1, fragmentSize := 16, rollbackAfter := none } ⟨key, key⟩
    let info : SessionInfo := ⟨1, 0, .vandermonde, 1, 1⟩
    let offer := sealedOffer s.boxKey (offerOf 1 1 key)
    let forged : Input := .data 0 ⟨0, 0, 0, [], Bytes.zeros 19⟩ true
    s.rollbackAfter = none ∧ s.Begins offer info ∧ (s.run [offer, forged]).2.Begins offer info ∧
      (∃ kept input rest, [forged] = kept ++ input :: rest ∧ (s.run (offer :: kept)).2.Loses input) ∧
      (s.run [offer]).2.epoch ≤ (s.run [offer, forged, offer]).2.epoch := by
  intro key s info offer forged
  obtain ⟨a, created, opens⟩ := @announce_offerOf s key rfl rfl rfl rfl none (by simp [s, create])
  obtain ⟨-, -, -, size, isKey, -, isN⟩ := Assembly.create_ready created
  have begins : s.Begins offer info := .established (congrArg Prod.fst opens)
  obtain ⟨-, -, epoch, -⟩ := begins.epoch rfl
  have present : (s.step offer).2.assembly = some a := by
    rw [step_sealedOffer, opens]
    rfl
  have refused : a.authenticate ⟨0, 0, 0, [], Bytes.zeros 19⟩ = .error (.cipher .dataNotAuthentic) :=
    Assembly.authenticate_eq_error.mpr (.forged
      ⟨by decide, Nat.zero_le _, by rw [isN]; exact one_pos, by rw [size]; decide⟩
      (by rw [isKey]; exact decrypt_zeros))
  have again : (s.run [offer, forged]).2.Begins offer info := by
    have alike := s.alike_step offer
    have here := begins_again key present refused epoch.le alike.windowSize alike.fragmentSize alike.channel
    rw [alike.boxKey] at here
    rw [run_pair]
    exact here
  obtain ⟨rises, -, lost⟩ := epochs_ascend s rfl [offer, forged, offer]
  obtain ⟨kept, input, rest, split, -, loses, -⟩ :=
    lost [] offer [forged] offer [] info info rfl begins again rfl
  exact ⟨rfl, begins, again, ⟨kept, input, rest, split, loses⟩, rises [offer] [forged, offer] rfl⟩

end AirLink.Session
