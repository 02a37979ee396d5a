import AirLink.Proofs.Forgery

/-! # Refused data packets

A data packet is refused for what it is: for its size, for its place, or because it cannot be opened.  The
erasure code is never the reason.  An assembly that refuses a packet stays as it was, with everything that
it has passed on and counted; a session loses its key to a packet that cannot be opened, and to no other.
-/

namespace AirLink

namespace Assembly

/-- Why a data packet is refused, in the order in which it is asked. -/
inductive Refusal (a : Assembly) (x : Arrival) : Fault → Prop where
  | short (short : x.cipher.length < Limits.dataCipher) :
      Refusal a x (.truncated .dataCipher Limits.dataCipher x.cipher.length)
  | block (long : Limits.dataCipher ≤ x.cipher.length) (above : Limits.blockIndex < x.block) :
      Refusal a x (.blockIndexOverflow x.block)
  | fragment (long : Limits.dataCipher ≤ x.cipher.length) (block : x.block ≤ Limits.blockIndex)
      (above : a.code.n ≤ x.fragment) : Refusal a x (.fragmentIndexOverflow x.fragment a.code.n)
  | large (long : Limits.dataCipher ≤ x.cipher.length) (block : x.block ≤ Limits.blockIndex)
      (fragment : x.fragment < a.code.n)
      (large : a.window.fragmentSize + Limits.tag < x.cipher.length) :
      Refusal a x (.oversized (a.window.fragmentSize + Limits.tag) x.cipher.length)
  | forged {cause : CipherFault} (admits : a.Admits x)
      (closed : Cipher.Aead.decrypt a.key x.nonce x.clear x.cipher = .error cause) :
      Refusal a x (.cipher .dataNotAuthentic)

variable {a : Assembly} {x : Arrival} {recover : Bool} {fault : Fault}

theorem authenticate_eq_error : a.authenticate x = .error fault ↔ a.Refusal x fault := by
  constructor
  · intro failed
    unfold authenticate at failed
    simp only at failed
    split_ifs at failed with short above place large
    · obtain rfl := Except.error.inj failed
      exact .short short
    · obtain rfl := Except.error.inj failed
      exact .block (Nat.not_lt.mp short) above
    · obtain rfl := Except.error.inj failed
      exact .fragment (Nat.not_lt.mp short) (Nat.not_lt.mp above) place
    · obtain rfl := Except.error.inj failed
      exact .large (Nat.not_lt.mp short) (Nat.not_lt.mp above) (Nat.not_le.mp place) large
    · have admits : a.Admits x := ⟨by omega, by omega, by omega, by omega⟩
      cases closed : Cipher.Aead.decrypt a.key x.nonce x.clear x.cipher with
      | ok plain => simp [closed, Except.mapError] at failed
      | error cause =>
          rw [closed] at failed
          obtain rfl := Except.error.inj failed
          obtain rfl : cause = .dataNotAuthentic :=
            Cipher.Aead.decrypt_error ((by decide : Limits.tag ≤ Limits.dataCipher).trans admits.long) closed
          exact .forged admits closed
  · intro refusal
    unfold authenticate
    simp only
    cases refusal with
    | short short => rw [if_pos short]
    | block long above => rw [if_neg (Nat.not_lt.mpr long), if_pos above]
    | fragment long block above =>
        rw [if_neg (Nat.not_lt.mpr long), if_neg (Nat.not_lt.mpr block), if_pos above]
    | large long block fragment large =>
        rw [if_neg (Nat.not_lt.mpr long), if_neg (Nat.not_lt.mpr block), if_neg (Nat.not_le.mpr fragment),
          if_pos large]
    | @forged cause admits closed =>
        obtain rfl : cause = .dataNotAuthentic :=
          Cipher.Aead.decrypt_error ((by decide : Limits.tag ≤ Limits.dataCipher).trans admits.long) closed
        exact authenticate_cipher.mpr ⟨admits, closed⟩

theorem Refusal.receive (refusal : a.Refusal x fault) (recover : Bool) :
    a.receive x recover = ({ outcome := .error fault }, a) := by
  rw [Assembly.receive, authenticate_eq_error.mpr refusal]

/-- What can be opened is not refused: the erasure code has all the shares that it needs. -/
theorem Ready.refusal (ready : a.Ready) (failed : (a.receive x recover).1.outcome = .error fault) :
    a.Refusal x fault := by
  cases opened : a.authenticate x with
  | error cause =>
      have refusal := authenticate_eq_error.mp opened
      rw [refusal.receive] at failed
      exact Except.error.inj failed ▸ refusal
  | ok plain =>
      obtain ⟨-, suits⟩ := authenticate_ok opened
      rw [Assembly.receive, opened] at failed
      cases ready.accept suits recover with
      | late _ _ _ _ outcome => cases outcome.symm.trans failed
      | duplicate _ _ _ _ outcome => cases outcome.symm.trans failed
      | stored _ _ _ _ _ _ outcome => cases outcome.symm.trans failed
      | opened _ _ _ _ _ _ _ _ _ outcome => cases outcome.symm.trans failed

theorem Ready.receive_eq_error (ready : a.Ready) :
    (a.receive x recover).1.outcome = .error fault ↔ a.Refusal x fault :=
  ⟨ready.refusal, fun refusal => by rw [refusal.receive]⟩

theorem Refusal.not_shares (refusal : a.Refusal x fault) (cause : ShareFault) : fault ≠ .shares cause := by
  cases refusal <;> exact nofun

theorem Refusal.not_wrongLength (refusal : a.Refusal x fault) (expected got : Nat) :
    fault ≠ .cipher (.wrongLength expected got) := by
  cases refusal <;> exact nofun

theorem Ready.run (ready : a.Ready) (calls : List (Arrival × Bool)) : (a.run calls).2.Ready :=
  run_keeps (motive := Ready) (fun ready x recover => (ready.receive x recover).1) ready calls

end Assembly

theorem Counters.absorb_refused (c : Counters) (fault : Fault) :
    c.absorb { outcome := .error fault } = c := rfl

namespace Session

variable {s : Session}

theorem Ready.step (ready : s.Ready) (input : Input) : (s.step input).2.Ready := by
  cases input with
  | announcement now nonce cipher carrier => exact (s.announced now nonce cipher carrier).ready ready
  | data now x recover => exact (s.received now x recover).ready ready

theorem Reached.ready {settings : Settings} {keys : LinkKeys} (reached : Reached settings keys s) :
    s.Ready := by
  obtain ⟨inputs, rfl⟩ := reached
  have new : (create settings keys).Ready := nofun
  generalize create settings keys = t at new
  induction inputs generalizing t with
  | nil => exact new
  | cons input inputs ih => exact ih _ (new.step input)

/-- What a session is left with after a fault. -/
def afterFault (s : Session) (fault : Fault) : Session :=
  if fault.kind = .crypto then { s with hasKey := false } else s

/-- A session refuses what its assembly refuses. -/
theorem Ready.receive_refused (ready : s.Ready) {now : Moment} {x : Arrival} {recover : Bool} {fault : Fault}
    (failed : (s.receive now x recover).1.outcome = .error fault) :
    s.hasKey = true ∧ (∃ a, s.lastAssembly = some a ∧ a.Refusal x fault) ∧
      s.receive now x recover = ({ outcome := .error fault }, s.afterFault fault) := by
  cases present : s.assembly with
  | none =>
      rw [receive_idle present] at failed
      cases failed
  | some a =>
      obtain ⟨isLast, hasKey⟩ := assembly_eq_some.mp present
      have refusal : a.Refusal x fault := by
        have step := s.received now x recover
        generalize (s.receive now x recover).1 = report at step failed
        generalize (s.receive now x recover).2 = next at step
        cases step with
        | idle none => cases none.symm.trans present
        | forged same | refused same | taken same =>
            obtain rfl := Option.some.inj (same.symm.trans present)
            exact (ready _ isLast).refusal failed
      refine ⟨hasKey, ⟨a, isLast, refusal⟩, ?_⟩
      rw [receive, present]
      simp only [refusal.receive, ← isLast, afterFault]
      cases refusal <;> rfl

end Session

/-- Of an assembly: a packet is refused for one of five reasons, never by the erasure code or for a wrong
length of what is to be opened, and then nothing is passed on or counted and the state is the same.  Of a
session: the key is dropped exactly when a packet cannot be opened, and any other refusal leaves it as it
was. -/
theorem refusals_leave_no_trace :
    (∀ (key : Key) (k n slots size : Nat) (a : Assembly), Assembly.create key k n slots size = .ok a →
      ∀ (calls : List (Arrival × Bool)) (x : Arrival) (recover : Bool) (fault : Fault),
        let b := (a.run calls).2
        ((b.receive x recover).1.outcome = .error fault ↔ b.Refusal x fault) ∧
        (b.Refusal x fault →
          b.receive x recover = ({ outcome := .error fault }, b) ∧
          (∀ c : Counters, c.absorb (b.receive x recover).1 = c) ∧
          (∀ cause, fault ≠ .shares cause) ∧ ∀ expected got, fault ≠ .cipher (.wrongLength expected got))) ∧
    ∀ (settings : Settings) (keys : LinkKeys) (s : Session), Session.Reached settings keys s →
      ∀ (now : Moment) (x : Arrival) (recover : Bool),
        (s.hasKey = true ∧ (s.receive now x recover).2.hasKey = false ↔
          ∃ fault, (s.receive now x recover).1.outcome = .error fault ∧ fault.kind = .crypto) ∧
        ∀ fault, (s.receive now x recover).1.outcome = .error fault →
          (∃ a, s.assembly = some a ∧ a.Refusal x fault) ∧
          (s.receive now x recover).1 = { outcome := .error fault } ∧
          (fault.kind = .crypto → (s.receive now x recover).2 = { s with hasKey := false }) ∧
          (fault.kind ≠ .crypto → (s.receive now x recover).2 = s ∧
            ∀ c : Counters, c.absorbSession (s.receive now x recover).1 = c) := by
  constructor
  · intro key k n slots size a created calls x recover fault b
    have ready : b.Ready := (Assembly.create_ready created).1.run calls
    refine ⟨ready.receive_eq_error, fun refusal => ?_⟩
    have same := refusal.receive recover
    exact ⟨same, fun c => by rw [same, c.absorb_refused], refusal.not_shares, refusal.not_wrongLength⟩
  · intro settings keys s reached now x recover
    have ready := reached.ready
    refine ⟨⟨fun ⟨present, gone⟩ => ?_, fun ⟨fault, failed, crypto⟩ => ?_⟩, fun fault failed => ?_⟩
    · have step := s.received now x recover
      generalize (s.receive now x recover).1 = report at step ⊢
      generalize (s.receive now x recover).2 = next at step gone
      cases step with
      | forged _ outcome => exact ⟨_, outcome, rfl⟩
      | idle | refused | taken => cases present.symm.trans gone
    · obtain ⟨hasKey, -, result⟩ := ready.receive_refused failed
      rw [result, Session.afterFault, if_pos crypto]
      exact ⟨hasKey, rfl⟩
    · obtain ⟨hasKey, ⟨a, isLast, refusal⟩, result⟩ := ready.receive_refused failed
      rw [result]
      refine ⟨⟨a, Session.assembly_eq_some.mpr ⟨isLast, hasKey⟩, refusal⟩, rfl, fun crypto => ?_,
        fun other => ⟨?_, fun c => ?_⟩⟩
      · rw [Session.afterFault, if_pos crypto]
      · rw [Session.afterFault, if_neg other]
      · refine (Session.absorbSession_of_opened (fun cause same => other ?_) c).trans rfl
        rw [Except.error.inj same]
        rfl

/-- Zeros are not what any tag would be. -/
theorem decrypt_zeros :
    Cipher.Aead.decrypt ⟨Bytes.zeros 32, rfl⟩ 0 [] (Bytes.zeros 19) = .error .dataNotAuthentic := by
  decide +kernel

/-- A session that is given nothing to open, and then something that cannot be opened. -/
theorem refusals_leave_no_trace_forged :
    let key : Key := ⟨Bytes.zeros 32, rfl⟩
    let new := Session.create { windowSize := 1, fragmentSize := 16 } ⟨key, key⟩
    let s := (new.step (Session.sealedOffer new.boxKey (Session.offerOf 1 1 key))).2
    let nothing : Arrival := ⟨0, 0, 0, [], []⟩
    let forged : Arrival := ⟨0, 0, 0, [], Bytes.zeros 19⟩
    ∃ a, Assembly.create key 1 1 1 16 = .ok a ∧ s.assembly = some a ∧
      a.receive forged true = ({ outcome := .error (.cipher .dataNotAuthentic) }, a) ∧
      (s.receive 0 nothing true).1 = { outcome := .error (.truncated .dataCipher 19 0) } ∧
      (s.receive 0 nothing true).2 = s ∧ (s.receive 0 forged true).2 = { s with hasKey := false } := by
  intro key new s nothing forged
  obtain ⟨a, created, opens⟩ :=
    @Session.announce_offerOf new key rfl rfl rfl rfl none (by simp [new, Session.create])
  have here : s.assembly = some a := by
    rw [show s = _ from Session.step_sealedOffer .., opens]
    rfl
  have reached : Session.Reached { windowSize := 1, fragmentSize := 16 } ⟨key, key⟩ s :=
    Session.reached_step ..
  obtain ⟨-, -, -, size, isKey, -, isN⟩ := Assembly.create_ready created
  have refusal : a.Refusal forged (.cipher .dataNotAuthentic) :=
    .forged ⟨by decide, Nat.zero_le _, by rw [isN]; exact one_pos, by rw [size]; decide⟩
      (by rw [isKey]; exact decrypt_zeros)
  obtain ⟨ofAssembly, ofSession⟩ := refusals_leave_no_trace
  have short : (s.receive 0 nothing true).1.outcome = .error (.truncated .dataCipher 19 0) := by
    have refusal : a.Refusal nothing (.truncated .dataCipher 19 0) := .short (by decide)
    rw [Session.receive, here]
    simp only [refusal.receive]
  have lost : (s.receive 0 forged true).1.outcome = .error (.cipher .dataNotAuthentic) :=
    Session.receive_cipher.mpr ⟨a, here, Assembly.authenticate_eq_error.mpr refusal⟩
  obtain ⟨-, same, -, kept⟩ := (ofSession _ _ s reached 0 nothing true).2 _ short
  obtain ⟨-, -, dropped, -⟩ := (ofSession _ _ s reached 0 forged true).2 _ lost
  exact ⟨a, created, here, ((ofAssembly key 1 1 1 16 a created [] forged true _).2 refusal).1, same,
    (kept (by decide)).1, dropped rfl⟩

end AirLink
