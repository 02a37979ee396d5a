import AirLink.Proofs.Atomicity
import AirLink.Proofs.Relaying

/-! # Forged packets

A packet that cannot be opened with the key it should have been sealed with leaves next to no trace:
nobody is called, and of the session it can at most take the key away.  Which packet it was makes no
difference to anything that comes after it.  Every other captured frame is passed on as it is, or not
at all.
-/

namespace AirLink

/-- The frame that relay `m` is called with. -/
def Call.frame? (m : Nat) : Call → Option (FrameInfo × Bytes)
  | relay i info packet => if i = m then some (info, packet) else none
  | _ => none

/-- The frames that relay `m` is called with. -/
def Reception.frames (x : Reception) (m : Nat) : List (FrameInfo × Bytes) :=
  x.calls.filterMap (Call.frame? m)

theorem Fault.kind_eq_crypto {fault : Fault} : fault.kind = .crypto ↔ ∃ cause, fault = .cipher cause := by
  cases fault <;> simp [kind]

/-- What is wrong with a forged packet. -/
def PacketType.forgery : PacketType → CipherFault
  | data => .dataNotAuthentic
  | session => .sessionNotOpened

namespace Cipher

theorem SealedBox.decrypt_error {key : Octets 32} {nonce : Octets 24} {bs : Bytes} {cause : CipherFault}
    (closed : decrypt key nonce bs = .error cause) : cause = .sessionNotOpened := by
  unfold decrypt at closed
  simp only at closed
  split_ifs at closed
  all_goals exact (Except.error.inj closed).symm

theorem Aead.decrypt_error {key : Octets 32} {wire : UInt64} {clear bs : Bytes} {cause : CipherFault}
    (long : Limits.tag ≤ bs.length) (closed : decrypt key wire clear bs = .error cause) :
    cause = .dataNotAuthentic := by
  unfold decrypt at closed
  simp only [if_neg (Nat.not_lt.mpr long)] at closed
  split_ifs at closed
  exact (Except.error.inj closed).symm

end Cipher

/-! ## Failures that are not forgeries -/

theorem ErasureCode.decode_error {code : ErasureCode} {inputs buffers : List Bytes} {indices : List Nat}
    {size : Nat} {fault : Fault} (failed : code.decode inputs indices buffers size = .error fault) :
    ∃ cause, fault = .shares cause := by
  unfold decode at failed
  simp only at failed
  repeat' split at failed
  all_goals first
    | exact ⟨_, (Except.error.inj failed).symm⟩
    | cases failed

theorem Slot.rebuild_error {code : ErasureCode} {s : Slot} {fault : Fault}
    (failed : s.rebuild code = .error fault) : ∃ cause, fault = .shares cause := by
  unfold rebuild at failed
  split at failed
  · exact ⟨_, (Except.error.inj failed).symm⟩
  · next shares _ =>
      simp only at failed
      split_ifs at failed
      cases decoded : code.decode (shares.map s.bufferOf) shares ((s.absent code.k).map s.bufferOf)
          ((shares.map s.lengthOf).foldl max 0) with
      | ok buffers => simp [decoded, Except.map] at failed
      | error cause =>
          rw [decoded] at failed
          obtain rfl : cause = fault := Except.error.inj failed
          exact ErasureCode.decode_error decoded

theorem ErasureCode.create_error {k n : Nat} {cause : CipherFault} :
    create k n ≠ .error (.cipher cause) := by
  intro failed
  unfold create at failed
  split_ifs at failed
  · cases failed
  · simp only at failed
    split at failed <;> cases failed

theorem Window.create_error {slots size count : Nat} {cause : CipherFault} :
    create slots size count ≠ .error (.cipher cause) := by
  intro failed
  unfold create at failed
  split_ifs at failed <;> cases failed

namespace Assembly

variable {a : Assembly} {x : Arrival}

theorem create_error {key : Key} {k n slots size : Nat} {cause : CipherFault} :
    create key k n slots size ≠ .error (.cipher cause) := by
  intro failed
  unfold create at failed
  cases code : ErasureCode.create k n with
  | error fault =>
      rw [code] at failed
      obtain rfl : fault = .cipher cause := Except.error.inj failed
      exact ErasureCode.create_error code
  | ok code' =>
      rw [code] at failed
      cases window : Window.create slots size n with
      | error fault =>
          rw [window] at failed
          obtain rfl : fault = .cipher cause := Except.error.inj failed
          exact Window.create_error window
      | ok w =>
          rw [window] at failed
          cases failed

/-- The packet is put to the test: its size and its place are possible. -/
structure Admits (a : Assembly) (x : Arrival) : Prop where
  long : Limits.dataCipher ≤ x.cipher.length
  block : x.block ≤ Limits.blockIndex
  fragment : x.fragment < a.code.n
  fits : x.cipher.length ≤ a.window.fragmentSize + Limits.tag

theorem authenticate_cipher {cause : CipherFault} :
    a.authenticate x = .error (.cipher cause) ↔
      a.Admits x ∧ Cipher.Aead.decrypt a.key x.nonce x.clear x.cipher = .error cause := by
  unfold authenticate
  simp only
  split_ifs with short block fragment large
  · exact iff_of_false nofun fun h => absurd h.1.long (Nat.not_le.mpr short)
  · exact iff_of_false nofun fun h => absurd h.1.block (Nat.not_le.mpr block)
  · exact iff_of_false nofun fun h => absurd h.1.fragment (Nat.not_lt.mpr fragment)
  · exact iff_of_false nofun fun h => absurd h.1.fits (Nat.not_le.mpr large)
  · have admits : a.Admits x := ⟨by omega, by omega, by omega, by omega⟩
    cases Cipher.Aead.decrypt a.key x.nonce x.clear x.cipher with
    | error other => simp [Except.mapError, admits]
    | ok plain => simp [Except.mapError]

/-- An authentic packet fails only if its block cannot be rebuilt. -/
theorem accept_error {block fragment : Nat} {plain : Bytes} {recover : Bool} {fault : Fault}
    (failed : (a.accept block fragment plain recover).1.outcome = .error fault) :
    ∃ cause, fault = .shares cause := by
  unfold accept at failed
  simp only at failed
  split at failed
  · cases failed
  · split_ifs at failed
    · cases failed
    · unfold forward at failed
      simp only at failed
      split_ifs at failed
      · cases failed
      · split at failed
        · cases failed
        · next broken =>
            obtain rfl := Except.error.inj failed
            exact Slot.rebuild_error broken
      · cases failed

theorem receive_cipher {recover : Bool} {cause : CipherFault} :
    (a.receive x recover).1.outcome = .error (.cipher cause) ↔
      a.authenticate x = .error (.cipher cause) := by
  unfold receive
  cases a.authenticate x with
  | error fault => simp
  | ok plain =>
      constructor
      · intro failed
        obtain ⟨_, other⟩ := accept_error failed
        cases other
      · intro failed
        cases failed

end Assembly

namespace Session

variable {s : Session}

theorem readOffer_cipher {nonce : Octets 24} {cipher : Bytes} {cause : CipherFault} :
    s.readOffer nonce cipher = .error (.cipher cause) ↔ Limits.sessionCipher ≤ cipher.length ∧
      Cipher.SealedBox.decrypt s.boxKey nonce cipher = .error cause := by
  rw [readOffer_eq_error]
  constructor
  · intro unreadable
    cases unreadable with
    | closed long closed => exact ⟨long, closed⟩
    | garbled long opened garbled =>
        unfold SessionOffer.decode at garbled
        split at garbled <;> cases garbled
  · exact fun ⟨long, closed⟩ => .closed long closed

theorem prepare_error {offer : SessionOffer} {carrier : Option UInt32} {cause : CipherFault} :
    s.prepare offer carrier ≠ .error (.cipher cause) := by
  intro failed
  unfold prepare at failed
  simp only [bind, Except.bind, pure, Except.pure, throw, throwThe, MonadExceptOf.throw] at failed
  rcases checked_error failed with ⟨_, -, -, other⟩ | failed
  · cases other
  cases scheme : CodeScheme.ofCode offer.scheme with
  | error fault =>
      simp only [scheme, Except.error.injEq] at failed
      unfold CodeScheme.ofCode at scheme
      split_ifs at scheme
      cases failed.symm.trans (Except.error.inj scheme).symm
  | ok found =>
      simp only [scheme] at failed
      split_ifs at failed
      · cases failed
      · cases made : Assembly.create offer.key offer.k.toNat offer.n.toNat s.windowSize
            s.fragmentSize with
        | ok a => simp [made] at failed
        | error fault =>
            simp only [made, Except.error.injEq] at failed
            exact Assembly.create_error (failed ▸ made)

theorem announce_cipher {now : Moment} {nonce : Octets 24} {cipher : Bytes} {carrier : Option UInt32}
    {cause : CipherFault} :
    (s.announce now nonce cipher carrier).1 = .error (.cipher cause) ↔
      s.readOffer nonce cipher = .error (.cipher cause) := by
  have step := s.announced now nonce cipher carrier
  generalize (s.announce now nonce cipher carrier).1 = outcome at step ⊢
  generalize (s.announce now nonce cipher carrier).2 = next at step
  cases step with
  | unread read => simp [read]
  | stale read => simp [read]
  | repeated read => simp [read]
  | established read => simp [read]
  | failed read _ _ unfit =>
      refine iff_of_false (fun same => ?_) (by simp [read])
      exact prepare_error (Except.error.inj same ▸ unfit)

theorem receive_cipher {now : Moment} {x : Arrival} {recover : Bool} {cause : CipherFault} :
    (s.receive now x recover).1.outcome = .error (.cipher cause) ↔
      ∃ a, s.assembly = some a ∧ a.authenticate x = .error (.cipher cause) := by
  have step := s.received now x recover
  generalize (s.receive now x recover).1 = report at step ⊢
  generalize (s.receive now x recover).2 = next at step
  cases step with
  | idle none => simp [none]
  | forged present | refused present | taken present => simp [present, Assembly.receive_cipher]

/-- The packet is put to the test, and it cannot be opened. -/
inductive Unopened (s : Session) (packet : Packet) : PacketType → Prop where
  | session {nonce : Octets 24} {cause : CipherFault} (header : packet.header = .session nonce)
      (long : Limits.sessionCipher ≤ packet.cipher.length)
      (closed : Cipher.SealedBox.decrypt s.boxKey nonce packet.cipher = .error cause) :
      Unopened s packet .session
  | data {x : Arrival} {a : Assembly} {cause : CipherFault} (arrival : packet.arrival? = some x)
      (present : s.assembly = some a) (admits : a.Admits x)
      (closed : Cipher.Aead.decrypt a.key x.nonce x.clear x.cipher = .error cause) :
      Unopened s packet .data

/-- What is left of a session after a packet of some kind could not be opened. -/
def afterForgery (s : Session) : PacketType → Session
  | .session => s
  | .data => { s with hasKey := false }

theorem receive_unopened {x : Arrival} {a : Assembly} {cause : CipherFault}
    (present : s.assembly = some a) (forged : a.authenticate x = .error (.cipher cause))
    (now : Moment) (recover : Bool) :
    s.receive now x recover =
      ({ outcome := .error (.cipher cause) }, { s with hasKey := false }) := by
  have same := (assembly_eq_some.mp present).1
  rw [receive, present]
  simp only [Assembly.receive, forged, ← same]

end Session

namespace Counters

/-- A packet from some source has been read. -/
def enter (c : Counters) : Source → Counters
  | .capture => { c with captured := c.captured + 1 }
  | .relay => { c with relayed := c.relayed + 1 }

/-- A packet of some kind could not be opened. -/
def reject (c : Counters) : PacketType → Counters
  | .session => { c with sessionRejects := c.sessionRejects + 1 }
  | .data => { c with authFailures := c.authFailures + 1 }

theorem absorbSession_forged (c : Counters) (cause : CipherFault) :
    c.absorbSession { outcome := .error (.cipher cause) } = c.reject .data := by
  simp [absorbSession, absorb, reject, Report.deliveries]

end Counters

namespace Receiver

variable {r : Receiver} {packet : Packet} {carrier : Option UInt32} {source : Source} {bs : Bytes}
  {kind : PacketType}

/-! ## What a forged packet does -/

theorem handle_unopened (unopened : r.session.Unopened packet kind) (now : Moment)
    (carrier : Option UInt32) :
    r.handle now packet carrier = ({ outcome := .error (.cipher kind.forgery) },
      { r with session := r.session.afterForgery kind, counters := r.counters.reject kind }) := by
  cases unopened with
  | session header long closed =>
      obtain rfl := Cipher.SealedBox.decrypt_error closed
      have read := Session.readOffer_cipher.mpr ⟨long, closed⟩
      simp only [handle, header, announce, Session.announce, read]
      rfl
  | @data x a cause arrival present admits closed =>
      obtain rfl : cause = .dataNotAuthentic :=
        Cipher.Aead.decrypt_error ((by decide : Limits.tag ≤ Limits.dataCipher).trans admits.long) closed
      have forged := Assembly.authenticate_cipher.mpr ⟨admits, closed⟩
      have received := Session.receive_unopened present forged now r.recovery
      rw [handle_arrival arrival]
      simp only [receive, received, Counters.absorbSession_forged]
      rfl

theorem isForged_iff {outcome : Except Fault RxOutcome} :
    isForged outcome = true ↔ ∃ cause, outcome = .error (.cipher cause) := by
  cases outcome with
  | ok result => simp [isForged]
  | error fault => simp [isForged, Fault.kind_eq_crypto]

theorem map_eq_error {α : Type} {f : α → RxOutcome} {outcome : Except Fault α} {fault : Fault} :
    outcome.map f = .error fault ↔ outcome = .error fault := by
  cases outcome <;> simp [Except.map]

/-- The outcome tells which packets could not be opened. -/
theorem isForged_handle (now : Moment) (carrier : Option UInt32) :
    isForged (r.handle now packet carrier).1.outcome = true ↔ ∃ kind, r.session.Unopened packet kind := by
  constructor
  · intro forged
    have step := handled (.refl r) now packet carrier
    obtain ⟨cause, failed⟩ := isForged_iff.mp forged
    generalize (r.handle now packet carrier).1.outcome = outcome at step failed
    generalize (r.handle now packet carrier).1.calls.filter Call.isDecode = decodes at step
    cases step with
    | announced header =>
        obtain ⟨long, closed⟩ :=
          Session.readOffer_cipher.mp (Session.announce_cipher.mp (map_eq_error.mp failed))
        exact ⟨.session, .session header long closed⟩
    | received arrival =>
        obtain ⟨a, present, refused⟩ := Session.receive_cipher.mp (map_eq_error.mp failed)
        obtain ⟨admits, closed⟩ := Assembly.authenticate_cipher.mp refused
        exact ⟨.data, .data arrival present admits closed⟩
  · rintro ⟨kind, unopened⟩
    rw [handle_unopened unopened, isForged_iff]
    exact ⟨_, rfl⟩

/-! ## How a packet is found -/

/-- The radiotap header and the check sequence of a captured buffer have been read, and this is what
they tell of the frame. -/
def Heard (r : Receiver) (bs : Bytes) (info : FrameInfo) (frame : Bytes) : Prop :=
  ∃ radio rest intact, Radiotap.parse bs = .ok (radio, rest) ∧
    (if radio.hasChecksum then Checksum.strip rest r.settings.verifyChecksum else .ok (rest, true)) =
      .ok (frame, intact) ∧
    info = ⟨radio.frequency, radio.strength, radio.badChecksum || !intact⟩

/-- The frame is one of the receiver's channel and carries a readable packet. -/
structure Reads (r : Receiver) (frame : Bytes) (header : Dot11.Header) (packet : Packet) : Prop where
  parsed : Dot11.parse frame = .ok (header, frame.drop Limits.dot11Header)
  own : r.settings.channel.any (· ≠ header.channel) = false
  read : Packet.parse (frame.drop Limits.dot11Header) = .ok packet

theorem Heard.unique {info info' : FrameInfo} {frame frame' : Bytes} (h : r.Heard bs info frame)
    (h' : r.Heard bs info' frame') : info = info' ∧ frame = frame' := by
  obtain ⟨radio, rest, intact, parsed, stripped, rfl⟩ := h
  obtain ⟨radio', rest', intact', parsed', stripped', rfl⟩ := h'
  obtain ⟨rfl, rfl⟩ := Prod.mk.inj (Except.ok.inj (parsed.symm.trans parsed'))
  obtain ⟨rfl, rfl⟩ := Prod.mk.inj (Except.ok.inj (stripped.symm.trans stripped'))
  exact ⟨rfl, rfl⟩

/-- A captured frame is heard as it was sent. -/
theorem heard_captureFrame (r : Receiver) (channel : UInt32) (sequence frequency : UInt16) (signal : Int8)
    (bs : Bytes) (checksum : Bool) :
    r.Heard (AirLink.captureFrame channel sequence frequency signal bs checksum)
      ⟨frequency, signal.toInt16, false⟩ ((Dot11.Header.forChannel channel sequence).encode ++ bs) := by
  obtain ⟨radio, rest, parsed, stripped, rfl, strength, intact⟩ :=
    read_captureFrame channel sequence frequency signal bs checksum
  exact ⟨radio, rest, true, parsed, stripped _, by rw [strength, intact]; rfl⟩

theorem rest_of_parse {frame rest : Bytes} {header : Dot11.Header}
    (parsed : Dot11.parse frame = .ok (header, rest)) : rest = frame.drop Limits.dot11Header := by
  unfold Dot11.parse at parsed
  simp only at parsed
  split_ifs at parsed
  exact (Prod.mk.inj (Except.ok.inj parsed)).2.symm

/-- The three ways of taking a captured buffer: it is of no use, it holds a damaged frame, or it holds
a packet, which is handled. -/
inductive Overheard (r : Receiver) (now : Moment) (bs : Bytes) :
    Option (Packet × Option UInt32) → Reception × Receiver → Prop where
  | silent {result : Reception × Receiver} (calls : result.1.calls = [])
      (outcome : result.1.outcome ≠ .ok .corrupt)
      (unread : ∀ info frame header packet, r.Heard bs info frame → ¬r.Reads frame header packet) :
      Overheard r now bs none result
  | damaged {info : FrameInfo} {frame : Bytes} {next : Receiver} (heard : r.Heard bs info frame)
      (corrupt : info.corrupt = true) :
      Overheard r now bs none ({ outcome := .ok .corrupt, calls := r.relayCalls info [] }, next)
  | read {info : FrameInfo} {frame : Bytes} {header : Dot11.Header} {packet : Packet}
      (heard : r.Heard bs info frame) (intact : info.corrupt = false) (reads : r.Reads frame header packet) :
      Overheard r now bs (some (packet, some header.channel))
        (r.handleCaptured now info (frame.drop Limits.dot11Header) packet header.channel)

theorem overheard_frame {info : FrameInfo} {frame : Bytes} (heard : r.Heard bs info frame)
    (intact : info.corrupt = false) (now : Moment) :
    Overheard r now bs
      (do
        let (header, rest) ← (Dot11.parse frame).toOption
        if r.settings.channel.any (· ≠ header.channel) then none
        else (Packet.parse rest).toOption.map fun packet => (packet, some header.channel))
      (r.captureFrame now info frame) := by
  have silent {result : Reception × Receiver} (calls : result.1.calls = [])
      (outcome : result.1.outcome ≠ .ok .corrupt) (unread : ∀ header packet, ¬r.Reads frame header packet) :
      Overheard r now bs none result := by
    refine .silent calls outcome fun info' frame' header packet heard' => ?_
    obtain ⟨rfl, rfl⟩ := heard.unique heard'
    exact unread header packet
  unfold captureFrame
  cases parsed : Dot11.parse frame with
  | error fault =>
      refine silent rfl (by simp [refuse]) fun header packet reads => ?_
      cases parsed.symm.trans reads.parsed
  | ok result =>
      obtain ⟨header, rest⟩ := result
      obtain rfl := rest_of_parse parsed
      simp only [Except.toOption, Option.bind_eq_bind, Option.bind_some]
      have same {other : Dot11.Header} {packet : Packet} (reads : r.Reads frame other packet) :
          header = other := (Prod.mk.inj (Except.ok.inj (parsed.symm.trans reads.parsed))).1
      cases foreign : r.settings.channel.any (· ≠ header.channel) with
      | true =>
          rw [if_pos rfl, if_pos rfl]
          refine silent rfl (by simp) fun other packet reads => ?_
          rw [same reads, reads.own] at foreign
          cases foreign
      | false =>
          rw [if_neg (by simp), if_neg (by simp)]
          cases read : Packet.parse (frame.drop Limits.dot11Header) with
          | error fault =>
              refine silent rfl (by simp [refuse]) fun other packet reads => ?_
              cases read.symm.trans reads.read
          | ok packet => exact .read heard intact ⟨parsed, foreign, read⟩

theorem overheard (r : Receiver) (now : Moment) (bs : Bytes) :
    Overheard r now bs (r.packet? .capture bs) (r.capture now bs) := by
  have refused (unseen : r.packet? .capture bs = none) (fault : Fault) (f : Counters → Counters)
      (unread : ∀ info frame, ¬r.Heard bs info frame) :
      Overheard r now bs (r.packet? .capture bs) (r.refuse fault f) := by
    rw [unseen]
    exact .silent rfl (by simp [refuse]) fun info frame _ _ heard => (unread info frame heard).elim
  unfold capture
  cases parsed : Radiotap.parse bs with
  | error fault =>
      refine refused (by simp [packet?, parsed, Except.toOption]) fault _ ?_
      rintro info frame ⟨_, _, _, parsed', -⟩
      cases parsed.symm.trans parsed'
  | ok result =>
      obtain ⟨radio, rest⟩ := result
      simp only []
      cases stripped : (if radio.hasChecksum then Checksum.strip rest r.settings.verifyChecksum
          else .ok (rest, true) : Except Fault (Bytes × Bool)) with
      | error fault =>
          refine refused (by simp [packet?, parsed, stripped, Except.toOption]) fault _ ?_
          rintro info frame ⟨_, _, _, parsed', stripped', -⟩
          obtain ⟨rfl, rfl⟩ := Prod.mk.inj (Except.ok.inj (parsed.symm.trans parsed'))
          cases stripped.symm.trans stripped'
      | ok result =>
          obtain ⟨frame, intact⟩ := result
          simp only []
          have heard : r.Heard bs ⟨radio.frequency, radio.strength, radio.badChecksum || !intact⟩ frame :=
            ⟨radio, rest, intact, parsed, stripped, rfl⟩
          by_cases corrupt : (radio.badChecksum || !intact) = true
          · have unseen : r.packet? .capture bs = none := by
              simp only [packet?, parsed, stripped, Except.toOption, Option.bind_eq_bind,
                Option.bind_some, if_pos corrupt]
            rw [if_pos corrupt, unseen]
            exact .damaged heard corrupt
          · have frame := @overheard_frame r bs _ _ heard (by simpa using corrupt) now
            rw [if_neg corrupt]
            simp only [packet?, parsed, stripped, Except.toOption, Option.bind_eq_bind,
              Option.bind_some, if_neg corrupt] at frame ⊢
            exact frame

/-- A datagram that is of no use changes only the counters, and the packet of any other is handled. -/
theorem relay_eq (r : Receiver) (now : Moment) (bs : Bytes) :
    (r.packet? .relay bs = none ∧ (r.relay now bs).1.calls = []) ∨
    ∃ packet, r.packet? .relay bs = some (packet, none) ∧
      r.relay now bs = (r.count (·.enter .relay)).handle now packet none := by
  unfold relay
  cases parsed : Relay.Header.parse bs with
  | error fault => exact .inl ⟨by simp [packet?, parsed, Except.toOption], rfl⟩
  | ok result =>
      obtain ⟨header, rest⟩ := result
      simp only []
      by_cases corrupt : header.isCorrupt = true
      · rw [if_pos corrupt]
        exact .inl ⟨by simp [packet?, parsed, Except.toOption, corrupt], rfl⟩
      rw [if_neg corrupt]
      cases read : Packet.parse rest with
      | error fault => exact .inl ⟨by simp [packet?, parsed, Except.toOption, corrupt, read], rfl⟩
      | ok packet =>
          exact .inr ⟨packet, by simp [packet?, parsed, Except.toOption, corrupt, read], rfl⟩

/-- The packet of a buffer is put to the test, and it cannot be opened. -/
def Forged (r : Receiver) (source : Source) (bs : Bytes) (kind : PacketType) : Prop :=
  ∃ packet carrier, r.packet? source bs = some (packet, carrier) ∧ r.session.Unopened packet kind

/-- A receiver after a forged packet. -/
def afterForgery (r : Receiver) (source : Source) (kind : PacketType) : Receiver :=
  { r with
    session := r.session.afterForgery kind
    counters := (r.counters.enter source).reject kind }

/-- What a forged packet does depends on its kind and where it comes from, and on nothing else. -/
theorem Forged.take (forged : r.Forged source bs kind) (now : Moment) :
    r.take now source bs =
      ({ outcome := .error (.cipher kind.forgery) }, r.afterForgery source kind) := by
  obtain ⟨packet, carrier, found, unopened⟩ := forged
  cases source with
  | capture =>
      have step := r.overheard now bs
      rw [Receiver.take]
      rw [found] at step
      generalize r.capture now bs = result at step ⊢
      cases step with
      | read heard intact reads =>
          rw [handleCaptured]
          simp only
          rw [handle_unopened (r := r.count fun c => { c with captured := c.captured + 1 }) unopened]
          rfl
  | relay =>
      rcases r.relay_eq now bs with ⟨none, -⟩ | ⟨other, same, handled⟩
      · cases found.symm.trans none
      · obtain ⟨rfl, rfl⟩ := Prod.mk.inj (Option.some.inj (found.symm.trans same))
        rw [Receiver.take, handled,
          handle_unopened (r := r.count (·.enter .relay)) unopened]
        rfl

/-! ## Runs -/

/-- What became of the buffer that an action takes. -/
def reception? (r : Receiver) : Action → Option Reception
  | .take now source bs => some (r.take now source bs).1
  | _ => none

/-- What became of every buffer of a run, and the receiver afterwards. -/
def perform (r : Receiver) : List Action → List Reception × Receiver
  | [] => ([], r)
  | action :: rest =>
    ((r.reception? action).toList ++ ((r.act action).2.perform rest).1,
      ((r.act action).2.perform rest).2)

theorem perform_append (r : Receiver) (before after : List Action) :
    r.perform (before ++ after) =
      ((r.perform before).1 ++ ((r.perform before).2.perform after).1,
        ((r.perform before).2.perform after).2) := by
  induction before generalizing r with
  | nil => rfl
  | cons action before ih => rw [List.cons_append, perform, ih, perform, List.append_assoc]

theorem Forged.perform (forged : r.Forged source bs kind) (now : Moment) (after : List Action) :
    r.perform (.take now source bs :: after) =
      ({ outcome := .error (.cipher kind.forgery) } :: ((r.afterForgery source kind).perform after).1,
        ((r.afterForgery source kind).perform after).2) := by
  have taken := forged.take now
  rw [Receiver.perform, reception?, act, taken]
  rfl

/-- One forged packet is as good as another. -/
theorem perform_forged {before : List Action} {bs' : Bytes}
    (forged : (r.perform before).2.Forged source bs kind)
    (other : (r.perform before).2.Forged source bs' kind) (now later : Moment) (after : List Action) :
    r.perform (before ++ .take now source bs :: after) =
      r.perform (before ++ .take later source bs' :: after) := by
  rw [perform_append, perform_append, forged.perform, other.perform]

/-! ## What is passed on -/

theorem frames_relayCalls {m : Nat} (attached : m < r.relays) (info : FrameInfo) (rest : Bytes) :
    (r.relayCalls info rest).filterMap (Call.frame? m) = [(info, rest)] := by
  rw [relayCalls, List.filterMap_map]
  exact filterMap_range attached (some (info, rest))

theorem frames_handle (r : Receiver) (now : Moment) (packet : Packet) (carrier : Option UInt32)
    (m : Nat) : (r.handle now packet carrier).1.frames m = [] := by
  rw [Reception.frames, List.filterMap_eq_nil_iff]
  intro call hc
  cases call with
  | relay i info rest => exact absurd rfl (ne_relay_of_handle hc i info rest)
  | decode | observe => rfl

theorem frames_relay (r : Receiver) (now : Moment) (bs : Bytes) (m : Nat) :
    (r.relay now bs).1.frames m = [] := by
  rcases r.relay_eq now bs with ⟨-, none⟩ | ⟨packet, -, handled⟩
  · rw [Reception.frames, none, List.filterMap_nil]
  · rw [handled, frames_handle]

/-- Of a packet that has been read it is not said that its frame was damaged, or one of another channel. -/
theorem handle_outcome_ne (r : Receiver) (now : Moment) (packet : Packet) (carrier : Option UInt32) :
    (r.handle now packet carrier).1.outcome ≠ .ok .corrupt ∧
      (r.handle now packet carrier).1.outcome ≠ .ok .otherChannel := by
  have step := handled (.refl r) now packet carrier
  generalize (r.handle now packet carrier).1.outcome = outcome at step ⊢
  generalize (r.handle now packet carrier).1.calls.filter Call.isDecode = decodes at step
  cases step with
  | @announced nonce =>
      cases (r.session.announce now nonce packet.cipher carrier).1 <;> simp [Except.map]
  | @received x =>
      cases (r.session.receive now x r.recovery).1.outcome <;> simp [Except.map]

/-- What a captured frame that is not forged is passed on as. -/
structure PassedOn (r : Receiver) (bs : Bytes) (m : Nat) (x : Reception) : Prop where
  damaged : x.outcome = .ok .corrupt →
    ∃ info frame, r.Heard bs info frame ∧ info.corrupt = true ∧ x.frames m = [(info, [])]
  read : ∀ info frame header packet, r.Heard bs info frame → info.corrupt = false →
    r.Reads frame header packet → x.frames m = [(info, frame.drop Limits.dot11Header)]
  silent : x.outcome ≠ .ok .corrupt →
    (∀ info frame header packet, r.Heard bs info frame → info.corrupt = false →
      ¬r.Reads frame header packet) → x.frames m = []

theorem passedOn_capture (genuine : ∀ kind, ¬r.Forged .capture bs kind) (now : Moment) {m : Nat}
    (attached : m < r.relays) : r.PassedOn bs m (r.capture now bs).1 := by
  have step := r.overheard now bs
  generalize found : r.packet? .capture bs = packet at step
  generalize r.capture now bs = result at step ⊢
  cases step with
  | silent calls outcome unread =>
      have nothing : result.1.frames m = [] := by rw [Reception.frames, calls, List.filterMap_nil]
      exact ⟨fun corrupt => absurd corrupt outcome,
        fun info frame header packet heard _ reads => absurd reads (unread info frame header packet heard),
        fun _ _ => nothing⟩
  | @damaged info frame next heard corrupt =>
      refine ⟨fun _ => ⟨info, frame, heard, corrupt, frames_relayCalls attached info []⟩, ?_,
        fun outcome => absurd rfl outcome⟩
      intro info' frame' header packet heard' intact
      obtain ⟨rfl, rfl⟩ := heard.unique heard'
      cases corrupt.symm.trans intact
  | @read info frame header packet heard intact reads =>
      let t := r.count fun c => { c with captured := c.captured + 1 }
      let handled := t.handle now packet (some header.channel)
      let rest := frame.drop Limits.dot11Header
      have opened : ¬isForged handled.1.outcome = true := by
        rw [isForged_handle]
        rintro ⟨kind, unopened⟩
        exact genuine kind ⟨packet, _, found, unopened⟩
      have passed : (r.handleCaptured now info rest packet header.channel).1 =
          { handled.1 with calls := handled.1.calls ++ r.relayCalls info rest } := by
        rw [handleCaptured_eq]
        exact congrArg Prod.fst (if_neg opened)
      have none : handled.1.calls.filterMap (Call.frame? m) = [] := t.frames_handle now packet _ m
      have frames : (r.handleCaptured now info rest packet header.channel).1.frames m =
          [(info, rest)] := by
        rw [passed, Reception.frames, List.filterMap_append, none, frames_relayCalls attached]
        rfl
      refine ⟨?_, ?_, fun _ unread => absurd reads (unread info frame header packet heard intact)⟩
      · intro corrupt
        rw [passed] at corrupt
        exact absurd corrupt (t.handle_outcome_ne now packet _).1
      · intro info' frame' header' packet' heard' _ reads'
        obtain ⟨rfl, rfl⟩ := heard.unique heard'
        exact frames

/-- Whatever is given to a receiver: what cannot be opened calls nobody, takes no more of the session
than its key, and could be anything else that cannot be opened; every other captured frame is passed
on once or not at all; and what comes over the wire is not passed on. -/
theorem forgery_ineffective (r : Receiver) :
    (∀ now source bs kind, r.Forged source bs kind →
      (r.take now source bs).1 = { outcome := .error (.cipher kind.forgery), calls := [], gaps := [] } ∧
      (r.take now source bs).2.session =
        match kind with
        | .session => r.session
        | .data => { r.session with hasKey := false }) ∧
    (∀ before after source kind now later bs bs', (r.perform before).2.Forged source bs kind →
      (r.perform before).2.Forged source bs' kind →
      r.perform (before ++ .take now source bs :: after) =
        r.perform (before ++ .take later source bs' :: after)) ∧
    (∀ now bs, (∀ kind, ¬r.Forged .capture bs kind) → ∀ m < r.relays,
      r.PassedOn bs m (r.take now .capture bs).1) ∧
    ∀ now bs m, (r.take now .relay bs).1.frames m = [] := by
  refine ⟨?_, ?_, ?_, ?_⟩
  · intro now source bs kind forged
    rw [forged.take]
    cases kind <;> exact ⟨rfl, rfl⟩
  · intro before after source kind now later bs bs' forged other
    exact perform_forged forged other now later after
  · intro now bs genuine m attached
    exact passedOn_capture genuine now attached
  · exact r.frames_relay

/-- An announcement with nothing but one byte in its box. -/
def hollowBox (b : UInt8) : Bytes :=
  Relay.datagram ⟨0, 0, false⟩
    ((Packet.Header.session ⟨Bytes.zeros 24, rfl⟩).encode ++ List.replicate Limits.sessionCipher b)

theorem forged_hollowBox {b : UInt8}
    (closed : Cipher.SealedBox.decrypt r.session.boxKey ⟨Bytes.zeros 24, rfl⟩
      (List.replicate Limits.sessionCipher b) = .error .sessionNotOpened) :
    r.Forged .relay (hollowBox b) .session := by
  have small : ¬Limits.packet < ((Packet.Header.session ⟨Bytes.zeros 24, rfl⟩).encode ++
      List.replicate Limits.sessionCipher b).length := by simp; decide
  have found := r.packet?_datagram (show FrameInfo.corrupt ⟨0, 0, false⟩ = false from rfl)
    (Packet.parse_session ⟨Bytes.zeros 24, rfl⟩ small)
  exact ⟨_, _, found, .session rfl (by simp) closed⟩

/-- A receiver with one relay. -/
def relaying : Receiver :=
  { settings := .strict, recovery := true, relays := 1
    session :=
      { boxKey := ⟨Bytes.zeros 32, List.length_replicate⟩, channel := none, windowSize := 1, fragmentSize := 16
        rollbackAfter := none } }

/-- A captured frame with a wrong check sequence. -/
def damagedFrame : Bytes := Radiotap.encode 2412 0 true ++ [1, 2, 3, 4]

/-- Two boxes that cannot be opened, each before a damaged frame. -/
theorem forgery_ineffective_boxes :
    (relaying.take 0 .relay (hollowBox 0)).1.calls = [] ∧
    (relaying.take 0 .relay (hollowBox 0)).2.session = relaying.session ∧
    relaying.perform [.take 0 .relay (hollowBox 0), .take 1 .capture damagedFrame] =
      relaying.perform [.take 0 .relay (hollowBox 1), .take 1 .capture damagedFrame] ∧
    relaying.PassedOn damagedFrame 0 (relaying.take 1 .capture damagedFrame).1 ∧
    (relaying.take 1 .capture damagedFrame).1.frames 0 = [(⟨2412, 0, true⟩, [])] := by
  obtain ⟨alone, run, passed, -⟩ := forgery_ineffective relaying
  have first : relaying.Forged .relay (hollowBox 0) .session := forged_hollowBox (by decide +kernel)
  have second : relaying.Forged .relay (hollowBox 1) .session := forged_hollowBox (by decide +kernel)
  obtain ⟨reception, session⟩ := alone 0 .relay _ .session first
  refine ⟨congrArg Reception.calls reception, session, ?_, ?_, by decide +kernel⟩
  · exact run [] [.take 1 .capture damagedFrame] .relay .session 0 0 _ _ first second
  · refine passed 1 damagedFrame ?_ 0 Nat.one_pos
    rintro kind ⟨packet, carrier, found, -⟩
    have none : relaying.packet? .capture damagedFrame = none := by decide +kernel
    cases none.symm.trans found

end Receiver

end AirLink
