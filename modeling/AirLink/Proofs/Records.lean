import AirLink.Proofs.Dispatch

/-! # Records of a fixed length

Announcements, the headers of fragments and the headers of relayed frames take up so many bytes at the
front of a string.  Each value has one form, which is read whatever follows it, and each string of that
length is the form of one value.  The header of a relayed frame is the exception: a signal strength that
no eight bits can hold is read as unknown, and from then on it is written as unknown.
-/

namespace AirLink

variable {α : Type}

/-- The values are written in `size` bytes and read from the front of a string, every string that is long
enough being read as the one value that is written so. -/
structure Recorded (stage : Stage) (size : Nat) (encode : α → Bytes) (decode : Bytes → Except Fault α) :
    Prop where
  read : ∀ a tail, decode (encode a ++ tail) = .ok a
  written : ∀ bs : Bytes, size ≤ bs.length → ∃ a, decode bs = .ok a ∧ encode a = bs.take size
  cut : ∀ bs : Bytes, bs.length < size → decode bs = .error (.truncated stage size bs.length)

namespace Layout

variable {layout : Layout α}

/-- Whatever reads a lawful and exact layout, and refuses what is too short for it. -/
theorem recorded (lawful : layout.Lawful) (exact : layout.Exact) {stage : Stage}
    {decode : Bytes → Except Fault α}
    (reads : ∀ bs, decode bs = match layout.read? bs with
      | none => .error (.truncated stage layout.size bs.length)
      | some (a, _) => .ok a) :
    Recorded stage layout.size layout.write decode where
  read a tail := by rw [reads, lawful.read?]
  written bs long := ⟨layout.read bs, by rw [reads, read?_eq long], exact bs long⟩
  cut bs short := by rw [reads, read?_eq_none short]

end Layout

theorem FragmentHeader.layout_exact : FragmentHeader.layout.Exact :=
  (Layout.u8_exact.both Layout.u16_exact).through fun _ => rfl

theorem SessionOffer.layout_exact : SessionOffer.layout.Exact :=
  (Layout.u64_exact.both <| Layout.u32_exact.both <| Layout.u8_exact.both <| Layout.u8_exact.both <|
    Layout.u8_exact.both (Layout.octets_exact 32)).through fun _ => rfl

theorem FragmentHeader.recorded : Recorded .fragment Limits.fragmentHeader encode decode :=
  layout.recorded layout_lawful layout_exact fun bs => by unfold decode; cases layout.read? bs <;> rfl

theorem SessionOffer.recorded : Recorded .sessionOffer Limits.sessionOffer encode decode :=
  layout.recorded layout_lawful layout_exact fun bs => by unfold decode; cases layout.read? bs <;> rfl

namespace Relay

/-- The signal strengths that pass a relay: those of eight bits and the mark of an unknown one. -/
def Passable (signal : Int16) : Prop :=
  (-128 ≤ signal.toInt ∧ signal.toInt ≤ 127) ∨ signal = Limits.unknownSignal

/-- The signal strength in the last two bytes of a header. -/
def signalIn (bs : Bytes) : Int16 := (UInt16.ofNat (Bytes.toNatBE ((bs.drop 6).take 2))).toInt16

/-- Reads the header of a datagram and writes it again. -/
def renew (bs : Bytes) : Except Fault Bytes :=
  (Header.parse bs).map fun (header, rest) => header.encode ++ rest

namespace Header

theorem layout_exact : layout.Exact :=
  (Layout.u32_exact.both (Layout.u16_exact.both Layout.i16_exact)).through fun _ => rfl

theorem info_ofInfo (info : FrameInfo) : (ofInfo info).info = info := by
  obtain ⟨frequency, signal, corrupt⟩ := info
  cases corrupt <;> simp [Header.info, ofInfo, isCorrupt, corruptFlag]

theorem signal_read (bs : Bytes) : (layout.read bs).signal = signalIn bs := by
  change (UInt16.ofNat (Bytes.toNatBE (((bs.drop 4).drop 2).take 2))).toInt16 = signalIn bs
  rw [List.drop_drop]
  rfl

theorem normalize_of_passable {h : Header} (passable : Passable h.signal) : h.normalize = h := by
  rcases passable with small | unknown
  · exact if_pos small
  · unfold normalize
    rw [← unknown, ite_self]

theorem passable_normalize (h : Header) : Passable h.normalize.signal := by
  unfold normalize
  split
  next small => exact .inl small
  next => exact .inr rfl

theorem normalize_signal (h : Header) : h.normalize =
    { h with signal :=
        if -128 ≤ h.signal.toInt ∧ h.signal.toInt ≤ 127 then h.signal else Limits.unknownSignal } := by
  unfold normalize
  split <;> rfl

theorem parse_encode (h : Header) (tail : Bytes) : parse (h.encode ++ tail) = .ok (h.normalize, tail) := by
  rw [parse, encode, layout_lawful.read?]

theorem parse_of_size_le {bs : Bytes} (long : layout.size ≤ bs.length) :
    parse bs = .ok ((layout.read bs).normalize, bs.drop layout.size) := by
  rw [parse, Layout.read?_eq long]

theorem parse_of_lt_size {bs : Bytes} (short : bs.length < layout.size) :
    parse bs = .error (.truncated .relay layout.size bs.length) := by
  rw [parse, Layout.read?_eq_none short]

end Header

/-- What has been renewed once is not changed by being renewed again. -/
theorem renew_renew (bs : Bytes) : renew bs >>= renew = renew bs := by
  by_cases short : bs.length < Header.layout.size
  · rw [renew, Header.parse_of_lt_size short]
    rfl
  · have again := Header.parse_encode (Header.layout.read bs).normalize (bs.drop Header.layout.size)
    rw [Header.normalize_of_passable (Header.passable_normalize _)] at again
    rw [renew, Header.parse_of_size_le (Nat.le_of_not_lt short)]
    exact congrArg (Except.map fun (header, rest) => header.encode ++ rest) again

end Relay

/-- The records of the link, whose fields lie one behind the other, words with their most significant byte
first: each is read as it was written whatever follows, every long enough string is written as it was read,
and no other is read at all.  In a relay header the strengths that cannot pass are an exception, so that
only what is known of a frame and can pass comes to the other side unchanged. -/
theorem records_exact :
    Recorded .sessionOffer 47 SessionOffer.encode SessionOffer.decode ∧
    (∀ o : SessionOffer, o.encode = Bytes.ofNatBE 8 o.epoch.toNat ++ Bytes.ofNatBE 4 o.channel.toNat ++
      [o.scheme, o.k, o.n] ++ o.key.val) ∧
    Recorded .fragment 3 FragmentHeader.encode FragmentHeader.decode ∧
    (∀ h : FragmentHeader, h.encode = [h.flags] ++ Bytes.ofNatBE 2 h.size.toNat) ∧
    (∀ h : Relay.Header, h.encode = Bytes.ofNatBE 4 h.flags.toNat ++ Bytes.ofNatBE 2 h.frequency.toNat ++
      Bytes.ofNatBE 2 h.signal.toUInt16.toNat) ∧
    (∀ (h : Relay.Header) (tail : Bytes), Relay.Header.parse (h.encode ++ tail) =
      .ok ({ h with signal :=
        if -128 ≤ h.signal.toInt ∧ h.signal.toInt ≤ 127 then h.signal else -32768 }, tail)) ∧
    (∀ bs : Bytes, 8 ≤ bs.length → ∃ h, Relay.Header.parse bs = .ok (h, bs.drop 8) ∧
      (Relay.Passable (Relay.signalIn bs) → h.encode = bs.take 8)) ∧
    (∀ bs : Bytes, bs.length < 8 → Relay.Header.parse bs = .error (.truncated .relay 8 bs.length)) ∧
    (∀ (info : FrameInfo) (tail : Bytes), Relay.Passable info.signal →
      ∃ h, Relay.Header.parse ((Relay.Header.ofInfo info).encode ++ tail) = .ok (h, tail) ∧ h.info = info) ∧
    ∀ bs : Bytes, Relay.renew bs >>= Relay.renew = Relay.renew bs := by
  refine ⟨?offer, ?offerBytes, ?fragment, ?fragmentBytes, ?relayBytes, ?relayRead, ?relayWritten, ?relayCut,
    ?info, Relay.renew_renew⟩
  case offer => exact SessionOffer.recorded
  case offerBytes =>
    intro o
    change Layout.u64.write o.epoch ++ (Layout.u32.write o.channel ++ ([o.scheme] ++ ([o.k] ++ ([o.n] ++
      o.key.val)))) = _
    simp only [List.append_assoc, List.cons_append, List.nil_append]
    rfl
  case fragment => exact FragmentHeader.recorded
  case fragmentBytes => exact fun _ => rfl
  case relayBytes => exact fun h => (List.append_assoc ..).symm
  case relayRead =>
    intro h tail
    rw [Relay.Header.parse_encode, Relay.Header.normalize_signal]
    rfl
  case relayWritten =>
    intro bs long
    refine ⟨_, Relay.Header.parse_of_size_le long, fun passable => ?_⟩
    rw [← Relay.Header.signal_read] at passable
    rw [Relay.Header.normalize_of_passable passable]
    exact Relay.Header.layout_exact bs long
  case relayCut => exact fun _ short => Relay.Header.parse_of_lt_size short
  case info =>
    intro info tail passable
    have same := Relay.Header.normalize_of_passable (h := Relay.Header.ofInfo info) passable
    refine ⟨Relay.Header.ofInfo info, ?_, Relay.Header.info_ofInfo info⟩
    rw [Relay.Header.parse_encode, same]

end AirLink
