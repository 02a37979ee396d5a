import AirLink.Proofs.Dispatch
import AirLink.Transmitter

/-! # Frames on the air

A frame that is captured as it was transmitted is read down to its packet, on the channel on which it
was sent.
-/

namespace AirLink

namespace Radiotap

/-- A header is read as it is, whatever follows. -/
theorem parse_append {bs : Bytes} {header : Header} (parsed : parse bs = .ok (header, []))
    (rest : Bytes) : parse (bs ++ rest) = .ok (header, rest) := by
  unfold parse at parsed
  simp only at parsed
  split_ifs at parsed with short version least cut
  have same : ((bs ++ rest).drop 2).take 2 = (bs.drop 2).take 2 := by
    simp only [minimumLength] at short
    rw [List.drop_append_of_le_length (by omega),
      List.take_append_of_le_length (by rw [List.length_drop]; omega)]
  have head : (bs ++ rest).headD 0 = bs.headD 0 := by
    cases bs with
    | nil => exact absurd (by decide) short
    | cons b bs => rfl
  unfold parse
  simp only [same, head]
  generalize Bytes.toNatLE ((bs.drop 2).take 2) = length at parsed cut least
  cases words : presenceWords ((bs.take length).drop 4) with
  | none => simp only [words, reduceCtorEq] at parsed
  | some words' =>
      simp only [words] at parsed
      cases read : readWords words' (.standard 0)
          ⟨4 + 4 * words'.length, (bs.take length).drop (4 + 4 * words'.length), { length }⟩ with
      | error fault => simp [read, Except.map] at parsed
      | ok found =>
          simp only [read, Except.map, Except.ok.injEq, Prod.mk.injEq] at parsed
          obtain ⟨rfl, all⟩ := parsed
          have size : bs.length = length := Nat.le_antisymm (List.drop_eq_nil_iff.mp all) (Nat.le_of_not_lt cut)
          have whole : (bs ++ rest).take length = bs.take length :=
            List.take_append_of_le_length size.ge
          have behind : (bs ++ rest).drop length = rest := List.drop_left' size
          have long : ∀ n, ¬bs.length < n → ¬(bs ++ rest).length < n := by
            intro n le
            rw [List.length_append]
            omega
          rw [if_neg (long _ short), if_neg version, if_neg least, if_neg (long _ cut)]
          simp only [whole, words, read, behind]
          rfl

/-- The least header tells frequency and strength, and whether there is a check sequence. -/
theorem parse_encode (frequency : UInt16) (signal : Int8) (checksum : Bool) :
    parse (encode frequency signal checksum) = .ok
      ({ length := 15, flags := if checksum then 0x10 else 0, channel := some ⟨frequency, 0x0140⟩,
         signal := some signal }, []) := by
  have bits : List.range sectionBit = [0, 1, 2, 3, 4, 5, 6, 7, 8, 9, 10, 11, 12, 13, 14, 15, 16, 17, 18,
    19, 20, 21, 22, 23, 24, 25, 26, 27, 28] := by decide
  let field : Bytes := Layout.u16le.write frequency ++ [0x40, 0x01]
  have read : parse (encode frequency signal checksum) = .ok
      ({ length := 15, flags := if checksum then 0x10 else 0,
         channel := some ⟨Header.wordAt field 0, Header.wordAt field 2⟩, signal := some signal }, []) := by
    simp [parse, encode, minimumLength, presenceWords, moreBit, Nat.testBit, readWords, readFields, bits,
      fieldLayout, alignUp, Cursor.endsBefore, Cursor.moveTo, Header.take, Header.byteAt, field,
      Layout.u16le, Bytes.ofNatLE, Bytes.toNatLE, bind, Except.bind, Except.map]
  have word : Header.wordAt field 0 = frequency := Layout.u16le_lawful.read ..
  rw [read, word]
  rfl

end Radiotap

/-- A check sequence that has been appended is taken off again, and belongs to its frame. -/
theorem Checksum.strip_append (frame : Bytes) (verify : Bool) :
    strip (append frame) verify = .ok (frame, true) := by
  have size : (trailer frame).length = Checksum.size := Bytes.length_ofNatLE ..
  have length : (append frame).length = frame.length + Checksum.size := by
    rw [append, List.length_append, size]
  have body : (append frame).take ((append frame).length - Checksum.size) = frame := by
    rw [length, Nat.add_sub_cancel]
    exact List.take_left
  have sequence : (append frame).drop ((append frame).length - Checksum.size) = trailer frame := by
    rw [length, Nat.add_sub_cancel]
    exact List.drop_left
  have belongs : (crc32 frame).toNat = Bytes.toNatLE (trailer frame) := by
    rw [trailer, Bytes.toNatLE_ofNatLE]
    exact (Nat.mod_eq_of_lt (crc32 frame).toNat_lt).symm
  unfold strip
  simp only [body, sequence, belongs, beq_self_eq_true, Bool.or_true]
  rw [if_neg (by rw [length]; omega)]

namespace Dot11

namespace Header

theorem layout_lawful : layout.Lawful :=
  (Layout.u16le_lawful.both <| Layout.u16le_lawful.both <| (Layout.octets_lawful 6).both <|
    (Layout.octets_lawful 6).both <| (Layout.octets_lawful 6).both Layout.u16le_lawful).through
    fun _ => rfl

theorem source_forChannel (channel : UInt32) (sequence : UInt16) :
    (forChannel channel sequence).source.val =
      Layout.u16.write Limits.signature ++ Layout.u32.write channel := by
  have size : (Layout.u16.write Limits.signature ++ Layout.u32.write channel).length = 6 := by
    rw [List.length_append, Layout.u16_lawful.length, Layout.u32_lawful.length]
    rfl
  exact (Bytes.fit_eq_take size.ge).trans (List.take_of_length_le size.le)

theorem signature_forChannel (channel : UInt32) (sequence : UInt16) :
    (forChannel channel sequence).signature = Limits.signature := by
  rw [signature, source_forChannel, Layout.u16_lawful.read]

theorem channel_forChannel (channel : UInt32) (sequence : UInt16) :
    (forChannel channel sequence).channel = channel := by
  have read := Layout.u32_lawful.read channel []
  rw [List.append_nil] at read
  rw [Header.channel, source_forChannel]
  exact read

/-- Four of the sixteen bits go to the fragment number. -/
theorem sequence_forChannel (channel : UInt32) (sequence : UInt16) :
    (forChannel channel sequence).sequence.toNat = sequence.toNat % 4096 := by
  change ((sequence <<< 4) >>> 4).toNat = _
  have small : (4 : UInt16).toNat % 16 = 4 := rfl
  rw [UInt16.toNat_shiftRight, UInt16.toNat_shiftLeft, small, Nat.shiftLeft_eq, Nat.shiftRight_eq_div_pow]
  omega

end Header

/-- A header that passes the checks is read as it was written, whatever follows it. -/
theorem parse_encode {h : Header} (version : h.version = 0) (type : h.type = dataType)
    (subtype : h.subtype = 0) (mark : h.signature = Limits.signature) (bs : Bytes) :
    parse (h.encode ++ bs) = .ok (h, bs) := by
  have size : h.encode.length = Limits.dot11Header := Header.layout_lawful.length _
  have long : ¬(h.encode ++ bs).length < Limits.dot11Header := by
    rw [List.length_append, size]
    omega
  have some : ¬(h.encode ++ bs).length < 2 := fun short => long (short.trans (by decide))
  have read : Header.layout.read (h.encode ++ bs) = h := Header.layout_lawful.read ..
  have rest : (h.encode ++ bs).drop Limits.dot11Header = bs := List.drop_left' size
  unfold parse
  rw [if_neg some]
  simp only [read, version, type, subtype, mark, ne_eq, not_true_eq_false, if_false, if_neg long, rest]

theorem parse_forChannel (channel : UInt32) (sequence : UInt16) (bs : Bytes) :
    parse ((Header.forChannel channel sequence).encode ++ bs) =
      .ok (Header.forChannel channel sequence, bs) := by
  apply parse_encode
  case version => exact show (8 : UInt16).toNat % 4 = 0 by decide
  case type => exact show (8 : UInt16).toNat / 4 % 4 = 2 by decide
  case subtype => exact show (8 : UInt16).toNat / 16 % 16 = 0 by decide
  case mark => exact Header.signature_forChannel channel sequence

end Dot11

/-- A frame is read as it was captured, whether or not its check sequence is verified. -/
theorem read_captureFrame (channel : UInt32) (sequence frequency : UInt16) (signal : Int8) (bs : Bytes)
    (checksum : Bool) :
    ∃ radio rest, Radiotap.parse (captureFrame channel sequence frequency signal bs checksum) =
        .ok (radio, rest) ∧
      (∀ verify, (if radio.hasChecksum then Checksum.strip rest verify else .ok (rest, true)) =
        .ok ((Dot11.Header.forChannel channel sequence).encode ++ bs, true)) ∧
      radio.frequency = frequency ∧ radio.strength = signal.toInt16 ∧ radio.badChecksum = false := by
  have parsed := Radiotap.parse_append (Radiotap.parse_encode frequency signal checksum)
    (if checksum then Checksum.append ((Dot11.Header.forChannel channel sequence).encode ++ bs)
      else (Dot11.Header.forChannel channel sequence).encode ++ bs)
  have flags : ∀ c : Bool, ((if c then 0x10 else 0 : UInt8) &&& 0x10 != 0) = c ∧
      ((if c then 0x10 else 0 : UInt8) &&& 0x40 != 0) = false := by decide
  refine ⟨_, _, parsed, fun verify => ?_, rfl, rfl, (flags checksum).2⟩
  rw [Radiotap.Header.hasChecksum, (flags checksum).1]
  cases checksum with
  | false => rfl
  | true => rw [if_pos rfl, if_pos rfl, Checksum.strip_append]

/-- A packet that is captured undamaged on its own channel reaches the session. -/
theorem Receiver.packet?_captureFrame (r : Receiver) {channel : UInt32} {sequence frequency : UInt16}
    {signal : Int8} {checksum : Bool} (own : ∀ expected ∈ r.settings.channel, expected = channel)
    {bs : Bytes} {packet : Packet} (read : Packet.parse bs = .ok packet) :
    r.packet? .capture (AirLink.captureFrame channel sequence frequency signal bs checksum) =
      some (packet, some channel) := by
  have native : ¬r.settings.channel.any (· ≠ channel) := by
    cases set : r.settings.channel with
    | none => exact Bool.false_ne_true
    | some expected => simp [own expected set]
  obtain ⟨radio, rest, outer, stripped, -, -, intact⟩ :=
    read_captureFrame channel sequence frequency signal bs checksum
  have inner := Dot11.parse_forChannel channel sequence bs
  simp only [packet?, outer, stripped, intact, inner, read, Except.toOption, Option.bind_eq_bind,
    Option.bind_some, Option.map_some, Bool.not_true, Bool.or_self, Bool.false_eq_true, if_false,
    Dot11.Header.channel_forChannel]
  exact if_neg native

end AirLink
