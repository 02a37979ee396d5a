import AirLink.Checksum
import AirLink.Dot11
import AirLink.Packet
import AirLink.Relay
import AirLink.Proofs.Checked.Words
import AirLink.Proofs.Packets

/-! # Frames and packets in checked steps

The readers of the headers behind the radiotap header.  Those of 802.11 and relay headers, of packets
and of fragments cut slices of fixed lengths out of a buffer, after they have looked at its length.
-/

namespace AirLink

namespace Layout

variable {α β : Type}

/-- What is read depends on the bytes of the record only. -/
def Local (layout : Layout α) : Prop :=
  ∀ (bs : Bytes) {n : Nat}, layout.size ≤ n → layout.read (bs.take n) = layout.read bs

theorem local_of_take {layout : Layout α} (value : Bytes → α)
    (read : ∀ bs, layout.read bs = value (bs.take layout.size)) : layout.Local := by
  intro bs n le
  rw [read, read, List.take_take, Nat.min_eq_left le]

theorem u16le_local : u16le.Local := local_of_take (fun bs => UInt16.ofNat (Bytes.toNatLE bs)) fun _ => rfl

theorem u16_local : u16.Local := local_of_take (fun bs => UInt16.ofNat (Bytes.toNatBE bs)) fun _ => rfl

theorem u32_local : u32.Local := local_of_take (fun bs => UInt32.ofNat (Bytes.toNatBE bs)) fun _ => rfl

theorem u8_local : u8.Local := by
  intro bs n (le : 1 ≤ n)
  cases bs with
  | nil => rw [List.take_nil]
  | cons b bs => match n, le with | _ + 1, _ => rfl

theorem octets_local (n : Nat) : (octets n).Local := by
  intro bs m (le : n ≤ m)
  apply Subtype.ext
  have missing : n - min m bs.length = n - bs.length := by omega
  change (bs.take m).take n ++ Bytes.zeros (n - (bs.take m).length) = bs.take n ++ Bytes.zeros (n - bs.length)
  rw [List.take_take, Nat.min_eq_left le, List.length_take, missing]

theorem Local.both {first : Layout α} {second : Layout β} (h : first.Local) (h' : second.Local) :
    (first.both second).Local := by
  intro bs n (le : first.size + second.size ≤ n)
  change (first.read (bs.take n), second.read ((bs.take n).drop first.size)) = (_, _)
  rw [h bs (Nat.le_of_add_right_le le), List.drop_take, h' _ (Nat.le_sub_of_add_le' le)]

theorem Local.through {layout : Layout α} (h : layout.Local) {make : α → β} {parts : β → α} :
    (layout.through make parts).Local := fun bs _ le => congrArg make (h bs le)

end Layout

namespace Checked

namespace Checksum

open AirLink.Checksum

def strip (frame : Bytes) (verify : Bool) : Option (Except Fault (Bytes × Bool)) := do
  if frame.length < size then return .error (.truncated .checksum size frame.length)
  let length ← sub frame.length size
  let (body, sequence) ← split length frame
  if !verify then return .ok (body, true)
  let first ← sequence[0]?
  let second ← sequence[1]?
  let third ← sequence[2]?
  let fourth ← sequence[3]?
  return .ok (body, (crc32 body).toNat == Bytes.toNatLE [first, second, third, fourth])

theorem strip_eq (frame : Bytes) (verify : Bool) :
    strip frame verify = some (AirLink.Checksum.strip frame verify) := by
  unfold strip AirLink.Checksum.strip
  refine check_eq fun cut => ?_
  have long := Nat.le_of_not_lt cut
  have four : (frame.drop (frame.length - size)).length = 4 := by
    rw [List.length_drop]
    exact Nat.sub_sub_self long
  apply step (sub_eq long)
  apply step (split_eq (Nat.sub_le ..))
  cases verify with
  | false => rfl
  | true => match frame.drop (frame.length - size), four with | [_, _, _, _], _ => rfl

end Checksum

namespace Dot11

open AirLink.Dot11

/-- Reads what follows the control word. -/
def readFields (control : UInt16) (bs : Bytes) : Option Header := do
  let fields ← slice bs 2 Limits.dot11Header
  let (duration, fields) ← Layout.u16le.read? fields
  let (receiver, fields) ← (Layout.octets 6).read? fields
  let (source, fields) ← (Layout.octets 6).read? fields
  let (destination, fields) ← (Layout.octets 6).read? fields
  let (sequenceControl, _) ← Layout.u16le.read? fields
  return ⟨control, duration, receiver, source, destination, sequenceControl⟩

def parse (bs : Bytes) : Option (Except Fault (Header × Bytes)) := do
  if bs.length < 2 then return .error (.truncated .dot11 2 bs.length)
  let low ← bs[0]?
  let high ← bs[1]?
  let control := UInt16.ofNat (Bytes.toNatLE [low, high])
  let version := control.toNat % 4
  let type := control.toNat / 4 % 4
  let subtype := control.toNat / 16 % 16
  if version ≠ 0 then return .error (.unsupportedVersion version)
  if type ≠ dataType then return .error (.notDataFrame type)
  if subtype ≠ 0 then return .error (.unsupportedSubtype subtype)
  if bs.length < Limits.dot11Header then
    return .error (.truncated .dot11 Limits.dot11Header bs.length)
  let header ← readFields control bs
  if header.signature ≠ Limits.signature then
    return .error (.invalidSignature Limits.signature header.signature)
  let rest ← slice bs Limits.dot11Header bs.length
  return .ok (header, rest)

theorem readFields_eq {bs : Bytes} (long : Limits.dot11Header ≤ bs.length) :
    readFields (Header.layout.read bs).control bs = some (Header.layout.read bs) := by
  -- The fields that are left from an offset on are the ones of the buffer, up to the end of the header.
  have left (m n : Nat) :
      (((bs.take Limits.dot11Header).drop m).drop n) = (bs.take Limits.dot11Header).drop (m + n) :=
    List.drop_drop ..
  have size {m n : Nat} (inside : m + n ≤ Limits.dot11Header) :
      n ≤ ((bs.take Limits.dot11Header).drop m).length := by
    rw [List.length_drop, List.length_take_of_le long]
    exact Nat.le_sub_of_add_le' inside
  have field {α : Type} {layout : Layout α} (h : layout.Local) {m : Nat}
      (inside : m + layout.size ≤ Limits.dot11Header) :
      layout.read ((bs.take Limits.dot11Header).drop m) = layout.read (bs.drop m) := by
    rw [List.drop_take, h _ (Nat.le_sub_of_add_le' inside)]
  unfold readFields
  apply step (slice_eq (by decide) long)
  apply step (Layout.read?_eq (size (by decide)))
  rw [left]
  apply step (Layout.read?_eq (size (by decide)))
  rw [left]
  apply step (Layout.read?_eq (size (by decide)))
  rw [left]
  apply step (Layout.read?_eq (size (by decide)))
  rw [left]
  apply step (Layout.read?_eq (size (by decide)))
  simp (disch := decide) only [field Layout.u16le_local, field (Layout.octets_local 6)]
  simp only [Header.layout, Layout.both, Layout.through, List.drop_drop]
  rfl

theorem parse_eq (bs : Bytes) : parse bs = some (AirLink.Dot11.parse bs) := by
  unfold parse AirLink.Dot11.parse
  refine check_eq fun cut => ?_
  match bs, Nat.le_of_not_lt cut with
  | low :: high :: behind, _ =>
  have control : (Header.layout.read (low :: high :: behind)).control =
      UInt16.ofNat (Bytes.toNatLE [low, high]) := rfl
  apply step (a := low) rfl
  apply step (a := high) rfl
  rw [← control]
  generalize low :: high :: behind = bs
  refine check_eq (c := (Header.layout.read bs).version ≠ 0) fun _ => ?_
  refine check_eq (c := (Header.layout.read bs).type ≠ dataType) fun _ => ?_
  refine check_eq (c := (Header.layout.read bs).subtype ≠ 0) fun _ => ?_
  refine check_eq fun short => ?_
  have long := Nat.le_of_not_lt short
  apply step (readFields_eq long)
  refine check_eq fun _ => ?_
  exact step (slice_rest long) rfl

end Dot11

namespace Packet

open AirLink.Packet

def parseHeader (bs : Bytes) : Option (Except Fault (Header × Bytes)) := do
  if Limits.packet < bs.length then return .error (.oversized Limits.packet bs.length)
  match bs.head? with
  | none => return .error (.truncated .packet 1 0)
  | some tag =>
    match PacketType.ofTag tag with
    | .error fault => return .error fault
    | .ok .data =>
      if bs.length < Limits.dataHeader then
        return .error (.truncated .dataPacket Limits.dataHeader bs.length)
      let raw ← slice bs 1 Limits.dataHeader
      let raw ← Octets.ofBytes? 8 raw
      let nonce := UInt64.ofNat (Bytes.toNatBE raw.val)
      let cipher ← slice bs Limits.dataHeader bs.length
      return .ok (.data nonce (nonce.toNat / 256) (nonce.toNat % 256), cipher)
    | .ok .session =>
      if bs.length < Limits.sessionHeader then
        return .error (.truncated .sessionPacket Limits.sessionHeader bs.length)
      let raw ← slice bs 1 Limits.sessionHeader
      let nonce ← Octets.ofBytes? 24 raw
      let cipher ← slice bs Limits.sessionHeader bs.length
      return .ok (.session nonce, cipher)

def parse (bs : Bytes) : Option (Except Fault AirLink.Packet) := do
  let parsed ← parseHeader bs
  match parsed with
  | .error fault => return .error fault
  | .ok (header, cipher) =>
    if let .data _ block _ := header then
      if Limits.blockIndex < block then return .error (.blockIndexOverflow block)
    let clear ← slice bs 0 header.size
    return .ok { header, clear, cipher }

theorem ofBytes?_eq {n : Nat} {bs : Bytes} (length : bs.length = n) :
    Octets.ofBytes? n bs = some ⟨bs, length⟩ := dif_pos length

theorem parseHeader_eq (bs : Bytes) : parseHeader bs = some (Header.parse bs) := by
  unfold parseHeader Header.parse
  refine check_eq fun _ => ?_
  cases bs with
  | nil => rfl
  | cons tag rest =>
      simp only [List.head?_cons]
      cases PacketType.ofTag tag with
      | error fault => rfl
      | ok type =>
          cases type with
          | data =>
              dsimp only [bind, Except.bind]
              unfold Layout.read?
              by_cases cut : (tag :: rest).length < Limits.dataHeader
              · have none : rest.length < Layout.u64.size := Nat.lt_of_succ_lt_succ cut
                rw [if_pos cut, if_pos none]
                rfl
              · have long := Nat.le_of_not_lt cut
                have raw : (rest.take 8).length = 8 := List.length_take_of_le (Nat.le_of_succ_le_succ long)
                have some : ¬rest.length < Layout.u64.size := Nat.not_lt.mpr (Nat.le_of_succ_le_succ long)
                rw [if_neg cut, if_neg some]
                apply step (slice_eq (by decide) long)
                apply step (ofBytes?_eq raw)
                apply step (slice_rest long)
                rfl
          | session =>
              dsimp only [bind, Except.bind]
              unfold Layout.read?
              by_cases cut : (tag :: rest).length < Limits.sessionHeader
              · have none : rest.length < (Layout.octets 24).size := Nat.lt_of_succ_lt_succ cut
                rw [if_pos cut, if_pos none]
                rfl
              · have long := Nat.le_of_not_lt cut
                have room : 24 ≤ rest.length := Nat.le_of_succ_le_succ long
                have raw : (rest.take 24).length = 24 := List.length_take_of_le room
                have whole : Octets.fit 24 rest = ⟨rest.take 24, raw⟩ := Subtype.ext (Bytes.fit_eq_take room)
                have some : ¬rest.length < (Layout.octets 24).size := Nat.not_lt.mpr room
                rw [if_neg cut, if_neg some]
                apply step (slice_eq (by decide) long)
                apply step (ofBytes?_eq raw)
                apply step (slice_rest long)
                change _ = Option.some (Except.ok (Header.session (Octets.fit 24 rest), _))
                rw [whole]
                rfl

/-- What has been read is behind a whole header. -/
theorem size_le_of_parse {bs cipher : Bytes} {header : Header} (read : Header.parse bs = .ok (header, cipher)) :
    header.size ≤ bs.length := by
  obtain ⟨-, -, rfl⟩ := Header.of_parse read
  rw [List.length_append, Header.length_encode]
  exact Nat.le_add_right ..

theorem parse_eq (bs : Bytes) : parse bs = some (AirLink.Packet.parse bs) := by
  unfold parse AirLink.Packet.parse
  apply step (parseHeader_eq bs)
  cases read : Header.parse bs with
  | error fault => rfl
  | ok parsed =>
      obtain ⟨header, cipher⟩ := parsed
      have front : slice bs 0 header.size = some (bs.take header.size) := slice_front (size_le_of_parse read)
      cases header with
      | data nonce block fragment =>
          refine check_eq fun _ => ?_
          exact step front rfl
      | session nonce => exact step front rfl

end Packet

/-- The bytes of a record that fill a slice of it. -/
def record {α : Type} (layout : Layout α) (bs : Bytes) : Option α := do
  let front ← slice bs 0 layout.size
  let (value, _) ← layout.read? front
  return value

theorem record_eq {α : Type} {layout : Layout α} (h : layout.Local) {bs : Bytes}
    (long : layout.size ≤ bs.length) : record layout bs = some (layout.read bs) := by
  have length : layout.size ≤ (bs.take layout.size).length :=
    Nat.le_of_eq (List.length_take_of_le long).symm
  apply step (slice_front long)
  apply step (Layout.read?_eq length)
  rw [h bs (Nat.le_refl _)]
  rfl

namespace FragmentHeader

open AirLink.FragmentHeader

def decode (bs : Bytes) : Option (Except Fault AirLink.FragmentHeader) := do
  if bs.length < layout.size then return .error (.truncated .fragment layout.size bs.length)
  let header ← record layout bs
  return .ok header

theorem decode_eq (bs : Bytes) : decode bs = some (AirLink.FragmentHeader.decode bs) := by
  have read : layout.Local := (Layout.u8_local.both Layout.u16_local).through
  unfold decode AirLink.FragmentHeader.decode Layout.read?
  by_cases cut : bs.length < layout.size
  · rw [if_pos cut, if_pos cut]
    rfl
  · rw [if_neg cut, if_neg cut]
    exact step (record_eq read (Nat.le_of_not_lt cut)) rfl

end FragmentHeader

namespace Relay

open AirLink.Relay

def parse (bs : Bytes) : Option (Except Fault (Header × Bytes)) := do
  if bs.length < Header.layout.size then return .error (.truncated .relay Header.layout.size bs.length)
  let header ← record Header.layout bs
  let rest ← slice bs Header.layout.size bs.length
  return .ok (header.normalize, rest)

theorem parse_eq (bs : Bytes) : parse bs = some (Header.parse bs) := by
  have read : Header.layout.Local := (Layout.u32_local.both (Layout.u16_local.both Layout.u16_local.through)).through
  unfold parse Header.parse Layout.read?
  by_cases cut : bs.length < Header.layout.size
  · rw [if_pos cut, if_pos cut]
    rfl
  · rw [if_neg cut, if_neg cut]
    apply step (record_eq read (Nat.le_of_not_lt cut))
    exact step (slice_rest (Nat.le_of_not_lt cut)) rfl

end Relay

end Checked

end AirLink
