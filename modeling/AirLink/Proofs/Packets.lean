import AirLink.Proofs.Layout
import AirLink.Proofs.Sealing
import AirLink.Emission
import AirLink.Assembly
import AirLink.Transmitter

/-! # Packets on their way

A sealed fragment that is taken apart again names its block and its place, and what is opened under
the same key is the fragment.  A fragment keeps its payload, whatever lies behind it in its buffer.
An announcement in a session packet is read as it was written.
-/

namespace AirLink

namespace FragmentHeader

theorem layout_lawful : layout.Lawful :=
  (Layout.u8_lawful.both Layout.u16_lawful).through fun _ => rfl

theorem decode_encode (h : FragmentHeader) (rest : Bytes) : decode (h.encode ++ rest) = .ok h := by
  rw [decode, encode, layout_lawful.read?]

theorem length_encode (h : FragmentHeader) : h.encode.length = Limits.fragmentHeader :=
  layout_lawful.length h

end FragmentHeader

namespace SessionOffer

theorem layout_lawful : layout.Lawful :=
  (Layout.u64_lawful.both <| Layout.u32_lawful.both <| Layout.u8_lawful.both <|
    Layout.u8_lawful.both <| Layout.u8_lawful.both (Layout.octets_lawful 32)).through fun _ => rfl

theorem decode_encode (offer : SessionOffer) : decode offer.encode = .ok offer := by
  have read := layout_lawful.read? offer []
  rw [List.append_nil] at read
  rw [decode, encode, read]

theorem length_encode (offer : SessionOffer) : offer.encode.length = Limits.sessionOffer :=
  layout_lawful.length offer

end SessionOffer

namespace Transmitter

theorem length_fragmentOf {p : Option Bytes} (small : ∀ bs ∈ p, bs.length ≤ Limits.payload) :
    Limits.fragmentHeader ≤ (fragmentOf p).length ∧ (fragmentOf p).length ≤ Limits.fragment := by
  cases p with
  | none =>
      rw [fragmentOf, FragmentHeader.length_encode]
      decide
  | some payload =>
      have := small payload rfl
      rw [fragmentOf, List.length_append, FragmentHeader.length_encode]
      simp only [Limits.payload] at this
      simp only [Limits.fragment, Limits.fragmentHeader, Limits.packet, Limits.frameSize,
        Limits.dot11Header, Limits.dataHeader, Limits.tag] at *
      omega

theorem toNat_size {length : Nat} (short : length ≤ Limits.payload) :
    (UInt16.ofNat length).toNat = length := by
  rw [UInt16.toNat_ofNat']
  simp only [Limits.payload, Limits.fragment, Limits.packet, Limits.frameSize] at short
  exact Nat.mod_eq_of_lt (by omega)

/-- A fragment keeps its payload, whatever follows it; a filler has none. -/
theorem payload?_fragmentOf {p : Option Bytes} (small : ∀ bs ∈ p, bs.length ≤ Limits.payload)
    (rest : Bytes) : payload? (fragmentOf p ++ rest) = p := by
  cases p with
  | none =>
      rw [fragmentOf, payload?, FragmentHeader.decode_encode]
      rfl
  | some payload =>
      have short : payload.length ≤ Limits.payload := small payload rfl
      have size := toNat_size short
      have header := FragmentHeader.length_encode ⟨0, UInt16.ofNat payload.length⟩
      have whole : ¬(Limits.payload < payload.length ∨
          (FragmentHeader.encode ⟨0, UInt16.ofNat payload.length⟩ ++ payload ++ rest).length <
            Limits.fragmentHeader + payload.length) := by
        simp only [List.length_append, header]
        omega
      rw [fragmentOf, payload?, List.append_assoc, FragmentHeader.decode_encode, ← List.append_assoc]
      simp only [size, if_neg whole]
      rw [List.append_assoc, ← header, List.drop_left, List.take_left]
      exact if_neg (by simp [FragmentHeader.isFiller])

end Transmitter

theorem PacketType.ofTag_eq_ok {tag : UInt8} {type : PacketType} :
    ofTag tag = .ok type ↔ tag = type.tag := by
  unfold ofTag
  split_ifs with data session
  · cases type <;> simp [data, PacketType.tag]
  · cases type <;> simp [session, PacketType.tag]
  · cases type <;> simp [data, session, PacketType.tag]

namespace Packet

def arrival? (packet : Packet) : Option Arrival :=
  match packet.header with
  | .data nonce block fragment =>
    some { nonce, block, fragment, clear := packet.clear, cipher := packet.cipher }
  | .session _ => none

/-- What becomes of a sealed fragment. -/
def sealed (key : Key) (block fragment : Nat) (plain : Bytes) : Arrival :=
  let nonce := UInt64.ofNat (block * 256 + fragment)
  let clear := (Header.ofFragment block fragment).encode
  { nonce, block, fragment, clear, cipher := Cipher.Aead.encrypt key nonce clear plain }

theorem Header.length_data (nonce : UInt64) (block fragment : Nat) :
    (Header.data nonce block fragment).encode.length = Limits.dataHeader := by
  rw [encode, List.length_cons, Layout.u64_lawful.length]
  rfl

theorem Header.length_encode (header : Header) : header.encode.length = header.size := by
  cases header with
  | data nonce block fragment => exact length_data nonce block fragment
  | session nonce => exact congrArg (· + 1) nonce.property

theorem Header.parse_data (nonce : UInt64) (block fragment : Nat) {cipher : Bytes}
    (small : ¬Limits.packet < ((Header.data nonce block fragment).encode ++ cipher).length) :
    Header.parse ((Header.data nonce block fragment).encode ++ cipher) =
      .ok (.data nonce (nonce.toNat / 256) (nonce.toNat % 256), cipher) := by
  have word : Layout.u64.read? (Layout.u64.write nonce ++ cipher) = some (nonce, cipher) :=
    Layout.u64_lawful.read? ..
  unfold Header.parse
  simp only [if_neg small]
  simp only [encode, List.cons_append, bind, Except.bind, pure, Except.pure, PacketType.tag,
    PacketType.ofTag, if_true, word]

theorem parse_data (nonce : UInt64) (block fragment : Nat) {cipher : Bytes}
    (inRange : nonce.toNat / 256 ≤ Limits.blockIndex)
    (small : ¬Limits.packet < ((Header.data nonce block fragment).encode ++ cipher).length) :
    parse ((Header.data nonce block fragment).encode ++ cipher) =
      .ok { header := .data nonce (nonce.toNat / 256) (nonce.toNat % 256)
            clear := (Header.data nonce block fragment).encode, cipher } := by
  have cut : ((Header.data nonce block fragment).encode ++ cipher).take Limits.dataHeader =
      (Header.data nonce block fragment).encode := List.take_left' (Header.length_data ..)
  unfold parse
  simp only [Header.parse_data nonce block fragment small, bind, Except.bind, pure, Except.pure,
    if_neg (Nat.not_lt.mpr inRange), Header.size, cut]

theorem Header.parse_session (nonce : Octets 24) {cipher : Bytes}
    (small : ¬Limits.packet < ((Header.session nonce).encode ++ cipher).length) :
    Header.parse ((Header.session nonce).encode ++ cipher) = .ok (.session nonce, cipher) := by
  have word : (Layout.octets 24).read? (nonce.val ++ cipher) = some (nonce, cipher) :=
    (Layout.octets_lawful 24).read? nonce cipher
  unfold Header.parse
  simp only [if_neg small]
  simp only [encode, List.cons_append, bind, Except.bind, pure, Except.pure, PacketType.tag,
    PacketType.ofTag, if_true, word]
  rfl

theorem parse_session (nonce : Octets 24) {cipher : Bytes}
    (small : ¬Limits.packet < ((Header.session nonce).encode ++ cipher).length) :
    parse ((Header.session nonce).encode ++ cipher) =
      .ok { header := .session nonce, clear := (Header.session nonce).encode, cipher } := by
  have size : (Header.session nonce).encode.length = Limits.sessionHeader := Header.length_encode _
  have cut : ((Header.session nonce).encode ++ cipher).take Limits.sessionHeader =
      (Header.session nonce).encode := List.take_left' size
  unfold parse
  simp only [Header.parse_session nonce small, bind, Except.bind, pure, Except.pure, Header.size, cut]

/-- A string that is longer than a packet can be is refused, whatever it holds. -/
theorem parse_of_limit_lt {bs : Bytes} (large : Limits.packet < bs.length) :
    parse bs = .error (.oversized Limits.packet bs.length) := by
  have refused : Header.parse bs = .error (.oversized Limits.packet bs.length) := by
    unfold Header.parse
    rw [if_pos large]
    rfl
  rw [parse, refused]
  rfl

/-- The numbers of a header are the ones in its nonce. -/
def Header.Numbered : Header → Prop
  | .data nonce block fragment => nonce.toNat = block * 256 + fragment ∧ fragment < 256
  | .session _ => True

/-- What has been read is a small packet: its header, as it would be written, and its ciphertext. -/
theorem Header.of_parse {bs cipher : Bytes} {header : Header}
    (read : Header.parse bs = .ok (header, cipher)) :
    bs.length ≤ Limits.packet ∧ header.Numbered ∧ header.encode ++ cipher = bs := by
  unfold Header.parse at read
  by_cases large : Limits.packet < bs.length
  · rw [if_pos large] at read
    cases read
  rw [if_neg large] at read
  refine ⟨Nat.le_of_not_lt large, ?_⟩
  cases bs with
  | nil => cases read
  | cons tag rest =>
      cases known : PacketType.ofTag tag with
      | error fault =>
          simp only [known] at read
          cases read
      | ok type =>
          obtain rfl := PacketType.ofTag_eq_ok.mp known
          simp only [known] at read
          cases type with
          | data =>
              dsimp only [bind, Except.bind, pure, Except.pure] at read
              cases word : Layout.u64.read? rest with
              | none =>
                  rw [word] at read
                  cases read
              | some value =>
                  rw [word] at read
                  cases read
                  refine ⟨⟨(Nat.div_add_mod' ..).symm, Nat.mod_lt _ (by decide)⟩, ?_⟩
                  exact congrArg (PacketType.data.tag :: ·) (Layout.u64_exact.of_read? word)
          | session =>
              dsimp only [bind, Except.bind, pure, Except.pure] at read
              cases word : (Layout.octets 24).read? rest with
              | none =>
                  rw [word] at read
                  cases read
              | some value =>
                  rw [word] at read
                  cases read
                  refine ⟨trivial, ?_⟩
                  exact congrArg (PacketType.session.tag :: ·) ((Layout.octets_exact 24).of_read? word)

/-- A sealed announcement is much smaller than a packet can be. -/
theorem length_sealSession (boxKey : Key) (nonce : Octets 24) (offer : SessionOffer) :
    ¬Limits.packet < (Transmitter.sealSession boxKey nonce offer.encode).length := by
  rw [Transmitter.sealSession, List.length_append, Cipher.SealedBox.length_encrypt,
    SessionOffer.length_encode]
  simp [Header.encode, nonce.property, Limits.tag, Limits.sessionOffer, Limits.packet,
    Limits.frameSize, Limits.dot11Header]

theorem toNat_nonce {block fragment : Nat} (hb : block ≤ Limits.blockIndex) (hf : fragment < 256) :
    (UInt64.ofNat (block * 256 + fragment)).toNat = block * 256 + fragment := by
  simp only [Limits.blockIndex] at hb
  rw [UInt64.toNat_ofNat']
  exact Nat.mod_eq_of_lt (by omega)

/-- The numbers of a header are the ones in its nonce, and both are within their bits. -/
def Header.Sound : Header → Prop
  | .data nonce block fragment =>
    nonce.toNat = block * 256 + fragment ∧ block ≤ Limits.blockIndex ∧ fragment < 256
  | .session _ => True

theorem sound_ofFragment {block fragment : Nat} (hb : block ≤ Limits.blockIndex) (hf : fragment < 256) :
    (Header.ofFragment block fragment).Sound := ⟨toNat_nonce hb hf, hb, hf⟩

theorem sound_session (nonce : Octets 24) : (Header.session nonce).Sound := trivial

/-- A sound header is read as it was written, whatever follows it, as long as the whole is small. -/
theorem parse_encode {header : Header} (sound : header.Sound) {cipher : Bytes}
    (small : (header.encode ++ cipher).length ≤ Limits.packet) :
    parse (header.encode ++ cipher) = .ok { header, clear := header.encode, cipher } := by
  cases header with
  | data nonce block fragment =>
      obtain ⟨number, hb, hf⟩ := sound
      have blockOf : nonce.toNat / 256 = block := by omega
      have fragmentOf : nonce.toNat % 256 = fragment := by omega
      rw [parse_data nonce block fragment (blockOf.trans_le hb) (Nat.not_lt.mpr small), blockOf, fragmentOf]
  | session nonce => exact parse_session nonce (Nat.not_lt.mpr small)

/-- What stands behind the header of a fragment reaches the assembly as it is. -/
theorem parse_fragment {block fragment : Nat} (hb : block ≤ Limits.blockIndex) (hf : fragment < 256)
    {cipher : Bytes} (fits : cipher.length ≤ Limits.fragment + Limits.tag) :
    ∃ packet, parse ((Header.ofFragment block fragment).encode ++ cipher) = .ok packet ∧
      packet.arrival? = some
        { nonce := UInt64.ofNat (block * 256 + fragment), block, fragment
          clear := (Header.ofFragment block fragment).encode, cipher } := by
  refine ⟨_, parse_encode (sound_ofFragment hb hf) ?_, rfl⟩
  rw [List.length_append, Header.ofFragment, Header.length_data]
  simp only [Limits.fragment, Limits.packet, Limits.frameSize, Limits.dot11Header, Limits.dataHeader,
    Limits.tag] at fits ⊢
  omega

/-- A sealed fragment is taken apart into what it was put together from. -/
theorem parse_sealFragment (key : Key) {block fragment : Nat} (hb : block ≤ Limits.blockIndex)
    (hf : fragment < 256) {plain : Bytes} (fits : plain.length ≤ Limits.fragment) :
    ∃ packet, parse (Transmitter.sealFragment key block fragment plain) = .ok packet ∧
      packet.arrival? = some (sealed key block fragment plain) := by
  refine parse_fragment hb hf ?_
  rw [Cipher.Aead.length_encrypt]
  exact Nat.add_le_add_right fits _

end Packet

namespace Assembly

theorem authenticate_sealed {a : Assembly} {block fragment : Nat} (hb : block ≤ Limits.blockIndex)
    (hf : fragment < a.code.n) {plain : Bytes} (filled : Limits.fragmentHeader ≤ plain.length)
    (fits : plain.length ≤ a.window.fragmentSize) :
    a.authenticate (Packet.sealed a.key block fragment plain) = .ok plain := by
  have size := Cipher.Aead.length_encrypt a.key (UInt64.ofNat (block * 256 + fragment))
    (Packet.Header.ofFragment block fragment).encode plain
  unfold authenticate
  simp only [Packet.sealed, size]
  rw [if_neg (by simp only [Limits.dataCipher]; omega), if_neg (by omega), if_neg (by omega),
    if_neg (by omega), Cipher.Aead.decrypt_encrypt]
  rfl

theorem authenticate_altered {a : Assembly} {block fragment : Nat} (hb : block ≤ Limits.blockIndex)
    (hf : fragment < a.code.n) {nonce : UInt64} {clear plain altered : Bytes}
    (filled : Limits.fragmentHeader ≤ plain.length) (fits : plain.length ≤ a.window.fragmentSize)
    (size : altered.length = Limits.tag)
    (other : altered ≠
      (Cipher.Aead.tag a.key nonce clear (Cipher.Aead.crypt a.key nonce plain)).val) :
    a.authenticate ⟨nonce, block, fragment, clear, Cipher.Aead.crypt a.key nonce plain ++ altered⟩ =
      .error (.cipher .dataNotAuthentic) := by
  have length : (Cipher.Aead.crypt a.key nonce plain ++ altered).length =
      plain.length + Limits.tag := by
    rw [List.length_append, Cipher.Aead.length_crypt, size]
  unfold authenticate
  simp only [length]
  rw [if_neg (by simp only [Limits.dataCipher]; omega), if_neg (by omega), if_neg (by omega),
    if_neg (by omega), Cipher.Aead.decrypt_altered _ _ _ _ size other]
  rfl

end Assembly

end AirLink
