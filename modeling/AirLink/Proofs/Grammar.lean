import AirLink.Proofs.Frames
import AirLink.Proofs.Checked.Headers

/-! # What is accepted

Which strings are frames of the link and which are packets, told by their bytes and not by the readers.
What has been read is written again as it stood there, and what has been written is read as it was.
-/

namespace AirLink

/-- Whether each check has been passed, and what it reports if not. -/
abbrev Checks := List (Bool × Fault)

/-- The value, unless a check has failed; the first that has is reported. -/
def Checks.verdict {α : Type} (value : α) : Checks → Except Fault α
  | [] => .ok value
  | (passed, fault) :: checks => if passed then verdict value checks else .error fault

namespace Checks

variable {α : Type} {value : α} {checks : Checks}

theorem verdict_eq_ok {a : α} :
    checks.verdict value = .ok a ↔ (∀ check ∈ checks, check.1 = true) ∧ value = a := by
  induction checks with
  | nil => simp [verdict]
  | cons check checks ih =>
      obtain ⟨passed, fault⟩ := check
      cases passed with
      | true => simp [verdict, ih]
      | false => simp [verdict]

theorem verdict_eq_error {fault : Fault} : checks.verdict value = .error fault ↔
    ∃ before after, checks = before ++ (false, fault) :: after ∧ ∀ check ∈ before, check.1 = true := by
  induction checks with
  | nil => simp [verdict]
  | cons check checks ih =>
      obtain ⟨passed, other⟩ := check
      cases passed with
      | true =>
          rw [verdict, if_pos rfl, ih]
          constructor
          · rintro ⟨before, after, rfl, passes⟩
            exact ⟨(true, other) :: before, after, rfl, List.forall_mem_cons.mpr ⟨rfl, passes⟩⟩
          · rintro ⟨before, after, same, passes⟩
            cases before with
            | nil => cases same
            | cons first before =>
                obtain ⟨rfl, rfl⟩ := List.cons.inj same
                exact ⟨before, after, rfl, (List.forall_mem_cons.mp passes).2⟩
      | false =>
          rw [verdict, if_neg Bool.false_ne_true]
          constructor
          · intro same
            cases same
            exact ⟨[], checks, rfl, List.forall_mem_nil _⟩
          · rintro ⟨before, after, same, passes⟩
            cases before with
            | nil =>
                cases same
                rfl
            | cons first before =>
                obtain ⟨rfl, -⟩ := List.cons.inj same
                cases (List.forall_mem_cons.mp passes).1

end Checks

namespace Dot11

namespace Header

theorem layout_exact : layout.Exact :=
  (Layout.u16le_exact.both <| Layout.u16le_exact.both <| (Layout.octets_exact 6).both <|
    (Layout.octets_exact 6).both <| (Layout.octets_exact 6).both Layout.u16le_exact).through fun _ => rfl

/-- The parts of the control word that are checked lie in its first byte. -/
theorem control_read {bs : Bytes} (long : 2 ≤ bs.length) :
    (layout.read bs).version = (bs.headD 0).toNat % 4 ∧
      (layout.read bs).type = (bs.headD 0).toNat / 4 % 4 ∧
        (layout.read bs).subtype = (bs.headD 0).toNat / 16 := by
  match bs, long with
  | low :: high :: rest, _ =>
    have word : (layout.read (low :: high :: rest)).control.toNat = low.toNat + 256 * high.toNat :=
      (Layout.toNat_u16le _).trans (by simp [Bytes.toNatLE])
    have byte := low.toNat_lt
    simp only [version, type, subtype, word, List.headD_cons]
    omega

theorem source_read {bs : Bytes} (long : 24 ≤ bs.length) :
    (layout.read bs).source.val = (bs.drop 10).take 6 := by
  have room : 6 ≤ (bs.drop 10).length := by
    rw [List.length_drop]
    omega
  change Bytes.fit 6 (((bs.drop 2).drop 2).drop 6) = _
  rw [List.drop_drop, List.drop_drop]
  exact Bytes.fit_eq_take room

theorem signature_read {bs : Bytes} (long : 24 ≤ bs.length) :
    (layout.read bs).signature.toNat = Bytes.toNatBE ((bs.drop 10).take 2) := by
  rw [signature, source_read long, Layout.toNat_u16, List.take_take]
  rfl

theorem channel_read {bs : Bytes} (long : 24 ≤ bs.length) :
    (layout.read bs).channel.toNat = Bytes.toNatBE ((bs.drop 12).take 4) := by
  rw [channel, source_read long, Layout.toNat_u32, List.drop_take, List.take_take, List.drop_drop]
  rfl

/-- The last byte of the source address is the stream, the three before it are the link. -/
theorem channel_eq (h : Header) : h.channel.toNat = h.link.toNat * 256 + h.stream.toNat := by
  obtain ⟨_, _, _, ⟨source, size⟩, _, _⟩ := h
  match source, size with
  | [x, y, a, b, c, d], _ =>
    have word : (Layout.u32.read [a, b, c, d]).toNat = Bytes.toNatBE ([a, b, c] ++ [d]) :=
      Layout.toNat_u32 _
    have last : Bytes.toNatBE ([a, b, c] ++ [d]) = d.toNat + 256 * Bytes.toNatBE [a, b, c] := rfl
    have stream : [x, y, a, b, c, d].getD 5 0 = d := rfl
    have eight : (8 : UInt32).toNat % 32 = 8 := rfl
    have byte := d.toNat_lt
    simp only [channel, link, Header.stream, List.drop_succ_cons, List.drop_zero, UInt32.toNat_shiftRight,
      word, last, stream, eight, Nat.shiftRight_eq_div_pow]
    omega

end Header

/-- The checks of a frame, by its bytes and in their order. -/
def checks (bs : Bytes) : Checks :=
  let control := (bs.headD 0).toNat
  let mark := Bytes.toNatBE ((bs.drop 10).take 2)
  [(2 ≤ bs.length, .truncated .dot11 2 bs.length),
    (control % 4 = 0, .unsupportedVersion (control % 4)),
    (control / 4 % 4 = 2, .notDataFrame (control / 4 % 4)),
    (control / 16 = 0, .unsupportedSubtype (control / 16)),
    (24 ≤ bs.length, .truncated .dot11 24 bs.length),
    (mark = Limits.signature.toNat, .invalidSignature Limits.signature (UInt16.ofNat mark))]

theorem parse_eq_verdict (bs : Bytes) :
    parse bs = (checks bs).verdict (Header.layout.read bs, bs.drop Limits.dot11Header) := by
  simp only [parse, checks, Checks.verdict, decide_eq_true_eq]
  by_cases short : bs.length < 2
  · rw [if_pos short, if_neg (Nat.not_le.mpr short)]
  obtain ⟨version, type, subtype⟩ := Header.control_read (Nat.le_of_not_lt short)
  rw [if_neg short, if_pos (Nat.le_of_not_lt short)]
  simp only [version, type, subtype, ne_eq, ite_not, dataType, Limits.dot11Header]
  by_cases cut : bs.length < 24
  · simp only [if_pos cut, if_neg (Nat.not_le.mpr cut)]
  · have long := Nat.le_of_not_lt cut
    simp only [if_neg cut, if_pos long, ← Header.signature_read long, UInt16.toNat_inj, UInt16.ofNat_toNat]

theorem parse_eq_ok {bs rest : Bytes} {h : Header} : parse bs = .ok (h, rest) ↔
    (∀ check ∈ checks bs, check.1 = true) ∧ Header.layout.read bs = h ∧
      bs.drop Limits.dot11Header = rest := by
  rw [parse_eq_verdict, Checks.verdict_eq_ok, Prod.mk.injEq]

theorem checks_passed (bs : Bytes) : (∀ check ∈ checks bs, check.1 = true) ↔
    24 ≤ bs.length ∧
      (∃ control, bs[0]? = some control ∧
        control.toNat % 4 = 0 ∧ control.toNat / 4 % 4 = 2 ∧ control.toNat / 16 = 0) ∧
      Bytes.toNatBE ((bs.drop 10).take 2) = Limits.signature.toNat := by
  simp only [checks, List.forall_mem_cons, decide_eq_true_eq, List.not_mem_nil, false_implies,
    implies_true, and_true]
  constructor
  · rintro ⟨-, version, type, subtype, long, mark⟩
    match bs, long with
    | control :: rest, long => exact ⟨long, ⟨control, rfl, version, type, subtype⟩, mark⟩
  · rintro ⟨long, ⟨control, first, version, type, subtype⟩, mark⟩
    have head : bs.headD 0 = control := by
      rw [List.headD_eq_head?_getD, List.head?_eq_getElem?, first, Option.getD_some]
    rw [head]
    exact ⟨by omega, version, type, subtype, long, mark⟩

/-- A frame is accepted if it has a whole header, which is that of a plain data frame and has the mark of
the link.  It is then its header, written again, with the packet behind it, and the channel is where
link and stream are.  A frame that is not accepted is reported for the first check that it fails, and a
header that passes the checks is read as it was written. -/
theorem frames_accepted (bs : Bytes) :
    ((∃ h rest, parse bs = .ok (h, rest)) ↔
      24 ≤ bs.length ∧
      (∃ control, bs[0]? = some control ∧
        control.toNat % 4 = 0 ∧ control.toNat / 4 % 4 = 2 ∧ control.toNat / 16 = 0) ∧
      Bytes.toNatBE ((bs.drop 10).take 2) = Limits.signature.toNat) ∧
    (∀ h rest, parse bs = .ok (h, rest) →
      h.encode ++ rest = bs ∧ h.channel.toNat = h.link.toNat * 256 + h.stream.toNat ∧
        h.channel.toNat = Bytes.toNatBE ((bs.drop 12).take 4)) ∧
    (∀ fault, parse bs = .error fault ↔ ∃ before after,
      checks bs = before ++ (false, fault) :: after ∧ ∀ check ∈ before, check.1 = true) ∧
    ∀ (h : Header) (body : Bytes), h.version = 0 → h.type = 2 → h.subtype = 0 →
      h.signature = Limits.signature → parse (h.encode ++ body) = .ok (h, body) := by
  refine ⟨?accepted, ?read, ?refused, ?written⟩
  case accepted =>
    rw [← checks_passed]
    constructor
    · rintro ⟨h, rest, read⟩
      exact (parse_eq_ok.mp read).1
    · exact fun passed => ⟨_, _, parse_eq_ok.mpr ⟨passed, rfl, rfl⟩⟩
  case read =>
    intro h rest read
    obtain ⟨passed, rfl, rfl⟩ := parse_eq_ok.mp read
    have long := ((checks_passed bs).mp passed).1
    refine ⟨?_, Header.channel_eq _, Header.channel_read long⟩
    have front : (Header.layout.read bs).encode = bs.take Limits.dot11Header := Header.layout_exact bs long
    rw [front, List.take_append_drop]
  case refused =>
    intro fault
    rw [parse_eq_verdict, Checks.verdict_eq_error]
  case written => exact fun h body version type subtype mark => parse_encode version type subtype mark body

end Dot11

namespace Packet

theorem sound_of_parse {bs : Bytes} {packet : Packet} (read : parse bs = .ok packet) :
    bs.length ≤ Limits.packet ∧ packet.header.Sound ∧ packet.header.encode = packet.clear ∧
      packet.clear ++ packet.cipher = bs := by
  unfold parse at read
  cases front : Header.parse bs with
  | error fault =>
      rw [front] at read
      cases read
  | ok parsed =>
      obtain ⟨header, cipher⟩ := parsed
      obtain ⟨small, numbered, rfl⟩ := Header.of_parse front
      have clear : (header.encode ++ cipher).take header.size = header.encode :=
        List.take_left' header.length_encode
      cases header with
      | data nonce block fragment =>
          simp only [front, bind, Except.bind, pure, Except.pure, throw, throwThe, MonadExceptOf.throw] at read
          split_ifs at read with far
          cases read
          exact ⟨small, ⟨numbered.1, Nat.le_of_not_lt far, numbered.2⟩, clear.symm, by rw [clear]⟩
      | session nonce =>
          simp only [front, bind, Except.bind, pure, Except.pure] at read
          cases read
          exact ⟨small, trivial, clear.symm, by rw [clear]⟩

/-- The 55 bits of the block leave the highest one of the nonce clear. -/
theorem topBit_clear {nonce : UInt64} {b : UInt8} {bs : Bytes} (written : Layout.u64.write nonce = b :: bs) :
    nonce.toNat / 256 ≤ Limits.blockIndex ↔ b.toNat.testBit 7 = false := by
  have length : bs.length = 7 := by
    have size := Layout.u64_lawful.length nonce
    rw [written] at size
    exact Nat.succ.inj size
  have value : Bytes.toNatBE (b :: bs) = nonce.toNat := by
    rw [← written]
    exact (Bytes.toNatBE_ofNatBE 8 _).trans (Nat.mod_eq_of_lt nonce.toNat_lt)
  have below := Bytes.toNatBE_lt bs
  have byte := b.toNat_lt
  rw [Bytes.toNatBE_cons, length] at value
  rw [length] at below
  simp only [Nat.testBit_eq_decide_div_mod_eq, decide_eq_false_iff_not, Limits.blockIndex]
  omega

/-- The strings that begin with a sound data header. -/
theorem isData_iff (bs : Bytes) :
    (∃ nonce block fragment cipher, (Header.data nonce block fragment).Sound ∧
      (Header.data nonce block fragment).encode ++ cipher = bs) ↔
    bs[0]? = some 1 ∧ 9 ≤ bs.length ∧ ∃ b, bs[1]? = some b ∧ b.toNat.testBit 7 = false := by
  constructor
  · rintro ⟨nonce, block, fragment, cipher, ⟨number, hb, hf⟩, rfl⟩
    have size := Layout.u64_lawful.length nonce
    have long : 9 ≤ ((Header.data nonce block fragment).encode ++ cipher).length := by
      rw [List.length_append, Header.length_data]
      exact Nat.le_add_right ..
    have inRange : nonce.toNat / 256 ≤ Limits.blockIndex := by omega
    obtain ⟨b, bytes, written⟩ : ∃ b bytes, Layout.u64.write nonce = b :: bytes :=
      List.exists_cons_of_length_pos (by rw [size]; decide)
    refine ⟨rfl, long, b, ?_, (topBit_clear written).mp inRange⟩
    rw [Header.encode, written]
    rfl
  · rintro ⟨tag, long, b, second, clear⟩
    obtain ⟨rest, rfl⟩ : ∃ rest, bs = 1 :: b :: rest := by
      rcases bs with _ | ⟨first, _ | ⟨next, rest⟩⟩
      · cases tag
      · cases second
      · cases tag
        cases second
        exact ⟨rest, rfl⟩
    have written := Layout.u64_exact (b :: rest) (Nat.le_of_succ_le_succ long)
    refine ⟨Layout.u64.read (b :: rest), _, _, (b :: rest).drop 8,
      ⟨(Nat.div_add_mod' _ 256).symm, (topBit_clear written).mpr clear, Nat.mod_lt _ (by decide)⟩, ?_⟩
    exact congrArg (1 :: ·) ((congrArg (· ++ (b :: rest).drop 8) written).trans (List.take_append_drop ..))

/-- The strings that begin with a session header. -/
theorem isSession_iff (bs : Bytes) :
    (∃ nonce cipher, (Header.session nonce).encode ++ cipher = bs) ↔ bs[0]? = some 2 ∧ 25 ≤ bs.length := by
  constructor
  · rintro ⟨nonce, cipher, rfl⟩
    have long : 25 ≤ ((Header.session nonce).encode ++ cipher).length := by
      rw [List.length_append, Header.length_encode]
      exact Nat.le_add_right ..
    exact ⟨rfl, long⟩
  · rintro ⟨tag, long⟩
    match bs, tag with
    | _ :: rest, rfl =>
      have written := Layout.octets_exact 24 rest (Nat.le_of_succ_le_succ long)
      refine ⟨(Layout.octets 24).read rest, rest.drop 24, ?_⟩
      exact congrArg (2 :: ·) ((congrArg (· ++ rest.drop 24) written).trans (List.take_append_drop ..))

theorem ofFragment_inj {block fragment block' fragment' : Nat} (hb : block ≤ Limits.blockIndex)
    (hf : fragment < 256) (hb' : block' ≤ Limits.blockIndex) (hf' : fragment' < 256)
    (same : (Header.ofFragment block fragment).encode = (Header.ofFragment block' fragment').encode) :
    block = block' ∧ fragment = fragment' := by
  have nonces := congrArg UInt64.toNat (Layout.u64_lawful.write_inj (List.cons.inj same).2)
  rw [toNat_nonce hb hf, toNat_nonce hb' hf'] at nonces
  omega

/-- A packet is accepted if it is small and begins as a data packet or as a session packet does, the block
of a data packet being one that 55 bits can hold.  It is then its header, written again, with what is sealed
behind it, and the nonce of a data packet is made of its numbers.  A header of numbers within their bits is
read as it was written, and no two of them are written alike. -/
theorem packets_accepted (bs : Bytes) :
    ((∃ packet, parse bs = .ok packet) ↔ bs.length ≤ Limits.packet ∧
      ((bs[0]? = some 1 ∧ 9 ≤ bs.length ∧ ∃ b, bs[1]? = some b ∧ b.toNat.testBit 7 = false) ∨
        (bs[0]? = some 2 ∧ 25 ≤ bs.length))) ∧
    (∀ packet, parse bs = .ok packet →
      packet.clear ++ packet.cipher = bs ∧ packet.header.encode = packet.clear ∧
      ∀ nonce block fragment, packet.header = .data nonce block fragment →
        nonce.toNat = block * 256 + fragment ∧ block ≤ Limits.blockIndex ∧ fragment < 256) ∧
    (∀ block fragment, block ≤ Limits.blockIndex → fragment < 256 → ∀ cipher : Bytes,
      9 + cipher.length ≤ Limits.packet →
      let header := Header.ofFragment block fragment
      parse (header.encode ++ cipher) = .ok { header, clear := header.encode, cipher }) ∧
    (∀ (nonce : Octets 24) (cipher : Bytes), 25 + cipher.length ≤ Limits.packet →
      let header := Header.session nonce
      parse (header.encode ++ cipher) = .ok { header, clear := header.encode, cipher }) ∧
    ∀ block fragment block' fragment', block ≤ Limits.blockIndex → fragment < 256 →
      block' ≤ Limits.blockIndex → fragment' < 256 →
      (Header.ofFragment block fragment).encode = (Header.ofFragment block' fragment').encode →
      block = block' ∧ fragment = fragment' := by
  refine ⟨?accepted, ?read, ?data, ?session, fun _ _ _ _ => ofFragment_inj⟩
  case accepted =>
    rw [← isData_iff, ← isSession_iff]
    constructor
    · rintro ⟨packet, read⟩
      obtain ⟨small, sound, written, whole⟩ := sound_of_parse read
      rw [← written] at whole
      refine ⟨small, ?_⟩
      generalize packet.header = header at sound whole
      cases header with
      | data nonce block fragment => exact .inl ⟨nonce, block, fragment, _, sound, whole⟩
      | session nonce => exact .inr ⟨nonce, _, whole⟩
    · rintro ⟨small, ⟨nonce, block, fragment, cipher, sound, rfl⟩ | ⟨nonce, cipher, rfl⟩⟩
      · exact ⟨_, parse_encode sound small⟩
      · exact ⟨_, parse_encode (sound_session nonce) small⟩
  case read =>
    intro packet read
    obtain ⟨-, sound, written, whole⟩ := sound_of_parse read
    refine ⟨whole, written, fun nonce block fragment isData => ?_⟩
    rw [isData] at sound
    exact sound
  case data =>
    intro block fragment hb hf cipher small header
    refine parse_encode (sound_ofFragment hb hf) ?_
    rw [List.length_append, Header.length_encode]
    exact small
  case session =>
    intro nonce cipher small header
    refine parse_encode (sound_session nonce) ?_
    rw [List.length_append, Header.length_encode]
    exact small

/-- The lowest block that 55 bits cannot hold. -/
example : parse (1 :: 0x80 :: Bytes.zeros 7) = .error (.blockIndexOverflow (2 ^ 55)) := rfl

end Packet

end AirLink
