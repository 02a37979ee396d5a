import AirLink.Radiotap
import AirLink.Proofs.Checked.Words
import AirLink.Proofs.Layout

/-! # Radiotap headers in checked steps

A radiotap header tells its own length, how many presence words it has, where its fields lie and how
much private data to skip; all of this comes out of the buffer.  The reader below takes each byte out
of a slice and computes each offset in words, and still has a result for every buffer.
-/

namespace AirLink.Checked

namespace Radiotap

open AirLink.Radiotap

/-- The presence word at an offset. -/
def wordAt (whole : Bytes) (offset : Nat) : Option Nat := do
  let stop ← add offset 4
  let bytes ← slice whole offset stop
  let (word, _) ← split 4 bytes
  return Bytes.toNatLE word

/-- A place among the presence words of a header. -/
structure Mark where
  whole : Bytes
  offset : Nat

/-- Where the chain of presence words ends that begins at a place. -/
def Mark.chainEnd (m : Mark) : Option (Except Fault Nat) := do
  let next ← add m.offset 4
  if m.whole.length < next then return .error (.radiotap .bitmapBeyondHeader)
  let word ← wordAt m.whole m.offset
  if word.testBit moreBit then ({ m with offset := next }) |>.chainEnd else return .ok next
partial_fixpoint

/-- The low bits of the sum are cut off; that cannot fail. -/
def alignUp (align offset : Nat) : Option Nat := do
  let sum ← add offset align
  let top ← sub sum 1
  let _low ← sub align 1
  return top / align * align

/-- Takes over one field with reads of fixed widths. -/
def take (h : Header) (bit : Nat) (field : Bytes) : Option Header :=
  match bit with
  | 0 => do
    let (bytes, _) ← split 8 field
    return { h with timestamp := some (UInt64.ofNat (Bytes.toNatLE bytes)) }
  | 1 => do
    let (flags, _) ← Layout.u8.read? field
    return { h with flags }
  | 2 => do
    let (rate, _) ← Layout.u8.read? field
    return { h with rate := some rate }
  | 3 => do
    let (frequency, field) ← Layout.u16le.read? field
    let (flags, _) ← Layout.u16le.read? field
    return { h with channel := some ⟨frequency, flags⟩ }
  | 5 => do
    let (signal, _) ← Layout.u8.read? field
    return { h with signal := h.signal.or (some signal.toInt8) }
  | 6 => do
    let (noise, _) ← Layout.u8.read? field
    return { h with noise := h.noise.or (some noise.toInt8) }
  | 11 => do
    let (antenna, _) ← Layout.u8.read? field
    return { h with antenna := h.antenna.or (some antenna) }
  | 14 => do
    let (flags, _) ← Layout.u16le.read? field
    return { h with receiveFlags := some flags }
  | 19 => do
    let (known, field) ← Layout.u8.read? field
    let (flags, field) ← Layout.u8.read? field
    let (index, _) ← Layout.u8.read? field
    return { h with modulation := some ⟨known, flags, index⟩ }
  | _ => some h

/-- The place at an offset of the header. -/
def placeAt (whole : Bytes) (offset : Nat) (header : Header) : Cursor :=
  ⟨offset, whole.drop offset, header⟩

def readFields (whole : Bytes) (base word : Nat) :
    List Nat → Cursor → Option (Except Fault Progress)
  | [], c => some (.ok (.onward c))
  | bit :: bits, c => do
    if word.testBit bit then
      let number ← add32 base bit
      match fieldLayout number with
      | none => return .ok (.stopped c.header)
      | some (align, size) =>
        let start ← alignUp align c.offset
        let stop ← add start size
        if whole.length < stop then return .error (.radiotap .fieldBeyondHeader)
        let field ← slice whole start stop
        let header ← take c.header number field
        readFields whole base word bits (placeAt whole stop header)
    else readFields whole base word bits c

def skipVendor (whole : Bytes) (c : Cursor) : Option (Except Fault Cursor) := do
  let start ← alignUp 2 c.offset
  let stop ← add start 6
  if whole.length < stop then return .error (.radiotap .vendorHeaderCut)
  let behind ← add start 4
  let opening ← slice whole behind stop
  let (data, _) ← Layout.u16le.read? opening
  let length ← add 6 data.toNat
  let next ← add start length
  if whole.length < next then return .error (.radiotap .vendorDataBeyondHeader)
  return .ok (placeAt whole next c.header)

def switch (whole : Bytes) (word : Nat) (space : Namespace) (c : Cursor) :
    Option (Except Fault (Namespace × Cursor)) := do
  if word.testBit sectionBit then return .ok (.standard 0, c)
  else if word.testBit vendorBit then
    let skipped ← skipVendor whole c
    return skipped.map ((.vendor, ·))
  else match space with
    | .standard base =>
      let next ← add32 base 32
      return .ok (.standard next, c)
    | .vendor => return .ok (.vendor, c)

def readWord (whole : Bytes) (word : Nat) (c : Cursor) : Namespace → Option (Except Fault Progress)
  | .standard base => readFields whole base word (List.range sectionBit) c
  | .vendor => some (.ok (.onward c))

/-- Reads the fields of the presence words at the given offsets. -/
def readWords (whole : Bytes) :
    List Nat → Namespace → Cursor → Option (Except Fault Header)
  | [], _, c => some (.ok c.header)
  | offset :: offsets, space, c => do
    let word ← wordAt whole offset
    let progress ← readWord whole word c space
    match progress with
    | .error fault => return .error fault
    | .ok (.stopped header) => return .ok header
    | .ok (.onward c) =>
      if !word.testBit moreBit then return .ok c.header
      let switched ← switch whole word space c
      match switched with
      | .error fault => return .error fault
      | .ok (space, c) => readWords whole offsets space c

def parse (bs : Bytes) : Option (Except Fault (Header × Bytes)) := do
  if bs.length < minimumLength then
    return .error (.truncated .radiotap minimumLength bs.length)
  let fixed ← slice bs 0 4
  let (version, fixed) ← Layout.u8.read? fixed
  let (_, fixed) ← Layout.u8.read? fixed
  let (size, _) ← Layout.u16le.read? fixed
  let length := size.toNat
  if version ≠ 0 then return .error (.radiotap .unsupportedVersion)
  if length < minimumLength then return .error (.radiotap .lengthTooSmall)
  if bs.length < length then return .error (.truncated .radiotap length bs.length)
  let whole ← slice bs 0 length
  let chain ← Mark.chainEnd ⟨whole, 4⟩
  match chain with
  | .error fault => return .error fault
  | .ok stop =>
    let chained ← sub stop 4
    let header ← readWords whole (List.range' 4 (chained / 4) 4) (.standard 0)
      (placeAt whole stop { length })
    let rest ← slice bs length bs.length
    return header.map (·, rest)

variable {whole : Bytes} {offset : Nat}

theorem wordAt_eq (short : whole.length < 2 ^ 16) (inside : offset + 4 ≤ whole.length) :
    wordAt whole offset = some (Bytes.toNatLE ((whole.drop offset).take 4)) := by
  have length : 4 ≤ ((whole.drop offset).take 4).length := by
    rw [List.length_take, List.length_drop]
    omega
  apply step (add_eq (by omega))
  apply step (slice_add inside)
  apply step (split_eq length)
  rw [List.take_take, Nat.min_self]
  rfl

theorem presenceWords_eq (bs : Bytes) : presenceWords bs =
    if bs.length < 4 then none
    else if (Bytes.toNatLE (bs.take 4)).testBit moreBit then
      (presenceWords (bs.drop 4)).map (Bytes.toNatLE (bs.take 4) :: ·)
    else some [Bytes.toNatLE (bs.take 4)] := by
  match bs with
  | [] | [_] | [_, _] | [_, _, _] => rfl
  | _ :: _ :: _ :: _ :: rest => rfl

/-- A chain of presence words that begins at an offset: each can be read, and all but the last announce
another. -/
inductive Chain (whole : Bytes) : Nat → List Nat → Prop
  | last {offset word : Nat} (inside : offset + 4 ≤ whole.length) (read : wordAt whole offset = some word)
      (bit : word.testBit moreBit = false) : Chain whole offset [word]
  | more {offset word : Nat} {words : List Nat} (read : wordAt whole offset = some word)
      (bit : word.testBit moreBit = true) (rest : Chain whole (offset + 4) words) :
      Chain whole offset (word :: words)

theorem Chain.inside {words : List Nat} (chain : Chain whole offset words) :
    offset + 4 * words.length ≤ whole.length := by
  induction chain with
  | last inside => simpa using inside
  | more _ _ _ ih =>
      rw [List.length_cons]
      omega

/-- The chain is looked through to its end, or to the end of the header. -/
theorem chainEnd_eq (short : whole.length < 2 ^ 16) (start : offset < 2 ^ 32) :
    (presenceWords (whole.drop offset) = none ∧
        Mark.chainEnd ⟨whole, offset⟩ = some (.error (.radiotap .bitmapBeyondHeader))) ∨
      ∃ words, presenceWords (whole.drop offset) = some words ∧ Chain whole offset words ∧
        Mark.chainEnd ⟨whole, offset⟩ = some (.ok (offset + 4 * words.length)) := by
  induction left : whole.length - offset using Nat.strongRecOn generalizing offset with
  | _ left ih =>
  have next : add offset 4 = some (offset + 4) := add_eq (by omega)
  rw [Mark.chainEnd, presenceWords_eq, List.length_drop]
  by_cases cut : whole.length < offset + 4
  · refine .inl ⟨if_pos (by omega), ?_⟩
    apply step next
    rw [if_pos cut]
    rfl
  · have read := wordAt_eq short (Nat.le_of_not_lt cut)
    rw [if_neg (by omega)]
    generalize Bytes.toNatLE ((whole.drop offset).take 4) = word at read
    rw [next, Option.bind_eq_bind, Option.bind_some, if_neg cut, read]
    cases bit : word.testBit moreBit with
    | false =>
        exact .inr ⟨[word], rfl, .last (Nat.le_of_not_lt cut) read bit, by simp [bit]⟩
    | true =>
        rw [List.drop_drop]
        rcases @ih (whole.length - (offset + 4)) (by omega) (offset + 4) (by omega) rfl with
          ⟨none, fault⟩ | ⟨words, some, chain, stop⟩
        · exact .inl ⟨by rw [none]; rfl, by simpa [bit] using fault⟩
        · refine .inr ⟨word :: words, by rw [some]; rfl, .more read bit chain, ?_⟩
          rw [List.length_cons, Nat.mul_add_one, Nat.add_comm (4 * _), ← Nat.add_assoc]
          simpa [bit] using stop

theorem fieldLayout_pos {number align size : Nat} (known : fieldLayout number = some (align, size)) :
    1 ≤ align ∧ align ≤ 8 ∧ size ≤ 12 := by
  unfold fieldLayout at known
  split at known <;> simp_all <;> omega

theorem alignUp_eq {align : Nat} (least : 1 ≤ align) (most : align ≤ 8) (start : offset < 2 ^ 32) :
    alignUp align offset = some (AirLink.Radiotap.alignUp align offset) := by
  apply step (add_eq (by omega))
  apply step (sub_eq (by omega))
  apply step (sub_eq least)
  rfl

theorem le_alignUp {align : Nat} (least : 1 ≤ align) : offset ≤ AirLink.Radiotap.alignUp align offset := by
  unfold AirLink.Radiotap.alignUp
  have rest := Nat.mod_lt (offset + align - 1) least
  have parts := Nat.div_add_mod' (offset + align - 1) align
  omega

theorem alignUp_lt {align : Nat} (most : align ≤ 8) : AirLink.Radiotap.alignUp align offset < offset + 8 := by
  unfold AirLink.Radiotap.alignUp
  have parts := Nat.div_mul_le_self (offset + align - 1) align
  omega

/-- No read of a field runs past its end, because the field has the size that the table says. -/
theorem take_eq (h : Header) {number align size : Nat} (known : fieldLayout number = some (align, size))
    {field : Bytes} (length : field.length = size) : take h number field = some (h.take number field) := by
  unfold take
  split
  case h_10 =>
    unfold Header.take
    split <;> first | rfl | contradiction
  all_goals cases known
  case h_1 =>
    apply step (split_eq (Nat.le_of_eq length.symm))
    rw [List.take_of_length_le (Nat.le_of_eq length)]
    rfl
  case h_4 =>
    obtain ⟨_, _, _, _, rfl⟩ := List.length_eq_four.mp length
    rfl
  case h_8 =>
    obtain ⟨_, _, rfl⟩ := List.length_eq_two.mp length
    rfl
  case h_9 =>
    obtain ⟨_, _, _, rfl⟩ := List.length_eq_three.mp length
    rfl
  all_goals
    obtain ⟨_, rfl⟩ := List.length_eq_one_iff.mp length
    rfl

/-- A place that lies in the header, to which all bytes from there on belong. -/
structure Within (whole : Bytes) (c : Cursor) : Prop where
  rest : c.rest = whole.drop c.offset
  inside : c.offset ≤ whole.length
  length : c.header.length = whole.length

theorem length_take (h : Header) (bit : Nat) (field : Bytes) : (h.take bit field).length = h.length := by
  unfold Header.take
  split <;> rfl

variable {c : Cursor}

theorem Within.moveTo (within : Within whole c) {next : Nat} (onward : c.offset ≤ next) :
    c.moveTo next = placeAt whole next c.header := by
  rw [Cursor.moveTo, within.rest, List.drop_drop, Nat.add_sub_cancel' onward]
  rfl

/-- All fields that a word announces are looked for in the header, and found there or not at all. -/
theorem readFields_eq (short : whole.length < 2 ^ 16) {base word : Nat} {bits : List Nat}
    (low : ∀ bit ∈ bits, base + bit < 2 ^ 32) (within : Within whole c) :
    readFields whole base word bits c = some (AirLink.Radiotap.readFields base word bits c) ∧
      ∀ next, AirLink.Radiotap.readFields base word bits c = .ok (.onward next) → Within whole next := by
  induction bits generalizing c with
  | nil => exact ⟨rfl, fun _ same => by cases same; exact within⟩
  | cons bit bits ih =>
      have rest {c : Cursor} := @ih c fun b member => low b (List.mem_cons_of_mem _ member)
      rw [readFields, AirLink.Radiotap.readFields]
      by_cases announced : word.testBit bit
      case neg =>
        rw [if_neg announced, if_neg announced]
        exact rest within
      rw [if_pos announced, if_pos announced, add32_eq (low bit (List.mem_cons_self ..)),
        Option.bind_eq_bind, Option.bind_some]
      cases known : fieldLayout (base + bit) with
      | none => exact ⟨rfl, fun _ same => by cases same⟩
      | some layout =>
          obtain ⟨align, size⟩ := layout
          obtain ⟨least, most, small⟩ := fieldLayout_pos known
          have inside := within.inside
          have onward : c.offset ≤ AirLink.Radiotap.alignUp align c.offset := le_alignUp least
          have near : AirLink.Radiotap.alignUp align c.offset < c.offset + 8 := alignUp_lt most
          simp only [alignUp_eq least most (show c.offset < 2 ^ 32 by omega), Option.bind_eq_bind,
            Option.bind_some, Cursor.endsBefore, within.length, decide_eq_true_eq]
          generalize AirLink.Radiotap.alignUp align c.offset = start at *
          rw [add_eq (by omega), Option.bind_some]
          by_cases beyond : whole.length < start + size
          · rw [if_pos beyond, if_pos beyond]
            exact ⟨rfl, fun _ same => by cases same⟩
          rw [if_neg beyond, if_neg beyond, slice_add (Nat.le_of_not_lt beyond), Option.bind_some,
            take_eq _ known (by rw [List.length_take, List.length_drop]; omega), Option.bind_some,
            within.moveTo onward]
          have there : Within whole (placeAt whole start c.header) :=
            ⟨rfl, Nat.le_of_add_right_le (Nat.le_of_not_lt beyond), within.length⟩
          have behind := there.moveTo (Nat.le_add_right start size)
          rw [behind]
          exact rest ⟨rfl, Nat.le_of_not_lt beyond, (length_take ..).trans within.length⟩

theorem skipVendor_eq (short : whole.length < 2 ^ 16) (within : Within whole c) :
    skipVendor whole c = some (AirLink.Radiotap.skipVendor c) ∧
      ∀ next, AirLink.Radiotap.skipVendor c = .ok next → Within whole next := by
  have inside := within.inside
  have onward : c.offset ≤ AirLink.Radiotap.alignUp 2 c.offset := le_alignUp (by omega)
  have near : AirLink.Radiotap.alignUp 2 c.offset < c.offset + 8 := alignUp_lt (by omega)
  rw [skipVendor, alignUp_eq (by omega) (by omega) (by omega), AirLink.Radiotap.skipVendor]
  simp only [Option.bind_eq_bind, Option.bind_some, Cursor.endsBefore, within.length, decide_eq_true_eq]
  generalize AirLink.Radiotap.alignUp 2 c.offset = start at *
  rw [add_eq (by omega), Option.bind_some]
  by_cases cut : whole.length < start + 6
  · rw [if_pos cut, if_pos cut]
    exact ⟨rfl, fun _ same => by cases same⟩
  have here : slice whole (start + 4) (start + 6) = some ((whole.drop (start + 4)).take 2) :=
    slice_add (n := 2) (Nat.le_of_not_lt cut)
  have there : Within whole (placeAt whole start c.header) :=
    ⟨rfl, Nat.le_of_add_right_le (Nat.le_of_not_lt cut), within.length⟩
  have length : Layout.u16le.size ≤ ((whole.drop (start + 4)).take 2).length := by
    rw [List.length_take, List.length_drop]
    change 2 ≤ _
    omega
  have data := Layout.toNat_u16le ((whole.drop (start + 4)).take 2)
  rw [List.take_take, Nat.min_self] at data
  have few := (Layout.u16le.read ((whole.drop (start + 4)).take 2)).toNat_lt
  rw [if_neg cut, if_neg cut, add_eq (by omega), Option.bind_some, here, Option.bind_some, Layout.read?_eq length,
    Option.bind_some, within.moveTo onward]
  simp only [placeAt, List.drop_drop, within.length, ← data]
  generalize (Layout.u16le.read ((whole.drop (start + 4)).take 2)).toNat = count at few
  rw [add_eq (by omega), Option.bind_some, add_eq (by omega), Option.bind_some, Nat.add_assoc]
  by_cases beyond : whole.length < start + (6 + count)
  · rw [if_pos beyond, if_pos beyond]
    exact ⟨rfl, fun _ same => by cases same⟩
  · have behind := there.moveTo (Nat.le_add_right start (6 + count))
    rw [if_neg beyond, if_neg beyond]
    refine ⟨congrArg some (congrArg Except.ok behind.symm), fun next same => ?_⟩
    cases same.symm.trans (congrArg Except.ok behind)
    exact ⟨rfl, Nat.le_of_not_lt beyond, within.length⟩

/-- The bits of a word at an offset count from no more than eight times the offset. -/
def Low (offset : Nat) : Namespace → Prop
  | .standard base => base ≤ 8 * offset
  | .vendor => True

theorem switch_eq (short : whole.length < 2 ^ 16) (inside : offset ≤ whole.length) (word : Nat) {space : Namespace}
    (low : Low offset space) (within : Within whole c) :
    switch whole word space c = some (AirLink.Radiotap.switch word space c) ∧
      ∀ space' next, AirLink.Radiotap.switch word space c = .ok (space', next) →
        Low (offset + 4) space' ∧ Within whole next := by
  unfold switch AirLink.Radiotap.switch
  by_cases standard : word.testBit sectionBit
  · rw [if_pos standard, if_pos standard]
    exact ⟨rfl, fun _ _ same => by cases same; exact ⟨Nat.zero_le _, within⟩⟩
  rw [if_neg standard, if_neg standard]
  by_cases vendor : word.testBit vendorBit
  · obtain ⟨skipped, onward⟩ := skipVendor_eq short within
    rw [if_pos vendor, if_pos vendor]
    refine ⟨step skipped rfl, fun _ next same => ?_⟩
    cases known : AirLink.Radiotap.skipVendor c with
    | error fault =>
        rw [known] at same
        cases same
    | ok next =>
        rw [known] at same
        cases same
        exact ⟨trivial, onward next known⟩
  rw [if_neg vendor, if_neg vendor]
  cases space with
  | standard base =>
      have base_le : base ≤ 8 * offset := low
      refine ⟨step (add32_eq (by omega)) rfl, fun _ _ same => ?_⟩
      cases same
      exact ⟨show base + 32 ≤ 8 * (offset + 4) by omega, within⟩
  | vendor => exact ⟨rfl, fun _ _ same => by cases same; exact ⟨trivial, within⟩⟩

/-- What the model does with the fields of one word. -/
def fieldsOf (word : Nat) (c : Cursor) : Namespace → Except Fault Progress
  | .standard base => AirLink.Radiotap.readFields base word (List.range sectionBit) c
  | .vendor => .ok (.onward c)

theorem readWord_eq (short : whole.length < 2 ^ 16) (inside : offset ≤ whole.length) (word : Nat)
    {space : Namespace} (low : Low offset space) (within : Within whole c) :
    readWord whole word c space = some (fieldsOf word c space) ∧
      ∀ next, fieldsOf word c space = .ok (.onward next) → Within whole next := by
  cases space with
  | standard base =>
      have base_le : base ≤ 8 * offset := low
      refine readFields_eq short (fun bit member => ?_) within
      have bit_lt : bit < 29 := List.mem_range.mp member
      omega
  | vendor => exact ⟨rfl, fun _ same => by cases same; exact within⟩

theorem readWords_cons (word : Nat) (words : List Nat) (space : Namespace) (c : Cursor) :
    AirLink.Radiotap.readWords (word :: words) space c =
      match fieldsOf word c space with
      | .error fault => .error fault
      | .ok (.stopped header) => .ok header
      | .ok (.onward c) =>
        if words.isEmpty then .ok c.header
        else match AirLink.Radiotap.switch word space c with
          | .error fault => .error fault
          | .ok (space, c) => AirLink.Radiotap.readWords words space c := by
  cases space with
  | standard base =>
      rw [AirLink.Radiotap.readWords.eq_def]
      simp only [fieldsOf]
      cases AirLink.Radiotap.readFields base word (List.range sectionBit) c with
      | error fault => rfl
      | ok progress =>
          cases progress with
          | stopped header => rfl
          | onward c =>
              change (if words.isEmpty then _ else _) = if words.isEmpty then _ else _
              cases AirLink.Radiotap.switch word (.standard base) c <;> rfl
  | vendor =>
      change (if words.isEmpty then _ else _) = if words.isEmpty then _ else _
      cases AirLink.Radiotap.switch word .vendor c <;> rfl

theorem readWords_eq (short : whole.length < 2 ^ 16) {words : List Nat} (chain : Chain whole offset words)
    {space : Namespace} (low : Low offset space) (within : Within whole c) :
    readWords whole (List.range' offset words.length 4) space c =
      some (AirLink.Radiotap.readWords words space c) := by
  induction chain generalizing space c with
  | @last offset word inside read bit =>
      obtain ⟨fields, -⟩ := readWord_eq short (by omega) word low within
      rw [List.length_singleton, List.range'_one, readWords_cons]
      apply step read
      apply step fields
      cases fieldsOf word c space with
      | error fault => rfl
      | ok progress =>
          cases progress with
          | stopped header => rfl
          | onward c =>
              simp only [bit]
              rfl
  | @more offset word words read bit rest ih =>
      have inside := rest.inside
      obtain ⟨fields, onward⟩ := readWord_eq short (by omega) word low within
      rw [List.length_cons, List.range'_succ, readWords_cons]
      apply step read
      apply step fields
      cases known : fieldsOf word c space with
      | error fault => rfl
      | ok progress =>
          cases progress with
          | stopped header => rfl
          | onward c =>
              have others : words.isEmpty = false := by cases rest <;> rfl
              obtain ⟨switched, next⟩ := switch_eq short (by omega) word low (onward c known)
              simp only [bit, others]
              apply step switched
              cases known : AirLink.Radiotap.switch word space c with
              | error fault => rfl
              | ok result =>
                  obtain ⟨low, within⟩ := next _ _ known
                  exact ih low within

/-- Reading a radiotap header has a result for every buffer. -/
theorem parse_eq (bs : Bytes) : parse bs = some (AirLink.Radiotap.parse bs) := by
  unfold parse AirLink.Radiotap.parse
  refine check_eq fun cut => ?_
  match bs, Nat.le_of_not_lt cut with
  | version :: pad :: low :: high :: rest, long =>
  have size : (Layout.u16le.read [low, high]).toNat = Bytes.toNatLE [low, high] := Layout.toNat_u16le _
  have small := (Layout.u16le.read [low, high]).toNat_lt
  apply step (slice_add (i := 0) (n := 4) (Nat.le_trans (by decide) long))
  apply step (Layout.read?_eq (s := [version, pad, low, high]) (Nat.le_add_left ..))
  apply step (Layout.read?_eq (s := [pad, low, high]) (Nat.le_add_left ..))
  apply step (Layout.read?_eq (s := [low, high]) (Nat.le_refl _))
  simp only [List.drop_succ_cons, List.drop_zero, List.take_succ_cons, List.take_zero, ← size]
  generalize (Layout.u16le.read [low, high]).toNat = length at small
  refine check_eq (c := version ≠ 0) fun _ => ?_
  generalize version :: pad :: low :: high :: rest = bs
  refine check_eq fun _ => check_eq fun beyond => ?_
  have size : (bs.take length).length = length := List.length_take_of_le (Nat.le_of_not_lt beyond)
  apply step (slice_front (Nat.le_of_not_lt beyond))
  rcases @chainEnd_eq (bs.take length) 4 (by omega) (by omega) with
    ⟨none, fault⟩ | ⟨words, found, chain, stop⟩
  · apply step fault
    rw [none]
    rfl
  · have within : Within (bs.take length)
        (placeAt (bs.take length) (4 + 4 * words.length) { length }) :=
      ⟨rfl, chain.inside, size.symm⟩
    have places : (4 + 4 * words.length - 4) / 4 = words.length := by omega
    apply step stop
    apply step (sub_eq (Nat.le_add_right ..))
    rw [places]
    apply step (readWords_eq (by omega) chain (show Low 4 (.standard 0) from Nat.zero_le _) within)
    apply step (slice_rest (Nat.le_of_not_lt beyond))
    rw [found]
    rfl

end Radiotap

end AirLink.Checked
