import AirLink.Proofs.Checked.Radiotap
import AirLink.Proofs.Frames

/-! # Composition of radiotap headers

A radiotap header is a chain of presence words and a row of sections, one for each word.  A section of the
standard holds any of the known fields, each at the next offset that suits it; a vendor's section holds
data of a length that it tells.  What lies in between, and behind the last section, may be anything.  The
reader undoes this layout: no field is missed or taken for another, whatever precedes it.
-/

namespace AirLink.Radiotap

/-! ## The layout -/

/-- Alignment and size of the fields of the standard, in the order of their bits. -/
def standardLayout : List (Nat × Nat) :=
  [(8, 8), (1, 1), (1, 1), (2, 4), (2, 2), (1, 1), (1, 1), (2, 2), (2, 2), (2, 2), (1, 1), (1, 1), (1, 1),
   (1, 1), (2, 2), (2, 2), (1, 1), (1, 1), (4, 8), (1, 3), (4, 8), (2, 12), (8, 12), (2, 12), (2, 12), (2, 6),
   (1, 1), (2, 4)]

def alignment (bit : Nat) : Nat := (standardLayout.getD bit (1, 0)).1

def width (bit : Nat) : Nat := (standardLayout.getD bit (1, 0)).2

/-- Some of the fields of the standard. -/
abbrev Fields := (bit : Fin 28) → Option (Octets (width bit))

def Fields.value? (f : Fields) (bit : Nat) : Option Bytes :=
  if known : bit < 28 then (f ⟨bit, known⟩).map Subtype.val else none

/-- Those of the fields that belong to the given bits. -/
def Fields.listed (f : Fields) (bits : List Nat) : List (Nat × Bytes) :=
  bits.filterMap fun bit => (f.value? bit).map (bit, ·)

inductive Section where
  | standard (fields : Fields)
  /-- A vendor's section.  Its bits mean nothing to anybody else. -/
  | vendor (maker : Octets 4) (skipped : Bytes) (bits : Fin 29 → Bool)

/-- What a presence word says of the section behind its own. -/
inductive Switch where
  | stay
  | standard
  | vendor
  deriving DecidableEq

namespace Section

def announces : Section → Nat → Bool
  | standard fields, bit => (fields.value? bit).isSome
  | vendor _ _ bits, bit => if low : bit < 29 then bits ⟨bit, low⟩ else false

def entry : Section → Switch
  | standard _ => .standard
  | vendor .. => .vendor

def space : Section → Namespace
  | standard _ => .standard 0
  | vendor .. => .vendor

/-- The presence word of a section in front of another. -/
def word (s : Section) (next : Switch) (more : Bool) : Nat :=
  Nat.ofBits fun bit : Fin 32 =>
    if bit.val < 29 then s.announces bit
    else if bit.val = 29 then next = .standard
    else if bit.val = 30 then next = .vendor
    else more

/-- The fields that a receiver finds in a section. -/
def values : Section → List (Nat × Bytes)
  | standard fields => fields.listed (List.range sectionBit)
  | vendor .. => []

end Section

/-- The presence words of some sections.  The last one may announce what does not follow. -/
def words (last : Switch) : List Section → List Nat
  | [] => []
  | [s] => [s.word last false]
  | s :: t :: more => s.word t.entry true :: words last (t :: more)

/-- How many bytes there are to the next multiple. -/
def gap (align offset : Nat) : Nat := (align - offset % align) % align

section layout

/-! The byte that stands at an offset where nothing else does. -/

variable (filler : Nat → UInt8)

def padding (align offset : Nat) : Bytes := (List.range' offset (gap align offset)).map filler

def writeFields (f : Fields) : List Nat → Nat → Bytes
  | [], _ => []
  | bit :: bits, offset =>
    match f.value? bit with
    | none => writeFields f bits offset
    | some field =>
      let front := padding filler (alignment bit) offset ++ field
      front ++ writeFields f bits (offset + front.length)

/-- What lies in front of the fields of a section: of a vendor's section its header and all its data. -/
def Section.lead : Section → Nat → Bytes
  | standard _, _ => []
  | vendor maker skipped _, offset =>
    padding filler 2 offset ++ (maker.val ++ Bytes.ofNatLE 2 skipped.length ++ skipped)

def Section.body : Section → Nat → Bytes
  | standard fields, offset => writeFields filler fields (List.range sectionBit) offset
  | vendor .., _ => []

def writeSections : List Section → Nat → Bytes
  | [], _ => []
  | s :: more, offset =>
    let lead := s.lead filler offset
    let body := s.body filler (offset + lead.length)
    lead ++ body ++ writeSections more (offset + lead.length + body.length)

end layout

/-- The parts of a radiotap header.  The first section is one of the standard. -/
structure Composition where
  first : Fields
  more : List Section
  last : Switch
  reserved : UInt8
  filler : Nat → UInt8
  /-- What follows the last section within the header. -/
  spare : Bytes

namespace Composition

def sections (c : Composition) : List Section := .standard c.first :: c.more

def start (c : Composition) : Nat := 4 + 4 * c.sections.length

def contents (c : Composition) : Bytes :=
  (words c.last c.sections).flatMap (Bytes.ofNatLE 4) ++
    (writeSections c.filler c.sections c.start ++ c.spare)

def length (c : Composition) : Nat := 4 + c.contents.length

def write (c : Composition) : Bytes :=
  [0, c.reserved] ++ Bytes.ofNatLE 2 c.length ++ c.contents

/-- All fields of the standard in the order in which they lie. -/
def values (c : Composition) : List (Nat × Bytes) := c.sections.flatMap Section.values

def first? (c : Composition) (bit : Nat) : Option Bytes := (c.values.find? (·.1 = bit)).map Prod.snd

def last? (c : Composition) (bit : Nat) : Option Bytes := (c.values.filter (·.1 = bit)).getLast?.map Prod.snd

/-- What a receiver is told: the last value of each field, but the first of signal, noise and antenna. -/
def header (c : Composition) : Header where
  length := c.length
  timestamp := (c.last? 0).map fun field => UInt64.ofNat (Bytes.toNatLE field)
  flags := ((c.last? 1).map (Header.byteAt · 0)).getD 0
  rate := (c.last? 2).map (Header.byteAt · 0)
  channel := (c.last? 3).map fun field => ⟨Header.wordAt field 0, Header.wordAt field 2⟩
  signal := (c.first? 5).map fun field => (Header.byteAt field 0).toInt8
  noise := (c.first? 6).map fun field => (Header.byteAt field 0).toInt8
  antenna := (c.first? 11).map (Header.byteAt · 0)
  receiveFlags := (c.last? 14).map (Header.wordAt · 0)
  modulation := (c.last? 19).map fun field =>
    ⟨Header.byteAt field 0, Header.byteAt field 1, Header.byteAt field 2⟩

end Composition

/-! ## Places -/

/-- The reader has the layout of the standard. -/
theorem fieldLayout_eq {bit : Nat} (known : bit < 28) : fieldLayout bit = some (alignment bit, width bit) := by
  have table : ∀ bit < 28, fieldLayout bit = some (alignment bit, width bit) := by decide
  exact table bit known

theorem alignment_pos {bit : Nat} (known : bit < 28) : 0 < alignment bit := by
  have table : ∀ bit < 28, 0 < alignment bit := by decide
  exact table bit known

/-- The gap leads to a multiple, and to the first one. -/
theorem gap_spec {align : Nat} (pos : 0 < align) (offset : Nat) :
    align ∣ offset + gap align offset ∧ gap align offset < align := by
  refine ⟨?_, Nat.mod_lt _ pos⟩
  have rest := Nat.mod_lt offset pos
  have parts := Nat.div_add_mod offset align
  unfold gap
  by_cases whole : offset % align = 0
  · rw [whole, Nat.sub_zero, Nat.mod_self]
    exact Nat.dvd_of_mod_eq_zero whole
  · rw [Nat.mod_eq_of_lt (show align - offset % align < align by omega)]
    refine ⟨offset / align + 1, ?_⟩
    rw [Nat.mul_add_one]
    omega

theorem alignUp_eq_gap {align : Nat} (pos : 0 < align) (offset : Nat) :
    alignUp align offset = offset + gap align offset := by
  obtain ⟨⟨n, multiple⟩, short⟩ := gap_spec pos offset
  have same : (offset + align - 1) / align = n := by
    rw [Nat.div_eq_iff pos]
    constructor <;> · rw [Nat.mul_comm]; omega
  rw [alignUp, same, multiple, Nat.mul_comm]

@[simp]
theorem length_padding (filler : Nat → UInt8) (align offset : Nat) :
    (padding filler align offset).length = gap align offset := by
  simp [padding]

theorem Cursor.moveTo_append (offset : Nat) (front rest : Bytes) (h : Header) :
    Cursor.moveTo ⟨offset, front ++ rest, h⟩ (offset + front.length) = ⟨offset + front.length, rest, h⟩ := by
  simp [Cursor.moveTo]

theorem Fields.value?_eq_some {f : Fields} {bit : Nat} {field : Bytes} (present : f.value? bit = some field) :
    bit < 28 ∧ field.length = width bit := by
  unfold Fields.value? at present
  split_ifs at present with known
  obtain ⟨octets, -, rfl⟩ := Option.map_eq_some_iff.mp present
  exact ⟨known, octets.property⟩

/-! ## The words -/

namespace Section

variable (s : Section) (next : Switch) (more : Bool)

theorem word_lt : s.word next more < 2 ^ 32 := Nat.ofBits_lt_two_pow _

theorem testBit_word {bit : Nat} (low : bit < 29) : (s.word next more).testBit bit = s.announces bit := by
  rw [word, Nat.testBit_ofBits_lt _ bit (by omega)]
  simp [low]

theorem testBit_section : (s.word next more).testBit sectionBit = decide (next = .standard) := by
  rw [word, Nat.testBit_ofBits_lt _ sectionBit (by decide)]
  rfl

theorem testBit_vendor : (s.word next more).testBit vendorBit = decide (next = .vendor) := by
  rw [word, Nat.testBit_ofBits_lt _ vendorBit (by decide)]
  rfl

theorem testBit_more : (s.word next more).testBit moreBit = more := by
  rw [word, Nat.testBit_ofBits_lt _ moreBit (by decide)]
  rfl

end Section

theorem length_words (last : Switch) (s : Section) (more : List Section) :
    (words last (s :: more)).length = more.length + 1 := by
  induction more generalizing s with
  | nil => rfl
  | cons t more ih => rw [words, List.length_cons, ih, List.length_cons]

theorem length_wordBytes (ws : List Nat) : (ws.flatMap (Bytes.ofNatLE 4)).length = 4 * ws.length := by
  induction ws with
  | nil => rfl
  | cons word ws ih =>
      rw [List.flatMap_cons, List.length_append, Bytes.length_ofNatLE, ih, List.length_cons]
      omega

theorem presenceWords_write {word : Nat} (small : word < 2 ^ 32) (rest : Bytes) :
    presenceWords (Bytes.ofNatLE 4 word ++ rest) =
      if word.testBit moreBit then (presenceWords rest).map (word :: ·) else some [word] := by
  have size := Bytes.length_ofNatLE 4 word
  have long : ¬(Bytes.ofNatLE 4 word ++ rest).length < 4 := by
    rw [List.length_append]
    omega
  rw [Checked.Radiotap.presenceWords_eq, if_neg long, List.take_left' size, List.drop_left' size,
    Bytes.toNatLE_ofNatLE, Nat.mod_eq_of_lt (show word < 256 ^ 4 from small)]

/-- The chain of words is found, and ends with the last section. -/
theorem presenceWords_words (last : Switch) (s : Section) (more : List Section) (rest : Bytes) :
    presenceWords ((words last (s :: more)).flatMap (Bytes.ofNatLE 4) ++ rest) =
      some (words last (s :: more)) := by
  induction more generalizing s with
  | nil =>
      rw [words, List.flatMap_singleton, presenceWords_write (s.word_lt ..), s.testBit_more]
      rfl
  | cons t more ih =>
      rw [words, List.flatMap_cons, List.append_assoc, presenceWords_write (s.word_lt ..), s.testBit_more,
        if_pos rfl, ih]
      rfl

/-! ## The fields -/

def Header.takeAll (h : Header) (values : List (Nat × Bytes)) : Header :=
  values.foldl (fun h value => h.take value.1 value.2) h

theorem Header.takeAll_append (h : Header) (first second : List (Nat × Bytes)) :
    h.takeAll (first ++ second) = (h.takeAll first).takeAll second := List.foldl_append

theorem Header.length_takeAll (h : Header) (values : List (Nat × Bytes)) : (h.takeAll values).length = h.length := by
  induction values generalizing h with
  | nil => rfl
  | cons value values ih => exact (ih _).trans (Checked.Radiotap.length_take ..)

section reading

variable {filler : Nat → UInt8} {offset : Nat} {h : Header} {rest : Bytes}

/-- One field that is announced is found behind the padding in front of it. -/
theorem readFields_field {word bit : Nat} (announced : word.testBit bit = true) (known : bit < 28)
    {front field : Bytes} (start : alignUp (alignment bit) offset = offset + front.length)
    (size : field.length = width bit) (inside : offset + front.length + field.length ≤ h.length)
    (bits : List Nat) :
    readFields 0 word (bit :: bits) ⟨offset, front ++ (field ++ rest), h⟩ =
      readFields 0 word bits ⟨offset + front.length + field.length, rest, h.take bit field⟩ := by
  rw [readFields, if_pos announced, Nat.zero_add, fieldLayout_eq known]
  simp only [start, ← size, Cursor.endsBefore, decide_eq_true_eq, if_neg (Nat.not_lt.mpr inside),
    Cursor.moveTo_append, List.take_left]

theorem readFields_write (f : Fields) {word : Nat} {bits : List Nat}
    (announced : ∀ bit ∈ bits, word.testBit bit = (f.value? bit).isSome)
    (whole : offset + (writeFields filler f bits offset).length ≤ h.length) :
    readFields 0 word bits ⟨offset, writeFields filler f bits offset ++ rest, h⟩ =
      .ok (.onward ⟨offset + (writeFields filler f bits offset).length, rest, h.takeAll (f.listed bits)⟩) := by
  induction bits generalizing offset h with
  | nil => rfl
  | cons bit bits ih =>
      obtain ⟨here, later⟩ := List.forall_mem_cons.mp announced
      cases present : f.value? bit with
      | none =>
          have skip : writeFields filler f (bit :: bits) offset = writeFields filler f bits offset := by
            simp only [writeFields, present]
          have listed : f.listed (bit :: bits) = f.listed bits := by simp [Fields.listed, present]
          rw [present] at here
          rw [skip] at whole
          rw [readFields, if_neg (by simp [here]), skip, listed]
          exact ih later whole
      | some field =>
          obtain ⟨known, size⟩ := Fields.value?_eq_some present
          let front := padding filler (alignment bit) offset
          let behind := offset + front.length + field.length
          have step : writeFields filler f (bit :: bits) offset =
              front ++ (field ++ writeFields filler f bits behind) := by
            simp only [writeFields, present, List.length_append, List.append_assoc, Nat.add_assoc, behind, front]
          have listed : f.listed (bit :: bits) = (bit, field) :: f.listed bits := by
            simp [Fields.listed, present]
          have start : alignUp (alignment bit) offset = offset + front.length := by
            rw [alignUp_eq_gap (alignment_pos known), length_padding]
          have long : offset + (writeFields filler f (bit :: bits) offset).length =
              behind + (writeFields filler f bits behind).length := by
            rw [step, List.length_append, List.length_append, ← Nat.add_assoc, ← Nat.add_assoc]
          rw [present] at here
          rw [long] at whole
          rw [long, step, List.append_assoc, List.append_assoc,
            readFields_field here known start size ((Nat.le_add_right ..).trans whole), listed]
          exact ih later (whole.trans_eq (Checked.Radiotap.length_take ..).symm)

/-- A vendor's header is read, and its data is skipped. -/
theorem skipVendor_lead (maker : Octets 4) (skipped : Bytes) (bits : Fin 29 → Bool)
    (whole : offset + ((Section.vendor maker skipped bits).lead filler offset).length ≤ h.length)
    (small : h.length < 2 ^ 16) :
    skipVendor ⟨offset, (Section.vendor maker skipped bits).lead filler offset ++ rest, h⟩ =
      .ok ⟨offset + ((Section.vendor maker skipped bits).lead filler offset).length, rest, h⟩ := by
  let front := padding filler 2 offset
  let data := maker.val ++ Bytes.ofNatLE 2 skipped.length ++ skipped
  have size : data.length = 6 + skipped.length := by
    simp only [data, List.length_append, maker.property, Bytes.length_ofNatLE]
  have lead : (Section.vendor maker skipped bits).lead filler offset = front ++ data := rfl
  have start : alignUp 2 offset = offset + front.length := by
    rw [alignUp_eq_gap Nat.two_pos, length_padding]
  rw [lead, List.length_append, size] at whole
  have told : Bytes.toNatLE (((data ++ rest).drop 4).take 2) = skipped.length := by
    rw [List.append_assoc, List.append_assoc, List.drop_left' maker.property,
      List.take_left' (Bytes.length_ofNatLE ..), Bytes.toNatLE_ofNatLE]
    exact Nat.mod_eq_of_lt (show _ < 256 ^ 2 by omega)
  have header : ¬h.length < offset + front.length + 6 := by omega
  have all : ¬h.length < offset + front.length + 6 + skipped.length := by omega
  have behind := Cursor.moveTo_append (offset + front.length) data rest h
  rw [size, ← Nat.add_assoc] at behind
  rw [lead, List.append_assoc, List.length_append, size, ← Nat.add_assoc, ← Nat.add_assoc]
  simp only [skipVendor, start, Cursor.endsBefore, decide_eq_true_eq, if_neg header, Cursor.moveTo_append,
    told, if_neg all, behind]

theorem fieldsOf_body (s : Section) (next : Switch) (more : Bool)
    (whole : offset + (s.body filler offset).length ≤ h.length) :
    Checked.Radiotap.fieldsOf (s.word next more) ⟨offset, s.body filler offset ++ rest, h⟩ s.space =
      .ok (.onward ⟨offset + (s.body filler offset).length, rest, h.takeAll s.values⟩) := by
  cases s with
  | standard fields =>
      exact readFields_write fields (fun bit member => Section.testBit_word _ _ _ (List.mem_range.mp member)) whole
  | vendor => rfl

/-- A word leads into the section behind its own. -/
theorem switch_lead (s t : Section) (more : Bool) (space : Namespace)
    (whole : offset + (t.lead filler offset).length ≤ h.length) (small : h.length < 2 ^ 16) :
    switch (s.word t.entry more) space ⟨offset, t.lead filler offset ++ rest, h⟩ =
      .ok (t.space, ⟨offset + (t.lead filler offset).length, rest, h⟩) := by
  unfold switch
  rw [s.testBit_section, s.testBit_vendor]
  cases t with
  | standard fields => rfl
  | vendor maker skipped bits =>
      rw [if_neg (by simp [Section.entry]), if_pos (by simp [Section.entry]),
        skipVendor_lead maker skipped bits whole small]
      rfl

/-- Every section is read with its own word, from where its fields begin. -/
theorem readWords_write (last : Switch) (s : Section) (more : List Section)
    (whole : offset + (s.body filler offset).length +
      (writeSections filler more (offset + (s.body filler offset).length)).length ≤ h.length)
    (small : h.length < 2 ^ 16) :
    readWords (words last (s :: more)) s.space ⟨offset, s.body filler offset ++
        (writeSections filler more (offset + (s.body filler offset).length) ++ rest), h⟩ =
      .ok (h.takeAll ((s :: more).flatMap Section.values)) := by
  induction more generalizing s offset h with
  | nil =>
      rw [words, Checked.Radiotap.readWords_cons, fieldsOf_body s last false whole, List.flatMap_singleton]
      rfl
  | cons t more ih =>
      have others : (words last (t :: more)).isEmpty = false := by
        rw [List.isEmpty_eq_false_iff, ← List.length_pos_iff, length_words]
        exact Nat.succ_pos _
      rw [words, Checked.Radiotap.readWords_cons, fieldsOf_body s t.entry true (Nat.le_of_add_right_le whole)]
      simp only [others, Bool.false_eq_true, if_false]
      generalize offset + (s.body filler offset).length = offset at whole
      let lead := t.lead filler offset
      have step : writeSections filler (t :: more) offset = lead ++ (t.body filler (offset + lead.length) ++
          writeSections filler more (offset + lead.length + (t.body filler (offset + lead.length)).length)) := by
        simp only [writeSections, List.append_assoc, lead]
      rw [step, List.length_append, List.length_append, ← Nat.add_assoc, ← Nat.add_assoc] at whole
      have front : offset + lead.length ≤ h.length := by omega
      rw [step, List.append_assoc, List.append_assoc, switch_lead s t true s.space
        (by rwa [Header.length_takeAll]) (by rwa [Header.length_takeAll])]
      simp only []
      rw [ih t (by rwa [Header.length_takeAll]) (by rwa [Header.length_takeAll]), ← Header.takeAll_append]
      rfl

end reading

/-! ## The whole header -/

namespace Header

/-- Each part of the header depends on one field. -/
theorem take_eq (h : Header) (bit : Nat) (field : Bytes) : h.take bit field =
    { length := h.length
      timestamp := if bit = 0 then some (UInt64.ofNat (Bytes.toNatLE field)) else h.timestamp
      flags := if bit = 1 then byteAt field 0 else h.flags
      rate := if bit = 2 then some (byteAt field 0) else h.rate
      channel := if bit = 3 then some ⟨wordAt field 0, wordAt field 2⟩ else h.channel
      signal := if bit = 5 then h.signal.or (some (byteAt field 0).toInt8) else h.signal
      noise := if bit = 6 then h.noise.or (some (byteAt field 0).toInt8) else h.noise
      antenna := if bit = 11 then h.antenna.or (some (byteAt field 0)) else h.antenna
      receiveFlags := if bit = 14 then some (wordAt field 0) else h.receiveFlags
      modulation := if bit = 19 then some ⟨byteAt field 0, byteAt field 1, byteAt field 2⟩ else h.modulation } := by
  unfold take
  split <;> simp_all

variable {α : Type} {bit : Nat}

/-- A part of the header that follows each value of a field has the last one. -/
theorem takeAll_last {part : Header → α} {read : Bytes → α}
    (step : ∀ h i field, part (h.take i field) = if i = bit then read field else part h) (h : Header)
    (values : List (Nat × Bytes)) :
    part (h.takeAll values) =
      ((values.filter (·.1 = bit)).getLast?.map fun value => read value.2).getD (part h) := by
  induction values using List.reverseRecOn with
  | nil => rfl
  | append_singleton values value ih =>
      rw [takeAll_append, List.filter_append]
      change part ((h.takeAll values).take value.1 value.2) = _
      rw [step, ih]
      by_cases here : value.1 = bit <;> simp [here]

/-- A part of the header that is set only once has the first value of its field. -/
theorem takeAll_first {part : Header → Option α} {read : Bytes → α}
    (step : ∀ h i field, part (h.take i field) = if i = bit then (part h).or (some (read field)) else part h)
    (h : Header) (values : List (Nat × Bytes)) :
    part (h.takeAll values) =
      (part h).or ((values.find? (·.1 = bit)).map fun value => read value.2) := by
  induction values generalizing h with
  | nil => exact (Option.or_none ..).symm
  | cons value values ih =>
      change part ((h.take value.1 value.2).takeAll values) = _
      rw [ih, step]
      by_cases here : value.1 = bit <;> simp [here]

end Header

namespace Composition

variable (c : Composition)

/-- What the fields tell one after the other. -/
def told : Header := Header.takeAll { length := c.length } c.values

section part

variable {α : Type} (part : Header → Option α) {read : Bytes → α} {bit : Nat}

theorem told_last (none : part { length := c.length } = none)
    (step : ∀ h i field, part (h.take i field) = if i = bit then some (read field) else part h) :
    part c.told = (c.last? bit).map read := by
  rw [told, Header.takeAll_last step, none, last?, Option.map_map]
  cases (c.values.filter (·.1 = bit)).getLast? <;> rfl

theorem told_first (none : part { length := c.length } = none)
    (step : ∀ h i field, part (h.take i field) = if i = bit then (part h).or (some (read field)) else part h) :
    part c.told = (c.first? bit).map read := by
  rw [told, Header.takeAll_first step, none, first?, Option.map_map]
  exact Option.none_or

end part

/-- It is the header, part by part. -/
theorem told_eq : c.told = c.header := by
  have length : c.told.length = c.length := Header.length_takeAll ..
  have timestamp := c.told_last Header.timestamp rfl
    fun h i field => congrArg Header.timestamp (h.take_eq i field)
  have flags : c.told.flags = ((c.last? 1).map (Header.byteAt · 0)).getD 0 := by
    have value := Header.takeAll_last (fun h i field => congrArg Header.flags (h.take_eq i field))
      { length := c.length } c.values
    rwa [last?, Option.map_map]
  have rate := c.told_last Header.rate rfl fun h i field => congrArg Header.rate (h.take_eq i field)
  have channel := c.told_last Header.channel rfl fun h i field => congrArg Header.channel (h.take_eq i field)
  have signal := c.told_first Header.signal rfl fun h i field => congrArg Header.signal (h.take_eq i field)
  have noise := c.told_first Header.noise rfl fun h i field => congrArg Header.noise (h.take_eq i field)
  have antenna := c.told_first Header.antenna rfl fun h i field => congrArg Header.antenna (h.take_eq i field)
  have receiveFlags := c.told_last Header.receiveFlags rfl
    fun h i field => congrArg Header.receiveFlags (h.take_eq i field)
  have modulation := c.told_last Header.modulation rfl
    fun h i field => congrArg Header.modulation (h.take_eq i field)
  calc c.told = ⟨c.told.length, c.told.timestamp, c.told.flags, c.told.rate, c.told.channel, c.told.signal,
        c.told.noise, c.told.antenna, c.told.receiveFlags, c.told.modulation⟩ := rfl
    _ = c.header := by
      rw [length, timestamp, flags, rate, channel, signal, noise, antenna, receiveFlags, modulation]
      rfl

theorem length_write : c.write.length = c.length := by
  rw [write, List.length_append, List.length_append, Bytes.length_ofNatLE]
  rfl

theorem drop_write : c.write.drop 4 = c.contents :=
  List.drop_left' (by rw [List.length_append, Bytes.length_ofNatLE]; rfl)

/-- The sections begin behind the words. -/
theorem drop_start_write : c.write.drop c.start = writeSections c.filler c.sections c.start ++ c.spare := by
  rw [start, ← List.drop_drop, drop_write, contents]
  refine List.drop_left' ?_
  rw [length_wordBytes, sections, length_words]
  rfl

theorem start_le : c.start + (writeSections c.filler c.sections c.start).length ≤ c.length := by
  rw [length, contents, List.length_append, List.length_append, length_wordBytes, sections, length_words, start,
    sections, List.length_cons]
  omega

theorem readWords_header (small : c.length < 2 ^ 16) :
    readWords (words c.last c.sections) (.standard 0)
      ⟨c.start, c.write.drop c.start, { length := c.length }⟩ = .ok c.header := by
  have step : writeSections c.filler c.sections c.start =
      (Section.standard c.first).body c.filler c.start ++
        writeSections c.filler c.more (c.start + ((Section.standard c.first).body c.filler c.start).length) := rfl
  have inside := c.start_le
  rw [step, List.length_append, ← Nat.add_assoc] at inside
  rw [drop_start_write, step, List.append_assoc]
  exact (readWords_write c.last (.standard c.first) c.more inside small).trans (congrArg Except.ok c.told_eq)

/-- Reading undoes the layout: whatever sections there are and whatever they hold, each field that counts is
told as it was laid down, and what follows the header is left alone. -/
theorem parse_write (small : c.length < 2 ^ 16) (frame : Bytes) :
    parse (c.write ++ frame) = .ok (c.header, frame) := by
  refine parse_append ?_ frame
  have told : Bytes.toNatLE ((c.write.drop 2).take 2) = c.length := by
    change Bytes.toNatLE (((Bytes.ofNatLE 2 c.length) ++ c.contents).take 2) = _
    rw [List.take_left' (Bytes.length_ofNatLE ..), Bytes.toNatLE_ofNatLE]
    exact Nat.mod_eq_of_lt small
  have found : presenceWords (c.write.drop 4) = some (words c.last c.sections) := by
    rw [drop_write]
    exact presenceWords_words ..
  have place : 4 + 4 * (words c.last c.sections).length = c.start := by
    rw [sections, length_words]
    rfl
  have long : ¬c.length < minimumLength := by
    have inside := c.start_le
    rw [start, sections, List.length_cons] at inside
    rw [minimumLength]
    omega
  have all : c.write.take c.length = c.write := List.take_of_length_le c.length_write.le
  have none : c.write.drop c.length = [] := List.drop_of_length_le c.length_write.le
  have version : ¬c.write.headD 0 ≠ 0 := not_not.mpr rfl
  unfold parse
  simp only [length_write, told, all, found, place, none, if_neg long, if_neg version, lt_irrefl, if_false,
    c.readWords_header small]
  rfl

/-- A vendor's data between two sections of the standard, with flags in both of them. -/
def sandwich : Composition where
  first
    | 1 => some ⟨[0x10], rfl⟩
    | 3 => some ⟨[0x6C, 0x09, 0x40, 0x01], rfl⟩
    | _ => none
  more :=
    [.vendor ⟨[1, 2, 3, 4], rfl⟩ [9, 9, 9] (· = 0),
      .standard fun
        | 1 => some ⟨[0x02], rfl⟩
        | 5 => some ⟨[0xD8], rfl⟩
        | 11 => some ⟨[2], rfl⟩
        | _ => none]
  last := .vendor
  reserved := 7
  filler _ := 0xFF
  spare := [0xEE]

theorem parse_write_sandwich :
    sandwich.length < 2 ^ 16 ∧
    sandwich.write = [0, 7, 35, 0, 0x0A, 0, 0, 0xC0, 0x01, 0, 0, 0xA0, 0x22, 0x08, 0, 0x40, 0x10, 0xFF, 0x6C, 0x09,
      0x40, 0x01, 1, 2, 3, 4, 3, 0, 9, 9, 9, 0x02, 0xD8, 2, 0xEE] ∧
    parse (sandwich.write ++ [5]) = .ok
      ({ length := 35, flags := 0x02, channel := some ⟨2412, 0x0140⟩, signal := some (-40),
         antenna := some 2 }, [5]) := by
  have small : sandwich.length < 2 ^ 16 := by decide
  have told : sandwich.header =
      { length := 35, flags := 0x02, channel := some ⟨2412, 0x0140⟩, signal := some (-40),
        antenna := some 2 } := by decide
  exact ⟨small, by decide, told ▸ sandwich.parse_write small [5]⟩

end Composition

end AirLink.Radiotap
