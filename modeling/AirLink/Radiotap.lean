import AirLink.Layout
import AirLink.Fault

/-! # Radiotap headers

A radiotap header announces its fields in a chain of presence words and then holds the fields of
each word, every one at the next offset that suits its alignment.  A word may switch to a vendor's
private section, whose data is skipped by its declared length, and back.  Reading stops quietly at
a field whose size is not known, because nothing after it can be located; a field or a word that
reaches beyond the header's own length is a fault.
-/

namespace AirLink.Radiotap

/-- The fixed part and one presence word. -/
def minimumLength : Nat := 8

/-- The alignment and the size of each known field, by its bit number. -/
def fieldLayout : Nat → Option (Nat × Nat)
  | 0 => some (8, 8)                                    -- time stamp of the first bit
  | 1 | 2 | 5 | 6 | 10 | 11 | 12 | 13 => some (1, 1)    -- flags, rate, levels, antenna
  | 16 | 17 | 26 => some (1, 1)                         -- retries, zero-length unit
  | 3 | 27 => some (2, 4)                               -- channel, signal field
  | 4 | 7 | 8 | 9 | 14 | 15 => some (2, 2)              -- hopping, qualities, further flags
  | 18 | 20 => some (4, 8)                              -- extended channel, aggregate status
  | 19 => some (1, 3)                                   -- modulation
  | 21 | 23 | 24 => some (2, 12)                        -- very high throughput, high efficiency
  | 25 => some (2, 6)                                   -- other users
  | 22 => some (8, 12)                                  -- device time stamp
  | _ => none

/-- The bit after which another presence word follows. -/
def moreBit : Nat := 31

/-- The bit that switches to a vendor section. -/
def vendorBit : Nat := 30

/-- The bit that starts a new radiotap section; the bits below it announce fields. -/
def sectionBit : Nat := 29

/-- The first offset from `offset` on that is a multiple of `align`. -/
def alignUp (align offset : Nat) : Nat := (offset + align - 1) / align * align

/-- What a transmitter said about its modulation. -/
structure Modulation where
  known : UInt8
  flags : UInt8
  index : UInt8
  deriving DecidableEq, Repr

/-- A channel's frequency in MHz and its properties. -/
structure Channel where
  frequency : UInt16
  flags : UInt16
  deriving DecidableEq, Repr

/-- The fields of a radiotap header that the receiver looks at. -/
structure Header where
  length : Nat
  timestamp : Option UInt64 := none
  flags : UInt8 := 0
  rate : Option UInt8 := none
  channel : Option Channel := none
  signal : Option Int8 := none
  noise : Option Int8 := none
  antenna : Option UInt8 := none
  receiveFlags : Option UInt16 := none
  modulation : Option Modulation := none
  deriving DecidableEq, Repr

namespace Header

/-- The frame ends with a check sequence. -/
def hasChecksum (h : Header) : Bool := h.flags &&& 0x10 != 0

/-- The driver found the check sequence to be wrong. -/
def badChecksum (h : Header) : Bool := h.flags &&& 0x40 != 0

def strength (h : Header) : Int16 := (h.signal.map Int8.toInt16).getD Limits.unknownSignal

def frequency (h : Header) : UInt16 := (h.channel.map Channel.frequency).getD 0

def byteAt (field : Bytes) (i : Nat) : UInt8 := field.getD i 0

def wordAt (field : Bytes) (i : Nat) : UInt16 := Layout.u16le.read (field.drop i)

/-- Takes over one field.  Of signal, noise and antenna the first value counts: it is the combined
one, and those of the single antennas follow it. -/
def take (h : Header) (bit : Nat) (field : Bytes) : Header :=
  match bit with
  | 0 => { h with timestamp := some (UInt64.ofNat (Bytes.toNatLE field)) }
  | 1 => { h with flags := byteAt field 0 }
  | 2 => { h with rate := some (byteAt field 0) }
  | 3 => { h with channel := some ⟨wordAt field 0, wordAt field 2⟩ }
  | 5 => { h with signal := h.signal.or (some (byteAt field 0).toInt8) }
  | 6 => { h with noise := h.noise.or (some (byteAt field 0).toInt8) }
  | 11 => { h with antenna := h.antenna.or (some (byteAt field 0)) }
  | 14 => { h with receiveFlags := some (wordAt field 0) }
  | 19 => { h with modulation := some ⟨byteAt field 0, byteAt field 1, byteAt field 2⟩ }
  | _ => h

end Header

/-- The chain of presence words at the front of a string, if it ends within the string. -/
def presenceWords : Bytes → Option (List Nat)
  | b₀ :: b₁ :: b₂ :: b₃ :: rest =>
    let word := Bytes.toNatLE [b₀, b₁, b₂, b₃]
    if word.testBit moreBit then (presenceWords rest).map (word :: ·) else some [word]
  | _ => none

/-- Whose fields the bits of a word announce. -/
inductive Namespace where
  /-- Radiotap fields; the bits of the word count from `base`. -/
  | standard (base : Nat)
  /-- A vendor's own fields, which are skipped. -/
  | vendor
  deriving DecidableEq, Repr

/-- A place in the header being read: the offset from the start of the header, the bytes of the
header from there on, and what has been read so far. -/
structure Cursor where
  offset : Nat
  rest : Bytes
  header : Header

namespace Cursor

def moveTo (c : Cursor) (offset : Nat) : Cursor :=
  { c with offset, rest := c.rest.drop (offset - c.offset) }

def endsBefore (c : Cursor) (offset : Nat) : Bool := c.header.length < offset

end Cursor

/-- What reading the fields of one word leads to. -/
inductive Progress where
  /-- All fields of the word were read. -/
  | onward (c : Cursor)
  /-- A field of unknown size ended the reading. -/
  | stopped (h : Header)

/-- Reads the fields announced by the given bits of a word. -/
def readFields (base word : Nat) : List Nat → Cursor → Except Fault Progress
  | [], c => .ok (.onward c)
  | bit :: bits, c =>
    if word.testBit bit then
      match fieldLayout (base + bit) with
      | none => .ok (.stopped c.header)
      | some (align, size) =>
        let start := alignUp align c.offset
        if c.endsBefore (start + size) then .error (.radiotap .fieldBeyondHeader)
        else
          let c := c.moveTo start
          let header := c.header.take (base + bit) (c.rest.take size)
          readFields base word bits { c.moveTo (start + size) with header }
    else readFields base word bits c

/-- Skips a vendor section: its six-byte header, whose last two bytes tell how many bytes of data
follow. -/
def skipVendor (c : Cursor) : Except Fault Cursor :=
  let start := alignUp 2 c.offset
  if c.endsBefore (start + 6) then .error (.radiotap .vendorHeaderCut)
  else
    let c := c.moveTo start
    let data := Bytes.toNatLE ((c.rest.drop 4).take 2)
    if c.endsBefore (start + 6 + data) then .error (.radiotap .vendorDataBeyondHeader)
    else .ok (c.moveTo (start + 6 + data))

/-- The namespace of the word after `word`, and the place where its fields begin. -/
def switch (word : Nat) (space : Namespace) (c : Cursor) : Except Fault (Namespace × Cursor) :=
  if word.testBit sectionBit then .ok (.standard 0, c)
  else if word.testBit vendorBit then (skipVendor c).map ((.vendor, ·))
  else match space with
    | .standard base => .ok (.standard (base + 32), c)
    | .vendor => .ok (.vendor, c)

def readWords : List Nat → Namespace → Cursor → Except Fault Header
  | [], _, c => .ok c.header
  | word :: words, space, c => do
    let progress ← match space with
      | .standard base => readFields base word (List.range sectionBit) c
      | .vendor => .ok (.onward c)
    match progress with
    | .stopped header => .ok header
    | .onward c =>
      if words.isEmpty then .ok c.header
      else
        let (space, c) ← switch word space c
        readWords words space c

/-- Reads a radiotap header; the frame behind it is returned as it is. -/
def parse (bs : Bytes) : Except Fault (Header × Bytes) :=
  if bs.length < minimumLength then .error (.truncated .radiotap minimumLength bs.length)
  else
    let length := Bytes.toNatLE ((bs.drop 2).take 2)
    if bs.headD 0 ≠ 0 then .error (.radiotap .unsupportedVersion)
    else if length < minimumLength then .error (.radiotap .lengthTooSmall)
    else if bs.length < length then .error (.truncated .radiotap length bs.length)
    else
      let whole := bs.take length
      match presenceWords (whole.drop 4) with
      | none => .error (.radiotap .bitmapBeyondHeader)
      | some words =>
        let start := 4 + 4 * words.length
        (readWords words (.standard 0) ⟨start, whole.drop start, { length }⟩).map
          fun header => (header, bs.drop length)

/-- The least header of a received frame: flags, channel and signal. -/
def encode (frequency : UInt16) (signal : Int8) (checksum : Bool) : Bytes :=
  let presence := 1 <<< 1 ||| 1 <<< 3 ||| 1 <<< 5
  [0, 0] ++ Bytes.ofNatLE 2 15 ++ Bytes.ofNatLE 4 presence
    ++ [if checksum then 0x10 else 0, 0]
    ++ Bytes.ofNatLE 2 frequency.toNat ++ Bytes.ofNatLE 2 0x0140 ++ [signal.toUInt8]

end AirLink.Radiotap
