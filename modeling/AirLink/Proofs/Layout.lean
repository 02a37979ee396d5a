import Mathlib
import AirLink.Layout

/-! # Reading what has been written

A layout is lawful if it writes as many bytes as it says and reads back what it has written, whatever
follows.  It is exact if it also writes back what it has read, so that no two strings are read as the same
value.  The layouts of words are both, and so is every layout that is built from such ones.
-/

namespace AirLink

namespace Bytes

theorem toNatLE_lt (bs : Bytes) : toNatLE bs < 256 ^ bs.length := by
  induction bs with
  | nil => exact Nat.one_pos
  | cons b bs ih =>
      have byte := b.toNat_lt
      rw [toNatLE, List.length_cons, Nat.pow_succ]
      omega

theorem toNatBE_lt (bs : Bytes) : toNatBE bs < 256 ^ bs.length :=
  Nat.lt_of_lt_of_eq (toNatLE_lt _) (congrArg (256 ^ ·) List.length_reverse)

theorem toNatBE_take_lt (n : Nat) (bs : Bytes) : toNatBE (bs.take n) < 256 ^ n :=
  (toNatBE_lt _).trans_le (Nat.pow_le_pow_right (by decide) (List.length_take_le ..))

theorem toNatLE_append (a b : Bytes) : toNatLE (a ++ b) = toNatLE a + 256 ^ a.length * toNatLE b := by
  induction a with
  | nil => simp [toNatLE]
  | cons x a ih =>
      rw [List.cons_append, toNatLE, ih, toNatLE, List.length_cons, Nat.pow_succ']
      ring

/-- The first byte weighs most. -/
theorem toNatBE_cons (b : UInt8) (bs : Bytes) :
    toNatBE (b :: bs) = b.toNat * 256 ^ bs.length + toNatBE bs := by
  rw [toNatBE, List.reverse_cons, toNatLE_append, List.length_reverse, toNatBE]
  simp only [toNatLE]
  ring

theorem toNatLE_ofNatLE (n v : Nat) : toNatLE (ofNatLE n v) = v % 256 ^ n := by
  induction n generalizing v with
  | zero => simp [ofNatLE, toNatLE, Nat.mod_one]
  | succ n ih =>
      rw [ofNatLE, toNatLE, ih, Nat.pow_succ', Nat.mod_mul]
      simp

theorem toNatBE_ofNatBE (n v : Nat) : toNatBE (ofNatBE n v) = v % 256 ^ n := by
  rw [toNatBE, ofNatBE, List.reverse_reverse, toNatLE_ofNatLE]

theorem ofNatLE_toNatLE (bs : Bytes) : ofNatLE bs.length (toNatLE bs) = bs := by
  induction bs with
  | nil => rfl
  | cons b bs ih =>
      have byte := b.toNat_lt
      have low : (b.toNat + 256 * toNatLE bs) % 256 = b.toNat := by omega
      have high : (b.toNat + 256 * toNatLE bs) / 256 = toNatLE bs := by omega
      rw [List.length_cons, toNatLE, ofNatLE, high, ih, ← UInt8.ofNat_mod_size, low, UInt8.ofNat_toNat]

theorem ofNatBE_toNatBE (bs : Bytes) : ofNatBE bs.length (toNatBE bs) = bs := by
  have back := ofNatLE_toNatLE bs.reverse
  rw [List.length_reverse] at back
  rw [ofNatBE, toNatBE, back, List.reverse_reverse]

end Bytes

namespace Layout

variable {α β : Type}

/-- The layout reads what it has written. -/
structure Lawful (layout : Layout α) : Prop where
  length : ∀ a, (layout.write a).length = layout.size
  read : ∀ a rest, layout.read (layout.write a ++ rest) = a

theorem Lawful.read? {layout : Layout α} (h : layout.Lawful) (a : α) (rest : Bytes) :
    layout.read? (layout.write a ++ rest) = some (a, rest) := by
  have long : ¬(layout.write a ++ rest).length < layout.size := by
    rw [List.length_append, h.length]
    omega
  rw [Layout.read?, if_neg long, h.read, ← h.length a, List.drop_left]

/-- No two values are written alike. -/
theorem Lawful.write_inj {layout : Layout α} (h : layout.Lawful) {a b : α}
    (same : layout.write a = layout.write b) : a = b := by
  have read := h.read a []
  rw [same, h.read] at read
  exact read.symm

theorem u8_lawful : u8.Lawful := ⟨fun _ => rfl, fun _ _ => rfl⟩

/-- Words, most significant byte first. -/
theorem word_lawful {n : Nat} {toNat : α → Nat} {ofNat : Nat → α} (small : ∀ v, toNat v < 256 ^ n)
    (inverse : ∀ v, ofNat (toNat v) = v) :
    Lawful ⟨n, fun v => Bytes.ofNatBE n (toNat v), fun bs => ofNat (Bytes.toNatBE (bs.take n))⟩ where
  length _ := Bytes.length_ofNatBE ..
  read v rest := by
    change ofNat (Bytes.toNatBE ((Bytes.ofNatBE n (toNat v) ++ rest).take n)) = v
    rw [List.take_left' (Bytes.length_ofNatBE ..), Bytes.toNatBE_ofNatBE,
      Nat.mod_eq_of_lt (small v), inverse]

theorem u16_lawful : u16.Lawful := word_lawful UInt16.toNat_lt fun _ => UInt16.ofNat_toNat

theorem u32_lawful : u32.Lawful := word_lawful UInt32.toNat_lt fun _ => UInt32.ofNat_toNat

theorem u64_lawful : u64.Lawful := word_lawful UInt64.toNat_lt fun _ => UInt64.ofNat_toNat

theorem u16le_lawful : u16le.Lawful where
  length _ := Bytes.length_ofNatLE ..
  read v rest := by
    change UInt16.ofNat (Bytes.toNatLE ((Bytes.ofNatLE 2 v.toNat ++ rest).take 2)) = v
    rw [List.take_left' (Bytes.length_ofNatLE ..), Bytes.toNatLE_ofNatLE,
      Nat.mod_eq_of_lt (show _ < 256 ^ 2 from v.toNat_lt), UInt16.ofNat_toNat]

theorem octets_lawful (n : Nat) : (octets n).Lawful where
  length o := o.property
  read o rest := by
    apply Subtype.ext
    have long : n ≤ (o.val ++ rest).length := by
      rw [List.length_append, o.property]
      omega
    exact (Bytes.fit_eq_take long).trans (List.take_left' o.property)

theorem Lawful.both {first : Layout α} {second : Layout β} (h : first.Lawful) (h' : second.Lawful) :
    (first.both second).Lawful where
  length p := by
    change (first.write p.1 ++ second.write p.2).length = first.size + second.size
    rw [List.length_append, h.length, h'.length]
  read p rest := by
    have cut : (first.write p.1 ++ second.write p.2 ++ rest).drop first.size =
        second.write p.2 ++ rest := by
      rw [List.append_assoc, ← h.length p.1, List.drop_left]
    change (first.read (first.write p.1 ++ second.write p.2 ++ rest),
      second.read ((first.write p.1 ++ second.write p.2 ++ rest).drop first.size)) = p
    rw [cut, h'.read, List.append_assoc, h.read]

theorem Lawful.through {layout : Layout α} (h : layout.Lawful) {make : α → β} {parts : β → α}
    (inverse : ∀ b, make (parts b) = b) : (layout.through make parts).Lawful where
  length b := h.length (parts b)
  read b rest := (congrArg make (h.read (parts b) rest)).trans (inverse b)

theorem i16_lawful : i16.Lawful := u16_lawful.through fun _ => rfl

/-- The layout writes back what it has read. -/
def Exact (layout : Layout α) : Prop :=
  ∀ bs : Bytes, layout.size ≤ bs.length → layout.write (layout.read bs) = bs.take layout.size

/-- What has been read is what stood there. -/
theorem Exact.of_read? {layout : Layout α} (h : layout.Exact) {bs rest : Bytes} {a : α}
    (read : layout.read? bs = some (a, rest)) : layout.write a ++ rest = bs := by
  by_cases short : bs.length < layout.size
  · cases read.symm.trans (read?_eq_none short)
  · cases read.symm.trans (read?_eq (Nat.le_of_not_lt short))
    rw [h bs (Nat.le_of_not_lt short), List.take_append_drop]

theorem u8_exact : u8.Exact := by
  intro bs long
  cases bs with
  | nil => exact absurd long (by decide)
  | cons b bs => rfl

theorem word_exact {n : Nat} {toNat : α → Nat} {ofNat : Nat → α}
    (inverse : ∀ v < 256 ^ n, toNat (ofNat v) = v) :
    Exact ⟨n, fun v => Bytes.ofNatBE n (toNat v), fun bs => ofNat (Bytes.toNatBE (bs.take n))⟩ := by
  intro bs (long : n ≤ bs.length)
  have length : (bs.take n).length = n := List.length_take_of_le long
  have below := Bytes.toNatBE_lt (bs.take n)
  have back := Bytes.ofNatBE_toNatBE (bs.take n)
  rw [length] at below back
  exact (congrArg (Bytes.ofNatBE n) (inverse _ below)).trans back

theorem u16_exact : u16.Exact := word_exact fun _ small => Nat.mod_eq_of_lt small

theorem u32_exact : u32.Exact := word_exact fun _ small => Nat.mod_eq_of_lt small

theorem u64_exact : u64.Exact := word_exact fun _ small => Nat.mod_eq_of_lt small

theorem u16le_exact : u16le.Exact := by
  intro bs (long : 2 ≤ bs.length)
  have length : (bs.take 2).length = 2 := List.length_take_of_le long
  have below := Bytes.toNatLE_lt (bs.take 2)
  have back := Bytes.ofNatLE_toNatLE (bs.take 2)
  rw [length] at below back
  exact (congrArg (Bytes.ofNatLE 2) (Nat.mod_eq_of_lt below)).trans back

theorem octets_exact (n : Nat) : (octets n).Exact := fun _ long => Bytes.fit_eq_take long

theorem Exact.both {first : Layout α} {second : Layout β} (h : first.Exact) (h' : second.Exact) :
    (first.both second).Exact := by
  intro bs (long : first.size + second.size ≤ bs.length)
  have room : second.size ≤ (bs.drop first.size).length := by
    rw [List.length_drop]
    omega
  change first.write (first.read bs) ++ second.write (second.read (bs.drop first.size)) =
    bs.take (first.size + second.size)
  rw [h bs (Nat.le_of_add_right_le long), h' _ room, List.take_add]

theorem Exact.through {layout : Layout α} (h : layout.Exact) {make : α → β} {parts : β → α}
    (inverse : ∀ a, parts (make a) = a) : (layout.through make parts).Exact :=
  fun bs long => (congrArg layout.write (inverse _)).trans (h bs long)

theorem i16_exact : i16.Exact := u16_exact.through fun _ => rfl

theorem toNat_u16 (bs : Bytes) : (u16.read bs).toNat = Bytes.toNatBE (bs.take 2) :=
  Nat.mod_eq_of_lt (Bytes.toNatBE_take_lt 2 bs)

theorem toNat_u32 (bs : Bytes) : (u32.read bs).toNat = Bytes.toNatBE (bs.take 4) :=
  Nat.mod_eq_of_lt (Bytes.toNatBE_take_lt 4 bs)

theorem toNat_u16le (bs : Bytes) : (u16le.read bs).toNat = Bytes.toNatLE (bs.take 2) := by
  have below := Bytes.toNatLE_lt (bs.take 2)
  have power : 256 ^ (bs.take 2).length ≤ 256 ^ 2 :=
    Nat.pow_le_pow_right (Nat.succ_pos _) (List.length_take_le ..)
  exact Nat.mod_eq_of_lt (Nat.lt_of_lt_of_le below power)

end Layout

end AirLink
