import AirLink.Proofs.Checked.Headers
import AirLink.Proofs.Checked.Ring
import AirLink.Proofs.Checked.Shares
import AirLink.Proofs.Rebuild

/-! # The fragments of a block in checked steps

Storing a fragment, passing on what is due and filling the gaps work on a view of the block.  They go
through on a block with the right sizes and do what is done to its slot.
-/

namespace AirLink

namespace Slot

variable {s : Slot} {k : Nat} {mode : Mode}

theorem due_of_le (h : k ≤ s.cursor) : s.due k = [] := by
  rw [due, List.drop_eq_nil_of_le]
  rwa [List.length_range]

theorem due_of_lt (h : s.cursor < k) : s.due k = s.cursor :: s.advance.due k := by
  rw [due, List.drop_eq_getElem_cons (by rwa [List.length_range]), List.getElem_range]
  rfl

theorem drain_of_none (nothing : s.leaving k mode = []) : s.drain k mode = (s, []) := by
  unfold drain
  rw [nothing]
  rcases s with ⟨none | _, _, _, _⟩ <;> rfl

theorem drain_done (h : k ≤ s.cursor) : s.drain k mode = (s, []) := by
  apply drain_of_none
  cases mode <;> simp [leaving, due_of_le h]

/-- Nothing leaves a block in front of a gap. -/
theorem drain_gap (h : s.cursor < k) (gap : s.has s.cursor = false) : s.drain k .cutThrough = (s, []) := by
  apply drain_of_none
  rw [leaving, due_of_lt h, List.takeWhile_cons_of_neg (by rw [gap]; exact Bool.false_ne_true)]

/-- What leaves at the cursor, and the others behind it. -/
theorem drain_step (h : s.cursor < k) (leaves : s.has s.cursor = true ∨ mode ≠ .cutThrough) :
    s.drain k mode = ((s.advance.drain k mode).1,
      (s.index.toList.map fun block => s.departure mode block s.cursor) ++ (s.advance.drain k mode).2) := by
  have first : s.leaving k mode = s.cursor :: s.advance.leaving k mode := by
    cases mode with
    | cutThrough =>
        have here : s.has s.cursor = true := leaves.resolve_right fun other => other rfl
        rw [leaving, due_of_lt h, List.takeWhile_cons_of_pos here]
        rfl
    | stale => exact due_of_lt h
    | rebuilt => exact due_of_lt h
  have cursor : s.cursor + (s.cursor :: s.advance.leaving k mode).length =
      s.advance.cursor + (s.advance.leaving k mode).length := by
    change s.cursor + ((s.advance.leaving k mode).length + 1) = s.cursor + 1 + _
    omega
  have index : s.advance.index = s.index := rfl
  unfold drain
  simp only [first, cursor, index]
  cases s.index <;> rfl

end Slot

theorem gaps_nil (last : Option Nat) : gaps last [] = [] := by
  cases last <;> rfl

theorem gaps_append (last : Option Nat) (earlier later : List Nat) :
    gaps last (earlier ++ later) = gaps last earlier ++ gaps (earlier.getLast?.or last) later := by
  induction earlier generalizing last with
  | nil => rfl
  | cons sequence earlier ih =>
      have newest : ((sequence :: earlier).getLast?).or last = (earlier.getLast?).or (some sequence) := by
        rw [List.getLast?_cons]
        cases earlier.getLast? <;> rfl
      rw [newest, List.cons_append]
      cases last with
      | none => exact ih (some sequence)
      | some previous =>
          simp only [gaps]
          rw [ih (some sequence)]
          split <;> rfl

namespace Checked

/-- What has left the blocks while one packet is handled. -/
structure Output where
  /-- The number of the last fragment that was passed on. -/
  last : Option Nat
  emissions : List Emission := []
  gaps : List Gap := []
  deliveries : List Delivery := []

namespace Output

/-- The same after some emissions. -/
def after (k : Nat) (out : Output) (emissions : List Emission) : Output :=
  let sequences := emissions.filterMap (Emission.sequence? k)
  { last := sequences.getLast?.or out.last
    emissions := out.emissions ++ emissions
    gaps := out.gaps ++ AirLink.gaps out.last sequences
    deliveries := out.deliveries ++ emissions.filterMap Emission.delivery? }

theorem after_nil (k : Nat) (out : Output) : out.after k [] = out := by
  simp [after, gaps_nil]

theorem after_append (k : Nat) (out : Output) (earlier later : List Emission) :
    out.after k (earlier ++ later) = (out.after k earlier).after k later := by
  simp only [after, List.filterMap_append, gaps_append, List.append_assoc, List.getLast?_append,
    Option.or_assoc]

theorem after_flatMap (k : Nat) (out : Output) (left : Slot → List Emission) (slots : List Slot) :
    slots.foldl (fun out s => out.after k (left s)) out = out.after k (slots.flatMap left) := by
  induction slots generalizing out with
  | nil => exact (after_nil k out).symm
  | cons s slots ih => rw [List.foldl_cons, ih, List.flatMap_cons, after_append]

/-- There are words for the numbers behind the last one. -/
def Fits (out : Output) : Prop := ∀ last, out.last = some last → last < 2 ^ 63

/-- Tells whether fragments have been skipped. -/
def jump (out : Output) (sequence : Nat) : Option (List Gap) :=
  match out.last with
  | none => some []
  | some last => do
    let next ← add last 1
    if next < sequence then
      let distance ← sub sequence last
      let skipped ← sub distance 1
      return [⟨skipped, last, sequence⟩]
    else return []

theorem jump_eq {out : Output} (fits : out.Fits) (sequence : Nat) :
    out.jump sequence = some (AirLink.gaps out.last [sequence]) := by
  unfold jump AirLink.gaps
  cases seen : out.last with
  | none => rfl
  | some last =>
      have small := fits last seen
      dsimp only
      by_cases behind : last + 1 < sequence
      · rw [if_pos behind]
        apply step (add_eq (show last + 1 < 2 ^ 64 by omega))
        rw [if_pos behind]
        apply step (sub_eq (show last ≤ sequence by omega))
        exact step (sub_eq (show 1 ≤ sequence - last by omega)) rfl
      · rw [if_neg behind]
        apply step (add_eq (show last + 1 < 2 ^ 64 by omega))
        rw [if_neg behind]
        rfl

end Output

/-- The payload in a fragment's buffer. -/
def payload (content : Bytes) : Option (Option Bytes) := do
  let decoded ← FragmentHeader.decode content
  match decoded with
  | .error _ => return none
  | .ok header =>
    let size := header.size.toNat
    if header.isFiller then return none
    else if Limits.payload < size then return none
    else do
      let stop ← add Limits.fragmentHeader size
      if content.length < stop then return none
      else do
        let payload ← slice content Limits.fragmentHeader stop
        return some payload

theorem payload_eq (content : Bytes) : payload content = some (payload? content) := by
  apply step (FragmentHeader.decode_eq content)
  unfold payload?
  cases AirLink.FragmentHeader.decode content with
  | error fault => rfl
  | ok header =>
      dsimp only
      by_cases filler : header.isFiller
      · rw [if_pos filler, if_pos filler]
        rfl
      rw [if_neg filler, if_neg filler]
      by_cases large : Limits.payload < header.size.toNat
      · rw [if_pos large, if_pos (.inl large)]
        rfl
      rw [if_neg large]
      have small : Limits.fragmentHeader + header.size.toNat < 2 ^ 64 := by
        have limits : Limits.fragmentHeader + Limits.payload < 2 ^ 64 := by decide
        omega
      apply step (add_eq small)
      by_cases short : content.length < Limits.fragmentHeader + header.size.toNat
      · rw [if_pos short, if_pos (.inr short)]
        rfl
      · rw [if_neg short, if_neg (fun either => either.elim large short)]
        exact step (slice_add (Nat.le_of_not_lt short)) rfl

namespace View

def lengthOf (v : View) (i : Nat) : Option Nat := v.block.lengths[i]?

def has (v : View) (i : Nat) : Option Bool := do
  let length ← v.lengthOf i
  return decide (0 < length)

/-- The whole buffer of a fragment. -/
def fragment (v : View) (i : Nat) : Option Bytes := do
  let start ← mul i v.size
  let stop ← add start v.size
  slice v.data start stop

/-- A buffer with new content and zeros behind it. -/
def fill (buffer bs : Bytes) : Option Bytes := do
  let buffer ← blit buffer 0 bs.length bs
  let rest ← slice buffer bs.length buffer.length
  blit buffer bs.length buffer.length (Bytes.zeros rest.length)

/-- Another buffer in the place of a fragment's. -/
def replace (v : View) (i : Nat) (buffer : Bytes) : Option View := do
  let start ← mul i v.size
  let stop ← add start v.size
  let data ← blit v.data start stop buffer
  return { v with data }

def store (v : View) (i : Nat) (bs : Bytes) : Option View := do
  let buffer ← v.fragment i
  let buffer ← fill buffer bs
  let v ← v.replace i buffer
  let lengths ← put v.block.lengths i bs.length
  let used ← add v.block.used 1
  return { v with block := { v.block with lengths, used } }

def advance (v : View) : Option View := do
  let cursor ← add v.block.cursor 1
  return { v with block := { v.block with cursor } }

/-- Passes one fragment on. -/
def sendOne (k : Nat) (v : View) (i : Nat) (recovered : Bool) (out : Output) : Option Output :=
  match v.block.index with
  | none => some out
  | some block => do
    let before ← mul block k
    let sequence ← add before i
    let gaps ← out.jump sequence
    let content ← v.fragment i
    let payload ← payload content
    return {
      last := some sequence
      emissions := out.emissions ++ [.passed block i recovered content]
      gaps := out.gaps ++ gaps
      deliveries := out.deliveries ++ payload.toList.map (⟨block, i, recovered, ·⟩) }

/-- Gives one fragment up. -/
def giveUp (v : View) (i : Nat) (out : Output) : Output :=
  { out with emissions := out.emissions ++ v.block.index.toList.map (.lost · i) }

/-- Empties a block as far as the occasion allows. -/
def sendBlock (k : Nat) (mode : Mode) (v : View) (out : Output) : Option (View × Output) :=
  let i := v.block.cursor
  if i < k then do
    let here ← v.has i
    if here || mode == .rebuilt then
      let out ← v.sendOne k i (mode == .rebuilt && !here) out
      let v ← v.advance
      v |>.sendBlock k mode out
    else if mode == .stale then
      let next ← v.advance
      next |>.sendBlock k mode (v.giveUp i out)
    else return (v, out)
  else some (v, out)
partial_fixpoint

end View

/-- What the work on a block relies on: its buffers have their sizes and lie in one part of the memory,
and its number is that of a packet. -/
structure Sized (size count : Nat) (s : Slot) : Prop where
  shaped : s.Shaped size count
  room : size * count ≤ Limits.memory
  few : count ≤ Limits.shares
  numbered : ∀ block, s.index = some block → block ≤ Limits.blockIndex

namespace View

variable {s : Slot} {size count k i : Nat} {mode : Mode} {out : Output}

theorem lengthOf_of (sized : Sized size count s) (hi : i < count) : (of size s).lengthOf i = some (s.lengthOf i) := by
  have inside : i < s.cells.length := sized.shaped.length.symm ▸ hi
  change (s.cells.map Cell.length)[i]? = _
  rw [List.getElem?_map, Slot.lengthOf, List.getElem?_eq_getElem inside]
  rfl

theorem has_of (sized : Sized size count s) (hi : i < count) : (of size s).has i = some (s.has i) :=
  step (lengthOf_of sized hi) rfl

theorem fragment_room (sized : Sized size count s) (hi : i < count) : i * size + size < 2 ^ 63 := by
  have memory : Limits.memory < 2 ^ 63 := by decide
  have inside : (i + 1) * size ≤ count * size := Nat.mul_le_mul_right size hi
  have room := sized.room
  rw [Nat.succ_mul, Nat.mul_comm count] at inside
  omega

theorem fragment_of (sized : Sized size count s) (hi : i < count) : (of size s).fragment i = some (s.bufferOf i) := by
  have small := fragment_room sized hi
  have inside : i < (s.cells.map Cell.buffer).length := by
    rw [List.length_map, sized.shaped.length]
    exact hi
  apply step (mul_eq (show i * size < 2 ^ 64 by omega))
  apply step (add_eq (show i * size + size < 2 ^ 64 by omega))
  rw [of, dataOf, slice_flatten (length_of_mem_buffers sized.shaped) inside, getElem_buffers]

theorem replace_of (sized : Sized size count s) (hi : i < count) {buffer : Bytes} (length : buffer.length = size) :
    (of size s).replace i buffer =
      some (of size { s with cells := s.cells.modify i fun c => { c with buffer } }) := by
  have small := fragment_room sized hi
  have inside : i < s.cells.length := sized.shaped.length.symm ▸ hi
  have buffers : i < (s.cells.map Cell.buffer).length := by rwa [List.length_map]
  have cells : s.cells.modify i (fun c => { c with buffer }) = s.cells.set i ⟨s.cells[i].length, buffer⟩ := by
    rw [List.modify_eq_set_get _ inside, List.get_eq_getElem]
  have lengths : (s.cells.map Cell.length).set i s.cells[i].length = s.cells.map Cell.length := by
    rw [← List.getElem_map Cell.length, List.set_getElem_self]
    rwa [List.length_map]
  apply step (mul_eq (show i * size < 2 ^ 64 by omega))
  apply step (add_eq (show i * size + size < 2 ^ 64 by omega))
  apply step (blit_flatten (length_of_mem_buffers sized.shaped) buffers length)
  simp only [of, dataOf, Block.of, cells, List.map_set, lengths]
  rfl

theorem advance_of (small : s.cursor < 2 ^ 63) : (of size s).advance = some (of size s.advance) :=
  step (add_eq (show s.cursor + 1 < 2 ^ 64 by omega)) rfl

theorem sized_advance (sized : Sized size count s) : Sized size count s.advance :=
  ⟨⟨sized.shaped.length, sized.shaped.buffers⟩, sized.room, sized.few, sized.numbered⟩

theorem fill_eq {buffer bs : Bytes} (fits : bs.length ≤ buffer.length) :
    fill buffer bs = some (Bytes.fit buffer.length bs) := by
  have whole : (bs ++ buffer.drop bs.length).length = buffer.length := by
    rw [List.length_append, List.length_drop]
    exact Nat.add_sub_cancel' fits
  apply step (blit_eq (Nat.zero_le _) fits rfl)
  rw [List.take_zero, List.nil_append]
  apply step (slice_rest (whole.symm ▸ fits))
  rw [List.drop_left, List.length_drop, whole]
  rw [blit_eq fits (Nat.le_of_eq whole.symm) (show (Bytes.zeros _).length = _ from List.length_replicate),
    List.take_left, List.drop_eq_nil_of_le (Nat.le_of_eq whole), List.append_nil, Bytes.fit,
    List.take_of_length_le fits]

theorem store_of (sized : Sized size count s) (hi : i < count) {bs : Bytes} (fits : bs.length ≤ size)
    (used : s.used < 2 ^ 63) : (of size s).store i bs = some (of size (s.store i bs)) := by
  have inside : i < s.cells.length := sized.shaped.length.symm ▸ hi
  have length := sized.shaped.length_bufferOf hi
  have buffer := sized.shaped.buffers _ (List.getElem_mem inside)
  have lengths :
      put ((s.cells.modify i fun c => { c with buffer := Bytes.fit size bs }).map Cell.length) i bs.length =
        some ((s.store i bs).cells.map Cell.length) := by
    rw [put_eq (by rwa [List.length_map, List.length_modify]), Slot.store, List.modify_eq_set_get _ inside,
      List.modify_eq_set_get _ inside, List.map_set, List.map_set, List.set_set]
  have buffers : (s.cells.modify i fun c => { c with buffer := Bytes.fit size bs }).map Cell.buffer =
      (s.store i bs).cells.map Cell.buffer := by
    rw [Slot.store, List.modify_eq_set_get _ inside, List.modify_eq_set_get _ inside, List.map_set, List.map_set,
      List.get_eq_getElem, buffer]
  apply step (fragment_of sized hi)
  apply step (fill_eq (length.symm ▸ fits))
  rw [length]
  apply step (replace_of sized hi (Bytes.length_fit ..))
  apply step lengths
  apply step (add_eq (show s.used + 1 < 2 ^ 64 by omega))
  rw [of, of, dataOf, dataOf, buffers]
  rfl

theorem sequence_lt {block : Nat} (le : block ≤ Limits.blockIndex) (few : k ≤ Limits.shares) (hi : i < k) :
    block * k + i < 2 ^ 63 := by
  have product : block * k ≤ Limits.blockIndex * Limits.shares := Nat.mul_le_mul le few
  have limits : Limits.blockIndex * Limits.shares + Limits.shares < 2 ^ 63 := by decide
  omega

theorem sendOne_of (sized : Sized size count s) (le : k ≤ count) (hi : i < k) (recovered : Bool) (fits : out.Fits) :
    (of size s).sendOne k i recovered out =
      some (out.after k (s.index.toList.map fun block => .passed block i recovered (s.bufferOf i))) ∧
      (out.after k (s.index.toList.map fun block => .passed block i recovered (s.bufferOf i))).Fits := by
  have here : (of size s).block.index = s.index := rfl
  unfold sendOne
  rw [here]
  cases index : s.index with
  | none =>
      rw [Option.toList_none, List.map_nil, Output.after_nil]
      exact ⟨rfl, fits⟩
  | some block =>
      have small := sequence_lt (sized.numbered block index) (le.trans sized.few) hi
      constructor
      · apply step (mul_eq (show block * k < 2 ^ 64 by omega))
        apply step (add_eq (show block * k + i < 2 ^ 64 by omega))
        apply step (Output.jump_eq fits _)
        apply step (fragment_of sized (hi.trans_le le))
        apply step (payload_eq _)
        simp only [Option.toList_some, List.map_cons, List.map_nil, Output.after, List.filterMap_cons,
          List.filterMap_nil, Emission.sequence?, Emission.delivery?, List.getLast?_singleton]
        cases payload? (s.bufferOf i) <;> rfl
      · intro last isLast
        cases isLast
        exact small

theorem giveUp_of (k : Nat) (fits : out.Fits) :
    (of size s).giveUp i out = out.after k (s.index.toList.map (.lost · i)) ∧
      (out.after k (s.index.toList.map (.lost · i))).Fits := by
  have here : (of size s).block.index = s.index := rfl
  rw [giveUp, here]
  cases s.index with
  | none =>
      rw [Option.toList_none, List.map_nil, Output.after_nil, List.append_nil]
      exact ⟨rfl, fits⟩
  | some block =>
      have passes : [Emission.lost block i].filterMap (Emission.sequence? k) = [] := rfl
      simp only [Output.after, Option.toList_some, List.map_cons, List.map_nil, passes, gaps_nil, List.append_nil]
      exact ⟨by simp [Emission.delivery?], fits⟩

/-- The loop ends, for the cursor moves on in every round; it passes on what leaves the block. -/
theorem sendBlock_of (sized : Sized size count s) (le : k ≤ count) (mode : Mode) (fits : out.Fits) :
    (of size s).sendBlock k mode out = some (of size (s.drain k mode).1, out.after k (s.drain k mode).2) ∧
      (out.after k (s.drain k mode).2).Fits := by
  induction due : k - s.cursor generalizing s out with
  | zero =>
      have done : ¬s.cursor < k := by omega
      rw [Slot.drain_done (Nat.le_of_not_lt done), Output.after_nil, sendBlock]
      exact ⟨if_neg done, fits⟩
  | succ left ih =>
      have more : s.cursor < k := by omega
      have few := le.trans sized.few
      have limits : Limits.shares < 2 ^ 63 := by decide
      have inside : s.cursor < count := more.trans_le le
      have advanced := @advance_of s size (by omega)
      have rest {out : Output} (fits : out.Fits) := ih (sized_advance sized) fits
        (show k - (s.cursor + 1) = left by omega)
      rw [sendBlock]
      change (if s.cursor < k then _ else _) = _ ∧ _
      rw [if_pos more]
      have look := has_of sized inside
      cases here : s.has s.cursor with
      | true =>
          rw [here] at look
          have departure : s.index.toList.map (s.departure mode · s.cursor) =
              s.index.toList.map (.passed · s.cursor false (s.bufferOf s.cursor)) := by
            simp only [Slot.departure, here, if_true]
          obtain ⟨sent, fits⟩ := sendOne_of sized le more false fits
          obtain ⟨others, fits⟩ := rest fits
          rw [Slot.drain_step more (.inl here), departure, Output.after_append]
          refine ⟨?_, fits⟩
          apply step look
          rw [Bool.true_or, if_pos rfl, Bool.not_true, Bool.and_false]
          apply step sent
          exact step advanced others
      | false =>
          rw [here] at look
          cases mode with
          | cutThrough =>
              rw [Slot.drain_gap more here, Output.after_nil]
              exact ⟨step look rfl, fits⟩
          | stale =>
              have departure : s.index.toList.map (s.departure .stale · s.cursor) =
                  s.index.toList.map (.lost · s.cursor) := by
                simp [Slot.departure, here]
              have all : Mode.stale ≠ .cutThrough := by decide
              obtain ⟨lost, fits⟩ := @giveUp_of s size s.cursor out k fits
              obtain ⟨others, fits⟩ := rest fits
              rw [Slot.drain_step more (.inr all), departure, Output.after_append]
              refine ⟨?_, fits⟩
              apply step look
              apply step advanced
              change sendBlock k .stale _ ((of size s).giveUp s.cursor out) = _
              rw [lost]
              exact others
          | rebuilt =>
              have departure : s.index.toList.map (s.departure .rebuilt · s.cursor) =
                  s.index.toList.map (.passed · s.cursor true (s.bufferOf s.cursor)) := by
                simp [Slot.departure, here]
              have all : Mode.rebuilt ≠ .cutThrough := by decide
              obtain ⟨sent, fits⟩ := sendOne_of sized le more true fits
              obtain ⟨others, fits⟩ := rest fits
              rw [Slot.drain_step more (.inr all), departure, Output.after_append]
              refine ⟨?_, fits⟩
              apply step look
              apply step sent
              exact step advanced others

end View

end Checked

end AirLink
