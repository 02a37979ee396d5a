import AirLink.Proofs.Admission
import AirLink.Proofs.Checked.Rebuild

/-! # The assembly of blocks in checked steps

A data packet is opened in place, its fragment is stored in the block's part of the memory, and what
leaves the blocks is passed on.  On an assembly that has been announced all of this goes through, for
every packet and whatever its fragment holds.
-/

namespace AirLink

namespace Checked

namespace Ring

/-- Gives up every block in front of a slot. -/
def retire (k place : Nat) (r : Ring) (out : Output) : Option (Ring × Output) :=
  if r.span = 0 ∨ r.front = place then some (r, out)
  else do
    let v ← r.view r.front
    let (v, out) ← v.sendBlock k .stale out
    let kept ← r.keep r.front v
    let next ← kept.free r.front
    next |>.retire k place out
partial_fixpoint

/-- Frees the slot of a block that has been worked on. -/
def close (r : Ring) (place : Nat) (v : View) : Option Ring := do
  let r ← r.keep place v
  r.free place

/-- Empties the block in a slot as far as possible.  Also tells whether the erasure code was used. -/
def forward (code : Code) (place : Nat) (recover : Bool) (r : Ring) (out : Output) :
    Option (Ring × Output × Except Fault (Option Nat)) := do
  let v ← r.view place
  let (v, out) ← v.sendBlock code.k .cutThrough out
  if v.block.cursor = code.k then
    let r ← r.close place v
    return (r, out, .ok none)
  else if recover && v.block.used = code.k then
    let rebuilt ← v.rebuild code
    match rebuilt with
    | .ok (v, count) =>
      let (v, out) ← v.sendBlock code.k .rebuilt out
      let r ← r.close place v
      return (r, out, .ok (some count))
    | .error fault =>
      let (v, out) ← v.sendBlock code.k .stale out
      let r ← r.close place v
      return (r, out, .error fault)
  else
    let r ← r.keep place v
    return (r, out, .ok none)

/-- Stores a fragment in a block, gives up the blocks in front of it and empties it. -/
def deposit (code : Code) (place fragment : Nat) (plain : Bytes) (recover : Bool) (r : Ring) (v : View)
    (out : Output) : Option (Ring × Output × Except Fault (Option Nat)) := do
  let v ← v.store fragment plain
  let r ← r.keep place v
  let (r, out) ← r.retire code.k place out
  r.forward code place recover out

end Ring

structure Assembly where
  key : Key
  code : Code
  ring : Ring
  /-- The number of the last fragment that was passed on. -/
  last : Option Nat

namespace Assembly

/-- Opens a packet in the buffer that it was copied to.  Tells the length of the message, which begins
the buffer then. -/
def openInPlace (key : Key) (nonce : UInt64) (clear buffer : Bytes) : Option (Except CipherFault (Nat × Bytes)) :=
  if buffer.length < Limits.tag then some (.error (.wrongLength Limits.tag buffer.length))
  else do
    let length ← sub buffer.length Limits.tag
    let (message, behind) ← split length buffer
    let tag ← Octets.ofBytes? Limits.tag behind
    if tag.val = (Cipher.Aead.tag key nonce clear message).val then
      return .ok (length, Cipher.Aead.crypt key nonce message ++ behind)
    else return .error .dataNotAuthentic

def authenticate (a : Assembly) (x : Arrival) : Option (Except Fault Bytes) :=
  if x.cipher.length < Limits.dataCipher then
    pure (.error (.truncated .dataCipher Limits.dataCipher x.cipher.length))
  else if Limits.blockIndex < x.block then pure (.error (.blockIndexOverflow x.block))
  else if a.code.n ≤ x.fragment then pure (.error (.fragmentIndexOverflow x.fragment a.code.n))
  else do
    let length ← sub x.cipher.length Limits.tag
    if a.ring.fragmentSize < length then
      let room ← add a.ring.fragmentSize Limits.tag
      return .error (.oversized room x.cipher.length)
    else
      let opened ← openInPlace a.key x.nonce x.clear x.cipher
      match opened with
      | .error fault => return .error (.cipher fault)
      | .ok (length, buffer) =>
        let plain ← slice buffer 0 length
        return .ok plain

/-- The report, the payloads in it and the state after some output. -/
def conclude (a : Assembly) (ring : Ring) (out : Output) (outcome : Except Fault DataOutcome)
    (rebuilt : Option Nat := none) : (Report × List Delivery) × Assembly :=
  (({ outcome, emissions := out.emissions, rebuilt, gaps := out.gaps }, out.deliveries),
    { a with ring, last := out.last })

/-- What is done with a block that has to go. -/
def evict (k : Nat) (v : View) (out : Output) : Option Output := do
  let (_, out) ← v.sendBlock k .stale out
  return out

def accept (a : Assembly) (block fragment : Nat) (plain : Bytes) (recover : Bool) :
    Option ((Report × List Delivery) × Assembly) := do
  let (slot, ring, out) ← a.ring.acquire (evict a.code.k) block { last := a.last }
  match slot with
  | none => return a.conclude ring out (.ok .outOfWindow)
  | some place =>
    let v ← ring.view place
    let here ← v.has fragment
    if here then return a.conclude ring out (.ok .duplicate)
    else
      let (ring, out, result) ← ring.deposit a.code place fragment plain recover v out
      match result with
      | .ok rebuilt => return a.conclude ring out (.ok .accepted) rebuilt
      | .error fault => return a.conclude ring out (.error fault)

/-- Handles one data packet. -/
def receive (a : Assembly) (x : Arrival) (recover : Bool) :
    Option ((Report × List Delivery) × Assembly) := do
  let opened ← a.authenticate x
  match opened with
  | .error fault => return (({ outcome := .error fault }, []), a)
  | .ok plain => a.accept x.block x.fragment plain recover

def of (a : AirLink.Assembly) : Assembly := ⟨a.key, Code.of a.code, Ring.of a.window, a.lastSequence⟩

end Assembly

variable {w : Window} {p k : Nat} {out : Output}

namespace Fitting

theorem size_le (fit : Fitting w) : w.fragmentSize ≤ Limits.memory := by
  have room := (fit.block_le fit.wellformed.front_lt)
  have block := Nat.le_mul_of_pos_right w.fragmentSize fit.counted
  omega

theorem sizedAt (fit : Fitting w) (few : w.fragmentCount ≤ Limits.shares) (hp : p < w.capacity) :
    Sized w.fragmentSize w.fragmentCount (w.slotAt p) where
  shaped := fit.shaped p hp
  room := (Nat.le_add_left ..).trans (fit.block_le hp)
  few := few
  numbered := fit.numbered p hp

end Fitting

theorem Sized.drain {size count : Nat} {s : Slot} (sized : Sized size count s) (mode : Mode) :
    Sized size count (s.drain k mode).1 :=
  ⟨⟨sized.shaped.length, sized.shaped.buffers⟩, sized.room, sized.few, sized.numbered⟩

namespace Ring

theorem modify_at (hp : p < w.capacity) (f : Slot → Slot) :
    (w.modify p fun _ => f (w.slotAt p)) = w.modify p f := by
  have slots := Array.toList_inj.mp ((slots_modify hp fun _ => f (w.slotAt p)).trans (slots_modify hp f).symm)
  exact congrArg (fun slots => { w with slots }) slots

theorem evicts_of (fit : Fitting w) (few : w.fragmentCount ≤ Limits.shares) (le : k ≤ w.fragmentCount) :
    Evicts w (Assembly.evict k) (fun s out => out.after k (s.drain k .stale).2) Output.Fits := by
  intro s out shaped numbered fits
  have room := (fit.sizedAt few fit.wellformed.front_lt).room
  obtain ⟨sent, fits⟩ := View.sendBlock_of ⟨shaped, room, few, numbered⟩ le .stale fits
  exact ⟨step sent rfl, fits⟩

/-- The loop ends, for the window gets shorter in every round. -/
theorem retire_of {fuel : Nat} (fit : Fitting w) (enough : w.span ≤ fuel) (few : w.fragmentCount ≤ Limits.shares)
    (le : k ≤ w.fragmentCount) (fits : out.Fits) :
    (of w).retire k p out =
        some (of (w.retireBefore k p fuel).1, out.after k (w.retireBefore k p fuel).2) ∧
      (out.after k (w.retireBefore k p fuel).2).Fits ∧ Fitting (w.retireBefore k p fuel).1 := by
  induction fuel generalizing w out with
  | zero =>
      have done : (of w).span = 0 ∨ (of w).front = p := .inl (Nat.le_zero.mp enough)
      rw [Window.retireBefore, Output.after_nil, retire]
      exact ⟨if_pos done, fits, fit⟩
  | succ fuel ih =>
      rw [Window.retireBefore, retire]
      by_cases done : w.span = 0 ∨ w.front = p
      · have same : (of w).span = 0 ∨ (of w).front = p := done
        rw [if_pos done, if_pos same, Output.after_nil]
        exact ⟨rfl, fits, fit⟩
      · have front := fit.wellformed.front_lt
        have sized := fit.sizedAt few front
        have shaped := (@Sized.drain k _ _ _ sized .stale).shaped
        obtain ⟨sent, fits⟩ := View.sendBlock_of sized le .stale fits
        let modified := w.modify w.front fun _ => ((w.slotAt w.front).drain k .stale).1
        have fitting : Fitting modified := fit.modify front rfl shaped
        have inside : w.front < modified.capacity := by rwa [Window.capacity_modify]
        have alike := (Window.alike_free modified w.front).trans (Window.alike_modify ..)
        have shorter : (modified.free w.front).span < w.span :=
          fitting.wellformed.span_free_front (show 0 < w.span by omega)
        obtain ⟨rest, fits, last⟩ := ih (fitting.free inside) (by omega)
          (by rwa [alike.fragmentCount]) (by rwa [alike.fragmentCount]) fits
        have other : ¬((of w).span = 0 ∨ (of w).front = p) := done
        rw [if_neg done, if_neg other]
        dsimp only
        rw [Output.after_append]
        refine ⟨?_, fits, last⟩
        apply step (view_of fit front)
        apply step sent
        apply step (keep_of fit front shaped)
        apply step (free_of fitting inside)
        exact rest

theorem close_of (fit : Fitting w) (hp : p < w.capacity) {s : Slot} (index : s.index = (w.slotAt p).index)
    (shaped : s.Shaped w.fragmentSize w.fragmentCount) :
    (of w).close p (View.of w.fragmentSize s) = some (of ((w.modify p fun _ => s).free p)) ∧
      Fitting ((w.modify p fun _ => s).free p) := by
  have fitting : Fitting (w.modify p fun _ => s) := fit.modify hp index shaped
  have inside : p < (w.modify p fun _ => s).capacity := by rwa [Window.capacity_modify]
  refine ⟨?_, fitting.free inside⟩
  apply step (keep_of fit hp shaped)
  exact free_of fitting inside

/-- What a block with another fragment comes to.  It cannot fail to be rebuilt. -/
theorem forward_of {a : AirLink.Assembly} (sound : ErasureCode.Sound a.code) (fit : Fitting w)
    (count : w.fragmentCount = a.code.n) (hp : p < w.capacity) {block : Nat}
    (holding : (w.slotAt p).Holding a.code w.fragmentSize block) (recover : Bool) (before : List Emission)
    (fits : out.Fits) :
    ∃ window emissions rebuilt,
      (of w).forward (Code.of a.code) p recover out =
        some (of window, out.after a.code.k emissions, .ok rebuilt) ∧
      a.forward w p recover before = a.conclude window (.ok .accepted) (before ++ emissions) rebuilt ∧
      (out.after a.code.k emissions).Fits ∧ Fitting window := by
  have sized := fit.sizedAt (count ▸ sound.few) hp
  rw [count] at sized
  obtain ⟨sent, fits⟩ := View.sendBlock_of sized sound.le .cutThrough fits
  have drained := holding.drain
  let slot := ((w.slotAt p).drain a.code.k .cutThrough).1
  have index : slot.index = (w.slotAt p).index := rfl
  have shaped : slot.Shaped w.fragmentSize w.fragmentCount := count ▸ drained.shaped
  by_cases all : slot.cursor = a.code.k
  · obtain ⟨closed, fitting⟩ := close_of fit hp index shaped
    refine ⟨_, _, none, ?_, ?_, fits, fitting⟩
    · apply step (view_of fit hp)
      apply step sent
      refine (if_pos all).trans ?_
      exact step closed rfl
    · simp only [AirLink.Assembly.forward]
      rw [if_pos all]
  by_cases full : recover = true ∧ slot.used = a.code.k
  · have again : (recover && decide (slot.used = a.code.k)) = true :=
      (Bool.and_eq_true ..).mpr ⟨full.1, decide_eq_true full.2⟩
    obtain ⟨buffers, lengths, filled⟩ := drained.rebuild_ok sound full.2
    have rebuilt := View.rebuild_of sound (sized.drain .cutThrough) drained full.2 fit.sized
    rw [filled] at rebuilt
    let refilled := slot.refill (slot.absent a.code.k) buffers
    have frame := @Slot.refill_frame slot (slot.absent a.code.k) buffers
    have sized : Sized w.fragmentSize a.code.n refilled :=
      ⟨drained.shaped.refill _ lengths, sized.room, sized.few, fun n here => sized.numbered n (frame.1 ▸ here)⟩
    obtain ⟨resent, fits⟩ := View.sendBlock_of sized sound.le .rebuilt fits
    obtain ⟨closed, fitting⟩ := close_of fit hp (s := (refilled.drain a.code.k .rebuilt).1) frame.1
      (by rw [count]; exact (sized.drain .rebuilt).shaped)
    rw [← Output.after_append] at resent fits
    refine ⟨_, _, some (slot.absent a.code.k).length, ?_, ?_, fits, fitting⟩
    · apply step (view_of fit hp)
      apply step sent
      refine (if_neg all).trans ((if_pos again).trans ?_)
      apply step rebuilt
      apply step resent
      exact step closed rfl
    · simp only [AirLink.Assembly.forward]
      rw [if_neg all, if_pos again]
      simp only [filled]
      rw [← List.append_assoc]
  · have again : ¬(recover && decide (slot.used = a.code.k)) = true := by
      rw [Bool.and_eq_true, decide_eq_true_eq]
      exact full
    refine ⟨w.modify p fun _ => slot, _, none, ?_, ?_, fits, fit.modify hp index shaped⟩
    · apply step (view_of fit hp)
      apply step sent
      refine (if_neg all).trans ((if_neg again).trans ?_)
      exact step (keep_of fit hp shaped) rfl
    · simp only [AirLink.Assembly.forward]
      rw [if_neg all, if_neg again]

theorem deposit_of {a : AirLink.Assembly} (sound : ErasureCode.Sound a.code) (fit : Fitting w) {before : List Nat}
    (row : w.openPlaces = before ++ [p]) (count : w.fragmentCount = a.code.n) {block fragment : Nat} {plain : Bytes}
    (holding : (w.slotAt p).Holding a.code w.fragmentSize block)
    (suits : Slot.Suits w.fragmentSize a.code.n fragment plain) (new : (w.slotAt p).has fragment = false)
    (recover : Bool) (evictions : List Emission) (fits : out.Fits) :
    ∃ window emissions rebuilt,
      (of w).deposit (Code.of a.code) p fragment plain recover (View.of w.fragmentSize (w.slotAt p)) out =
        some (of window, out.after a.code.k emissions, .ok rebuilt) ∧
      a.deposit w p fragment plain recover evictions =
        a.conclude window (.ok .accepted) (evictions ++ emissions) rebuilt ∧
      (out.after a.code.k emissions).Fits ∧ Fitting window := by
  have inside := fit.wellformed.lt_of_row row
  have few : w.fragmentCount ≤ Limits.shares := count ▸ sound.few
  have sized := fit.sizedAt few inside
  have shaped := sized.shaped.store fragment plain
  have used : (w.slotAt p).used < 2 ^ 63 := by
    have most := List.length_filter_le (w.slotAt p).has (List.range a.code.n)
    have limits : Limits.shares < 2 ^ 63 := by decide
    rw [← holding.used, List.length_range, ← count] at most
    omega
  let stored := w.modify p (·.store fragment plain)
  have fitting : Fitting stored := fit.modify inside rfl shaped
  have keeps := keep_of fit inside shaped
  rw [modify_at inside (·.store fragment plain)] at keeps
  obtain ⟨narrowed, there⟩ := Assembly.retire_stored a.code.k fit.wellformed fit.shaped row fragment plain
  have alike := narrowed.alike.trans (Window.alike_modify ..)
  obtain ⟨retired, fits, left⟩ := retire_of (p := p) fitting (Nat.le_refl _) few (count ▸ sound.le) fits
  have holds : ((stored.retire a.code.k p).1.slotAt p).Holding a.code (stored.retire a.code.k p).1.fragmentSize
      block := by
    rw [there, alike.fragmentSize]
    exact holding.store suits new
  have remains : (stored.retire a.code.k p).1.openPlaces = [] ++ p :: [] := narrowed.row
  obtain ⟨window, emissions, rebuilt, forwarded, concluded, fits, last⟩ := forward_of sound left
    (alike.fragmentCount.trans count) (left.wellformed.lt_of_row remains) holds recover
    (evictions ++ (stored.retire a.code.k p).2) fits
  rw [← Output.after_append] at forwarded fits
  refine ⟨window, _, rebuilt, ?_, ?_, fits, last⟩
  · apply step (View.store_of sized (count ▸ suits.lt) suits.fits used)
    apply step keeps
    apply step retired
    exact forwarded
  · rw [← List.append_assoc]
    exact concluded

end Ring

namespace Assembly

variable {a : AirLink.Assembly}

theorem openInPlace_eq (key : Key) (nonce : UInt64) (clear buffer : Bytes) :
    ∃ rest : Bytes, openInPlace key nonce clear buffer =
      some ((Cipher.Aead.decrypt key nonce clear buffer).map fun plain => (plain.length, plain ++ rest)) := by
  unfold openInPlace Cipher.Aead.decrypt
  by_cases short : buffer.length < Limits.tag
  · rw [if_pos short, if_pos short]
    exact ⟨[], rfl⟩
  rw [if_neg short, if_neg short]
  have length : (buffer.drop (buffer.length - Limits.tag)).length = Limits.tag := by
    rw [List.length_drop]
    omega
  refine ⟨buffer.drop (buffer.length - Limits.tag), ?_⟩
  apply step (sub_eq (Nat.le_of_not_lt short))
  apply step (split_eq (Nat.sub_le ..))
  apply step (Packet.ofBytes?_eq length)
  dsimp only
  split
  · rw [Except.map, Cipher.Aead.length_crypt, List.length_take_of_le (Nat.sub_le ..)]
    rfl
  · rfl

/-- An assembly of which the window fits and the last number is that of a fragment. -/
structure Fit (a : AirLink.Assembly) : Prop where
  ready : a.Ready
  window : Fitting a.window
  last : ∀ last, a.lastSequence = some last → last < 2 ^ 63

theorem authenticate_of (fit : Fit a) (x : Arrival) : (of a).authenticate x = some (a.authenticate x) := by
  have size : (of a).ring.fragmentSize = a.window.fragmentSize := rfl
  unfold authenticate AirLink.Assembly.authenticate
  refine check_eq fun cut => check_eq fun _ => check_eq (c := a.code.n ≤ x.fragment) fun _ => ?_
  have tagged : Limits.tag ≤ Limits.dataCipher := by decide
  have long : Limits.tag ≤ x.cipher.length := tagged.trans (Nat.le_of_not_lt cut)
  apply step (sub_eq long)
  rw [size]
  by_cases large : a.window.fragmentSize < x.cipher.length - Limits.tag
  · have exceeds : a.window.fragmentSize + Limits.tag < x.cipher.length := by omega
    have memory : Limits.memory + Limits.tag < 2 ^ 64 := by decide
    have small := fit.window.size_le
    rw [if_pos large, if_pos exceeds]
    exact step (add_eq (show a.window.fragmentSize + Limits.tag < 2 ^ 64 by omega)) rfl
  · have under : ¬a.window.fragmentSize + Limits.tag < x.cipher.length := by omega
    rw [if_neg large, if_neg under]
    obtain ⟨rest, opened⟩ := openInPlace_eq a.key x.nonce x.clear x.cipher
    apply step opened
    cases Cipher.Aead.decrypt a.key x.nonce x.clear x.cipher with
    | error fault => rfl
    | ok plain =>
        have inside : plain.length ≤ (plain ++ rest).length := by
          rw [List.length_append]
          exact Nat.le_add_right ..
        refine step (slice_front inside) ?_
        rw [List.take_left]
        rfl

/-- What is concluded from some output is what is concluded from the emissions in it. -/
theorem conclude_of (window : Window) (outcome : Except Fault DataOutcome) (emissions : List Emission)
    (rebuilt : Option Nat) :
    conclude (of a) (Ring.of window) (Output.after a.code.k { last := a.lastSequence } emissions) outcome rebuilt =
      (((a.conclude window outcome emissions rebuilt).1, (a.conclude window outcome emissions rebuilt).1.deliveries),
        of (a.conclude window outcome emissions rebuilt).2) := rfl

/-- Each way through the packet ends with a conclusion. -/
theorem accept_concludes (fit : Fit a) {block fragment : Nat} {plain : Bytes} (number : block ≤ Limits.blockIndex)
    (suits : Slot.Suits a.window.fragmentSize a.code.n fragment plain) (recover : Bool) :
    ∃ window outcome emissions rebuilt,
      (of a).accept block fragment plain recover = some (conclude (of a) (Ring.of window)
        (Output.after a.code.k { last := a.lastSequence } emissions) outcome rebuilt) ∧
      a.accept block fragment plain recover = a.conclude window outcome emissions rebuilt ∧
      (Output.after a.code.k { last := a.lastSequence } emissions).Fits ∧ Fitting window := by
  have sound := fit.ready.sound
  have count := fit.ready.count
  have limits : Limits.shares < 2 ^ 63 := by decide
  have few : a.window.fragmentCount ≤ Limits.shares := count ▸ sound.few
  have le : a.code.k ≤ a.window.fragmentCount := count ▸ sound.le
  have start : Output.Fits { last := a.lastSequence } := fit.last
  obtain ⟨acquired, fits, fitting⟩ := Ring.acquire_of fit.window (Ring.evicts_of fit.window few le) start number
  rw [Output.after_flatMap] at acquired fits
  cases slot : (a.window.acquire block).slot with
  | none =>
      rw [slot] at acquired
      refine ⟨_, .ok .outOfWindow, _, none, step acquired rfl, ?_, fits, fitting⟩
      simp only [AirLink.Assembly.accept, slot]
  | some p =>
      rw [slot] at acquired
      obtain ⟨before, -, -, alike, row, holding⟩ := fit.ready.acquire_holding slot
      have inside := fitting.wellformed.lt_of_row row
      have sized := fitting.sizedAt (by rwa [alike.fragmentCount]) inside
      rw [alike.fragmentCount, count] at sized
      have view := Ring.view_of fitting inside
      have look := View.has_of sized suits.lt
      cases has : ((a.window.acquire block).window.slotAt p).has fragment with
      | true =>
          rw [has] at look
          refine ⟨_, .ok .duplicate, _, none, ?_, ?_, fits, fitting⟩
          · apply step acquired
            apply step view
            exact step look rfl
          · simp only [AirLink.Assembly.accept, slot, has]
            rfl
      | false =>
          rw [has] at look
          obtain ⟨window, emissions, rebuilt, deposited, concluded, fits, fitting⟩ := Ring.deposit_of sound
            fitting row (alike.fragmentCount.trans count) (alike.fragmentSize.symm ▸ holding)
            (alike.fragmentSize.symm ▸ suits) has recover
            ((a.window.acquire block).evicted.flatMap fun s => (s.drain a.code.k .stale).2) fits
          rw [← Output.after_append] at deposited fits
          refine ⟨window, .ok .accepted, _, rebuilt, ?_, ?_, fits, fitting⟩
          · apply step acquired
            apply step view
            apply step look
            exact step deposited rfl
          · simp only [AirLink.Assembly.accept, slot, has]
            exact concluded

theorem accept_of (fit : Fit a) {block fragment : Nat} {plain : Bytes} (number : block ≤ Limits.blockIndex)
    (suits : Slot.Suits a.window.fragmentSize a.code.n fragment plain) (recover : Bool) :
    (of a).accept block fragment plain recover =
      some (((a.accept block fragment plain recover).1, (a.accept block fragment plain recover).1.deliveries),
        of (a.accept block fragment plain recover).2) ∧
      Fit (a.accept block fragment plain recover).2 := by
  obtain ⟨window, outcome, emissions, rebuilt, checked, concluded, fits, fitting⟩ :=
    accept_concludes fit number suits recover
  have ready := Assembly.Taken.ready fit.ready suits (AirLink.Assembly.accept_frame a block fragment plain recover).1
    (fit.ready.accept suits recover)
  rw [concluded] at ready ⊢
  exact ⟨checked.trans (congrArg some (conclude_of ..)), ready, fitting, fits⟩

theorem receive_of (fit : Fit a) (x : Arrival) (recover : Bool) :
    (of a).receive x recover =
        some (((a.receive x recover).1, (a.receive x recover).1.deliveries), of (a.receive x recover).2) ∧
      Fit (a.receive x recover).2 := by
  have opened := authenticate_of fit x
  unfold AirLink.Assembly.receive
  cases result : a.authenticate x with
  | error fault =>
      rw [result] at opened
      exact ⟨step opened rfl, fit⟩
  | ok plain =>
      rw [result] at opened
      obtain ⟨number, suits⟩ := AirLink.Assembly.authenticate_ok result
      obtain ⟨accepted, fits⟩ := accept_of fit number suits recover
      exact ⟨step opened accepted, fits⟩

end Assembly

end Checked

end AirLink
