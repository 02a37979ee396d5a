import AirLink.Proofs.Completion
import AirLink.Proofs.Depth

/-! # An assembly between two packets

Whatever has been handed to an assembly, at most the newest block is open when the next packet comes.  Its
cursor stands at the first gap in front of the last data fragment, its buffers hold what has been opened for
it, and fewer than `k` of its fragments are there as long as the erasure code is allowed.  So the count
reaches `k` exactly once on the way to a block that still has a gap, and then there is a parity fragment for
every gap.
-/

namespace AirLink

namespace Slot

variable {s u : Slot} {code : ErasureCode} {size block : Nat} {recover : Bool} {left : Nat → Bytes}
  {given : List Intake}

/-- A block that waits for more, and what it has been given. -/
structure Stands (k n size : Nat) (given : List Intake) (s : Slot) : Prop where
  gap : s.cursor < k
  front : (List.range k).takeWhile (Intake.has given) = List.range s.cursor
  used : s.used = ((List.range n).filter fun i => 0 < s.lengthOf i).length
  received : s.has = Intake.has given
  buffer : ∀ y ∈ given, y.plain.length ≤ size ∧
    s.bufferOf y.fragment = y.plain ++ Bytes.zeros (size - y.plain.length)

/-- The block as the erasure code finds it, if its gaps are to be filled. -/
def recovering? (code : ErasureCode) (recover : Bool) (s : Slot) : Option Slot :=
  let s := (s.drain code.k .cutThrough).1
  if s.cursor ≠ code.k ∧ recover = true ∧ s.used = code.k then some s else none

theorem gain_eq_recovering? (code : ErasureCode) (recover : Bool) (s : Slot) :
    s.gain code recover = (s.recovering? code recover).map fun u => (u.absent code.k).length := by
  change _ = Option.map _ (if (s.drain code.k .cutThrough).1.cursor ≠ code.k ∧ recover = true ∧
    s.used = code.k then some _ else none)
  unfold gain
  split_ifs <;> rfl

/-- There is a gap to fill, and a parity fragment for every gap. -/
theorem Holding.recovering (h : s.Holding code size block) (sound : ErasureCode.Sound code)
    (entered : s.recovering? code recover = some u) :
    u.absent code.k ≠ [] ∧ (u.parity code.k code.n).length = (u.absent code.k).length := by
  unfold recovering? at entered
  simp only at entered
  split_ifs at entered with due
  obtain ⟨gap, -, full⟩ := due
  obtain rfl := Option.some.inj entered
  have count := h.drain.count full
  refine ⟨fun none => gap ?_, (ErasureCode.length_absent sound.le count).symm⟩
  have whole : (List.range code.k).takeWhile s.has = List.range code.k :=
    List.takeWhile_eq_self_iff.mpr fun i hi => by simpa using List.filter_eq_nil_iff.mp none i hi
  rw [h.prefix_drain] at whole
  exact Intake.range_inj.mp whole

theorem Pending.stands (pending : s.Pending code size left given) (h : s.Holding code size block)
    (gap : s.cursor ≠ code.k) (distinct : (given.map Intake.fragment).Nodup)
    (place : ∀ y ∈ given, y.fragment < code.n) (fits : ∀ y ∈ given, y.plain.length ≤ size) :
    s.Stands code.k code.n size given where
  gap := lt_of_le_of_ne h.cursor_le gap
  front := pending.front
  used := h.used
  received := pending.keeps.has
  buffer y hy := by
    have present : Intake.has given y.fragment = true := Intake.has_iff.mpr (List.mem_map_of_mem hy)
    obtain ⟨z, hz, same, plain⟩ := Intake.plainAt_of_has present
    obtain rfl := List.inj_on_of_nodup_map distinct hz hy same
    refine ⟨fits z hz, ?_⟩
    rw [pending.keeps.buffer z.fragment (place z hz), if_pos present, plain, fit_of_le (fits z hz)]

/-- As long as the erasure code is allowed, a block with `k` fragments does not wait. -/
theorem Pending.used_lt (pending : s.Pending code size left given) (pos : 0 < code.k)
    (allowed : ∀ y ∈ given, y.recover = true) : s.used < code.k := by
  rw [pending.keeps.used]
  by_contra many
  have there : code.k - 1 < given.length := by omega
  have used : Intake.rebuilt given code.k = true := by
    rw [Intake.rebuilt, List.getElem?_eq_getElem there]
    exact allowed _ (List.getElem_mem there)
  rw [pending.unused] at used
  cases used

end Slot

namespace Assembly

open Intake

variable {a : Assembly} {taken : List Intake}

/-- The block that the erasure code is called upon to complete on the arrival of a packet. -/
def recovering? (a : Assembly) (x : Arrival) (recover : Bool) : Option Slot :=
  match a.authenticate x with
  | .error _ => none
  | .ok plain =>
    let acquired := a.window.acquire x.block
    acquired.slot.bind fun place =>
      if (acquired.window.slotAt place).has x.fragment then none
      else
        let stored := acquired.window.modify place (·.store x.fragment plain)
        ((stored.retire a.code.k place).1.slotAt place).recovering? a.code recover

/-- The erasure code is used when it is called upon, and it always succeeds. -/
theorem Ready.recovering (h : a.Ready) (x : Arrival) (recover : Bool) :
    (a.receive x recover).1.rebuilt =
        (a.recovering? x recover).map (fun s => (s.absent a.code.k).length) ∧
      ∀ s, a.recovering? x recover = some s → s.absent a.code.k ≠ [] ∧
        (s.parity a.code.k a.code.n).length = (s.absent a.code.k).length := by
  unfold Assembly.receive recovering?
  cases opened : a.authenticate x with
  | error fault => exact ⟨rfl, fun s none => by cases none⟩
  | ok plain =>
      obtain ⟨-, suits⟩ := authenticate_ok opened
      simp only [Assembly.accept]
      cases slot : (a.window.acquire x.block).slot with
      | none => exact ⟨rfl, fun s none => by cases none⟩
      | some p =>
          obtain ⟨before, wellformed, shaped, alike, row, holding⟩ := h.acquire_holding slot
          simp only [Option.bind_some]
          split_ifs with has
          · exact ⟨rfl, fun s none => by cases none⟩
          have new := Bool.eq_false_iff.mpr has
          obtain ⟨-, here⟩ := retire_stored a.code.k wellformed shaped row x.fragment plain
          have stored := holding.store suits new
          rw [← alike.fragmentSize] at suits holding
          obtain ⟨-, -, -, -, -, rebuilt, -⟩ := store_settled h.sound wellformed shaped row
            (alike.fragmentCount.trans h.count) holding suits new recover
            ((a.window.acquire x.block).evicted.flatMap fun s => (s.drain a.code.k .stale).2)
          rw [here]
          exact ⟨rebuilt.trans (Slot.gain_eq_recovering? ..), fun s => stored.recovering h.sound⟩

/-- The last number that was passed on is that of the last emission that was. -/
theorem receive_lastSequence (a : Assembly) (x : Arrival) (recover : Bool) :
    (a.receive x recover).2.lastSequence = (((a.receive x recover).1.emissions.filterMap
      (Emission.sequence? a.code.k)).getLast?).or a.lastSequence := by
  unfold Assembly.receive
  cases a.authenticate x with
  | error fault => rfl
  | ok plain =>
      simp only [accept, forward]
      split
      · rfl
      split
      · rfl
      split
      · rfl
      split
      · split <;> rfl
      · rfl

theorem Ready.receive_behind (h : a.Ready) (x : Arrival) (recover : Bool)
    (behind : ∀ q, a.lastSequence = some q → q < a.frontier) :
    ∀ q, (a.receive x recover).2.lastSequence = some q → q < (a.receive x recover).2.frontier := by
  intro q isLast
  have within := h.receive_within x recover
  rw [receive_lastSequence, Option.or_eq_some_iff] at isLast
  rcases isLast with passed | ⟨-, old⟩
  · obtain ⟨e, he, number⟩ := List.mem_filterMap.mp (List.mem_of_getLast? passed)
    cases e with
    | passed block fragment recovered content =>
        obtain rfl := Option.some.inj number
        exact (within.range _ he).2
    | lost => cases number
  · exact (behind q old).trans_le within.le

theorem Ready.run_behind (h : a.Ready) (behind : ∀ q, a.lastSequence = some q → q < a.frontier)
    (calls : List (Arrival × Bool)) :
    ∀ q, (a.run calls).2.lastSequence = some q → q < (a.run calls).2.frontier := by
  refine (run_keeps (motive := fun b => b.Ready ∧ ∀ q, b.lastSequence = some q → q < b.frontier) ?_
    ⟨h, behind⟩ calls).2
  rintro b ⟨ready, behind⟩ x recover
  exact ⟨(ready.receive x recover).1, ready.receive_behind x recover behind⟩

theorem create_lastSequence {key : Key} {k n slots size : Nat} (created : create key k n slots size = .ok a) :
    a.lastSequence = none := by
  obtain ⟨code, window, -, -, rfl⟩ := create_eq_ok.mp created
  rfl

/-- Nothing beyond the newest block has been passed on. -/
theorem Ready.sequence_le (h : a.Ready) {q : Nat} (behind : q < a.frontier) :
    ∃ last, a.window.last = some last ∧ q ≤ last * a.code.k + a.code.k - 1 := by
  have pos := h.sound.pos
  have split : q / a.code.k * a.code.k + q % a.code.k = q := Nat.div_add_mod' ..
  obtain ⟨last, isLast, le⟩ := h.block_le (split.symm ▸ behind)
  have whole := Nat.mul_le_mul_right a.code.k le
  have rest := Nat.mod_lt q pos
  exact ⟨last, isLast, by omega⟩

theorem Informed.stands (h : Informed taken a) {s : Slot} (inside : s ∈ a.window.live) {b : Nat}
    (index : s.index = some b) :
    s.Stands a.code.k a.code.n a.window.fragmentSize (ofBlock taken b) ∧
      ((∀ y ∈ taken, y.recover = true) → s.used < a.code.k) := by
  obtain ⟨_, accounts⟩ := h.accounts
  have gap := h.gap s inside
  obtain ⟨live, last, isLast, holding⟩ := accounts.ready.live_of_mem inside
  obtain rfl := Option.some.inj (holding.index.symm.trans index)
  obtain ⟨left, account⟩ := accounts.blocks last
  have pending := account.pending s live isLast
  refine ⟨pending.stands holding gap (h.lawful.distinct last)
    (fun y hy => h.lawful.place y (mem_ofBlock.mp hy).1)
    (fun y hy => h.lawful.fits y (mem_ofBlock.mp hy).1), fun allowed => ?_⟩
  exact pending.used_lt accounts.ready.sound.pos fun y hy => allowed y (mem_ofBlock.mp hy).1

theorem recover_of_mem_intakes {calls : List (Arrival × Bool)} {y : Intake} (hy : y ∈ a.intakes calls)
    (allowed : ∀ call ∈ calls, call.2 = true) : y.recover = true := by
  induction calls generalizing a with
  | nil => cases hy
  | cons call calls ih =>
      obtain ⟨x, recover⟩ := call
      obtain ⟨here, rest⟩ := List.forall_mem_cons.mp allowed
      rcases List.mem_append.mp hy with first | later
      · obtain ⟨_, -, -, rfl⟩ := intake?_eq_some.mp (Option.mem_toList.mp first)
        exact here
      · exact ih later rest

/-- The state between two packets, whatever packets have come and whenever the erasure code was allowed.  The
window is empty or holds the newest block alone.  That block waits at its first gap and holds what has been
opened for it, with fewer than `k` fragments if the erasure code was always allowed.  Nothing behind the
newest block has been passed on.  And the erasure code is called upon only for a block with gaps, when as
many parity fragments have arrived. -/
theorem state_between_packets {key : Key} {k n slots size : Nat} {a : Assembly}
    (created : create key k n slots size = .ok a) (calls : List (Arrival × Bool)) :
    let now := (a.run calls).2
    (now.window.indices = [] ∨ ∃ last, now.window.last = some last ∧ now.window.indices = [last]) ∧
    (∀ p ∈ now.window.places, ∀ b, (now.window.slotAt p).index = some b →
      (now.window.slotAt p).Stands k n size (a.given calls b) ∧
        ((∀ call ∈ calls, call.2 = true) → (now.window.slotAt p).used < k)) ∧
    (∀ b, ∀ y ∈ a.given calls b, ∃ call ∈ calls,
      a.authenticate call.1 = .ok y.plain ∧ call.1.block = b ∧ call.1.fragment = y.fragment) ∧
    (∀ q, now.lastSequence = some q → ∃ last, now.window.last = some last ∧ q ≤ last * k + k - 1) ∧
    ∀ x recover, (now.receive x recover).1.rebuilt =
        (now.recovering? x recover).map (fun s => (s.absent k).length) ∧
      ∀ s, now.recovering? x recover = some s →
        s.absent k ≠ [] ∧ (s.parity k n).length = (s.absent k).length := by
  intro now
  obtain ⟨ready, -, -, isSize, -, isK, isN⟩ := create_ready created
  obtain ⟨code, size', -⟩ := ready.run_frame calls
  have informed := (informed_create created).run calls
  rw [List.nil_append] at informed
  obtain ⟨_, accounts⟩ := informed.accounts
  have behind := ready.run_behind (by rw [create_lastSequence created]; nofun) calls
  -- Code and sizes are those the assembly was created with.
  have k' : now.code.k = k := (congrArg ErasureCode.k code).trans isK
  have n' : now.code.n = n := (congrArg ErasureCode.n code).trans isN
  have room : now.window.fragmentSize = size := size'.trans isSize
  refine ⟨?_, fun p hp b index => ?_, fun b y hy => ?_, fun q isLast => ?_, fun x recover => ?_⟩
  · rw [Window.indices_eq_live]
    rcases accounts.ready.newest with none | ⟨s, last, live, isLast, holding⟩
    · exact .inl (by rw [none]; rfl)
    · exact .inr ⟨last, isLast, by rw [live]; simp [holding.index]⟩
  · have isOpen : now.window.isOpen p = true := by simp [Window.isOpen, index]
    have inside := List.mem_map_of_mem (f := now.window.slotAt) (Window.mem_openPlaces.mpr ⟨hp, isOpen⟩)
    obtain ⟨stands, few⟩ := informed.stands inside index
    rw [k', n', room] at stands
    rw [k'] at few
    exact ⟨stands, fun allowed => few fun y hy => recover_of_mem_intakes hy allowed⟩
  · obtain ⟨member, rfl⟩ := mem_ofBlock.mp hy
    obtain ⟨call, among, opened, block, fragment⟩ := mem_intakes ready member
    exact ⟨call, among, opened, block.symm, fragment.symm⟩
  · rw [← k']
    exact accounts.ready.sequence_le (behind q isLast)
  · rw [← k', ← n']
    exact accounts.ready.recovering x recover

/-- The first data fragment of a block of two, and its parity fragment. -/
def gapped : List Intake := [⟨0, 0, [0, 0, 0], true⟩, ⟨0, 2, [0, 0, 0], true⟩]

/-- After the first of them the block waits for its second fragment, which is rebuilt on the arrival of the
other. -/
theorem state_between_packets_waiting :
    let key : Key := ⟨Bytes.zeros 32, rfl⟩
    let calls := sealedCalls key (gapped.take 1)
    ∃ a, create key 2 3 1 16 = .ok a ∧ (a.run calls).2.window.indices = [0] ∧
      ((a.run calls).2.window.slotAt 0).Stands 2 3 16 (gapped.take 1) ∧
      ((a.run calls).2.window.slotAt 0).used < 2 ∧
      ∃ s, (a.run calls).2.recovering? (Packet.sealed key 0 2 [0, 0, 0]) true = some s ∧
        (s.absent 2).length = 1 ∧ (s.parity 2 3).length = 1 := by
  intro key calls
  have holds : ∀ a ∈ (create key 2 3 1 16).toOption, ofBlock (a.accepts (gapped.take 1)) 0 = gapped.take 1 ∧
      (a.takeIn (gapped.take 1)).2.window.indices = [0] ∧ (a.takeIn (gapped.take 1)).2.window.places = [0] ∧
      ((a.takeIn (gapped.take 1)).2.window.slotAt 0).index = some 0 ∧
      (a.takeIn gapped).1.map Report.rebuilt = [none, some 1] := by decide +kernel
  obtain ⟨a, created, accepted, indices, places, index, rebuilt⟩ := create_holds (by decide) holds
  obtain ⟨one, taken⟩ := run_sealed created (show ∀ x ∈ gapped.take 1, x.Fits 3 16 by decide)
  have both := run_takeIn created (show ∀ x ∈ gapped, x.Fits 3 16 by decide)
  have given : a.given calls 0 = gapped.take 1 := by rw [Assembly.given, taken, accepted]
  obtain ⟨-, stands, -, -, recovers⟩ := state_between_packets created calls
  rw [← one] at indices places index
  rw [← both] at rebuilt
  obtain ⟨stands, few⟩ := stands 0 (by rw [places]; decide) 0 index
  obtain ⟨filled, parity⟩ := recovers (Packet.sealed key 0 2 [0, 0, 0]) true
  have whole : sealedCalls key gapped = calls ++ [(Packet.sealed key 0 2 [0, 0, 0], true)] := rfl
  rw [whole, run_concat, List.map_append, List.map_singleton] at rebuilt
  replace rebuilt : _ ++ [_] = [none] ++ [some 1] := rebuilt
  rw [List.singleton_inj.mp (List.append_inj' rebuilt rfl).2] at filled
  obtain ⟨s, entered, absent⟩ := Option.map_eq_some_iff.mp filled.symm
  exact ⟨a, created, indices, given ▸ stands, few (by decide), s, entered, absent,
    (parity s entered).2.trans absent⟩

end Assembly

end AirLink
