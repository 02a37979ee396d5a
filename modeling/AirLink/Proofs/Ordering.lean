import AirLink.Proofs.Admission
import AirLink.Proofs.Packets

/-! # The order of deliveries

Counting `k` numbers for every block, what leaves in one step has ascending numbers between two
marks: how far the assembly had come before the step, and how far it has come after it.  The steps of
a run follow one another at these marks, so nothing ever leaves twice or out of order, whatever is
received.
-/

namespace AirLink

namespace Emission

/-- The block that a fragment leaves. -/
def block : Emission → Nat
  | passed block _ _ _ => block
  | lost block _ => block

def fragment : Emission → Nat
  | passed _ fragment _ _ => fragment
  | lost _ fragment => fragment

def number (k : Nat) (e : Emission) : Nat := e.block * k + e.fragment

/-- Data fragments leave with ascending numbers between two marks. -/
structure Within (k low high : Nat) (es : List Emission) : Prop where
  le : low ≤ high
  fragment : ∀ e ∈ es, e.fragment < k
  range : ∀ e ∈ es, low ≤ e.number k ∧ e.number k < high
  ascending : es.Pairwise fun e f => e.number k < f.number k

variable {k low mid high : Nat}

theorem Within.nil (le : low ≤ high) : Within k low high [] := ⟨le, by simp, by simp, .nil⟩

theorem Within.append {first second : List Emission} (h : Within k low mid first)
    (h' : Within k mid high second) : Within k low high (first ++ second) where
  le := h.le.trans h'.le
  fragment e he := (List.mem_append.mp he).elim (h.fragment e) (h'.fragment e)
  range e he := by
    have le := h.le
    have le' := h'.le
    rcases List.mem_append.mp he with he | he
    · have := h.range e he
      omega
    · have := h'.range e he
      omega
  ascending := by
    refine List.pairwise_append.mpr ⟨h.ascending, h'.ascending, ?_⟩
    intro e he f hf
    exact (h.range e he).2.trans_le (h'.range f hf).1

/-- A block in order: the fragments of a range of places. -/
theorem Within.map_range {block start count : Nat} (small : start + count ≤ k) {f : Nat → Emission}
    (isBlock : ∀ i, (f i).block = block) (isPlace : ∀ i, (f i).fragment = i) :
    Within k (block * k + start) (block * k + (start + count))
      ((List.range' start count).map f) := by
  have number (i : Nat) : (f i).number k = block * k + i := by rw [Emission.number, isBlock, isPlace]
  refine ⟨by omega, ?_, ?_, ?_⟩
  · intro e he
    obtain ⟨i, hi, rfl⟩ := List.mem_map.mp he
    rw [List.mem_range'_1] at hi
    rw [isPlace]
    omega
  · intro e he
    obtain ⟨i, hi, rfl⟩ := List.mem_map.mp he
    rw [List.mem_range'_1] at hi
    rw [number]
    omega
  · rw [List.pairwise_map]
    refine List.Pairwise.imp ?_ List.pairwise_lt_range'
    intro i j lt
    rw [number, number]
    omega

end Emission

namespace Slot

open Emission (Within)

variable {s : Slot} {code : ErasureCode} {size block : Nat}

theorem departure_block (s : Slot) (mode : Mode) (block i : Nat) :
    (s.departure mode block i).block = block := by
  unfold departure
  split_ifs <;> rfl

theorem departure_fragment (s : Slot) (mode : Mode) (block i : Nat) :
    (s.departure mode block i).fragment = i := by
  unfold departure
  split_ifs <;> rfl

theorem drain_within (index : s.index = some block) {k : Nat} (le : s.cursor ≤ k) (mode : Mode) :
    Within k (block * k + s.cursor) (block * k + (s.drain k mode).1.cursor) (s.drain k mode).2 := by
  have run := Within.map_range (cursor_drain_le le mode) (s.departure_block mode block)
    (s.departure_fragment mode block)
  rw [emissions_drain index, leaving_eq]
  exact run

/-- How far a block that stays open has come, or the end of one that does not. -/
def mark (k block : Nat) : Option Slot → Nat
  | none => (block + 1) * k
  | some s => block * k + s.cursor

theorem drain_all_within (index : s.index = some block) {k : Nat} (le : s.cursor ≤ k) {mode : Mode}
    (all : mode ≠ .cutThrough) :
    Within k (mark k block (some s)) (mark k block none) (s.drain k mode).2 := by
  have run := drain_within index le mode
  rw [cursor_drain_all le all] at run
  rw [mark, Nat.succ_mul]
  exact run

theorem Settled.within (sound : ErasureCode.Sound code) (h : s.Holding code size block) {recover : Bool}
    {emissions : List Emission} {rest : Option Slot} (settled : Settled code recover s emissions rest) :
    Within code.k (mark code.k block (some s)) (mark code.k block rest) emissions := by
  have cut := drain_within h.index h.cursor_le .cutThrough
  cases settled with
  | complete all =>
      rw [all] at cut
      rw [mark, mark, Nat.succ_mul]
      exact cut
  | waiting => exact cut
  | rebuilt gap allowed full rebuild =>
      obtain ⟨buffers, -, filled⟩ := h.drain.rebuild_ok sound full
      rw [rebuild, Except.ok.injEq, Prod.mk.injEq] at filled
      obtain ⟨rfl, -⟩ := filled
      obtain ⟨index, cursor, -⟩ := refill_frame (s := (s.drain code.k .cutThrough).1)
        ((s.drain code.k .cutThrough).1.absent code.k) buffers
      have rest := drain_all_within (index.trans h.index)
        (cursor.le.trans (cursor_drain_le h.cursor_le _)) (show Mode.rebuilt ≠ .cutThrough by simp)
      simp only [mark, cursor] at rest
      exact cut.append rest

end Slot

namespace Assembly

open Emission (Within)

variable {a : Assembly}

/-- How far an assembly has come: every number below it has been dealt with. -/
def frontier (a : Assembly) : Nat :=
  match a.window.last with
  | none => 0
  | some last => Slot.mark a.code.k last a.window.live.head?

theorem lost_within {k low high : Nat} {below : List Nat} (ascending : below.Pairwise (· < ·))
    (between : ∀ i ∈ below, low ≤ i ∧ i < high) (le : low ≤ high) :
    Within k (low * k) (high * k) (below.flatMap fun i => (List.range k).map (Emission.lost i)) := by
  induction below generalizing low with
  | nil => exact .nil (Nat.mul_le_mul_right k le)
  | cons i below ih =>
      obtain ⟨first, ascending⟩ := List.pairwise_cons.mp ascending
      have here := between i (List.mem_cons_self ..)
      have block := @Within.map_range k i 0 k (by omega) (Emission.lost i) (fun _ => rfl) fun _ => rfl
      have rest := @ih (i + 1) ascending (fun j hj => by
        have := first j hj
        have := between j (List.mem_cons_of_mem _ hj)
        omega) (by omega)
      rw [← List.range_eq_range'] at block
      rw [List.flatMap_cons]
      have start : low * k ≤ i * k := Nat.mul_le_mul_right k here.1
      rw [Nat.succ_mul] at rest
      simp only [Nat.add_zero, Nat.zero_add] at block
      exact ((Within.nil start).append block).append rest

/-- Taking in a fragment makes the assembly come further, and what leaves lies in between. -/
theorem Taken.within (h : a.Ready) {block fragment : Nat} {plain : Bytes}
    (suits : Slot.Suits a.window.fragmentSize a.code.n fragment plain) {recover : Bool}
    {r : Report} {next : Assembly} (code : next.code = a.code)
    (taken : a.Taken block fragment plain recover r next) :
    Within a.code.k a.frontier next.frontier r.emissions := by
  cases taken with
  | late _ _ _ _ _ emissions window =>
      rw [emissions, frontier, frontier, code, window]
      exact .nil (le_refl _)
  | duplicate _ _ _ _ _ emissions window =>
      rw [emissions, frontier, frontier, code, window]
      exact .nil (le_refl _)
  | stored s rest live _ new settled _ window =>
      obtain ⟨last, isLast, holding⟩ := h.holding_of_live live
      have run := settled.within h.sound (holding.store suits new)
      have after : next.frontier = Slot.mark a.code.k last rest := by
        simp only [frontier, window.last, isLast, window.live, code]
        cases rest <;> rfl
      rw [after]
      simp only [frontier, isLast, live]
      exact run
  | opened fresh below emissions rest above isFresh ascending between settled _ split window =>
      have new := isFresh.not_has fragment
      have run := settled.within h.sound (isFresh.holding.store suits new)
      have after : next.frontier = Slot.mark a.code.k block rest := by
        simp only [frontier, window.last, window.live, code]
        cases rest <;> rfl
      have start : Slot.mark a.code.k block (some (fresh.store fragment plain)) = block * a.code.k := by
        simp [Slot.mark, Slot.store, isFresh.cursor]
      rw [start] at run
      rw [after, split]
      -- First the open block is flushed, then the skipped blocks are lost.
      refine Within.append ?_ run
      cases isLast : a.window.last with
      | none =>
          have none := h.live_of_unused isLast
          have lost := @lost_within a.code.k 0 block below ascending
            (fun i hi => ⟨Nat.zero_le _, (between i hi).1⟩) (Nat.zero_le _)
          simp only [frontier, isLast, none]
          rwa [Nat.zero_mul] at lost
      | some last =>
          have lost := @lost_within a.code.k (last + 1) block below ascending
            (fun i hi => ⟨(between i hi).2 last isLast, (between i hi).1⟩) (above last isLast)
          refine Within.append ?_ lost
          rcases h.newest with none | ⟨s, _, one, same, holding⟩
          · simp only [frontier, isLast, none]
            exact .nil (le_refl _)
          · rw [isLast, Option.some.injEq] at same
            subst same
            simp only [frontier, isLast, one, List.flatMap_singleton]
            exact Slot.drain_all_within holding.index holding.cursor_le (by simp)

theorem Ready.receive_within (h : a.Ready) (x : Arrival) (recover : Bool) :
    Within a.code.k a.frontier (a.receive x recover).2.frontier (a.receive x recover).1.emissions := by
  unfold Assembly.receive
  cases opened : a.authenticate x with
  | error fault => exact .nil (le_refl _)
  | ok plain =>
      obtain ⟨-, suits⟩ := authenticate_ok opened
      exact (h.accept suits recover).within h suits (accept_frame ..).1

/-- The newest block is one that has been accepted. -/
theorem Ready.receive_last (h : a.Ready) (x : Arrival) (recover : Bool) :
    (a.receive x recover).2.window.last = a.window.last ∨
      (a.receive x recover).1.outcome = .ok .accepted ∧
        (a.receive x recover).2.window.last = some x.block := by
  unfold Assembly.receive
  cases opened : a.authenticate x with
  | error fault => exact .inl rfl
  | ok plain =>
      obtain ⟨-, suits⟩ := authenticate_ok opened
      cases h.accept suits recover with
      | late _ _ _ _ _ _ window => exact .inl (congrArg Window.last window)
      | duplicate _ _ _ _ _ _ window => exact .inl (congrArg Window.last window)
      | stored _ _ _ _ _ _ _ window => exact .inl window.last
      | opened _ _ _ _ _ _ _ _ _ outcome _ window => exact .inr ⟨outcome, window.last⟩

/-- Nothing beyond the newest block has been dealt with. -/
theorem Ready.block_le (h : a.Ready) {block fragment : Nat}
    (dealt : block * a.code.k + fragment < a.frontier) :
    ∃ last, a.window.last = some last ∧ block ≤ last := by
  unfold frontier at dealt
  cases isLast : a.window.last with
  | none => simp [isLast] at dealt
  | some last =>
      refine ⟨last, rfl, ?_⟩
      have mark_le : Slot.mark a.code.k last a.window.live.head? ≤ (last + 1) * a.code.k := by
        rcases h.newest with none | ⟨s, _, one, same, holding⟩
        · simp [none, Slot.mark]
        · have := holding.cursor_le
          simp only [one, List.head?_cons, Slot.mark, Nat.succ_mul]
          omega
      simp only [isLast] at dealt
      by_contra beyond
      have := Nat.mul_le_mul_right a.code.k (show last + 1 ≤ block by omega)
      omega

def run (a : Assembly) : List (Arrival × Bool) → List Report × Assembly
  | [] => ([], a)
  | (x, recover) :: rest =>
    let (report, next) := a.receive x recover
    let (reports, final) := next.run rest
    (report :: reports, final)

/-- The steps of a run follow one another. -/
theorem Ready.run_within (h : a.Ready) (calls : List (Arrival × Bool)) :
    Within a.code.k a.frontier (a.run calls).2.frontier ((a.run calls).1.flatMap Report.emissions) := by
  induction calls generalizing a with
  | nil => exact .nil (le_refl _)
  | cons call calls ih =>
      obtain ⟨x, recover⟩ := call
      obtain ⟨ready, code, -⟩ := h.receive x recover
      have rest := ih ready
      rw [code] at rest
      exact (h.receive_within x recover).append rest

/-- What leaves in a step belongs to no block beyond those accepted by then. -/
theorem Ready.run_accepted (h : a.Ready) (calls : List (Arrival × Bool)) {i : Nat} {r : Report}
    (step : (a.run calls).1[i]? = some r) {e : Emission} (he : e ∈ r.emissions) :
    (∃ last, a.window.last = some last ∧ e.block ≤ last) ∨
      ∃ j x recover report, j ≤ i ∧ calls[j]? = some (x, recover) ∧
        (a.run calls).1[j]? = some report ∧ report.outcome = .ok .accepted ∧ e.block ≤ x.block := by
  induction calls generalizing a i with
  | nil => simp [run] at step
  | cons call calls ih =>
      obtain ⟨x, recover⟩ := call
      obtain ⟨ready, code, -⟩ := h.receive x recover
      -- The newest block after a step was the newest before it, or the step has accepted it.
      have known {last : Nat} (isLast : (a.receive x recover).2.window.last = some last)
          (le : e.block ≤ last) :
          (∃ last, a.window.last = some last ∧ e.block ≤ last) ∨
            (a.receive x recover).1.outcome = .ok .accepted ∧ e.block ≤ x.block := by
        rcases h.receive_last x recover with same | ⟨outcome, entered⟩
        · exact .inl ⟨last, same ▸ isLast, le⟩
        · rw [entered, Option.some.injEq] at isLast
          exact .inr ⟨outcome, isLast ▸ le⟩
      cases i with
      | zero =>
          obtain rfl : (a.receive x recover).1 = r := Option.some.inj step
          have dealt := ((h.receive_within x recover).range e he).2
          rw [Emission.number, ← code] at dealt
          obtain ⟨last, isLast, le⟩ := ready.block_le dealt
          refine (known isLast le).imp_right fun accepted => ?_
          exact ⟨0, x, recover, _, le_refl _, rfl, rfl, accepted⟩
      | succ i =>
          rcases ih ready step with
            ⟨last, isLast, le⟩ | ⟨j, y, allowed, report, before, call, result, accepted⟩
          · refine (known isLast le).imp_right fun accepted => ?_
            exact ⟨0, x, recover, _, Nat.zero_le _, rfl, rfl, accepted⟩
          · exact .inr ⟨j + 1, y, allowed, report, Nat.succ_le_succ before, call, result, accepted⟩

end Assembly

/-- A fragment with what it holds, and whether the erasure code may be used when it arrives. -/
structure Intake where
  block : Nat
  fragment : Nat
  plain : Bytes
  recover : Bool
  deriving DecidableEq, Repr

/-- A packet with the fragment can be opened where blocks have `n` fragments of at most `size` bytes. -/
def Intake.Fits (n size : Nat) (x : Intake) : Prop :=
  x.block ≤ Limits.blockIndex ∧ x.fragment < n ∧ Limits.fragmentHeader ≤ x.plain.length ∧ x.plain.length ≤ size

instance (n size : Nat) (x : Intake) : Decidable (x.Fits n size) := inferInstanceAs (Decidable (_ ∧ _))

/-! ## Runs of sealed fragments -/

namespace Assembly

variable {a : Assembly} {x : Intake}

/-- The packets in which some fragments are sealed. -/
def sealedCalls (key : Key) (fragments : List Intake) : List (Arrival × Bool) :=
  fragments.map fun x => (Packet.sealed key x.block x.fragment x.plain, x.recover)

/-- What comes of fragments whose packets have been opened. -/
def takeIn (a : Assembly) : List Intake → List Report × Assembly
  | [] => ([], a)
  | x :: rest =>
    let (report, next) := a.accept x.block x.fragment x.plain x.recover
    let (reports, final) := next.takeIn rest
    (report :: reports, final)

theorem authenticate_fits (fits : x.Fits a.code.n a.window.fragmentSize) :
    a.authenticate (Packet.sealed a.key x.block x.fragment x.plain) = .ok x.plain :=
  authenticate_sealed fits.1 fits.2.1 fits.2.2.1 fits.2.2.2

theorem receive_sealed (fits : x.Fits a.code.n a.window.fragmentSize) :
    a.receive (Packet.sealed a.key x.block x.fragment x.plain) x.recover =
      a.accept x.block x.fragment x.plain x.recover := by
  rw [Assembly.receive, authenticate_fits fits]
  rfl

/-- The assembly after a sealed fragment has the same key, and the same fragments fit it. -/
theorem Ready.accept_sealed (h : a.Ready) (fits : x.Fits a.code.n a.window.fragmentSize) :
    let next := (a.accept x.block x.fragment x.plain x.recover).2
    next.Ready ∧ next.key = a.key ∧ next.code = a.code ∧ next.window.fragmentSize = a.window.fragmentSize := by
  obtain ⟨ready, code, key⟩ := h.receive (Packet.sealed a.key x.block x.fragment x.plain) x.recover
  have alike := h.receive_alike (Packet.sealed a.key x.block x.fragment x.plain) x.recover
  rw [receive_sealed fits] at ready code key alike
  exact ⟨ready, key, code, alike.fragmentSize⟩

theorem Ready.run_takeIn (h : a.Ready) {fragments : List Intake}
    (fits : ∀ x ∈ fragments, x.Fits a.code.n a.window.fragmentSize) :
    a.run (sealedCalls a.key fragments) = a.takeIn fragments := by
  induction fragments generalizing a with
  | nil => rfl
  | cons x fragments ih =>
      obtain ⟨here, others⟩ := List.forall_mem_cons.mp fits
      obtain ⟨ready, key, code, size⟩ := h.accept_sealed here
      rw [← code, ← size] at others
      have rest := ih ready others
      rw [key] at rest
      unfold sealedCalls at rest ⊢
      simp only [List.map_cons, Assembly.run, receive_sealed here, rest, takeIn]

theorem run_takeIn {key : Key} {k n slots size : Nat} (created : create key k n slots size = .ok a)
    {fragments : List Intake} (fits : ∀ x ∈ fragments, x.Fits n size) :
    a.run (sealedCalls key fragments) = a.takeIn fragments := by
  obtain ⟨ready, -, -, isSize, isKey, -, isN⟩ := create_ready created
  rw [← isN, ← isSize] at fits
  rw [← isKey]
  exact ready.run_takeIn fits

end Assembly

theorem Emission.delivery_place {e : Emission} {d : Delivery} (h : e.delivery? = some d) :
    d.block = e.block ∧ d.fragment = e.fragment := by
  cases e with
  | passed block fragment recovered content =>
      obtain ⟨payload, -, rfl⟩ := Option.map_eq_some_iff.mp h
      exact ⟨rfl, rfl⟩
  | lost => simp [delivery?] at h

theorem Emission.Within.deliveries {k low high : Nat} {es : List Emission}
    (h : Within k low high es) :
    (es.filterMap delivery?).Pairwise fun d e =>
      d.block < e.block ∨ d.block = e.block ∧ d.fragment < e.fragment := by
  rw [List.pairwise_filterMap]
  refine h.ascending.imp_of_mem ?_
  intro e f he hf lt d hd d' hd'
  obtain ⟨block, place⟩ := delivery_place hd
  obtain ⟨block', place'⟩ := delivery_place hd'
  have small := h.fragment f hf
  rw [block, place, block', place']
  simp only [number] at lt
  by_contra late
  have le : f.block ≤ e.block := by omega
  rcases le.eq_or_lt with same | less
  · rw [same] at late lt
    omega
  · have := Nat.mul_le_mul_right k (Nat.succ_le_of_lt less)
    rw [Nat.succ_mul] at this
    omega

namespace Assembly

theorem flatMap_deliveries (reports : List Report) :
    reports.flatMap Report.deliveries =
      (reports.flatMap Report.emissions).filterMap Emission.delivery? := by
  rw [List.filterMap_flatMap]
  rfl

/-- Whatever an assembly receives, its deliveries over the whole run ascend strictly by block and
place, only data fragments are delivered, and none of a block beyond those accepted by then. -/
theorem deliveries_ascend {key : Key} {k n slots size : Nat} {a : Assembly}
    (created : create key k n slots size = .ok a) (calls : List (Arrival × Bool)) :
    ((a.run calls).1.flatMap Report.deliveries).Pairwise (fun d e =>
        d.block < e.block ∨ d.block = e.block ∧ d.fragment < e.fragment) ∧
      (∀ d ∈ (a.run calls).1.flatMap Report.deliveries, d.fragment < k) ∧
      ∀ (i : Nat) (report : Report), (a.run calls).1[i]? = some report → ∀ d ∈ report.deliveries,
        ∃ (j : Nat) (x : Arrival) (recover : Bool) (accepted : Report),
          j ≤ i ∧ calls[j]? = some (x, recover) ∧
          (a.run calls).1[j]? = some accepted ∧ accepted.outcome = .ok .accepted ∧
          d.block ≤ x.block := by
  obtain ⟨ready, -, none, -, -, rfl, -⟩ := create_ready created
  have within := ready.run_within calls
  refine ⟨?_, ?_, ?_⟩
  · rw [flatMap_deliveries]
    exact within.deliveries
  · intro d hd
    rw [flatMap_deliveries] at hd
    obtain ⟨e, he, delivered⟩ := List.mem_filterMap.mp hd
    rw [(Emission.delivery_place delivered).2]
    exact within.fragment e he
  · intro i report step d hd
    obtain ⟨e, he, delivered⟩ := List.mem_filterMap.mp hd
    rw [(Emission.delivery_place delivered).1]
    rcases ready.run_accepted calls step he with ⟨last, isLast, -⟩ | accepted
    · rw [none] at isLast
      cases isLast
    · exact accepted

/-- Block 0 has lost its first fragment, which is rebuilt; its second one comes again, too late.  Of block 2
one fragment comes twice, and block 1 has been passed by when one of its fragments comes. -/
def disordered : List Intake :=
  [⟨0, 1, [0, 0, 1, 7], true⟩, ⟨0, 2, [0, 0, 1, 21], true⟩, ⟨0, 1, [0, 0, 1, 7], true⟩,
    ⟨2, 0, [0, 0, 1, 8], true⟩, ⟨2, 0, [0, 0, 1, 8], true⟩, ⟨1, 0, [0, 0, 1, 5], true⟩,
    ⟨2, 1, [0, 0, 1, 6], true⟩]

theorem deliveries_ascend_disordered :
    let key : Key := ⟨Bytes.zeros 32, rfl⟩
    let run (a : Assembly) := a.run (sealedCalls key disordered)
    ∃ a, create key 2 3 2 16 = .ok a ∧
      (run a).1.map Report.outcome = [.ok .accepted, .ok .accepted, .ok .outOfWindow, .ok .accepted,
        .ok .duplicate, .ok .outOfWindow, .ok .accepted] ∧
      (run a).1.flatMap Report.deliveries =
        [⟨0, 0, true, [9]⟩, ⟨0, 1, false, [7]⟩, ⟨2, 0, false, [8]⟩, ⟨2, 1, false, [6]⟩] ∧
      ((run a).1.flatMap Report.deliveries).Pairwise (fun d e =>
        d.block < e.block ∨ d.block = e.block ∧ d.fragment < e.fragment) ∧
      (∀ d ∈ (run a).1.flatMap Report.deliveries, d.fragment < 2) ∧
      ∀ (i : Nat) (report : Report), (run a).1[i]? = some report → ∀ d ∈ report.deliveries,
        ∃ (j : Nat) (x : Arrival) (recover : Bool) (accepted : Report),
          j ≤ i ∧ (sealedCalls key disordered)[j]? = some (x, recover) ∧
          (run a).1[j]? = some accepted ∧ accepted.outcome = .ok .accepted ∧ d.block ≤ x.block := by
  intro key run
  have holds : ∀ a ∈ (create key 2 3 2 16).toOption,
      (a.takeIn disordered).1.map Report.outcome = [.ok .accepted, .ok .accepted, .ok .outOfWindow,
        .ok .accepted, .ok .duplicate, .ok .outOfWindow, .ok .accepted] ∧
      (a.takeIn disordered).1.flatMap Report.deliveries =
        [⟨0, 0, true, [9]⟩, ⟨0, 1, false, [7]⟩, ⟨2, 0, false, [8]⟩, ⟨2, 1, false, [6]⟩] := by
    decide +kernel
  obtain ⟨a, created, outcomes, delivered⟩ := create_holds (by decide) holds
  rw [← run_takeIn created (by decide)] at outcomes delivered
  obtain ⟨ascend, small, accepted⟩ := deliveries_ascend created (sealedCalls key disordered)
  exact ⟨a, created, outcomes, delivered, ascend, small, accepted⟩

end Assembly

end AirLink
