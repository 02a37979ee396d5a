import AirLink.Proofs.Occupancy
import AirLink.Proofs.Verdict

/-! # When a block is complete

A block leaves the window when all its data fragments have arrived, or when the fragment that makes the
count exactly `k` finds the erasure code allowed.  Then each of its data fragments has been passed on, as
it arrived or rebuilt, and none has been given up.  If the erasure code is allowed only later, the block
waits with its gaps, whatever else of it arrives: it needs its data fragments, or is overtaken.
-/

namespace AirLink

/-- What becomes of a data fragment that leaves its block. -/
inductive Fate where
  | received
  | rebuilt
  | lost
  deriving DecidableEq, Repr

namespace Emission

def fate : Emission → Fate
  | passed _ _ recovered _ => if recovered then .rebuilt else .received
  | lost .. => .lost

/-- The places of a block that have been dealt with, in order, and what became of each. -/
def fates (es : List Emission) (b : Nat) : List (Nat × Fate) :=
  (es.filter (·.block = b)).map fun e => (e.fragment, e.fate)

variable {first second es : List Emission} {b c : Nat}

theorem fates_append (first second : List Emission) (b : Nat) :
    fates (first ++ second) b = fates first b ++ fates second b := by
  simp [fates]

theorem fates_of_other (others : ∀ e ∈ es, e.block ≠ b) : fates es b = [] := by
  rw [fates, List.filter_eq_nil_iff.mpr fun e he => by simpa using others e he, List.map_nil]

end Emission

namespace Slot

open Emission (fates fates_append)

variable {s : Slot} {code : ErasureCode} {size block : Nat} {recover : Bool} {emissions : List Emission}
  {rest : Option Slot}

theorem departure_fate (s : Slot) (mode : Mode) (block i : Nat) : (s.departure mode block i).fate =
    if s.has i then .received else if mode = .rebuilt then .rebuilt else .lost := by
  unfold departure
  split_ifs <;> rfl

theorem fates_drain (index : s.index = some block) (k : Nat) (mode : Mode) :
    fates (s.drain k mode).2 block = (s.leaving k mode).map fun i =>
      (i, if s.has i then .received else if mode = .rebuilt then .rebuilt else .lost) := by
  rw [fates, List.filter_eq_self.mpr fun e he => by simp [drain_block index k mode e he],
    emissions_drain index, List.map_map]
  refine List.map_congr_left fun i _ => ?_
  rw [Function.comp_apply, departure_fragment, departure_fate]

/-- What has left an open block has arrived. -/
theorem Holding.fates_cutThrough (h : s.Holding code size block) :
    (List.range s.cursor).map (·, Fate.received) ++ fates (s.drain code.k .cutThrough).2 block =
      (List.range (s.drain code.k .cutThrough).1.cursor).map (·, Fate.received) := by
  have present : ∀ i ∈ s.leaving code.k .cutThrough, s.has i = true :=
    fun i hi => List.mem_takeWhile_imp hi
  rw [range_drain, List.map_append, fates_drain h.index]
  congr 1
  exact List.map_congr_left fun i hi => by rw [if_pos (present i hi)]

/-- Nothing of a block is given up when it settles. -/
theorem Settled.fates (sound : ErasureCode.Sound code) (h : s.Holding code size block)
    (settled : Settled code recover s emissions rest) :
    (List.range s.cursor).map (·, Fate.received) ++ fates emissions block =
      match rest with
      | none => (List.range code.k).map fun i => (i, if s.has i then Fate.received else .rebuilt)
      | some u => (List.range u.cursor).map (·, Fate.received) := by
  have cut := h.fates_cutThrough
  have front := h.prefix_drain
  -- In front of the first gap everything has arrived.
  have arrived : (List.range (s.drain code.k .cutThrough).1.cursor).map (·, Fate.received) =
      (List.range (s.drain code.k .cutThrough).1.cursor).map
        fun i => (i, if s.has i then Fate.received else .rebuilt) := by
    refine List.map_congr_left fun i hi => ?_
    rw [← front] at hi
    rw [if_pos (List.mem_takeWhile_imp hi)]
  cases settled with
  | complete all =>
      rw [all] at cut arrived
      exact cut.trans arrived
  | waiting => exact cut
  | @rebuilt filled count gap allowed full rebuild =>
      obtain ⟨buffers, -, same⟩ := h.drain.rebuild_ok sound full
      rw [rebuild, Except.ok.injEq, Prod.mk.injEq] at same
      obtain ⟨rfl, -⟩ := same
      obtain ⟨index, cursor, -⟩ := refill_frame (s := (s.drain code.k .cutThrough).1)
        ((s.drain code.k .cutThrough).1.absent code.k) buffers
      have has := has_refill (s := (s.drain code.k .cutThrough).1)
        ((s.drain code.k .cutThrough).1.absent code.k) buffers
      have whole := range_drain code.k .rebuilt ((s.drain code.k .cutThrough).1.refill
        ((s.drain code.k .cutThrough).1.absent code.k) buffers)
      rw [cursor_drain_all (cursor.trans_le h.drain.cursor_le) (by simp), cursor] at whole
      rw [fates_append, ← List.append_assoc, cut, arrived, whole, List.map_append,
        fates_drain (index.trans h.index)]
      congr 1
      exact List.map_congr_left fun i _ => by rw [has]; rfl

/-- A block closes when all its data has arrived, or `k` fragments have and the erasure code is allowed. -/
theorem Settled.closes (h : s.Holding code size block) (settled : Settled code recover s emissions rest) :
    rest = none ↔ (∀ i < code.k, s.has i = true) ∨ recover = true ∧ s.used = code.k := by
  have front := h.prefix_drain
  have all : (s.drain code.k .cutThrough).1.cursor = code.k ↔ ∀ i < code.k, s.has i = true := by
    rw [← Intake.range_inj, ← front]
    simp
  cases settled with
  | complete whole => exact ⟨fun _ => .inl (all.mp whole), fun _ => rfl⟩
  | waiting gap few =>
      refine ⟨nofun, fun enough => ?_⟩
      rcases enough with whole | enough
      · exact absurd (all.mpr whole) gap
      · exact absurd enough few
  | rebuilt gap allowed full => exact ⟨fun _ => .inr ⟨allowed, full⟩, fun _ => rfl⟩

theorem Settled.waits {u : Slot} (h : s.Holding code size block)
    (settled : Settled code recover s emissions (some u)) :
    u.index = some block ∧ (List.range code.k).takeWhile s.has = List.range u.cursor := by
  cases settled with
  | waiting => exact ⟨h.index, h.prefix_drain⟩

end Slot

namespace Intake

/-- The fragments of a block are enough for all of it to leave on the arrival of the last of them. -/
def Enough (k : Nat) (given : List Intake) (recover : Bool) : Prop :=
  (∀ i < k, has given i = true) ∨ recover = true ∧ given.length = k

end Intake

namespace Assembly

open Emission (fates fates_append fates_of_other)
open Intake

variable {a : Assembly} {taken : List Intake} {emitted : List Emission} {x : Arrival} {recover : Bool}

/-- These fragments have been accepted and these emissions made; of an open block what has left it has
arrived. -/
structure Passing (taken : List Intake) (emitted : List Emission) (a : Assembly) : Prop where
  informed : Informed taken a
  seen : ∀ e ∈ emitted, ∃ y ∈ taken, e.block ≤ y.block
  front : ∀ s ∈ a.window.live, ∀ b, s.index = some b →
    fates emitted b = (List.range s.cursor).map (·, Fate.received)

theorem passing_create {key : Key} {k n slots size : Nat} (created : create key k n slots size = .ok a) :
    Passing [] [] a where
  informed := informed_create created
  seen _ he := by cases he
  front s hs := by
    rw [(create_ready created).2.1] at hs
    cases hs

/-- An accepted fragment is the last of its block so far, and the block settles. -/
theorem Passing.accepted (h : Passing taken emitted a)
    (accepted : (a.receive x recover).1.outcome = .ok .accepted) :
    ∃ (s : Slot) (emissions : List Emission) (rest : Option Slot),
      s.Holding a.code a.window.fragmentSize x.block ∧
      s.has = has (ofBlock (taken ++ (a.intake? x recover).toList) x.block) ∧
      s.used = (ofBlock (taken ++ (a.intake? x recover).toList) x.block).length ∧
      s.Settled a.code recover emissions rest ∧
      (a.receive x recover).2.window.live = rest.toList ∧
      fates (emitted ++ (a.receive x recover).1.emissions) x.block =
        (List.range s.cursor).map (·, Fate.received) ++ fates emissions x.block := by
  obtain ⟨delivered, accounts⟩ := h.informed.accounts
  have ready := accounts.ready
  cases opened : a.authenticate x with
  | error fault =>
      rw [Assembly.receive, opened] at accepted
      cases accepted
  | ok plain =>
  obtain ⟨-, suits⟩ := authenticate_ok opened
  let y : Intake := ⟨x.block, x.fragment, plain, recover⟩
  have new : a.intake? x recover = some y := intake?_eq_some.mpr ⟨plain, opened, accepted, rfl⟩
  have given : ofBlock (taken ++ [y]) x.block = ofBlock taken x.block ++ [y] := by
    rw [ofBlock_concat, if_pos rfl]
  have step : a.receive x recover = a.accept x.block x.fragment plain recover := by
    rw [Assembly.receive, opened]
  rw [new, Option.toList_some, given]
  rw [step] at accepted ⊢
  cases ready.accept suits recover with
  | late _ _ _ _ outcome => cases outcome.symm.trans accepted
  | duplicate _ _ _ _ outcome => cases outcome.symm.trans accepted
  | stored s rest live index new settled outcome window =>
      have inside : s ∈ a.window.live := by rw [live]; exact List.mem_singleton_self s
      obtain ⟨holding, ⟨left, pending⟩, -⟩ :=
        accounts.verdict_open live (h.informed.gap s inside) index x.fragment
      have keeps := pending.keeps.store holding.shaped (x := y) suits new
      refine ⟨_, _, rest, holding.store suits new, keeps.has, keeps.used, settled, window.live, ?_⟩
      rw [fates_append, h.front s inside x.block index]
      rfl
  | opened fresh below emissions rest above isFresh ascending between settled outcome split window =>
      have new := isFresh.not_has x.fragment
      obtain ⟨absent, -⟩ := accounts.verdict_new above x.fragment
      have keeps := isFresh.keeps.store isFresh.shaped (x := y) suits new
      rw [absent]
      refine ⟨_, emissions, rest, isFresh.holding.store suits new, keeps.has, keeps.used, settled,
        window.live, ?_⟩
      -- Of a block that is new nothing has left, neither before nor while older blocks are given up.
      have before : fates emitted x.block = [] := fates_of_other fun e he => by
        obtain ⟨y, hy, le⟩ := h.seen e he
        exact (le.trans_lt (accounts.older above y hy)).ne
      have flushed : fates (a.window.live.flatMap fun s => (s.drain a.code.k .stale).2) x.block = [] := by
        refine fates_of_other fun e he => ?_
        obtain ⟨s, hs, member⟩ := List.mem_flatMap.mp he
        obtain ⟨-, last, isLast, holding⟩ := ready.live_of_mem hs
        exact Slot.drain_block holding.index _ _ e member ▸ (above last isLast).ne
      have lost : fates (below.flatMap fun i => (List.range a.code.k).map (Emission.lost i)) x.block = [] := by
        refine fates_of_other fun e he => ?_
        obtain ⟨i, hi, member⟩ := List.mem_flatMap.mp he
        obtain ⟨_, -, rfl⟩ := List.mem_map.mp member
        exact (between i hi).1.ne
      rw [fates_append, split, fates_append, fates_append, before, flushed, lost]
      simp [Slot.store, isFresh.cursor]

/-- What has become of the block of an accepted fragment. -/
theorem Passing.completes (h : Passing taken emitted a)
    (accepted : (a.receive x recover).1.outcome = .ok .accepted) {given : List Intake}
    (own : ofBlock (taken ++ (a.intake? x recover).toList) x.block = given) :
    (Enough a.code.k given recover → (a.receive x recover).2.window.live = [] ∧
      fates (emitted ++ (a.receive x recover).1.emissions) x.block =
        (List.range a.code.k).map fun i => (i, if has given i then Fate.received else .rebuilt)) ∧
    (¬Enough a.code.k given recover → ∃ u, (a.receive x recover).2.window.live = [u] ∧
      u.index = some x.block ∧ (List.range a.code.k).takeWhile (has given) = List.range u.cursor ∧
      fates (emitted ++ (a.receive x recover).1.emissions) x.block =
        (List.range u.cursor).map (·, Fate.received)) := by
  obtain ⟨_, accounts⟩ := h.informed.accounts
  obtain ⟨s, emissions, rest, holding, isHas, used, settled, live, left⟩ := h.accepted accepted
  rw [own] at isHas used
  have closes := settled.closes holding
  have became := settled.fates accounts.ready.sound holding
  rw [isHas, used] at closes
  rw [isHas, ← left] at became
  cases rest with
  | none => exact ⟨fun _ => ⟨live, became⟩, fun few => absurd (closes.mp rfl) few⟩
  | some u =>
      obtain ⟨index, front⟩ := settled.waits holding
      rw [isHas] at front
      refine ⟨fun enough => ?_, fun _ => ⟨u, live, index, front, became⟩⟩
      cases closes.mpr enough

/-- What is not accepted changes nothing in the window. -/
theorem Ready.receive_idle (ready : a.Ready) (idle : (a.receive x recover).1.outcome ≠ .ok .accepted) :
    (a.receive x recover).1.emissions = [] ∧ (a.receive x recover).2.window = a.window := by
  unfold Assembly.receive at idle ⊢
  cases opened : a.authenticate x with
  | error fault => exact ⟨rfl, rfl⟩
  | ok plain =>
      obtain ⟨-, suits⟩ := authenticate_ok opened
      rw [opened] at idle
      cases ready.accept suits recover with
      | late _ _ _ _ _ emissions window => exact ⟨emissions, window⟩
      | duplicate _ _ _ _ _ emissions window => exact ⟨emissions, window⟩
      | stored _ _ _ _ _ _ outcome => exact absurd outcome idle
      | opened _ _ _ _ _ _ _ _ _ outcome => exact absurd outcome idle

theorem Passing.receive (h : Passing taken emitted a) (x : Arrival) (recover : Bool) :
    Passing (taken ++ (a.intake? x recover).toList) (emitted ++ (a.receive x recover).1.emissions)
      (a.receive x recover).2 := by
  obtain ⟨_, accounts⟩ := h.informed.accounts
  have ready := accounts.ready
  have informed := h.informed.receive x recover
  refine ⟨informed, fun e he => ?_, ?_⟩
  · rcases List.mem_append.mp he with old | new
    · obtain ⟨y, hy, le⟩ := h.seen e old
      exact ⟨y, List.mem_append_left _ hy, le⟩
    · obtain ⟨_, accounts⟩ := informed.accounts
      have dealt := ((ready.receive_within x recover).range e new).2
      rw [Emission.number, ← (ready.receive x recover).2.1] at dealt
      obtain ⟨last, isLast, le⟩ := accounts.ready.block_le dealt
      obtain ⟨⟨y, hy, rfl⟩, -⟩ := accounts.newest last isLast
      exact ⟨y, hy, le⟩
  · by_cases accepted : (a.receive x recover).1.outcome = .ok .accepted
    · obtain ⟨closed, waits⟩ := h.completes accepted rfl
      by_cases enough : Enough a.code.k (ofBlock (taken ++ (a.intake? x recover).toList) x.block) recover
      · rw [(closed enough).1]
        exact List.forall_mem_nil _
      · obtain ⟨u, live, index, -, left⟩ := waits enough
        rw [live]
        intro s hs b isIndex
        obtain rfl := List.mem_singleton.mp hs
        obtain rfl := Option.some.inj (index.symm.trans isIndex)
        exact left
    · obtain ⟨emissions, window⟩ := ready.receive_idle accepted
      rw [emissions, window, List.append_nil]
      exact h.front

theorem Passing.run (h : Passing taken emitted a) (calls : List (Arrival × Bool)) :
    Passing (taken ++ a.intakes calls) (emitted ++ (a.run calls).1.flatMap Report.emissions)
      (a.run calls).2 :=
  run_induction Report.emissions Passing.receive h calls

theorem run_concat (a : Assembly) (calls : List (Arrival × Bool)) (x : Arrival) (recover : Bool) :
    a.run (calls ++ [(x, recover)]) = ((a.run calls).1 ++ [((a.run calls).2.receive x recover).1],
      ((a.run calls).2.receive x recover).2) := by
  induction calls generalizing a with
  | nil => rfl
  | cons call calls ih =>
      rw [List.cons_append, Assembly.run]
      simp only [ih]
      rfl

theorem intakes_concat (a : Assembly) (calls : List (Arrival × Bool)) (x : Arrival) (recover : Bool) :
    a.intakes (calls ++ [(x, recover)]) =
      a.intakes calls ++ ((a.run calls).2.intake? x recover).toList := by
  induction calls generalizing a with
  | nil => exact List.append_nil _
  | cons call calls ih => rw [List.cons_append, intakes, ih, ← List.append_assoc]; rfl

/-- However the erasure code is allowed and forbidden along the way: once a fragment has been accepted,
its block is complete if all its data fragments have been accepted, or if it was the `k`-th fragment and the
erasure code was allowed.  Then every data fragment has been passed on.  Otherwise the block stays open,
its fragments up to the first gap have been passed on, and nothing has been given up.  More than `k`
fragments are accepted only if the erasure code was forbidden on the arrival of the `k`-th. -/
theorem completes_at_kth {key : Key} {k n slots size : Nat} {a : Assembly}
    (created : create key k n slots size = .ok a) (calls : List (Arrival × Bool)) (x : Arrival)
    (recover : Bool) (accepted : ((a.run calls).2.receive x recover).1.outcome = .ok .accepted) :
    let run := a.run (calls ++ [(x, recover)])
    let given := a.given (calls ++ [(x, recover)]) x.block
    let left := fates (run.1.flatMap Report.emissions) x.block
    (given.map Intake.fragment).Nodup ∧
      ((∀ i < k, has given i = true) ∨ recover = true ∧ given.length = k →
        x.block ∉ run.2.window.indices ∧
        left = (List.range k).map fun i => (i, if has given i then Fate.received else .rebuilt)) ∧
      (¬((∀ i < k, has given i = true) ∨ recover = true ∧ given.length = k) →
        x.block ∈ run.2.window.indices ∧
        left = ((List.range k).takeWhile (has given)).map (·, Fate.received)) ∧
      (k < given.length → ∃ y, given[k - 1]? = some y ∧ y.recover = false) := by
  obtain ⟨ready, -, -, -, -, isK, -⟩ := create_ready created
  intro run given left
  have lawful := lawful_run created (calls ++ [(x, recover)])
  have passing := (passing_create created).run calls
  rw [List.nil_append, List.nil_append] at passing
  have own : ofBlock (a.intakes calls ++ ((a.run calls).2.intake? x recover).toList) x.block = given := by
    rw [← intakes_concat]
    rfl
  have whole : (a.run calls).1.flatMap Report.emissions ++
      ((a.run calls).2.receive x recover).1.emissions = run.1.flatMap Report.emissions := by
    simp only [run, run_concat, List.flatMap_append, List.flatMap_singleton]
  have window : run.2.window = ((a.run calls).2.receive x recover).2.window := by
    simp only [run, run_concat]
  obtain ⟨closed, waits⟩ := passing.completes accepted own
  rw [(ready.run_frame calls).1, isK, whole, ← window] at closed waits
  refine ⟨lawful.distinct x.block, fun enough => ?_, fun few => ?_, fun many => ?_⟩
  · obtain ⟨live, all⟩ := closed enough
    refine ⟨?_, all⟩
    rw [Window.indices_eq_live, live]
    exact List.not_mem_nil
  · obtain ⟨u, live, index, front, some⟩ := waits few
    refine ⟨?_, front ▸ some⟩
    rw [Window.indices_eq_live, live]
    simp [index]
  · have there : k - 1 < given.length := by omega
    refine ⟨given[k - 1], List.getElem?_eq_getElem there, Bool.eq_false_iff.mpr fun allowed => ?_⟩
    have used : rebuilt given k = true := by
      rw [rebuilt, List.getElem?_eq_getElem there]
      exact allowed
    have full := lawful.full x.block (isK ▸ used)
    rw [isK] at full
    exact absurd full many.ne'

/-- Two fragments of a block.  The erasure code is forbidden on the arrival of the first. -/
def tardy : List Intake := [⟨0, 1, [0, 0, 0], false⟩, ⟨0, 2, [0, 0, 0], true⟩]

/-- A block of two: the parity fragment is its second fragment, and the erasure code is allowed by then. -/
theorem completes_at_kth_allowed :
    let key : Key := ⟨Bytes.zeros 32, rfl⟩
    let run (a : Assembly) := a.run (sealedCalls key tardy)
    ∃ a, create key 2 3 1 16 = .ok a ∧ a.given (sealedCalls key tardy) 0 = tardy ∧
      0 ∉ (run a).2.window.indices ∧
      fates ((run a).1.flatMap Report.emissions) 0 = [(0, .rebuilt), (1, .received)] := by
  intro key run
  have taken : ∀ a ∈ (create key 2 3 1 16).toOption,
      a.accepts (tardy.take 1) = tardy.take 1 ∧ a.accepts tardy = tardy := by decide +kernel
  obtain ⟨a, created, one, two⟩ := create_holds (by decide) taken
  have first := (run_sealed created (show ∀ x ∈ tardy.take 1, x.Fits 3 16 by decide)).2
  have both := (run_sealed created (show ∀ x ∈ tardy, x.Fits 3 16 by decide)).2
  rw [one] at first
  rw [two] at both
  have last : (a.run (sealedCalls key (tardy.take 1))).2.intake? (Packet.sealed key 0 2 [0, 0, 0]) true =
      some ⟨0, 2, [0, 0, 0], true⟩ := by
    have split := intakes_concat a (sealedCalls key (tardy.take 1)) (Packet.sealed key 0 2 [0, 0, 0]) true
    rw [first] at split
    exact Option.toList_eq_singleton_iff.mp (List.append_cancel_left (split.symm.trans both))
  obtain ⟨-, -, accepted, -⟩ := intake?_eq_some.mp last
  have given : a.given (sealedCalls key tardy) 0 = tardy := by
    rw [Assembly.given, both]
    decide
  obtain ⟨-, complete, -⟩ := completes_at_kth created (sealedCalls key (tardy.take 1))
    (Packet.sealed key 0 2 [0, 0, 0]) true accepted
  obtain ⟨gone, left⟩ := complete (.inr ⟨rfl, congrArg List.length given⟩)
  refine ⟨a, created, given, gone, left.trans ?_⟩
  refine (congrArg (fun g => (List.range 2).map fun i =>
    (i, if has g i then Fate.received else .rebuilt)) given).trans ?_
  decide

/-- A block of one, of which two parity fragments arrive.  Either would do; but when the erasure code is
allowed the count is no longer one, so the block stays open and nothing has left it. -/
theorem late_permission_waits :
    let key : Key := ⟨Bytes.zeros 32, rfl⟩
    let run (a : Assembly) := a.run (sealedCalls key tardy)
    ∃ a, create key 1 3 1 16 = .ok a ∧ (∀ r ∈ (run a).1, r.outcome = .ok .accepted) ∧
      a.given (sealedCalls key tardy) 0 = tardy ∧ 1 ≤ tardy.length ∧
      0 ∈ (run a).2.window.indices ∧ fates ((run a).1.flatMap Report.emissions) 0 = [] := by
  intro key run
  have holds : ∀ a ∈ (create key 1 3 1 16).toOption,
      (∀ r ∈ (a.takeIn tardy).1, r.outcome = .ok .accepted) ∧ ofBlock (a.accepts tardy) 0 = tardy ∧
      1 ≤ tardy.length ∧ 0 ∈ (a.takeIn tardy).2.window.indices ∧
      fates ((a.takeIn tardy).1.flatMap Report.emissions) 0 = [] := by decide +kernel
  obtain ⟨a, created, evaluated⟩ := create_holds (by decide) holds
  obtain ⟨direct, taken⟩ := run_sealed created (show ∀ x ∈ tardy, x.Fits 3 16 by decide)
  refine ⟨a, created, ?_⟩
  unfold Assembly.given
  simp only [run]
  rw [direct, taken]
  exact evaluated

end Assembly

end AirLink
