import AirLink.Proofs.Coherence
import AirLink.Proofs.Completion
import AirLink.Proofs.Turnover

/-! # The balance of positions

Every data fragment of a block that enters the window leaves once, passed on or given up, unless it is
still due in the block that is open.  A block enters when a fragment of it is accepted, or on the way to a
newer one.  If the way is longer than the window, only the last blocks of it enter, and the others are not
counted at all.
-/

namespace AirLink

namespace Emission

def isPassed (e : Emission) : Bool := !e.isLost

/-- The fragment was passed on without having arrived. -/
def isRecovered : Emission → Bool
  | passed _ _ recovered _ => recovered
  | lost .. => false

/-- The fragment was passed on, and is a filler. -/
def isFiller : Emission → Bool
  | passed _ _ _ content => (FragmentHeader.decode content).toOption.any (·.isFiller)
  | lost .. => false

/-- The fragment was passed on, is no filler, and names a size above the limit or beyond its buffer. -/
def isMisfit : Emission → Bool
  | passed _ _ _ content => (FragmentHeader.decode content).toOption.any fun header =>
      !header.isFiller && decide (Limits.payload < header.size.toNat ∨
        content.length < Limits.fragmentHeader + header.size.toNat)
  | lost .. => false

/-- What was passed on fills a buffer of the given size. -/
def Fills (size : Nat) : Emission → Prop
  | passed _ _ _ content => content.length = size
  | lost .. => True

variable {size : Nat}

/-- What is passed on from a buffer with room for a header is delivered, is a filler or does not fit. -/
theorem isPassed_kind (room : Limits.fragmentHeader ≤ size) {e : Emission} (fills : e.Fills size) :
    (if e.isPassed then 1 else 0) =
      e.delivery?.toList.length + (if e.isFiller then 1 else 0) + if e.isMisfit then 1 else 0 := by
  cases e with
  | lost block fragment => rfl
  | passed block fragment recovered content =>
      have long : Limits.fragmentHeader ≤ content.length := room.trans fills.ge
      obtain ⟨header, read⟩ : ∃ header, FragmentHeader.decode content = .ok header := by
        match content, long with
        | a :: b :: c :: rest, _ => exact ⟨_, rfl⟩
      by_cases filler : header.isFiller = true
      · simp [isPassed, isLost, delivery?, payload?, isFiller, isMisfit, read, filler, Except.toOption]
      by_cases misfit : Limits.payload < header.size.toNat ∨
          content.length < Limits.fragmentHeader + header.size.toNat
      · simp [isPassed, isLost, delivery?, payload?, isFiller, isMisfit, read, filler, misfit,
          Except.toOption]
      · simp [isPassed, isLost, delivery?, payload?, isFiller, isMisfit, read, filler, misfit,
          Except.toOption]

theorem countP_isPassed (room : Limits.fragmentHeader ≤ size) {es : List Emission}
    (fills : ∀ e ∈ es, e.Fills size) :
    es.countP isPassed = (es.filterMap delivery?).length + es.countP isFiller + es.countP isMisfit := by
  induction es with
  | nil => rfl
  | cons e es ih =>
      obtain ⟨here, later⟩ := List.forall_mem_cons.mp fills
      have kind := isPassed_kind room here
      have one : ((e :: es).filterMap delivery?).length =
          e.delivery?.toList.length + (es.filterMap delivery?).length := by
        rw [List.filterMap_cons]
        cases e.delivery? <;> simp [Nat.add_comm]
      rw [List.countP_cons, List.countP_cons, List.countP_cons, one, ih later, kind]
      omega

theorem length_eq_passed_add_lost (es : List Emission) :
    es.length = es.countP isPassed + (es.filter isLost).length := by
  rw [← List.countP_eq_length_filter, List.length_eq_countP_add_countP isLost, Nat.add_comm]
  congr 1
  exact List.countP_congr fun e _ => by simp [isPassed]

theorem countP_rebuilt_fates {es : List Emission} {b : Nat} (own : ∀ e ∈ es, e.block = b) :
    (fates es b).countP (·.2 = .rebuilt) = es.countP isRecovered := by
  rw [fates, List.filter_eq_self.mpr fun e he => by simp [own e he], List.countP_map]
  refine List.countP_congr fun e _ => ?_
  cases e with
  | lost => simp [fate, isRecovered]
  | passed _ _ recovered => cases recovered <;> simp [fate, isRecovered]

end Emission

namespace Slot

open Emission (Fills isRecovered)

variable {s : Slot} {code : ErasureCode} {size block : Nat} {recover : Bool} {emissions : List Emission}
  {rest : Option Slot}

theorem length_drain (index : s.index = some block) (k : Nat) (mode : Mode) :
    s.cursor + (s.drain k mode).2.length = (s.drain k mode).1.cursor := by
  rw [emissions_drain index, List.length_map]
  rfl

/-- An overtaken block is emptied of all that is still due. -/
theorem Holding.length_stale (h : s.Holding code size block) :
    (s.drain code.k .stale).2.length = code.k - s.cursor := by
  have drained := length_drain h.index code.k .stale
  rw [cursor_drain_all h.cursor_le (by simp)] at drained
  omega

theorem isRecovered_departure {mode : Mode} (other : mode ≠ .rebuilt) (block i : Nat) :
    (s.departure mode block i).isRecovered = false := by
  unfold departure
  rw [if_neg other]
  split <;> rfl

theorem recovered_drain {k : Nat} {mode : Mode} (other : mode ≠ .rebuilt) :
    (s.drain k mode).2.countP isRecovered = 0 := by
  rw [List.countP_eq_zero]
  intro e he
  simp only [drain] at he
  split at he
  · cases he
  · obtain ⟨i, -, rfl⟩ := List.mem_map.mp he
    simp [isRecovered_departure other]

theorem Shaped.fills_drain {count k : Nat} (h : s.Shaped size count) (le : k ≤ count) (mode : Mode) :
    ∀ e ∈ (s.drain k mode).2, e.Fills size := by
  intro e he
  simp only [drain] at he
  split at he
  · cases he
  · obtain ⟨i, hi, rfl⟩ := List.mem_map.mp he
    have content := h.length_bufferOf ((mem_leaving_lt hi).trans_le le)
    unfold departure
    split_ifs
    · exact content
    · exact content
    · trivial

/-- When a block settles, what is left of it is still due. -/
theorem Settled.length (sound : ErasureCode.Sound code) (h : s.Holding code size block)
    (settled : Settled code recover s emissions rest) :
    s.cursor + emissions.length + (rest.toList.map fun u => code.k - u.cursor).sum = code.k := by
  have lengths := congrArg List.length (settled.fates sound h)
  have own : emissions.filter (·.block = block) = emissions :=
    List.filter_eq_self.mpr fun e he => by simp [settled.block_eq sound h e he]
  have count : (Emission.fates emissions block).length = emissions.length := by
    rw [Emission.fates, List.length_map, own]
  cases rest with
  | none =>
      simp only [List.length_append, List.length_map, List.length_range, count] at lengths
      simpa using lengths
  | some u =>
      have le := (settled.holding h).cursor_le
      simp only [List.length_append, List.length_map, List.length_range, count] at lengths
      simp only [Option.toList_some, List.map_cons, List.map_nil, List.sum_singleton]
      omega

/-- The gaps that are filled are passed on as recovered. -/
theorem Settled.recovered (sound : ErasureCode.Sound code) (h : s.Holding code size block)
    (settled : Settled code recover s emissions rest) :
    emissions.countP isRecovered = (s.gain code recover).getD 0 := by
  have became := settled.fates sound h
  have own := settled.block_eq sound h
  cases settled with
  | complete all =>
      rw [gain, if_neg fun used => used.1 all]
      exact recovered_drain (by simp)
  | waiting gap few =>
      rw [gain, if_neg fun used => few used.2]
      exact recovered_drain (by simp)
  | rebuilt gap allowed full =>
      have counts := congrArg (List.countP (·.2 = .rebuilt)) became
      rw [List.countP_append, Emission.countP_rebuilt_fates own, List.countP_map, List.countP_map] at counts
      have front : (List.range s.cursor).countP ((fun f : Nat × Fate => decide (f.2 = .rebuilt)) ∘ (·, .received)) =
          0 := by simp [List.countP_eq_zero]
      rw [front, Nat.zero_add] at counts
      rw [gain, if_pos ⟨gap, allowed, full⟩, counts, absent, ← List.countP_eq_length_filter]
      refine List.countP_congr fun i _ => ?_
      by_cases has : s.has i = true <;> simp [has]

theorem Settled.fills (sound : ErasureCode.Sound code) (h : s.Holding code size block)
    (settled : Settled code recover s emissions rest) : ∀ e ∈ emissions, e.Fills size := by
  cases settled with
  | complete | waiting => exact h.shaped.fills_drain sound.le _
  | rebuilt _ _ full rebuild =>
      obtain ⟨buffers, fits, filled⟩ := h.drain.rebuild_ok sound full
      rw [rebuild, Except.ok.injEq, Prod.mk.injEq] at filled
      obtain ⟨rfl, -⟩ := filled
      intro e he
      rcases List.mem_append.mp he with before | after
      · exact h.shaped.fills_drain sound.le _ e before
      · exact (h.drain.shaped.refill _ fits).fills_drain sound.le _ e after

end Slot

namespace Counters

theorem foldl_absorb_totals (c : Counters) (reports : List Report) :
    (reports.foldl absorb c).delivered = c.delivered + (reports.flatMap Report.deliveries).length ∧
    (reports.foldl absorb c).deliveredBytes =
      c.deliveredBytes + ((reports.flatMap Report.deliveries).map (·.payload.length)).sum ∧
    (reports.foldl absorb c).lost =
      c.lost + ((reports.flatMap Report.emissions).filter Emission.isLost).length ∧
    (reports.foldl absorb c).rebuilt = c.rebuilt + (reports.map (·.rebuilt.getD 0)).sum := by
  induction reports generalizing c with
  | nil => exact ⟨rfl, rfl, rfl, rfl⟩
  | cons r reports ih =>
      obtain ⟨delivered, bytes, lost, rebuilt⟩ := ih (c.absorb r)
      rw [List.foldl_cons, delivered, bytes, lost, rebuilt]
      simp only [absorb, List.flatMap_cons, List.length_append, List.map_append, List.sum_append,
        List.length_flatMap, List.filter_append, List.map_cons, List.sum_cons]
      omega

end Counters

namespace Assembly

open Emission (isRecovered isPassed isFiller isMisfit)

variable {a next : Assembly} {block fragment : Nat} {plain : Bytes} {recover : Bool} {r : Report}

/-- The data fragments that are still due in the open block, if there is one. -/
def pending (a : Assembly) : Nat := (a.window.live.map fun s => a.code.k - s.cursor).sum

theorem length_lost (k : Nat) (below : List Nat) :
    (below.flatMap fun i => (List.range k).map (Emission.lost i)).length = k * below.length := by
  simp [List.length_flatMap, Nat.mul_comm]

/-- An overtaken block leaves with all that is still due in it. -/
theorem Ready.length_stale (h : a.Ready) :
    (a.window.live.flatMap fun s => (s.drain a.code.k .stale).2).length = a.pending := by
  unfold pending
  rcases h.newest with none | ⟨s, last, live, -, holding⟩
  · rw [none]
    rfl
  · rw [live, List.flatMap_singleton, holding.length_stale, List.map_singleton, List.sum_singleton]

/-- What leaves on the arrival of a fragment was due before, or has entered with it. -/
theorem Taken.balance (h : a.Ready) (suits : Slot.Suits a.window.fragmentSize a.code.n fragment plain)
    (code : next.code = a.code) (taken : a.Taken block fragment plain recover r next)
    (accepted : r.outcome = .ok .accepted) :
    next.window.last = some block ∧ (∀ last, a.window.last = some last → last ≤ block) ∧
      r.emissions.length + next.pending = a.pending + a.code.k * a.window.arrivals block := by
  cases taken with
  | late _ _ _ _ outcome => cases outcome.symm.trans accepted
  | duplicate _ _ _ _ outcome => cases outcome.symm.trans accepted
  | stored s rest live index new settled _ window =>
      obtain ⟨last, isLast, holding⟩ := h.holding_of_live live
      obtain rfl := Option.some.inj (index.symm.trans holding.index)
      have total := settled.length h.sound (holding.store suits new)
      have none : a.window.arrivals block = 0 := by simp [Window.arrivals, isLast]
      refine ⟨window.last.trans isLast, fun top isTop => ?_, ?_⟩
      · rw [isLast, Option.some.injEq] at isTop
        exact isTop.ge
      · rw [none, pending, pending, window.live, live, code]
        simp only [List.map_singleton, List.sum_singleton]
        have le := holding.cursor_le
        have same : (s.store fragment plain).cursor = s.cursor := rfl
        omega
  | opened fresh below emissions rest above isFresh _ _ settled _ split window _ entering =>
      have total := settled.length h.sound (isFresh.holding.store suits (isFresh.not_has fragment))
      have start : (fresh.store fragment plain).cursor = 0 := isFresh.cursor
      have count : a.window.arrivals block = below.length + 1 := by
        have length := congrArg List.length entering
        rwa [Window.entering_eq, List.length_range', List.length_append, List.length_singleton] at length
      refine ⟨window.last, fun last isLast => (above last isLast).le, ?_⟩
      have after : next.pending = (rest.toList.map fun u => a.code.k - u.cursor).sum := by
        rw [pending, window.live, code]
      rw [split, List.length_append, List.length_append, h.length_stale, length_lost, after, count,
        Nat.mul_succ]
      omega

/-- The gaps that are counted as filled have been passed on as such. -/
theorem Taken.recovered (h : a.Ready) (suits : Slot.Suits a.window.fragmentSize a.code.n fragment plain)
    (taken : a.Taken block fragment plain recover r next) :
    r.emissions.countP isRecovered = r.rebuilt.getD 0 := by
  cases taken with
  | late _ _ _ _ _ emissions _ rebuilt => rw [emissions, rebuilt]; rfl
  | duplicate _ _ _ _ _ emissions _ rebuilt => rw [emissions, rebuilt]; rfl
  | stored s rest live _ new settled _ _ rebuilt =>
      obtain ⟨last, -, holding⟩ := h.holding_of_live live
      rw [rebuilt, settled.recovered h.sound (holding.store suits new)]
  | opened fresh below emissions rest _ isFresh _ _ settled _ split _ rebuilt =>
      have stale : (a.window.live.flatMap fun s => (s.drain a.code.k .stale).2).countP isRecovered = 0 := by
        rw [List.countP_flatMap, List.sum_eq_zero_iff]
        intro count hc
        obtain ⟨s, -, rfl⟩ := List.mem_map.mp hc
        exact Slot.recovered_drain (by simp)
      have lost : (below.flatMap fun i => (List.range a.code.k).map (Emission.lost i)).countP isRecovered =
          0 := by
        rw [List.countP_eq_zero]
        intro e he
        obtain ⟨i, -, member⟩ := List.mem_flatMap.mp he
        obtain ⟨j, -, rfl⟩ := List.mem_map.mp member
        exact Bool.false_ne_true
      rw [split, List.countP_append, List.countP_append, stale, lost, rebuilt,
        settled.recovered h.sound (isFresh.holding.store suits (isFresh.not_has fragment))]
      omega

theorem Taken.fills (h : a.Ready) (suits : Slot.Suits a.window.fragmentSize a.code.n fragment plain)
    (taken : a.Taken block fragment plain recover r next) :
    ∀ e ∈ r.emissions, e.Fills a.window.fragmentSize := by
  cases taken with
  | late _ _ _ _ _ emissions => exact emissions ▸ List.forall_mem_nil _
  | duplicate _ _ _ _ _ emissions => exact emissions ▸ List.forall_mem_nil _
  | stored s rest live _ new settled =>
      obtain ⟨last, -, holding⟩ := h.holding_of_live live
      exact settled.fills h.sound (holding.store suits new)
  | opened fresh below emissions rest _ isFresh _ _ settled _ split =>
      intro e he
      rw [split] at he
      rcases List.mem_append.mp he with before | here
      · rcases List.mem_append.mp before with stale | lost
        · obtain ⟨s, hs, member⟩ := List.mem_flatMap.mp stale
          obtain ⟨-, last, -, holding⟩ := h.live_of_mem hs
          exact holding.shaped.fills_drain h.sound.le _ e member
        · obtain ⟨i, -, member⟩ := List.mem_flatMap.mp lost
          obtain ⟨j, -, rfl⟩ := List.mem_map.mp member
          trivial
      · exact settled.fills h.sound (isFresh.holding.store suits (isFresh.not_has fragment)) e here

theorem Ready.receive_passes (h : a.Ready) (x : Arrival) (recover : Bool) :
    (a.receive x recover).1.emissions.countP isRecovered = (a.receive x recover).1.rebuilt.getD 0 ∧
      ∀ e ∈ (a.receive x recover).1.emissions, e.Fills a.window.fragmentSize := by
  unfold Assembly.receive
  cases opened : a.authenticate x with
  | error fault => exact ⟨rfl, List.forall_mem_nil _⟩
  | ok plain =>
      obtain ⟨-, suits⟩ := authenticate_ok opened
      exact ⟨(h.accept suits recover).recovered h suits, (h.accept suits recover).fills h suits⟩

theorem Ready.run_passes (h : a.Ready) (calls : List (Arrival × Bool)) :
    ((a.run calls).1.flatMap Report.emissions).countP isRecovered =
        ((a.run calls).1.map (·.rebuilt.getD 0)).sum ∧
      ∀ e ∈ (a.run calls).1.flatMap Report.emissions, e.Fills a.window.fragmentSize := by
  induction calls generalizing a with
  | nil => exact ⟨rfl, List.forall_mem_nil _⟩
  | cons call calls ih =>
      obtain ⟨x, recover⟩ := call
      obtain ⟨recovered, fills⟩ := h.receive_passes x recover
      obtain ⟨later, more⟩ := ih (h.receive x recover).1
      rw [(h.receive_frame x recover).1] at more
      constructor
      · rw [Assembly.run, List.flatMap_cons, List.countP_append, recovered, later, List.map_cons, List.sum_cons]
      · intro e he
        rcases List.mem_append.mp (List.flatMap_cons ▸ he) with here | there
        · exact fills e here
        · exact more e there

/-- A packet is not accepted and nothing happens, or its fragment is taken in and the account is even. -/
theorem Ready.receive_balance (h : a.Ready) (x : Arrival) (recover : Bool) :
    (a.intake? x recover = none ∧ (a.receive x recover).1.emissions = [] ∧
        (a.receive x recover).2.window = a.window) ∨
      ∃ y, a.intake? x recover = some y ∧ (a.receive x recover).2.window.last = some y.block ∧
        (∀ last, a.window.last = some last → last ≤ y.block) ∧
        (a.receive x recover).1.emissions.length + (a.receive x recover).2.pending =
          a.pending + a.code.k * a.window.arrivals y.block := by
  by_cases accepted : (a.receive x recover).1.outcome = .ok .accepted
  · right
    cases opened : a.authenticate x with
    | error fault =>
        rw [Assembly.receive, opened] at accepted
        cases accepted
    | ok plain =>
        obtain ⟨-, suits⟩ := authenticate_ok opened
        refine ⟨_, intake?_eq_some.mpr ⟨plain, opened, accepted, rfl⟩, ?_⟩
        unfold Assembly.receive at accepted ⊢
        rw [opened] at accepted ⊢
        exact (h.accept suits recover).balance h suits (accept_frame ..).1 accepted
  · obtain ⟨emissions, window⟩ := h.receive_idle accepted
    refine .inl ⟨?_, emissions, window⟩
    rw [Option.eq_none_iff_forall_ne_some]
    intro y hy
    obtain ⟨-, -, outcome, -⟩ := intake?_eq_some.mp hy
    exact accepted outcome

/-- How many blocks never enter a window of so many slots, given its newest block and the blocks that
fragments are accepted of: of those on the way to a newer block only the last ones enter. -/
def skipped (slots : Nat) : Nat → List Nat → Nat
  | _, [] => 0
  | newest, block :: rest => (block - newest - slots) + skipped slots (max newest block) rest

theorem pending_of_same {next : Assembly} (code : next.code = a.code) (window : next.window = a.window) :
    next.pending = a.pending := by
  rw [pending, pending, code, window]

theorem run_cons (a : Assembly) (x : Arrival) (recover : Bool) (calls : List (Arrival × Bool)) :
    a.run ((x, recover) :: calls) = ((a.receive x recover).1 :: ((a.receive x recover).2.run calls).1,
      ((a.receive x recover).2.run calls).2) := rfl

/-- From one newest block to the next the account stays even. -/
theorem Ready.run_balance (h : a.Ready) {newest : Nat} (isNewest : a.window.last = some newest)
    (calls : List (Arrival × Bool)) :
    ∃ last, (a.run calls).2.window.last = some last ∧
      newest + skipped a.window.capacity newest ((a.intakes calls).map Intake.block) ≤ last ∧
      ((a.run calls).1.flatMap Report.emissions).length + (a.run calls).2.pending +
          a.code.k * skipped a.window.capacity newest ((a.intakes calls).map Intake.block) =
        a.pending + a.code.k * (last - newest) := by
  induction calls generalizing a newest with
  | nil => exact ⟨newest, isNewest, Nat.le_refl _, by simp [Assembly.run, intakes, skipped]⟩
  | cons call calls ih =>
      obtain ⟨x, recover⟩ := call
      obtain ⟨ready, code, -⟩ := h.receive x recover
      have capacity := (h.receive_alike x recover).capacity
      rw [intakes]
      simp only [run_cons, List.flatMap_cons, List.length_append]
      rcases h.receive_balance x recover with
        ⟨idle, emissions, window⟩ | ⟨y, new, entered, above, even⟩
      · have rest := ih ready (window ▸ isNewest)
        rw [capacity, code, pending_of_same code window] at rest
        rw [idle, emissions, Option.toList_none, List.nil_append, List.length_nil, Nat.zero_add]
        exact rest
      · obtain ⟨last, isLast, le, rest⟩ := ih ready entered
        rw [capacity, code] at rest
        rw [capacity] at le
        have up := above newest isNewest
        have arrivals : a.window.arrivals y.block = min (y.block - newest) a.window.capacity := by
          simp only [Window.arrivals, isNewest]
        rw [new, Option.toList_some, List.singleton_append, List.map_cons, skipped, Nat.max_eq_right up]
        refine ⟨last, isLast, by omega, ?_⟩
        -- Of the blocks on the way some enter and the others are skipped.
        have way : last - newest = (last - y.block) + a.window.arrivals y.block +
            (y.block - newest - a.window.capacity) := by omega
        rw [way, Nat.mul_add, Nat.mul_add, Nat.mul_add]
        omega

/-- In a new assembly the account begins with the first block that is accepted. -/
theorem Ready.run_balance_new (h : a.Ready) (unused : a.window.last = none)
    {calls : List (Arrival × Bool)} {first : Intake} (begins : (a.intakes calls).head? = some first) :
    ∃ last, (a.run calls).2.window.last = some last ∧
      first.block + skipped a.window.capacity first.block ((a.intakes calls).map Intake.block) ≤ last ∧
      ((a.run calls).1.flatMap Report.emissions).length + (a.run calls).2.pending +
          a.code.k * skipped a.window.capacity first.block ((a.intakes calls).map Intake.block) =
        a.code.k * (last - first.block + 1) := by
  induction calls generalizing a with
  | nil => cases begins
  | cons call calls ih =>
      obtain ⟨x, recover⟩ := call
      obtain ⟨ready, code, -⟩ := h.receive x recover
      have capacity := (h.receive_alike x recover).capacity
      rw [intakes] at begins ⊢
      simp only [run_cons, List.flatMap_cons, List.length_append]
      rcases h.receive_balance x recover with ⟨idle, emissions, window⟩ | ⟨y, new, entered, -, even⟩
      · rw [idle, Option.toList_none, List.nil_append] at begins ⊢
        have rest := ih ready (window ▸ unused) begins
        rw [capacity, code] at rest
        rw [emissions, List.length_nil, Nat.zero_add]
        exact rest
      · rw [new, Option.toList_some, List.singleton_append] at begins ⊢
        obtain rfl := Option.some.inj begins
        obtain ⟨last, isLast, le, rest⟩ := ready.run_balance entered calls
        rw [capacity, code] at rest
        rw [capacity] at le
        have arrivals : a.window.arrivals y.block = 1 := by simp only [Window.arrivals, unused]
        have empty : a.pending = 0 := by rw [pending, h.live_of_unused unused]; rfl
        rw [List.map_cons, skipped, Nat.max_self, Nat.sub_self, Nat.zero_sub, Nat.zero_add]
        refine ⟨last, isLast, le, ?_⟩
        rw [arrivals, empty] at even
        rw [Nat.mul_succ]
        omega

/-- Once a fragment has been accepted, the fragments passed on, the fragments given up and those still due
in the open block make up all data fragments of the blocks from the first one to the newest, but for the
blocks that were skipped because the window was too small for the way.  What is passed on is delivered, is
a filler or does not fit, and nothing leaves twice. -/
theorem positions_accounted {key : Key} {k n slots size : Nat} {a : Assembly}
    (created : create key k n slots size = .ok a) (calls : List (Arrival × Bool)) {first : Intake}
    (begins : (a.intakes calls).head? = some first) :
    let run := a.run calls
    let counters := run.1.foldl Counters.absorb {}
    let emissions := run.1.flatMap Report.emissions
    let missed := skipped slots first.block ((a.intakes calls).map Intake.block)
    (∃ last, run.2.window.last = some last ∧ first.block + missed ≤ last ∧
      (counters.delivered + emissions.countP isFiller + emissions.countP isMisfit) + counters.lost +
          run.2.pending = k * (last - first.block + 1 - missed)) ∧
      run.2.window.live.length ≤ 1 ∧
      emissions.countP isPassed =
        counters.delivered + emissions.countP isFiller + emissions.countP isMisfit ∧
      emissions.Pairwise (fun d e => d.number k < e.number k) ∧ (∀ e ∈ emissions, e.fragment < k) ∧
      counters.rebuilt = emissions.countP isRecovered ∧
      counters.deliveredBytes =
        ((run.1.flatMap Report.deliveries).map (·.payload.length)).sum := by
  intro run counters emissions missed
  obtain ⟨ready, -, unused, isSize, -, isK, -⟩ := create_ready created
  have capacity := (builtFor_create created).capacity
  obtain ⟨delivered, bytes, lost, rebuilt⟩ := Counters.foldl_absorb_totals {} run.1
  have lawful := lawful_run created calls
  have accepted : first ∈ a.intakes calls := List.mem_of_mem_head? begins
  have room : Limits.fragmentHeader ≤ size := (lawful.long first accepted).trans (lawful.fits first accepted)
  obtain ⟨recovered, fills⟩ := ready.run_passes calls
  rw [isSize] at fills
  have kinds := Emission.countP_isPassed room fills
  have within := ready.run_within calls
  rw [isK] at within
  obtain ⟨last, isLast, le, even⟩ := ready.run_balance_new unused begins
  rw [capacity] at le even
  rw [isK, Emission.length_eq_passed_add_lost] at even
  replace delivered := delivered.trans (Nat.zero_add _)
  replace lost := lost.trans (Nat.zero_add _)
  have passed : emissions.countP isPassed =
      counters.delivered + emissions.countP isFiller + emissions.countP isMisfit := by
    rw [delivered, flatMap_deliveries]
    exact kinds
  refine ⟨⟨last, isLast, le, ?_⟩, ?_, passed, within.ascending, within.fragment,
    (rebuilt.trans (Nat.zero_add _)).trans recovered.symm, bytes.trans (Nat.zero_add _)⟩
  · have all : last - first.block + 1 = (last - first.block + 1 - missed) + missed := by omega
    rw [all, Nat.mul_add] at even
    rw [← passed, lost]
    exact Nat.add_right_cancel even
  · rcases (ready.run calls).newest with none | ⟨_, _, live, -⟩
    · rw [none]
      exact Nat.zero_le 1
    · rw [live]
      exact Nat.le_refl 1

/-- A fragment of one block, and a filler of one too far ahead for a window of one. -/
def distant : List Intake := [⟨0, 1, [0, 0, 1, 7], true⟩, ⟨3, 0, [1, 0, 0], true⟩]

/-- The window of one goes from block `0` to block `3`, and the two blocks between them are skipped.  Of the
other two one fragment has been delivered, one was a filler, one was given up and one is still due. -/
theorem positions_accounted_skipped :
    let key : Key := ⟨Bytes.zeros 32, rfl⟩
    let run (a : Assembly) := a.run (sealedCalls key distant)
    let counters (a : Assembly) := (run a).1.foldl Counters.absorb {}
    ∃ a, create key 2 3 1 16 = .ok a ∧ a.intakes (sealedCalls key distant) = distant ∧
      skipped 1 0 (distant.map Intake.block) = 2 ∧ (run a).2.window.last = some 3 ∧
      (counters a).delivered = 1 ∧ (counters a).lost = 1 ∧
      ((run a).1.flatMap Report.emissions).countP isFiller = 1 ∧ (run a).2.pending = 1 := by
  intro key run counters
  have holds : ∀ a ∈ (create key 2 3 1 16).toOption, a.accepts distant = distant ∧
      (a.takeIn distant).2.window.last = some 3 ∧ (a.takeIn distant).2.pending = 1 ∧
      ((a.takeIn distant).1.flatMap Report.emissions).countP isPassed = 2 ∧
      ((a.takeIn distant).1.flatMap Report.emissions).countP isMisfit = 0 ∧
      ((a.takeIn distant).1.flatMap Report.emissions).countP isFiller = 1 := by decide +kernel
  obtain ⟨a, created, all, newest, due, passed, fit, filler⟩ := create_holds (by decide) holds
  obtain ⟨direct, taken⟩ := run_sealed created (show ∀ x ∈ distant, x.Fits 3 16 by decide)
  have way : skipped 1 0 (distant.map Intake.block) = 2 := by decide
  have begins : (a.intakes (sealedCalls key distant)).head? = some ⟨0, 1, [0, 0, 1, 7], true⟩ := by
    rw [taken, all]
    rfl
  obtain ⟨⟨last, isLast, -, total⟩, -, kinds, -⟩ := positions_accounted created _ begins
  rw [direct] at isLast total kinds
  rw [taken, all, way, due, filler, fit] at total
  rw [passed, filler, fit] at kinds
  obtain rfl := Option.some.inj (newest.symm.trans isLast)
  refine ⟨a, created, taken.trans all, way, ?_, ?_, ?_, ?_, ?_⟩ <;> simp only [run, counters, direct]
  · exact newest
  · omega
  · omega
  · exact filler
  · exact due

end Assembly

end AirLink
