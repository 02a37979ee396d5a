import AirLink.Proofs.Rebuild
import AirLink.Proofs.Sealing

/-! # What a fragment does to the window

Between two packets at most one block is open, the newest, because taking in a fragment gives up
every block in front of its own.  A fragment therefore meets one of four situations: its block is
behind the window, it is there already, it belongs to the open block, or it opens a new one.
-/

namespace AirLink

namespace Slot

/-- What becomes of a block in which a fragment has been stored: the fragments that leave it, and
the block itself if it stays open. -/
inductive Settled (code : ErasureCode) (recover : Bool) (s : Slot) :
    List Emission → Option Slot → Prop where
  | complete (all : (s.drain code.k .cutThrough).1.cursor = code.k) :
      Settled code recover s (s.drain code.k .cutThrough).2 none
  | waiting (gap : (s.drain code.k .cutThrough).1.cursor ≠ code.k)
      (few : ¬(recover = true ∧ s.used = code.k)) :
      Settled code recover s (s.drain code.k .cutThrough).2 (some (s.drain code.k .cutThrough).1)
  | rebuilt {filled : Slot} {count : Nat} (gap : (s.drain code.k .cutThrough).1.cursor ≠ code.k)
      (allowed : recover = true) (full : s.used = code.k)
      (rebuild : (s.drain code.k .cutThrough).1.rebuild code = .ok (filled, count)) :
      Settled code recover s
        ((s.drain code.k .cutThrough).2 ++ (filled.drain code.k .rebuilt).2) none

/-- The number of gaps that are filled when the block settles, if the erasure code is used. -/
def gain (code : ErasureCode) (recover : Bool) (s : Slot) : Option Nat :=
  if (s.drain code.k .cutThrough).1.cursor ≠ code.k ∧ recover = true ∧ s.used = code.k then
    some (s.absent code.k).length
  else none

theorem Settled.holding {code : ErasureCode} {size block : Nat} {recover : Bool} {s rest : Slot}
    {emissions : List Emission} (settled : Settled code recover s emissions (some rest))
    (h : s.Holding code size block) : rest.Holding code size block := by
  cases settled with
  | waiting => exact h.drain

end Slot

namespace Window

variable {w : Window} {p : Nat}

/-- A window in which at most one block is open. -/
structure Narrowed (w : Window) (last : Option Nat) (rest : Option Slot) (result : Window) :
    Prop where
  wellformed : result.Wellformed
  shaped : result.Shaped
  alike : Alike result w
  last : result.last = last
  live : result.live = rest.toList

theorem Wellformed.keep (h : w.Wellformed) (shaped : w.Shaped) (row : w.openPlaces = [p]) {slot : Slot}
    (index : slot.index = (w.slotAt p).index) (shape : slot.Shaped w.fragmentSize w.fragmentCount) :
    Narrowed w w.last (some slot) (w.modify p fun _ => slot) := by
  have inside : p < w.capacity := h.lt_capacity (mem_openPlaces.mp (row ▸ List.mem_cons_self ..)).1
  refine ⟨h.modify inside index, shaped.modify fun _ => shape, alike_modify .., rfl, ?_⟩
  rw [live, openPlaces_modify inside index, row, List.map_singleton, slotAt_modify_self inside]
  rfl

theorem Wellformed.close (h : w.Wellformed) (shaped : w.Shaped) (row : w.openPlaces = [p])
    {slot : Slot} (index : slot.index = (w.slotAt p).index)
    (shape : slot.Shaped w.fragmentSize w.fragmentCount) :
    Narrowed w w.last none ((w.modify p fun _ => slot).free p) := by
  have inside : p < w.capacity := h.lt_capacity (mem_openPlaces.mp (row ▸ List.mem_cons_self ..)).1
  have kept := h.keep shaped row index shape
  have inside' : p < (w.modify p fun _ => slot).capacity := by rwa [capacity_modify]
  refine ⟨kept.wellformed.free inside', kept.shaped.free p, (alike_free ..).trans kept.alike,
    last_free .., ?_⟩
  rw [live, openPlaces_free kept.wellformed.front_lt inside', openPlaces_modify inside index, row]
  simp

end Window

namespace Assembly

open Window (Alike Narrowed)

/-- Between two packets at most the newest block is open. -/
structure Ready (a : Assembly) : Prop where
  sound : ErasureCode.Sound a.code
  wellformed : a.window.Wellformed
  shaped : a.window.Shaped
  count : a.window.fragmentCount = a.code.n
  newest : a.window.live = [] ∨ ∃ s last, a.window.live = [s] ∧ a.window.last = some last ∧
    s.Holding a.code a.window.fragmentSize last

/-- The four ways of taking in a fragment. -/
inductive Taken (a : Assembly) (block fragment : Nat) (plain : Bytes) (recover : Bool) (r : Report)
    (next : Assembly) : Prop where
  | late (last : Nat) (seen : a.window.last = some last) (le : block ≤ last)
      (elsewhere : ∀ s ∈ a.window.live, s.index ≠ some block)
      (outcome : r.outcome = .ok .outOfWindow) (emissions : r.emissions = [])
      (window : next.window = a.window) (rebuilt : r.rebuilt = none)
  | duplicate (s : Slot) (live : a.window.live = [s]) (index : s.index = some block)
      (has : s.has fragment = true) (outcome : r.outcome = .ok .duplicate)
      (emissions : r.emissions = []) (window : next.window = a.window) (rebuilt : r.rebuilt = none)
  | stored (s : Slot) (rest : Option Slot) (live : a.window.live = [s])
      (index : s.index = some block) (new : s.has fragment = false)
      (settled : Slot.Settled a.code recover (s.store fragment plain) r.emissions rest)
      (outcome : r.outcome = .ok .accepted)
      (window : Narrowed a.window a.window.last rest next.window)
      (rebuilt : r.rebuilt = (s.store fragment plain).gain a.code recover)
  | opened (fresh : Slot) (below : List Nat) (emissions : List Emission) (rest : Option Slot)
      (above : ∀ last, a.window.last = some last → last < block)
      (isFresh : fresh.Fresh a.window.fragmentSize a.code.n block)
      (ascending : below.Pairwise (· < ·))
      (between : ∀ i ∈ below, i < block ∧ ∀ last, a.window.last = some last → last < i)
      (settled : Slot.Settled a.code recover (fresh.store fragment plain) emissions rest)
      (outcome : r.outcome = .ok .accepted)
      (split : r.emissions = a.window.live.flatMap (fun s => (s.drain a.code.k .stale).2) ++
        below.flatMap (fun i => (List.range a.code.k).map (Emission.lost i)) ++ emissions)
      (window : Narrowed a.window (some block) rest next.window)
      (rebuilt : r.rebuilt = (fresh.store fragment plain).gain a.code recover)
      (entering : a.window.entering block = below ++ [block])

variable {a : Assembly}

theorem Ready.holding_of_live (h : a.Ready) {s : Slot} (live : a.window.live = [s]) :
    ∃ last, a.window.last = some last ∧ s.Holding a.code a.window.fragmentSize last := by
  rcases h.newest with none | ⟨_, last, one, isLast, holding⟩
  · exact absurd (none.symm.trans live) (by simp)
  · rw [live, List.singleton_inj] at one
    subst one
    exact ⟨last, isLast, holding⟩

/-- A block that is open is the newest, and the only one. -/
theorem Ready.live_of_mem (h : a.Ready) {s : Slot} (inside : s ∈ a.window.live) :
    a.window.live = [s] ∧
      ∃ last, a.window.last = some last ∧ s.Holding a.code a.window.fragmentSize last := by
  rcases h.newest with none | ⟨_, last, live, isLast, holding⟩
  · rw [none] at inside
    cases inside
  · rw [live, List.mem_singleton] at inside
    subst inside
    exact ⟨live, last, isLast, holding⟩

theorem Ready.live_of_unused (h : a.Ready) (unused : a.window.last = none) : a.window.live = [] := by
  rcases h.newest with none | ⟨_, _, _, some, -⟩
  · exact none
  · rw [unused] at some
    cases some

/-- A block in which a fragment has been stored settles, and its window with it. -/
theorem forward_settled (sound : ErasureCode.Sound a.code) {w : Window} (h : w.Wellformed)
    (shaped : w.Shaped) {p block : Nat} (row : w.openPlaces = [p])
    (count : w.fragmentCount = a.code.n)
    (holding : (w.slotAt p).Holding a.code w.fragmentSize block) (recover : Bool)
    (before : List Emission) :
    ∃ emissions rest, Slot.Settled a.code recover (w.slotAt p) emissions rest ∧
      (a.forward w p recover before).1.outcome = .ok .accepted ∧
      (a.forward w p recover before).1.emissions = before ++ emissions ∧
      (a.forward w p recover before).1.rebuilt = (w.slotAt p).gain a.code recover ∧
      Narrowed w w.last rest (a.forward w p recover before).2.window := by
  have drained := holding.drain
  let slot := ((w.slotAt p).drain a.code.k .cutThrough).1
  have index : slot.index = (w.slotAt p).index := rfl
  have shape : slot.Shaped w.fragmentSize w.fragmentCount := count ▸ drained.shaped
  by_cases all : slot.cursor = a.code.k
  · have step : a.forward w p recover before = a.conclude ((w.modify p fun _ => slot).free p)
        (.ok .accepted) (before ++ ((w.slotAt p).drain a.code.k .cutThrough).2) := by
      simp only [forward]
      rw [if_pos all]
    rw [step]
    exact ⟨_, none, .complete all, rfl, rfl, (if_neg fun gap => gap.1 all).symm,
      h.close shaped row index shape⟩
  by_cases full : recover = true ∧ slot.used = a.code.k
  · obtain ⟨buffers, fits, filled⟩ := drained.rebuild_ok sound full.2
    let refilled := slot.refill (slot.absent a.code.k) buffers
    have step : a.forward w p recover before = a.conclude
        ((w.modify p fun _ => (refilled.drain a.code.k .rebuilt).1).free p) (.ok .accepted)
        (before ++ ((w.slotAt p).drain a.code.k .cutThrough).2 ++
          (refilled.drain a.code.k .rebuilt).2) (some (slot.absent a.code.k).length) := by
      simp only [forward]
      rw [if_neg all, if_pos ((Bool.and_eq_true ..).mpr ⟨full.1, decide_eq_true full.2⟩)]
      simp only [filled]
      rfl
    have shape := drained.shaped.refill (slot.absent a.code.k) fits
    rw [← count] at shape
    rw [step]
    exact ⟨_, none, .rebuilt all full.1 full.2 filled, rfl, List.append_assoc ..,
      (if_pos ⟨all, full⟩).symm, h.close shaped row (Slot.refill_frame _ _).1 ⟨shape.length, shape.buffers⟩⟩
  · have step : a.forward w p recover before = a.conclude (w.modify p fun _ => slot)
        (.ok .accepted) (before ++ ((w.slotAt p).drain a.code.k .cutThrough).2) := by
      simp only [forward]
      rw [if_neg all, if_neg]
      rw [Bool.and_eq_true, decide_eq_true_eq]
      exact full
    rw [step]
    exact ⟨_, _, .waiting all full, rfl, rfl, (if_neg fun used => full used.2).symm,
      h.keep shaped row index shape⟩

/-- Stores a fragment in a slot, gives up the blocks in front of it and empties it. -/
def deposit (a : Assembly) (w : Window) (p fragment : Nat) (plain : Bytes) (recover : Bool)
    (evictions : List Emission) : Report × Assembly :=
  let stored := w.modify p (·.store fragment plain)
  let (window, retired) := stored.retire a.code.k p
  a.forward window p recover (evictions ++ retired)

/-- Giving up the other blocks leaves the newest one with the fragment that has been stored in it. -/
theorem retire_stored (k : Nat) {w : Window} (h : w.Wellformed) (shaped : w.Shaped) {before : List Nat} {p : Nat}
    (row : w.openPlaces = before ++ [p]) (fragment : Nat) (plain : Bytes) :
    Window.Retired (w.modify p (·.store fragment plain)) k p before []
        ((w.modify p (·.store fragment plain)).retire k p) ∧
      ((w.modify p (·.store fragment plain)).retire k p).1.slotAt p = (w.slotAt p).store fragment plain := by
  let stored := w.modify p (·.store fragment plain)
  have capacity := h.lt_of_row row
  have stays : stored.openPlaces = before ++ [p] := (Window.openPlaces_modify capacity rfl).trans row
  have distinct := h.nodup_openPlaces
  rw [row, List.nodup_append] at distinct
  have short : before.length ≤ stored.span := by
    have le : w.openPlaces.length ≤ w.places.length := List.length_filter_le ..
    rw [row, Window.length_places, List.length_append] at le
    exact (Nat.le_add_right _ _).trans le
  have retired := (h.modify capacity rfl).retireBefore k stored.span
    (shaped.modify fun hp => (shaped p hp).store fragment plain) stays short
  have there : p ∉ before := fun member => distinct.2.2 p member p (List.mem_singleton_self p) rfl
  exact ⟨retired, (retired.kept p there).trans (Window.slotAt_modify_self capacity _)⟩

/-- After a fragment has been stored in the newest block, all others are given up and it settles. -/
theorem store_settled (sound : ErasureCode.Sound a.code) {w : Window} (h : w.Wellformed)
    (shaped : w.Shaped) {before : List Nat} {p block : Nat} (row : w.openPlaces = before ++ [p])
    (count : w.fragmentCount = a.code.n)
    (holding : (w.slotAt p).Holding a.code w.fragmentSize block) {fragment : Nat}
    {plain : Bytes} (suits : Slot.Suits w.fragmentSize a.code.n fragment plain)
    (new : (w.slotAt p).has fragment = false) (recover : Bool)
    (evictions : List Emission) :
    ∃ emissions rest,
      Slot.Settled a.code recover ((w.slotAt p).store fragment plain) emissions rest ∧
      (a.deposit w p fragment plain recover evictions).1.outcome = .ok .accepted ∧
      (a.deposit w p fragment plain recover evictions).1.emissions = evictions ++
        (before.map w.slotAt).flatMap (fun s => (s.drain a.code.k .stale).2) ++ emissions ∧
      (a.deposit w p fragment plain recover evictions).1.rebuilt =
        ((w.slotAt p).store fragment plain).gain a.code recover ∧
      Narrowed w w.last rest (a.deposit w p fragment plain recover evictions).2.window := by
  let stored := w.modify p (·.store fragment plain)
  obtain ⟨retired, there⟩ := retire_stored a.code.k h shaped row fragment plain
  have distinct := h.nodup_openPlaces
  rw [row, List.nodup_append] at distinct
  have other {q : Nat} (hq : q ∈ before) : q ≠ p := distinct.2.2 q hq p (List.mem_singleton_self p)
  have flushed : (stored.retire a.code.k p).2 =
      (before.map w.slotAt).flatMap fun s => (s.drain a.code.k .stale).2 := by
    refine retired.emissions.trans ?_
    rw [List.flatMap_map]
    refine List.flatMap_congr fun q hq => ?_
    rw [Window.slotAt_modify_ne _ (other hq)]
  have alike := retired.alike.trans (Window.alike_modify ..)
  obtain ⟨emissions, rest, settled, outcome, emitted, rebuilt, window⟩ :=
    forward_settled sound retired.wellformed retired.shaped retired.row
      (retired.alike.fragmentCount.trans count)
      (by
        rw [there, alike.fragmentSize]
        exact holding.store suits new)
      recover (evictions ++ (stored.retire a.code.k p).2)
  refine ⟨emissions, rest, there ▸ settled, outcome, flushed ▸ emitted, there ▸ rebuilt, ?_⟩
  exact ⟨window.wellformed, window.shaped, window.alike.trans alike, window.last.trans retired.last,
    window.live⟩

theorem Ready.of_same (h : a.Ready) {next : Assembly} (code : next.code = a.code)
    (window : next.window = a.window) : next.Ready := by
  refine ⟨code ▸ h.sound, ?_, ?_, ?_, ?_⟩ <;> rw [window]
  · exact h.wellformed
  · exact h.shaped
  · exact code ▸ h.count
  · exact code ▸ h.newest

theorem Ready.of_narrowed (h : a.Ready) {next : Assembly} (code : next.code = a.code)
    {last : Option Nat} {rest : Option Slot} (window : Narrowed a.window last rest next.window)
    (newest : ∀ s ∈ rest, ∃ block, last = some block ∧
      s.Holding a.code a.window.fragmentSize block) : next.Ready where
  sound := code ▸ h.sound
  wellformed := window.wellformed
  shaped := window.shaped
  count := by rw [window.alike.fragmentCount, h.count, code]
  newest := by
    rw [window.live, window.last, window.alike.fragmentSize, code]
    cases rest with
    | none => exact .inl rfl
    | some s =>
        obtain ⟨block, isLast, holding⟩ := newest s rfl
        exact .inr ⟨s, block, rfl, isLast, holding⟩

theorem accept_frame (a : Assembly) (block fragment : Nat) (plain : Bytes) (recover : Bool) :
    (a.accept block fragment plain recover).2.code = a.code ∧
      (a.accept block fragment plain recover).2.key = a.key := by
  unfold accept forward
  simp only []
  split
  · exact ⟨rfl, rfl⟩
  split
  · exact ⟨rfl, rfl⟩
  split
  · exact ⟨rfl, rfl⟩
  split
  · split <;> exact ⟨rfl, rfl⟩
  · exact ⟨rfl, rfl⟩

theorem place_of_live {w : Window} {s : Slot} (live : w.live = [s]) :
    ∃ p, w.openPlaces = [p] ∧ w.slotAt p = s := by
  obtain ⟨p, row, here⟩ := List.map_eq_singleton_iff.mp live
  exact ⟨p, row, here⟩

/-- The slot that is acquired for a block holds it, and is the last of the row. -/
theorem Ready.acquire_holding (h : a.Ready) {block p : Nat} (slot : (a.window.acquire block).slot = some p) :
    ∃ before, (a.window.acquire block).window.Wellformed ∧ (a.window.acquire block).window.Shaped ∧
      Alike (a.window.acquire block).window a.window ∧
      (a.window.acquire block).window.openPlaces = before ++ [p] ∧
      ((a.window.acquire block).window.slotAt p).Holding a.code a.window.fragmentSize block := by
  cases found : a.window.find? block with
  | some q =>
      rw [Window.acquire_found found] at slot ⊢
      cases slot
      rw [Window.find?_eq] at found
      have member := List.mem_of_find?_eq_some found
      have index : (a.window.slotAt p).index = some block := by simpa using List.find?_some found
      rcases h.newest with none | ⟨s, last, live, -, holding⟩
      · have empty : a.window.openPlaces = [] := List.map_eq_nil_iff.mp none
        rw [empty] at member
        cases member
      · obtain ⟨q, row, here⟩ := place_of_live live
        rw [row, List.mem_singleton] at member
        subst member
        rw [← here] at holding
        cases holding.index.symm.trans index
        exact ⟨[], h.wellformed, h.shaped, .refl _, row, holding⟩
  | none =>
      by_cases seen : ∃ last, a.window.last = some last ∧ block ≤ last
      · obtain ⟨last, isLast, le⟩ := seen
        rw [Window.acquire_late found isLast le] at slot
        cases slot
      obtain ⟨below, fresh, q, before, entered⟩ := h.wellformed.acquire_new h.shaped found
        fun last isLast => Nat.lt_of_not_le fun le => seen ⟨last, isLast, le⟩
      cases slot.symm.trans entered.slot
      refine ⟨before, entered.wellformed, entered.shaped, entered.alike, entered.row, ?_⟩
      rw [entered.here]
      exact (h.count ▸ entered.isFresh).holding

theorem Ready.accept_current (h : a.Ready) {block fragment : Nat} {plain : Bytes}
    (suits : Slot.Suits a.window.fragmentSize a.code.n fragment plain) (recover : Bool)
    {s : Slot} (live : a.window.live = [s]) (index : s.index = some block) :
    a.Taken block fragment plain recover (a.accept block fragment plain recover).1
      (a.accept block fragment plain recover).2 := by
  obtain ⟨p, row, rfl⟩ := place_of_live live
  have holding : (a.window.slotAt p).Holding a.code a.window.fragmentSize block := by
    obtain ⟨last, -, holding⟩ := h.holding_of_live live
    rwa [← Option.some.inj (index.symm.trans holding.index)] at holding
  have found : a.window.find? block = some p := by
    rw [Window.find?_eq, row, List.find?_cons_of_pos (by simp [index])]
  have acquired := Window.acquire_found found
  by_cases has : (a.window.slotAt p).has fragment = true
  · have step : a.accept block fragment plain recover = a.conclude a.window (.ok .duplicate) [] := by
      simp [Assembly.accept, acquired, has]
    rw [step]
    exact .duplicate _ live index has rfl rfl rfl rfl
  have new : (a.window.slotAt p).has fragment = false := Bool.eq_false_iff.mpr has
  obtain ⟨emissions, rest, settled, outcome, emitted, rebuilt, window⟩ := store_settled h.sound h.wellformed
    h.shaped (show a.window.openPlaces = [] ++ [p] from row) h.count holding suits new recover []
  have step : a.accept block fragment plain recover =
      a.deposit a.window p fragment plain recover [] := by
    simp only [Assembly.accept, acquired, new]
    rfl
  rw [step]
  exact .stored _ rest live index new (emitted ▸ settled) outcome window rebuilt

/-- Blocks that are skipped are lost as a whole. -/
theorem drain_freshFor {w : Window} {indices : List Nat} {slots : List Slot}
    (h : w.FreshFor indices slots) (k : Nat) :
    slots.flatMap (fun s => (s.drain k .stale).2) =
      indices.flatMap fun i => (List.range k).map (Emission.lost i) := by
  induction h with
  | nil => rfl
  | cons first _ ih => rw [List.flatMap_cons, List.flatMap_cons, ih, first.drain_stale]

theorem Ready.accept_new (h : a.Ready) {block fragment : Nat} {plain : Bytes}
    (suits : Slot.Suits a.window.fragmentSize a.code.n fragment plain) (recover : Bool)
    (elsewhere : ∀ s ∈ a.window.live, s.index ≠ some block)
    (above : ∀ last, a.window.last = some last → last < block) :
    a.Taken block fragment plain recover (a.accept block fragment plain recover).1
      (a.accept block fragment plain recover).2 := by
  obtain ⟨below, fresh, p, before, entered⟩ :=
    h.wellformed.acquire_new h.shaped (Window.find?_eq_none elsewhere) above
  obtain ⟨lower, older, lowerFresh⟩ := entered.older
  have isFresh := h.count ▸ entered.isFresh
  have holding : ((a.window.acquire block).window.slotAt p).Holding a.code
      (a.window.acquire block).window.fragmentSize block := by
    rw [entered.here, entered.alike.fragmentSize]
    exact isFresh.holding
  have new : ((a.window.acquire block).window.slotAt p).has fragment = false := by
    rw [entered.here]
    exact isFresh.not_has fragment
  obtain ⟨emissions, rest, settled, outcome, emitted, rebuilt, window⟩ := store_settled h.sound
    entered.wellformed entered.shaped entered.row (entered.alike.fragmentCount.trans h.count) holding
    (entered.alike.fragmentSize ▸ suits) new recover
    ((a.window.acquire block).evicted.flatMap fun s => (s.drain a.code.k .stale).2)
  rw [← List.flatMap_append, older, List.flatMap_append, drain_freshFor lowerFresh] at emitted
  rw [entered.here] at settled rebuilt
  have step : a.accept block fragment plain recover =
      a.deposit (a.window.acquire block).window p fragment plain recover
        ((a.window.acquire block).evicted.flatMap fun s => (s.drain a.code.k .stale).2) := by
    simp only [Assembly.accept, entered.slot, new]
    rfl
  rw [step]
  exact .opened fresh below emissions rest above isFresh entered.ascending entered.between settled
    outcome emitted ⟨window.wellformed, window.shaped, window.alike.trans entered.alike,
      window.last.trans entered.last, window.live⟩ rebuilt entered.entering

theorem Ready.accept (h : a.Ready) {block fragment : Nat} {plain : Bytes}
    (suits : Slot.Suits a.window.fragmentSize a.code.n fragment plain) (recover : Bool) :
    a.Taken block fragment plain recover (a.accept block fragment plain recover).1
      (a.accept block fragment plain recover).2 := by
  by_cases current : ∃ s, a.window.live = [s] ∧ s.index = some block
  · obtain ⟨s, live, index⟩ := current
    exact h.accept_current suits recover live index
  have elsewhere : ∀ s ∈ a.window.live, s.index ≠ some block := by
    exact fun s inside index => current ⟨s, (h.live_of_mem inside).1, index⟩
  by_cases seen : ∃ last, a.window.last = some last ∧ block ≤ last
  · obtain ⟨last, isLast, le⟩ := seen
    have step : a.accept block fragment plain recover = a.conclude a.window (.ok .outOfWindow) [] := by
      simp [Assembly.accept, Window.acquire_late (Window.find?_eq_none elsewhere) isLast le]
    rw [step]
    exact .late last isLast le elsewhere rfl rfl rfl rfl
  · exact h.accept_new suits recover elsewhere fun last isLast =>
      Nat.lt_of_not_le fun le => seen ⟨last, isLast, le⟩

theorem Taken.ready (h : a.Ready) {block fragment : Nat} {plain : Bytes}
    (suits : Slot.Suits a.window.fragmentSize a.code.n fragment plain) {recover : Bool}
    {r : Report} {next : Assembly} (code : next.code = a.code)
    (taken : a.Taken block fragment plain recover r next) : next.Ready := by
  cases taken with
  | late _ _ _ _ _ _ window => exact h.of_same code window
  | duplicate _ _ _ _ _ _ window => exact h.of_same code window
  | stored s rest live _ new settled _ window =>
      refine h.of_narrowed code window ?_
      rintro t rfl
      obtain ⟨last, isLast, holding⟩ := h.holding_of_live live
      exact ⟨last, isLast, settled.holding (holding.store suits new)⟩
  | opened fresh _ _ rest _ isFresh _ _ settled _ _ window =>
      refine h.of_narrowed code window ?_
      rintro t rfl
      exact ⟨block, rfl, settled.holding
        (isFresh.holding.store suits (isFresh.not_has fragment))⟩

/-- What a new assembly is made of. -/
theorem create_eq_ok {key : Key} {k n slots size : Nat} :
    create key k n slots size = .ok a ↔ ∃ code window, ErasureCode.create k n = .ok code ∧
      Window.create slots size n = .ok window ∧ a = { key, code, window } := by
  unfold create
  cases ErasureCode.create k n with
  | error fault => simp [bind, Except.bind]
  | ok code =>
      cases Window.create slots size n with
      | error fault => simp [bind, Except.bind]
      | ok window =>
          constructor
          · intro made
            exact ⟨code, window, rfl, rfl, (Except.ok.inj made).symm⟩
          · rintro ⟨_, _, ⟨⟩, ⟨⟩, rfl⟩
            rfl

theorem create_code {key : Key} {k n slots size : Nat} (h : create key k n slots size = .ok a) :
    ErasureCode.create k n = .ok a.code := by
  obtain ⟨code, window, made, -, rfl⟩ := create_eq_ok.mp h
  exact made

theorem create_ready {key : Key} {k n slots size : Nat} (h : create key k n slots size = .ok a) :
    a.Ready ∧ a.window.live = [] ∧ a.window.last = none ∧ a.window.fragmentSize = size ∧
      a.key = key ∧ a.code.k = k ∧ a.code.n = n := by
  obtain ⟨code, window, made, opened, rfl⟩ := create_eq_ok.mp h
  obtain ⟨hk, hn, sound⟩ := ErasureCode.create_eq_ok made
  have empty := Window.create_ok opened
  exact ⟨⟨sound, empty.wellformed, empty.shaped, empty.fragmentCount.trans hn.symm,
    .inl empty.live⟩, empty.live, empty.last, empty.fragmentSize, rfl, hk, hn⟩

theorem create_succeeds (key : Key) {k n slots size : Nat} (hk : 1 ≤ k) (hkn : k ≤ n) (hn : n ≤ 255)
    (hslots : 1 ≤ slots) (hsize : 1 ≤ size) (fits : size * n * slots ≤ Limits.memory) :
    ∃ a, create key k n slots size = .ok a := by
  obtain ⟨code, made, -⟩ := ErasureCode.create_ok hk hkn hn
  have some : ¬(slots = 0 ∨ size = 0 ∨ n = 0) := by omega
  have small : ¬Limits.memory < size * n * slots := Nat.not_lt.mpr fits
  unfold create
  rw [made]
  simp only [Window.create, if_neg some, if_neg small]
  exact ⟨_, rfl⟩

/-- What holds of anything that creation gives holds of an assembly that it gives. -/
theorem create_holds {key : Key} {k n slots size : Nat} {property : Assembly → Prop}
    (sizes : (1 ≤ k ∧ k ≤ n ∧ n ≤ 255) ∧ 1 ≤ slots ∧ 1 ≤ size ∧ size * n * slots ≤ Limits.memory)
    (holds : ∀ a ∈ (create key k n slots size).toOption, property a) :
    ∃ a, create key k n slots size = .ok a ∧ property a := by
  obtain ⟨⟨hk, hkn, hn⟩, hslots, hsize, fits⟩ := sizes
  obtain ⟨a, created⟩ := create_succeeds key hk hkn hn hslots hsize fits
  exact ⟨a, created, holds a (by rw [created]; rfl)⟩

/-- What is checked before a packet is opened. -/
theorem authenticate_eq_ok {x : Arrival} {plain : Bytes} :
    a.authenticate x = .ok plain ↔ Limits.dataCipher ≤ x.cipher.length ∧ x.block ≤ Limits.blockIndex ∧
      x.fragment < a.code.n ∧ x.cipher.length ≤ a.window.fragmentSize + Limits.tag ∧
      Cipher.Aead.decrypt a.key x.nonce x.clear x.cipher = .ok plain := by
  unfold authenticate
  simp only
  split_ifs with short block fragment large
  · simp [short]
  · simp [block]
  · simp [fragment]
  · simp [large]
  · simp only [Nat.not_lt, Nat.not_le] at short block fragment large
    simp only [short, block, fragment, large, true_and]
    cases Cipher.Aead.decrypt a.key x.nonce x.clear x.cipher <;> simp [Except.mapError]

theorem authenticate_ok {x : Arrival} {plain : Bytes} (h : a.authenticate x = .ok plain) :
    x.block ≤ Limits.blockIndex ∧
      Slot.Suits a.window.fragmentSize a.code.n x.fragment plain := by
  obtain ⟨long, block, fragment, fits, opened⟩ := authenticate_eq_ok.mp h
  have size := Cipher.Aead.length_of_decrypt opened
  simp only [Limits.dataCipher, Limits.fragmentHeader, Limits.tag] at *
  exact ⟨block, fragment, by omega, by omega⟩

theorem authenticate_long {x : Arrival} {plain : Bytes} (h : a.authenticate x = .ok plain) :
    Limits.fragmentHeader ≤ plain.length := by
  obtain ⟨long, -, -, -, opened⟩ := authenticate_eq_ok.mp h
  have size := Cipher.Aead.length_of_decrypt opened
  simp only [Limits.dataCipher, Limits.fragmentHeader, Limits.tag] at *
  omega

/-- Handling a packet keeps the assembly ready, and the code and the key as they are. -/
theorem Ready.receive (h : a.Ready) (x : Arrival) (recover : Bool) :
    (a.receive x recover).2.Ready ∧ (a.receive x recover).2.code = a.code ∧
      (a.receive x recover).2.key = a.key := by
  unfold Assembly.receive
  cases opened : a.authenticate x with
  | error fault => exact ⟨h, rfl, rfl⟩
  | ok plain =>
      obtain ⟨-, suits⟩ := authenticate_ok opened
      have frame := accept_frame a x.block x.fragment plain recover
      exact ⟨(h.accept suits recover).ready h suits frame.1, frame⟩

theorem Taken.alike {block fragment : Nat} {plain : Bytes} {recover : Bool} {r : Report} {next : Assembly}
    (taken : a.Taken block fragment plain recover r next) : Window.Alike next.window a.window := by
  cases taken with
  | late _ _ _ _ _ _ window => exact window ▸ .refl _
  | duplicate _ _ _ _ _ _ window => exact window ▸ .refl _
  | stored _ _ _ _ _ _ _ window => exact window.alike
  | opened _ _ _ _ _ _ _ _ _ _ _ window => exact window.alike

/-- The measures of the window stay, whatever arrives. -/
theorem Ready.receive_alike (h : a.Ready) (x : Arrival) (recover : Bool) :
    Window.Alike (a.receive x recover).2.window a.window := by
  unfold Assembly.receive
  cases opened : a.authenticate x with
  | error fault => exact .refl _
  | ok plain => exact (h.accept (authenticate_ok opened).2 recover).alike

theorem Ready.deliveries_of_error (ready : a.Ready) {x : Arrival} {recover : Bool} {cause : Fault}
    (outcome : (a.receive x recover).1.outcome = .error cause) :
    (a.receive x recover).1.deliveries = [] := by
  unfold Assembly.receive at outcome ⊢
  cases opened : a.authenticate x with
  | error fault => rfl
  | ok plain =>
      obtain ⟨-, suits⟩ := authenticate_ok opened
      rw [opened] at outcome
      cases ready.accept suits recover with
      | late _ _ _ _ result => cases result.symm.trans outcome
      | duplicate _ _ _ _ result => cases result.symm.trans outcome
      | stored _ _ _ _ _ _ result => cases result.symm.trans outcome
      | opened _ _ _ _ _ _ _ _ _ result => cases result.symm.trans outcome

end Assembly

end AirLink
