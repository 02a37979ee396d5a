import AirLink.Proofs.Occupancy

/-! # How blocks come and go

When a block is asked for that is yet to come, it enters the window together with blocks below it,
and as many slots as the ring is short of have to be given up at the front of the run.  Some of them
may be free already.  Those that are not are handed over as they are, those behind keep their place
and all that is in them, and the new ones join the row at its end.
-/

namespace AirLink

namespace Window

variable {w : Window} {slots : Nat}

/-- The slot of the block that has to go for the next one. -/
def oldest (w : Window) : List Nat := if w.span = w.capacity then [w.front] else []

/-- The slots whose blocks have to go for so many others. -/
def outgoing (w : Window) (count : Nat) : List Nat :=
  (w.places.take (w.span + count - w.capacity)).filter w.isOpen

/-- The slots whose blocks stay when so many others come. -/
def staying (w : Window) (count : Nat) : List Nat :=
  (w.places.drop (w.span + count - w.capacity)).filter w.isOpen

theorem leaving_eq (w : Window) : w.leaving = w.oldest.map w.slotAt := by
  unfold leaving oldest
  split <;> rfl

theorem outgoing_append_staying (w : Window) (count : Nat) :
    w.outgoing count ++ w.staying count = w.openPlaces := by
  rw [outgoing, staying, ← List.filter_append, List.take_append_drop]
  rfl

theorem Wellformed.outgoing_zero (h : w.Wellformed) : w.outgoing 0 = [] := by
  have fits : w.span + 0 - w.capacity = 0 := by
    have := h.span_le
    omega
  rw [outgoing, fits, List.take_zero, List.filter_nil]

theorem Wellformed.staying_zero (h : w.Wellformed) : w.staying 0 = w.openPlaces := by
  rw [← w.outgoing_append_staying 0, h.outgoing_zero, List.nil_append]

/-- The run loses the oldest block and the free slots behind it. -/
theorem Wellformed.places_roomy (h : w.Wellformed) :
    ∃ holes, w.places = w.oldest ++ holes ++ w.roomy.places ∧
      (∀ q ∈ holes, w.isOpen q = false) ∧ (w.span < w.capacity → holes = []) := by
  have front := h.front_lt
  unfold oldest Window.roomy
  by_cases full : w.span = w.capacity
  · have some : 0 < w.span := by omega
    obtain ⟨rest, row, -⟩ := h.openPlaces_cons some
    have distinct := h.nodup_places
    rw [row, List.nodup_cons] at distinct
    let vacant (q : Nat) : Bool := !(w.free w.front).isOpen q
    have shorter : (w.free w.front).places = rest.dropWhile vacant := by
      rw [(places_free some front w.front).2.2, row, List.dropWhile_cons_of_pos]
      simp [isOpen_free some front]
    refine ⟨rest.takeWhile vacant, ?_, ?_, by omega⟩
    · rw [if_pos full, if_pos full, shorter, List.append_assoc, List.takeWhile_append_dropWhile, row]
      rfl
    · intro q hq
      have dropped : vacant q = true := List.mem_takeWhile_imp hq
      have member : q ∈ rest := (List.takeWhile_sublist _).subset hq
      have other : q ≠ w.front := fun same => distinct.1 (same ▸ member)
      simpa [vacant, isOpen_free some front, other] using dropped
  · refine ⟨[], ?_, by simp, fun _ => rfl⟩
    rw [if_neg full, if_neg full]
    rfl

theorem places_push (w : Window) (i : Nat) :
    (w.push i).1.places = w.roomy.places ++ [w.roomy.place w.roomy.span] := by
  rw [push_eq, places_eq_ring, places_eq_ring]
  simp only [capacity, modify, Array.size_modify]
  exact ring_snoc ..

theorem span_push (w : Window) (i : Nat) : (w.push i).1.span = w.roomy.span + 1 := by
  rw [push_eq]

/-- The blocks that stay when one is opened keep all that is in them. -/
theorem Wellformed.slotAt_push (h : w.Wellformed) (i : Nat) {q : Nat} (hq : q ∈ w.roomy.places) :
    (w.push i).1.slotAt q = w.slotAt q := by
  have room : w.roomy.span < w.roomy.capacity := (capacity_roomy w).symm ▸ h.roomy_span
  have other : q ≠ w.roomy.place w.roomy.span := by
    rintro rfl
    exact next_not_mem_ring room hq
  rw [(h.push i).2.2.1 q other]
  obtain ⟨holes, row, -, -⟩ := h.places_roomy
  have distinct := h.nodup_places
  unfold Window.roomy at hq row ⊢
  split
  next full =>
    rw [if_pos full] at hq row
    rw [row, oldest, if_pos full, List.nodup_append] at distinct
    exact slotAt_free_ne fun same => distinct.2.2 w.front (by simp) q hq same.symm
  next => rfl

theorem Wellformed.isOpen_push (h : w.Wellformed) (i : Nat) {q : Nat} (hq : q ∈ w.roomy.places) :
    (w.push i).1.isOpen q = w.isOpen q := by
  rw [isOpen, h.slotAt_push i hq]
  rfl

/-- Of the slots in front of those that stay, at most the first holds a block. -/
theorem Wellformed.open_ahead (h : w.Wellformed) {holes : List Nat}
    (vacant : ∀ q ∈ holes, w.isOpen q = false) (none : w.span < w.capacity → holes = []) {short : Nat}
    (first : w.span = w.capacity → 0 < short) :
    ((w.oldest ++ holes).take short).filter w.isOpen = w.oldest ∧
      ((w.oldest ++ holes).drop short).filter w.isOpen = [] := by
  have closed (part : List Nat) (free : ∀ q ∈ part, w.isOpen q = false) :
      part.filter w.isOpen = [] := by
    rw [List.filter_eq_nil_iff]
    intro q hq
    simp [free q hq]
  by_cases full : w.span = w.capacity
  · have some : 0 < w.span := by
      have := h.front_lt
      omega
    obtain ⟨n, hn⟩ : ∃ n, short = n + 1 := ⟨short - 1, by have := first full; omega⟩
    have oldest : w.oldest = [w.front] := if_pos full
    rw [hn, oldest, List.singleton_append, List.take_succ_cons, List.drop_succ_cons,
      List.filter_cons_of_pos (h.front_open some), closed, closed]
    · exact ⟨rfl, rfl⟩
    · exact fun q hq => vacant q (List.mem_of_mem_drop hq)
    · exact fun q hq => vacant q (List.mem_of_mem_take hq)
  · have oldest : w.oldest = [] := if_neg full
    have := h.span_le
    rw [oldest, none (by omega)]
    simp

/-- The blocks that have to go are the oldest one, if the run is full, and those that have to go once
the next block is there; one more stays then. -/
theorem Wellformed.outgoing_push (h : w.Wellformed) (i : Nat) {count : Nat}
    (fits : count + 1 ≤ w.capacity) :
    w.outgoing (count + 1) = w.oldest ++ (w.push i).1.outgoing count ∧
    (w.push i).1.staying count = w.staying (count + 1) ++ [w.roomy.place w.roomy.span] := by
  obtain ⟨holes, row, vacant, none⟩ := h.places_roomy
  let gone := w.oldest ++ holes
  let short := w.span + (count + 1) - w.capacity
  have length : w.span = gone.length + w.roomy.span := by
    rw [← length_places, ← length_places w.roomy, row, List.length_append]
  have less : (w.push i).1.span + count - (w.push i).1.capacity = short - gone.length := by
    rw [span_push, (alike_push w i).capacity]
    simp only [short]
    omega
  have within : short - gone.length ≤ w.roomy.places.length := by
    rw [length_places]
    simp only [short]
    omega
  have ahead : (gone.take short).filter w.isOpen = w.oldest ∧ (gone.drop short).filter w.isOpen = [] :=
    h.open_ahead vacant none fun full => by
      simp only [short]
      omega
  have same (part : List Nat) (inside : ∀ q ∈ part, q ∈ w.roomy.places) :
      part.filter (w.push i).1.isOpen = part.filter w.isOpen :=
    List.filter_congr fun q hq => h.isOpen_push i (inside q hq)
  have opened : (w.push i).1.isOpen (w.roomy.place w.roomy.span) = true := by
    rw [isOpen, (h.push i).2.2.2]
    rfl
  constructor
  · rw [outgoing, outgoing, less, places_push, List.take_append_of_le_length within,
      same _ fun _ => List.mem_of_mem_take, row, List.take_append, List.filter_append, ahead.1]
  · rw [staying, staying, less, places_push, List.drop_append_of_le_length within,
      List.filter_append, same _ fun _ => List.mem_of_mem_drop, row, List.drop_append,
      List.filter_append, ahead.2, List.nil_append, List.filter_cons_of_pos opened]
    rfl

/-- Between the block that has to go and the one that comes nothing else moves. -/
theorem Wellformed.openPlaces_roomy (h : w.Wellformed) (i : Nat) {count : Nat}
    (fits : count + 1 ≤ w.capacity) :
    w.roomy.openPlaces = (w.push i).1.outgoing count ++ w.staying (count + 1) := by
  have row := (w.push i).1.outgoing_append_staying count
  rw [(h.outgoing_push i fits).2, (h.push i).2.1, ← List.append_assoc] at row
  exact (List.append_cancel_right row).symm

theorem pushAll_cons (w : Window) (i : Nat) (rest : List Nat) :
    w.pushAll (i :: rest) =
      (((w.push i).1.pushAll rest).1, (w.push i).2 ++ ((w.push i).1.pushAll rest).2) := rfl

theorem snd_push (w : Window) (i : Nat) : (w.push i).2 = w.oldest.map w.slotAt := by
  rw [push_eq, leaving_eq]

/-- What opening blocks one after another does to those that are there. -/
structure Replaced (w : Window) (entering : List Nat) (added : List Nat)
    (result : Window × List Slot) : Prop where
  evicted : result.2 = (w.outgoing entering.length).map w.slotAt
  row : result.1.openPlaces = w.staying entering.length ++ added
  kept : ∀ q ∈ w.staying entering.length, result.1.slotAt q = w.slotAt q
  fresh : w.FreshFor entering (added.map result.1.slotAt)

theorem Wellformed.pushAll_replaced (h : w.Wellformed) (shaped : w.Shaped) {entering : List Nat}
    (fits : entering.length ≤ w.capacity) :
    ∃ added, Replaced w entering added (w.pushAll entering) := by
  induction entering generalizing w with
  | nil =>
      refine ⟨[], ?_, ?_, fun _ _ => rfl, .nil⟩
      · simp [pushAll, h.outgoing_zero]
      · simp [pushAll, h.staying_zero]
  | cons i rest ih =>
      let p := w.roomy.place w.roomy.span
      have opened := h.push_opened shaped i
      have between := h.openPlaces_roomy i fits
      obtain ⟨out, stay⟩ := h.outgoing_push i fits
      have less : rest.length ≤ (w.push i).1.capacity := by
        rw [opened.alike.capacity]
        exact Nat.le_of_succ_le fits
      obtain ⟨added, more⟩ := ih opened.wellformed opened.shaped less
      have same (q : Nat) (hq : q ∈ (w.push i).1.outgoing rest.length ++ w.staying (rest.length + 1)) :
          (w.push i).1.slotAt q = w.slotAt q := by
        rw [← between] at hq
        exact h.slotAt_push i (mem_openPlaces.mp hq).1
      rw [pushAll_cons]
      refine ⟨p :: added, ?_, ?_, ?_, ?_⟩
      · rw [List.length_cons, out, List.map_append, snd_push, more.evicted]
        exact congrArg _ (List.map_congr_left fun q hq => same q (List.mem_append_left _ hq))
      · rw [List.length_cons, List.append_cons, ← stay]
        exact more.row
      · intro q hq
        have stays : q ∈ (w.push i).1.staying rest.length := stay ▸ List.mem_append_left _ hq
        exact (more.kept q stays).trans (same q (List.mem_append_right _ hq))
      · have inside : p < w.roomy.capacity := Nat.mod_lt _ (Nat.zero_lt_of_lt h.roomy.front_lt)
        have newest := more.kept p (stay ▸ List.mem_append_right _ (List.mem_singleton_self p))
        have isFresh := (shaped.roomy p inside).reset i
        rw [(alike_roomy w).fragmentSize, (alike_roomy w).fragmentCount] at isFresh
        have areFresh := more.fresh
        rw [FreshFor, opened.alike.fragmentSize, opened.alike.fragmentCount] at areFresh
        refine .cons ?_ areFresh
        rw [newest, (h.push i).2.2.2]
        exact isFresh

/-- A block is let go only while the run takes up all slots. -/
theorem Wellformed.push_evicts (h : w.Wellformed) {i : Nat} (evicts : (w.push i).2 ≠ []) :
    w.span = w.capacity ∧ (w.push i).2 = [w.slotAt w.front] ∧ w.isOpen w.front = true := by
  rw [snd_push, oldest] at evicts ⊢
  split at evicts
  next full =>
    refine ⟨full, by simp [full], h.front_open ?_⟩
    have := h.front_lt
    omega
  next => exact absurd rfl evicts

theorem pushAll_append (w : Window) (before after : List Nat) :
    w.pushAll (before ++ after) =
      (((w.pushAll before).1.pushAll after).1,
        (w.pushAll before).2 ++ ((w.pushAll before).1.pushAll after).2) := by
  induction before generalizing w with
  | nil => rfl
  | cons i before ih => rw [List.cons_append, pushAll_cons, ih, pushAll_cons, List.append_assoc]

/-- How many blocks enter together with a new one. -/
def arrivals (w : Window) (i : Nat) : Nat :=
  match w.last with
  | none => 1
  | some last => min (i - last) w.capacity

theorem entering_eq (w : Window) (i : Nat) :
    w.entering i = List.range' (i + 1 - w.arrivals i) (w.arrivals i) := rfl

theorem Wellformed.arrivals_range (h : w.Wellformed) {i : Nat}
    (above : ∀ last, w.last = some last → last < i) :
    0 < w.arrivals i ∧ w.arrivals i ≤ i + 1 ∧ w.arrivals i ≤ w.capacity := by
  have front := h.front_lt
  unfold arrivals
  cases seen : w.last with
  | none => simp only; omega
  | some last =>
      have := above last seen
      simp only
      omega

theorem getLast?_places (used : 0 < w.span) : w.places.getLast? = some (w.place (w.span - 1)) := by
  obtain ⟨span, hs⟩ := Nat.exists_eq_succ_of_ne_zero (Nat.ne_of_gt used)
  simp [places, hs, List.range_succ]

/-- What asking for a block that is yet to come leads to. -/
structure Turnover (w : Window) (i p : Nat) (added : List Nat) (acquired : Acquired) : Prop where
  /-- Some blocks enter, and their indices are not below zero. -/
  enter : 0 < w.arrivals i ∧ w.arrivals i ≤ i + 1
  /-- What was let go and what is there afterwards is what was there and what has entered. -/
  conserved : acquired.evicted.filterMap Slot.index ++ acquired.window.indices =
    w.indices ++ List.range' (i + 1 - w.arrivals i) (w.arrivals i)
  /-- Of the blocks that were there some go and the others stay. -/
  parted : w.outgoing (w.arrivals i) ++ w.staying (w.arrivals i) = w.openPlaces
  /-- The blocks let go are handed over as they were. -/
  evicted : acquired.evicted = (w.outgoing (w.arrivals i)).map w.slotAt
  /-- Whichever of the blocks enters, another one has to go for it only if the run takes up all
  slots, and then it is the oldest. -/
  full : ∀ before j after, w.entering i = before ++ j :: after →
    let v := (w.pushAll before).1
    acquired.evicted = (w.pushAll before).2 ++ (v.push j).2 ++ ((v.push j).1.pushAll after).2 ∧
    ((v.push j).2 ≠ [] →
      v.span = w.capacity ∧ (v.push j).2 = [v.slotAt v.front] ∧ v.isOpen v.front = true)
  row : acquired.window.openPlaces = w.staying (w.arrivals i) ++ added
  kept : ∀ q ∈ w.staying (w.arrivals i), acquired.window.slotAt q = w.slotAt q
  fresh : w.FreshFor (List.range' (i + 1 - w.arrivals i) (w.arrivals i))
    (added.map acquired.window.slotAt)
  last : acquired.window.last = some i
  slot : acquired.slot = some p
  newest : acquired.window.places.getLast? = some p
  holds : (acquired.window.slotAt p).index = some i

theorem Regular.acquire_new (h : w.Regular slots) (shaped : w.Shaped) {i : Nat}
    (absent : i ∉ w.indices) (above : ∀ last, w.last = some last → last < i) :
    ∃ p added, Turnover w i p added (w.acquire i) := by
  have wellformed := h.toWellformed
  obtain ⟨positive, low, fits⟩ := wellformed.arrivals_range above
  have length : (w.entering i).length = w.arrivals i := by rw [entering_eq, List.length_range']
  obtain ⟨added, replaced⟩ := wellformed.pushAll_replaced shaped (length.trans_le fits)
  have missing := find?_isNone.mpr absent
  obtain ⟨below, fresh, p, before, entered⟩ := wellformed.acquire_new shaped missing above
  have same := Window.acquire_new missing above
  have place := entered.slot
  rw [same] at place entered ⊢
  have used : 0 < (w.pushAll (w.entering i)).1.span := by
    by_contra none
    have row := entered.row
    rw [openPlaces_of_span_zero (by simpa using none)] at row
    exact absurd row (by simp)
  refine ⟨p, added, ⟨positive, low⟩, wellformed.pushAll_indices shaped (w.entering i),
    outgoing_append_staying .., ?_, ?_, ?_, ?_, replaced.fresh, rfl, place, ?_, ?_⟩
  · rw [← length]
    exact replaced.evicted
  · intro before j after split v
    have opened := wellformed.pushAll_opened shaped before
    constructor
    · rw [split, pushAll_append, pushAll_cons, List.append_assoc]
    · intro evicts
      rw [← opened.alike.capacity]
      exact opened.wellformed.push_evicts evicts
  · rw [← length]
    exact replaced.row
  · rw [← length]
    exact replaced.kept
  · exact (getLast?_places used).trans place
  · rw [entered.here]
    exact entered.isFresh.index

/-- Asking for a block, whatever a window has been asked for before: a block that is there is found
and one that has been passed is not, which both change nothing, and one that is yet to come enters at
the end of the row. -/
theorem acquire_turnover {size count : Nat} {new : Window}
    (created : create slots size count = .ok new) {ops : List Op}
    (within : ∀ op ∈ ops, op.Within slots) (i : Nat) :
    let w := new.performAll ops
    w.capacity = slots ∧
    (∀ p < slots, (w.slotAt p).index = some i → w.acquire i = ⟨some p, w, []⟩) ∧
    (i ∉ w.indices →
      (∀ last, w.last = some last → i ≤ last → w.acquire i = ⟨none, w, []⟩) ∧
      ((∀ last, w.last = some last → last < i) →
        ∃ p added, Turnover w i p added (w.acquire i))) := by
  intro w
  obtain ⟨regular, shaped⟩ := create_regular created
  obtain ⟨reached, shaped⟩ := regular.performAll shaped within
  refine ⟨reached.capacity, ?_, ?_⟩
  · intro p inside holds
    exact acquire_found (reached.find?_eq_some.mpr ⟨inside, holds⟩)
  · intro absent
    constructor
    · intro last seen le
      exact acquire_late (find?_isNone.mpr absent) seen le
    · exact fun above => reached.acquire_new shaped absent above

/-- The run spans all slots because of a hole: one block goes, and the run gets shorter. -/
theorem acquire_turnover_hole :
    ∃ new, create 3 4 2 = .ok new ∧
      let w := new.performAll [.acquire 4, .acquire 6, .free 1]
      (∃ p added, Turnover w 7 p added (w.acquire 7)) ∧ w.span = 3 ∧
        (w.acquire 7).evicted.map Slot.index = [some 4] ∧ (w.acquire 7).window.indices = [6, 7] := by
  have within : ∀ op ∈ [Op.acquire 4, .acquire 6, .free 1], op.Within 3 := by simp [Op.Within]
  obtain ⟨new, created⟩ : ∃ new, create 3 4 2 = .ok new := ⟨_, rfl⟩
  have turnover := acquire_turnover created within 7
  cases created
  exact ⟨_, rfl, (turnover.2.2 (by decide)).2 (by decide), rfl, rfl, rfl⟩

end Window

end AirLink
