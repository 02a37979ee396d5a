import AirLink.Proofs.Departure

/-! # Which blocks a window holds

Whatever a window is asked for, and in whatever order its slots are freed, the run of slots in use
stays where the ring has room for it, begins with an open block and holds its blocks in ascending
order.  So a block is in at most one slot, and searching the run is enough to find it.
-/

namespace AirLink

namespace Window

/-- What can be asked of a window and of the slots in it. -/
inductive Op where
  | acquire (index : Nat)
  | free (place : Nat)
  | store (place fragment : Nat) (bytes : Bytes)
  | advance (place : Nat)
  deriving Repr, DecidableEq

/-- The slot that is named is one of so many. -/
def Op.Within (slots : Nat) : Op → Prop
  | .acquire _ => True
  | .free place => place < slots
  | .store place .. => place < slots
  | .advance place => place < slots

def perform (w : Window) : Op → Window
  | .acquire index => (w.acquire index).window
  | .free place => w.free place
  | .store place fragment bytes => w.modify place (·.store fragment bytes)
  | .advance place => w.modify place Slot.advance

def performAll (w : Window) (ops : List Op) : Window := ops.foldl perform w

/-- Which blocks the run holds.  Only blocks that have entered the window are in it, and the one
behind is always the newer one. -/
structure Regular (w : Window) (slots : Nat) : Prop extends w.Wellformed where
  capacity : w.capacity = slots
  ascending : w.indices.Pairwise (· < ·)
  le_last : ∀ i ∈ w.indices, ∃ last, w.last = some last ∧ i ≤ last

/-- How the front moves over free slots: one slot is dropped at a time, and only while there is one
in the run. -/
inductive Skips (slots : Array Slot) : Nat → Nat → Nat → Nat → Prop
  | stays {front span : Nat} (occupied : ((slots[front]?).bind Slot.index).isSome) :
      Skips slots front span front span
  | empties {front : Nat} (vacant : (slots[front]?).bind Slot.index = none) :
      Skips slots front 1 front 0
  | moves {front span front' span' : Nat} (vacant : (slots[front]?).bind Slot.index = none)
      (left : 0 < span) (rest : Skips slots ((front + 1) % slots.size) span front' span') :
      Skips slots front (span + 1) front' span'

variable {w : Window} {slots : Nat}

theorem indices_eq_live (w : Window) : w.indices = w.live.filterMap Slot.index := by
  rw [live, openPlaces, List.filterMap_map, List.filterMap_filter, indices]
  apply List.filterMap_congr
  intro p _
  cases here : (w.slotAt p).index <;> simp [isOpen, here]

theorem mem_indices {i : Nat} : i ∈ w.indices ↔ ∃ p ∈ w.places, (w.slotAt p).index = some i :=
  List.mem_filterMap

theorem indices_modify {p : Nat} {f : Slot → Slot} (hp : p < w.capacity)
    (keeps : (f (w.slotAt p)).index = (w.slotAt p).index) : (w.modify p f).indices = w.indices := by
  rw [indices, places_modify, indices]
  apply List.filterMap_congr
  intro q _
  by_cases same : q = p
  · rw [same, slotAt_modify_self hp, keeps]
  · rw [slotAt_modify_ne w same]

theorem index_of_mem {p i : Nat} (h : w.Wellformed) (here : (w.slotAt p).index = some i) :
    p ∈ w.places := by
  by_contra absent
  have vacant := h.outside p absent
  rw [isOpen, here] at vacant
  exact Bool.noConfusion vacant

/-! ## Searching -/

/-- Two places of a row whose indices ascend do not hold the same block. -/
theorem eq_of_index {p q i : Nat} {row : List Nat}
    (ascending : (row.filterMap fun p => (w.slotAt p).index).Pairwise (· < ·))
    (hp : p ∈ row) (hq : q ∈ row) (left : (w.slotAt p).index = some i)
    (right : (w.slotAt q).index = some i) : p = q := by
  induction row with
  | nil => cases hp
  | cons r row ih =>
      have other {q : Nat} (hq : q ∈ row) (here : (w.slotAt r).index = some i)
          (there : (w.slotAt q).index = some i) : False := by
        rw [List.filterMap_cons_some (f := fun p => (w.slotAt p).index) here,
          List.pairwise_cons] at ascending
        exact lt_irrefl i (ascending.1 i (List.mem_filterMap.mpr ⟨q, hq, there⟩))
      cases hp with
      | head =>
          cases hq with
          | head => rfl
          | tail _ hq => exact (other hq left right).elim
      | tail _ hp =>
          cases hq with
          | head => exact (other hp right left).elim
          | tail _ hq =>
              refine ih ?_ hp hq
              exact ascending.sublist ((List.sublist_cons_self r row).filterMap _)

/-- The search finds the slot that holds the block, wherever it is. -/
theorem Regular.find?_eq_some (h : w.Regular slots) {i p : Nat} :
    w.find? i = some p ↔ p < slots ∧ (w.slotAt p).index = some i := by
  constructor
  · intro found
    have member : p ∈ w.places := List.mem_of_find?_eq_some found
    have holds := List.find?_some found
    exact ⟨h.capacity ▸ h.toWellformed.lt_capacity member, by simpa using holds⟩
  · rintro ⟨-, holds⟩
    have member := index_of_mem h.toWellformed holds
    cases found : w.find? i with
    | none =>
        have absent := List.find?_eq_none.mp found p member
        simp [holds] at absent
    | some q =>
        have there := List.find?_some found
        exact congrArg some (eq_of_index h.ascending (List.mem_of_find?_eq_some found) member
          (by simpa using there) holds)

theorem find?_isNone {i : Nat} : w.find? i = none ↔ i ∉ w.indices := by
  rw [mem_indices, find?, List.find?_eq_none]
  simp

/-! ## Freeing -/

theorem skipFree_skips (slots : Array Slot) {front span : Nat} (some : 0 < span) :
    Skips slots front span (skipFree slots front span).1 (skipFree slots front span).2 := by
  induction span generalizing front with
  | zero => exact absurd some (lt_irrefl 0)
  | succ span ih =>
      rw [skipFree]
      cases occupied : ((slots[front]?).bind Slot.index).isSome with
      | true => exact .stays occupied
      | false =>
          have vacant := Option.isSome_eq_false_iff.mp occupied
          rw [if_neg (by simp)]
          by_cases last : span = 0
          · subst last
            exact .empties (by simpa using vacant)
          · rw [if_neg last]
            have left := Nat.pos_of_ne_zero last
            exact .moves (by simpa using vacant) left (ih left)

theorem free_skips (some : 0 < w.span) (p : Nat) :
    Skips (w.modify p fun s => { s with index := none }).slots w.front w.span
      (w.free p).front (w.free p).span := by
  have skips := @skipFree_skips (w.modify p fun s => { s with index := none }).slots w.front _ some
  simpa [free, Nat.ne_of_gt some, modify] using skips

/-- What freeing a slot does to the blocks in the window. -/
structure Freed (w : Window) (p : Nat) (v : Window) : Prop where
  indices : v.indices = w.indices.filter fun i => (w.slotAt p).index ≠ some i
  vacant : v.isOpen p = false
  others : ∀ q, q ≠ p → v.slotAt q = w.slotAt q
  found : ∀ i, (w.slotAt p).index ≠ some i → v.find? i = w.find? i
  last : v.last = w.last
  idle : w.span = 0 → v = w
  skips : 0 < w.span → Skips (w.modify p fun s => { s with index := none }).slots w.front w.span
    v.front v.span

theorem filterMap_filter_ne {row : List Nat} {p : Nat}
    (alone : ∀ q ∈ row, ∀ i, (w.slotAt q).index = some i → (w.slotAt p).index = some i → q = p) :
    (row.filter (· ≠ p)).filterMap (fun q => (w.slotAt q).index) =
      (row.filterMap fun q => (w.slotAt q).index).filter fun i => (w.slotAt p).index ≠ some i := by
  induction row with
  | nil => rfl
  | cons q row ih =>
      have ih := ih fun r hr => alone r (List.mem_cons_of_mem q hr)
      have here := alone q (List.mem_cons_self ..)
      by_cases same : q = p
      · subst same
        cases holds : (w.slotAt q).index with
        | none => simpa [holds] using ih
        | some i => simpa [holds] using ih
      · cases holds : (w.slotAt q).index with
        | none => simpa [same, holds] using ih
        | some i =>
            have other : (w.slotAt p).index ≠ some i := fun there => same (here i holds there)
            simpa [same, holds, other] using ih

theorem Regular.indices_free (h : w.Regular slots) {p : Nat} (hp : p < slots) :
    (w.free p).indices = w.indices.filter fun i => (w.slotAt p).index ≠ some i := by
  have inside : p < w.capacity := h.capacity.symm ▸ hp
  have row : (w.free p).indices =
      (w.openPlaces.filter (· ≠ p)).filterMap fun q => (w.slotAt q).index := by
    rw [indices_eq_live, live, openPlaces_free h.front_lt inside, List.filterMap_map]
    apply List.filterMap_congr
    intro q hq
    have other : q ≠ p := by simpa using (List.mem_filter.mp hq).2
    rw [Function.comp_apply, slotAt_free_ne other]
  rw [row, filterMap_filter_ne, indices_eq_live, live, List.filterMap_map]
  · rfl
  · intro q hq i left right
    exact eq_of_index h.ascending (mem_openPlaces.mp hq).1 (index_of_mem h.toWellformed right) left
      right

theorem Regular.free (h : w.Regular slots) {p : Nat} (hp : p < slots) :
    (w.free p).Regular slots where
  toWellformed := h.toWellformed.free (h.capacity.symm ▸ hp)
  capacity := (capacity_free ..).trans h.capacity
  ascending := by
    rw [h.indices_free hp]
    exact h.ascending.filter _
  le_last i hi := by
    rw [h.indices_free hp] at hi
    rw [last_free]
    exact h.le_last i (List.mem_of_mem_filter hi)

theorem Wellformed.vacant_free (h : w.Wellformed) {p : Nat} (hp : p < w.capacity) :
    (w.free p).isOpen p = false := by
  by_cases some : 0 < w.span
  · simp [isOpen_free some hp]
  · have none : w.span = 0 := by omega
    rw [free_of_span_zero none]
    exact h.outside p (by simp [places, none])

theorem Regular.freed (h : w.Regular slots) {p : Nat} (hp : p < slots) :
    Freed w p (w.free p) := by
  have vacant := h.toWellformed.vacant_free (h.capacity.symm ▸ hp)
  refine ⟨h.indices_free hp, vacant, fun _ => slotAt_free_ne, ?_, last_free .., ?_, ?_⟩
  · intro i other
    apply Option.ext
    intro q
    rw [(h.free hp).find?_eq_some, h.find?_eq_some]
    by_cases here : q = p
    · subst here
      have none : ((w.free q).slotAt q).index = none := by simpa [isOpen] using vacant
      simp [none, other]
    · rw [slotAt_free_ne here]
  · exact fun none => free_of_span_zero none p
  · exact fun some => free_skips some p

/-! ## Asking for a block -/

/-- What one can ask a window for: a block that is in it, one that has left it, or one that is yet
to come. -/
theorem acquire_cases (w : Window) (i : Nat) :
    (∃ p, w.find? i = some p ∧ w.acquire i = ⟨some p, w, []⟩) ∨
    (w.find? i = none ∧ (∃ last, w.last = some last ∧ i ≤ last) ∧ w.acquire i = ⟨none, w, []⟩) ∨
    (w.find? i = none ∧ ∀ last, w.last = some last → last < i) := by
  cases found : w.find? i with
  | some p => exact .inl ⟨p, rfl, acquire_found found⟩
  | none =>
      by_cases late : ∃ last, w.last = some last ∧ i ≤ last
      · obtain ⟨last, seen, le⟩ := late
        exact .inr (.inl ⟨rfl, ⟨last, seen, le⟩, acquire_late found seen le⟩)
      · refine .inr (.inr ⟨rfl, fun last seen => ?_⟩)
        by_contra le
        exact late ⟨last, seen, by omega⟩

theorem FreshFor.indices {below : List Nat} {row : List Slot} (h : w.FreshFor below row) :
    row.filterMap Slot.index = below := by
  induction h with
  | nil => rfl
  | cons first _ ih => rw [List.filterMap_cons_some first.index, ih]

/-- No block gets lost and none is made up. -/
theorem Wellformed.pushAll_indices (h : w.Wellformed) (shaped : w.Shaped) (below : List Nat) :
    (w.pushAll below).2.filterMap Slot.index ++ (w.pushAll below).1.indices =
      w.indices ++ below := by
  obtain ⟨fresh, conserved, areFresh⟩ := (h.pushAll_opened shaped below).conserved
  rw [indices_eq_live, indices_eq_live, ← List.filterMap_append, conserved, List.filterMap_append,
    areFresh.indices]

theorem entering_le {i j : Nat} (hj : j ∈ w.entering i) : j ≤ i := by
  cases seen : w.last <;> simp only [entering, seen, List.mem_range'_1] at hj <;> omega

theorem lt_entering {i j last : Nat} (seen : w.last = some last) (above : last < i)
    (hj : j ∈ w.entering i) : last < j := by
  simp only [entering, seen, List.mem_range'_1] at hj
  omega

/-- The blocks that enter are above those that are there. -/
theorem Regular.ascending_entering (h : w.Regular slots) {i : Nat}
    (above : ∀ last, w.last = some last → last < i) :
    (w.indices ++ w.entering i).Pairwise (· < ·) := by
  rw [List.pairwise_append]
  refine ⟨h.ascending, List.pairwise_lt_range', ?_⟩
  intro j hj l hl
  obtain ⟨last, seen, le⟩ := h.le_last j hj
  exact lt_of_le_of_lt le (lt_entering seen (above last seen) hl)

theorem Regular.acquire (h : w.Regular slots) (shaped : w.Shaped) (i : Nat) :
    (w.acquire i).window.Regular slots ∧ (w.acquire i).window.Shaped := by
  obtain ⟨p, -, same⟩ | ⟨-, -, same⟩ | ⟨absent, above⟩ := w.acquire_cases i
  · rw [same]
    exact ⟨h, shaped⟩
  · rw [same]
    exact ⟨h, shaped⟩
  · have opened := h.toWellformed.pushAll_opened shaped (w.entering i)
    have conserved := h.toWellformed.pushAll_indices shaped (w.entering i)
    have row := h.ascending_entering above
    rw [← conserved] at row
    rw [acquire_new absent above]
    refine ⟨⟨⟨opened.wellformed.front_lt, opened.wellformed.span_le,
      opened.wellformed.front_open, opened.wellformed.outside⟩,
      opened.alike.capacity.trans h.capacity, (List.pairwise_append.mp row).2.1, ?_⟩, opened.shaped⟩
    intro j hj
    have member : j ∈ w.indices ++ w.entering i := conserved ▸ List.mem_append_right _ hj
    refine ⟨i, rfl, ?_⟩
    cases List.mem_append.mp member with
    | inl old =>
        obtain ⟨last, seen, le⟩ := h.le_last j old
        exact le.trans (above last seen).le
    | inr new => exact entering_le new

/-! ## Any requests -/

theorem Regular.modify (h : w.Regular slots) {p : Nat} {f : Slot → Slot} (hp : p < slots)
    (keeps : (f (w.slotAt p)).index = (w.slotAt p).index) : (w.modify p f).Regular slots := by
  have inside : p < w.capacity := h.capacity.symm ▸ hp
  refine ⟨h.toWellformed.modify inside keeps, (capacity_modify ..).trans h.capacity, ?_, ?_⟩
  · rw [indices_modify inside keeps]
    exact h.ascending
  · rw [indices_modify inside keeps]
    exact h.le_last

theorem Regular.perform (h : w.Regular slots) (shaped : w.Shaped) {op : Op}
    (within : op.Within slots) :
    (w.perform op).Regular slots ∧ (w.perform op).Shaped := by
  cases op with
  | acquire index => exact h.acquire shaped index
  | free place => exact ⟨h.free within, shaped.free place⟩
  | store place fragment bytes =>
      exact ⟨h.modify within rfl, shaped.modify fun hp => (shaped place hp).store fragment bytes⟩
  | advance place =>
      exact ⟨h.modify within rfl, shaped.modify fun hp =>
        ⟨(shaped place hp).length, (shaped place hp).buffers⟩⟩

theorem create_regular {size count : Nat} (created : create slots size count = .ok w) :
    w.Regular slots ∧ w.Shaped := by
  have empty := create_ok created
  have none : w.indices = [] := by rw [indices_eq_live, empty.live, List.filterMap_nil]
  refine ⟨⟨empty.wellformed, ?_, none ▸ .nil, by simp [none]⟩, empty.shaped⟩
  unfold create at created
  split_ifs at created
  cases created
  simp [Window.capacity]

theorem Regular.performAll (h : w.Regular slots) (shaped : w.Shaped) {ops : List Op}
    (within : ∀ op ∈ ops, op.Within slots) :
    (w.performAll ops).Regular slots ∧ (w.performAll ops).Shaped := by
  induction ops generalizing w with
  | nil => exact ⟨h, shaped⟩
  | cons op ops ih =>
      obtain ⟨regular, shaped⟩ := h.perform shaped (within op (List.mem_cons_self ..))
      exact ih regular shaped fun op hop => within op (List.mem_cons_of_mem _ hop)

/-- Whatever a window has been asked for: the run lies within the ring and begins with an open block,
no block is outside of it, its blocks ascend and none is above the last one; searching finds the one
slot that holds a block; and freeing takes out that block and leaves everything else. -/
theorem performAll_regular {size count : Nat} {new : Window}
    (created : create slots size count = .ok new) {ops : List Op}
    (within : ∀ op ∈ ops, op.Within slots) :
    (new.performAll ops).Regular slots ∧
    (∀ i p, (new.performAll ops).find? i = some p ↔
      p < slots ∧ ((new.performAll ops).slotAt p).index = some i) ∧
    (∀ i, (new.performAll ops).find? i = none ↔ i ∉ (new.performAll ops).indices) ∧
    ∀ p < slots, Freed (new.performAll ops) p ((new.performAll ops).free p) := by
  obtain ⟨regular, shaped⟩ := create_regular created
  have reached := (regular.performAll shaped within).1
  exact ⟨reached, fun _ _ => reached.find?_eq_some, fun _ => find?_isNone,
    fun _ hp => reached.freed hp⟩

/-- A block of the middle is freed, then the oldest one: the front moves over both. -/
theorem performAll_regular_hole :
    ∃ new, create 3 4 2 = .ok new ∧
      let w := new.performAll [.acquire 4, .acquire 6, .free 1, .free 0]
      w.Regular 3 ∧ w.front = 2 ∧ w.indices = [6] ∧ w.find? 6 = some 2 := by
  have within : ∀ op ∈ [Op.acquire 4, .acquire 6, .free 1, .free 0], op.Within 3 := by
    simp [Op.Within]
  obtain ⟨new, created⟩ : ∃ new, create 3 4 2 = .ok new := ⟨_, rfl⟩
  have regular := performAll_regular created within
  cases created
  exact ⟨_, rfl, regular.1, rfl, rfl, rfl⟩

end Window

end AirLink
