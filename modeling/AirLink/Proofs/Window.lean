import Mathlib
import AirLink.Assembly

/-! # The open blocks of a window

What a window does shows in the row of its open slots, oldest first.  Freeing takes one slot out of
the row, however many free slots the front then skips; opening a block adds one at the end, and if
the ring was full the oldest slot is handed over first.  So no block gets lost: what was let go and
what is open afterwards is what was open before and what was opened.
-/

namespace AirLink

namespace Slot

/-- The slot has a buffer of the given size for each of so many fragments. -/
structure Shaped (size count : Nat) (s : Slot) : Prop where
  length : s.cells.length = count
  buffers : ∀ c ∈ s.cells, c.buffer.length = size

/-- The slot has been opened for a block and nothing has been stored in it. -/
structure Fresh (size count index : Nat) (s : Slot) : Prop where
  shaped : s.Shaped size count
  index : s.index = some index
  used : s.used = 0
  cursor : s.cursor = 0
  empty : ∀ c ∈ s.cells, c.length = 0

theorem Shaped.reset {size count : Nat} {s : Slot} (h : s.Shaped size count) (index : Nat) :
    (s.reset index).Fresh size count index where
  shaped :=
    { length := by simp [Slot.reset, h.length]
      buffers := by simpa [Slot.reset] using h.buffers }
  index := rfl
  used := rfl
  cursor := rfl
  empty := by simp [Slot.reset]

theorem Fresh.not_has {size count index : Nat} {s : Slot} (h : s.Fresh size count index) (i : Nat) :
    s.has i = false := by
  cases cell : s.cells[i]? with
  | none => simp [has, lengthOf, cell]
  | some c => simp [has, lengthOf, cell, h.empty c (List.mem_of_getElem? cell)]

end Slot

namespace Window

/-- The numbers of so many slots in a row, around the end of the ring. -/
def ring (size front span : Nat) : List Nat := (List.range span).map fun i => (front + i) % size

theorem ring_mod (size front span : Nat) : ring size (front % size) span = ring size front span := by
  simp [ring]

theorem ring_cons (size front span : Nat) :
    ring size front (span + 1) = front % size :: ring size (front + 1) span := by
  simp only [ring, List.range_succ_eq_map, List.map_cons, List.map_map, Nat.add_zero]
  congr 1
  apply List.map_congr_left
  intro i _
  simp only [Function.comp_apply]
  congr 1
  omega

theorem ring_snoc (size front span : Nat) :
    ring size front (span + 1) = ring size front span ++ [(front + span) % size] := by
  simp [ring, List.range_succ]

theorem nodup_ring {size front span : Nat} (h : span ≤ size) : (ring size front span).Nodup := by
  refine List.Nodup.map_on ?_ List.nodup_range
  intro i hi j hj same
  have hi := List.mem_range.mp hi
  have hj := List.mem_range.mp hj
  have : i ≡ j [MOD size] := Nat.ModEq.add_left_cancel' front same
  exact this.eq_of_lt_of_lt (by omega) (by omega)

theorem lt_of_mem_ring {size front span p : Nat} (h : 0 < size) (hp : p ∈ ring size front span) :
    p < size := by
  obtain ⟨i, -, rfl⟩ := List.mem_map.mp hp
  exact Nat.mod_lt _ h

theorem next_not_mem_ring {size front span : Nat} (h : span < size) :
    (front + span) % size ∉ ring size front span := by
  have nodup := @nodup_ring size front _ (Nat.succ_le_of_lt h)
  rw [ring_snoc, List.nodup_append] at nodup
  intro member
  exact nodup.2.2 _ member _ (List.mem_singleton_self _) rfl

def isOpen (w : Window) (p : Nat) : Bool := (w.slotAt p).index.isSome

def openPlaces (w : Window) : List Nat := w.places.filter w.isOpen

/-- The open slots, oldest block first. -/
def live (w : Window) : List Slot := w.openPlaces.map w.slotAt

theorem places_eq_ring (w : Window) : w.places = ring w.capacity w.front w.span := rfl

theorem index_slotAt (w : Window) (p : Nat) :
    (w.slotAt p).index = (w.slots[p]?).bind Slot.index := by
  unfold slotAt
  rw [Array.getD_eq_getD_getElem?]
  cases w.slots[p]? <;> rfl

@[simp]
theorem capacity_modify (w : Window) (p : Nat) (f : Slot → Slot) :
    (w.modify p f).capacity = w.capacity := by
  simp [modify, capacity]

theorem slotAt_modify_self {w : Window} {p : Nat} (h : p < w.capacity) (f : Slot → Slot) :
    (w.modify p f).slotAt p = f (w.slotAt p) := by
  have inside : p < w.slots.size := h
  simp [modify, slotAt, Array.getD_eq_getD_getElem?, inside, Array.getElem_modify]

theorem slotAt_modify_ne (w : Window) {p q : Nat} (h : q ≠ p) (f : Slot → Slot) :
    (w.modify p f).slotAt q = w.slotAt q := by
  simp [modify, slotAt, Array.getD_eq_getD_getElem?, Array.getElem?_modify, h.symm]

/-- Dropping free slots at the front leaves the rest of the row in place. -/
theorem skipFree_spec (slots : Array Slot) {front : Nat} (span : Nat) (h : front < slots.size) :
    (skipFree slots front span).1 < slots.size ∧
    (skipFree slots front span).2 ≤ span ∧
    ring slots.size (skipFree slots front span).1 (skipFree slots front span).2 =
      (ring slots.size front span).dropWhile fun p => !((slots[p]?).bind Slot.index).isSome := by
  induction span generalizing front with
  | zero => exact ⟨h, le_refl _, rfl⟩
  | succ span ih =>
      rw [ring_cons, Nat.mod_eq_of_lt h, skipFree]
      cases occupied : ((slots[front]?).bind Slot.index).isSome with
      | true =>
          rw [if_pos rfl, List.dropWhile_cons_of_neg (by simp [occupied]), ring_cons,
            Nat.mod_eq_of_lt h]
          exact ⟨h, le_refl _, rfl⟩
      | false =>
          rw [if_neg (by simp), List.dropWhile_cons_of_pos (by simp [occupied])]
          by_cases last : span = 0
          · subst last
            exact ⟨h, Nat.zero_le _, rfl⟩
          · rw [if_neg last]
            obtain ⟨inside, shorter, row⟩ := ih (Nat.mod_lt (front + 1) (by omega))
            exact ⟨inside, by omega, by rw [row, ring_mod]⟩

/-- How the run of slots lies in the ring. -/
structure Wellformed (w : Window) : Prop where
  front_lt : w.front < w.capacity
  span_le : w.span ≤ w.capacity
  front_open : 0 < w.span → w.isOpen w.front = true
  outside : ∀ p, p ∉ w.places → w.isOpen p = false

variable {w : Window}

theorem length_places (w : Window) : w.places.length = w.span := by
  simp [places]

theorem Wellformed.nodup_places (h : w.Wellformed) : w.places.Nodup := nodup_ring h.span_le

theorem Wellformed.lt_capacity (h : w.Wellformed) {p : Nat} (hp : p ∈ w.places) : p < w.capacity :=
  lt_of_mem_ring (Nat.zero_lt_of_lt h.front_lt) hp

theorem mem_openPlaces {p : Nat} : p ∈ w.openPlaces ↔ p ∈ w.places ∧ w.isOpen p = true :=
  List.mem_filter

/-- The row of open slots begins at the front. -/
theorem Wellformed.openPlaces_cons (h : w.Wellformed) (some : 0 < w.span) :
    ∃ rest, w.places = w.front :: rest ∧ w.openPlaces = w.front :: rest.filter w.isOpen := by
  obtain ⟨span, hs⟩ := Nat.exists_eq_succ_of_ne_zero (Nat.ne_of_gt some)
  have row : w.places = w.front :: ring w.capacity (w.front + 1) span := by
    rw [places_eq_ring, hs, ring_cons, Nat.mod_eq_of_lt h.front_lt]
  refine ⟨_, row, ?_⟩
  rw [openPlaces, row, List.filter_cons_of_pos (h.front_open some)]

theorem live_of_span_zero (none : w.span = 0) : w.live = [] := by
  simp [live, openPlaces, places, none]

theorem openPlaces_of_span_zero (none : w.span = 0) : w.openPlaces = [] := by
  simp [openPlaces, places, none]

theorem free_of_span_zero (none : w.span = 0) (p : Nat) : w.free p = w := by
  simp [free, none]

@[simp]
theorem capacity_free (w : Window) (p : Nat) : (w.free p).capacity = w.capacity := by
  unfold free
  split
  · rfl
  · simp [capacity]

@[simp]
theorem last_free (w : Window) (p : Nat) : (w.free p).last = w.last := by
  unfold free
  split <;> rfl

@[simp]
theorem fragmentSize_free (w : Window) (p : Nat) : (w.free p).fragmentSize = w.fragmentSize := by
  unfold free
  split <;> rfl

@[simp]
theorem fragmentCount_free (w : Window) (p : Nat) :
    (w.free p).fragmentCount = w.fragmentCount := by
  unfold free
  split <;> rfl

theorem slotAt_free (some : 0 < w.span) (p q : Nat) :
    (w.free p).slotAt q = (w.modify p fun s => { s with index := none }).slotAt q := by
  simp [free, Nat.ne_of_gt some, modify, slotAt]

theorem slotAt_free_ne {p q : Nat} (h : q ≠ p) : (w.free p).slotAt q = w.slotAt q := by
  by_cases some : 0 < w.span
  · rw [slotAt_free some, slotAt_modify_ne w h]
  · rw [free_of_span_zero (by omega)]

theorem isOpen_free (some : 0 < w.span) {p : Nat} (hp : p < w.capacity) (q : Nat) :
    (w.free p).isOpen q = (decide (q ≠ p) && w.isOpen q) := by
  by_cases h : q = p
  · subst h
    simp [isOpen, slotAt_free some, slotAt_modify_self hp]
  · simp [isOpen, slotAt_free_ne h, h]

/-- Freeing shortens the run at its front, as far as the slots there are free. -/
theorem places_free (some : 0 < w.span) (front : w.front < w.capacity) (p : Nat) :
    (w.free p).front < w.capacity ∧ (w.free p).span ≤ w.span ∧
    (w.free p).places = w.places.dropWhile fun q => !(w.free p).isOpen q := by
  let slots := w.slots.modify p fun s => { s with index := none }
  have size : slots.size = w.capacity := by simp [slots, capacity]
  have spec := skipFree_spec slots w.span (size ▸ front)
  rw [size] at spec
  have freed : w.free p = { w with
      slots, front := (skipFree slots w.front w.span).1, span := (skipFree slots w.front w.span).2 } := by
    simp [free, Nat.ne_of_gt some, slots]
  have cap := capacity_free w p
  rw [freed] at cap
  simp only [freed, places_eq_ring, cap]
  refine ⟨spec.1, spec.2.1, spec.2.2.trans ?_⟩
  congr 1
  funext q
  rw [isOpen, index_slotAt]

theorem filter_dropWhile {α : Type} (f : α → Bool) (l : List α) :
    (l.dropWhile fun x => !f x).filter f = l.filter f := by
  induction l with
  | nil => rfl
  | cons x l ih => cases h : f x <;> simp [h, ih]

/-- Freeing takes the slot out of the row and leaves the others as they are. -/
theorem openPlaces_free (front : w.front < w.capacity) {p : Nat} (hp : p < w.capacity) :
    (w.free p).openPlaces = w.openPlaces.filter (· ≠ p) := by
  by_cases some : 0 < w.span
  · rw [openPlaces, (places_free some front p).2.2, filter_dropWhile, openPlaces, List.filter_filter]
    exact List.filter_congr fun q _ => isOpen_free some hp q
  · rw [free_of_span_zero (by omega), openPlaces_of_span_zero (by omega)]
    rfl

theorem Wellformed.free (h : w.Wellformed) {p : Nat} (hp : p < w.capacity) :
    (w.free p).Wellformed := by
  by_cases some : 0 < w.span
  · obtain ⟨front, shorter, row⟩ := places_free some h.front_lt p
    refine ⟨by simpa using front, by simpa using shorter.trans h.span_le, ?_, ?_⟩
    · intro left
      have head : (w.free p).places.head? = Option.some (w.free p).front := by
        obtain ⟨span, hs⟩ := Nat.exists_eq_succ_of_ne_zero (Nat.ne_of_gt left)
        rw [places_eq_ring, hs, ring_cons, List.head?_cons, capacity_free, Nat.mod_eq_of_lt front]
      rw [row] at head
      have := List.head?_dropWhile_not (fun q => !(w.free p).isOpen q) w.places
      rw [head] at this
      simpa using this
    · intro q outside
      by_contra opened
      have member : q ∈ (w.free p).openPlaces := by
        rw [openPlaces_free h.front_lt hp, List.mem_filter, mem_openPlaces]
        rw [isOpen_free some hp] at opened
        have inside : q ∈ w.places := by
          by_contra absent
          simp [h.outside q absent] at opened
        simpa [inside, and_comm] using opened
      exact outside (mem_openPlaces.mp member).1
  · rwa [free_of_span_zero (by omega)]

/-- The window with a free slot behind the run, for which the oldest block may have to go. -/
def roomy (w : Window) : Window := if w.span = w.capacity then w.free w.front else w

def leaving (w : Window) : List Slot := if w.span = w.capacity then [w.slotAt w.front] else []

theorem push_eq (w : Window) (index : Nat) :
    w.push index = ({ w.roomy.modify (w.roomy.place w.roomy.span) (·.reset index) with
      span := w.roomy.span + 1 }, w.leaving) := by
  simp only [push, roomy, leaving]

@[simp]
theorem capacity_roomy (w : Window) : w.roomy.capacity = w.capacity := by
  unfold roomy
  split <;> simp

theorem Wellformed.roomy (h : w.Wellformed) : w.roomy.Wellformed := by
  unfold Window.roomy
  split
  · exact h.free h.front_lt
  · exact h

/-- Freeing the front moves the front on. -/
theorem Wellformed.span_free_front (h : w.Wellformed) (some : 0 < w.span) : (w.free w.front).span < w.span := by
  obtain ⟨rest, row, -⟩ := h.openPlaces_cons some
  have short : (w.free w.front).places.length < w.places.length := by
    rw [(places_free some h.front_lt w.front).2.2, row, List.dropWhile_cons_of_pos]
    · exact Nat.lt_succ_of_le (List.dropWhile_sublist _).length_le
    · simp [isOpen_free some h.front_lt]
  rwa [length_places, length_places] at short

theorem Wellformed.roomy_span (h : w.Wellformed) : w.roomy.span < w.capacity := by
  have front := h.front_lt
  have le := h.span_le
  unfold Window.roomy
  split
  next full =>
    have short := h.span_free_front (by omega)
    omega
  next => omega

theorem Wellformed.live_roomy (h : w.Wellformed) : w.leaving ++ w.roomy.live = w.live := by
  unfold Window.roomy leaving
  split
  next full =>
    have some : 0 < w.span := by
      have := h.front_lt
      omega
    obtain ⟨rest, row, opened⟩ := h.openPlaces_cons some
    have distinct := h.nodup_places
    rw [row] at distinct
    have others : ∀ q ∈ rest, q ≠ w.front := by
      rintro q hq rfl
      exact (List.nodup_cons.mp distinct).1 hq
    have same : (w.free w.front).live = (rest.filter w.isOpen).map w.slotAt := by
      rw [live, openPlaces_free h.front_lt h.front_lt, opened,
        List.filter_cons_of_neg (by simp), List.filter_eq_self.mpr]
      · apply List.map_congr_left
        intro q hq
        exact slotAt_free_ne (others q (List.mem_filter.mp hq).1)
      · intro q hq
        simpa using others q (List.mem_filter.mp hq).1
    rw [same, live, opened]
    rfl
  next => rfl

/-- What opening a block does: a slot outside of the run is emptied and joins the row at its end. -/
theorem Wellformed.push (h : w.Wellformed) (index : Nat) :
    (w.push index).1.Wellformed ∧
    (w.push index).1.openPlaces = w.roomy.openPlaces ++ [w.roomy.place w.roomy.span] ∧
    (∀ q, q ≠ w.roomy.place w.roomy.span →
      (w.push index).1.slotAt q = w.roomy.slotAt q) ∧
    (w.push index).1.slotAt (w.roomy.place w.roomy.span) =
      (w.roomy.slotAt (w.roomy.place w.roomy.span)).reset index := by
  have ready := h.roomy
  have room := h.roomy_span
  have cap := capacity_roomy w
  rw [push_eq]
  generalize Window.roomy w = v at *
  rw [← cap] at room
  let p := v.place v.span
  have inside : p < v.capacity := Nat.mod_lt _ (by omega)
  have fresh : p ∉ v.places := next_not_mem_ring room
  let u : Window := { v.modify p (·.reset index) with span := v.span + 1 }
  have others : ∀ q, q ≠ p → u.slotAt q = v.slotAt q := fun q hq => slotAt_modify_ne v hq _
  have here : u.slotAt p = (v.slotAt p).reset index := slotAt_modify_self inside _
  have opened : u.isOpen p = true := by rw [isOpen, here]; rfl
  have size : u.capacity = v.capacity := capacity_modify ..
  have row : u.places = v.places ++ [p] := by
    rw [places_eq_ring, size]
    exact ring_snoc ..
  have rowOpen : u.openPlaces = v.openPlaces ++ [p] := by
    rw [openPlaces, row, List.filter_append, List.filter_cons_of_pos opened]
    congr 1
    apply List.filter_congr
    intro q hq
    rw [isOpen, others q (fun same => fresh (same ▸ hq))]
    rfl
  refine ⟨⟨by rw [size]; exact ready.front_lt, by rw [size]; exact room, ?_, ?_⟩, rowOpen, others, here⟩
  · -- The front is the new slot if the run was empty.
    intro _
    by_cases first : v.front = p
    · exact first ▸ opened
    · have some : 0 < v.span := by
        by_contra none
        apply first
        change v.front = (v.front + v.span) % v.capacity
        rw [show v.span = 0 by omega, Nat.add_zero, Nat.mod_eq_of_lt ready.front_lt]
      have open_front := ready.front_open some
      rwa [isOpen, ← others v.front first] at open_front
  · intro q outside
    rw [row, List.mem_append, not_or, List.mem_singleton] at outside
    rw [isOpen, others q outside.2]
    exact ready.outside q outside.1

/-- Two windows of one size. -/
structure Alike (v w : Window) : Prop where
  capacity : v.capacity = w.capacity
  fragmentSize : v.fragmentSize = w.fragmentSize
  fragmentCount : v.fragmentCount = w.fragmentCount

theorem Alike.refl (w : Window) : Alike w w := ⟨rfl, rfl, rfl⟩

theorem Alike.trans {u v : Window} (h : Alike u v) (h' : Alike v w) : Alike u w :=
  ⟨h.capacity.trans h'.capacity, h.fragmentSize.trans h'.fragmentSize,
    h.fragmentCount.trans h'.fragmentCount⟩

theorem alike_modify (w : Window) (p : Nat) (f : Slot → Slot) : Alike (w.modify p f) w :=
  ⟨capacity_modify .., rfl, rfl⟩

theorem alike_free (w : Window) (p : Nat) : Alike (w.free p) w := by
  constructor <;> simp

theorem alike_roomy (w : Window) : Alike w.roomy w := by
  unfold Window.roomy
  split
  · exact alike_free ..
  · exact .refl w

theorem alike_push (w : Window) (index : Nat) : Alike (w.push index).1 w := by
  rw [push_eq]
  exact Alike.trans ⟨capacity_modify .., rfl, rfl⟩ (alike_roomy w)

/-- All slots are as large as the window is made for. -/
def Shaped (w : Window) : Prop :=
  ∀ p < w.capacity, (w.slotAt p).Shaped w.fragmentSize w.fragmentCount

theorem Shaped.modify (h : w.Shaped) {p : Nat} {f : Slot → Slot}
    (keeps : p < w.capacity → (f (w.slotAt p)).Shaped w.fragmentSize w.fragmentCount) :
    (w.modify p f).Shaped := by
  intro q hq
  rw [capacity_modify] at hq
  by_cases same : q = p
  · subst same
    rw [slotAt_modify_self hq]
    exact keeps hq
  · rw [slotAt_modify_ne w same]
    exact h q hq

theorem Shaped.free (h : w.Shaped) (p : Nat) : (w.free p).Shaped := by
  by_cases some : 0 < w.span
  · intro q hq
    rw [slotAt_free some, fragmentSize_free, fragmentCount_free]
    refine Shaped.modify h (fun hp => ?_) q (by simpa using hq)
    exact ⟨(h p hp).length, (h p hp).buffers⟩
  · rwa [free_of_span_zero (by omega)]

theorem Shaped.roomy (h : w.Shaped) : w.roomy.Shaped := by
  unfold Window.roomy
  split
  · exact h.free _
  · exact h

theorem Shaped.push (h : w.Shaped) (index : Nat) : (w.push index).1.Shaped := by
  rw [push_eq]
  exact Shaped.modify h.roomy fun hp => ((h.roomy _ hp).reset index).shaped

/-- A new window has no block in it. -/
structure Empty (size count : Nat) (w : Window) : Prop where
  wellformed : w.Wellformed
  shaped : w.Shaped
  live : w.live = []
  last : w.last = none
  fragmentSize : w.fragmentSize = size
  fragmentCount : w.fragmentCount = count

theorem create_ok {slots size count : Nat} (h : create slots size count = .ok w) :
    w.Empty size count := by
  unfold create at h
  split_ifs at h with empty large
  cases h
  have blank (p : Nat) (hp : p < slots) :
      (Array.replicate slots (Slot.blank size count)).getD p (Slot.blank 0 0) =
        Slot.blank size count := by
    simp [Array.getD_eq_getD_getElem?, hp]
  refine ⟨⟨?_, Nat.zero_le _, ?_, ?_⟩, ?_, live_of_span_zero rfl, rfl, rfl, rfl⟩
  · simp only [capacity, Array.size_replicate]
    omega
  · simp
  · intro p _
    rw [isOpen, index_slotAt]
    simp [Array.getElem?_replicate, Slot.blank]
  · intro p hp
    simp only [capacity, Array.size_replicate] at hp
    rw [slotAt, blank p hp]
    exact ⟨by simp [Slot.blank], by simp [Slot.blank, Bytes.zeros]⟩

/-- The slots opened for some blocks. -/
abbrev FreshFor (w : Window) : List Nat → List Slot → Prop :=
  List.Forall₂ fun index s => s.Fresh w.fragmentSize w.fragmentCount index

theorem Wellformed.nodup_openPlaces (h : w.Wellformed) : w.openPlaces.Nodup :=
  h.nodup_places.filter _

theorem Wellformed.live_push (h : w.Wellformed) (shaped : w.Shaped) (index : Nat) :
    ∃ fresh : Slot, (w.push index).2 ++ (w.push index).1.live = w.live ++ [fresh] ∧
      fresh.Fresh w.fragmentSize w.fragmentCount index := by
  obtain ⟨ready, row, others, here⟩ := h.push index
  have inside : w.roomy.place w.roomy.span < w.roomy.capacity :=
    Nat.mod_lt _ (Nat.zero_lt_of_lt h.roomy.front_lt)
  have distinct := ready.nodup_openPlaces
  rw [row, List.nodup_append] at distinct
  have alike := alike_roomy w
  refine ⟨_, ?_, alike.fragmentSize ▸ alike.fragmentCount ▸ (shaped.roomy _ inside).reset index⟩
  rw [← h.live_roomy, List.append_assoc]
  congr 1
  rw [live, row, List.map_append, List.map_singleton, here]
  congr 1
  apply List.map_congr_left
  intro q hq
  exact others q (distinct.2.2 q hq _ (List.mem_singleton_self _))

/-- What opening blocks one after another leads to.  What goes and what stays is what there was and
what was opened. -/
structure Opened (w : Window) (indices : List Nat) (result : Window × List Slot) : Prop where
  wellformed : result.1.Wellformed
  shaped : result.1.Shaped
  alike : Alike result.1 w
  conserved : ∃ fresh, result.2 ++ result.1.live = w.live ++ fresh ∧ w.FreshFor indices fresh
  newest : indices ≠ [] →
    result.1.openPlaces.getLast? = some (result.1.place (result.1.span - 1))

theorem Wellformed.push_opened (h : w.Wellformed) (shaped : w.Shaped) (index : Nat) :
    Opened w [index] (w.push index) where
  wellformed := (h.push index).1
  shaped := shaped.push index
  alike := alike_push w index
  conserved := by
    obtain ⟨fresh, conserved, isFresh⟩ := h.live_push shaped index
    exact ⟨[fresh], conserved, .cons isFresh .nil⟩
  newest _ := by
    rw [(h.push index).2.1, List.getLast?_concat, push_eq]
    simp [place, modify, Window.capacity]

theorem Wellformed.pushAll_opened (h : w.Wellformed) (shaped : w.Shaped) (indices : List Nat) :
    Opened w indices (w.pushAll indices) := by
  induction indices generalizing w with
  | nil =>
      exact ⟨h, shaped, .refl w, ⟨[], by simp [pushAll], .nil⟩, fun none => absurd rfl none⟩
  | cons index rest ih =>
      have first := h.push_opened shaped index
      have more := ih first.wellformed first.shaped
      obtain ⟨fresh, here, isFresh⟩ := h.live_push shaped index
      obtain ⟨others, there, areFresh⟩ := more.conserved
      rw [FreshFor, first.alike.fragmentSize, first.alike.fragmentCount] at areFresh
      refine ⟨more.wellformed, more.shaped, more.alike.trans first.alike,
        ⟨fresh :: others, ?_, .cons isFresh areFresh⟩, ?_⟩
      · simp only [pushAll, List.append_assoc]
        rw [there, ← List.append_assoc, here]
        simp
      · intro _
        by_cases none : rest = []
        · subst none
          exact first.newest (by simp)
        · exact more.newest none

theorem find?_eq (w : Window) (index : Nat) :
    w.find? index = w.openPlaces.find? fun p => (w.slotAt p).index == some index := by
  rw [find?, openPlaces, List.find?_filter]
  congr 1
  funext p
  cases here : (w.slotAt p).index <;> simp [isOpen, here, Bool.beq_eq_decide_eq]

theorem find?_eq_none {index : Nat} (absent : ∀ s ∈ w.live, s.index ≠ some index) :
    w.find? index = none := by
  rw [find?_eq, List.find?_eq_none]
  intro p hp
  simpa using absent _ (List.mem_map_of_mem hp)

/-- The blocks that enter together with a new one: as many of those below it as have not been seen
and fit. -/
def entering (w : Window) (index : Nat) : List Nat :=
  let count := match w.last with
    | none => 1
    | some last => min (index - last) w.capacity
  List.range' (index + 1 - count) count

theorem acquire_new {index : Nat} (absent : w.find? index = none)
    (above : ∀ last, w.last = some last → last < index) :
    w.acquire index =
      ⟨some ((w.pushAll (w.entering index)).1.place ((w.pushAll (w.entering index)).1.span - 1)),
        { (w.pushAll (w.entering index)).1 with last := some index },
        (w.pushAll (w.entering index)).2⟩ := by
  have unseen : w.last.any (index ≤ ·) = false := by
    cases h : w.last with
    | none => rfl
    | some last => simpa using above last h
  simp only [acquire, absent, unseen]
  rfl

theorem acquire_late {index last : Nat} (absent : w.find? index = none)
    (seen : w.last = some last) (le : index ≤ last) : w.acquire index = ⟨none, w, []⟩ := by
  simp [acquire, absent, seen, le]

theorem acquire_found {index p : Nat} (found : w.find? index = some p) :
    w.acquire index = ⟨some p, w, []⟩ := by
  simp [acquire, found]

/-- The last block that enters is the one that is asked for, the others are new. -/
theorem entering_eq_concat {index : Nat} (room : 0 < w.capacity)
    (above : ∀ last, w.last = some last → last < index) :
    ∃ below, w.entering index = below ++ [index] ∧ below.Pairwise (· < ·) ∧
      ∀ i ∈ below, i < index ∧ ∀ last, w.last = some last → last < i := by
  have concat (count : Nat) (some : 0 < count) (le : count ≤ index + 1) :
      List.range' (index + 1 - count) count =
        List.range' (index + 1 - count) (count - 1) ++ [index] := by
    obtain ⟨n, rfl⟩ := Nat.exists_eq_succ_of_ne_zero (Nat.ne_of_gt some)
    rw [List.range'_concat]
    simp
    omega
  unfold entering
  cases seen : w.last with
  | none =>
      refine ⟨[], concat 1 (by omega) (by omega), .nil, ?_⟩
      simp
  | some last =>
      have := above last seen
      refine ⟨_, concat (min (index - last) w.capacity) (by omega) (by omega),
        List.pairwise_lt_range', ?_⟩
      intro i hi
      simp only [List.mem_range'_1] at hi
      simp only [Option.some.injEq, forall_eq']
      omega

theorem freshFor_concat {below : List Nat} {index : Nat} {slots : List Slot}
    (h : w.FreshFor (below ++ [index]) slots) :
    ∃ lower fresh, slots = lower ++ [fresh] ∧ w.FreshFor below lower ∧
      fresh.Fresh w.fragmentSize w.fragmentCount index := by
  induction below generalizing slots with
  | nil =>
      cases h with
      | cons first rest =>
          cases rest
          exact ⟨[], _, rfl, .nil, first⟩
  | cons i below ih =>
      cases h with
      | cons first rest =>
          obtain ⟨lower, fresh, rfl, areFresh, isFresh⟩ := ih rest
          exact ⟨_ :: lower, fresh, rfl, .cons first areFresh, isFresh⟩

/-- What asking for a new block leads to.  Its slot is the last of the row; those in front of it and
those that had to go are what was open before and the blocks that are skipped. -/
structure Entered (w : Window) (index : Nat) (below : List Nat) (fresh : Slot) (p : Nat)
    (before : List Nat) (acquired : Acquired) : Prop where
  slot : acquired.slot = some p
  wellformed : acquired.window.Wellformed
  shaped : acquired.window.Shaped
  alike : Alike acquired.window w
  last : acquired.window.last = some index
  row : acquired.window.openPlaces = before ++ [p]
  here : acquired.window.slotAt p = fresh
  isFresh : fresh.Fresh w.fragmentSize w.fragmentCount index
  older : ∃ lower, acquired.evicted ++ before.map acquired.window.slotAt = w.live ++ lower ∧
    w.FreshFor below lower
  ascending : below.Pairwise (· < ·)
  between : ∀ i ∈ below, i < index ∧ ∀ last, w.last = some last → last < i
  entering : w.entering index = below ++ [index]

theorem Wellformed.acquire_new (h : w.Wellformed) (shaped : w.Shaped) {index : Nat}
    (absent : w.find? index = none) (above : ∀ last, w.last = some last → last < index) :
    ∃ below fresh p before, Entered w index below fresh p before (w.acquire index) := by
  obtain ⟨below, entering, ascending, between⟩ :=
    entering_eq_concat (Nat.zero_lt_of_lt h.front_lt) above
  have opened := h.pushAll_opened shaped (w.entering index)
  have newest := opened.newest (by simp [entering])
  obtain ⟨fresh, conserved, areFresh⟩ := opened.conserved
  rw [entering] at areFresh
  obtain ⟨lower, fresh, rfl, lowerFresh, isFresh⟩ := freshFor_concat areFresh
  obtain ⟨before, row⟩ := List.getLast?_eq_some_iff.mp newest
  simp only [live, row, List.map_append, List.map_singleton, ← List.append_assoc] at conserved
  obtain ⟨older, here⟩ := List.append_inj' conserved rfl
  rw [Window.acquire_new absent above]
  exact ⟨below, fresh, _, before,
    { slot := rfl
      wellformed := ⟨opened.wellformed.front_lt, opened.wellformed.span_le,
        opened.wellformed.front_open, opened.wellformed.outside⟩
      shaped := opened.shaped
      alike := ⟨opened.alike.capacity, opened.alike.fragmentSize, opened.alike.fragmentCount⟩
      last := rfl
      row := row
      here := List.singleton_inj.mp here
      isFresh := isFresh
      older := ⟨lower, older, lowerFresh⟩
      ascending := ascending
      between := between
      entering := entering }⟩

theorem places_modify (w : Window) (p : Nat) (f : Slot → Slot) :
    (w.modify p f).places = w.places := by
  simp only [places_eq_ring, capacity_modify]
  rfl

theorem isOpen_modify {p : Nat} {f : Slot → Slot} (hp : p < w.capacity)
    (keeps : (f (w.slotAt p)).index = (w.slotAt p).index) (q : Nat) :
    (w.modify p f).isOpen q = w.isOpen q := by
  by_cases same : q = p
  · subst same
    rw [isOpen, slotAt_modify_self hp, keeps]
    rfl
  · rw [isOpen, slotAt_modify_ne w same]
    rfl

/-- Changing what is in a slot, but not which block, leaves the row as it is. -/
theorem openPlaces_modify {p : Nat} {f : Slot → Slot} (hp : p < w.capacity)
    (keeps : (f (w.slotAt p)).index = (w.slotAt p).index) :
    (w.modify p f).openPlaces = w.openPlaces := by
  rw [openPlaces, places_modify]
  exact List.filter_congr fun q _ => isOpen_modify hp keeps q

theorem Wellformed.modify (h : w.Wellformed) {p : Nat} {f : Slot → Slot} (hp : p < w.capacity)
    (keeps : (f (w.slotAt p)).index = (w.slotAt p).index) : (w.modify p f).Wellformed where
  front_lt := by
    rw [capacity_modify]
    exact h.front_lt
  span_le := by
    rw [capacity_modify]
    exact h.span_le
  front_open some := by
    rw [isOpen_modify hp keeps]
    exact h.front_open some
  outside q hq := by
    rw [places_modify] at hq
    rw [isOpen_modify hp keeps]
    exact h.outside q hq

theorem Wellformed.lt_of_row (h : w.Wellformed) {before after : List Nat} {p : Nat}
    (row : w.openPlaces = before ++ p :: after) : p < w.capacity :=
  h.lt_capacity (mem_openPlaces.mp (row ▸ List.mem_append_right _ (List.mem_cons_self ..))).1

/-- What is left when the blocks in front of an open slot have been given up. -/
structure Retired (w : Window) (k p : Nat) (before after : List Nat)
    (result : Window × List Emission) : Prop where
  emissions : result.2 = before.flatMap fun q => ((w.slotAt q).drain k .stale).2
  row : result.1.openPlaces = p :: after
  wellformed : result.1.Wellformed
  shaped : result.1.Shaped
  alike : Alike result.1 w
  last : result.1.last = w.last
  kept : ∀ q, q ∉ before → result.1.slotAt q = w.slotAt q

theorem Wellformed.front_of_row (h : w.Wellformed) {q : Nat} {rest : List Nat}
    (row : w.openPlaces = q :: rest) : 0 < w.span ∧ w.front = q := by
  have some : 0 < w.span := by
    by_contra none
    rw [openPlaces_of_span_zero (by omega)] at row
    exact absurd row (by simp)
  obtain ⟨others, -, opened⟩ := h.openPlaces_cons some
  rw [opened] at row
  exact ⟨some, (List.cons.inj row).1⟩

/-- Giving up the blocks in front of an open slot empties each of them in turn. -/
theorem Wellformed.retireBefore (k : Nat) {p : Nat} {before after : List Nat} (fuel : Nat)
    (h : w.Wellformed) (shaped : w.Shaped) (row : w.openPlaces = before ++ p :: after)
    (enough : before.length ≤ fuel) : Retired w k p before after (w.retireBefore k p fuel) := by
  induction before generalizing w fuel with
  | nil =>
      obtain ⟨some, front⟩ := h.front_of_row row
      have done : w.retireBefore k p fuel = (w, []) := by
        cases fuel with
        | zero => rfl
        | succ fuel => simp [Window.retireBefore, front]
      rw [done]
      exact ⟨rfl, row, h, shaped, .refl w, rfl, fun _ _ => rfl⟩
  | cons q before ih =>
      obtain ⟨some, front⟩ := h.front_of_row row
      obtain ⟨fuel, rfl⟩ : ∃ n, fuel = n + 1 := ⟨fuel - 1, by simp at enough; omega⟩
      have distinct := h.nodup_openPlaces
      rw [row, List.cons_append, List.nodup_cons] at distinct
      have other : w.front ≠ p := by
        rw [front]
        rintro rfl
        exact distinct.1 (by simp)
      have inside := front ▸ h.front_lt
      let slot := ((w.slotAt q).drain k .stale).1
      let v := (w.modify q fun _ => slot).free q
      have modified : (w.modify q fun _ => slot).Wellformed := h.modify inside rfl
      have freed : v.Wellformed := modified.free (by simpa using inside)
      have rest : v.openPlaces = before ++ p :: after := by
        rw [openPlaces_free modified.front_lt (by simpa using inside), openPlaces_modify inside rfl,
          row, List.cons_append, List.filter_cons_of_neg (by simp), List.filter_eq_self]
        intro x hx
        simpa using fun same : x = q => distinct.1 (same ▸ hx)
      have keeps (x : Nat) (hx : x ≠ q) : v.slotAt x = w.slotAt x :=
        (slotAt_free_ne hx).trans (slotAt_modify_ne w hx _)
      have shapes : v.Shaped := (shaped.modify fun hq => ⟨(shaped q hq).1, (shaped q hq).2⟩).free q
      have tail := ih fuel freed shapes rest (by simp at enough; omega)
      have step : w.retireBefore k p (fuel + 1) = ((v.retireBefore k p fuel).1,
          ((w.slotAt q).drain k .stale).2 ++ (v.retireBefore k p fuel).2) := by
        simp only [Window.retireBefore, front, Nat.ne_of_gt some, front ▸ other, or_self, if_false]
        rfl
      rw [step]
      refine ⟨?_, tail.row, tail.wellformed, tail.shaped,
        tail.alike.trans ((alike_free ..).trans (alike_modify ..)),
        tail.last.trans (last_free ..), ?_⟩
      · rw [List.flatMap_cons, ← List.flatMap_congr (fun x hx => ?_)]
        · exact congrArg _ tail.emissions
        · rw [keeps x fun same => distinct.1 (same ▸ List.mem_append_left _ hx)]
      · intro x hx
        rw [List.mem_cons, not_or] at hx
        exact (tail.kept x hx.2).trans (keeps x hx.1)

end Window

end AirLink
