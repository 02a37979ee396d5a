import AirLink.Proofs.Turnover

/-! # How a block passes through a window

A block comes into a window at most once, when it is asked for or when a newer one is, and it leaves it
for good.  The window keeps no list of the blocks that have left: what it does not hold and is not above
the last index has been there or has been passed over, and nothing but an index above the last one ever
gets a slot.
-/

namespace AirLink

namespace Window

variable {w : Window} {slots i : Nat} {op : Op}

/-- What comes about in a run, request by request. -/
def gather {α : Type} (kind : Window → Op → List α) : Window → List Op → List α
  | _, [] => []
  | w, op :: ops => kind w op ++ gather kind (w.perform op) ops

/-- The block that is asked for, if it has a slot then. -/
def granted (w : Window) : Op → List Nat
  | .acquire i => if (w.acquire i).slot.isSome then [i] else []
  | _ => []

/-- The blocks that slots are opened for: all that are let go or are there afterwards and were not there
before. -/
def opened (w : Window) : Op → List Nat
  | .acquire i =>
    ((w.acquire i).evicted.filterMap Slot.index ++ (w.acquire i).window.indices).diff w.indices
  | _ => []

/-- The ways in which a request puts an end to a block. -/
inductive Ends (w : Window) (i : Nat) : Op → Prop
  | freed {place : Nat} (held : (w.slotAt place).index = some i) : Ends w i (.free place)
  | evicted {newer : Nat} {s : Slot} (member : s ∈ (w.acquire newer).evicted) (held : s.index = some i) :
      Ends w i (.acquire newer)
  /-- The block was not there, and does not enter together with a newer one. -/
  | passed {newer : Nat} (below : i < newer) (absent : i ∉ w.indices)
      (unopened : i ∉ w.opened (.acquire newer)) : Ends w i (.acquire newer)

/-- The window does not hold the block and has moved past it. -/
structure Gone (w : Window) (i : Nat) : Prop where
  absent : i ∉ w.indices
  passed : ∃ last, w.last = some last ∧ i ≤ last

/-! ## Requests for slots that are not there -/

theorem modify_outside {place : Nat} (outside : w.capacity ≤ place) (f : Slot → Slot) :
    w.modify place f = w := by
  have same : w.slots.modify place f = w.slots := by
    apply Array.ext_getElem?
    intro q
    rw [Array.getElem?_modify]
    split
    next here => rw [Array.getElem?_eq_none (here ▸ outside), Option.map_none]
    next => rfl
  rw [modify, same]

theorem Wellformed.free_outside (h : w.Wellformed) {place : Nat} (outside : w.capacity ≤ place) :
    w.free place = w := by
  by_cases none : w.span = 0
  · exact free_of_span_zero none place
  obtain ⟨span, used⟩ := Nat.exists_eq_succ_of_ne_zero none
  have occupied : ((w.slots[w.front]?).bind Slot.index).isSome = true := by
    rw [← index_slotAt]
    exact h.front_open (Nat.pos_of_ne_zero none)
  have same : w.slots.modify place (fun s => { s with index := Option.none }) = w.slots :=
    congrArg Window.slots (modify_outside outside fun s => { s with index := Option.none })
  have stays : skipFree w.slots w.front w.span = (w.front, w.span) := by
    rw [used, skipFree, if_pos occupied]
  rw [Window.free, if_neg none]
  simp only [same, stays]

/-- A request for a slot that is not there changes nothing. -/
theorem Regular.perform_outside (h : w.Regular slots) (outside : ¬op.Within slots) : w.perform op = w := by
  have far {place : Nat} (not : ¬place < slots) : w.capacity ≤ place := by
    rw [h.capacity]
    exact Nat.le_of_not_lt not
  cases op with
  | acquire index => exact absurd trivial outside
  | free place => exact h.toWellformed.free_outside (far outside)
  | store place fragment bytes => exact modify_outside (far outside) _
  | advance place => exact modify_outside (far outside) _

theorem Regular.perform_any (h : w.Regular slots) (shaped : w.Shaped) (op : Op) :
    (w.perform op).Regular slots ∧ (w.perform op).Shaped := by
  by_cases within : op.Within slots
  · exact h.perform shaped within
  · rw [h.perform_outside within]
    exact ⟨h, shaped⟩

theorem Regular.performAll_any (h : w.Regular slots) (shaped : w.Shaped) (ops : List Op) :
    (w.performAll ops).Regular slots ∧ (w.performAll ops).Shaped := by
  induction ops generalizing w with
  | nil => exact ⟨h, shaped⟩
  | cons op ops ih =>
      obtain ⟨regular, shaped⟩ := h.perform_any shaped op
      exact ih regular shaped

/-! ## What one request does -/

theorem diff_append_self (before after : List Nat) : (before ++ after).diff before = after := by
  induction before with
  | nil => exact List.diff_nil after
  | cons i before ih => rw [List.cons_append, List.diff_cons, List.erase_cons_head, ih]

theorem diff_self (row : List Nat) : row.diff row = [] := by
  have nothing := diff_append_self row []
  rwa [List.append_nil] at nothing

/-- A block that is there or that has been passed is asked for in vain, as far as others are concerned. -/
theorem opened_of_idle {newer : Nat} {slot : Option Nat} (idle : w.acquire newer = ⟨slot, w, []⟩) :
    w.opened (.acquire newer) = [] := by
  rw [opened, idle]
  exact diff_self _

theorem Regular.opened_new (h : w.Regular slots) (shaped : w.Shaped) {newer : Nat}
    (absent : w.find? newer = none) (above : ∀ last, w.last = some last → last < newer) :
    w.opened (.acquire newer) = w.entering newer := by
  have conserved := h.toWellformed.pushAll_indices shaped (w.entering newer)
  rw [opened, Window.acquire_new absent above]
  exact (congrArg (List.diff · w.indices) conserved).trans (diff_append_self _ _)

/-- A request for a block finds it, comes too late, or lets it in with the ones below it. -/
inductive Asked (w : Window) (i : Nat) : Prop where
  | found (place : Nat) (held : i ∈ w.indices) (idle : w.acquire i = ⟨some place, w, []⟩)
  | late (gone : w.Gone i) (idle : w.acquire i = ⟨none, w, []⟩)
  | new (above : ∀ last, w.last = some last → last < i) (granted : (w.acquire i).slot.isSome = true)
      (last : (w.acquire i).window.last = some i) (opened : w.opened (.acquire i) = w.entering i)
      (conserved : (w.acquire i).evicted.filterMap Slot.index ++ (w.acquire i).window.indices =
        w.indices ++ w.opened (.acquire i))

theorem Regular.asked (h : w.Regular slots) (shaped : w.Shaped) (i : Nat) : w.Asked i := by
  obtain ⟨place, found, idle⟩ | ⟨missing, passed, idle⟩ | ⟨missing, above⟩ := w.acquire_cases i
  · have held : i ∈ w.indices := by
      by_contra absent
      cases found.symm.trans (find?_isNone.mpr absent)
    exact .found place held idle
  · exact .late ⟨find?_isNone.mp missing, passed⟩ idle
  · have conserved := h.toWellformed.pushAll_indices shaped (w.entering i)
    have opened := h.opened_new shaped missing above
    rw [← opened] at conserved
    refine .new above ?_ ?_ opened ?_ <;> rw [Window.acquire_new missing above]
    · rfl
    · rw [opened] at conserved ⊢
      exact conserved

theorem Gone.acquire (gone : w.Gone i) : w.acquire i = ⟨none, w, []⟩ := by
  obtain ⟨last, seen, le⟩ := gone.passed
  exact acquire_late (find?_isNone.mpr gone.absent) seen le

/-- The blocks that a request brings in are above the last one before it, ascend, and are not above the
last one after it. -/
theorem Regular.opened_range (h : w.Regular slots) (shaped : w.Shaped) (op : Op) :
    (w.opened op).Pairwise (· < ·) ∧
      (∀ j ∈ w.opened op, ∀ last, w.last = some last → last < j) ∧
      ∀ j ∈ w.opened op, ∃ last, (w.perform op).last = some last ∧ j ≤ last := by
  cases op with
  | acquire i =>
      cases h.asked shaped i with
      | found place held idle =>
          rw [opened_of_idle idle]
          exact ⟨.nil, nofun, nofun⟩
      | late gone idle =>
          rw [opened_of_idle idle]
          exact ⟨.nil, nofun, nofun⟩
      | new above granted last opened conserved =>
          rw [opened]
          exact ⟨List.pairwise_lt_range', fun j hj before seen => lt_entering seen (above before seen) hj,
            fun j hj => ⟨i, last, entering_le hj⟩⟩
  | free | store | advance => exact ⟨.nil, nofun, nofun⟩

/-- The last index is only raised, and it is the largest that has been given a slot. -/
theorem Regular.last_perform (h : w.Regular slots) (shaped : w.Shaped) {asked : List Nat}
    (largest : w.last = asked.max?) (op : Op) :
    (w.perform op).last = (asked ++ w.granted op).max? ∧
      ∀ last, w.last = some last → ∃ later, (w.perform op).last = some later ∧ last ≤ later := by
  have kept (same : (w.perform op).last = w.last) (none : w.granted op = []) :
      (w.perform op).last = (asked ++ w.granted op).max? ∧
        ∀ last, w.last = some last → ∃ later, (w.perform op).last = some later ∧ last ≤ later := by
    rw [same, none, List.append_nil]
    exact ⟨largest, fun last seen => ⟨last, seen, Nat.le_refl _⟩⟩
  cases op with
  | acquire i =>
      cases h.asked shaped i with
      | found place held idle =>
          obtain ⟨last, seen, le⟩ := h.le_last i held
          obtain ⟨member, bound⟩ := List.max?_eq_some_iff.mp (largest.symm.trans seen)
          have same : (w.perform (.acquire i)).last = some last := by rw [Window.perform, idle, seen]
          have one : w.granted (.acquire i) = [i] := by simp [granted, idle]
          rw [same, one, seen]
          refine ⟨(List.max?_eq_some_iff.mpr ⟨List.mem_append_left _ member, ?_⟩).symm, ?_⟩
          · intro j hj
            rcases List.mem_append.mp hj with old | new
            · exact bound j old
            · rwa [List.mem_singleton.mp new]
          · exact fun before isLast => ⟨last, rfl, (Option.some.inj isLast).ge⟩
      | late gone idle =>
          exact kept (by rw [Window.perform, idle]) (by simp [granted, idle])
      | new above given last opened conserved =>
          have one : w.granted (.acquire i) = [i] := if_pos given
          rw [show (w.perform (.acquire i)).last = some i from last, one]
          refine ⟨(List.max?_eq_some_iff.mpr ⟨List.mem_append_right _ (List.mem_singleton_self i), ?_⟩).symm,
            fun before seen => ⟨i, rfl, (above before seen).le⟩⟩
          intro j hj
          rcases List.mem_append.mp hj with old | new
          · obtain ⟨before, seen⟩ : ∃ before, asked.max? = some before :=
              Option.isSome_iff_exists.mp (List.isSome_max?_of_mem old)
            have bound := (List.max?_eq_some_iff.mp seen).2 j old
            exact bound.trans (above before (largest.trans seen)).le
          · exact (List.mem_singleton.mp new).le
  | free place => exact kept (last_free ..) rfl
  | store | advance => exact kept rfl rfl

/-- No request brings a block back. -/
theorem Gone.perform (gone : w.Gone i) (h : w.Regular slots) (shaped : w.Shaped) (op : Op) :
    (w.perform op).Gone i := by
  obtain ⟨last, seen, le⟩ := gone.passed
  have moved : ∃ later, (w.perform op).last = some later ∧ i ≤ later := by
    cases op with
    | acquire newer =>
        cases h.asked shaped newer with
        | found place held idle => exact ⟨last, by rw [Window.perform, idle, seen], le⟩
        | late passed idle => exact ⟨last, by rw [Window.perform, idle, seen], le⟩
        | new above granted isLast => exact ⟨newer, isLast, le.trans (above last seen).le⟩
    | free place => exact ⟨last, (last_free ..).trans seen, le⟩
    | store | advance => exact ⟨last, seen, le⟩
  refine ⟨fun member => ?_, moved⟩
  by_cases within : op.Within slots
  case neg =>
    rw [h.perform_outside within] at member
    exact gone.absent member
  cases op with
  | acquire newer =>
      have range := (h.opened_range shaped (.acquire newer)).2.1
      cases h.asked shaped newer with
      | found place held idle =>
          rw [Window.perform, idle] at member
          exact gone.absent member
      | late passed idle =>
          rw [Window.perform, idle] at member
          exact gone.absent member
      | new above granted isLast opened conserved =>
          have all : i ∈ w.indices ++ w.opened (.acquire newer) :=
            conserved ▸ List.mem_append_right _ member
          have new := (List.mem_append.mp all).resolve_left gone.absent
          exact absurd (range i new last seen) (Nat.not_lt.mpr le)
  | free place =>
      rw [Window.perform, h.indices_free within] at member
      exact gone.absent (List.mem_of_mem_filter member)
  | store place fragment bytes =>
      rw [Window.perform, indices_modify (h.capacity.symm ▸ within) rfl] at member
      exact gone.absent member
  | advance place =>
      rw [Window.perform, indices_modify (h.capacity.symm ▸ within) rfl] at member
      exact gone.absent member

/-- A block that has come to an end is gone. -/
theorem Regular.gone_of_ends (h : w.Regular slots) (shaped : w.Shaped) (ends : w.Ends i op) :
    (w.perform op).Gone i := by
  cases ends with
  | @freed place held =>
      have inside : place < slots := by
        by_contra outside
        have vacant : (w.slotAt place).index = none := by
          have beyond : w.slots.size ≤ place := by
            rw [← h.capacity] at outside
            exact Nat.le_of_not_lt outside
          rw [index_slotAt, Array.getElem?_eq_none beyond, Option.bind_none]
        cases vacant.symm.trans held
      have member : i ∈ w.indices := mem_indices.mpr ⟨place, index_of_mem h.toWellformed held, held⟩
      obtain ⟨last, seen, le⟩ := h.le_last i member
      refine ⟨fun still => ?_, last, (last_free ..).trans seen, le⟩
      rw [Window.perform, h.indices_free inside] at still
      simp [held] at still
  | @evicted newer s member held =>
      cases h.asked shaped newer with
      | found place _ idle => simp [idle] at member
      | late _ idle => simp [idle] at member
      | new above granted last opened conserved =>
          have row := h.ascending_entering above
          rw [← opened, ← conserved, List.pairwise_append] at row
          have out : i ∈ (w.acquire newer).evicted.filterMap Slot.index :=
            List.mem_filterMap.mpr ⟨s, member, held⟩
          refine ⟨fun still => Nat.lt_irrefl i (row.2.2 i out i still), newer, last, ?_⟩
          have all : i ∈ w.indices ++ w.opened (.acquire newer) := conserved ▸ List.mem_append_left _ out
          rcases List.mem_append.mp all with old | new
          · obtain ⟨before, seen, le⟩ := h.le_last i old
            exact le.trans (above before seen).le
          · exact entering_le (opened ▸ new)
  | @passed newer below absent unopened =>
      cases h.asked shaped newer with
      | found place held idle =>
          obtain ⟨last, seen, le⟩ := h.le_last newer held
          have same : w.perform (.acquire newer) = w := by rw [Window.perform, idle]
          rw [same]
          exact ⟨absent, last, seen, below.le.trans le⟩
      | late gone idle =>
          obtain ⟨last, seen, le⟩ := gone.passed
          have same : w.perform (.acquire newer) = w := by rw [Window.perform, idle]
          rw [same]
          exact ⟨absent, last, seen, below.le.trans le⟩
      | new above granted last opened conserved =>
          refine ⟨fun still => ?_, newer, last, below.le⟩
          have all : i ∈ w.indices ++ w.opened (.acquire newer) :=
            conserved ▸ List.mem_append_right _ still
          exact (List.mem_append.mp all).elim absent unopened

/-! ## What a run does -/

theorem Regular.last_performAll (h : w.Regular slots) (shaped : w.Shaped) {asked : List Nat}
    (largest : w.last = asked.max?) (ops : List Op) :
    (w.performAll ops).last = (asked ++ gather granted w ops).max? := by
  induction ops generalizing w asked with
  | nil =>
      rw [gather, List.append_nil]
      exact largest
  | cons op ops ih =>
      obtain ⟨regular, shapes⟩ := h.perform_any shaped op
      rw [gather, ← List.append_assoc]
      exact ih regular shapes (h.last_perform shaped largest op).1

/-- The blocks that come into a window ascend over a whole run. -/
theorem Regular.gather_opened (h : w.Regular slots) (shaped : w.Shaped) (ops : List Op) :
    (gather opened w ops).Pairwise (· < ·) ∧
      ∀ j ∈ gather opened w ops, ∀ last, w.last = some last → last < j := by
  induction ops generalizing w with
  | nil => exact ⟨.nil, nofun⟩
  | cons op ops ih =>
      obtain ⟨regular, shapes⟩ := h.perform_any shaped op
      obtain ⟨ascends, above, within⟩ := h.opened_range shaped op
      obtain ⟨later, behind⟩ := ih regular shapes
      refine ⟨List.pairwise_append.mpr ⟨ascends, later, fun j hj l hl => ?_⟩, fun j hj last seen => ?_⟩
      · obtain ⟨last, seen, le⟩ := within j hj
        exact le.trans_lt (behind l hl last seen)
      · rcases List.mem_append.mp hj with here | there
        · exact above j here last seen
        · have largest : w.last = w.last.toList.max? := by cases w.last <;> rfl
          obtain ⟨raised, isLast, le⟩ := (h.last_perform shaped largest op).2 last seen
          exact le.trans_lt (behind j there raised isLast)

theorem Gone.performAll (gone : w.Gone i) (h : w.Regular slots) (shaped : w.Shaped) (ops : List Op) :
    (w.performAll ops).Gone i := by
  induction ops generalizing w with
  | nil => exact gone
  | cons op ops ih =>
      obtain ⟨regular, shapes⟩ := h.perform_any shaped op
      exact ih (gone.perform h shaped op) regular shapes

/-- Whatever a window is asked for, with whatever arguments: its last index is the largest that has been
given a slot and is never lowered; no block is let in twice; and a block that has been freed or evicted,
or that a newer one has passed by, is never given a slot again, and asking for it changes nothing. -/
theorem enters_once_leaves_for_good {size count : Nat} {new : Window}
    (created : create slots size count = .ok new) (ops : List Op) :
    (new.performAll ops).last = (gather granted new ops).max? ∧
    (∀ op last, (new.performAll ops).last = some last →
      ∃ later, ((new.performAll ops).perform op).last = some later ∧ last ≤ later) ∧
    (gather opened new ops).Nodup ∧
    ∀ before op after i, ops = before ++ op :: after → (new.performAll before).Ends i op →
      (new.performAll ops).acquire i = ⟨none, new.performAll ops, []⟩ := by
  obtain ⟨regular, shaped⟩ := create_regular created
  have start : new.last = ([] : List Nat).max? := (create_ok created).last
  have largest := regular.last_performAll shaped start ops
  obtain ⟨reached, shapes⟩ := regular.performAll_any shaped ops
  refine ⟨largest, fun op => (reached.last_perform shapes largest op).2, ?_, ?_⟩
  · exact (regular.gather_opened shaped ops).1.imp Nat.ne_of_lt
  · rintro before op after i rfl ends
    obtain ⟨there, formed⟩ := regular.performAll_any shaped before
    obtain ⟨next, kept⟩ := there.perform_any formed op
    have gone := (there.gone_of_ends formed ends).performAll next kept after
    rw [performAll, List.foldl_append]
    exact gone.acquire

/-- Block 4 is freed, 5 enters with 6 and is evicted for 9, and 2 is passed by at once.  That freeing a slot
that is not there does nothing is the window's convention: with checked indices there is no result. -/
theorem enters_once_leaves_for_good_jump :
    ∃ new, create 2 4 1 = .ok new ∧
      let ops := [Op.acquire 4, .free 0, .free 7, .acquire 6, .acquire 9]
      (new.performAll ops).last = some 9 ∧ gather granted new ops = [4, 6, 9] ∧
      gather opened new ops = [4, 5, 6, 8, 9] ∧
      ∀ i ∈ [2, 4, 5], (new.performAll ops).acquire i = ⟨none, new.performAll ops, []⟩ := by
  obtain ⟨new, created⟩ : ∃ new, create 2 4 1 = .ok new := ⟨_, rfl⟩
  obtain ⟨largest, -, -, gone⟩ := enters_once_leaves_for_good created
    [Op.acquire 4, .free 0, .free 7, .acquire 6, .acquire 9]
  cases created
  refine ⟨_, rfl, largest, by decide, by decide, fun i hi => ?_⟩
  simp only [List.mem_cons, List.not_mem_nil, or_false] at hi
  rcases hi with rfl | rfl | rfl
  · exact gone [] _ _ 2 rfl (.passed (by decide) (by decide) (by decide))
  · exact gone [.acquire 4] _ _ 4 rfl (.freed rfl)
  · exact gone [.acquire 4, .free 0, .free 7, .acquire 6] _ _ 5 rfl (.evicted (.head _) rfl)

end Window

end AirLink
