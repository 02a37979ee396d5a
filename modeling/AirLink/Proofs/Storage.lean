import AirLink.Proofs.Passage
import AirLink.Proofs.Departure

/-! # What the buffers of a window hold

Every fragment of every slot has a buffer of its own.  What is stored in one stays there until something
else is stored in it, whatever becomes of the other buffers and of the blocks that the slots are opened
for.  Opening a slot for a block only makes its buffers count as empty.
-/

namespace AirLink

namespace Window

variable {w : Window} {slots p fragment : Nat} {op : Op}

/-- The slot and the fragment that are worked on are each one of so many, and what is to be stored is not
too long. -/
def Op.Fits (slots size count : Nat) : Op → Prop
  | .store place fragment bytes => place < slots ∧ fragment < count ∧ bytes.length ≤ size
  | .advance place => place < slots
  | .acquire _ | .free _ => True

/-- What a request stores in a buffer. -/
def Op.storedAt (p fragment : Nat) : Op → Option Bytes
  | .store place i bytes => if place = p ∧ i = fragment then some bytes else none
  | _ => none

/-- What some requests have stored in a buffer in the end. -/
def lastStored (p fragment : Nat) (ops : List Op) : Option Bytes :=
  (ops.filterMap (Op.storedAt p fragment)).getLast?

/-- The slot holds a block that it has been opened for just now. -/
def opens (w : Window) (p : Nat) (op : Op) : Bool :=
  ((w.perform op).slotAt p).index.any (· ∈ w.opened op)

/-- The requests of a run since a slot was last opened; all of them if it never was. -/
def sinceOpened (p : Nat) (w : Window) (ops : List Op) : List Op :=
  (ops.foldl (fun s op => (s.1.perform op, if s.1.opens p op then [] else s.2 ++ [op])) (w, [])).2

/-- What letting some blocks in does to a slot: it is opened for one of them, or it keeps its bytes. -/
inductive Turned (entering : List Nat) (before after : Slot) : Prop
  | opened {i : Nat} (member : i ∈ entering) (index : after.index = some i)
      (cells : after.cells = before.cells.map fun c => { c with length := 0 })
  | kept (index : after.index = before.index ∨ after.index = none) (cells : after.cells = before.cells)

/-- Freeing a slot takes no bytes away. -/
theorem slotAt_free_kept (w : Window) (p q : Nat) :
    (((w.free q).slotAt p).index = (w.slotAt p).index ∨ ((w.free q).slotAt p).index = none) ∧
      ((w.free q).slotAt p).cells = (w.slotAt p).cells := by
  by_cases some : 0 < w.span
  case neg =>
    rw [free_of_span_zero (by omega)]
    exact ⟨.inl rfl, rfl⟩
  by_cases same : p = q
  case neg =>
    rw [slotAt_free_ne same]
    exact ⟨.inl rfl, rfl⟩
  rw [slotAt_free some, same]
  by_cases inside : q < w.capacity
  · rw [slotAt_modify_self inside]
    exact ⟨.inr rfl, rfl⟩
  · rw [modify_outside (Nat.le_of_not_lt inside)]
    exact ⟨.inl rfl, rfl⟩

theorem slotAt_roomy (w : Window) (p : Nat) :
    ((w.roomy.slotAt p).index = (w.slotAt p).index ∨ (w.roomy.slotAt p).index = none) ∧
      (w.roomy.slotAt p).cells = (w.slotAt p).cells := by
  unfold Window.roomy
  split
  · exact slotAt_free_kept w p w.front
  · exact ⟨.inl rfl, rfl⟩

theorem Wellformed.turned (h : w.Wellformed) (shaped : w.Shaped) {entering : List Nat}
    (fits : entering.length ≤ w.capacity) (p : Nat) :
    Turned entering (w.slotAt p) ((w.pushAll entering).1.slotAt p) := by
  induction entering generalizing w with
  | nil => exact .kept (.inl rfl) rfl
  | cons i rest ih =>
      have opened := h.push_opened shaped i
      have room : rest.length ≤ (w.push i).1.capacity := by
        rw [opened.alike.capacity]
        exact Nat.le_of_succ_le fits
      obtain ⟨index, cells⟩ := w.slotAt_roomy p
      rw [pushAll_cons]
      by_cases here : p = w.roomy.place w.roomy.span
      · -- The slot is not needed again for the others.
        obtain ⟨added, more⟩ := opened.wellformed.pushAll_replaced opened.shaped room
        have stays : p ∈ (w.push i).1.staying rest.length := by
          rw [(h.outgoing_push i fits).2, here]
          exact List.mem_append_right _ (List.mem_singleton_self _)
        have fresh : (w.push i).1.slotAt p = (w.roomy.slotAt p).reset i := by
          rw [here]
          exact (h.push i).2.2.2
        refine .opened (List.mem_cons_self ..) ?_ ?_ <;> rw [more.kept p stays, fresh, Slot.reset]
        rw [cells]
      · have same := (h.push i).2.2.1 p here
        have later := ih opened.wellformed opened.shaped room
        rw [same] at later
        cases later with
        | opened member isOpen emptied =>
            exact .opened (List.mem_cons_of_mem _ member) isOpen (emptied.trans (by rw [cells]))
        | kept still bytes =>
            refine .kept ?_ (bytes.trans cells)
            rcases still with still | none
            · rwa [still]
            · exact .inr none

/-! ## One request -/

theorem opens_of_unopened (none : w.opened op = []) : w.opens p op = false := by
  rw [opens, none]
  cases ((w.perform op).slotAt p).index <;> rfl

/-- Asking for a block empties the slots that are opened and leaves the others as they are. -/
theorem Regular.cells_acquire (h : w.Regular slots) (shaped : w.Shaped) (i p : Nat) :
    ((w.perform (.acquire i)).slotAt p).cells =
      if w.opens p (.acquire i) then (w.slotAt p).cells.map fun c => { c with length := 0 }
      else (w.slotAt p).cells := by
  obtain ⟨place, -, idle⟩ | ⟨-, -, idle⟩ | ⟨missing, above⟩ := w.acquire_cases i
  · rw [opens_of_unopened (opened_of_idle idle), Window.perform, idle]
    rfl
  · rw [opens_of_unopened (opened_of_idle idle), Window.perform, idle]
    rfl
  · have opened := h.opened_new shaped missing above
    have few : (w.entering i).length ≤ w.capacity := by
      rw [entering_eq, List.length_range']
      exact (h.toWellformed.arrivals_range above).2.2
    have same : (w.perform (.acquire i)).slotAt p = (w.pushAll (w.entering i)).1.slotAt p := by
      rw [Window.perform, Window.acquire_new missing above]
      rfl
    rw [opens, opened, same]
    cases h.toWellformed.turned shaped few p with
    | opened member index cells =>
        rw [index, cells, if_pos (by simpa using member)]
    | kept index cells =>
        have old (j : Nat) (here : (w.slotAt p).index = some j) : j ∉ w.entering i := by
          intro member
          have held : j ∈ w.indices := mem_indices.mpr ⟨p, index_of_mem h.toWellformed here, here⟩
          have row := List.pairwise_append.mp (h.ascending_entering above)
          exact Nat.lt_irrefl j (row.2.2 j held j member)
        rw [cells, if_neg]
        rcases index with index | index <;> rw [index]
        · cases here : (w.slotAt p).index with
          | none => simp
          | some j => simpa using old j here
        · simp

theorem cells_advance (hp : p < w.capacity) (q : Nat) :
    ((w.modify q Slot.advance).slotAt p).cells = (w.slotAt p).cells := by
  by_cases here : p = q
  · rw [← here, slotAt_modify_self hp]
    rfl
  · rw [slotAt_modify_ne w here]

theorem storedAt_of_other (other : ∀ i bytes, op ≠ .store p i bytes) : op.storedAt p fragment = none := by
  cases op with
  | store q i bytes =>
      have away : q ≠ p := by
        rintro rfl
        exact other i bytes rfl
      rw [Op.storedAt, if_neg fun both => away both.1]
  | acquire | free | advance => rfl

/-- A slot keeps its bytes unless something is stored in it. -/
theorem Regular.cells_perform (h : w.Regular slots) (shaped : w.Shaped) (hp : p < slots)
    (other : ∀ i bytes, op ≠ .store p i bytes) : ((w.perform op).slotAt p).cells =
      if w.opens p op then (w.slotAt p).cells.map fun c => { c with length := 0 }
      else (w.slotAt p).cells := by
  cases op with
  | acquire i => exact h.cells_acquire shaped i p
  | free q =>
      rw [opens_of_unopened rfl, if_neg Bool.false_ne_true]
      exact (w.slotAt_free_kept p q).2
  | store q i bytes =>
      have away : p ≠ q := by
        rintro rfl
        exact other i bytes rfl
      rw [opens_of_unopened rfl, if_neg Bool.false_ne_true, Window.perform, slotAt_modify_ne w away]
  | advance q =>
      rw [opens_of_unopened rfl, if_neg Bool.false_ne_true]
      exact cells_advance (h.capacity.symm ▸ hp) q

/-- A buffer has other bytes only if something is stored in it. -/
theorem Regular.bufferOf_perform (h : w.Regular slots) (shaped : w.Shaped) (op : Op) (hp : p < slots)
    (inside : fragment < w.fragmentCount) : ((w.perform op).slotAt p).bufferOf fragment =
      (op.storedAt p fragment).elim ((w.slotAt p).bufferOf fragment) (Bytes.fit w.fragmentSize) := by
  by_cases here : ∃ i bytes, op = .store p i bytes
  case neg =>
    have other : ∀ i bytes, op ≠ .store p i bytes := fun i bytes same => here ⟨i, bytes, same⟩
    rw [storedAt_of_other other, Slot.bufferOf, h.cells_perform shaped hp other]
    split
    · rw [List.getElem?_map, Option.map_map]
      rfl
    · rfl
  obtain ⟨i, bytes, rfl⟩ := here
  have place : p < w.capacity := h.capacity.symm ▸ hp
  rw [Window.perform, slotAt_modify_self place]
  by_cases same : i = fragment
  · rw [Op.storedAt, if_pos ⟨rfl, same⟩, same, (shaped p place).bufferOf_store inside]
    rfl
  · rw [Op.storedAt, if_neg fun both => same both.2, Slot.bufferOf_store_ne (Ne.symm same)]
    rfl

/-- A buffer counts as holding what is stored in it until the slot is opened for another block. -/
theorem Regular.lengthOf_perform (h : w.Regular slots) (shaped : w.Shaped) (op : Op) (hp : p < slots)
    (inside : fragment < w.fragmentCount) : ((w.perform op).slotAt p).lengthOf fragment =
      if w.opens p op then 0
      else (op.storedAt p fragment).elim ((w.slotAt p).lengthOf fragment) List.length := by
  by_cases here : ∃ i bytes, op = .store p i bytes
  case neg =>
    have other : ∀ i bytes, op ≠ .store p i bytes := fun i bytes same => here ⟨i, bytes, same⟩
    rw [storedAt_of_other other, Slot.lengthOf, h.cells_perform shaped hp other]
    split
    · rw [List.getElem?_map, Option.map_map]
      cases (w.slotAt p).cells[fragment]? <;> rfl
    · rfl
  obtain ⟨i, bytes, rfl⟩ := here
  have place : p < w.capacity := h.capacity.symm ▸ hp
  rw [opens_of_unopened rfl, if_neg Bool.false_ne_true, Window.perform, slotAt_modify_self place]
  by_cases same : i = fragment
  · rw [Op.storedAt, if_pos ⟨rfl, same⟩, same, Slot.lengthOf_store ((shaped p place).length.symm ▸ inside),
      if_pos rfl]
    rfl
  · rw [Op.storedAt, if_neg fun both => same both.2]
    simp [Slot.store, Slot.lengthOf, same]

/-! ## A run -/

theorem lastStored_concat (p fragment : Nat) (ops : List Op) (op : Op) :
    lastStored p fragment (ops ++ [op]) = (op.storedAt p fragment).or (lastStored p fragment ops) := by
  rw [lastStored, List.filterMap_append, List.getLast?_append]
  cases stored : op.storedAt p fragment <;> simp [stored, lastStored]

theorem sinceOpened_concat (p : Nat) (w : Window) (ops : List Op) (op : Op) :
    sinceOpened p w (ops ++ [op]) =
      if (w.performAll ops).opens p op then [] else sinceOpened p w ops ++ [op] := by
  have reached (ops : List Op) (recent : List Op) :
      (ops.foldl (fun s op => (s.1.perform op, if s.1.opens p op then [] else s.2 ++ [op]))
        (w, recent)).1 = w.performAll ops := by
    induction ops generalizing w recent with
    | nil => rfl
    | cons op ops ih => exact ih _ _
  rw [sinceOpened, List.foldl_append, List.foldl_cons, List.foldl_nil, reached]
  rfl

theorem performAll_concat (w : Window) (ops : List Op) (op : Op) :
    w.performAll (ops ++ [op]) = (w.performAll ops).perform op := by
  rw [performAll, List.foldl_append]
  rfl

theorem alike_pushAll (w : Window) (entering : List Nat) : Alike (w.pushAll entering).1 w := by
  induction entering generalizing w with
  | nil => exact .refl w
  | cons i rest ih => exact (ih (w.push i).1).trans (alike_push w i)

/-- A window keeps its measures. -/
theorem alike_perform (w : Window) (op : Op) : Alike (w.perform op) w := by
  cases op with
  | acquire i =>
      rw [Window.perform]
      obtain ⟨place, -, idle⟩ | ⟨-, -, idle⟩ | ⟨missing, above⟩ := w.acquire_cases i
      · rw [idle]
        exact .refl w
      · rw [idle]
        exact .refl w
      · rw [Window.acquire_new missing above]
        have alike := w.alike_pushAll (w.entering i)
        exact ⟨alike.capacity, alike.fragmentSize, alike.fragmentCount⟩
  | free q => exact alike_free w q
  | store q i bytes => exact alike_modify w q _
  | advance q => exact alike_modify w q _

theorem alike_performAll (w : Window) (ops : List Op) : Alike (w.performAll ops) w := by
  induction ops generalizing w with
  | nil => exact .refl w
  | cons op ops ih => exact (ih (w.perform op)).trans (w.alike_perform op)

/-- A new window holds no bytes. -/
theorem blank_create {size count : Nat} {new : Window} (created : create slots size count = .ok new)
    (hp : p < slots) : new.slotAt p = Slot.blank size count := by
  unfold create at created
  split_ifs at created
  cases created
  simp [slotAt, Array.getD_eq_getD_getElem?, hp]

/-- What a run leaves in a buffer of a new window. -/
theorem stored_performAll {size count : Nat} {new : Window} (created : create slots size count = .ok new)
    (ops : List Op) (hp : p < slots) (inside : fragment < count) :
    ((new.performAll ops).slotAt p).bufferOf fragment = Bytes.fit size ((lastStored p fragment ops).getD []) ∧
      ((new.performAll ops).slotAt p).lengthOf fragment =
        ((lastStored p fragment (sinceOpened p new ops)).getD []).length := by
  obtain ⟨regular, shaped⟩ := create_regular created
  have empty := create_ok created
  induction ops using List.reverseRecOn with
  | nil =>
      have start : (new.performAll []).slotAt p = Slot.blank size count := blank_create created hp
      have cell : (Slot.blank size count).cells[fragment]? = some ⟨0, Bytes.zeros size⟩ := by
        rw [Slot.blank, List.getElem?_replicate, if_pos inside]
      rw [start, Slot.bufferOf, Slot.lengthOf, cell]
      exact ⟨by simp [lastStored, Bytes.fit], rfl⟩
  | append_singleton ops op ih =>
      obtain ⟨reached, formed⟩ := regular.performAll_any shaped ops
      obtain ⟨buffer, length⟩ := ih
      have alike := new.alike_performAll ops
      have many : fragment < (new.performAll ops).fragmentCount := by
        rwa [alike.fragmentCount, empty.fragmentCount]
      have width := alike.fragmentSize.trans empty.fragmentSize
      rw [performAll_concat, lastStored_concat, sinceOpened_concat, reached.bufferOf_perform formed op hp many,
        reached.lengthOf_perform formed op hp many, buffer, length, width]
      constructor
      · cases op.storedAt p fragment <;> rfl
      · split
        · rfl
        · rw [lastStored_concat]
          cases op.storedAt p fragment <;> rfl

end Window

end AirLink
