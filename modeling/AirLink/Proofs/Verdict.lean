import AirLink.Proofs.Provenance

/-! # What becomes of a fragment

The fragments that an assembly has accepted so far settle what becomes of the next one: whether its block
is still open, whether it is there already, and how many gaps are filled on its arrival.  The window of
the assembly, and how many slots it has, is not asked.
-/

namespace AirLink

open ErasureCode

namespace Intake

/-- A block is closed when a newer one has been taken up, or all of it has been passed on. -/
def verdict (k : Nat) (taken : List Intake) (block fragment : Nat) : DataOutcome :=
  let given := ofBlock taken block
  if overtaken taken block = true ∨ passed given k false = List.range k then .outOfWindow
  else if has given fragment then .duplicate
  else .accepted

/-- The number of gaps that are filled on the arrival of the last of a block's fragments. -/
def gain (code : ErasureCode) (given : List Intake) : Option Nat :=
  if rebuilt given code.k = true ∧
      (List.range code.k).takeWhile (has given) ≠ List.range code.k then
    some (absent code given).length
  else none

/-- Fragments that can have been accepted one after the other: each has room in its block, none is there
twice, and none comes after the erasure code has been used. -/
structure Lawful (code : ErasureCode) (size : Nat) (taken : List Intake) : Prop where
  place : ∀ x ∈ taken, x.fragment < code.n
  long : ∀ x ∈ taken, Limits.fragmentHeader ≤ x.plain.length
  fits : ∀ x ∈ taken, x.plain.length ≤ size
  distinct : ∀ b, ((ofBlock taken b).map Intake.fragment).Nodup
  full : ∀ b, rebuilt (ofBlock taken b) code.k = true → (ofBlock taken b).length = code.k

variable {code : ErasureCode} {size k : Nat} {taken : List Intake} {x : Intake}

theorem range_inj {m n : Nat} : List.range m = List.range n ↔ m = n :=
  ⟨fun same => by simpa using congrArg List.length same, congrArg List.range⟩

theorem has_iff {i : Nat} : has taken i = true ↔ i ∈ taken.map Intake.fragment := by
  simp [has, plain?]

/-- What is accepted has not been there, and its block has not been rebuilt. -/
theorem verdict_accepted {block fragment : Nat} (accepted : verdict k taken block fragment = .accepted) :
    has (ofBlock taken block) fragment = false ∧ rebuilt (ofBlock taken block) k = false := by
  unfold verdict at accepted
  simp only at accepted
  split_ifs at accepted with closed present
  refine ⟨Bool.eq_false_iff.mpr present, Bool.eq_false_iff.mpr fun used => closed (.inr ?_)⟩
  rw [passed, if_pos used]

theorem lawful_nil : Lawful code size [] where
  place _ hx := by cases hx
  long _ hx := by cases hx
  fits _ hx := by cases hx
  distinct _ := List.nodup_nil
  full b used := by simp [ofBlock, rebuilt] at used

theorem Lawful.concat (h : Lawful code size taken) (pos : 0 < code.k) (place : x.fragment < code.n)
    (long : Limits.fragmentHeader ≤ x.plain.length) (fits : x.plain.length ≤ size)
    (accepted : verdict code.k taken x.block x.fragment = .accepted) :
    Lawful code size (taken ++ [x]) := by
  obtain ⟨new, unused⟩ := verdict_accepted accepted
  have each {p : Intake → Prop} (old : ∀ y ∈ taken, p y) (here : p x) : ∀ y ∈ taken ++ [x], p y := by
    intro y hy
    rcases List.mem_append.mp hy with hy | hy
    · exact old y hy
    · rwa [List.mem_singleton.mp hy]
  refine ⟨each h.place place, each h.long long, each h.fits fits, fun b => ?_, fun b => ?_⟩
  · rw [ofBlock_concat]
    split_ifs with here
    · subst here
      rw [List.map_append, List.map_singleton, ← List.concat_eq_append]
      refine (h.distinct _).concat fun again => ?_
      rw [← has_iff, new] at again
      cases again
    · rw [List.append_nil]
      exact h.distinct b
  · rw [ofBlock_concat]
    split_ifs with here
    · subst here
      intro used
      rw [Slot.rebuilt_concat pos x unused] at used
      exact of_decide_eq_true ((Bool.and_eq_true ..).mp used).2
    · rw [List.append_nil]
      exact h.full b

/-- So many fragments as have been accepted are there. -/
theorem length_filter_has {given : List Intake} {n : Nat} (place : ∀ x ∈ given, x.fragment < n)
    (distinct : (given.map Intake.fragment).Nodup) :
    ((List.range n).filter (has given)).length = given.length := by
  have same : ((List.range n).filter (has given)).Perm (given.map Intake.fragment) := by
    rw [List.perm_ext_iff_of_nodup (List.nodup_range.filter _) distinct]
    intro i
    rw [List.mem_filter, List.mem_range, has_iff, and_iff_right_iff_imp]
    intro hi
    obtain ⟨x, hx, rfl⟩ := List.mem_map.mp hi
    exact place x hx
  simpa using same.length_eq

theorem Lawful.count (h : Lawful code size taken) {b : Nat} (used : rebuilt (ofBlock taken b) code.k = true) :
    ((List.range code.n).filter (has (ofBlock taken b))).length = code.k := by
  rw [length_filter_has (fun x hx => h.place x (mem_ofBlock.mp hx).1) (h.distinct b), h.full b used]

end Intake

namespace Slot

open Intake

variable {s rest : Slot} {code : ErasureCode} {size block : Nat} {left : Nat → Bytes} {taken : List Intake}

/-- An open block has not been passed on as a whole. -/
theorem Pending.passed_ne (pending : s.Pending code size left taken) (gap : s.cursor ≠ code.k) :
    passed taken code.k false ≠ List.range code.k := by
  rw [passed, pending.unused, if_neg Bool.false_ne_true, if_neg Bool.false_ne_true, pending.front]
  exact fun whole => gap (range_inj.mp whole)

theorem Settled.gap {recover : Bool} {emissions : List Emission}
    (settled : Settled code recover s emissions (some rest)) : rest.cursor ≠ code.k := by
  cases settled with
  | waiting gap => exact gap

/-- How many gaps are filled is told by the fragments that have been taken in. -/
theorem Keeps.gain_eq (sound : Sound code) {x : Intake} (unused : rebuilt taken code.k = false)
    (holding : s.Holding code size block) (keeps : s.Keeps code size left (taken ++ [x])) :
    s.gain code x.recover = Intake.gain code (taken ++ [x]) := by
  have front := holding.prefix_drain
  rw [keeps.has] at front
  have used : ((s.drain code.k .cutThrough).1.cursor ≠ code.k ∧ x.recover = true ∧ s.used = code.k) ↔
      rebuilt (taken ++ [x]) code.k = true ∧
        (List.range code.k).takeWhile (Intake.has (taken ++ [x])) ≠ List.range code.k := by
    rw [rebuilt_concat sound.pos x unused, front, ← keeps.used, ne_eq, ne_eq, range_inj,
      Bool.and_eq_true, decide_eq_true_eq]
    exact and_comm
  have places : s.absent code.k = Intake.absent code (taken ++ [x]) := by
    rw [Slot.absent, keeps.has, Intake.absent]
  rw [Slot.gain, Intake.gain, places]
  exact if_congr used rfl rfl

end Slot

namespace Assembly

open Intake

variable {a : Assembly} {taken : List Intake} {delivered : List Delivery}

theorem intake?_eq_some {x : Arrival} {recover : Bool} {y : Intake} : a.intake? x recover = some y ↔
    ∃ plain, a.authenticate x = .ok plain ∧ (a.receive x recover).1.outcome = .ok .accepted ∧
      y = ⟨x.block, x.fragment, plain, recover⟩ := by
  unfold intake?
  cases a.authenticate x with
  | error fault => simp
  | ok plain =>
      cases (a.receive x recover).1.outcome with
      | error fault => simp
      | ok result => cases result <;> simp [eq_comm]

/-- The assembly has accepted these fragments. -/
structure Informed (taken : List Intake) (a : Assembly) : Prop where
  accounts : ∃ delivered, Accounts taken delivered a
  gap : ∀ s ∈ a.window.live, s.cursor ≠ a.code.k
  lawful : Lawful a.code a.window.fragmentSize taken

theorem Accounts.verdict_open (h : Accounts taken delivered a) {s : Slot} (live : a.window.live = [s])
    (gap : s.cursor ≠ a.code.k) {block : Nat} (index : s.index = some block) (fragment : Nat) :
    s.Holding a.code a.window.fragmentSize block ∧
      (∃ left, s.Pending a.code a.window.fragmentSize left (ofBlock taken block)) ∧
      verdict a.code.k taken block fragment = if s.has fragment then .duplicate else .accepted := by
  obtain ⟨last, isLast, holding⟩ := h.ready.holding_of_live live
  obtain rfl := Option.some.inj (index.symm.trans holding.index)
  obtain ⟨left, account⟩ := h.blocks block
  have pending := account.pending s live isLast
  have stays : ¬(overtaken taken block = true ∨
      passed (ofBlock taken block) a.code.k false = List.range a.code.k) := by
    rw [not_overtaken (h.newest block isLast).2]
    exact not_or.mpr ⟨Bool.false_ne_true, pending.passed_ne gap⟩
  refine ⟨holding, ⟨left, pending⟩, ?_⟩
  simp only [verdict, if_neg stays, pending.keeps.has]

theorem Accounts.verdict_late (h : Accounts taken delivered a) {last block : Nat}
    (isLast : a.window.last = some last) (le : block ≤ last)
    (elsewhere : ∀ s ∈ a.window.live, s.index ≠ some block) (fragment : Nat) :
    verdict a.code.k taken block fragment = .outOfWindow := by
  unfold verdict
  refine if_pos ?_
  rcases le.lt_or_eq with less | rfl
  · exact .inl (h.behind isLast less)
  · rcases h.ready.newest with none | ⟨s, top, live, isTop, holding⟩
    · obtain ⟨left, account⟩ := h.blocks block
      exact .inr (account.complete none isLast false)
    · obtain rfl := Option.some.inj (isLast.symm.trans isTop)
      exact absurd holding.index (elsewhere s (by rw [live]; exact List.mem_singleton_self s))

theorem Accounts.verdict_new (h : Accounts taken delivered a) {block : Nat}
    (above : ∀ last, a.window.last = some last → last < block) (fragment : Nat) :
    ofBlock taken block = [] ∧ verdict a.code.k taken block fragment = .accepted := by
  have older := h.older above
  have absent : ofBlock taken block = [] := ofBlock_eq_nil fun y hy => (older y hy).ne
  have pos := h.ready.sound.pos
  have stays : ¬(overtaken taken block = true ∨ passed [] a.code.k false = List.range a.code.k) := by
    rw [not_overtaken fun y hy => (older y hy).le, passed_nil]
    refine not_or.mpr ⟨Bool.false_ne_true, fun none => ?_⟩
    have := congrArg List.length none
    simp only [List.length_nil, List.length_range] at this
    omega
  refine ⟨absent, ?_⟩
  simp only [verdict, absent, if_neg stays, has_nil]
  rfl

/-- What is said of a packet, and how many gaps it fills, is told by the fragments accepted before it.  A
block that stays open has a gap. -/
theorem Informed.answer (h : Informed taken a) (x : Arrival) (recover : Bool) :
    (a.receive x recover).1.outcome =
        (a.authenticate x).map (fun _ => verdict a.code.k taken x.block x.fragment) ∧
      (a.receive x recover).1.rebuilt =
        (a.intake? x recover).bind (fun y => gain a.code (ofBlock taken y.block ++ [y])) ∧
      ∀ s ∈ (a.receive x recover).2.window.live, s.cursor ≠ a.code.k := by
  obtain ⟨delivered, accounts⟩ := h.accounts
  have sound := accounts.ready.sound
  unfold intake?
  cases opened : a.authenticate x with
  | error fault =>
      rw [Assembly.receive, opened]
      exact ⟨rfl, rfl, h.gap⟩
  | ok plain =>
      obtain ⟨-, suits⟩ := authenticate_ok opened
      let y : Intake := ⟨x.block, x.fragment, plain, recover⟩
      have step : a.receive x recover = a.accept x.block x.fragment plain recover := by
        rw [Assembly.receive, opened]
      rw [step]
      -- Only in the last two situations is anything taken in, and then the slot keeps all of the block.
      cases accounts.ready.accept suits recover with
      | late last isLast le elsewhere outcome _ window rebuilt =>
          rw [outcome, rebuilt, window, accounts.verdict_late isLast le elsewhere]
          exact ⟨rfl, rfl, h.gap⟩
      | duplicate s live index has outcome _ window rebuilt =>
          have gap := h.gap s (by rw [live]; exact List.mem_singleton_self s)
          obtain ⟨-, -, said⟩ := accounts.verdict_open live gap index x.fragment
          rw [outcome, rebuilt, window, said, if_pos has]
          exact ⟨rfl, rfl, h.gap⟩
      | stored s rest live index new settled outcome window rebuilt =>
          have gap := h.gap s (by rw [live]; exact List.mem_singleton_self s)
          obtain ⟨holding, ⟨left, pending⟩, said⟩ := accounts.verdict_open live gap index x.fragment
          have keeps := pending.keeps.store holding.shaped (x := y) suits new
          rw [outcome, rebuilt, said, new, window.live,
            keeps.gain_eq sound pending.unused (holding.store suits new)]
          refine ⟨rfl, rfl, fun u hu => ?_⟩
          obtain rfl := Option.mem_toList.mp hu
          exact settled.gap
      | opened fresh below emissions rest above isFresh _ _ settled outcome _ window rebuilt =>
          obtain ⟨absent, said⟩ := accounts.verdict_new above x.fragment
          have new := isFresh.not_has x.fragment
          have keeps := isFresh.keeps.store isFresh.shaped (x := y) suits new
          rw [outcome, rebuilt, said, window.live,
            keeps.gain_eq sound rfl (isFresh.holding.store suits new)]
          refine ⟨rfl, ?_, fun u hu => ?_⟩
          · change _ = gain a.code (ofBlock taken y.block ++ [y])
            rw [absent]
          · obtain rfl := Option.mem_toList.mp hu
            exact settled.gap

theorem Informed.receive (h : Informed taken a) (x : Arrival) (recover : Bool) :
    Informed (taken ++ (a.intake? x recover).toList) (a.receive x recover).2 := by
  obtain ⟨delivered, accounts⟩ := h.accounts
  obtain ⟨-, code, -⟩ := accounts.ready.receive x recover
  obtain ⟨size, -⟩ := accounts.ready.receive_frame x recover
  obtain ⟨outcome, -, gap⟩ := h.answer x recover
  refine ⟨⟨_, accounts.receive x recover⟩, code ▸ gap, ?_⟩
  rw [code, size]
  cases new : a.intake? x recover with
  | none =>
      rw [Option.toList_none, List.append_nil]
      exact h.lawful
  | some y =>
      obtain ⟨plain, opened, accepted, rfl⟩ := intake?_eq_some.mp new
      rw [outcome, opened, Except.map, Except.ok.injEq] at accepted
      obtain ⟨-, suits⟩ := authenticate_ok opened
      exact h.lawful.concat accounts.ready.sound.pos suits.lt (authenticate_long opened) suits.fits accepted

theorem Informed.run (h : Informed taken a) (calls : List (Arrival × Bool)) :
    Informed (taken ++ a.intakes calls) (a.run calls).2 :=
  @run_induction a Emission (fun taken _ => Informed taken) Report.emissions Informed.receive taken [] h calls

theorem informed_create {key : Key} {k n slots size : Nat} (created : create key k n slots size = .ok a) :
    Informed [] a where
  accounts := ⟨[], accounts_create created⟩
  gap s hs := by
    rw [(create_ready created).2.1] at hs
    cases hs
  lawful := lawful_nil

theorem lawful_run {key : Key} {k n slots size : Nat} (created : create key k n slots size = .ok a)
    (calls : List (Arrival × Bool)) : Lawful a.code size (a.intakes calls) := by
  obtain ⟨ready, -, -, rfl, -⟩ := create_ready created
  obtain ⟨code, same, -⟩ := ready.run_frame calls
  have lawful := ((informed_create created).run calls).lawful
  rwa [code, same] at lawful

/-- Opening a packet looks at the key and the sizes alone. -/
theorem authenticate_congr {next : Assembly} (key : next.key = a.key) (code : next.code = a.code)
    (size : next.window.fragmentSize = a.window.fragmentSize) (x : Arrival) :
    next.authenticate x = a.authenticate x := by
  rw [authenticate, authenticate, key, code, size]

/-- Every accepted fragment has been opened from a packet. -/
theorem mem_intakes (h : a.Ready) {calls : List (Arrival × Bool)} {y : Intake} (hy : y ∈ a.intakes calls) :
    ∃ call ∈ calls, a.authenticate call.1 = .ok y.plain ∧ y.block = call.1.block ∧
      y.fragment = call.1.fragment := by
  induction calls generalizing a with
  | nil => cases hy
  | cons call calls ih =>
      obtain ⟨x, recover⟩ := call
      rcases List.mem_append.mp hy with here | later
      · obtain ⟨plain, opened, -, rfl⟩ := intake?_eq_some.mp (Option.mem_toList.mp here)
        exact ⟨_, List.mem_cons_self .., opened, rfl, rfl⟩
      · obtain ⟨ready, code, key⟩ := h.receive x recover
        obtain ⟨call, member, opened, place⟩ := ih ready later
        rw [authenticate_congr key code (h.receive_frame x recover).1] at opened
        exact ⟨call, List.mem_cons_of_mem _ member, opened, place⟩

end Assembly

end AirLink
