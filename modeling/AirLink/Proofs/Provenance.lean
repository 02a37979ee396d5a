import AirLink.Proofs.Intake

/-! # Where delivered bytes come from

An assembly delivers of each block what its accepted fragments are worth: every payload begins in a
fragment that was accepted at its place, or in the share that was decoded for it.  How far it reaches is
what the header claims, within the buffer.  A truthful header keeps it within the block's own bytes, and
then nothing that an earlier block has left in the buffers matters.
-/

namespace AirLink

open ErasureCode Intake

theorem Emission.deliveries_of_block {es : List Emission} {b : Nat} (all : ∀ e ∈ es, e.block = b)
    (c : Nat) : (es.filterMap delivery?).filter (·.block = c) =
      if c = b then es.filterMap delivery? else [] := by
  have here : ∀ d ∈ es.filterMap delivery?, d.block = b := by
    intro d hd
    obtain ⟨e, he, delivered⟩ := List.mem_filterMap.mp hd
    exact (delivery_place delivered).1.trans (all e he)
  split_ifs with same
  · exact List.filter_eq_self.mpr fun d hd => by simp [here d hd, same]
  · exact List.filter_eq_nil_iff.mpr fun d hd => by simp [here d hd, Ne.symm same]

theorem Emission.deliveries_lost (k : Nat) (blocks : List Nat) :
    (blocks.flatMap fun b => (List.range k).map (Emission.lost b)).filterMap delivery? = [] := by
  rw [List.filterMap_flatMap]
  simp [List.filterMap_map, delivery?]

namespace Slot

variable {s : Slot} {code : ErasureCode} {size block : Nat}

theorem drain_block (index : s.index = some block) (k : Nat) (mode : Mode) :
    ∀ e ∈ (s.drain k mode).2, e.block = block := by
  intro e he
  rw [emissions_drain index] at he
  obtain ⟨i, -, rfl⟩ := List.mem_map.mp he
  exact departure_block ..

theorem Settled.block_eq (sound : Sound code) (h : s.Holding code size block) {recover : Bool}
    {emissions : List Emission} {rest : Option Slot} (settled : Settled code recover s emissions rest) :
    ∀ e ∈ emissions, e.block = block := by
  cases settled with
  | complete => exact drain_block h.index _ _
  | waiting => exact drain_block h.index _ _
  | rebuilt _ _ full rebuild =>
      obtain ⟨buffers, -, filled⟩ := h.drain.rebuild_ok sound full
      rw [rebuild, Except.ok.injEq, Prod.mk.injEq] at filled
      obtain ⟨rfl, -⟩ := filled
      intro e he
      rcases List.mem_append.mp he with he | he
      · exact drain_block h.index _ _ e he
      · exact drain_block ((refill_frame (s := (s.drain ..).1) ..).1.trans h.index) _ _ e he

end Slot

namespace Intake

variable {code : ErasureCode} {room : Nat} {taken : List Intake}

theorem mem_ofBlock {x : Intake} {b : Nat} : x ∈ ofBlock taken b ↔ x ∈ taken ∧ x.block = b := by
  simp [ofBlock]

theorem ofBlock_concat (x : Intake) (b : Nat) :
    ofBlock (taken ++ [x]) b = ofBlock taken b ++ if x.block = b then [x] else [] := by
  rw [ofBlock, List.filter_append, ofBlock]
  by_cases here : x.block = b <;> simp [here]

theorem overtaken_concat (x : Intake) (b : Nat) :
    overtaken (taken ++ [x]) b = (overtaken taken b || decide (b < x.block)) := by
  simp [overtaken]

theorem overtaken_of_mem {x : Intake} (member : x ∈ taken) {b : Nat} (newer : b < x.block) :
    overtaken taken b = true :=
  List.any_eq_true.mpr ⟨x, member, by simpa using newer⟩

theorem not_overtaken {b : Nat} (newest : ∀ x ∈ taken, x.block ≤ b) : overtaken taken b = false := by
  refine List.any_eq_false.mpr fun x hx => ?_
  simpa using newest x hx

theorem ofBlock_eq_nil {b : Nat} (absent : ∀ x ∈ taken, x.block ≠ b) : ofBlock taken b = [] :=
  List.filter_eq_nil_iff.mpr fun x hx => by simpa using absent x hx

/-- The bytes in a buffer behind those of its block. -/
def behind (code : ErasureCode) (room : Nat) (taken : List Intake) (left : Nat → Bytes) (i : Nat) : Bytes :=
  if has taken i then Bytes.zeros (room - (plainAt taken i).length)
  else (left i).drop (share code room taken i).length

theorem content_eq (left : Nat → Bytes) {i : Nat} (fits : (plainAt taken i).length ≤ room) :
    content code room taken left i = own code room taken i ++ behind code room taken left i := by
  unfold content own behind
  split_ifs
  · exact Slot.fit_of_le fits
  · rfl

theorem length_plainAt_le (fits : ∀ x ∈ taken, x.plain.length ≤ room) (i : Nat) :
    (plainAt taken i).length ≤ room := by
  unfold plainAt plain?
  cases found : taken.find? (·.fragment = i) with
  | none => exact Nat.zero_le _
  | some x => exact fits x (List.mem_of_find?_eq_some found)

/-- Behind a truthful header, nothing matters that an earlier block has left. -/
theorem deliveries_own (fits : ∀ x ∈ taken, x.plain.length ≤ room) (left : Nat → Bytes) (b : Nat)
    {overtaken : Bool} (truthful : ∀ i ∈ passed taken code.k overtaken, Truthful (own code room taken i)) :
    deliveries code room taken left b overtaken =
      (passed taken code.k overtaken).filterMap fun i =>
        (payload? (own code room taken i)).map (⟨b, i, !has taken i, ·⟩) := by
  refine List.filterMap_congr fun i hi => ?_
  rw [delivery, content_eq left (length_plainAt_le fits i), payload?_append (truthful i hi)]

end Intake

namespace Assembly

open Window (Narrowed)

variable {a : Assembly}

/-- The fragment that is taken in with a packet, if it is accepted. -/
def intake? (a : Assembly) (x : Arrival) (recover : Bool) : Option Intake :=
  match a.authenticate x, (a.receive x recover).1.outcome with
  | .ok plain, .ok .accepted => some ⟨x.block, x.fragment, plain, recover⟩
  | _, _ => none

def intakes (a : Assembly) : List (Arrival × Bool) → List Intake
  | [] => []
  | (x, recover) :: rest => (a.intake? x recover).toList ++ (a.receive x recover).2.intakes rest

/-- What holds of the intakes, of what has been put out and of the assembly, and is kept by every packet, is
kept by a run. -/
theorem run_induction {α : Type} {motive : List Intake → List α → Assembly → Prop} (out : Report → List α)
    (receive : ∀ {taken given a}, motive taken given a → ∀ x recover,
      motive (taken ++ (a.intake? x recover).toList) (given ++ out (a.receive x recover).1) (a.receive x recover).2)
    {taken : List Intake} {given : List α} (start : motive taken given a) (calls : List (Arrival × Bool)) :
    motive (taken ++ a.intakes calls) (given ++ (a.run calls).1.flatMap out) (a.run calls).2 := by
  induction calls generalizing a taken given with
  | nil => simpa [Assembly.run, intakes] using start
  | cons call calls ih =>
      obtain ⟨x, recover⟩ := call
      have rest := ih (receive start x recover)
      rwa [List.append_assoc, List.append_assoc] at rest

theorem run_keeps {motive : Assembly → Prop} (receive : ∀ {a}, motive a → ∀ x recover, motive (a.receive x recover).2)
    (start : motive a) (calls : List (Arrival × Bool)) : motive (a.run calls).2 :=
  @run_induction a Emission (fun _ _ => motive) Report.emissions receive [] [] start calls

/-- What has been delivered of a block is what its intakes are worth. -/
structure Worth (code : ErasureCode) (size : Nat) (taken : List Intake) (delivered : List Delivery)
    (b : Nat) (left : Nat → Bytes) : Prop where
  room : ∀ i < code.n, (left i).length = size
  worth : delivered.filter (·.block = b) =
    deliveries code size (ofBlock taken b) left b (overtaken taken b)

/-- The newest block may be open; if it is closed, everything of it has been passed on. -/
structure Account (a : Assembly) (taken : List Intake) (delivered : List Delivery) (b : Nat)
    (left : Nat → Bytes) : Prop extends
    Worth a.code a.window.fragmentSize taken delivered b left where
  pending : ∀ s, a.window.live = [s] → a.window.last = some b →
    s.Pending a.code a.window.fragmentSize left (ofBlock taken b)
  complete : a.window.live = [] → a.window.last = some b →
    ∀ o, passed (ofBlock taken b) a.code.k o = List.range a.code.k

/-- The state of an assembly that has taken in some fragments. -/
structure Accounts (taken : List Intake) (delivered : List Delivery) (a : Assembly) : Prop where
  ready : a.Ready
  fresh : a.window.last = none → taken = []
  newest : ∀ top, a.window.last = some top → (∃ x ∈ taken, x.block = top) ∧ ∀ x ∈ taken, x.block ≤ top
  blocks : ∀ b, ∃ left, a.Account taken delivered b left

variable {taken : List Intake} {delivered : List Delivery} {x : Intake} {r : Report}
  {next : Assembly} {rest : Option Slot}

theorem Accounts.of_same (h : Accounts taken delivered a) (code : next.code = a.code)
    (window : next.window = a.window) : Accounts taken delivered next where
  ready := h.ready.of_same code window
  fresh := window ▸ h.fresh
  newest := window ▸ h.newest
  blocks b := by
    obtain ⟨left, account⟩ := h.blocks b
    refine ⟨left, ⟨?_, ?_⟩, ?_, ?_⟩ <;> rw [window, code]
    · exact account.room
    · exact account.worth
    · exact account.pending
    · exact account.complete

/-- A block behind the newest has been overtaken. -/
theorem Accounts.behind (h : Accounts taken delivered a) {top b : Nat}
    (isLast : a.window.last = some top) (less : b < top) : overtaken taken b = true := by
  obtain ⟨⟨x, member, rfl⟩, -⟩ := h.newest top isLast
  exact overtaken_of_mem member less

theorem Accounts.older (h : Accounts taken delivered a) {b : Nat}
    (above : ∀ last, a.window.last = some last → last < b) : ∀ x ∈ taken, x.block < b := by
  intro x hx
  cases isLast : a.window.last with
  | none =>
      rw [h.fresh isLast] at hx
      cases hx
  | some last => exact ((h.newest last isLast).2 x hx).trans_lt (above last isLast)

/-- A fragment has been taken in whose block is then the newest: what remains to be told is what has been
delivered of each block. -/
theorem accounts_concat (ready : next.Ready) (code : next.code = a.code) {last : Option Nat}
    (window : Narrowed a.window last rest next.window) (isLast : last = some x.block)
    (newest : ∀ y ∈ taken, y.block ≤ x.block)
    (here : ∃ left, Worth a.code a.window.fragmentSize (taken ++ [x]) delivered x.block left ∧
      (rest = none → ∀ o, passed (ofBlock (taken ++ [x]) x.block) a.code.k o = List.range a.code.k) ∧
      ∀ u, rest = some u →
        u.Pending a.code a.window.fragmentSize left (ofBlock (taken ++ [x]) x.block))
    (others : ∀ b, b ≠ x.block →
      ∃ left, Worth a.code a.window.fragmentSize (taken ++ [x]) delivered b left) :
    Accounts (taken ++ [x]) delivered next := by
  have last := window.last.trans isLast
  rw [← code, ← window.alike.fragmentSize] at here others
  refine ⟨ready, ?_, ?_, fun b => ?_⟩
  · intro none
    cases none.symm.trans last
  · intro top isTop
    obtain rfl := Option.some.inj (isTop.symm.trans last)
    refine ⟨⟨x, by simp, rfl⟩, fun y hy => ?_⟩
    rcases List.mem_append.mp hy with hy | hy
    · exact newest y hy
    · rw [List.mem_singleton.mp hy]
  · by_cases same : b = x.block
    · subst same
      obtain ⟨left, worth, closed, opens⟩ := here
      refine ⟨left, worth, fun s one _ => opens s ?_, fun none _ => closed ?_⟩
      · cases rest with
        | none => cases window.live.symm.trans one
        | some u => exact congrArg some (List.singleton_inj.mp (window.live.symm.trans one))
      · cases rest with
        | none => rfl
        | some u => cases window.live.symm.trans none
    · obtain ⟨left, worth⟩ := others b same
      refine ⟨left, worth, fun _ _ isTop => ?_, fun _ isTop => ?_⟩
      · exact absurd (Option.some.inj (isTop.symm.trans last)) same
      · exact absurd (Option.some.inj (isTop.symm.trans last)) same

/-- A fragment of the open block is stored. -/
theorem Accounts.stored (h : Accounts taken delivered a)
    (suits : Slot.Suits a.window.fragmentSize a.code.n x.fragment x.plain) (ready : next.Ready)
    (code : next.code = a.code) {s : Slot} (live : a.window.live = [s])
    (index : s.index = some x.block) (new : s.has x.fragment = false)
    (settled : Slot.Settled a.code x.recover (s.store x.fragment x.plain) r.emissions rest)
    (window : Narrowed a.window a.window.last rest next.window) :
    Accounts (taken ++ [x]) (delivered ++ r.deliveries) next := by
  obtain ⟨isLast, holding⟩ : a.window.last = some x.block ∧
      s.Holding a.code a.window.fragmentSize x.block := by
    obtain ⟨last, isLast, holding⟩ := h.ready.holding_of_live live
    obtain rfl := Option.some.inj (index.symm.trans holding.index)
    exact ⟨isLast, holding⟩
  have stored := holding.store suits new
  have delivers := Emission.deliveries_of_block (settled.block_eq h.ready.sound stored)
  have newest := (h.newest _ isLast).2
  refine accounts_concat ready code window isLast newest ?_ fun b other => ?_
  · obtain ⟨left, account⟩ := h.blocks x.block
    have pending := account.pending s live isLast
    have unused := pending.unused
    have keeps := pending.keeps.store holding.shaped suits new
    have own : ofBlock (taken ++ [x]) x.block = ofBlock taken x.block ++ [x] := by
      rw [ofBlock_concat, if_pos rfl]
    -- What has left the block so far is not changed by the new fragment.
    have before : (List.range s.cursor).filterMap
        (Intake.delivery a.code a.window.fragmentSize (ofBlock taken x.block ++ [x]) left x.block) =
          delivered.filter (·.block = x.block) := by
      rw [account.worth, deliveries, passed, unused, not_overtaken newest, ← pending.front]
      refine List.filterMap_congr fun i hi => ?_
      exact delivery_concat x left _ (List.mem_takeWhile_imp hi)
    have result := keeps.settled h.ready.sound unused stored settled
    rw [← own] at result before
    refine ⟨left, ⟨account.room, ?_⟩, result.2⟩
    rw [List.filter_append, Report.deliveries, delivers, if_pos rfl, overtaken_concat,
      not_overtaken newest, ← before, decide_eq_false (Nat.lt_irrefl _)]
    exact result.1
  · obtain ⟨left, account⟩ := h.blocks b
    have known : overtaken (taken ++ [x]) b = overtaken taken b := by
      rw [overtaken_concat]
      rcases Nat.lt_or_gt_of_ne other with less | more
      · rw [h.behind isLast less, Bool.true_or]
      · rw [decide_eq_false (by omega), Bool.or_false]
    refine ⟨left, account.room, ?_⟩
    rw [List.filter_append, Report.deliveries, delivers, if_neg other, List.append_nil, account.worth,
      known, ofBlock_concat, if_neg (Ne.symm other), List.append_nil]

/-- What the block that was open until now, or any other, is worth once a newer one has been opened. -/
theorem Accounts.flushed (h : Accounts taken delivered a)
    (above : ∀ last, a.window.last = some last → last < x.block) {b : Nat} (other : b ≠ x.block) :
    ∃ left, Worth a.code a.window.fragmentSize (taken ++ [x]) (delivered ++
      (a.window.live.flatMap fun s => (s.drain a.code.k .stale).2).filterMap Emission.delivery?) b left := by
  obtain ⟨left, account⟩ := h.blocks b
  have own : ofBlock (taken ++ [x]) b = ofBlock taken b := by
    rw [ofBlock_concat, if_neg (Ne.symm other), List.append_nil]
  refine ⟨left, account.room, ?_⟩
  rw [List.filter_append, own, overtaken_concat, account.worth]
  rcases h.ready.newest with none | ⟨s, top, live, isLast, holding⟩
  · rw [none, List.flatMap_nil, List.filterMap_nil, List.filter_nil, List.append_nil]
    cases isLast : a.window.last with
    | none =>
        rw [h.fresh isLast]
        exact (deliveries_nil ..).trans (deliveries_nil ..).symm
    | some top =>
        rcases Nat.lt_trichotomy b top with less | rfl | more
        · rw [h.behind isLast less, Bool.true_or]
        · have complete := account.complete none isLast
          rw [deliveries, deliveries, complete, complete]
        · have absent : ofBlock taken b = [] := ofBlock_eq_nil fun y hy => by
            have := (h.newest top isLast).2 y hy
            omega
          rw [absent, deliveries_nil, deliveries_nil]
  · have flush := Emission.deliveries_of_block (s.drain_block holding.index a.code.k .stale) b
    rw [live, List.flatMap_singleton, flush]
    rcases Nat.lt_trichotomy b top with less | rfl | more
    · rw [h.behind isLast less, Bool.true_or, if_neg less.ne, List.append_nil]
    · have pending := account.pending s live isLast
      have stale := pending.keeps.deliveries_stale holding h.ready.sound
      rw [not_overtaken (h.newest b isLast).2, if_pos rfl, decide_eq_true (above b isLast), Bool.or_true,
        deliveries, deliveries, passed, passed, pending.unused]
      rw [← pending.front] at stale
      exact stale
    · have absent : ofBlock taken b = [] := ofBlock_eq_nil fun y hy => by
        have := (h.newest top isLast).2 y hy
        omega
      rw [if_neg more.ne', absent, deliveries_nil, deliveries_nil, List.append_nil]

/-- A fragment opens a new block. -/
theorem Accounts.opened (h : Accounts taken delivered a)
    (suits : Slot.Suits a.window.fragmentSize a.code.n x.fragment x.plain) (ready : next.Ready)
    (code : next.code = a.code) (above : ∀ last, a.window.last = some last → last < x.block)
    {fresh : Slot} (isFresh : fresh.Fresh a.window.fragmentSize a.code.n x.block) {below : List Nat}
    {emissions : List Emission}
    (settled : Slot.Settled a.code x.recover (fresh.store x.fragment x.plain) emissions rest)
    (split : r.emissions = a.window.live.flatMap (fun s => (s.drain a.code.k .stale).2) ++
      below.flatMap (fun i => (List.range a.code.k).map (Emission.lost i)) ++ emissions)
    (window : Narrowed a.window (some x.block) rest next.window) :
    Accounts (taken ++ [x]) (delivered ++ r.deliveries) next := by
  have new := isFresh.not_has x.fragment
  have stored := isFresh.holding.store suits new
  have delivers := Emission.deliveries_of_block (settled.block_eq h.ready.sound stored)
  have older := h.older above
  have newest : ∀ y ∈ taken, y.block ≤ x.block := fun y hy => (older y hy).le
  have grows : delivered ++ r.deliveries = delivered ++
      (a.window.live.flatMap fun s => (s.drain a.code.k .stale).2).filterMap Emission.delivery? ++
        emissions.filterMap Emission.delivery? := by
    rw [Report.deliveries, split, List.filterMap_append, List.filterMap_append,
      Emission.deliveries_lost, List.append_nil, List.append_assoc]
  rw [grows]
  refine accounts_concat ready code window rfl newest ?_ fun b other => ?_
  · have absent : ofBlock taken x.block = [] := ofBlock_eq_nil fun y hy => (older y hy).ne
    have own : ofBlock (taken ++ [x]) x.block = [] ++ [x] := by rw [ofBlock_concat, if_pos rfl, absent]
    have keeps := isFresh.keeps.store isFresh.shaped suits new
    have result := keeps.settled h.ready.sound rfl stored settled
    rw [← own] at result
    refine ⟨fresh.bufferOf, ⟨fun i hi => isFresh.shaped.length_bufferOf hi, ?_⟩, result.2⟩
    -- Nothing of the block has been delivered before.
    have none : (delivered ++ (a.window.live.flatMap fun s =>
        (s.drain a.code.k .stale).2).filterMap Emission.delivery?).filter (·.block = x.block) = [] := by
      obtain ⟨left, account⟩ := h.blocks x.block
      rw [List.filter_append, account.worth, absent, deliveries_nil, List.nil_append]
      rcases h.ready.newest with none | ⟨s, top, live, isLast, holding⟩
      · rw [none]
        rfl
      · rw [live, List.flatMap_singleton, Emission.deliveries_of_block (s.drain_block holding.index _ _),
          if_neg (above top isLast).ne']
    rw [List.filter_append, none, delivers, if_pos rfl, overtaken_concat, not_overtaken newest,
      decide_eq_false (Nat.lt_irrefl _)]
    refine Eq.trans ?_ result.1
    simp [Slot.store, isFresh.cursor]
  · obtain ⟨left, worth⟩ := h.flushed above other
    refine ⟨left, worth.room, ?_⟩
    rw [List.filter_append, delivers, if_neg other, List.append_nil]
    exact worth.worth

/-- One more packet delivers what its fragment adds to the worth of the intakes. -/
theorem Accounts.receive (h : Accounts taken delivered a) (x : Arrival) (recover : Bool) :
    Accounts (taken ++ (a.intake? x recover).toList) (delivered ++ (a.receive x recover).1.deliveries)
      (a.receive x recover).2 := by
  obtain ⟨ready, code, -⟩ := h.ready.receive x recover
  unfold intake?
  cases opened : a.authenticate x with
  | error fault =>
      have step : a.receive x recover = ({ outcome := .error fault }, a) := by
        rw [Assembly.receive, opened]
      rw [step]
      simpa [Report.deliveries] using h
  | ok plain =>
      obtain ⟨-, suits⟩ := authenticate_ok opened
      have step : a.receive x recover = a.accept x.block x.fragment plain recover := by
        rw [Assembly.receive, opened]
      rw [step] at ready code ⊢
      cases h.ready.accept suits recover with
      | late _ _ _ _ outcome emissions window =>
          rw [outcome, Report.deliveries, emissions]
          simpa using h.of_same code window
      | duplicate _ _ _ _ outcome emissions window =>
          rw [outcome, Report.deliveries, emissions]
          simpa using h.of_same code window
      | stored s rest live index new settled outcome window =>
          rw [outcome]
          exact h.stored (x := ⟨x.block, x.fragment, plain, recover⟩) suits ready code live index new
            settled window
      | opened fresh below emissions rest above isFresh _ _ settled outcome split window =>
          rw [outcome]
          exact h.opened (x := ⟨x.block, x.fragment, plain, recover⟩) suits ready code above isFresh
            settled split window

theorem Accounts.run (h : Accounts taken delivered a) (calls : List (Arrival × Bool)) :
    Accounts (taken ++ a.intakes calls) (delivered ++ (a.run calls).1.flatMap Report.deliveries)
      (a.run calls).2 :=
  run_induction Report.deliveries Accounts.receive h calls

theorem Ready.receive_frame (h : a.Ready) (x : Arrival) (recover : Bool) :
    (a.receive x recover).2.window.fragmentSize = a.window.fragmentSize ∧
      ∀ y ∈ a.intake? x recover, y.plain.length ≤ a.window.fragmentSize := by
  refine ⟨(h.receive_alike x recover).fragmentSize, fun y hy => ?_⟩
  unfold intake? at hy
  cases opened : a.authenticate x with
  | error fault => simp [opened] at hy
  | ok plain =>
      obtain ⟨-, suits⟩ := authenticate_ok opened
      simp only [opened] at hy
      split at hy
      next same _ =>
        obtain rfl := Except.ok.inj same
        obtain rfl := Option.some.inj hy
        exact suits.fits
      next => cases hy

theorem Ready.run_frame (h : a.Ready) (calls : List (Arrival × Bool)) :
    (a.run calls).2.code = a.code ∧
      (a.run calls).2.window.fragmentSize = a.window.fragmentSize ∧
      ∀ x ∈ a.intakes calls, x.plain.length ≤ a.window.fragmentSize := by
  refine (@run_induction a Emission (fun taken _ b => b.Ready ∧ b.code = a.code ∧
    b.window.fragmentSize = a.window.fragmentSize ∧ ∀ x ∈ taken, x.plain.length ≤ a.window.fragmentSize)
    Report.emissions ?_ [] [] ⟨h, rfl, rfl, List.forall_mem_nil _⟩ calls).2
  rintro taken _ b ⟨ready, code, size, fits⟩ x recover
  obtain ⟨next, code', -⟩ := ready.receive x recover
  obtain ⟨size', here⟩ := ready.receive_frame x recover
  refine ⟨next, code'.trans code, size'.trans size, fun y hy => ?_⟩
  cases List.mem_append.mp hy with
  | inl hy => exact fits y hy
  | inr hy => exact size ▸ here y (Option.mem_toList.mp hy)

theorem accounts_create {key : Key} {k n slots size : Nat}
    (created : create key k n slots size = .ok a) : Accounts [] [] a := by
  obtain ⟨ready, live, none, -⟩ := create_ready created
  refine ⟨ready, fun _ => rfl, ?_, fun b => ⟨fun _ => Bytes.zeros a.window.fragmentSize, ⟨?_, ?_⟩, ?_, ?_⟩⟩
  · intro top isLast
    cases none.symm.trans isLast
  · intro i _
    exact List.length_replicate ..
  · exact (deliveries_nil ..).symm
  · intro s one
    cases live.symm.trans one
  · intro _ isLast
    cases none.symm.trans isLast

section member

variable {code : ErasureCode} {size : Nat} {taken : List Intake} {delivered : List Delivery}
  {left : Nat → Bytes} {d : Delivery} (h : Worth code size taken delivered d.block left)
  (hd : d ∈ delivered)

include h hd

/-- What is delivered is what is at a place that is passed on. -/
theorem Worth.mem : d.fragment ∈ passed (ofBlock taken d.block) code.k (overtaken taken d.block) ∧
    Intake.delivery code size (ofBlock taken d.block) left d.block d.fragment = some d := by
  have member : d ∈ deliveries code size (ofBlock taken d.block) left d.block
      (overtaken taken d.block) := by
    rw [← h.worth]
    exact List.mem_filter.mpr ⟨hd, by simp⟩
  obtain ⟨i, place, delivery⟩ := List.mem_filterMap.mp member
  obtain ⟨payload, -, same⟩ := Option.map_eq_some_iff.mp delivery
  obtain rfl : d.fragment = i := (congrArg Delivery.fragment same).symm
  exact ⟨place, delivery⟩

/-- A delivery is read from the buffer at its place. -/
theorem Worth.reads (fits : ∀ x ∈ taken, x.plain.length ≤ size) :
    ofBlock taken d.block ≠ [] ∧ d.recovered = !has (ofBlock taken d.block) d.fragment ∧
      payload? (own code size (ofBlock taken d.block) d.fragment ++
        Intake.behind code size (ofBlock taken d.block) left d.fragment) = some d.payload := by
  obtain ⟨place, delivery⟩ := h.mem hd
  obtain ⟨payload, reads, same⟩ := Option.map_eq_some_iff.mp delivery
  have short : ∀ x ∈ ofBlock taken d.block, x.plain.length ≤ size := fun x hx =>
    fits x (mem_ofBlock.mp hx).1
  rw [content_eq left (length_plainAt_le short d.fragment)] at reads
  have carried : d.payload = payload := (congrArg Delivery.payload same).symm
  rw [carried]
  refine ⟨fun none => ?_, (congrArg Delivery.recovered same).symm, reads⟩
  rw [none, passed_nil] at place
  cases place

end member

/-- A delivery begins in the bytes that some accepted fragments of its block have at its place. -/
def Sourced (size : Nat) (taken : List Intake) (d : Delivery) : Prop :=
  ∃ (code : ErasureCode) (given : List Intake), given ≠ [] ∧
    (∀ y ∈ given, y ∈ taken ∧ y.block = d.block) ∧ d.recovered = !has given d.fragment ∧
    ∃ rest, payload? (own code size given d.fragment ++ rest) = some d.payload

theorem Sourced.mono {size : Nat} {d : Delivery} (h : Sourced size taken d) {more : List Intake}
    (sub : ∀ y ∈ taken, y ∈ more) : Sourced size more d := by
  obtain ⟨code, given, some, members, how, reads⟩ := h
  exact ⟨code, given, some, fun y hy => ⟨sub y (members y hy).1, (members y hy).2⟩, how, reads⟩

theorem Accounts.sourced (h : Accounts taken delivered a)
    (fits : ∀ x ∈ taken, x.plain.length ≤ a.window.fragmentSize) {d : Delivery} (hd : d ∈ delivered) :
    Sourced a.window.fragmentSize taken d := by
  obtain ⟨left, account⟩ := h.blocks d.block
  obtain ⟨some, how, reads⟩ := account.toWorth.reads hd fits
  exact ⟨a.code, ofBlock taken d.block, some, fun y hy => mem_ofBlock.mp hy, how, _, reads⟩

/-- What a new assembly delivers of a block is what its intakes are worth. -/
theorem run_worth {key : Key} {k n slots size : Nat} (created : create key k n slots size = .ok a)
    (calls : List (Arrival × Bool)) (b : Nat) : ∃ left,
    Worth a.code size (a.intakes calls) ((a.run calls).1.flatMap Report.deliveries) b left := by
  obtain ⟨ready, -, -, rfl, -⟩ := create_ready created
  obtain ⟨left, account⟩ := ((accounts_create created).run calls).blocks b
  obtain ⟨code, same, -⟩ := ready.run_frame calls
  have worth := account.toWorth
  rw [code, same] at worth
  exact ⟨left, worth⟩

/-- The fragments of a block that a run has accepted. -/
def given (a : Assembly) (calls : List (Arrival × Bool)) (b : Nat) : List Intake :=
  ofBlock (a.intakes calls) b

/-- Every payload begins in the bytes of its own block: in the fragment that was accepted at its place,
with zeros behind it, or in the share that was decoded for it, with anything behind it.  It ends there
as well if the header is truthful.  If all headers of a block are, its deliveries depend on its own
fragments alone, whatever else two assemblies have been given. -/
theorem delivers_own_bytes {key : Key} {k n slots size : Nat} {a : Assembly}
    (created : create key k n slots size = .ok a) (calls : List (Arrival × Bool)) :
    (∀ d ∈ (a.run calls).1.flatMap Report.deliveries,
      d.recovered = !has (a.given calls d.block) d.fragment ∧
      (∃ rest, payload? (own a.code size (a.given calls d.block) d.fragment ++ rest) = some d.payload ∧
        (d.recovered = false → ∃ m, rest = Bytes.zeros m)) ∧
      (Truthful (own a.code size (a.given calls d.block) d.fragment) →
        payload? (own a.code size (a.given calls d.block) d.fragment) = some d.payload)) ∧
    ∀ (key' : Key) (slots' : Nat) (other : Assembly), create key' k n slots' size = .ok other →
      ∀ (calls' : List (Arrival × Bool)) (b : Nat), other.given calls' b = a.given calls b →
        overtaken (other.intakes calls') b = overtaken (a.intakes calls) b →
        (∀ i ∈ passed (a.given calls b) k (overtaken (a.intakes calls) b),
          Truthful (own a.code size (a.given calls b) i)) →
        ((other.run calls').1.flatMap Report.deliveries).filter (·.block = b) =
          ((a.run calls).1.flatMap Report.deliveries).filter (·.block = b) := by
  obtain ⟨ready, -, -, isSize, -, isK, -⟩ := create_ready created
  have fits : ∀ x ∈ a.intakes calls, x.plain.length ≤ size := isSize ▸ (ready.run_frame calls).2.2
  refine ⟨?_, ?_⟩
  · intro d hd
    obtain ⟨left, worth⟩ := run_worth created calls d.block
    obtain ⟨-, how, reads⟩ := worth.reads hd fits
    unfold Assembly.given
    refine ⟨how, ⟨_, reads, fun direct => ?_⟩, fun truthful => ?_⟩
    · have present : has (ofBlock (a.intakes calls) d.block) d.fragment = true := by
        simpa [direct] using how
      exact ⟨_, if_pos present⟩
    · rwa [payload?_append truthful] at reads
  · intro key' slots' other created' calls' b same behind truthful
    have code : other.code = a.code := by
      have again := create_code created'
      rw [create_code created, Except.ok.injEq] at again
      exact again.symm
    obtain ⟨left, worth⟩ := run_worth created calls b
    obtain ⟨left', worth'⟩ := run_worth created' calls' b
    rw [← isK] at truthful
    have short : ∀ x ∈ a.given calls b, x.plain.length ≤ size := fun x hx =>
      fits x (mem_ofBlock.mp hx).1
    have own := deliveries_own short left b truthful
    have own' := deliveries_own short left' b truthful
    rw [worth.worth, worth'.worth, code, behind]
    change deliveries a.code size (other.given calls' b) left' b _ = deliveries a.code size (a.given calls b) _ _ _
    rw [same, own, own']

/-- The fragments that are accepted. -/
def accepts (a : Assembly) (fragments : List Intake) : List Intake :=
  ((fragments.zip (a.takeIn fragments).1).filter (·.2.outcome matches .ok .accepted)).map Prod.fst

theorem Ready.intakes_sealed (h : a.Ready) {fragments : List Intake}
    (fits : ∀ x ∈ fragments, x.Fits a.code.n a.window.fragmentSize) :
    a.intakes (sealedCalls a.key fragments) = a.accepts fragments := by
  induction fragments generalizing a with
  | nil => rfl
  | cons x fragments ih =>
      obtain ⟨here, others⟩ := List.forall_mem_cons.mp fits
      obtain ⟨ready, key, code, size⟩ := h.accept_sealed here
      rw [← code, ← size] at others
      have rest := ih ready others
      rw [key] at rest
      unfold sealedCalls at rest ⊢
      simp only [List.map_cons, Assembly.intakes, intake?, authenticate_fits here, receive_sealed here, rest,
        takeIn, accepts, List.zip_cons_cons, List.filter_cons]
      have same : (⟨(Packet.sealed a.key x.block x.fragment x.plain).block,
          (Packet.sealed a.key x.block x.fragment x.plain).fragment, x.plain, x.recover⟩ : Intake) = x := rfl
      cases outcome : (a.accept x.block x.fragment x.plain x.recover).1.outcome with
      | error fault => simp
      | ok result => cases result <;> simp [same]

theorem run_sealed {key : Key} {k n slots size : Nat} (created : create key k n slots size = .ok a)
    {fragments : List Intake} (fits : ∀ x ∈ fragments, x.Fits n size) :
    a.run (sealedCalls key fragments) = a.takeIn fragments ∧
      a.intakes (sealedCalls key fragments) = a.accepts fragments := by
  refine ⟨run_takeIn created fits, ?_⟩
  obtain ⟨ready, -, -, isSize, isKey, -, isN⟩ := create_ready created
  rw [← isN, ← isSize] at fits
  rw [← isKey]
  exact ready.intakes_sealed fits

/-- A fragment of block 0 with a payload of five bytes. -/
def earlier : Intake := ⟨0, 0, [0, 0, 5, 1, 2, 3, 4, 5], true⟩

/-- A parity fragment of block 1 that stands for a payload of two bytes. -/
def honest : Intake := ⟨1, 1, [0, 0, 2, 8, 9], true⟩

/-- Slot and buffers are those of block 0, and block 1 delivers what it does without it. -/
theorem delivers_own_bytes_reused :
    let key : Key := ⟨Bytes.zeros 32, rfl⟩
    ∃ a, create key 1 2 1 16 = .ok a ∧
      a.given (sealedCalls key [honest]) 1 = [honest] ∧ Truthful (own a.code 16 [honest] 0) ∧
      ((a.run (sealedCalls key [earlier, honest])).1.flatMap Report.deliveries).filter (·.block = 1) =
        ((a.run (sealedCalls key [honest])).1.flatMap Report.deliveries).filter (·.block = 1) := by
  intro key
  have holds : ∀ a ∈ (create key 1 2 1 16).toOption, a.accepts [earlier, honest] = [earlier, honest] ∧
      a.accepts [honest] = [honest] ∧
      passed [honest] 1 false = [0] ∧ Truthful (own a.code 16 [honest] 0) := by decide +kernel
  obtain ⟨a, created, same, given, behind, own⟩ := create_holds (by decide) holds
  have alone := (run_sealed created (show ∀ x ∈ [honest], x.Fits 2 16 by decide)).2
  have after := (run_sealed created (show ∀ x ∈ [earlier, honest], x.Fits 2 16 by decide)).2
  rw [given] at alone
  rw [same] at after
  have one : a.given (sealedCalls key [honest]) 1 = [honest] := by rw [Assembly.given, alone]; decide
  refine ⟨a, created, one, own, ?_⟩
  refine (delivers_own_bytes created (sealedCalls key [honest])).2 key 1 a created _ 1 ?_ ?_ ?_
  · rw [one, Assembly.given, after]
    decide
  · rw [after, alone]
    decide
  · rw [one, alone]
    intro i hi
    have first : i ∈ [0] := behind ▸ hi
    rw [List.mem_singleton.mp first]
    exact own

/-- Fragments of block 1 that claim five bytes and have none: the block's own and its parity. -/
def hollow : Intake := ⟨1, 0, [0, 0, 5], true⟩

def hollowParity : Intake := ⟨1, 1, [0, 0, 5], true⟩

/-- Five zeros are delivered of a fragment that has no payload.  When it is decoded, it delivers the bytes
that block 0 has left in the buffer, and without block 0 something else. -/
theorem leftovers_delivered :
    let key : Key := ⟨Bytes.zeros 32, rfl⟩
    ∃ a, create key 1 2 1 16 = .ok a ∧
      a.intakes (sealedCalls key [hollow]) = [hollow] ∧ payload? hollow.plain = none ∧
      (a.run (sealedCalls key [hollow])).1.flatMap Report.deliveries =
        [⟨1, 0, false, [0, 0, 0, 0, 0]⟩] ∧
      a.given (sealedCalls key [earlier, hollowParity]) 1 = a.given (sealedCalls key [hollowParity]) 1 ∧
      ((a.run (sealedCalls key [earlier, hollowParity])).1.flatMap Report.deliveries).filter
        (·.block = 1) = [⟨1, 0, true, [1, 2, 3, 4, 5]⟩] ∧
      ((a.run (sealedCalls key [hollowParity])).1.flatMap Report.deliveries).filter (·.block = 1) =
        [⟨1, 0, true, [0, 0, 0, 0, 0]⟩] := by
  intro key
  have holds : ∀ a ∈ (create key 1 2 1 16).toOption,
      a.accepts [hollow] = [hollow] ∧ payload? hollow.plain = none ∧
      (a.takeIn [hollow]).1.flatMap Report.deliveries = [⟨1, 0, false, [0, 0, 0, 0, 0]⟩] ∧
      ofBlock (a.accepts [earlier, hollowParity]) 1 = ofBlock (a.accepts [hollowParity]) 1 ∧
      ((a.takeIn [earlier, hollowParity]).1.flatMap Report.deliveries).filter (·.block = 1) =
        [⟨1, 0, true, [1, 2, 3, 4, 5]⟩] ∧
      ((a.takeIn [hollowParity]).1.flatMap Report.deliveries).filter (·.block = 1) =
        [⟨1, 0, true, [0, 0, 0, 0, 0]⟩] := by decide +kernel
  obtain ⟨a, created, evaluated⟩ := create_holds (by decide) holds
  obtain ⟨direct, direct'⟩ := run_sealed created (show ∀ x ∈ [hollow], x.Fits 2 16 by decide)
  obtain ⟨after, after'⟩ := run_sealed created (show ∀ x ∈ [earlier, hollowParity], x.Fits 2 16 by decide)
  obtain ⟨alone, alone'⟩ := run_sealed created (show ∀ x ∈ [hollowParity], x.Fits 2 16 by decide)
  refine ⟨a, created, ?_⟩
  unfold Assembly.given
  rw [direct, direct', after, after', alone, alone']
  exact evaluated

end Assembly

end AirLink
