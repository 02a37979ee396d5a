import AirLink.Proofs.Contents
import AirLink.Proofs.History
import AirLink.Proofs.Ordering

/-! # Exact delivery

Blocks are sent, and their packets arrive in any order, some never and some more than once.  The
state of the assembly follows the history of arrivals: the newest block is open as long as fewer than
`k` of its fragments have arrived, and then holds exactly these.  So every arrival adds to the
deliveries what the history then has more, and at the end they are what the history is worth.
-/

namespace AirLink

open ErasureCode History

variable {t : Transmitter} {payloads : Nat → List Bytes} {blocks : List Nat} {h : History}
  {b i : Nat}

namespace Slot

variable {s : Slot} {size : Nat}

/-- The open block holds what has arrived of it in time. -/
structure Follows (t : Transmitter) (payloads : List Bytes) (h : History) (b : Nat) (s : Slot)
    (size : Nat) : Prop where
  holding : s.Holding t.code size b
  carries : s.Carries t.code size (t.dataShares payloads)
  has : s.has = arrived h b

theorem Follows.used_eq {payloads : List Bytes} (f : s.Follows t payloads h b size) :
    s.used = count t.code.n h b := by
  rw [f.holding.used, f.has, count]

theorem Follows.store {payloads : List Bytes} (f : s.Follows t payloads h b size)
    (notBehind : overtaken h b = false)
    (suits : Suits size t.code.n i (plainShare t.code (t.dataShares payloads) i))
    (new : s.has i = false) :
    (s.store i (plainShare t.code (t.dataShares payloads) i)).Follows t payloads (h ++ [(b, i)]) b
      size := by
  have inside : i < s.cells.length := f.holding.shaped.length.symm ▸ suits.lt
  refine ⟨f.holding.store suits new, ?_, ?_⟩
  · intro j hj present
    by_cases same : j = i
    · subst same
      exact ⟨(lengthOf_store inside _ j).trans (if_pos rfl), f.holding.shaped.bufferOf_store suits.lt _⟩
    · rw [has_store inside suits.filled] at present
      have old := f.carries j hj (by simpa [same] using present)
      rw [lengthOf_store inside, if_neg same, bufferOf_store_ne same]
      exact old
  · funext j
    rw [has_store inside suits.filled, arrived_concat, f.has, notBehind, Bool.or_comm]
    by_cases same : j = i
    · simp [same]
    · simp [same, Ne.symm same]

/-- An open block delivers what its history is worth, and closes as soon as that is everything. -/
theorem Follows.settled {payloads : Nat → List Bytes} {s : Slot}
    (f : s.Follows t (payloads b) h b size) (sound : Sound t.code)
    (small : ∀ p ∈ payloads b, p.length ≤ Limits.payload) (fits : Limits.fragment ≤ size)
    (notBehind : overtaken h b = false) (few : s.used ≤ t.code.k) {emissions : List Emission}
    {rest : Option Slot} (settled : Settled t.code true s emissions rest) :
    (List.range s.cursor).filterMap (payloadAt b (payloads b)) ++ Emission.carried emissions =
        delivered t.code.k t.code.n payloads h b ∧
      (rest = none → t.code.k ≤ count t.code.n h b) ∧
      ∀ u, rest = some u → u.Follows t (payloads b) h b size ∧ u.used < t.code.k ∧
        (List.range u.cursor).filterMap (payloadAt b (payloads b)) =
          delivered t.code.k t.code.n payloads h b := by
  have cut := f.holding.carried_cutThrough f.carries small fits sound.le
  have worth {places : List Nat} (eq : places = passed t.code.k t.code.n h b) :
      places.filterMap (payloadAt b (payloads b)) = delivered t.code.k t.code.n payloads h b := by
    rw [eq]
    rfl
  have stop := f.holding.prefix_drain
  cases settled with
  | complete all =>
      rw [all] at stop
      have present : ∀ i < t.code.k, s.has i = true := by
        intro i hi
        have member := List.mem_range.mpr hi
        rw [← stop] at member
        exact List.mem_takeWhile_imp member
      have enough : t.code.k ≤ count t.code.n h b := by
        have sub := (List.range_sublist.mpr sound.le).filter s.has
        rw [List.filter_eq_self.mpr fun i hi => present i (List.mem_range.mp hi)] at sub
        have le := sub.length_le
        rwa [List.length_range, f.has] at le
      refine ⟨?_, fun _ => enough, by simp⟩
      rw [cut, stop]
      exact worth (by rw [passed, if_pos enough])
  | waiting gap few' =>
      have less : s.used < t.code.k := lt_of_le_of_ne few fun full => few' ⟨rfl, full⟩
      have here : (List.range t.code.k).takeWhile s.has = passed t.code.k t.code.n h b := by
        rw [passed, if_neg (by rw [← f.used_eq]; omega), notBehind, f.has]
        rfl
      refine ⟨cut.trans (worth here), by simp, ?_⟩
      intro u kept
      obtain rfl := Option.some.inj kept
      exact ⟨⟨f.holding.drain, f.carries, f.has⟩, less, by rw [← stop]; exact worth here⟩
  | rebuilt gap _ full rebuild =>
      have enough : t.code.k ≤ count t.code.n h b := by
        rw [← f.used_eq]
        exact full.ge
      have rest := f.holding.drain.carried_rebuilt f.carries small fits sound.le sound full rebuild
      refine ⟨?_, fun _ => enough, by simp⟩
      rw [Emission.carried_append, ← List.append_assoc, cut, stop, rest]
      exact worth (by rw [passed, if_pos enough])

end Slot

namespace Assembly

/-- What the transmitter sends: blocks within its limits. -/
structure Legal (t : Transmitter) (payloads : Nat → List Bytes) (blocks : List Nat) : Prop where
  sound : Sound t.code
  block : ∀ b ∈ blocks, b ≤ Limits.blockIndex
  few : ∀ b ∈ blocks, (payloads b).length ≤ t.code.k
  small : ∀ b ∈ blocks, ∀ p ∈ payloads b, p.length ≤ Limits.payload

/-- The history is one of fragments of the blocks that are sent. -/
def Drawn (t : Transmitter) (blocks : List Nat) (h : History) : Prop :=
  ∀ f ∈ h, f.1 ∈ blocks ∧ f.2 < t.code.n

/-- The state of the assembly after a history of arrivals. -/
structure Tracks (t : Transmitter) (payloads : Nat → List Bytes) (h : History) (a : Assembly) :
    Prop where
  ready : a.Ready
  code : a.code = t.code
  key : a.key = t.key
  size : a.window.fragmentSize = Limits.fragment
  fresh : a.window.last = none → h = []
  newest : ∀ top, a.window.last = some top → (∃ f ∈ h, f.1 = top) ∧ ∀ f ∈ h, f.1 ≤ top
  opened : ∀ s top, a.window.live = [s] → a.window.last = some top →
    s.Follows t (payloads top) h top Limits.fragment ∧ s.used < t.code.k ∧
      (List.range s.cursor).filterMap (Slot.payloadAt top (payloads top)) =
        delivered t.code.k t.code.n payloads h top
  closed : ∀ top, a.window.live = [] → a.window.last = some top →
    t.code.k ≤ count t.code.n h top

variable {a : Assembly}

def packetOf (t : Transmitter) (payloads : Nat → List Bytes) (b i : Nat) : Arrival :=
  Packet.sealed t.key b i (plainShare t.code (t.dataShares (payloads b)) i)

theorem Tracks.not_behind (tracks : Tracks t payloads h a) {top : Nat}
    (isLast : a.window.last = some top) : overtaken h top = false :=
  not_overtaken (tracks.newest top isLast).2

theorem Tracks.behind (tracks : Tracks t payloads h a) {top : Nat}
    (isLast : a.window.last = some top) (less : b < top) : overtaken h b = true := by
  obtain ⟨⟨f, hf, rfl⟩, -⟩ := tracks.newest top isLast
  exact overtaken_iff.mpr ⟨f, hf, less⟩

/-- An arrival that the window does not need changes nothing. -/
theorem Tracks.idle (tracks : Tracks t payloads h a) {top : Nat} (isLast : a.window.last = some top)
    (le : b ≤ top)
    (idle : overtaken h b = true ∨ arrived h b i = true ∨ t.code.k ≤ count t.code.n h b) (x : Nat) :
    delivered t.code.k t.code.n payloads (h ++ [(b, i)]) x =
      delivered t.code.k t.code.n payloads h x := by
  by_cases same : x = b
  · subst same
    exact delivered_concat_self idle payloads
  · refine delivered_concat_of_ne (Ne.symm same) ?_ payloads
    rcases Nat.lt_or_gt_of_ne same with less | more
    · exact .inl (tracks.behind isLast (by omega))
    · exact .inr more

/-- What one more arrival adds to the deliveries is what the history then has more. -/
structure Advances (t : Transmitter) (payloads : Nat → List Bytes) (h : History) (f : Nat × Nat)
    (r : Report) (next : Assembly) : Prop where
  outcome : ∃ outcome, r.outcome = .ok outcome
  tracks : Tracks t payloads (h ++ [f]) next
  grows : ∀ order : List Nat, order.Pairwise (· < ·) → (∀ g ∈ h ++ [f], g.1 ∈ order) →
    order.flatMap (delivered t.code.k t.code.n payloads (h ++ [f])) =
      order.flatMap (delivered t.code.k t.code.n payloads h) ++ Emission.carried r.emissions

theorem Tracks.advances_idle (tracks : Tracks t payloads h a) {top : Nat}
    (isLast : a.window.last = some top) (le : b ≤ top)
    (idle : overtaken h b = true ∨ arrived h b i = true ∨
      b = top ∧ a.window.live = [] ∧ t.code.k ≤ count t.code.n h b)
    {r : Report} {next : Assembly} (outcome : ∃ outcome, r.outcome = .ok outcome)
    (emissions : r.emissions = []) (ready : next.Ready) (code : next.code = a.code)
    (key : next.key = a.key) (window : next.window = a.window) :
    Advances t payloads h (b, i) r next := by
  have same := tracks.idle (i := i) isLast le (idle.imp_right (Or.imp_right fun idle => idle.2.2))
  refine ⟨outcome, ⟨ready, code.trans tracks.code, key.trans tracks.key, ?_, ?_, ?_, ?_, ?_⟩, ?_⟩
  · rw [window, tracks.size]
  · intro none
    rw [window, isLast] at none
    cases none
  · intro last here
    rw [window, isLast, Option.some.injEq] at here
    subst here
    obtain ⟨⟨f, hf, newest⟩, all⟩ := tracks.newest top isLast
    exact ⟨⟨f, List.mem_append_left _ hf, newest⟩, le_concat all le⟩
  · intro s last live here
    rw [window] at live here
    obtain ⟨follows, less, worth⟩ := tracks.opened s last live here
    -- No block is open if the arrival only came after its own block had enough.
    have quiet : overtaken h b = true ∨ arrived h b i = true := by
      refine idle.imp_right fun idle => idle.resolve_right ?_
      rintro ⟨-, none, -⟩
      rw [none] at live
      cases live
    rw [same]
    exact ⟨⟨follows.holding, follows.carries,
      follows.has.trans (arrived_concat_idle quiet last).symm⟩, less, worth⟩
  · intro last live here
    rw [window] at live here
    exact (tracks.closed last live here).trans (count_mono ..)
  · intro order _ _
    rw [emissions, List.flatMap_congr fun x _ => same x]
    exact (List.append_nil _).symm

/-- The state after a fragment has been stored in the newest block. -/
theorem tracks_of_settled (legal : Legal t payloads blocks) (hb : b ∈ blocks) {next : Assembly}
    (ready : next.Ready) (code : next.code = t.code) (key : next.key = t.key)
    (size : next.window.fragmentSize = Limits.fragment) (last : next.window.last = some b)
    {rest : Option Slot} (live : next.window.live = rest.toList) (here : ∃ f ∈ h, f.1 = b)
    (newest : ∀ f ∈ h, f.1 ≤ b) {s : Slot} (follows : s.Follows t (payloads b) h b Limits.fragment)
    (few : s.used ≤ t.code.k) {emissions : List Emission}
    (settled : Slot.Settled t.code true s emissions rest) :
    Tracks t payloads h next ∧
      (List.range s.cursor).filterMap (Slot.payloadAt b (payloads b)) ++ Emission.carried emissions =
        delivered t.code.k t.code.n payloads h b := by
  have notBehind := not_overtaken newest
  obtain ⟨worth, closed, kept⟩ := follows.settled legal.sound (legal.small b hb) (le_refl _) notBehind
    few settled
  refine ⟨⟨ready, code, key, size, ?_, ?_, ?_, ?_⟩, worth⟩
  · intro none
    rw [last] at none
    cases none
  · intro top isLast
    obtain rfl := Option.some.inj (last.symm.trans isLast)
    exact ⟨here, newest⟩
  · intro u top isOpen isLast
    obtain rfl := Option.some.inj (last.symm.trans isLast)
    refine kept u ?_
    cases rest with
    | none => rw [live] at isOpen; cases isOpen
    | some v =>
        rw [live] at isOpen
        exact congrArg some (List.singleton_inj.mp isOpen)
  · intro top isClosed isLast
    obtain rfl := Option.some.inj (last.symm.trans isLast)
    refine closed ?_
    cases rest with
    | none => rfl
    | some v => rw [live] at isClosed; cases isClosed

theorem Tracks.absent (tracks : Tracks t payloads h a)
    (above : ∀ last, a.window.last = some last → last < b) : ∀ f ∈ h, f.1 ≠ b := by
  intro f hf
  cases isLast : a.window.last with
  | none =>
      rw [tracks.fresh isLast] at hf
      cases hf
  | some last =>
      have := (tracks.newest last isLast).2 f hf
      have := above last isLast
      omega

/-- A new block leaves what the others deliver as it is, except for the newest so far. -/
theorem Tracks.others (legal : Legal t payloads blocks) (tracks : Tracks t payloads h a) {top x : Nat}
    (isLast : a.window.last = some top) (notTop : x ≠ top) (notNew : x ≠ b) :
    delivered t.code.k t.code.n payloads (h ++ [(b, i)]) x =
      delivered t.code.k t.code.n payloads h x := by
  rcases Nat.lt_or_gt_of_ne notTop with less | more
  · exact delivered_concat_of_ne (Ne.symm notNew) (.inl (tracks.behind isLast less)) payloads
  · have none : ∀ f ∈ h, f.1 ≠ x := by
      intro f hf
      have := (tracks.newest top isLast).2 f hf
      omega
    rw [delivered_absent legal.sound.pos payloads none, delivered_absent legal.sound.pos payloads]
    intro f hf
    rcases List.mem_append.mp hf with hf | hf
    · exact none f hf
    · rw [List.mem_singleton.mp hf]
      exact Ne.symm notNew

/-- When a new block comes, the open one delivers the rest of what has arrived of it. -/
theorem Tracks.flushed (legal : Legal t payloads blocks) (drawn : Drawn t blocks h)
    (tracks : Tracks t payloads h a) (above : ∀ last, a.window.last = some last → last < b)
    {order : List Nat} (ascending : order.Pairwise (· < ·)) (members : ∀ f ∈ h, f.1 ∈ order) :
    order.flatMap (fun x => if x = b then [] else
        delivered t.code.k t.code.n payloads (h ++ [(b, i)]) x) =
      order.flatMap (delivered t.code.k t.code.n payloads h) ++
        Emission.carried (a.window.live.flatMap fun s => (s.drain a.code.k .stale).2) := by
  have new := delivered_absent (n := t.code.n) legal.sound.pos payloads (tracks.absent above)
  cases isLast : a.window.last with
  | none =>
      obtain rfl := tracks.fresh isLast
      rw [tracks.ready.live_of_unused isLast, ← List.flatMap_congr (fun x _ => ?_)]
      · exact (List.append_nil _).symm
      · split
        next same => rw [same, new]
        next other =>
          rw [delivered_absent legal.sound.pos payloads (by simp),
            delivered_absent legal.sound.pos payloads]
          simpa using Ne.symm other
  | some top =>
      have below := above top isLast
      -- Older blocks had been overtaken before and nothing has come of newer ones: only `top` grows.
      have others (x : Nat) (hx : x ≠ top) : (if x = b then [] else
          delivered t.code.k t.code.n payloads (h ++ [(b, i)]) x) =
          delivered t.code.k t.code.n payloads h x := by
        split
        next same => rw [same, new]
        next other => exact tracks.others legal isLast hx other
      obtain ⟨⟨f, hf, isTop⟩, newest⟩ := tracks.newest top isLast
      have beyond : ∀ x, top < x → delivered t.code.k t.code.n payloads h x = [] := by
        intro x more
        refine delivered_absent legal.sound.pos payloads fun g hg => ?_
        have := newest g hg
        omega
      refine flatMap_grow ascending (isTop ▸ members f hf) others ?_ beyond
      rw [if_neg below.ne]
      rcases tracks.ready.newest with none | ⟨s, _, live, -, -⟩
      · -- Closed: all of it had left.
        rw [delivered_concat_of_enough (tracks.closed top none isLast), none]
        exact (List.append_nil _).symm
      · -- Open: what is there behind the cursor leaves now, gaps or not.
        obtain ⟨follows, less, worth⟩ := tracks.opened s top live isLast
        have stale := follows.holding.carried_stale follows.carries
          (legal.small top (isTop ▸ (drawn f hf).1)) (le_refl _) legal.sound.le
        have same : arrived (h ++ [(b, i)]) top = arrived h top := arrived_concat_of_ne below.ne'
        have few : ¬t.code.k ≤ count t.code.n (h ++ [(b, i)]) top := by
          rw [count, same, ← follows.has, ← follows.holding.used]
          omega
        have behind : overtaken (h ++ [(b, i)]) top = true := by simp [overtaken_concat, below]
        rw [live, List.flatMap_singleton, tracks.code, ← worth, stale, delivered, passed, if_neg few,
          if_pos behind, same, follows.has]
        rfl

theorem carried_skipped (below : List Nat) (k : Nat) :
    Emission.carried (below.flatMap fun i => (List.range k).map (Emission.lost i)) = [] := by
  induction below with
  | nil => rfl
  | cons i below ih =>
      rw [List.flatMap_cons, Emission.carried_append, Emission.carried_lost, ih, List.append_nil]

theorem Tracks.advances_stored (legal : Legal t payloads blocks) (tracks : Tracks t payloads h a)
    (hb : b ∈ blocks) (suits : Slot.Suits Limits.fragment t.code.n i
      (plainShare t.code (t.dataShares (payloads b)) i)) {r : Report} {next : Assembly}
    (ready : next.Ready) (code : next.code = t.code) (key : next.key = t.key) {s : Slot}
    {rest : Option Slot} (live : a.window.live = [s]) (index : s.index = some b)
    (new : s.has i = false)
    (settled : Slot.Settled t.code true
      (s.store i (plainShare t.code (t.dataShares (payloads b)) i)) r.emissions rest)
    (outcome : r.outcome = .ok .accepted)
    (window : Window.Narrowed a.window a.window.last rest next.window) :
    Advances t payloads h (b, i) r next := by
  obtain ⟨isLast, follows, less, worth⟩ : a.window.last = some b ∧ _ := by
    obtain ⟨last, isLast, holding⟩ := tracks.ready.holding_of_live live
    obtain rfl := Option.some.inj (index.symm.trans holding.index)
    exact ⟨isLast, tracks.opened _ _ live isLast⟩
  have notBehind := tracks.not_behind isLast
  have newest : ∀ f ∈ h ++ [(b, i)], f.1 ≤ b := le_concat (tracks.newest b isLast).2 (le_refl b)
  obtain ⟨tracks', added⟩ := tracks_of_settled legal hb ready code key
    (window.alike.fragmentSize.trans tracks.size) (window.last.trans isLast) window.live
    ⟨(b, i), by simp, rfl⟩ newest (follows.store notBehind suits new) less settled
  refine ⟨⟨_, outcome⟩, tracks', fun order ascending members => ?_⟩
  refine flatMap_grow ascending (members (b, i) (by simp)) ?_
    (added.symm.trans (congrArg (· ++ _) worth)) ?_
  · intro x other
    refine delivered_concat_of_ne (Ne.symm other) ?_ payloads
    rcases Nat.lt_or_gt_of_ne other with below | beyond
    · exact .inl (tracks.behind isLast below)
    · exact .inr beyond
  · intro x beyond
    refine delivered_absent legal.sound.pos payloads fun f hf => ?_
    have := (tracks.newest b isLast).2 f hf
    omega

theorem Tracks.advances_opened (legal : Legal t payloads blocks) (drawn : Drawn t blocks h)
    (tracks : Tracks t payloads h a) (hb : b ∈ blocks)
    (suits : Slot.Suits Limits.fragment t.code.n i
      (plainShare t.code (t.dataShares (payloads b)) i)) {r : Report} {next : Assembly}
    (ready : next.Ready) (code : next.code = t.code) (key : next.key = t.key)
    (above : ∀ last, a.window.last = some last → last < b) {fresh : Slot}
    (isFresh : fresh.Fresh Limits.fragment t.code.n b) {below : List Nat} {emissions : List Emission}
    {rest : Option Slot}
    (settled : Slot.Settled t.code true
      (fresh.store i (plainShare t.code (t.dataShares (payloads b)) i)) emissions rest)
    (outcome : r.outcome = .ok .accepted)
    (split : r.emissions = a.window.live.flatMap (fun s => (s.drain a.code.k .stale).2) ++
      below.flatMap (fun i => (List.range a.code.k).map (Emission.lost i)) ++ emissions)
    (window : Window.Narrowed a.window (some b) rest next.window) :
    Advances t payloads h (b, i) r next := by
  have absent := tracks.absent above
  have older : ∀ f ∈ h, f.1 < b := by
    intro f hf
    cases isLast : a.window.last with
    | none =>
        rw [tracks.fresh isLast] at hf
        cases hf
    | some last => exact ((tracks.newest last isLast).2 f hf).trans_lt (above last isLast)
  have notBehind := not_overtaken fun f hf => (older f hf).le
  have follows : fresh.Follows t (payloads b) h b Limits.fragment := by
    refine ⟨isFresh.holding, fun j _ has => ?_, ?_⟩
    · rw [isFresh.not_has j] at has
      cases has
    · funext j
      rw [isFresh.not_has j]
      exact (Bool.eq_false_iff.mpr fun here => absent _ (mem_of_arrived here) rfl).symm
  have newest : ∀ f ∈ h ++ [(b, i)], f.1 ≤ b := le_concat (fun f hf => (older f hf).le) (le_refl b)
  have few : (fresh.store i (plainShare t.code (t.dataShares (payloads b)) i)).used ≤ t.code.k := by
    have pos := legal.sound.pos
    simp only [Slot.store, isFresh.used]
    omega
  obtain ⟨tracks', added⟩ := tracks_of_settled legal hb ready code key
    (window.alike.fragmentSize.trans tracks.size) window.last window.live ⟨(b, i), by simp, rfl⟩ newest
    (follows.store notBehind suits (isFresh.not_has i)) few settled
  refine ⟨⟨_, outcome⟩, tracks', fun order ascending members => ?_⟩
  have flushed := tracks.flushed (i := i) legal drawn above ascending fun f hf =>
    members f (List.mem_append_left _ hf)
  -- The open block is flushed, the skipped blocks carry nothing, and the new block comes last.
  rw [split, Emission.carried_append, Emission.carried_append, carried_skipped, List.append_nil,
    ← List.append_assoc, ← flushed]
  refine flatMap_grow ascending (members (b, i) (by simp)) ?_ ?_ ?_
  · intro x other
    rw [if_neg other]
  · rw [if_pos rfl, ← added]
    simp [Slot.store, isFresh.cursor]
  · intro x beyond
    rw [if_neg beyond.ne']
    refine delivered_absent legal.sound.pos payloads fun f hf => ?_
    have := newest f hf
    omega

/-- One more packet adds to the deliveries what the history then has more. -/
theorem Tracks.advances (legal : Legal t payloads blocks) (tracks : Tracks t payloads h a)
    (drawn : Drawn t blocks (h ++ [(b, i)])) :
    Advances t payloads h (b, i) (a.receive (packetOf t payloads b i) true).1
      (a.receive (packetOf t payloads b i) true).2 := by
  obtain ⟨hb, hi⟩ : b ∈ blocks ∧ i < t.code.n := drawn (b, i) (by simp)
  have drawn : Drawn t blocks h := fun f hf => drawn f (List.mem_append_left _ hf)
  obtain ⟨long, short⟩ := Transmitter.plainShare_bounds legal.sound.pos (legal.small b hb) i
  obtain ⟨ready, code, key⟩ := tracks.ready.receive (packetOf t payloads b i) true
  have opened : a.authenticate (packetOf t payloads b i) =
      .ok (plainShare t.code (t.dataShares (payloads b)) i) := by
    rw [packetOf, ← tracks.key]
    exact authenticate_sealed (legal.block b hb) (tracks.code ▸ hi) long (tracks.size ▸ short)
  have suits := (authenticate_ok opened).2
  rw [receive, opened] at ready code key ⊢
  have taken := @Ready.accept _ tracks.ready b _ _ suits true
  rw [tracks.code, tracks.size] at suits
  cases taken with
  | late last isLast le elsewhere outcome emissions window =>
      refine tracks.advances_idle isLast le ?_ ⟨_, outcome⟩ emissions ready code key window
      -- A late fragment is one of an overtaken block, or of the newest after that has closed.
      rcases le.lt_or_eq with less | rfl
      · exact .inl (tracks.behind isLast less)
      · rcases tracks.ready.newest with none | ⟨s, top, live, same, holding⟩
        · exact .inr (.inr ⟨rfl, none, tracks.closed b none isLast⟩)
        · obtain rfl := Option.some.inj (isLast.symm.trans same)
          exact absurd holding.index (elsewhere s (live ▸ List.mem_singleton_self s))
  | duplicate s live index has outcome emissions window =>
      obtain ⟨top, isLast, holding⟩ := tracks.ready.holding_of_live live
      obtain rfl := Option.some.inj (index.symm.trans holding.index)
      refine tracks.advances_idle isLast (le_refl b) (.inr (.inl ?_)) ⟨_, outcome⟩ emissions ready
        code key window
      rw [← (tracks.opened s b live isLast).1.has]
      exact has
  | stored s rest live index new settled outcome window =>
      rw [tracks.code] at settled
      exact tracks.advances_stored legal hb suits ready (code.trans tracks.code)
        (key.trans tracks.key) live index new settled outcome window
  | opened fresh below emissions rest above isFresh _ _ settled outcome split window =>
      rw [tracks.code] at settled
      rw [tracks.code, tracks.size] at isFresh
      exact tracks.advances_opened legal drawn hb suits ready (code.trans tracks.code)
        (key.trans tracks.key) above isFresh settled outcome split window

def callsOf (t : Transmitter) (payloads : Nat → List Bytes) (l : History) : List (Arrival × Bool) :=
  l.map fun f => (packetOf t payloads f.1 f.2, true)

theorem Tracks.run (legal : Legal t payloads blocks) (tracks : Tracks t payloads h a) (l : History)
    (drawn : Drawn t blocks (h ++ l)) {order : List Nat} (ascending : order.Pairwise (· < ·))
    (members : ∀ f ∈ h ++ l, f.1 ∈ order) :
    (∀ r ∈ (a.run (callsOf t payloads l)).1, ∃ outcome, r.outcome = .ok outcome) ∧
      order.flatMap (delivered t.code.k t.code.n payloads (h ++ l)) =
        order.flatMap (delivered t.code.k t.code.n payloads h) ++
          Emission.carried ((a.run (callsOf t payloads l)).1.flatMap Report.emissions) := by
  induction l generalizing a h with
  | nil =>
      rw [List.append_nil]
      exact ⟨by simp [callsOf, Assembly.run], (List.append_nil _).symm⟩
  | cons f l ih =>
      have glued : h ++ f :: l = (h ++ [f]) ++ l := by simp
      rw [glued] at drawn members ⊢
      have step := tracks.advances (b := f.1) (i := f.2) legal fun g hg =>
        drawn g (List.mem_append_left _ hg)
      obtain ⟨outcomes, rest⟩ := ih step.tracks drawn members
      refine ⟨?_, ?_⟩
      · intro r hr
        rcases List.mem_cons.mp hr with rfl | hr
        · exact step.outcome
        · exact outcomes r hr
      · refine rest.trans ?_
        have grows := step.grows order ascending fun g hg => members g (List.mem_append_left _ hg)
        rw [grows, List.append_assoc, ← Emission.carried_append]
        rfl

theorem tracks_create {key : Key} {slots : Nat}
    (created : create key t.code.k t.code.n slots Limits.fragment = .ok a)
    (code : a.code = t.code) (same : key = t.key) : Tracks t payloads [] a := by
  obtain ⟨ready, live, none, size, isKey, -, -⟩ := create_ready created
  refine ⟨ready, code, isKey.trans same, size, fun _ => rfl, ?_, ?_, ?_⟩
  · intro top isLast
    rw [none] at isLast
    cases isLast
  · intro s top isOpen
    rw [live] at isOpen
    cases isOpen
  · intro top _ isLast
    rw [none] at isLast
    cases isLast

end Assembly

/-- Blocks are encoded, their packets arrive in any order, some never and some more than once, and
are taken in with the erasure code allowed.  Every packet can be read and none is refused, and what is
delivered is, block by block in ascending order, what the history of arrivals is worth. -/
theorem delivers_exactly (keys : LinkKeys) (epoch : UInt64) (channel : UInt32) (key : Key)
    (k n : UInt8) (hk : 1 ≤ k.toNat) (hkn : k.toNat ≤ n.toNat) (blocks : List Nat)
    (ascending : blocks.Pairwise (· < ·)) (inRange : ∀ b ∈ blocks, b ≤ Limits.blockIndex)
    (payloads : Nat → List Bytes) (few : ∀ b ∈ blocks, (payloads b).length ≤ k.toNat)
    (small : ∀ b ∈ blocks, ∀ p ∈ payloads b, p.length ≤ Limits.payload) :
    ∃ t, Transmitter.create keys epoch channel k n key = .ok t ∧
    ∃ packets : Nat → List Bytes,
      (∀ b ∈ blocks, t.encodeBlock b (payloads b) = .ok (packets b) ∧ (packets b).length = n.toNat) ∧
      (∀ slots, 1 ≤ slots → Limits.fragment * n.toNat * slots ≤ Limits.memory →
        ∃ a, Assembly.create key k.toNat n.toNat slots Limits.fragment = .ok a) ∧
      ∀ slots a, Assembly.create key k.toNat n.toNat slots Limits.fragment = .ok a →
      ∀ run : History, (∀ f ∈ run, f.1 ∈ blocks ∧ f.2 < n.toNat) →
      ∃ arrivals : List Arrival,
        List.Forall₂ (fun f x => ∃ packet, Packet.parse ((packets f.1).getD f.2 []) = .ok packet ∧
          packet.arrival? = some x) run arrivals ∧
        (∀ r ∈ (a.run (arrivals.map (·, true))).1, ∃ outcome, r.outcome = .ok outcome) ∧
        ((a.run (arrivals.map (·, true))).1.flatMap Report.deliveries).map
            (fun d => (d.block, d.fragment, d.payload)) =
          blocks.flatMap (delivered k.toNat n.toNat payloads run) := by
  have large : n.toNat ≤ 255 := Nat.le_of_lt_succ n.toNat_lt
  obtain ⟨code, made, isK, isN, sound⟩ := ErasureCode.create_ok hk hkn large
  let t : Transmitter := { boxKey := keys.boxKey, epoch, channel, key, code }
  have created : Transmitter.create keys epoch channel k n key = .ok t := by
    unfold Transmitter.create
    rw [made]
    rfl
  let packets (b : Nat) : List Bytes := (List.range n.toNat).map fun i =>
    Transmitter.sealFragment key b i (plainShare code (t.dataShares (payloads b)) i)
  refine ⟨t, created, packets, ?_, ?_, ?_⟩
  · intro b hb
    refine ⟨?_, by simp [packets]⟩
    have encoded := Transmitter.encodeBlock_ok (t := t) sound (inRange b hb) (isK ▸ few b hb)
      (small b hb)
    rw [encoded, show t.code.n = n.toNat from isN]
  · intro slots some fits
    exact Assembly.create_succeeds key hk hkn large some (by decide) fits
  · intro slots a opened run drawn
    have same : a.code = t.code := by
      have again := Assembly.create_code opened
      rw [made, Except.ok.injEq] at again
      exact again.symm
    have legal : Assembly.Legal t payloads blocks :=
      ⟨sound, inRange, fun b hb => isK ▸ few b hb, small⟩
    have drawn' : Assembly.Drawn t blocks ([] ++ run) :=
      fun f hf => ⟨(drawn f hf).1, (drawn f hf).2.trans_eq isN.symm⟩
    have opened' := opened
    rw [← isK, ← isN] at opened'
    have tracks : Assembly.Tracks t payloads [] a := Assembly.tracks_create opened' same rfl
    obtain ⟨outcomes, worth⟩ := tracks.run legal run drawn' ascending fun f hf => (drawn f hf).1
    have calls : (run.map fun f => Assembly.packetOf t payloads f.1 f.2).map (·, true) =
        Assembly.callsOf t payloads run := by simp [Assembly.callsOf]
    refine ⟨run.map fun f => Assembly.packetOf t payloads f.1 f.2, ?_, ?_, ?_⟩
    · rw [List.forall₂_map_right_iff, List.forall₂_same]
      intro f hf
      obtain ⟨hb, hi⟩ := drawn f hf
      have packet : (packets f.1).getD f.2 [] = Transmitter.sealFragment key f.1 f.2
          (plainShare code (t.dataShares (payloads f.1)) f.2) := by
        simp [packets, hi]
      rw [packet]
      exact Packet.parse_sealFragment key (inRange f.1 hb) (by omega)
        (Transmitter.plainShare_bounds (t := t) sound.pos (small f.1 hb) f.2).2
    · rwa [calls]
    · have empty : blocks.flatMap (delivered t.code.k t.code.n payloads []) = [] :=
        List.flatMap_eq_nil_iff.mpr fun b _ => delivered_absent sound.pos payloads (by simp)
      rw [empty, List.nil_append, List.nil_append] at worth
      rw [calls, Assembly.flatMap_deliveries, ← isK, ← isN]
      exact worth.symm

/-- Block 3 is overtaken with a fragment lost, and the first fragment of block 5 is rebuilt. -/
theorem delivers_exactly_two_blocks :
    let key : Key := ⟨Bytes.zeros 32, rfl⟩
    let payloads (b : Nat) : List Bytes := if b = 3 then [[7], [8]] else [[1, 2], []]
    ∃ (t : Transmitter) (packets : Nat → List Bytes) (a : Assembly) (arrivals : List Arrival),
      Transmitter.create ⟨key, key⟩ 1 0 2 3 key = .ok t ∧
      (∀ b ∈ [3, 5], t.encodeBlock b (payloads b) = .ok (packets b)) ∧
      Assembly.create key 2 3 1 Limits.fragment = .ok a ∧
      List.Forall₂ (fun f x => ∃ packet, Packet.parse ((packets f.1).getD f.2 []) = .ok packet ∧
        packet.arrival? = some x) [(3, 0), (3, 0), (5, 2), (3, 1), (5, 1)] arrivals ∧
      ((a.run (arrivals.map (·, true))).1.flatMap Report.deliveries).map
          (fun d => (d.block, d.fragment, d.payload)) =
        [(3, 0, [7]), (5, 0, [1, 2]), (5, 1, [])] := by
  intro key payloads
  obtain ⟨t, made, packets, encoded, exists_a, exact⟩ :=
    delivers_exactly ⟨key, key⟩ 1 0 key 2 3 (by decide) (by decide) [3, 5] (by decide) (by decide)
      payloads (by decide) (by decide)
  obtain ⟨a, created⟩ := exists_a 1 (by decide) (by decide)
  obtain ⟨arrivals, parsed, -, delivered⟩ :=
    exact 1 a created [(3, 0), (3, 0), (5, 2), (3, 1), (5, 1)] (by decide)
  refine ⟨t, packets, a, arrivals, made, fun b hb => (encoded b hb).1, created, parsed,
    delivered.trans ?_⟩
  decide

end AirLink
