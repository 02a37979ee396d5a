import AirLink.Proofs.Verdict
import AirLink.Counters

/-! # Windows of different sizes

Two assemblies that differ in the number of their slots alone stay abreast: they accept the same
fragments, and so answer every packet alike, rebuild alike and deliver alike.  Only what earlier blocks
have left in the buffers is not the same.  It is seen where a decoded share has a header that claims more
bytes than the share has, and nowhere else; the shares of an encoded block have no such header.
-/

namespace AirLink

open ErasureCode Intake

/-- A delivery but for the bytes of its payload. -/
def Delivery.outline (d : Delivery) : Nat × Nat × Bool × Nat :=
  (d.block, d.fragment, d.recovered, d.payload.length)

/-- A report but for the bytes of its payloads, and what was lost. -/
def Report.outline (r : Report) :
    Except Fault DataOutcome × Option Nat × List (Nat × Nat × Bool × Nat) :=
  (r.outcome, r.rebuilt, r.deliveries.map Delivery.outline)

/-- The length of a payload is told by the header and the length of the buffer. -/
theorem length_payload? {front rest rest' : Bytes} (long : Limits.fragmentHeader ≤ front.length)
    (same : rest.length = rest'.length) :
    (payload? (front ++ rest)).map List.length = (payload? (front ++ rest')).map List.length := by
  have whole : (front ++ rest).length = (front ++ rest').length := by
    rw [List.length_append, List.length_append, same]
  unfold payload?
  rw [FragmentHeader.decode_append long, FragmentHeader.decode_append long, whole]
  cases FragmentHeader.decode front with
  | error fault => rfl
  | ok header =>
      simp only
      split_ifs
      · rfl
      · rfl
      · rw [Option.map_some, Option.map_some, List.length_take, List.length_take, List.length_drop,
          List.length_drop, whole]

namespace Intake

variable {code : ErasureCode} {size : Nat} {taken given : List Intake} {left left' : Nat → Bytes}

/-- What is at a place came with a fragment. -/
theorem plainAt_of_has {i : Nat} (present : has given i = true) :
    ∃ x ∈ given, x.fragment = i ∧ plainAt given i = x.plain := by
  unfold has plain? at present
  rw [Option.isSome_map, Option.isSome_iff_exists] at present
  obtain ⟨x, found⟩ := present
  refine ⟨x, List.mem_of_find?_eq_some found, by simpa using List.find?_some found, ?_⟩
  rw [plainAt, plain?, found]
  rfl

/-- A gap is passed on when the block has been rebuilt, and else not. -/
theorem rebuilt_of_passed {k : Nat} {o : Bool} {i : Nat} (hi : i ∈ passed given k o)
    (gap : has given i = false) : rebuilt given k = true := by
  unfold passed at hi
  split_ifs at hi with used
  · exact used
  · rw [(List.mem_filter.mp hi).2] at gap
    cases gap
  · rw [List.mem_takeWhile_imp hi] at gap
    cases gap

theorem lt_of_passed {k : Nat} {o : Bool} {i : Nat} (hi : i ∈ passed given k o) : i < k := by
  unfold passed at hi
  split_ifs at hi
  · exact List.mem_range.mp hi
  · exact List.mem_range.mp (List.mem_filter.mp hi).1
  · exact List.mem_range.mp ((List.takeWhile_sublist _).subset hi)

theorem Lawful.fits_plainAt (h : Lawful code size taken) (b i : Nat) :
    (plainAt (ofBlock taken b) i).length ≤ size :=
  length_plainAt_le (fun x hx => h.fits x (mem_ofBlock.mp hx).1) i

/-- What is passed on has a header of its own. -/
theorem Lawful.long_own (h : Lawful code size taken) (sound : Sound code) {b i : Nat} {o : Bool}
    (hi : i ∈ passed (ofBlock taken b) code.k o) :
    Limits.fragmentHeader ≤ (own code size (ofBlock taken b) i).length := by
  have long {j : Nat} (present : has (ofBlock taken b) j = true) :
      Limits.fragmentHeader ≤ (plainAt (ofBlock taken b) j).length := by
    obtain ⟨x, hx, -, same⟩ := plainAt_of_has present
    rw [same]
    exact h.long x (mem_ofBlock.mp hx).1
  unfold own
  split_ifs with present
  · exact long present
  · have gap := Bool.eq_false_iff.mpr present
    have count := h.count (rebuilt_of_passed hi gap)
    have absent : i ∈ absent code (ofBlock taken b) := by simp [absent, lt_of_passed hi, gap]
    rw [(decode_sources sound (h.fits_plainAt b) count).1 i absent]
    -- The share is as long as any that it is decoded from.
    have some : 0 < (sources code (ofBlock taken b)).length := by
      rw [sources, (arranged_choice sound count).length]
      exact sound.pos
    have member := List.getElem_mem some
    exact (long (mem_choice sound count member).1).trans
      (le_foldl_max (.inr (List.mem_map_of_mem member)))

theorem outline_delivery {b i : Nat} (fits : (plainAt given i).length ≤ size)
    (long : Limits.fragmentHeader ≤ (own code size given i).length)
    (room : (left i).length = (left' i).length) :
    (delivery code size given left b i).map Delivery.outline =
      (delivery code size given left' b i).map Delivery.outline := by
  have lengths : (behind code size given left i).length = (behind code size given left' i).length := by
    unfold behind
    split_ifs
    · rfl
    · rw [List.length_drop, List.length_drop, room]
  have outlined (content : Bytes) :
      ((payload? content).map fun payload => (⟨b, i, !has given i, payload⟩ : Delivery)).map
          Delivery.outline =
        ((payload? content).map List.length).map fun length => (b, i, !has given i, length) := by
    rw [Option.map_map, Option.map_map]
    rfl
  rw [delivery, delivery, content_eq left fits, content_eq left' fits, outlined, outlined,
    length_payload? long lengths]

end Intake

namespace Assembly

variable {code : ErasureCode} {size : Nat} {taken : List Intake} {left left' : Nat → Bytes}
  {delivered delivered' : List Delivery}

/-- What a block is worth, but for the bytes, does not depend on what has been left in the buffers. -/
theorem Worth.outline_eq (lawful : Lawful code size taken) (sound : Sound code) {c : Nat}
    (h : Worth code size taken delivered c left) (h' : Worth code size taken delivered' c left') :
    (delivered.filter (·.block = c)).map Delivery.outline =
      (delivered'.filter (·.block = c)).map Delivery.outline := by
  rw [h.worth, h'.worth, deliveries, deliveries, List.map_filterMap, List.map_filterMap]
  refine List.filterMap_congr fun i hi => ?_
  have place : i < code.n := (lt_of_passed hi).trans_le sound.le
  exact outline_delivery (lawful.fits_plainAt c i) (lawful.long_own sound hi)
    ((h.room i place).trans (h'.room i place).symm)

/-- Outlines in order are told by those of each block. -/
theorem outlines_eq {ds ds' : List Delivery}
    (ascending : ds.Pairwise fun d e => d.block < e.block ∨ d.block = e.block ∧ d.fragment < e.fragment)
    (ascending' : ds'.Pairwise fun d e => d.block < e.block ∨ d.block = e.block ∧ d.fragment < e.fragment)
    (same : ∀ c, (ds.filter (·.block = c)).map Delivery.outline =
      (ds'.filter (·.block = c)).map Delivery.outline) :
    ds.map Delivery.outline = ds'.map Delivery.outline := by
  have sorted {es : List Delivery} (ascending : es.Pairwise fun d e =>
      d.block < e.block ∨ d.block = e.block ∧ d.fragment < e.fragment) :
      (es.map Delivery.outline).Pairwise fun o p => o.1 < p.1 ∨ o.1 = p.1 ∧ o.2.1 < p.2.1 :=
    List.pairwise_map.mpr ascending
  have distinct {os : List (Nat × Nat × Bool × Nat)}
      (sorted : os.Pairwise fun o p => o.1 < p.1 ∨ o.1 = p.1 ∧ o.2.1 < p.2.1) : os.Nodup :=
    sorted.imp fun less same => by
      rw [same] at less
      omega
  have here (es : List Delivery) (o : Nat × Nat × Bool × Nat) : o ∈ es.map Delivery.outline ↔
      o ∈ (es.filter (·.block = o.1)).map Delivery.outline := by
    simp only [List.mem_map, List.mem_filter, decide_eq_true_eq]
    constructor
    · rintro ⟨d, hd, rfl⟩
      exact ⟨d, ⟨hd, rfl⟩, rfl⟩
    · rintro ⟨d, ⟨hd, -⟩, outline⟩
      exact ⟨d, hd, outline⟩
  -- Without ties in the order, the members settle the list.
  have same : (ds.map Delivery.outline).Perm (ds'.map Delivery.outline) := by
    rw [List.perm_ext_iff_of_nodup (distinct (sorted ascending)) (distinct (sorted ascending'))]
    intro o
    rw [here ds, same, ← here ds']
  exact same.eq_of_pairwise (fun o p _ _ less more => by omega) (sorted ascending) (sorted ascending')

/-- Two assemblies that have accepted the same fragments, under one key and code and into slots of one
size. -/
structure Abreast (taken : List Intake) (a b : Assembly) : Prop where
  left : Informed taken a
  right : Informed taken b
  key : b.key = a.key
  code : b.code = a.code
  size : b.window.fragmentSize = a.window.fragmentSize

variable {a b : Assembly}

theorem Abreast.deliveries_of_block (h : Abreast taken a b) (accounts : Accounts taken delivered a)
    (accounts' : Accounts taken delivered' b) (c : Nat) :
    (delivered.filter (·.block = c)).map Delivery.outline =
      (delivered'.filter (·.block = c)).map Delivery.outline := by
  obtain ⟨left, account⟩ := accounts.blocks c
  obtain ⟨left', account'⟩ := accounts'.blocks c
  have worth' := account'.toWorth
  rw [h.code, h.size] at worth'
  exact account.toWorth.outline_eq h.left.lawful accounts.ready.sound worth'

section step

variable (h : Abreast taken a b) (x : Arrival) (recover : Bool)

include h

theorem Abreast.outcome_eq : (b.receive x recover).1.outcome = (a.receive x recover).1.outcome := by
  rw [(h.left.answer x recover).1, (h.right.answer x recover).1,
    authenticate_congr h.key h.code h.size, h.code]

theorem Abreast.intake_eq : b.intake? x recover = a.intake? x recover := by
  rw [intake?, intake?, authenticate_congr h.key h.code h.size, h.outcome_eq]

theorem Abreast.receive : Abreast (taken ++ (a.intake? x recover).toList) (a.receive x recover).2
    (b.receive x recover).2 := by
  obtain ⟨_, accounts⟩ := h.left.accounts
  obtain ⟨_, accounts'⟩ := h.right.accounts
  obtain ⟨-, code, key⟩ := accounts.ready.receive x recover
  obtain ⟨-, code', key'⟩ := accounts'.ready.receive x recover
  obtain ⟨size, -⟩ := accounts.ready.receive_frame x recover
  obtain ⟨size', -⟩ := accounts'.ready.receive_frame x recover
  have right := h.right.receive x recover
  rw [h.intake_eq] at right
  exact ⟨h.left.receive x recover, right, by rw [key, key', h.key], by rw [code, code', h.code],
    by rw [size, size', h.size]⟩

/-- A step delivers of each block what its fragment adds to the worth, which is the same for both. -/
theorem Abreast.deliveries_eq : (b.receive x recover).1.deliveries.map Delivery.outline =
    (a.receive x recover).1.deliveries.map Delivery.outline := by
  obtain ⟨_, accounts⟩ := h.left.accounts
  obtain ⟨_, accounts'⟩ := h.right.accounts
  refine outlines_eq (accounts'.ready.receive_within x recover).deliveries
    (accounts.ready.receive_within x recover).deliveries fun c => ?_
  have before := h.deliveries_of_block accounts accounts' c
  have after := (h.receive x recover).deliveries_of_block (accounts.receive x recover)
    (h.intake_eq x recover ▸ accounts'.receive x recover) c
  rw [List.filter_append, List.filter_append, List.map_append, List.map_append, before] at after
  exact (List.append_cancel_left after).symm

/-- One more packet is answered alike. -/
theorem Abreast.outline_eq : (b.receive x recover).1.outline = (a.receive x recover).1.outline := by
  rw [Report.outline, Report.outline, h.outcome_eq, h.deliveries_eq, (h.left.answer x recover).2.1,
    (h.right.answer x recover).2.1, h.intake_eq, h.code]

end step

theorem Abreast.run (h : Abreast taken a b) (calls : List (Arrival × Bool)) :
    b.intakes calls = a.intakes calls ∧
      (b.run calls).1.map Report.outline = (a.run calls).1.map Report.outline := by
  induction calls generalizing a b taken with
  | nil => exact ⟨rfl, rfl⟩
  | cons call calls ih =>
      obtain ⟨x, recover⟩ := call
      obtain ⟨rest, outlines⟩ := ih (h.receive x recover)
      refine ⟨?_, ?_⟩
      · rw [intakes, intakes, h.intake_eq, rest]
      · simp only [Assembly.run, List.map_cons, h.outline_eq, outlines]

/-- Reports with one outline are counted alike, but for what is lost. -/
theorem absorb_outline {r r' : Report} (same : r.outline = r'.outline) {c c' : Counters}
    (alike : c = { c' with lost := c.lost }) :
    c.absorb r = { c'.absorb r' with lost := (c.absorb r).lost } := by
  simp only [Report.outline, Prod.mk.injEq] at same
  obtain ⟨outcome, rebuilt, outlines⟩ := same
  have count : r.deliveries.length = r'.deliveries.length := by
    simpa using congrArg List.length outlines
  have bytes : (r.deliveries.flatMap (·.payload)).length =
      (r'.deliveries.flatMap (·.payload)).length := by
    have lengths := congrArg (fun os => (os.map (·.2.2.2)).sum) outlines
    simpa [List.length_flatMap, Function.comp_def, Delivery.outline] using lengths
  rw [alike]
  simp only [Counters.absorb, outcome, rebuilt, count, bytes]

theorem foldl_absorb {reports reports' : List Report}
    (same : reports.map Report.outline = reports'.map Report.outline) {c c' : Counters}
    (alike : c = { c' with lost := c.lost }) :
    reports.foldl Counters.absorb c =
      { reports'.foldl Counters.absorb c' with lost := (reports.foldl Counters.absorb c).lost } := by
  induction reports generalizing reports' c c' with
  | nil =>
      rw [List.map_nil, eq_comm, List.map_eq_nil_iff] at same
      rw [same]
      exact alike
  | cons r reports ih =>
      cases reports' with
      | nil => cases same
      | cons r' reports' =>
          rw [List.map_cons, List.map_cons, List.cons.injEq] at same
          exact ih same.2 (absorb_outline same.1 alike)

/-- A delivery is told by its outline if it did not have to be decoded, or was decoded to a share with a
truthful header. -/
theorem Worth.delivery_eq {d d' : Delivery} (h : Worth code size taken delivered d.block left)
    (h' : Worth code size taken delivered' d.block left') (fits : ∀ x ∈ taken, x.plain.length ≤ size)
    (hd : d ∈ delivered) (hd' : d' ∈ delivered') (same : d.outline = d'.outline)
    (clean : d.recovered = false ∨ Truthful (own code size (ofBlock taken d.block) d.fragment)) :
    d = d' := by
  obtain ⟨block, fragment, recovered, payload⟩ := d
  obtain ⟨block', fragment', recovered', payload'⟩ := d'
  simp only [Delivery.outline, Prod.mk.injEq] at same
  obtain ⟨rfl, rfl, rfl, -⟩ := same
  obtain ⟨-, how, reads⟩ := h.reads hd fits
  obtain ⟨-, -, reads'⟩ := h'.reads (d := ⟨block, fragment, recovered, payload'⟩) hd' fits
  simp only at how reads reads' clean
  have one : payload = payload' := by
    rcases clean with direct | truthful
    · have present : has (ofBlock taken block) fragment = true := by simpa [direct] using how
      rw [behind, if_pos present] at reads reads'
      exact Option.some.inj (reads.symm.trans reads')
    · rw [payload?_append truthful] at reads reads'
      exact Option.some.inj (reads.symm.trans reads')
  rw [one]

end Assembly

namespace Transmitter

variable {t : Transmitter} {payloads : Nat → List Bytes} {size : Nat} {taken : List Intake}

theorem truthful_fragmentOf {p : Option Bytes} (small : ∀ bs ∈ p, bs.length ≤ Limits.payload)
    (rest : Bytes) : Truthful (fragmentOf p ++ rest) := by
  unfold Truthful
  cases p with
  | none =>
      rw [fragmentOf, FragmentHeader.decode_encode]
      simp [FragmentHeader.length_encode]
  | some payload =>
      rw [fragmentOf, List.append_assoc, FragmentHeader.decode_encode]
      simp only [toNat_size (small payload rfl), List.length_append, FragmentHeader.length_encode]
      omega

/-- Fragments of encoded blocks, with one list of payloads for each block. -/
def Encoded (t : Transmitter) (payloads : Nat → List Bytes) (taken : List Intake) : Prop :=
  ∀ y ∈ taken, (∀ p ∈ payloads y.block, p.length ≤ Limits.payload) ∧
    y.plain = plainShare t.code (t.dataShares (payloads y.block)) y.fragment

theorem Sent.opened (sound : Sound t.code) {block : Nat} {payloads : List Bytes} {x : Arrival} {plain : Bytes}
    (sent : t.Sent block payloads x) {a : Assembly} (key : a.key = t.key)
    (opened : a.authenticate x = .ok plain) :
    block = x.block ∧ (∀ p ∈ payloads, p.length ≤ Limits.payload) ∧
      plain = plainShare t.code (t.dataShares payloads) x.fragment := by
  obtain ⟨⟨-, -, small⟩, i, -, rfl⟩ := (sent_iff sound).mp sent
  obtain ⟨-, -, -, -, decrypted⟩ := Assembly.authenticate_eq_ok.mp opened
  rw [key] at decrypted
  exact ⟨rfl, small, Except.ok.inj (decrypted.symm.trans (Cipher.Aead.decrypt_encrypt ..))⟩

/-- All that is passed on of an encoded block has a truthful header. -/
theorem Encoded.truthful_own (encoded : t.Encoded payloads taken) (sound : Sound t.code)
    (lawful : Lawful t.code size taken) {b i : Nat} {o : Bool}
    (hi : i ∈ passed (ofBlock taken b) t.code.k o) :
    Truthful (own t.code size (ofBlock taken b) i) := by
  have place := lt_of_passed hi
  have content {j : Nat} (present : has (ofBlock taken b) j = true) :
      (∀ p ∈ payloads b, p.length ≤ Limits.payload) ∧
        plainAt (ofBlock taken b) j = plainShare t.code (t.dataShares (payloads b)) j := by
    obtain ⟨y, hy, rfl, same⟩ := plainAt_of_has present
    obtain ⟨member, rfl⟩ := mem_ofBlock.mp hy
    exact ⟨(encoded y member).1, same.trans (encoded y member).2⟩
  unfold own
  split_ifs with present
  · obtain ⟨small, same⟩ := content present
    rw [same, plainShare, if_pos place, getD_dataShares place, ← List.append_nil (fragmentOf _)]
    exact truthful_fragmentOf (fun bs hbs => small bs (List.mem_of_getElem? hbs)) []
  · have gap := Bool.eq_false_iff.mpr present
    have count := lawful.count (rebuilt_of_passed hi gap)
    have absent : i ∈ absent t.code (ofBlock taken b) := by simp [absent, place, gap]
    obtain ⟨j, hj⟩ := List.exists_mem_of_length_pos (count ▸ sound.pos)
    have small := (content (List.mem_filter.mp hj).2).1
    rw [share_eq_data sound (lawful.fits_plainAt b) count (length_dataShares t (payloads b))
      (fun j _ present => (content present).2) absent, Slot.fit_of_le (length_le_longest i),
      getD_dataShares place]
    exact truthful_fragmentOf (fun bs hbs => small bs (List.mem_of_getElem? hbs)) _

end Transmitter

namespace Assembly

variable {a b : Assembly}

theorem abreast_create {key : Key} {k n slots slots' size : Nat}
    (created : create key k n slots size = .ok a) (created' : create key k n slots' size = .ok b) :
    Abreast [] a b := by
  obtain ⟨-, -, -, isSize, isKey, -⟩ := create_ready created
  obtain ⟨-, -, -, isSize', isKey', -⟩ := create_ready created'
  exact ⟨informed_create created, informed_create created', isKey'.trans isKey.symm,
    Except.ok.inj ((create_code created').symm.trans (create_code created)), isSize'.trans isSize.symm⟩

/-- Lists whose members are told by something they have in common are equal. -/
theorem eq_of_map_eq {α β : Type} {f : α → β} {l l' : List α} (same : l.map f = l'.map f)
    (told : ∀ x ∈ l, ∀ y ∈ l', f x = f y → x = y) : l = l' := by
  induction l generalizing l' with
  | nil => exact (List.map_eq_nil_iff.mp same.symm).symm
  | cons x l ih =>
      cases l' with
      | nil => cases same
      | cons y l' =>
          rw [List.map_cons, List.map_cons, List.cons.injEq] at same
          rw [told x (List.mem_cons_self ..) y (List.mem_cons_self ..) same.1,
            ih same.2 fun x hx y hy => told x (List.mem_cons_of_mem _ hx) y (List.mem_cons_of_mem _ hy)]

/-- What is delivered of encoded blocks has a truthful header. -/
theorem truthful_of_sent {key : Key} {k n slots size : Nat} (created : create key k n slots size = .ok a)
    {calls : List (Arrival × Bool)} {t : Transmitter} {payloads : Nat → List Bytes} (isKey : t.key = key)
    (code : t.code = a.code) (sent : ∀ call ∈ calls, ∃ block, t.Sent block (payloads block) call.1)
    {d : Delivery} (hd : d ∈ (a.run calls).1.flatMap Report.deliveries) :
    Truthful (own a.code size (a.given calls d.block) d.fragment) := by
  obtain ⟨ready, -, -, -, same, -⟩ := create_ready created
  have sound : Sound t.code := code ▸ ready.sound
  have lawful := lawful_run created calls
  have encoded : t.Encoded payloads (a.intakes calls) := by
    intro y hy
    obtain ⟨call, member, opened, block, fragment⟩ := mem_intakes ready hy
    obtain ⟨c, sent⟩ := sent call member
    obtain ⟨rfl, small, plain⟩ := sent.opened sound (same.trans isKey.symm) opened
    rw [block, fragment]
    exact ⟨small, plain⟩
  obtain ⟨left, worth⟩ := run_worth created calls d.block
  have place := (worth.mem hd).1
  rw [← code] at place lawful ⊢
  exact encoded.truthful_own sound lawful place

section sizes

variable {key : Key} {k n slots slots' size : Nat} (created : create key k n slots size = .ok a)
  (created' : create key k n slots' size = .ok b) (calls : List (Arrival × Bool))

include created created'

theorem given_eq (c : Nat) : b.given calls c = a.given calls c := by
  rw [given, given, ((abreast_create created created').run calls).1]

/-- Deliveries with one outline are equal unless they are decoded from an untruthful share. -/
theorem delivery_eq {d d' : Delivery} (hd : d ∈ (b.run calls).1.flatMap Report.deliveries)
    (hd' : d' ∈ (a.run calls).1.flatMap Report.deliveries) (outline : d.outline = d'.outline)
    (clean : d.recovered = false ∨ Truthful (own a.code size (a.given calls d.block) d.fragment)) :
    d = d' := by
  have abreast := abreast_create created created'
  obtain ⟨left, worth⟩ := run_worth created' calls d.block
  obtain ⟨left', worth'⟩ := run_worth created calls d.block
  rw [abreast.code, (abreast.run calls).1] at worth
  exact worth.delivery_eq worth' (lawful_run created calls).fits hd hd' outline clean

end sizes

/-- The number of slots does not matter for what an assembly answers, counts and delivers, except for what it
counts as lost and for the bytes of decoded payloads whose header claims more than their share.  None
does if all fragments are those of encoded blocks. -/
theorem window_size_irrelevant {key : Key} {k n slots slots' size : Nat}
    (created : create key k n slots size = .ok a) (created' : create key k n slots' size = .ok b)
    (calls : List (Arrival × Bool)) :
    (b.run calls).1.map Report.outcome = (a.run calls).1.map Report.outcome ∧
    (b.run calls).1.map (fun r => r.deliveries.map Delivery.outline) =
      (a.run calls).1.map (fun r => r.deliveries.map Delivery.outline) ∧
    (∀ c : Counters, (b.run calls).1.foldl Counters.absorb c =
      { (a.run calls).1.foldl Counters.absorb c with
        lost := ((b.run calls).1.foldl Counters.absorb c).lost }) ∧
    (∀ d ∈ (b.run calls).1.flatMap Report.deliveries, d.recovered = false ∨
      Truthful (own a.code size (a.given calls d.block) d.fragment) →
        d ∈ (a.run calls).1.flatMap Report.deliveries) ∧
    ∀ (t : Transmitter) (payloads : Nat → List Bytes), t.key = key → t.code = a.code →
      (∀ call ∈ calls, ∃ block, t.Sent block (payloads block) call.1) →
        (b.run calls).1.map Report.deliveries = (a.run calls).1.map Report.deliveries := by
  have abreast := abreast_create created created'
  have same := (abreast.run calls).2
  have outcomes := congrArg (List.map Prod.fst) same
  have outlines : (b.run calls).1.map (fun r => r.deliveries.map Delivery.outline) =
      (a.run calls).1.map (fun r => r.deliveries.map Delivery.outline) := by
    have parts := congrArg (List.map fun outline => outline.2.2) same
    rwa [List.map_map, List.map_map] at parts
  rw [List.map_map, List.map_map] at outcomes
  refine ⟨outcomes, outlines, fun c => foldl_absorb same rfl, fun d hd clean => ?_, ?_⟩
  · have total : ((b.run calls).1.flatMap Report.deliveries).map Delivery.outline =
        ((a.run calls).1.flatMap Report.deliveries).map Delivery.outline := by
      rw [List.map_flatMap, List.map_flatMap, List.flatMap_def, List.flatMap_def, outlines]
    have member := List.mem_map_of_mem (f := Delivery.outline) hd
    rw [total] at member
    obtain ⟨d', hd', outline⟩ := List.mem_map.mp member
    rwa [delivery_eq created created' calls hd hd' outline.symm clean]
  · intro t payloads isKey code sent
    refine eq_of_map_eq (f := List.map Delivery.outline) ?_ fun ds hds ds' hds' alike => ?_
    · rw [List.map_map, List.map_map]
      exact outlines
    · obtain ⟨r, hr, rfl⟩ := List.mem_map.mp hds
      obtain ⟨r', hr', rfl⟩ := List.mem_map.mp hds'
      refine eq_of_map_eq alike fun d hd d' hd' outline => ?_
      have here := List.mem_flatMap.mpr ⟨r, hr, hd⟩
      have clean := truthful_of_sent created' isKey (code.trans abreast.code.symm) sent here
      rw [abreast.code, given_eq created created'] at clean
      exact delivery_eq created created' calls here (List.mem_flatMap.mpr ⟨r', hr', hd'⟩) outline
        (.inr clean)

/-- A transmitter with the code of an assembly. -/
def sender (code : ErasureCode) : Transmitter :=
  { boxKey := ⟨Bytes.zeros 32, rfl⟩, epoch := 0, channel := 0, key := ⟨Bytes.zeros 32, rfl⟩, code }

/-- A fragment of an encoded block. -/
def encodedAs (t : Transmitter) (block : Nat) (payloads : List Bytes) (i : Nat) : Intake :=
  ⟨block, i, plainShare t.code (t.dataShares payloads) i, true⟩

def opening : List Bytes := [[], [1, 2, 9]]

/-- A fragment of block 0, and a data and a parity fragment of block 1 as it has been encoded of either
list. -/
def twice (code : ErasureCode) (once again : List Bytes) : List Intake :=
  [encodedAs (sender code) 0 opening 1, encodedAs (sender code) 1 once 0,
    encodedAs (sender code) 1 again 2]

theorem sent_twice {code : ErasureCode} (sound : Sound code) (isK : code.k = 2) (isN : code.n = 3)
    {once again : List Bytes} (few : once.length ≤ 2 ∧ again.length ≤ 2)
    (small : ∀ p ∈ once ++ again, p.length ≤ Limits.payload) :
    ∀ call ∈ sealedCalls ⟨Bytes.zeros 32, rfl⟩ (twice code once again),
      (sender code).Sent 0 opening call.1 ∨ (sender code).Sent 1 once call.1 ∨
        (sender code).Sent 1 again call.1 := by
  have sent (block i : Nat) {payloads : List Bytes} (hb : block ≤ Limits.blockIndex) (hi : i < 3)
      (few : payloads.length ≤ 2) (small : ∀ p ∈ payloads, p.length ≤ Limits.payload) :
      (sender code).Sent block payloads (Packet.sealed ⟨Bytes.zeros 32, rfl⟩ block i
        (encodedAs (sender code) block payloads i).plain) :=
    (Transmitter.sent_iff (t := sender code) sound).mpr
      ⟨⟨hb, few.trans isK.ge, small⟩, i, hi.trans_eq isN.symm, rfl⟩
  simp only [sealedCalls, twice, List.map_cons, List.map_nil, List.forall_mem_cons]
  refine ⟨.inl ?_, .inr (.inl ?_), .inr (.inr ?_), by simp⟩
  · exact sent 0 1 (by decide) (by decide) (by decide) (by decide)
  · exact sent 1 0 (by decide) (by decide) few.1 fun p hp => small p (List.mem_append_left _ hp)
  · exact sent 1 2 (by decide) (by decide) few.2 fun p hp => small p (List.mem_append_right _ hp)

/-- A lost fragment is decoded alike with one slot and with two. -/
theorem window_size_irrelevant_encoded :
    let key : Key := ⟨Bytes.zeros 32, rfl⟩
    let second : List Bytes := [[7, 8], []]
    ∃ a b : Assembly, create key 2 3 1 16 = .ok a ∧ create key 2 3 2 16 = .ok b ∧
      let calls := sealedCalls key (twice a.code second second)
      (a.run calls).1.map Report.deliveries =
        [[], [⟨0, 1, false, [1, 2, 9]⟩, ⟨1, 0, false, [7, 8]⟩], [⟨1, 1, true, []⟩]] ∧
      (b.run calls).1.map Report.deliveries = (a.run calls).1.map Report.deliveries := by
  intro key second
  have holds : ∀ a ∈ (create key 2 3 1 16).toOption, (∀ x ∈ twice a.code second second, x.Fits 3 16) ∧
      (a.takeIn (twice a.code second second)).1.map Report.deliveries =
        [[], [⟨0, 1, false, [1, 2, 9]⟩, ⟨1, 0, false, [7, 8]⟩], [⟨1, 1, true, []⟩]] := by
    decide +kernel
  obtain ⟨a, created, legal, delivers⟩ := create_holds (by decide) holds
  obtain ⟨b, created'⟩ := create_succeeds key (show 1 ≤ 2 by decide) (show 2 ≤ 3 by decide) (by decide)
    (show 1 ≤ 2 by decide) (show 1 ≤ 16 by decide) (by decide)
  obtain ⟨ready, -, -, -, -, isK, isN⟩ := create_ready created
  refine ⟨a, b, created, created', ?_, ?_⟩
  · exact (congrArg (fun result => result.1.map Report.deliveries) (run_takeIn created legal)).trans delivers
  · refine (window_size_irrelevant created created' _).2.2.2.2 (sender a.code)
      (fun block => if block = 0 then opening else second) rfl rfl fun call hc => ?_
    rcases sent_twice ready.sound isK isN (by decide) (by decide) call hc with sent | sent | sent
    · exact ⟨0, sent⟩
    · exact ⟨1, sent⟩
    · exact ⟨1, sent⟩

/-- If a block is encoded twice, a share decoded from fragments of both can claim more bytes than it has.
Its last byte is then what block 0 has left in the only slot, and zero in the second of two. -/
theorem window_size_seen :
    let key : Key := ⟨Bytes.zeros 32, rfl⟩
    let once : List Bytes := [[], []]
    let again : List Bytes := [[7, 8], []]
    ∃ a b : Assembly, create key 2 3 1 16 = .ok a ∧ create key 2 3 2 16 = .ok b ∧
      (sender a.code).key = key ∧ (sender a.code).code = a.code ∧
      (∀ call ∈ sealedCalls key (twice a.code once again),
        ∃ block payloads, (sender a.code).Sent block payloads call.1) ∧
      (a.run (sealedCalls key (twice a.code once again))).1.map Report.deliveries =
        [[], [⟨0, 1, false, [1, 2, 9]⟩, ⟨1, 0, false, []⟩], [⟨1, 1, true, [0x8a, 0x0c, 9]⟩]] ∧
      (b.run (sealedCalls key (twice a.code once again))).1.map Report.deliveries =
        [[], [⟨0, 1, false, [1, 2, 9]⟩, ⟨1, 0, false, []⟩], [⟨1, 1, true, [0x8a, 0x0c, 0]⟩]] := by
  intro key once again
  have holds : ∀ a ∈ (create key 2 3 1 16).toOption, ∀ b ∈ (create key 2 3 2 16).toOption,
      (∀ x ∈ twice a.code once again, x.Fits 3 16) ∧
      (a.takeIn (twice a.code once again)).1.map Report.deliveries =
        [[], [⟨0, 1, false, [1, 2, 9]⟩, ⟨1, 0, false, []⟩], [⟨1, 1, true, [0x8a, 0x0c, 9]⟩]] ∧
      (b.takeIn (twice a.code once again)).1.map Report.deliveries =
        [[], [⟨0, 1, false, [1, 2, 9]⟩, ⟨1, 0, false, []⟩], [⟨1, 1, true, [0x8a, 0x0c, 0]⟩]] := by
    decide +kernel
  obtain ⟨a, created, evaluated⟩ := create_holds (by decide) holds
  obtain ⟨b, created', legal, delivers, delivers'⟩ := create_holds (by decide) evaluated
  obtain ⟨ready, -, -, -, -, isK, isN⟩ := create_ready created
  refine ⟨a, b, created, created', rfl, rfl, fun call hc => ?_, ?_, ?_⟩
  · rcases sent_twice ready.sound isK isN (by decide) (by decide) call hc with sent | sent | sent
    · exact ⟨0, _, sent⟩
    · exact ⟨1, _, sent⟩
    · exact ⟨1, _, sent⟩
  · rw [run_takeIn created legal, delivers]
  · rw [run_takeIn created' legal, delivers']

end Assembly

end AirLink
