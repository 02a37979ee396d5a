import AirLink.Proofs.Erasure

/-! # Recovery from every pattern of losses

A receiver that holds `k` of the shares puts each data share at its own place and fills the places
of the lost ones with parity shares in ascending order.  Whatever the losses, decoding then gives
exactly what was lost.
-/

namespace AirLink.ErasureCode

/-- The shares for some places: each place takes its own share where that is present, and otherwise
the next of the spare ones. -/
def fillIn (present : Nat → Bool) : List Nat → List Nat → List Nat
  | [], _ => []
  | i :: places, spare =>
    if present i then i :: fillIn present places spare
    else match spare with
      | [] => []
      | p :: spare => p :: fillIn present places spare

variable {present : Nat → Bool} {places spare : List Nat}

theorem mem_fillIn {share : Nat} (h : share ∈ fillIn present places spare) :
    share ∈ places ∨ share ∈ spare := by
  fun_induction fillIn present places spare with
  | case1 => simp at h
  | case2 i places spare hi ih =>
      rcases List.mem_cons.mp h with rfl | h
      · exact .inl (List.mem_cons_self ..)
      · exact (ih h).imp_left (List.mem_cons_of_mem _)
  | case3 => simp at h
  | case4 i places hi p spare ih =>
      rcases List.mem_cons.mp h with rfl | h
      · exact .inr (List.mem_cons_self ..)
      · exact (ih h).imp (List.mem_cons_of_mem _) (List.mem_cons_of_mem _)

theorem nodup_fillIn (hp : places.Nodup) (hs : spare.Nodup) (apart : ∀ p ∈ spare, p ∉ places) :
    (fillIn present places spare).Nodup := by
  fun_induction fillIn present places spare with
  | case1 => exact List.nodup_nil
  | case2 i places spare hi ih =>
      obtain ⟨fresh, hp⟩ := List.nodup_cons.mp hp
      refine List.nodup_cons.mpr ⟨fun again => ?_, ih hp hs fun p h member =>
        apart p h (List.mem_cons_of_mem _ member)⟩
      rcases mem_fillIn again with again | again
      · exact fresh again
      · exact apart i again (List.mem_cons_self ..)
  | case3 => exact List.nodup_nil
  | case4 i places hi p spare ih =>
      obtain ⟨fresh, hs⟩ := List.nodup_cons.mp hs
      refine List.nodup_cons.mpr ⟨fun again => ?_, ih (List.nodup_cons.mp hp).2 hs fun q h member =>
        apart q (List.mem_cons_of_mem _ h) (List.mem_cons_of_mem _ member)⟩
      rcases mem_fillIn again with again | again
      · exact apart p (List.mem_cons_self ..) (List.mem_cons_of_mem _ again)
      · exact fresh again

theorem forall₂_fillIn (enough : (places.filter (!present ·)).length ≤ spare.length) :
    List.Forall₂ (fun i share => if present i then share = i else share ∈ spare) places
      (fillIn present places spare) := by
  fun_induction fillIn present places spare with
  | case1 => exact .nil
  | case2 i places spare hi ih => exact .cons (by simp [hi]) (ih (by simpa [hi] using enough))
  | case3 i places hi => simp [hi] at enough
  | case4 i places hi p spare ih =>
      refine .cons (by simp [hi]) ((ih (by simpa [hi] using enough)).imp ?_)
      intro j share h
      split_ifs at h ⊢
      · exact h
      · exact List.mem_cons_of_mem _ h

variable {code : ErasureCode}

theorem length_fillIn (enough : (places.filter (!present ·)).length ≤ spare.length) :
    (fillIn present places spare).length = places.length :=
  (forall₂_fillIn enough).length_eq.symm

theorem getD_fillIn {k i : Nat}
    (enough : ((List.range k).filter (!present ·)).length ≤ spare.length) (hi : i < k) :
    if present i then (fillIn present (List.range k) spare).getD i 0 = i
    else (fillIn present (List.range k) spare).getD i 0 ∈ spare := by
  have inside : i < (fillIn present (List.range k) spare).length := by
    rw [length_fillIn enough, List.length_range]
    exact hi
  have here := (forall₂_fillIn enough).get (i := i) (by simpa using hi) inside
  simpa [List.getD_eq_getElem?_getD, inside] using here

/-- The shares that a receiver decodes from: the data shares that are present, and for the others
the parity shares that are present, in ascending order. -/
def choice (k n : Nat) (present : Nat → Bool) : List Nat :=
  fillIn present (List.range k) (((List.range n).drop k).filter present)

theorem mem_parity {k n p : Nat} :
    p ∈ ((List.range n).drop k).filter present ↔ (k ≤ p ∧ p < n) ∧ present p = true := by
  rw [List.mem_filter, List.mem_drop_iff_getElem]
  constructor
  · rintro ⟨⟨j, hj, rfl⟩, here⟩
    simp only [List.length_range] at hj
    simp only [List.getElem_range]
    exact ⟨by omega, by simpa using here⟩
  · rintro ⟨range, here⟩
    exact ⟨⟨p - k, by simp; omega, by simp; omega⟩, here⟩

/-- Of `k` shares, as many are parity shares as data shares are absent. -/
theorem length_absent {k n : Nat} (le : k ≤ n) (count : ((List.range n).filter present).length = k) :
    ((List.range k).filter (!present ·)).length =
      (((List.range n).drop k).filter present).length := by
  have split : List.range n = List.range k ++ (List.range n).drop k := by
    conv_lhs => rw [← List.take_append_drop k (List.range n)]
    rw [List.take_range, Nat.min_eq_left le]
  rw [split, List.filter_append, List.length_append] at count
  have places := List.length_eq_length_filter_add (l := List.range k) present
  rw [List.length_range] at places
  omega

section choice

variable (sound : Sound code) (count : ((List.range code.n).filter present).length = code.k)

include sound count

theorem getD_choice {i : Nat} (hi : i < code.k) :
    if present i then (choice code.k code.n present).getD i 0 = i
    else code.k ≤ (choice code.k code.n present).getD i 0 := by
  have here := getD_fillIn (length_absent sound.le count).le hi
  split_ifs at here ⊢
  · exact here
  · exact (mem_parity.mp here).1.1

theorem mem_choice {share : Nat} (h : share ∈ choice code.k code.n present) :
    present share = true ∧ share < code.n := by
  have le := sound.le
  obtain ⟨i, hi, rfl⟩ := List.mem_iff_getElem.mp h
  have inside : i < code.k := by
    unfold choice at hi
    rwa [length_fillIn (length_absent le count).le, List.length_range] at hi
  have here := getD_fillIn (length_absent le count).le inside
  change if _ then (choice code.k code.n present).getD i 0 = i
    else (choice code.k code.n present).getD i 0 ∈ _ at here
  rw [List.getD_eq_getElem _ _ hi] at here
  split_ifs at here with own
  · rw [here]
    exact ⟨own, by omega⟩
  · exact ⟨(mem_parity.mp here).2, (mem_parity.mp here).1.2⟩

theorem arranged_choice : Arranged code (choice code.k code.n present) where
  length := (length_fillIn (length_absent sound.le count).le).trans List.length_range
  placed := by
    rw [wellPlaced, List.all_eq_true]
    rintro ⟨share, i⟩ member
    have found := List.mem_zipIdx_iff_getElem?.mp member
    have inside : i < code.k := by
      have := (List.getElem?_eq_some_iff.mp found).1
      unfold choice at this
      rwa [length_fillIn (length_absent sound.le count).le, List.length_range] at this
    have here := getD_choice sound count inside
    have below := (mem_choice sound count (List.mem_of_getElem? found)).2
    simp only [List.getD_eq_getElem?_getD, found, Option.getD_some] at here
    split_ifs at here
    · subst here
      simpa using below
    · simp [below, here]
  nodup := nodup_fillIn List.nodup_range ((List.nodup_range.sublist (List.drop_sublist ..)).filter _)
    fun p hp member => by
      have := (mem_parity.mp hp).1
      have := List.mem_range.mp member
      omega

theorem missing_choice : (code.missing (choice code.k code.n present)).map Fin.val =
    (List.range code.k).filter (!present ·) := by
  conv_rhs => rw [← List.map_coe_finRange_eq_range, List.filter_map]
  congr 1
  apply List.filter_congr
  intro i _
  have here := getD_choice sound count i.isLt
  cases hi : present i with
  | true =>
      rw [if_pos hi] at here
      simp only [here, Function.comp_apply, hi, Bool.not_true, decide_eq_false_iff_not, not_le]
      exact i.isLt
  | false =>
      rw [if_neg (by simp [hi])] at here
      simp only [Function.comp_apply, hi, Bool.not_false, decide_eq_true_eq]
      exact here

end choice

theorem take_overlay {size : Nat} {bs buffer : Bytes} (h : bs.length = size) :
    (Bytes.overlay bs buffer).take size = bs := by
  rw [Bytes.overlay, ← h, List.take_left']
  rfl

theorem length_overlay {size : Nat} {bs buffer : Bytes} (h : bs.length = size)
    (room : size ≤ buffer.length) : (Bytes.overlay bs buffer).length = buffer.length := by
  simp [Bytes.overlay]
  omega

/-- The shares of a block as they are sent: the padded data and behind it what encoding wrote. -/
def sharesOf (size : Nat) (data parity : List Bytes) : List Bytes :=
  data.map (Bytes.fit size) ++ parity

theorem take_sharesOf {size : Nat} {data buffers : List Bytes}
    (length : data.length = code.k) (few : buffers.length = code.n - code.k) {i : Nat}
    (hi : i < code.n) :
    ((sharesOf size data (buffers.mapIdx fun j b =>
      Bytes.overlay (code.share size data (code.k + j)) b)).getD i []).take size =
      code.share size data i := by
  unfold sharesOf
  by_cases own : i < code.k
  · have inside : i < data.length := by rw [length]; exact own
    rw [List.getD_append _ _ _ _ (by simpa using inside), share_data length own]
    simp [List.getD_eq_getElem?_getD, inside, List.take_of_length_le, Bytes.length_fit]
  · have behind : data.length ≤ i := by omega
    have inside : i - data.length < buffers.length := by omega
    rw [List.getD_append_right _ _ _ _ (by simpa using behind)]
    simp only [List.length_map, List.getD_eq_getElem?_getD, List.getElem?_mapIdx,
      List.getElem?_eq_getElem inside, Option.map_some, Option.getD_some]
    rw [take_overlay (length_share ..), show code.k + (i - data.length) = i by omega]

theorem le_length_sharesOf {size : Nat} {data parity : List Bytes}
    (room : ∀ b ∈ parity, size ≤ b.length) {i : Nat} (hi : i < data.length + parity.length) :
    size ≤ ((sharesOf size data parity).getD i []).length := by
  have inside : i < (sharesOf size data parity).length := by simpa [sharesOf] using hi
  have all : ∀ b ∈ sharesOf size data parity, size ≤ b.length := by
    intro b hb
    rcases List.mem_append.mp hb with hb | hb
    · obtain ⟨share, -, rfl⟩ := List.mem_map.mp hb
      exact (Bytes.length_fit ..).ge
    · exact room b hb
  rw [List.getD_eq_getElem _ _ inside]
  exact all _ (List.getElem_mem inside)

theorem length_present {n : Nat} {present : Finset Nat} (inside : ∀ i ∈ present, i < n) :
    ((List.range n).filter (· ∈ present)).length = present.card := by
  rw [← List.toFinset_card_of_nodup (List.nodup_range.filter _)]
  congr 1
  ext i
  simpa using inside i

/-- A code for any numbers of shares can be made, and whichever `k` shares of some data arrive, the
data shares that are not among them come out of decoding, padded to the length of the shares.  The
parity shares may lie in longer buffers, and so may what is decoded; behind the share a buffer stays
as it was. -/
theorem recovers_every_loss (k n : Nat) (hk : 1 ≤ k) (hkn : k ≤ n) (hn : n ≤ 255) :
    ∃ code, create k n = .ok code ∧ code.k = k ∧ code.n = n ∧
    ∀ (size : Nat) (data : List Bytes) (present : Finset Nat) (parityBuffers buffers : List Bytes),
      data.length = k → (∀ share ∈ data, share.length ≤ size) →
      (∀ i ∈ present, i < n) → present.card = k →
      parityBuffers.length = n - k → (∀ b ∈ parityBuffers, size ≤ b.length) →
      buffers.length = ((List.range k).filter (· ∉ present)).length →
      (∀ b ∈ buffers, size ≤ b.length) →
      ∃ parity, code.encode data parityBuffers size = .ok parity ∧ parity.length = n - k ∧
        code.decode
          ((choice k n (· ∈ present)).map fun i => (sharesOf size data parity).getD i [])
          (choice k n (· ∈ present)) buffers size =
          .ok (List.zipWith (fun i buffer => Bytes.overlay (Bytes.fit size (data.getD i [])) buffer)
            ((List.range k).filter (· ∉ present)) buffers) := by
  obtain ⟨code, made, rfl, rfl, sound⟩ := create_ok hk hkn hn
  refine ⟨code, made, rfl, rfl, ?_⟩
  intro size data present parityBuffers buffers length short inside card parityLength parityRoom
    absentLength room
  have count := (length_present inside).trans card
  have arranged := arranged_choice sound count
  have absent : (List.range code.k).filter (· ∉ present) =
      (code.missing (choice code.k code.n (· ∈ present))).map Fin.val := by
    rw [missing_choice sound count]
    simp only [decide_not]
  have written : ∀ b ∈ parityBuffers.mapIdx fun j b =>
      Bytes.overlay (code.share size data (code.k + j)) b, size ≤ b.length := by
    intro b hb
    obtain ⟨j, hj, rfl⟩ := List.mem_mapIdx.mp hb
    have long := parityRoom _ (List.getElem_mem hj)
    rwa [length_overlay (length_share ..) long]
  refine ⟨_, encode_ok sound length parityLength.le parityRoom, by simpa using parityLength, ?_⟩
  rw [decode_share sound arranged length (by simpa using arranged.length) ?_ ?_ ?_ room]
  · rw [absent, List.zipWith_map_left]
  · intro b hb
    obtain ⟨i, hi, rfl⟩ := List.mem_map.mp hb
    apply le_length_sharesOf written
    have := arranged.lt hi
    simp only [List.length_mapIdx]
    omega
  · intro i hi
    have place := (arranged.place hi).1
    have here : i < (choice code.k code.n (· ∈ present)).length := by
      rw [arranged.length]
      exact hi
    rw [List.getD_eq_getElem _ _ (by simpa using here), List.getElem_map]
    rw [List.getD_eq_getElem _ _ here] at place ⊢
    exact take_sharesOf length parityLength place
  · rw [absentLength, absent, List.length_map]

/-- Two of four shares, one of them a parity share. -/
theorem recovers_first_of_two : ∃ code, create 2 4 = .ok code ∧
    ∃ parity, code.encode [[1, 2, 3], [4]] [[0, 0, 0], [0, 0, 0]] 3 = .ok parity ∧
      code.decode [parity.getD 1 [], [4, 0, 0]] [3, 1] [[7, 7, 7, 7]] 3 = .ok [[1, 2, 3, 7]] := by
  obtain ⟨code, made, -, -, recovers⟩ :=
    recovers_every_loss 2 4 (by decide) (by decide) (by decide)
  obtain ⟨parity, encoded, length, decoded⟩ :=
    recovers 3 [[1, 2, 3], [4]] {1, 3} [[0, 0, 0], [0, 0, 0]] [[7, 7, 7, 7]]
      (by decide) (by decide) (by decide) (by decide) (by decide) (by decide) (by decide) (by decide)
  refine ⟨code, made, parity, encoded, ?_⟩
  obtain ⟨first, second, rfl⟩ := List.length_eq_two.mp length
  exact decoded

end AirLink.ErasureCode
