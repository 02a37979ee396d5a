import Mathlib
import AirLink.Bytes

/-! # What a history of arrivals is worth

Fragments arrive in any order, some never and some more than once.  What of a block is delivered
depends on its fragments that arrive before the first fragment of a newer block, and on whether there
is such a fragment at all.
-/

namespace AirLink

/-- Fragments in the order of their arrival, each by its block and its place in it. -/
abbrev History := List (Nat × Nat)

namespace History

/-- The fragment arrives before every fragment of a newer block. -/
def arrived (h : History) (b i : Nat) : Bool := (h.takeWhile fun f => f.1 ≤ b).contains (b, i)

/-- A fragment of a newer block arrives. -/
def overtaken (h : History) (b : Nat) : Bool := h.any fun f => b < f.1

/-- How many fragments of a block arrive in time. -/
def count (n : Nat) (h : History) (b : Nat) : Nat := ((List.range n).filter (arrived h b)).length

/-- The data fragments of a block that are passed on: all if `k` fragments arrive in time, else those
that do if a newer block follows, and else those up to the first gap. -/
def passed (k n : Nat) (h : History) (b : Nat) : List Nat :=
  if k ≤ count n h b then List.range k
  else if overtaken h b then (List.range k).filter (arrived h b)
  else (List.range k).takeWhile (arrived h b)

/-- The payloads of a block that are delivered, each with its block and its place. -/
def delivered (k n : Nat) (payloads : Nat → List Bytes) (h : History) (b : Nat) :
    List (Nat × Nat × Bytes) :=
  (passed k n h b).filterMap fun i => (payloads b)[i]?.map fun payload => (b, i, payload)

variable {h : History} {f : Nat × Nat} {b i k n : Nat}

theorem overtaken_iff : overtaken h b = true ↔ ∃ f ∈ h, b < f.1 := by
  simp [overtaken]

theorem not_overtaken (newest : ∀ f ∈ h, f.1 ≤ b) : overtaken h b = false := by
  rw [Bool.eq_false_iff]
  intro behind
  obtain ⟨f, hf, less⟩ := overtaken_iff.mp behind
  exact absurd (newest f hf) (Nat.not_le.mpr less)

theorem le_concat (newest : ∀ g ∈ h, g.1 ≤ b) (le : f.1 ≤ b) : ∀ g ∈ h ++ [f], g.1 ≤ b := by
  intro g hg
  rcases List.mem_append.mp hg with hg | hg
  · exact newest g hg
  · rw [List.mem_singleton.mp hg]
    exact le

theorem overtaken_concat (h : History) (f : Nat × Nat) (b : Nat) :
    overtaken (h ++ [f]) b = (overtaken h b || decide (b < f.1)) := by
  simp [overtaken]

theorem takeWhile_of_overtaken (behind : overtaken h b = true) (f : Nat × Nat) :
    (h ++ [f]).takeWhile (fun f => f.1 ≤ b) = h.takeWhile fun f => f.1 ≤ b := by
  induction h with
  | nil => simp [overtaken] at behind
  | cons g h ih =>
      by_cases first : g.1 ≤ b
      · have rest : overtaken h b = true := by
          simpa [overtaken, Nat.not_lt.mpr first] using behind
        simp only [List.cons_append, List.takeWhile_cons, first, decide_true, if_true, ih rest]
      · simp [first]

theorem takeWhile_of_not_overtaken (behind : overtaken h b = false) :
    h.takeWhile (fun f => f.1 ≤ b) = h := by
  rw [List.takeWhile_eq_self_iff]
  intro f hf
  have := List.any_eq_false.mp behind f hf
  simpa using this

/-- One more arrival counts for its block, unless that has been overtaken. -/
theorem arrived_concat (h : History) (f : Nat × Nat) (b i : Nat) :
    arrived (h ++ [f]) b i = (arrived h b i || !overtaken h b && f == (b, i)) := by
  cases behind : overtaken h b with
  | true =>
      rw [arrived, takeWhile_of_overtaken behind f]
      simp [arrived]
  | false =>
      have all : ∀ g ∈ h, decide (g.1 ≤ b) = true := List.takeWhile_eq_self_iff.mp
        (takeWhile_of_not_overtaken behind)
      rw [arrived, List.takeWhile_append_of_pos all, arrived, takeWhile_of_not_overtaken behind,
        List.contains_eq_mem, List.contains_eq_mem]
      by_cases same : f = (b, i)
      · simp [same]
      · by_cases le : f.1 ≤ b <;> simp [le, same, Ne.symm same]

theorem arrived_concat_of_ne (other : f.1 ≠ b) : arrived (h ++ [f]) b = arrived h b := by
  funext i
  have apart : (f == (b, i)) = false := by
    rw [beq_eq_false_iff_ne]
    exact fun same => other (congrArg Prod.fst same)
  rw [arrived_concat, apart, Bool.and_false, Bool.or_false]

theorem arrived_concat_idle (idle : overtaken h b = true ∨ arrived h b i = true) (x : Nat) :
    arrived (h ++ [(b, i)]) x = arrived h x := by
  funext j
  rw [arrived_concat]
  by_cases here : b = x ∧ i = j
  · obtain ⟨rfl, rfl⟩ := here
    rcases idle with late | again
    · simp [late]
    · simp [again]
  · have other : ((b, i) == (x, j)) = false := by simpa using here
    rw [other, Bool.and_false, Bool.or_false]

theorem mem_of_arrived (here : arrived h b i = true) : (b, i) ∈ h := by
  rw [arrived, List.contains_iff_mem] at here
  exact (List.takeWhile_sublist _).subset here

theorem count_mono (n : Nat) (h : History) (f : Nat × Nat) (b : Nat) :
    count n h b ≤ count n (h ++ [f]) b := by
  refine List.Sublist.length_le (List.monotone_filter_right _ ?_)
  intro i here
  rw [arrived_concat, here, Bool.true_or]

/-- A block of which nothing has arrived is not delivered. -/
theorem delivered_absent (pos : 0 < k) (payloads : Nat → List Bytes)
    (absent : ∀ f ∈ h, f.1 ≠ b) : delivered k n payloads h b = [] := by
  have none : arrived h b = fun _ => false := by
    funext i
    rw [Bool.eq_false_iff]
    exact fun here => absent _ (mem_of_arrived here) rfl
  have few : ¬k ≤ count n h b := by
    simp [count, none]
    omega
  have stop : (List.range k).takeWhile (fun _ => false) = [] := by
    rw [List.takeWhile_eq_nil_iff]
    simp
  rw [delivered, passed, if_neg few, none, stop]
  simp

/-- An arrival changes nothing for another block that it does not overtake first. -/
theorem delivered_concat_of_ne (other : f.1 ≠ b) (known : overtaken h b = true ∨ f.1 < b)
    (payloads : Nat → List Bytes) :
    delivered k n payloads (h ++ [f]) b = delivered k n payloads h b := by
  have behind : overtaken (h ++ [f]) b = overtaken h b := by
    rw [overtaken_concat]
    rcases known with known | known
    · simp [known]
    · simp [Nat.le_of_lt known]
  rw [delivered, delivered, passed, passed, count, count, arrived_concat_of_ne other, behind]

theorem delivered_concat_of_enough (enough : k ≤ count n h b) (f : Nat × Nat)
    (payloads : Nat → List Bytes) :
    delivered k n payloads (h ++ [f]) b = delivered k n payloads h b := by
  have still : k ≤ count n (h ++ [f]) b := enough.trans (count_mono n h f b)
  rw [delivered, delivered, passed, passed, if_pos enough, if_pos still]

/-- An arrival that comes too late, or again, or is not needed, changes nothing. -/
theorem delivered_concat_self (idle : overtaken h b = true ∨ arrived h b i = true ∨ k ≤ count n h b)
    (payloads : Nat → List Bytes) :
    delivered k n payloads (h ++ [(b, i)]) b = delivered k n payloads h b := by
  have behind : overtaken (h ++ [(b, i)]) b = overtaken h b := by simp [overtaken_concat]
  by_cases enough : k ≤ count n h b
  · exact delivered_concat_of_enough enough _ payloads
  · have same : arrived (h ++ [(b, i)]) b = arrived h b :=
      arrived_concat_idle (idle.imp_right fun idle => idle.resolve_right enough) b
    rw [delivered, delivered, passed, passed, count, count, same, behind]

/-- What is added for the last block that counts is added at the end. -/
theorem flatMap_grow {α : Type} {order : List Nat} (ascending : order.Pairwise (· < ·))
    (member : b ∈ order) {before after : Nat → List α} {extra : List α}
    (others : ∀ x, x ≠ b → after x = before x) (here : after b = before b ++ extra)
    (above : ∀ x, b < x → before x = []) :
    order.flatMap after = order.flatMap before ++ extra := by
  obtain ⟨low, high, rfl⟩ := List.append_of_mem member
  rw [List.pairwise_append, List.pairwise_cons] at ascending
  have lower : low.flatMap after = low.flatMap before := by
    refine List.flatMap_congr fun x hx => others x ?_
    exact (ascending.2.2 x hx b (List.mem_cons_self ..)).ne
  have higher : ∀ x ∈ high, after x = [] ∧ before x = [] := by
    intro x hx
    have beyond := ascending.2.1.1 x hx
    exact ⟨(others x beyond.ne').trans (above x beyond), above x beyond⟩
  rw [List.flatMap_append, List.flatMap_append, List.flatMap_cons, List.flatMap_cons, lower, here,
    List.flatMap_eq_nil_iff.mpr fun x hx => (higher x hx).1,
    List.flatMap_eq_nil_iff.mpr fun x hx => (higher x hx).2]
  simp

end History

end AirLink
