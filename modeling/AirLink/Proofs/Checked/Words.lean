import Mathlib.Algebra.Ring.Nat
import Mathlib.Data.List.Basic
import AirLink.Layout

/-! # Checked steps

A checked computation has no result if a number leaves the range of the machine's words, if something
beyond the end of a list is asked for, or if a loop does not end.  These are its steps.  A computation
that is built from them and always has a result cannot go wrong in any of these ways.
-/

namespace AirLink.Checked

def add (a b : Nat) : Option Nat := if a + b < 2 ^ 64 then some (a + b) else none

/-- The sum of two numbers of 32 bits. -/
def add32 (a b : Nat) : Option Nat := if a + b < 2 ^ 32 then some (a + b) else none

/-- The difference of two numbers; words have no negative ones. -/
def sub (a b : Nat) : Option Nat := if b ≤ a then some (a - b) else none

def mul (a b : Nat) : Option Nat := if a * b < 2 ^ 64 then some (a * b) else none

def mod (a b : Nat) : Option Nat := if b = 0 then none else some (a % b)

variable {α β : Type}

/-- The elements from one place up to another, which may be the end of the list. -/
def slice (xs : List α) (start stop : Nat) : Option (List α) :=
  if start ≤ stop ∧ stop ≤ xs.length then some ((xs.take stop).drop start) else none

/-- The first so many elements and the others. -/
def split (n : Nat) (xs : List α) : Option (List α × List α) :=
  if n ≤ xs.length then some (xs.take n, xs.drop n) else none

/-- The list with another element at a place. -/
def put (xs : List α) (i : Nat) (x : α) : Option (List α) :=
  if i < xs.length then some (xs.set i x) else none

/-- The list with other elements, as many, between two places. -/
def blit (xs : List α) (start stop : Nat) (ys : List α) : Option (List α) :=
  if start ≤ stop ∧ stop ≤ xs.length ∧ ys.length = stop - start then
    some (xs.take start ++ ys ++ xs.drop stop)
  else none

theorem add_eq {a b : Nat} (h : a + b < 2 ^ 64) : add a b = some (a + b) := if_pos h

theorem add32_eq {a b : Nat} (h : a + b < 2 ^ 32) : add32 a b = some (a + b) := if_pos h

theorem sub_eq {a b : Nat} (h : b ≤ a) : sub a b = some (a - b) := if_pos h

theorem mul_eq {a b : Nat} (h : a * b < 2 ^ 64) : mul a b = some (a * b) := if_pos h

theorem mod_eq {a b : Nat} (h : 0 < b) : mod a b = some (a % b) := if_neg (Nat.ne_of_gt h)

theorem slice_eq {xs : List α} {start stop : Nat} (le : start ≤ stop) (inside : stop ≤ xs.length) :
    slice xs start stop = some ((xs.take stop).drop start) := if_pos ⟨le, inside⟩

/-- A slice of so many elements from a place on. -/
theorem slice_add {xs : List α} {i n : Nat} (inside : i + n ≤ xs.length) :
    slice xs i (i + n) = some ((xs.drop i).take n) := by
  rw [slice_eq (Nat.le_add_right ..) inside, List.drop_take, Nat.add_sub_cancel_left]

/-- Everything from a place on. -/
theorem slice_rest {xs : List α} {start : Nat} (inside : start ≤ xs.length) :
    slice xs start xs.length = some (xs.drop start) := by
  rw [slice_eq inside (Nat.le_refl _), List.take_length]

/-- Everything before a place. -/
theorem slice_front {xs : List α} {stop : Nat} (inside : stop ≤ xs.length) :
    slice xs 0 stop = some (xs.take stop) := slice_eq (Nat.zero_le _) inside

theorem split_eq {n : Nat} {xs : List α} (inside : n ≤ xs.length) :
    split n xs = some (xs.take n, xs.drop n) := if_pos inside

theorem put_eq {xs : List α} {i : Nat} (inside : i < xs.length) (x : α) :
    put xs i x = some (xs.set i x) := if_pos inside

theorem blit_eq {xs ys : List α} {start stop : Nat} (le : start ≤ stop) (inside : stop ≤ xs.length)
    (length : ys.length = stop - start) :
    blit xs start stop ys = some (xs.take start ++ ys ++ xs.drop stop) := if_pos ⟨le, inside, length⟩

/-- A step has its result, and the others go on from there. -/
theorem step {x : Option α} {a : α} {rest : α → Option β} {b : β} (here : x = some a)
    (next : rest a = some b) : x >>= rest = some b := by
  rw [here]
  exact next

/-- A check that refuses, and what is done if it does not. -/
theorem check_eq {ε : Type} {c : Prop} [Decidable c] {fault : ε} {x : Option (Except ε α)}
    {y : Except ε α} (passed : ¬c → x = some y) :
    (if c then pure (.error fault) else x) = some (if c then .error fault else y) := by
  by_cases h : c
  · rw [if_pos h, if_pos h]
    rfl
  · rw [if_neg h, if_neg h, passed h]

/-- A loop that makes a list of results has one if every round has. -/
theorem mapM_eq {f : α → Option β} {g : α → β} {xs : List α} (rounds : ∀ x ∈ xs, f x = some (g x)) :
    xs.mapM f = some (xs.map g) := by
  induction xs with
  | nil => rfl
  | cons x xs ih =>
      have rest := ih fun y hy => rounds y (List.mem_cons_of_mem _ hy)
      rw [List.mapM_cons, rounds x (List.mem_cons_self ..), rest]
      rfl

/-- A search has a result if every look has. -/
theorem findM_eq {f : α → Option Bool} {g : α → Bool} {xs : List α}
    (rounds : ∀ x ∈ xs, f x = some (g x)) : xs.findM? f = some (xs.find? g) := by
  induction xs with
  | nil => rfl
  | cons x xs ih =>
      have rest := ih fun y hy => rounds y (List.mem_cons_of_mem _ hy)
      rw [List.findM?, rounds x (List.mem_cons_self ..), List.find?_cons]
      cases g x with
      | true => rfl
      | false => exact rest

/-- A loop of counted rounds, from what the state is before each of them. -/
theorem foldlM_range {f : β → Nat → Option β} (state : Nat → β) (n : Nat)
    (rounds : ∀ i < n, f (state i) i = some (state (i + 1))) :
    (List.range n).foldlM f (state 0) = some (state n) := by
  induction n with
  | zero => rfl
  | succ n ih =>
      have before := ih fun i hi => rounds i (Nat.lt_succ_of_lt hi)
      rw [List.range_succ, List.foldlM_append]
      exact step before (step (rounds n (Nat.lt_succ_self n)) rfl)

end AirLink.Checked
