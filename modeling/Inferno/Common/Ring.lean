import Mathlib.Data.List.Range
import Mathlib.Data.Nat.ModEq

/-!
# Ring buffers

A ring buffer is an array with the place of the oldest element and the number of elements; what is
put in goes behind the newest one, and the places wrap at the end of the array. As a queue it is the
list of its elements, the oldest first (`contents`): to put an element in appends it
(`contents_push`), and to take one out takes the first (`contents_pop`).
-/

namespace Inferno.Common

open List Nat

variable {α : Type*}

structure RingBuffer (α : Type*) where
  data : ℕ → α
  capacity : ℕ
  /-- The place of the oldest element. -/
  head : ℕ
  /-- The number of elements. -/
  num : ℕ
  head_lt : head < capacity
  num_le : num ≤ capacity

namespace RingBuffer

variable (r : RingBuffer α)

/-- The elements, the oldest first. -/
def contents : List α :=
  (range r.num).map fun i => r.data ((r.head + i) % r.capacity)

/-- An element is put in. -/
def push (a : α) (h : r.num < r.capacity) : RingBuffer α :=
  { r with
    data := Function.update r.data ((r.head + r.num) % r.capacity) a
    num := r.num + 1
    num_le := h }

/-- The oldest element is taken out. -/
def pop : RingBuffer α :=
  { r with
    head := (r.head + 1) % r.capacity
    num := r.num - 1
    head_lt := mod_lt _ (zero_lt_of_lt r.head_lt)
    num_le := (sub_le _ _).trans r.num_le }

/-- All elements are taken out. -/
def clear : RingBuffer α :=
  { r with
    head := 0
    num := 0
    head_lt := zero_lt_of_lt r.head_lt
    num_le := zero_le _ }

variable (r : RingBuffer α)

/-- There are as many elements as are counted. -/
@[simp]
theorem length_contents : r.contents.length = r.num := by
  rw [contents, length_map, length_range]

/-- A cleared ring has no elements. -/
@[simp]
theorem contents_clear : r.clear.contents = [] := rfl

/-- Two places that are less than the length of the array apart do not meet. -/
theorem place_ne {i j : ℕ} (hij : i < j) (hj : j < r.capacity) :
    (r.head + i) % r.capacity ≠ (r.head + j) % r.capacity := by
  intro heq
  have hmod : i ≡ j [MOD r.capacity] := Nat.ModEq.add_left_cancel' r.head heq
  have hsame := Nat.ModEq.eq_of_lt_of_lt hmod (hij.trans hj) hj
  omega

/-- An element that is put in is behind the others. -/
theorem contents_push (a : α) (h : r.num < r.capacity) :
    (r.push a h).contents = r.contents ++ [a] := by
  have hkept : ∀ i ∈ range r.num,
      Function.update r.data ((r.head + r.num) % r.capacity) a ((r.head + i) % r.capacity) =
        r.data ((r.head + i) % r.capacity) := by
    intro i hi
    exact Function.update_of_ne (r.place_ne (mem_range.mp hi) h) _ _
  show (range (r.num + 1)).map _ = _
  rw [range_succ, contents, ← map_congr_left hkept]
  simp [push]

/-- The element that is taken out is in front of the others. -/
theorem contents_pop (h : 0 < r.num) : r.contents = r.data r.head :: r.pop.contents := by
  obtain ⟨n, hn⟩ := Nat.exists_eq_add_of_lt h
  have hnum : r.num = n + 1 := by omega
  have hnext : ∀ i ∈ range n, r.data ((r.head + (i + 1)) % r.capacity) =
        r.data (((r.head + 1) % r.capacity + i) % r.capacity) := by
    intro i _
    rw [mod_add_mod, add_assoc, add_comm 1]
  have hrest : r.pop.contents =
      (range n).map fun i => r.data ((r.head + (i + 1)) % r.capacity) := by
    rw [contents, map_congr_left hnext]
    simp [pop, hnum]
  rw [hrest, contents, hnum, range_succ_eq_map, map_cons, map_map, add_zero, mod_eq_of_lt r.head_lt]
  rfl

end RingBuffer

end Inferno.Common
