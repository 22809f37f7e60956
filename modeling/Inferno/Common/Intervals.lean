import Mathlib.Data.List.Basic

/-!
# Stacks of intervals

An interval `[addr, addr + size)` of addresses is given by its start and its size. Intervals that
are placed one below the other, each ending no higher than the one before it starts, form a stack:
they are pairwise disjoint, and all of them lie between the first bound and the start of the last.
-/

namespace Inferno.Common

/-- The addresses `[addr, addr + size)`. -/
structure Interval where
  addr : ℕ
  size : ℕ
  deriving DecidableEq

namespace Interval

/-- The address is in the interval. -/
def Mem (r : Interval) (a : ℕ) : Prop := r.addr ≤ a ∧ a < r.addr + r.size

/-- The two intervals have no address in common. -/
def Disjoint (r s : Interval) : Prop := ∀ a, ¬ (r.Mem a ∧ s.Mem a)

/-- The interval lies in `[lo, hi)`. -/
def Within (lo hi : ℕ) (r : Interval) : Prop := lo ≤ r.addr ∧ r.addr + r.size ≤ hi

instance (lo hi : ℕ) (r : Interval) : Decidable (Within lo hi r) :=
  inferInstanceAs (Decidable (_ ∧ _))

variable {r s : Interval}

/-- An interval that ends below the start of another one is disjoint from it. -/
theorem disjoint_of_le (h : r.addr + r.size ≤ s.addr) : r.Disjoint s := by
  rintro a ⟨hr, hs⟩
  have hend := hr.2
  have hstart := hs.1
  omega

/-- Being disjoint is symmetric. -/
theorem Disjoint.symm (h : r.Disjoint s) : s.Disjoint r := by
  rintro a ⟨hs, hr⟩
  exact h a ⟨hr, hs⟩

/-- Two nonempty intervals that start at the same address are not disjoint. -/
theorem not_disjoint_of_addr_eq (haddr : r.addr = s.addr) (hr : 0 < r.size) (hs : 0 < s.size) :
    ¬ r.Disjoint s := by
  intro h
  refine h r.addr ⟨⟨Nat.le_refl _, by omega⟩, ⟨by omega, by omega⟩⟩

end Interval

/-- The intervals are placed one below the other, the first of them below `hi`. -/
def Stacked : ℕ → List Interval → Prop
  | _, [] => True
  | hi, r :: rest => r.addr + r.size ≤ hi ∧ Stacked r.addr rest

/-- Where the last interval of a stack starts, `hi` for the empty stack. -/
def bottom : ℕ → List Interval → ℕ
  | hi, [] => hi
  | _, r :: rest => bottom r.addr rest

variable {rs : List Interval}

section

variable {hi : ℕ} (h : Stacked hi rs)

include h

/-- The bottom of a stack is not above its bound. -/
theorem Stacked.bottom_le : bottom hi rs ≤ hi := by
  induction rs generalizing hi with
  | nil => exact Nat.le_refl _
  | cons r rest ih =>
    have hrest := ih h.2
    have hr := h.1
    rw [bottom]
    omega

/-- Every interval of a stack lies between its bottom and its bound. -/
theorem Stacked.within : ∀ r ∈ rs, r.Within (bottom hi rs) hi := by
  induction rs generalizing hi with
  | nil => simp
  | cons r rest ih =>
    obtain ⟨hr, hrest⟩ := h
    have hlow := hrest.bottom_le
    intro q hq
    rcases List.mem_cons.mp hq with rfl | hq
    · exact ⟨hlow, hr⟩
    · obtain ⟨h1, h2⟩ := ih hrest q hq
      exact ⟨h1, by omega⟩

/-- The intervals of a stack are pairwise disjoint. -/
theorem Stacked.pairwise : rs.Pairwise Interval.Disjoint := by
  induction rs generalizing hi with
  | nil => exact List.Pairwise.nil
  | cons r rest ih =>
    obtain ⟨-, hrest⟩ := h
    refine List.pairwise_cons.mpr ⟨?_, ih hrest⟩
    intro q hq
    exact (Interval.disjoint_of_le (hrest.within q hq).2).symm

end

end Inferno.Common
