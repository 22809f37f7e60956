import Mathlib.Data.List.Range

/-!
# Bitmaps of 32-bit words

A bitmap is a sequence of 32-bit words, of which single bits are tested, set and cleared. What a
search for a bit should find is stated by `IsNext`: the least place from `lo` on with a property, or
`hi` when there is none below it.
-/

namespace Inferno.Common

open Function

/-- The words of a bitmap. -/
abbrev Bitmap := ℕ → BitVec 32

/-! ## Single bits -/

variable (addr : Bitmap)

variable (nr : ℕ)

/-- The bit `nr` of the bitmap. -/
def testBit32 : Bool := (addr (nr / 32)).getLsbD (nr % 32)

/-- The bitmap with the bit `nr` set. -/
def setBit32 : Bitmap :=
  update addr (nr / 32) (addr (nr / 32) ||| BitVec.twoPow 32 (nr % 32))

/-- The bitmap with the bit `nr` cleared. -/
def clearBit32 : Bitmap :=
  update addr (nr / 32) (addr (nr / 32) &&& ~~~BitVec.twoPow 32 (nr % 32))

/-- A bit of a bitmap after one of its words was replaced. -/
theorem testBit32_update (w : ℕ) (v : BitVec 32) (i : ℕ) : testBit32 (update addr w v) i =
      if i / 32 = w then v.getLsbD (i % 32) else testBit32 addr i := by
  unfold testBit32
  split_ifs with h
  · rw [h, update_self]
  · rw [update_of_ne h]

/-- Setting a bit sets this bit and no other. -/
theorem testBit32_setBit32 (nr i : ℕ) :
    testBit32 (setBit32 addr nr) i = (testBit32 addr i || decide (i = nr)) := by
  have hmod : nr % 32 < 32 := Nat.mod_lt _ (by decide)
  rw [setBit32, testBit32_update]
  split_ifs with hword
  · have hiff : nr % 32 = i % 32 ↔ i = nr := by omega
    rw [testBit32, hword]
    simp [hmod, hiff]
  · have hne : i ≠ nr := by
      rintro rfl
      exact hword rfl
    simp [hne]

/-! ## Searches -/

/-- `r` is the first place from `lo` on that has `p`, or `hi` when none below it does. -/
structure IsNext (p : ℕ → Prop) (lo hi r : ℕ) : Prop where
  le : lo ≤ r
  le_hi : r ≤ hi
  /-- No place before it has the property. -/
  before : ∀ i, lo ≤ i → i < r → ¬ p i
  /-- It has the property, unless it is the end. -/
  found : r < hi → p r

/-- The search may start behind places that do not have the property. -/
theorem IsNext.skip {p : ℕ → Prop} {lo mid hi r : ℕ} (hmid : lo ≤ mid)
    (hnone : ∀ i, lo ≤ i → i < mid → ¬ p i) (h : IsNext p mid hi r) : IsNext p lo hi r := by
  refine ⟨hmid.trans h.le, h.le_hi, ?_, h.found⟩
  intro i hlo hi
  by_cases him : i < mid
  · exact hnone i hlo him
  · exact h.before i (Nat.le_of_not_lt him) hi

end Inferno.Common
