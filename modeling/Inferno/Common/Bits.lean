import Mathlib.Algebra.Group.Nat.Defs
import Mathlib.Data.Nat.Basic
import Mathlib.Tactic.ByContra

/-!
# Bit fields of machine words

Fields of a word are read with `extract` and replaced with `deposit`. Both are described bit by bit
(`getLsbD_extract`, `getLsbD_deposit`), which is the form in which the register proofs use them.
The low bits of a masked word are those of the word or zero, according to the low bits of the mask.
Rounding down to a power of two clears the bits below it (`toNat_roundDown`).
-/

namespace Inferno.Common

open BitVec

variable {w : ℕ}

variable {v : BitVec w} (value : BitVec w) {n : ℕ}

/-- A word that is not zero has a bit set. -/
theorem ne_zero_iff_exists_bit : v ≠ 0 ↔ ∃ i, v.getLsbD i = true := by
  constructor
  · intro h
    by_contra hnone
    refine h (eq_of_getLsbD_eq fun i _ => ?_)
    rw [ofNat_eq_ofNat, getLsbD_zero]
    exact Bool.not_eq_true _ ▸ fun hset => hnone ⟨i, hset⟩
  · rintro ⟨i, hi⟩ rfl
    simp at hi

/-- The lowest `len` bits set. -/
def lowMask (w len : ℕ) : BitVec w := allOnes w >>> (w - len)

section

variable (value : BitVec w) (start len : ℕ) (fieldval : BitVec w)

/-- The field of `len` bits at the bit `start`. -/
def extract : BitVec w := (value >>> start) &&& lowMask w len

/-- The word with its field of `len` bits at the bit `start` replaced by the low bits of
`fieldval`. -/
def deposit : BitVec w :=
  let mask := lowMask w len <<< start
  (value &&& ~~~mask) ||| ((fieldval <<< start) &&& mask)

/-- The bits of the mask. -/
theorem getLsbD_lowMask (len i : ℕ) (h : len ≤ w) :
    (lowMask w len).getLsbD i = decide (i < len) := by
  have hiff : w - len + i < w ↔ i < len := by omega
  simp [lowMask, hiff]

/-- The bits of a field. -/
theorem getLsbD_extract (start len i : ℕ) (h : len ≤ w) :
    (extract value start len).getLsbD i = (value.getLsbD (start + i) && decide (i < len)) := by
  rw [extract, getLsbD_and, getLsbD_ushiftRight, getLsbD_lowMask _ _ h]

/-- The bits of a word after one of its fields was replaced. -/
theorem getLsbD_deposit (start len i : ℕ) (h : start + len ≤ w) (hi : i < w) :
    (deposit value start len fieldval).getLsbD i =
      if start ≤ i ∧ i < start + len then fieldval.getLsbD (i - start) else value.getLsbD i := by
  have hmask := getLsbD_lowMask (w := w) len (i - start) (by omega)
  simp only [deposit, getLsbD_or, getLsbD_and, getLsbD_not,
    getLsbD_shiftLeft, hmask, hi]
  by_cases h1 : i < start
  · have h2 : ¬ (start ≤ i ∧ i < start + len) := by omega
    simp [h1, h2]
  · by_cases h2 : i - start < len
    · have h3 : start ≤ i ∧ i < start + len := by omega
      simp [h1, h2, h3]
    · have h3 : ¬ (start ≤ i ∧ i < start + len) := by omega
      simp [h2, h3]

end

/-- A field of one bit is zero when the bit is clear. -/
theorem extract_one_eq_zero_iff (start : ℕ) (h : 1 ≤ w) :
    extract value start 1 = 0 ↔ value.getLsbD start = false := by
  have hbit := getLsbD_extract value start 1 0 h
  constructor
  · intro hzero
    rw [hzero] at hbit
    simpa using hbit.symm
  · intro hclear
    apply eq_of_getLsbD_eq
    intro i hi
    rw [getLsbD_extract _ _ _ _ h]
    rcases Nat.eq_zero_or_pos i with rfl | hpos
    · simpa using hclear
    · simp [Nat.not_lt.mpr hpos]

/-- Replacing a field of one bit by one sets the bit. -/
theorem deposit_one (start : ℕ) (h : start + 1 ≤ w) :
    deposit value start 1 1 = value ||| twoPow w start := by
  apply eq_of_getLsbD_eq
  intro i hi
  rw [getLsbD_deposit _ _ _ _ _ h hi]
  by_cases heq : i = start
  · subst heq
    have hw : 0 < w := by omega
    simp [hw, hi]
  · have hne : ¬ (start ≤ i ∧ i < start + 1) := by omega
    rw [if_neg hne]
    simp [Ne.symm heq]

/-! ## Low bits -/

/-- A mask that has all of the low bits keeps them. -/
theorem setWidth_and_of_allOnes {mask : BitVec w} (h : mask.setWidth n = allOnes n) :
    (v &&& mask).setWidth n = v.setWidth n := by
  rw [setWidth_and, h, and_allOnes]

/-- A mask that has none of the low bits clears them. -/
theorem setWidth_and_of_zero {mask : BitVec w} (h : mask.setWidth n = 0#n) :
    (v &&& mask).setWidth n = 0#n := by
  rw [setWidth_and, h, and_zero]

/-- A word that has none of the low bits adds none. -/
theorem setWidth_or_of_zero {other : BitVec w} (h : other.setWidth n = 0#n) :
    (v ||| other).setWidth n = v.setWidth n := by
  rw [setWidth_or, h, or_zero]

/-- A field inside the low bits follows from them. -/
theorem extractLsb_eq_of_setWidth {v start len : ℕ} {a : BitVec w} {b : BitVec v}
    (hn : start + len ≤ n) (h : a.setWidth n = b.setWidth n) :
    a.extractLsb' start len = b.extractLsb' start len := by
  rw [← extractLsb'_setWidth_of_le hn, h, extractLsb'_setWidth_of_le hn]

/-! ## Rounding -/

/-- The word with the bits below its divisor cleared, for a divisor that is a power of two. -/
def roundDown (n d : BitVec w) : BitVec w := n &&& -d

/-- The bits of the negative of a power of two. -/
theorem getLsbD_neg_twoPow (k i : ℕ) (hk : k < w) :
    (-(twoPow w k)).getLsbD i = (decide (k ≤ i) && decide (i < w)) := by
  simp only [getLsbD_neg, getLsbD_twoPow, hk]
  by_cases hi : i < w <;> by_cases heq : k = i <;> simp [hi, heq] <;> omega

/-- Rounding down to a power of two gives the largest multiple that is not above. -/
theorem toNat_roundDown {n : BitVec w} {k : ℕ} (hk : k < w) :
    (roundDown n (twoPow w k)).toNat = n.toNat / 2^k * 2^k := by
  apply Nat.eq_of_testBit_eq
  intro i
  rw [Nat.testBit_mul_two_pow, Nat.testBit_div_two_pow, testBit_toNat, testBit_toNat,
    roundDown, getLsbD_and, getLsbD_neg_twoPow k i hk]
  by_cases hki : k ≤ i
  · by_cases hi : i < w
    · simp [hki, hi]
    · simp [hki, getLsbD_of_ge n i (by omega)]
  · simp [hki]

end Inferno.Common
