import Inferno.Common.Bytes

/-!
# Numbers with the most significant byte first

The bytes of a number in a field of fixed length are those of `leBytes` in reverse order. A number
can also be written with as few bytes as it needs. Such bytes at the start of a field of zero bytes
are the bytes of the number in that field only if the number is zero or needs all of the field
(`minBytes_append_zeros_iff`); otherwise the field holds the number multiplied by a power of 256
(`ofBe_minBytes_append_zeros`).
-/

namespace Inferno.Common

open List Nat

variable (bs : List UInt8)

/-- The number that bytes stand for, the most significant one first. -/
def ofBe : ℕ := ofLe bs.reverse

variable (k n : ℕ)

/-- The last `k` bytes of a number, the most significant one first. -/
def beBytes : List UInt8 := (leBytes k n).reverse

/-- How many bytes a number needs. -/
def byteCount (n : ℕ) : ℕ := if n = 0 then 0 else Nat.log2 n / 8 + 1

/-- The bytes of a number without leading zero bytes. -/
def minBytes (n : ℕ) : List UInt8 := beBytes (byteCount n) n

/-- The length of the bytes. -/
@[simp]
theorem length_beBytes : (beBytes k n).length = k := by
  rw [beBytes, length_reverse, leBytes_length]

/-- The length of the bytes without leading zero bytes. -/
@[simp]
theorem length_minBytes (n : ℕ) : (minBytes n).length = byteCount n := length_beBytes _ _

/-- The bytes stand for the number as far as they reach. -/
theorem ofBe_beBytes : ofBe (beBytes k n) = n % 256^k := by
  rw [ofBe, beBytes, reverse_reverse, ofLe_leBytes]

/-- Bytes that stand for different numbers are different. -/
theorem beBytes_inj {k m n : ℕ} (hm : m < 256^k) (hn : n < 256^k)
    (h : beBytes k m = beBytes k n) : m = n := by
  calc m = ofBe (beBytes k m) := by rw [ofBe_beBytes, mod_eq_of_lt hm]
    _ = ofBe (beBytes k n) := by rw [h]
    _ = n := by rw [ofBe_beBytes, mod_eq_of_lt hn]

/-- A number needs at most `k` bytes exactly if it is below `256^k`. -/
theorem byteCount_le_iff {n k : ℕ} : byteCount n ≤ k ↔ n < 256^k := by
  have hpow : 256^k = 2^(8 * k) := by rw [Nat.pow_mul]
  unfold byteCount
  split_ifs with h
  · exact iff_of_true (zero_le k) (h ▸ Nat.pow_pos (by decide))
  · rw [hpow, ← log2_lt h]
    omega

/-- Zero bytes before the least significant end of a number. -/
theorem ofLe_zeros_append (k : ℕ) (bs : List UInt8) :
    ofLe (replicate k 0 ++ bs) = 256^k * ofLe bs := by
  induction k with
  | zero => simp
  | succ k ih =>
    rw [replicate_succ, cons_append, ofLe, ih]
    simp only [UInt8.toNat_zero]
    ring

/-- Zero bytes behind a number multiply it. -/
theorem ofBe_append_zeros (k : ℕ) : ofBe (bs ++ replicate k 0) = 256^k * ofBe bs := by
  rw [ofBe, reverse_append, reverse_replicate, ofLe_zeros_append, ofBe]

/-- The bytes of a number at the start of a field stand for the number multiplied. -/
theorem ofBe_minBytes_append_zeros (n k : ℕ) :
    ofBe (minBytes n ++ replicate (k - byteCount n) 0) = 256^(k - byteCount n) * n := by
  have hlt : n < 256^byteCount n := byteCount_le_iff.mp (le_refl _)
  rw [ofBe_append_zeros, minBytes, ofBe_beBytes, mod_eq_of_lt hlt]

/-- A number that is zero or needs all of a field of `k` bytes. -/
def Fills : Prop := n = 0 ∨ 256^(k - 1) ≤ n

/-- The number is read from the start of a field exactly if it is zero or needs all of the field. -/
theorem ofBe_minBytes_eq_iff {n k : ℕ} (hk : 0 < k) (hn : n < 256^k) :
    ofBe (minBytes n ++ replicate (k - byteCount n) 0) = n ↔ Fills k n := by
  have hall : byteCount n ≤ k - 1 ↔ n < 256^(k - 1) := byteCount_le_iff
  rw [ofBe_minBytes_append_zeros]
  constructor
  · intro h
    by_cases hzero : n = 0
    · exact .inl hzero
    · -- The factor is one, so no byte of the field is left.
      have hone : 256^(k - byteCount n) = 1 := (mul_eq_right hzero).mp h
      have hleft : k - byteCount n = 0 := by
        by_contra hne
        exact absurd hone (one_lt_pow hne (by decide)).ne'
      exact .inr (by omega)
  · rintro (rfl | h)
    · exact mul_zero _
    · have hleft : k - byteCount n = 0 := by omega
      rw [hleft, pow_zero, one_mul]

/-- The bytes of a number at the start of a field are its bytes in the field exactly if it is zero
or needs all of the field. -/
theorem minBytes_append_zeros_iff {n k : ℕ} (hk : 0 < k) (hn : n < 256^k) :
    minBytes n ++ replicate (k - byteCount n) 0 = beBytes k n ↔ Fills k n := by
  have hread := ofBe_minBytes_eq_iff hk hn
  constructor
  · intro h
    refine hread.mp ?_
    rw [h, ofBe_beBytes, mod_eq_of_lt hn]
  · rintro (rfl | h)
    · have hzeros : ∀ j, leBytes j 0 = replicate j 0 := by
        intro j
        induction j with
        | zero => rfl
        | succ j ih =>
          rw [leBytes, ih]
          rfl
      rw [minBytes, beBytes, beBytes, hzeros, hzeros, reverse_replicate, reverse_replicate]
      rfl
    · have hcount : byteCount n ≤ k := byteCount_le_iff.mpr hn
      have hall : byteCount n ≤ k - 1 ↔ n < 256^(k - 1) := byteCount_le_iff
      have hfull : byteCount n = k := by omega
      rw [minBytes, hfull, Nat.sub_self, replicate_zero, append_nil]

end Inferno.Common
