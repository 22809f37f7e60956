import Inferno.Common.Bitmap

/-!
# Bit searches

The searches of `include/qemu/bitops.h` and `util/bitops.c` on bitmaps of 32-bit words look at whole
words first, and `find_next_bit32` at groups of four. `isNext_findNextBit32` proves the search right
for bitmaps of whole words. A loop that goes from one set bit to the next then visits the set bits
in order (`setBits_eq`).
-/

namespace Inferno.Bitops

open Common List Nat

/-! ## The searches -/

/-- The number of zeros below the lowest set bit of a word, 32 when there is none. -/
def ctz32 (v : BitVec 32) : ℕ := v.ctz.toNat

/-- The end of the search, at a word of which `size` bits count. -/
def foundFirst (tmp : BitVec 32) (result size : ℕ) : ℕ :=
  let tmp := (tmp.setWidth 64 &&& (BitVec.allOnes 64 >>> (32 - size))).setWidth 32
  if tmp = 0 then result + size else result + ctz32 tmp

/-- The loop over single words, and the end of the search. -/
def wordLoop (addr : Bitmap) : ℕ → ℕ → ℕ → ℕ → ℕ
  | 0, _, result, _ => result
  | fuel + 1, p, result, size =>
    if size ≥ 32 then
      if addr p ≠ 0 then result + ctz32 (addr p)
      else wordLoop addr fuel (p + 1) (result + 32) (size - 32)
    else if size = 0 then result
    else foundFirst (addr p) result size

/-- The loop over groups of four words, and the loop after it. -/
def quadLoop (addr : Bitmap) : ℕ → ℕ → ℕ → ℕ → ℕ
  | 0, _, result, _ => result
  | fuel + 1, p, result, size =>
    if size ≥ 4 * 32 then
      if addr p ≠ 0 then result + ctz32 (addr p)
      else if addr (p + 1) ||| addr (p + 2) ||| addr (p + 3) ≠ 0 then
        wordLoop addr (fuel + 1) p result size
      else quadLoop addr fuel (p + 4) (result + 4 * 32) (size - 4 * 32)
    else wordLoop addr (fuel + 1) p result size

/-- `find_next_bit32`: the next set bit from `offset` on. Every round of the loops takes a word off
the size, which bounds the fuel. -/
def findNextBit32 (addr : Bitmap) (size offset : ℕ) : ℕ :=
  if offset ≥ size then size
  else
    let p := offset / 32
    let result := 32 * p
    let left := size - result
    let offset := offset % 32
    if offset ≠ 0 then
      let tmp := addr p &&& (BitVec.allOnes 32 <<< offset)
      if left < 32 then foundFirst tmp result left
      else if tmp ≠ 0 then result + ctz32 tmp
      else quadLoop addr (size + 1) (p + 1) (result + 32) (left - 32)
    else quadLoop addr (size + 1) p result left

/-- The loop of `find_first_bit32`. -/
def firstLoop (addr : Bitmap) (size : ℕ) : ℕ → ℕ → ℕ
  | 0, _ => size
  | fuel + 1, result =>
    if result < size then
      let tmp := addr (result / 32)
      if tmp ≠ 0 then
        let result := result + ctz32 tmp
        if result < size then result else size
      else firstLoop addr size fuel (result + 32)
    else size

/-- `find_first_bit32`: the first set bit. -/
def findFirstBit32 (addr : Bitmap) (size : ℕ) : ℕ := firstLoop addr size (size + 1) 0

/-! ## What the search finds -/

theorem ctz32_spec {v : BitVec 32} (h : v ≠ 0) :
    ctz32 v < 32 ∧ v.getLsbD (ctz32 v) = true ∧ ∀ i < ctz32 v, v.getLsbD i = false := by
  have hset : v.getLsbD (ctz32 v) = true := BitVec.getLsbD_true_ctz_of_ne_zero h
  refine ⟨BitVec.lt_of_getLsbD hset, hset, ?_⟩
  intro i hi
  exact BitVec.getLsbD_false_of_lt_ctz hi

variable (addr : Bitmap)

/-- The bits of a word are those of the bitmap from `32 * p` on. -/
theorem testBit32_word (p i : ℕ) (hlo : 32 * p ≤ i) (hhi : i < 32 * p + 32) :
    testBit32 addr i = (addr p).getLsbD (i - 32 * p) := by
  have hdiv : i / 32 = p := by omega
  have hmod : i % 32 = i - 32 * p := by omega
  rw [testBit32, hdiv, hmod]

/-- The search ends in a word that has a set bit from `lo` on, if `tmp` has the bits of the word
from `lo` on. -/
theorem isNext_word {p lo hi : ℕ} {tmp : BitVec 32} (hlo : 32 * p ≤ lo) (hhi : 32 * p + 32 ≤ hi)
    (htmp : ∀ i, lo ≤ i → i < 32 * p + 32 → tmp.getLsbD (i - 32 * p) = testBit32 addr i)
    (hlow : ∀ i < lo - 32 * p, tmp.getLsbD i = false) (h : tmp ≠ 0) :
    IsNext (fun i => testBit32 addr i = true) lo hi (32 * p + ctz32 tmp) := by
  obtain ⟨hlt, hset, hclear⟩ := ctz32_spec h
  have hle : lo ≤ 32 * p + ctz32 tmp := by
    by_contra hcon
    rw [hlow _ (by omega)] at hset
    exact Bool.false_ne_true hset
  refine ⟨hle, by omega, ?_, ?_⟩
  · intro i hi hir
    rw [← htmp i hi (by omega), hclear _ (by omega)]
    exact Bool.false_ne_true
  · intro _
    rw [← htmp _ hle (by omega), Nat.add_sub_cancel_left]
    exact hset

theorem isNext_skip_word {p hi r : ℕ} (hzero : addr p = 0)
    (h : IsNext (fun i => testBit32 addr i = true) (32 * (p + 1)) hi r) :
    IsNext (fun i => testBit32 addr i = true) (32 * p) hi r := by
  refine IsNext.skip (by omega) ?_ h
  intro i hlo hhi
  rw [testBit32_word addr p i hlo (by omega), hzero]
  simp

/-- The loop over single words searches `n` words. -/
theorem isNext_wordLoop (n fuel p : ℕ) (hfuel : n < fuel) :
    IsNext (fun i => testBit32 addr i = true) (32 * p) (32 * (p + n))
      (wordLoop addr fuel p (32 * p) (32 * n)) := by
  induction n generalizing fuel p with
  | zero =>
    obtain ⟨fuel, rfl⟩ := Nat.exists_eq_add_of_lt hfuel
    rw [wordLoop, if_neg (by omega), if_pos rfl]
    exact ⟨le_rfl, le_rfl, fun i hlo hi => by omega, fun h => absurd h (lt_irrefl _)⟩
  | succ n ih =>
    obtain ⟨fuel, rfl⟩ := Nat.exists_eq_add_of_lt hfuel
    rw [wordLoop, if_pos (by omega)]
    split_ifs with h
    · refine isNext_word addr le_rfl (by omega) ?_ ?_ h
      · intro i hlo hhi
        exact (testBit32_word addr p i hlo hhi).symm
      · intro i hi
        omega
    · have hrest := ih (n + 1 + fuel) (p + 1) (by omega)
      have h3 : p + (n + 1) = p + 1 + n := by omega
      rw [h3]
      exact isNext_skip_word addr (not_not.mp h) hrest

/-- The loop over groups of four words searches `n` words. -/
theorem isNext_quadLoop (fuel n p : ℕ) (hfuel : n < fuel) :
    IsNext (fun i => testBit32 addr i = true) (32 * p) (32 * (p + n))
      (quadLoop addr fuel p (32 * p) (32 * n)) := by
  induction fuel generalizing n p with
  | zero => omega
  | succ fuel ih =>
    rw [quadLoop]
    split_ifs with hsize hfirst hrest
    · refine isNext_word addr le_rfl (by omega) ?_ ?_ hfirst
      · intro i hlo hhi
        exact (testBit32_word addr p i hlo hhi).symm
      · intro i hi
        omega
    · exact isNext_wordLoop addr n (fuel + 1) p hfuel
    · -- The four words are zero.
      rw [not_not, BitVec.ofNat_eq_ofNat, BitVec.or_eq_zero_iff, BitVec.or_eq_zero_iff] at hrest
      obtain ⟨⟨hone, htwo⟩, hthree⟩ := hrest
      have hnext := ih (n - 4) (p + 4) (by omega)
      have h1 : 32 * n - 4 * 32 = 32 * (n - 4) := by omega
      have h3 : p + n = p + 4 + (n - 4) := by omega
      rw [h1, h3]
      have hfrom3 := isNext_skip_word addr hthree hnext
      have hfrom2 := isNext_skip_word addr htwo hfrom3
      have hfrom1 := isNext_skip_word addr hone hfrom2
      exact isNext_skip_word addr (not_not.mp hfirst) hfrom1
    · exact isNext_wordLoop addr n (fuel + 1) p hfuel

theorem getLsbD_masked (v : BitVec 32) (offset i : ℕ) (hi : i < 32) :
    (v &&& (BitVec.allOnes 32 <<< offset)).getLsbD i = (v.getLsbD i && decide (offset ≤ i)) := by
  simp only [BitVec.getLsbD_and, BitVec.getLsbD_shiftLeft, BitVec.getLsbD_allOnes, hi]
  by_cases hlt : i < offset
  · simp [hlt]
  · have hlt' : i - offset < 32 := by omega
    simp [hlt', Nat.le_of_not_lt hlt]

/-- `find_next_bit32` finds the next set bit of a bitmap of whole words. -/
theorem isNext_findNextBit32 (n offset : ℕ) (h : offset ≤ 32 * n) :
    IsNext (fun i => testBit32 addr i = true) offset (32 * n)
      (findNextBit32 addr (32 * n) offset) := by
  unfold findNextBit32
  by_cases hend : offset ≥ 32 * n
  · rw [if_pos hend, le_antisymm h hend]
    exact ⟨le_rfl, le_rfl, fun i hlo hi => by omega, fun h => absurd h (lt_irrefl _)⟩
  rw [if_neg hend]
  have hleft : 32 * n - 32 * (offset / 32) = 32 * (n - offset / 32) := by omega
  by_cases hoff : offset % 32 = 0
  -- The search starts at a word.
  · have hquad := isNext_quadLoop addr (32 * n + 1) (n - offset / 32) (offset / 32) (by omega)
    have hstart : 32 * (offset / 32) = offset := by omega
    have hstop : offset / 32 + (n - offset / 32) = n := by omega
    rw [if_neg (not_not.mpr hoff), hleft]
    rw [hstop, hstart] at hquad
    rw [hstart]
    exact hquad
  · rw [if_pos hoff, if_neg (by omega)]
    -- The bits of the first word below the offset are masked.
    have hbit := getLsbD_masked (addr (offset / 32)) (offset % 32)
    split_ifs with htmp
    · refine isNext_word addr (by omega) (by omega) ?_ ?_ htmp
      · intro i hlo hhi
        rw [hbit _ (by omega), testBit32_word addr (offset / 32) i (by omega) hhi]
        simp [show offset % 32 ≤ i - 32 * (offset / 32) by omega]
      · intro i hi
        simp [show ¬ offset % 32 ≤ i by omega]
    · have hquad := isNext_quadLoop addr (32 * n + 1) (n - offset / 32 - 1) (offset / 32 + 1)
        (by omega)
      have hsize : 32 * (n - offset / 32) - 32 = 32 * (n - offset / 32 - 1) := by omega
      have hstop : offset / 32 + 1 + (n - offset / 32 - 1) = n := by omega
      rw [hleft, hsize]
      rw [hstop] at hquad
      refine IsNext.skip (by omega) ?_ hquad
      intro i hlo hhi
      have hzero := hbit (i - 32 * (offset / 32)) (by omega)
      rw [not_not.mp htmp] at hzero
      rw [testBit32_word addr (offset / 32) i (by omega) (by omega)]
      intro hset
      rw [hset] at hzero
      simp [show offset % 32 ≤ i - 32 * (offset / 32) by omega] at hzero

/-- `find_first_bit32` stops at the first word when that has a set bit. -/
theorem findFirstBit32_word (size : ℕ) (hpos : 0 < size) (h : addr 0 ≠ 0) :
    findFirstBit32 addr size = min (ctz32 (addr 0)) size := by
  rw [findFirstBit32, firstLoop]
  dsimp only
  rw [Nat.zero_add]
  split_ifs with hlt
  · exact (min_eq_left hlt.le).symm
  · exact (min_eq_right (Nat.le_of_not_lt hlt)).symm

/-! ## Visiting the set bits -/

/-- The places that a loop visits which starts at `start` and goes on behind each place found. -/
def bitsFrom (addr : Bitmap) (size : ℕ) : ℕ → ℕ → List ℕ
  | 0, _ => []
  | fuel + 1, start =>
    let i := findNextBit32 addr size start
    if i < size then i :: bitsFrom addr size fuel (i + 1) else []

/-- The places that a loop over all set bits visits. -/
def setBits (addr : Bitmap) (size : ℕ) : List ℕ := bitsFrom addr size size 0

/-- From `start` on, the set bits are visited in order. -/
theorem bitsFrom_eq (n fuel start : ℕ) (hstart : start ≤ 32 * n) (hfuel : 32 * n ≤ start + fuel) :
    bitsFrom addr (32 * n) fuel start =
      (range' start (32 * n - start)).filter fun i => testBit32 addr i := by
  induction fuel generalizing start with
  | zero =>
    have hlen : 32 * n - start = 0 := by omega
    rw [hlen]
    rfl
  | succ fuel ih =>
    obtain ⟨hle, hhi, hbefore, hfound⟩ := isNext_findNextBit32 addr n start hstart
    rw [bitsFrom]
    generalize findNextBit32 addr (32 * n) start = r at *
    -- Nothing before the place found counts; the rest is what the loop visits behind it.
    have hskip : (range' start (r - start)).filter (fun i => testBit32 addr i) = [] := by
      rw [filter_eq_nil_iff]
      intro i hi
      obtain ⟨hlo, hup⟩ := mem_range'_1.mp hi
      exact hbefore i hlo (by omega)
    split_ifs with hr
    · have hsplit : 32 * n - start = (r - start) + (32 * n - r - 1 + 1) := by omega
      rw [ih (r + 1) (by omega) (by omega), hsplit, ← range'_append_1, filter_append,
        hskip, nil_append, Nat.add_sub_cancel' hle, range'_succ,
        filter_cons_of_pos (hfound hr), Nat.sub_sub]
    · have hend : r = 32 * n := by omega
      rw [← hend, hskip]

theorem setBits_eq (n : ℕ) :
    setBits addr (32 * n) = (range (32 * n)).filter fun i => testBit32 addr i := by
  rw [setBits, bitsFrom_eq addr n _ 0 (zero_le _) (by omega), Nat.sub_zero, range_eq_range']

end Inferno.Bitops
