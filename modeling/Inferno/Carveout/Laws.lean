import Inferno.Carveout.Records

/-!
# The regions of the allocator

The regions are aligned whatever is asked for. As long as every request fits, that is, as long as
the address it would get in unbounded arithmetic is not below `dram_base`, they form a stack in DRAM
(`regionsFrom_stacked`), and the memory that `carveout_alloc_finalise` leaves ends below the last of
them.

The allocator does not check that a request fits. The first one that does not gets a region below
`dram_base`, or, when the subtraction wraps, one near the top of the address space. The second kind
can lie in DRAM only if everything down to the address 0 was handed out before, and then the size
that `carveout_alloc_finalise` returns covers the region at 0, or the last region starts there too
(`fits_of_sound`).
-/

namespace Inferno.Carveout

open Common DeviceTree List BitVec Nat
open Subtype (val)

/-- A range of DRAM whose end is a 64-bit address, and a power of two to align to. -/
structure Dram where
  base : BitVec 64
  size : BitVec 64
  /-- The logarithm of the alignment. -/
  shift : Fin 64
  size_ne_zero : size ≠ 0
  no_wrap : base.toNat + size.toNat < 2^64

namespace Dram

/-- The alignment of the regions. -/
def alignment (d : Dram) : BitVec 64 := twoPow 64 d.shift

/-- The first address behind DRAM. -/
def top (d : Dram) : ℕ := d.base.toNat + d.size.toNat

end Dram

/-- A node of the device tree before its size is computed, which is when properties are added. -/
structure Draft where
  props : PropTable
  children : List AppleDTNode

/-- The node itself. -/
def Draft.node (n : Draft) : AppleDTNode := .mk n.props n.children false

variable (d : Dram) (carveoutMmap : Option Draft) (sizes : List { s : BitVec 64 // s ≠ 0 })

/-- A new allocator and the requests made of it. -/
def session : Option (List Region × CarveoutAllocator) :=
  (carveoutAllocNew (carveoutMmap.map Draft.node) d.base d.size d.alignment).bind
    (carveoutAllocAll · (sizes.map val))

def Region.interval (r : Region) : Interval := ⟨r.addr.toNat, r.size.toNat⟩

/-- The regions lie in `[lo, hi)` and overlap neither each other nor the memory that is left. -/
structure Sound (lo hi : ℕ) (left : Interval) (rs : List Region) : Prop where
  contained : ∀ r ∈ rs, r.interval.Within lo hi
  disjoint : rs.Pairwise fun r s => r.interval.Disjoint s.interval
  finalise : ∀ r ∈ rs, left.Disjoint r.interval

/-- What the allocator is for. -/
structure Laws (d : Dram) (carveoutMmap : Option Draft) (rs : List Region)
    (ca : CarveoutAllocator) : Prop where
  aligned : ∀ r ∈ rs, 2 ^ d.shift.val ∣ r.addr.toNat
  /-- They lie in DRAM, and overlap neither each other nor the memory that is left. -/
  sound : Sound d.base.toNat d.top ⟨d.base.toNat, (carveoutAllocFinalise ca).toNat⟩ rs
  /-- With a node, they are recorded in it under numbers of their own, none of which is 55. -/
  recorded : ∀ n, carveoutMmap = some n → ∃ ids node', ca.node = some node' ∧ ids.Nodup ∧
    55 ∉ ids ∧ Records ids rs n.node node'

/-- Every request fits: with the lowest address at `e`, the request of `s` bytes leaves an address
that is not below `lo` once it is rounded down to a multiple of `2^k`. -/
def Fits (lo k : ℕ) : ℕ → List ℕ → Prop
  | _, [] => True
  | e, s :: ss => s ≤ e ∧ lo ≤ (e - s) / 2^k * 2^k ∧ Fits lo k ((e - s) / 2^k * 2^k) ss

/-- The memory that is left, when DRAM starts at `lo` and `e` is the lowest address. -/
def leftBelow (lo k e : ℕ) : Interval := ⟨lo, (e - lo) / 2^k * 2^k⟩

/-! ## One request -/

section Step

variable {k : ℕ} (hk : k < 64) {e size : BitVec 64}

include hk

theorem toNat_place (h : size.toNat ≤ e.toNat) : (roundDown (e - size) (twoPow 64 k)).toNat =
      (e.toNat - size.toNat) / 2^k * 2^k := by
  have hsub : (e - size).toNat = e.toNat - size.toNat := by
    rw [toNat_sub]
    omega
  rw [toNat_roundDown hk, hsub]

/-- The address of a request that wraps is less than the alignment below `2^64 + e - size`. -/
theorem lt_place (h : e.toNat < size.toNat) :
    2^64 + e.toNat < (roundDown (e - size) (twoPow 64 k)).toNat + size.toNat + 2^k := by
  have hsub : (e - size).toNat = 2^64 + e.toNat - size.toNat := by
    rw [toNat_sub]
    omega
  have hdiv := lt_div_mul_add (a := (e - size).toNat) (Nat.two_pow_pos k)
  rw [toNat_roundDown hk]
  omega

theorem dvd_place (n : BitVec 64) : 2^k ∣ (roundDown n (twoPow 64 k)).toNat := by
  rw [toNat_roundDown hk]
  exact dvd_mul_left _ _

end Step

/-! ## Requests that fit -/

section Runs

variable {k : ℕ} (hk : k < 64)

theorem toNat_lowest (e : BitVec 64) (rs : List Region) :
    (lowest e rs).toNat = bottom e.toNat (rs.map Region.interval) := by
  induction rs generalizing e with
  | nil => rfl
  | cons r rs ih => exact ih r.addr

include hk

theorem regionsFrom_aligned (e : BitVec 64) {sizes : List (BitVec 64)} :
    ∀ r ∈ regionsFrom (twoPow 64 k) e sizes, 2^k ∣ r.addr.toNat := by
  induction sizes generalizing e with
  | nil => simp [regionsFrom]
  | cons size sizes ih =>
    intro r hr
    rcases mem_cons.mp hr with rfl | hr
    · exact dvd_place hk _
    · exact ih _ r hr

section

variable {lo : ℕ} (e : BitVec 64) (sizes : List (BitVec 64)) (hlo : lo ≤ e.toNat)
  (h : Fits lo k e.toNat (sizes.map BitVec.toNat))

include hlo h

/-- Requests that fit get a stack of regions whose bottom is not below `lo`. -/
theorem regionsFrom_stacked :
    Stacked e.toNat ((regionsFrom (twoPow 64 k) e sizes).map Region.interval) ∧
      lo ≤ bottom e.toNat ((regionsFrom (twoPow 64 k) e sizes).map Region.interval) := by
  induction sizes generalizing e with
  | nil => exact ⟨trivial, hlo⟩
  | cons size sizes ih =>
    obtain ⟨hle, hbase, hrest⟩ := h
    have haddr := toNat_place hk hle
    rw [← haddr] at hbase hrest
    obtain ⟨hstack, hbottom⟩ := ih _ hbase hrest
    refine ⟨⟨?_, hstack⟩, hbottom⟩
    -- Rounding down moves the region away from the one before.
    show (roundDown (e - size) _).toNat + size.toNat ≤ e.toNat
    have hdiv := div_mul_le_self (e.toNat - size.toNat) (2^k)
    omega

theorem sound_of_fits : Sound lo e.toNat
      (leftBelow lo k (lowest e (regionsFrom (twoPow 64 k) e sizes)).toNat)
      (regionsFrom (twoPow 64 k) e sizes) := by
  obtain ⟨hstack, hbottom⟩ := regionsFrom_stacked hk e sizes hlo h
  have hwithin : ∀ r ∈ regionsFrom (twoPow 64 k) e sizes, r.interval.Within _ _ :=
    fun r hr => hstack.within r.interval (mem_map_of_mem hr)
  refine ⟨?_, pairwise_map.mp hstack.pairwise, ?_⟩
  · intro r hr
    obtain ⟨hlow, hhigh⟩ := hwithin r hr
    exact ⟨le_trans hbottom hlow, hhigh⟩
  · -- What is left ends at the bottom of the stack.
    intro r hr
    apply Interval.disjoint_of_le
    rw [toNat_lowest, leftBelow]
    have hlow := (hwithin r hr).1
    have hdiv := div_mul_le_self
      (bottom e.toNat ((regionsFrom (twoPow 64 k) e sizes).map Region.interval) - lo) (2^k)
    dsimp only
    omega

end

omit hk in
/-- After at least one request, some region starts at the lowest address. -/
theorem exists_region_lowest (alignment e size : BitVec 64) (sizes : List (BitVec 64)) :
    ∃ r ∈ regionsFrom alignment e (size :: sizes), r.size ∈ size :: sizes ∧
      r.addr = lowest e (regionsFrom alignment e (size :: sizes)) := by
  induction sizes generalizing e size with
  | nil => exact ⟨_, mem_cons_self, mem_cons_self, rfl⟩
  | cons next sizes ih =>
    obtain ⟨r, hr, hmem, haddr⟩ := ih (roundDown (e - size) alignment) next
    exact ⟨r, mem_cons_of_mem _ hr, mem_cons_of_mem _ hmem, haddr⟩

/-! ## Requests that do not fit -/

/-- With a region `p` at the address 0, further requests clash with it: the last of them starts
there too, or the memory that is left does. -/
theorem clash_of_zero {p : Region} {e size : BitVec 64} {sizes : List (BitVec 64)}
    (hpos : ∀ s ∈ size :: sizes, s ≠ 0) (hp : p.addr = 0) (hpsize : p.size ≠ 0)
    (hleft : (leftBelow 0 k
      (lowest e (regionsFrom (twoPow 64 k) e (size :: sizes))).toNat).Disjoint p.interval) :
    ∃ r ∈ regionsFrom (twoPow 64 k) e (size :: sizes), ¬ p.interval.Disjoint r.interval := by
  obtain ⟨r, hr, hmem, haddr⟩ := exists_region_lowest (twoPow 64 k) e size sizes
  have hdvd := regionsFrom_aligned hk e r hr
  have hpzero : p.interval.addr = 0 := by simp [Region.interval, hp]
  have hpos' : 0 < p.interval.size := pos_of_ne_zero (toNat_ne.mp hpsize)
  rw [← haddr, leftBelow, Nat.sub_zero, Nat.div_mul_cancel hdvd] at hleft
  refine ⟨r, hr, ?_⟩
  by_cases hzero : r.addr.toNat = 0
  · exact Interval.not_disjoint_of_addr_eq (hpzero.trans hzero.symm) hpos'
      (pos_of_ne_zero (toNat_ne.mp (hpos _ hmem)))
  · exact absurd hleft (Interval.not_disjoint_of_addr_eq hpzero.symm (pos_of_ne_zero hzero) hpos')

/-- Sound regions come only from requests that fit. The lowest address `e` is the top of DRAM, or an
aligned one at which there is a region already, disjoint from the others and from the memory
left. -/
theorem fits_of_sound {lo hi : ℕ} (hhi : hi < 2^64) {left : Interval} (e : BitVec 64)
    (sizes : List (BitVec 64)) (hpos : ∀ s ∈ sizes, s ≠ 0) (hlo : lo ≤ e.toNat)
    (hsound : Sound lo hi left (regionsFrom (twoPow 64 k) e sizes))
    (hleft : left = leftBelow lo k (lowest e (regionsFrom (twoPow 64 k) e sizes)).toNat)
    (hlast : e.toNat = hi ∨ ∃ p : Region, p.addr = e ∧ p.size ≠ 0 ∧ 2^k ∣ e.toNat ∧
      left.Disjoint p.interval ∧
      ∀ r ∈ regionsFrom (twoPow 64 k) e sizes, p.interval.Disjoint r.interval) :
    Fits lo k e.toNat (sizes.map BitVec.toNat) := by
  induction sizes generalizing e with
  | nil => trivial
  | cons size sizes ih =>
    obtain ⟨hcontained, hdisjoint, hfinal⟩ := hsound
    obtain ⟨hfirst, hrest⟩ := pairwise_cons.mp hdisjoint
    obtain ⟨hplo, hphi⟩ := hcontained _ mem_cons_self
    by_cases hle : size.toNat ≤ e.toNat
    · have haddr := toNat_place hk hle
      refine ⟨hle, haddr ▸ hplo, ?_⟩
      rw [← haddr]
      refine ih _ (fun s hs => hpos s (mem_cons_of_mem _ hs)) hplo
        ⟨fun r hr => hcontained r (mem_cons_of_mem _ hr), hrest,
          fun r hr => hfinal r (mem_cons_of_mem _ hr)⟩ hleft (.inr ?_)
      exact ⟨_, rfl, hpos size mem_cons_self, dvd_place hk _, hfinal _ mem_cons_self, hfirst⟩
    · -- The request wraps, and its region ends less than the alignment below `2^64 + e`.
      exfalso
      have hwrap := lt_place hk (Nat.lt_of_not_le hle)
      have hend : (roundDown (e - size) (twoPow 64 k)).toNat + size.toNat ≤ hi := hphi
      rcases hlast with htop | ⟨p, hpaddr, hpsize, hdvd, hpleft, hprs⟩
      · omega
      · have hzero : e.toNat = 0 := eq_zero_of_dvd_of_lt hdvd (by omega)
        have hlo0 : lo = 0 := by omega
        subst hlo0
        obtain ⟨r, hr, hclash⟩ := clash_of_zero hk hpos
          (hpaddr.trans (eq_of_toNat_eq hzero)) hpsize (hleft ▸ hpleft)
        exact hclash (hprs r hr)

end Runs

/-! ## The laws -/

theorem ne_zero_of_mem_val {sizes : List { s : BitVec 64 // s ≠ 0 }} :
    ∀ s ∈ sizes.map val, s ≠ 0 := by
  intro s hs
  obtain ⟨⟨s, hne⟩, -, rfl⟩ := mem_map.mp hs
  exact hne

theorem session_spec : ∃ ca', session d carveoutMmap sizes =
        some (regionsFrom d.alignment (d.base + d.size) (sizes.map val), ca') ∧
      Served ⟨d.base, d.base + d.size, d.alignment, carveoutMmap.map Draft.node, 0⟩
        (sizes.map val) ca' := by
  have halign : d.alignment ≠ 0 := by
    intro h
    have hone := toNat_twoPow 64 d.shift
    rw [← Dram.alignment, h] at hone
    have hlt : 2 ^ d.shift.val < 2^64 := Nat.pow_lt_pow_right (by decide) d.shift.isLt
    have hpos := Nat.two_pow_pos d.shift.val
    simp at hone
    omega
  unfold session carveoutAllocNew
  rw [if_neg d.size_ne_zero, if_neg halign]
  apply carveoutAllocAll_spec
  · intro node hnode
    obtain ⟨n, -, rfl⟩ := Option.map_eq_some_iff.mp hnode
    rfl
  · exact ne_zero_of_mem_val

theorem base_le_lowest {lo hi : ℕ} {alignment e : BitVec 64} {sizes : List (BitVec 64)}
    (hlo : lo ≤ e.toNat) (h : ∀ r ∈ regionsFrom alignment e sizes, r.interval.Within lo hi) :
    lo ≤ (lowest e (regionsFrom alignment e sizes)).toNat := by
  cases sizes with
  | nil => exact hlo
  | cons size sizes =>
    obtain ⟨r, hr, -, haddr⟩ := exists_region_lowest alignment e size sizes
    exact haddr ▸ (h r hr).1

/-- Numbers that do not repeat and are not 55 are fewer than `2^32`. -/
theorem length_lt_of_nodup {ids : List (BitVec 32)} (hnodup : ids.Nodup) (hskip : 55 ∉ ids) :
    ids.length < 2^32 := by
  have hall : ((55 :: ids).map toFin).Nodup :=
    (nodup_cons.mpr ⟨hskip, hnodup⟩).map fun _ _ h => eq_of_toFin_eq h
  have hcard := hall.length_le_card
  rw [Fintype.card_fin, length_map] at hcard
  exact hcard

/-- The allocator meets its laws exactly when every request fits into what is left of DRAM above
`dram_base`, and, with a node, there are fewer than `2^32` of them. -/
theorem carveout_laws_iff :
    (∃ rs ca, session d carveoutMmap sizes = some (rs, ca) ∧ Laws d carveoutMmap rs ca) ↔
      Fits d.base.toNat d.shift d.top (sizes.map fun s => s.val.toNat) ∧
        (carveoutMmap.isSome → sizes.length < 2^32) := by
  have hk := d.shift.isLt
  have htop : (d.base + d.size).toNat = d.top := by
    rw [toNat_add, mod_eq_of_lt d.no_wrap, Dram.top]
  have hlo : d.base.toNat ≤ (d.base + d.size).toNat := by rw [htop, Dram.top]; omega
  obtain ⟨ca, hrun, hserved⟩ := session_spec d carveoutMmap sizes
  have hmap : (sizes.map fun s => s.val.toNat) = (sizes.map val).map BitVec.toNat := by
    rw [map_map]
    rfl
  have hlen : (sizes.map val).length = sizes.length := length_map _
  rw [hrun, hmap, ← htop, ← hlen]
  have hpos : ∀ s ∈ sizes.map val, s ≠ 0 := ne_zero_of_mem_val
  -- What is left is measured from the lowest address, as soon as that is not below DRAM.
  have hfinal : d.base.toNat ≤ ca.endAddr.toNat →
      (⟨d.base.toNat, (carveoutAllocFinalise ca).toNat⟩ : Interval) =
        leftBelow d.base.toNat d.shift ca.endAddr.toNat := by
    intro hle
    rw [carveoutAllocFinalise, hserved.dramBase, hserved.alignment, leftBelow, Dram.alignment,
      toNat_place hk hle]
  generalize sizes.map val = ss at *
  constructor
  · rintro ⟨rs, ca', heq, hlaws⟩
    cases heq
    refine ⟨?_, ?_⟩
    · have hlow := base_le_lowest hlo hlaws.sound.contained
      have hleft := hfinal (hserved.endAddr ▸ hlow)
      rw [hserved.endAddr] at hleft
      exact fits_of_sound hk d.no_wrap _ ss hpos hlo hlaws.sound hleft (.inl htop)
    · intro hsome
      obtain ⟨n, hn⟩ := Option.isSome_iff_exists.mp hsome
      obtain ⟨ids, node', -, hnodup, hskip, hrec⟩ := hlaws.recorded n hn
      rw [← regionsFrom_length d.alignment (d.base + d.size) ss, ← hrec.regions.length_eq]
      exact length_lt_of_nodup hnodup hskip
  · rintro ⟨hfits, hfew⟩
    have hsound := sound_of_fits hk _ ss hlo hfits
    refine ⟨_, ca, rfl, regionsFrom_aligned hk _, ?_, ?_⟩
    · have hlow := base_le_lowest hlo hsound.contained
      rw [hfinal (hserved.endAddr ▸ hlow), hserved.endAddr, ← htop]
      exact hsound
    · intro n hn
      have hnodup := iterate_nextId_nodup (hfew (by rw [hn]; rfl))
      obtain ⟨node', hnode', hrec⟩ := hserved.recorded n.node (by rw [hn]; rfl) hnodup
      exact ⟨_, node', hnode', hnodup, not_mem_iterate_nextId _ (by decide), hrec⟩

/-- DRAM of 64 KiB at `0x800000000`, with regions aligned to 16 KiB. -/
def smallDram : Dram := ⟨0x800000000, 0x10000, ⟨14, by decide⟩, by decide, by decide⟩

/-- A request of 32 KiB and one of 48 KiB from 64 KiB of DRAM both get a region, the second of which
starts below DRAM. -/
theorem carveout_exhausted :
    (session smallDram none [⟨0x8000, by decide⟩, ⟨0xC000, by decide⟩]).map Prod.fst =
        some [⟨0x800008000, 0x8000⟩, ⟨0x7FFFFC000, 0xC000⟩] ∧
      ¬ ∃ rs ca, session smallDram none [⟨0x8000, by decide⟩, ⟨0xC000, by decide⟩] =
        some (rs, ca) ∧ Laws smallDram none rs ca := by
  refine ⟨by decide, ?_⟩
  rintro ⟨rs, ca, hrun, hlaws⟩
  cases hrun
  have hlow := hlaws.sound.contained ⟨0x7FFFFC000, 0xC000⟩ (by decide)
  exact absurd hlow (by decide)

end Inferno.Carveout
