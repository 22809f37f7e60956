import Mathlib.Data.List.GetD
import Mathlib.Tactic.Ring
import Mathlib.Tactic.NormNum

/-!
# Byte images, stores and little-endian words

Memory is a function from addresses to bytes. A program that fills a buffer is represented by the
list of the stores it performs, in order, so that what it writes and where it writes are separate
from what the buffer held before. `load_applyAll` is the fact that the readers use: when the stores
of a run are pairwise disjoint, each of them is still there in the final image.
-/

namespace Inferno.Common

open List Nat UInt8

/-! ## Little-endian words -/

/-- The `k` low bytes of `n`, least significant first. -/
def leBytes : ℕ → ℕ → List UInt8
  | 0, _ => []
  | k + 1, n => UInt8.ofNat n :: leBytes k (n / 256)

/-- The number whose bytes are given, least significant first. -/
def ofLe : List UInt8 → ℕ
  | [] => 0
  | b :: bs => b.toNat + 256 * ofLe bs

/-- There are `k` bytes. -/
@[simp]
theorem leBytes_length (k n : ℕ) : (leBytes k n).length = k := by
  induction k generalizing n with
  | zero => rfl
  | succ k ih => simp [leBytes, ih]

/-- The bytes of `n` give back `n` modulo `2^(8 k)`. -/
theorem ofLe_leBytes (k n : ℕ) : ofLe (leBytes k n) = n % 256 ^ k := by
  induction k generalizing n with
  | zero => simp [leBytes, ofLe, mod_one]
  | succ k ih =>
    have hb : (ofNat n).toNat = n % 256 := by simp
    rw [leBytes, ofLe, ih, hb, pow_succ, mul_comm (256 ^ k) 256, mod_mul]

/-- The number in a list of bytes is below `256` to its length. -/
theorem ofLe_lt (bs : List UInt8) : ofLe bs < 256 ^ bs.length := by
  induction bs with
  | nil => simp [ofLe]
  | cons b bs ih =>
    have hb := toNat_lt b
    rw [ofLe, length_cons]
    omega

/-- Bytes are known from their number and how many they are. -/
theorem ofLe_inj {as bs : List UInt8} (hlen : as.length = bs.length) (h : ofLe as = ofLe bs) :
    as = bs := by
  induction as generalizing bs with
  | nil => exact (eq_nil_of_length_eq_zero hlen.symm).symm
  | cons a as ih =>
    cases bs with
    | nil => cases hlen
    | cons b bs =>
      have ha := toNat_lt a
      have hb := toNat_lt b
      rw [ofLe, ofLe] at h
      have hhead : a.toNat = b.toNat := by omega
      have htail : ofLe as = ofLe bs := by omega
      rw [toNat.inj hhead, ih (succ.inj hlen) htail]

/-- A word is what its bytes give back. -/
theorem ofNat_ofLe_leBytes {w k : ℕ} (h : 2^w ≤ 256^k) (v : BitVec w) :
    BitVec.ofNat w (ofLe (leBytes k v.toNat)) = v := by
  rw [ofLe_leBytes, mod_eq_of_lt (lt_of_lt_of_le v.isLt h), BitVec.ofNat_toNat,
    BitVec.setWidth_eq]

/-! ## Images and stores -/

/-- A store of `bytes` at the address `off`. -/
structure Store where
  off : ℕ
  bytes : List UInt8
  deriving DecidableEq

namespace Store

section

variable (m : ℕ → UInt8) (w : Store)

/-- The first address behind the store. -/
def stop : ℕ := w.off + w.bytes.length

/-- Where given bytes end. -/
theorem stop_mk (off : ℕ) (bytes : List UInt8) : (⟨off, bytes⟩ : Store).stop = off + bytes.length :=
  rfl

/-- The image after the store. -/
def apply : ℕ → UInt8 := fun a =>
  if w.off ≤ a then w.bytes.getD (a - w.off) (m a) else m a

/-- The store touches no address outside `[lo, hi)`. -/
def Within (lo hi : ℕ) (w : Store) : Prop := lo ≤ w.off ∧ w.stop ≤ hi

/-- The two stores touch no common address. -/
def Disjoint (v w : Store) : Prop := v.stop ≤ w.off ∨ w.stop ≤ v.off

/-- A byte of the store is in the image after it. -/
theorem apply_of_lt (i : ℕ) (hi : i < w.bytes.length) : apply m w (w.off + i) = w.bytes[i] := by
  unfold apply
  rw [if_pos (le_add_right _ _), Nat.add_sub_cancel_left]
  exact getD_eq_getElem _ _ hi

/-- An address that the store does not touch keeps its byte. -/
theorem apply_of_not_mem {a : ℕ} (ha : a < w.off ∨ w.stop ≤ a) : apply m w a = m a := by
  unfold apply
  split_ifs with h
  · unfold stop at ha
    exact getD_eq_default _ _ (by omega)
  · rfl

end

end Store

variable (m : ℕ → UInt8)

section

variable (lo hi : ℕ) (ws : List Store)

/-- The image after a list of stores, performed in order. -/
def applyAll : ℕ → UInt8 := ws.foldl Store.apply m

/-- The `n` bytes at the address `p`. -/
def load (p n : ℕ) : List UInt8 := (range n).map fun i => m (p + i)

/-- `n` bytes are loaded. -/
@[simp]
theorem load_length {p n : ℕ} : (load m p n).length = n := by simp [load]

/-- An address that none of the stores touches keeps its byte. -/
theorem applyAll_of_not_mem (m : ℕ → UInt8) (a : ℕ) (h : ∀ w ∈ ws, a < w.off ∨ w.stop ≤ a) :
    applyAll m ws a = m a := by
  induction ws generalizing m with
  | nil => rfl
  | cons w ws ih =>
    have htail := ih (Store.apply m w) fun v hv => h v (mem_cons_of_mem _ hv)
    exact htail.trans (Store.apply_of_not_mem m w (h w mem_cons_self))

section

variable (hd : ws.Pairwise Store.Disjoint) (m : ℕ → UInt8) (w : Store) (hw : w ∈ ws) (i : ℕ)

include hd hw

/-- Each of a list of pairwise disjoint stores is in the final image. -/
theorem applyAll_of_mem (hi : i < w.bytes.length) : applyAll m ws (w.off + i) = w.bytes[i] := by
  induction ws generalizing m with
  | nil => simp at hw
  | cons v vs ih =>
    obtain ⟨hv, hvs⟩ := pairwise_cons.mp hd
    rcases mem_cons.mp hw with rfl | hw
    · -- The stores after `w` stay away from it.
      have hout : ∀ u ∈ vs, w.off + i < u.off ∨ u.stop ≤ w.off + i := by
        intro u hu
        have := hv u hu
        unfold Store.Disjoint Store.stop at *
        omega
      exact (applyAll_of_not_mem vs _ _ hout).trans (Store.apply_of_lt m w i hi)
    · exact ih hvs _ hw

/-- Loading where one of a list of pairwise disjoint stores was made gives its bytes. -/
theorem load_applyAll : load (applyAll m ws) w.off w.bytes.length = w.bytes := by
  apply ext_getElem (by simp)
  intro i h1 h2
  simp only [load, getElem_map, getElem_range]
  exact applyAll_of_mem ws hd m w hw i h2

end

/-- Fewer bytes loaded from the same address are the first of them. -/
theorem load_take {p n k : ℕ} (h : k ≤ n) : (load m p n).take k = load m p k := by
  unfold load
  rw [← map_take, take_range, min_eq_left h]

/-- Every store of the list can be read back from the image. -/
def Written : Prop :=
  ∀ w ∈ ws, load m w.off w.bytes.length = w.bytes

/-- Two lists of stores can be read back when each can. -/
theorem written_append (vs ws : List Store) : Written m (vs ++ ws) ↔ Written m vs ∧ Written m ws :=
  forall_mem_append

/-- A list of stores can be read back when its first store and the others can. -/
theorem written_cons (w : Store) (ws : List Store) :
    Written m (w :: ws) ↔ load m w.off w.bytes.length = w.bytes ∧ Written m ws :=
  forall_mem_cons

/-- Pairwise disjoint stores can be read back from the image after them. -/
theorem written_applyAll (hd : ws.Pairwise Store.Disjoint) (m : ℕ → UInt8) :
    Written (applyAll m ws) ws := load_applyAll ws hd m

/-! ## Stores confined to an interval -/

/-- The stores are pairwise disjoint and touch no address outside `[lo, hi)`. -/
def Confined : Prop :=
  (∀ w ∈ ws, w.Within lo hi) ∧ ws.Pairwise Store.Disjoint

/-- No store is confined to anything. -/
theorem Confined.nil : Confined lo hi [] := by simp [Confined]

end

/-- One store is confined to an interval that holds it. -/
theorem Confined.singleton {lo hi : ℕ} {w : Store} (h : w.Within lo hi) : Confined lo hi [w] := by
  simpa [Confined] using h

/-- Stores confined to two adjacent intervals are together confined to their union, in either
order. -/
theorem Confined.append {lo mid hi : ℕ} {vs ws : List Store} (h1 : lo ≤ mid) (h2 : mid ≤ hi)
    (hv : Confined lo mid vs) (hw : Confined mid hi ws) :
    Confined lo hi (vs ++ ws) ∧ Confined lo hi (ws ++ vs) := by
  obtain ⟨hv1, hv2⟩ := hv
  obtain ⟨hw1, hw2⟩ := hw
  have hall : ∀ w, w ∈ vs ∨ w ∈ ws → w.Within lo hi := by
    rintro w (hm | hm)
    · have := hv1 w hm
      unfold Store.Within at *
      omega
    · have := hw1 w hm
      unfold Store.Within at *
      omega
  have hcross : ∀ v ∈ vs, ∀ w ∈ ws, v.Disjoint w ∧ w.Disjoint v := by
    intro v hm w hm'
    have h3 := hv1 v hm
    have h4 := hw1 w hm'
    unfold Store.Within Store.Disjoint at *
    omega
  refine ⟨⟨?_, ?_⟩, ⟨?_, ?_⟩⟩
  · intro w hm
    exact hall w (mem_append.mp hm)
  · exact pairwise_append.mpr ⟨hv2, hw2, fun v hm w hm' => (hcross v hm w hm').1⟩
  · intro w hm
    exact hall w (mem_append.mp hm).symm
  · exact pairwise_append.mpr ⟨hw2, hv2, fun w hm v hm' => (hcross v hm' w hm).2⟩

end Inferno.Common
