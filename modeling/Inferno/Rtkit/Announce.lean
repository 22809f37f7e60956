import Inferno.Rtkit.Model
import Mathlib.Data.List.Nodup

/-!
# What a roll call announces

The messages of a roll call announce the endpoints of a table: each registered endpoint once and
nothing else (`Announces`). Since version 11 a message announces endpoints of one block of 32, and
the table is walked in whatever order, a message being queued whenever the block changes. The
invariant of the walk is that the messages queued and the mask at hand announce the endpoints seen
(`V11Loop.Announced`), for any order and even if a block comes up again. Before version 11 there is
one mask with a field of 52 bits, which holds the endpoints below 52 only
(`announces_rollcallV10Msg_iff`).
-/

namespace Inferno.Rtkit

open List Nat
open BitVec (eq_of_getLsbD_eq getLsbD_extractLsb' getLsbD_of_ge getLsbD_or ofBool ofNat
  toNat_ofNat twoPow)

/-! ## Fields of a message -/

variable (m : RollcallV11) (block : ℕ)

theorem getLsbD_field {n : ℕ} {start : ℕ} {value : BitVec n} {i : ℕ} (hi : i < 64) :
    (field start value).getLsbD i = (decide (start ≤ i) && value.getLsbD (i - start)) := by
  have hsub : i - start < 64 := by omega
  unfold field
  rw [BitVec.getLsbD_shiftLeft, BitVec.getLsbD_setWidth]
  simp only [hi, hsub]
  by_cases h : start ≤ i
  · simp [h]
  · simp [h]

theorem getLsbD_mgmtMsg {type : BitVec 4} {fields : BitVec 64} {i : ℕ} (hi : i < 64) :
    (mgmtMsg type fields).getLsbD i =
      (fields.getLsbD i || (decide (52 ≤ i) && type.getLsbD (i - 52))) := by
  rw [mgmtMsg, getLsbD_or, getLsbD_field hi]

theorem mgmtType_mgmtMsg (type : BitVec 4) {fields : BitVec 64}
    (h : ∀ i, 52 ≤ i → i < 64 → fields.getLsbD i = false) :
    (mgmtMsg type fields).extractLsb' 52 4 = type := by
  apply eq_of_getLsbD_eq
  intro i hi
  have h64 : 52 + i < 64 := by omega
  rw [getLsbD_extractLsb', getLsbD_mgmtMsg h64, h _ (by omega) h64]
  simp [hi]

theorem mgmtType_rollcallV10Msg (mask : BitVec 52) :
    mgmtType (rollcallV10Msg mask) = .rollcall := by
  have htype : (rollcallV10Msg mask).extractLsb' 52 4 = 8#4 := by
    refine mgmtType_mgmtMsg 8 fun i hlo hi => ?_
    rw [getLsbD_field hi, Nat.sub_zero, getLsbD_of_ge _ _ hlo, Bool.and_false]
  rw [mgmtType, htype]
  rfl

theorem rollcallV10Msg_mask (mask : BitVec 52) : (rollcallV10Msg mask).extractLsb' 0 52 = mask := by
  apply eq_of_getLsbD_eq
  intro i hi
  have h64 : i < 64 := by omega
  rw [getLsbD_extractLsb', zero_add, rollcallV10Msg, getLsbD_mgmtMsg h64, getLsbD_field h64]
  simp [hi]

theorem RollcallV11.getLsbD_raw {i : ℕ} (hi : i < 52) :
    m.raw.getLsbD i = (m.mask.getLsbD i || (decide (32 ≤ i) && m.block.getLsbD (i - 32)) ||
      (decide (51 ≤ i) && m.last)) := by
  have h64 : i < 64 := by omega
  have h52 : ¬ 52 ≤ i := by omega
  have hlast : (ofBool m.last).getLsbD (i - 51) = m.last := by
    have hzero : i - 51 = 0 := by omega
    rw [hzero]
    simp
  rw [raw, getLsbD_mgmtMsg h64, getLsbD_or, getLsbD_or, getLsbD_field h64,
    getLsbD_field h64, getLsbD_field h64, hlast]
  simp [h52]

theorem RollcallV11.mgmtType_raw : mgmtType m.raw = .rollcall := by
  have htype : m.raw.extractLsb' 52 4 = 8#4 := by
    refine mgmtType_mgmtMsg 8 fun i hlo hi => ?_
    have hmask : m.mask.getLsbD (i - 0) = false := getLsbD_of_ge _ _ (by omega)
    have hblock : m.block.getLsbD (i - 32) = false := getLsbD_of_ge _ _ (by omega)
    have hlast : (ofBool m.last).getLsbD (i - 51) = false :=
      getLsbD_of_ge _ _ (by omega)
    rw [getLsbD_or, getLsbD_or, getLsbD_field hi, getLsbD_field hi,
      getLsbD_field hi, hmask, hblock, hlast]
    simp
  rw [mgmtType, htype]
  rfl

theorem RollcallV11.raw_mask : m.raw.extractLsb' 0 32 = m.mask := by
  apply eq_of_getLsbD_eq
  intro i hi
  have h51 : ¬ 51 ≤ i := by omega
  rw [getLsbD_extractLsb', m.getLsbD_raw (by omega)]
  simp [hi, h51]

theorem RollcallV11.raw_block : m.raw.extractLsb' 32 6 = m.block := by
  apply eq_of_getLsbD_eq
  intro i hi
  have h51 : ¬ 51 ≤ 32 + i := by omega
  rw [getLsbD_extractLsb', m.getLsbD_raw (by omega)]
  simp [hi, h51]

theorem RollcallV11.raw_last : m.raw.getLsbD 51 = m.last := by
  rw [m.getLsbD_raw (by omega)]
  simp

/-! ## Announcements -/

variable (mask : BitVec 32)

def bitsOf : List ℕ := (range 32).filter mask.getLsbD

/-- The endpoints that a block and a mask announce. -/
def announcedBy (block : ℕ) (mask : BitVec 32) : List ℕ :=
  (bitsOf mask).map fun bit => 32 * block + bit

variable (raw : BitVec 64)

/-- The endpoints that a message of version 11 announces. -/
def announced : List ℕ :=
  announcedBy (raw.extractLsb' 32 6).toNat (raw.extractLsb' 0 32)

/-- The end flag of a message of version 11. -/
def isLast : Bool := raw.getLsbD 51

/-- The messages of a roll call announce each of the endpoints once and nothing else: since version
11 in blocks, with the last message marked, before it with the bits of one mask. -/
def Announces (keys : List ℕ) (version : ℕ) (msgs : List (BitVec 64)) : Prop :=
  if 11 ≤ version then
    (msgs.flatMap announced).Perm keys ∧
      ∃ front last, msgs = front ++ [last] ∧ isLast last = true ∧ ∀ m ∈ front, isLast m = false
  else ∃ m, msgs = [m] ∧ ∀ ep, (m.extractLsb' 0 52).getLsbD ep = true ↔ ep ∈ keys

theorem mem_announcedBy (ep : ℕ) :
    ep ∈ announcedBy block mask ↔ ep / 32 = block ∧ mask.getLsbD (ep % 32) = true := by
  simp only [announcedBy, bitsOf, mem_map, mem_filter, mem_range]
  constructor
  · rintro ⟨bit, ⟨hlt, hbit⟩, rfl⟩
    have hdiv : (32 * block + bit) / 32 = block := by omega
    have hmod : (32 * block + bit) % 32 = bit := by omega
    rw [hdiv, hmod]
    exact ⟨rfl, hbit⟩
  · rintro ⟨rfl, hbit⟩
    exact ⟨ep % 32, ⟨mod_lt _ (by decide), hbit⟩, div_add_mod ep 32⟩

theorem nodup_announcedBy : (announcedBy block mask).Nodup := by
  refine List.Nodup.map ?_ (nodup_range.filter _)
  intro a b h
  exact add_left_cancel h

theorem announcedBy_zero : announcedBy block 0 = [] := by
  simp [announcedBy, bitsOf]

theorem announcedBy_or {ep : ℕ} {mask : BitVec 32} (h : mask.getLsbD (ep % 32) = false) :
    (announcedBy (ep / 32) (mask ||| twoPow 32 (ep % 32))).Perm
      (announcedBy (ep / 32) mask ++ [ep]) := by
  have hlt : ep % 32 < 32 := mod_lt _ (by decide)
  have hfresh : ep ∉ announcedBy (ep / 32) mask := by
    rw [mem_announcedBy, h]
    simp
  have hnodup : (announcedBy (ep / 32) mask ++ [ep]).Nodup := by
    rw [← concat_eq_append]
    exact (nodup_announcedBy _ _).concat hfresh
  refine (perm_ext_iff_of_nodup (nodup_announcedBy _ _) hnodup).mpr fun a => ?_
  rw [mem_append, mem_singleton, mem_announcedBy, mem_announcedBy, getLsbD_or,
    BitVec.getLsbD_twoPow]
  simp only [hlt, decide_true, Bool.true_and, Bool.or_eq_true, decide_eq_true_eq]
  -- The bit is that of the endpoint, given the block.
  constructor
  · rintro ⟨hdiv, hold | hnew⟩
    · exact .inl ⟨hdiv, hold⟩
    · right
      omega
  · rintro (⟨hdiv, hold⟩ | rfl)
    · exact ⟨hdiv, .inl hold⟩
    · exact ⟨rfl, .inr rfl⟩

/-! ## The walk of version 11 -/

/-- The messages queued and the mask at hand announce the endpoints seen, and no message is marked
as the last. -/
structure V11Loop.Announced (l : V11Loop) (seen : List ℕ) : Prop where
  /-- Each endpoint seen is announced once. -/
  perm : (l.queue.flatMap (fun m => announcedBy m.block.toNat m.mask) ++
    announcedBy l.last_block l.mask).Perm seen
  /-- No message that is queued is marked. -/
  unmarked : ∀ m ∈ l.queue, m.last = false
  block_lt : l.last_block < 64

theorem V11Loop.Announced.round {l : V11Loop} {seen : List ℕ} (h : l.Announced seen) {ep : ℕ}
    (hep : ep < 256) (hfresh : ep ∉ seen) : (l.round ep).Announced (seen ++ [ep]) := by
  have hblock : ep / 32 < 64 := by omega
  -- A mask of one bit announces the endpoint alone.
  have hone : (announcedBy (ep / 32) (0 ||| twoPow 32 (ep % 32))).Perm [ep] := by
    have hzero : (0 : BitVec 32).getLsbD (ep % 32) = false := BitVec.getLsbD_zero
    have h0 := announcedBy_or hzero
    rwa [announcedBy_zero] at h0
  unfold V11Loop.round
  dsimp only
  split_ifs with hflush
  · refine ⟨?_, ?_, hblock⟩
    · have hmod : (ofNat 6 l.last_block).toNat = l.last_block :=
        (toNat_ofNat _ _).trans (mod_eq_of_lt h.block_lt)
      rw [flatMap_append, flatMap_singleton, hmod]
      exact h.perm.append hone
    · intro m hm
      rcases mem_append.mp hm with hm | hm
      · exact h.unmarked m hm
      · rw [mem_singleton.mp hm]
  · refine ⟨?_, h.unmarked, hblock⟩
    by_cases hmask : l.mask = 0
    · -- Nothing is at hand, so that the block may change.
      have hperm := h.perm
      rw [hmask, announcedBy_zero, append_nil] at hperm
      rw [hmask]
      exact hperm.append hone
    · have hsame : ep / 32 = l.last_block := by
        by_contra hne
        exact hflush ⟨hne, hmask⟩
      -- The bit is not set, or the endpoint had been seen.
      have hbit : l.mask.getLsbD (ep % 32) = false := by
        by_contra hset
        refine hfresh (h.perm.mem_iff.mp (mem_append_right _ ?_))
        exact (mem_announcedBy _ _ _).mpr ⟨hsame, Bool.eq_true_of_not_eq_false hset⟩
      have hperm := h.perm
      rw [← hsame] at hperm
      refine (List.Perm.append_left _ (announcedBy_or hbit)).trans ?_
      rw [← append_assoc]
      exact hperm.append_right [ep]

theorem announced_foldl {keys seen : List ℕ} {l : V11Loop} (h : l.Announced seen)
    (hlt : ∀ ep ∈ keys, ep < 256) (hnodup : (seen ++ keys).Nodup) :
    (keys.foldl V11Loop.round l).Announced (seen ++ keys) := by
  induction keys generalizing seen l with
  | nil => rwa [append_nil]
  | cons ep keys ih =>
    have hfresh : ep ∉ seen := by
      intro hmem
      exact (nodup_append.mp hnodup).2.2 ep hmem ep mem_cons_self rfl
    have hassoc : seen ++ ep :: keys = (seen ++ [ep]) ++ keys := by simp
    rw [hassoc]
    rw [hassoc] at hnodup
    exact ih (h.round (hlt ep mem_cons_self) hfresh)
      (fun a ha => hlt a (mem_cons_of_mem _ ha)) hnodup

/-- The messages of version 11 announce the endpoints, for any order of the table. -/
theorem announces_rollcallV11Msgs {keys : List ℕ} (hlt : ∀ ep ∈ keys, ep < 256)
    (hnodup : keys.Nodup) {version : ℕ} (hversion : 11 ≤ version) :
    Announces keys version ((rollcallV11Msgs keys).map RollcallV11.raw) := by
  have hstart : (⟨[], 0, 0⟩ : V11Loop).Announced [] := by
    refine ⟨?_, nofun, by decide⟩
    exact List.Perm.of_eq (announcedBy_zero 0)
  have hend := announced_foldl hstart hlt hnodup
  have hraw : ∀ m : RollcallV11, announced m.raw = announcedBy m.block.toNat m.mask := by
    intro m
    rw [announced, m.raw_block, m.raw_mask]
  rw [Announces, if_pos hversion, rollcallV11Msgs]
  generalize keys.foldl V11Loop.round ⟨[], 0, 0⟩ = l at hend
  have hmod : (ofNat 6 l.last_block).toNat = l.last_block :=
    (toNat_ofNat _ _).trans (mod_eq_of_lt hend.block_lt)
  constructor
  · rw [flatMap_map]
    simp only [hraw]
    rw [flatMap_append, flatMap_singleton, hmod]
    exact hend.perm
  · refine ⟨l.queue.map RollcallV11.raw, _, map_append, RollcallV11.raw_last _, ?_⟩
    intro raw hraw
    obtain ⟨m, hm, rfl⟩ := mem_map.mp hraw
    exact m.raw_last.trans (hend.unmarked m hm)

/-! ## The mask of version 10 -/

/-- The mask of version 10 has the bits of the endpoints that its field holds. -/
theorem getLsbD_rollcallV10Mask {keys : List ℕ} (i : ℕ) :
    (rollcallV10Mask keys).getLsbD i = true ↔ i < 52 ∧ ∃ ep ∈ keys, ep % 64 = i := by
  have hfold : ∀ mask : BitVec 52,
      (keys.foldl (fun mask ep => mask ||| (bitUll ep).setWidth 52) mask).getLsbD i = true ↔
        mask.getLsbD i = true ∨ (i < 52 ∧ ∃ ep ∈ keys, ep % 64 = i) := by
    induction keys with
    | nil => simp
    | cons ep keys ih =>
      intro mask
      have hmod : ep % 64 < 64 := mod_lt _ (by decide)
      rw [foldl_cons, ih, bitUll]
      simp [hmod, or_assoc, and_or_left]
  rw [rollcallV10Mask, hfold 0]
  simp

theorem announces_rollcallV10Msg_iff (keys : List ℕ) {version : ℕ} (hversion : ¬ 11 ≤ version) :
    Announces keys version [rollcallV10Msg (rollcallV10Mask keys)] ↔ ∀ ep ∈ keys, ep < 52 := by
  have hiff : Announces keys version [rollcallV10Msg (rollcallV10Mask keys)] ↔
      ∀ ep, (rollcallV10Mask keys).getLsbD ep = true ↔ ep ∈ keys := by
    rw [Announces, if_neg hversion]
    constructor
    · rintro ⟨m, hm, h⟩
      rwa [← (cons.inj hm).1, rollcallV10Msg_mask] at h
    · intro h
      refine ⟨_, rfl, ?_⟩
      rwa [rollcallV10Msg_mask]
  rw [hiff]
  constructor
  · intro h ep hep
    exact ((getLsbD_rollcallV10Mask ep).mp ((h ep).mpr hep)).1
  · intro h ep
    rw [getLsbD_rollcallV10Mask]
    constructor
    · rintro ⟨-, ep', hep', rfl⟩
      have hlt := h ep' hep'
      rwa [mod_eq_of_lt (by omega)]
    · intro hep
      have hlt := h ep hep
      exact ⟨hlt, ep, hep, mod_eq_of_lt (by omega)⟩

end Inferno.Rtkit
