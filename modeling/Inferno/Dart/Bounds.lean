import Inferno.Common.Run
import Inferno.Dart.Frame

/-!
# The array accesses of a translation

A translation replaces the stream by `sid_remap[stream]` and reads `sid_config` at the result; only
the walk, which comes later, compares it with the number of streams. The byte is what the guest
last wrote: a reset makes every stream its own, and afterwards the words of `sid_remap` are changed
by the writes at their own offsets and nothing else (`words_run`). So a translation stays inside
the arrays exactly when the last write to each of the four words has only bytes below sixteen
(`translatesInBounds_iff`).
-/

namespace Inferno.Dart

open Common List BitVec Function Option

/-! ## The property -/

/-- The element that is accessed exists. -/
def Access.InBounds : Access → Prop
  | .sid_remap i => i < maxStreams
  | .sid_config i => i < maxStreams
  | .ttbr sid idx => sid < maxStreams ∧ idx < maxTtbr

/-- Every translation of an address of at most `DART_MAX_VA_BITS` bits, on every stream, accesses
only elements that exist. -/
def TranslatesInBounds (cfg : Config) (regs : Regs) : Prop :=
  ∀ mem stream addr flag, stream < maxStreams → addr.toNat < 2^38 →
    ∀ a ∈ (translate cfg regs mem stream addr flag).accesses, a.InBounds

/-- A register write of the guest, given by the number of the word and the value. -/
def guestWrite (cfg : Config) (regs : Regs) (op : ℕ × BitVec 32) : Regs :=
  (regWrite cfg regs (4 * op.1) op.2).1

/-- The value of the last write to a word, if there is one. -/
def lastWrite (w : ℕ) : List (ℕ × BitVec 32) → Option (BitVec 32)
  | [] => none
  | op :: ops => (lastWrite w ops).or (if op.1 = w then some op.2 else none)

/-! ## `BUSY` -/

variable (cfg : Config)

variable (regs : Regs)

/-- `BUSY` is a bit of `tlb_op`. -/
theorem busy_iff : regs.busy ↔ regs.tlb_op.getLsbD 2 = true := by
  unfold Regs.busy
  rw [ne_eq, extract_one_eq_zero_iff _ _ (by norm_num), Bool.not_eq_false]

/-- Filling `sid_remap` leaves the other registers as they are. -/
theorem foldl_setRemap (js : List ℕ) (regs : Regs) :
    ∃ words, js.foldl (fun regs j => regs.setRemap j (BitVec.ofNat 32 j)) regs =
      { regs with words := words } := by
  induction js generalizing regs with
  | nil => exact ⟨regs.words, rfl⟩
  | cons j js ih =>
    obtain ⟨words, h⟩ := ih (regs.setRemap j (BitVec.ofNat 32 j))
    exact ⟨words, h⟩

/-- A reset clears `tlb_op` and `error_status`. -/
theorem reset_cleared : (regs.reset cfg).tlb_op = 0 ∧ (regs.reset cfg).error_status = 0 := by
  unfold Regs.reset
  obtain ⟨words, h⟩ := foldl_setRemap (range maxStreams) _
  rw [h]
  exact ⟨rfl, rfl⟩

/-- `BUSY` is clear after a reset. -/
theorem not_busy_reset : ¬ (regs.reset cfg).busy := by
  rw [busy_iff, (reset_cleared cfg regs).1]
  decide

/-- The operation that a write to `TLB_OP` starts is finished when the write returns. -/
theorem not_busy_regWrite {addr : ℕ} {val : BitVec 32} (h : ¬ regs.busy) :
    ¬ (regWrite cfg regs addr val).1.busy := by
  have hclear : ∀ v : BitVec 32, (v &&& ~~~4).getLsbD 2 = false := by
    intro v
    simp
  unfold regWrite
  cases label (addr / 4) with
  | tlbOp =>
    dsimp only [tlbOp]
    split
    · exact h
    · -- `BUSY` is set for the notifications and cleared before the handler returns.
      rw [busy_iff]
      rw [hclear]
      exact Bool.false_ne_true
  | tlbOpSetLow | tlbOpSetHigh =>
    dsimp only
    split <;> exact h
  | _ => exact h

/-! ## One translation -/

/-- A walk checks its indices before it reads `ttbr`. -/
theorem ptw_inBounds (mem : Memory) (sid : ℕ) (iova : BitVec 64) :
    ∀ a ∈ (ptw cfg regs mem sid iova).2, a.InBounds := by
  unfold ptw
  dsimp only
  split
  · intro a ha
    exact absurd ha not_mem_nil
  · rename_i h
    have hin : Access.InBounds (.ttbr sid ((iova &&& cfg.l_mask 0) >>> cfg.l_shift 0).toNat) := by
      unfold Access.InBounds
      omega
    split
    all_goals
      intro a ha
      rw [mem_singleton.mp ha]
      exact hin

/-- A translation stays inside the arrays when the remapped stream exists. -/
theorem translate_inBounds_iff {mem : Memory} {stream : ℕ} {addr : BitVec 64}
    {flag : IOMMUAccessFlags} (hb : ¬ regs.busy) (hs : stream < maxStreams) :
    (∀ a ∈ (translate cfg regs mem stream addr flag).accesses, a.InBounds) ↔
      (regs.sidRemap stream).toNat < maxStreams := by
  -- Whatever happens later, the first two accesses are those of the remapping.
  have hacc : ∃ as, (translate cfg regs mem stream addr flag).accesses =
      [.sid_remap stream, .sid_config (regs.sidRemap stream).toNat] ++ as ∧
        ∀ a ∈ as, a.InBounds := by
    unfold translate
    rw [if_neg hb]
    dsimp only
    split
    · exact ⟨[], rfl, fun a ha => absurd ha not_mem_nil⟩
    · have hwalk := ptw_inBounds cfg regs mem (regs.sidRemap stream).toNat (addr >>> cfg.page_shift)
      split
      all_goals exact ⟨_, rfl, hwalk⟩
  obtain ⟨as, heq, has⟩ := hacc
  rw [heq]
  constructor
  · intro h
    exact h (.sid_config _) (by simp)
  · intro h a ha
    rcases mem_append.mp ha with ha | ha
    · rcases mem_pair.mp ha with rfl | rfl
      · exact hs
      · exact h
    · exact has a ha

/-- Translations stay inside the arrays when every stream is remapped to one that exists. -/
theorem translatesInBounds_iff_sidRemap (hb : ¬ regs.busy) : TranslatesInBounds cfg regs ↔
      ∀ stream < maxStreams, (regs.sidRemap stream).toNat < maxStreams := by
  constructor
  · intro h stream hs
    have hacc := h (fun _ => none) stream 0 .none hs (by decide)
    exact (translate_inBounds_iff cfg regs hb hs).mp hacc
  · intro h mem stream addr flag hs _
    exact (translate_inBounds_iff cfg regs hb hs).mpr (h stream hs)

/-! ## Filling `sid_remap` -/

theorem wordByte_deposit (v b : BitVec 32) (p q : ℕ) (hp : p < 4) (hq : q < 4) :
    wordByte (deposit v (8 * p) 8 b) q = if q = p then b.setWidth 8 else wordByte v q := by
  apply eq_of_getLsbD_eq
  intro i hi
  have hbit := getLsbD_deposit v b (8 * p) 8 (8 * q + i) (by omega) (by omega)
  simp only [wordByte, getLsbD_extractLsb', hbit]
  by_cases hqp : q = p
  · subst hqp
    simp [hi]
  · have hout : ¬ (8 * p ≤ 8 * q + i ∧ 8 * q + i < 8 * p + 8) := by omega
    rw [if_neg hout, if_neg hqp]
    simp [hi]

/-- A store to `sid_remap` changes its own byte. -/
theorem sidRemap_setRemap (regs : Regs) (j i : ℕ) (b : BitVec 32) :
    (regs.setRemap j b).sidRemap i = if i = j then b.setWidth 8 else regs.sidRemap i := by
  unfold Regs.sidRemap Regs.setRemap Regs.setWord
  dsimp only
  -- The store rewrites a word; within it, `deposit` replaces one byte.
  by_cases hword : i / 4 = j / 4
  · rw [hword, update_self,
      wordByte_deposit _ _ _ _ (Nat.mod_lt _ (by norm_num)) (Nat.mod_lt _ (by norm_num))]
    have hiff : i % 4 = j % 4 ↔ i = j := by omega
    simp [hiff]
  · have hne : i ≠ j := by
      rintro rfl
      exact hword rfl
    rw [update_of_ne hword, if_neg hne]

/-- After `n` rounds, the first `n` streams are remapped to themselves. -/
theorem sidRemap_foldl_setRemap (n i : ℕ) (hi : i < n) (regs : Regs) :
    ((range n).foldl (fun regs j => regs.setRemap j (BitVec.ofNat 32 j)) regs).sidRemap i =
      (BitVec.ofNat 32 i).setWidth 8 := by
  induction n with
  | zero => omega
  | succ n ih =>
    rw [range_succ, foldl_append, foldl_cons, foldl_nil, sidRemap_setRemap]
    split_ifs with h
    · rw [h]
    · exact ih (by omega)

theorem sidRemap_reset {i : ℕ} (hi : i < maxStreams) : ((regs.reset cfg).sidRemap i).toNat = i := by
  have hi16 : i < 16 := hi
  unfold Regs.reset
  rw [sidRemap_foldl_setRemap _ _ hi, toNat_setWidth, toNat_ofNat]
  omega

/-! ## Runs of register writes -/

/-- A word of `sid_remap` is changed by a write at its own offset only. -/
theorem words_guestWrite {regs : Regs} (op : ℕ × BitVec 32) (k : ℕ) (hk : k < 4) :
    (guestWrite cfg regs op).words k = if op.1 = 0x20 + k then op.2 else regs.words k := by
  have hat := label_at op.1
  unfold guestWrite regWrite
  rw [Nat.mul_div_cancel_left _ (by norm_num)]
  by_cases h : op.1 = 0x20 + k
  · rw [if_pos h, h, label_sidRemap k (by omega)]
    exact update_self _ _ _
  · rw [if_neg h]
    -- All other stores to the words go to another offset or behind `sid_remap`.
    cases hl : label op.1 with
    | sidRemap i =>
      rw [hl] at hat
      have hw := hat.1
      exact update_of_ne (by omega) _ _
    | sidConfig i => exact update_of_ne (by unfold Regs.sidConfigBase; omega) _ _
    | ttbr i => exact update_of_ne (by unfold Regs.ttbrBase; omega) _ _
    | tlbOp =>
      dsimp only [tlbOp]
      split <;> rfl
    | tlbOpSetLow | tlbOpSetHigh =>
      dsimp only
      split <;> rfl
    | _ => rfl

/-- After a run of writes, a word of `sid_remap` is what was last written to it. -/
theorem words_run (regs : Regs) {ops : List (ℕ × BitVec 32)} (k : ℕ) (hk : k < 4) :
    (run (guestWrite cfg) regs ops).words k = (lastWrite (0x20 + k) ops).getD (regs.words k) := by
  induction ops generalizing regs with
  | nil => rfl
  | cons op ops ih =>
    rw [run_cons, ih, words_guestWrite cfg op k hk, lastWrite]
    -- A later write to the word hides this one.
    cases lastWrite (0x20 + k) ops with
    | some val => rfl
    | none =>
      split_ifs <;> rfl

/-- After a reset and any register writes, translations stay inside the arrays exactly when the
last write to each word of `sid_remap`, if there is one, has only bytes that are streams. -/
theorem translatesInBounds_iff (cfg : Config) (regs : Regs) (ops : List (ℕ × BitVec 32)) :
    TranslatesInBounds cfg (run (guestWrite cfg) (regs.reset cfg) ops) ↔
      ∀ k < 4, ∀ val, lastWrite (0x20 + k) ops = some val →
        ∀ j < 4, (wordByte val j).toNat < maxStreams := by
  have hb : ¬ (run (guestWrite cfg) (regs.reset cfg) ops).busy :=
    invariant_run (P := fun regs => ¬ regs.busy)
      (fun regs op h => not_busy_regWrite cfg regs h) (not_busy_reset cfg regs) ops
  rw [translatesInBounds_iff_sidRemap cfg _ hb]
  -- Stream `4 k + j` has the byte `j` of the word `k`.
  constructor
  · intro h k hk val hval j hj
    have hs := h (4 * k + j) (by unfold maxStreams; omega)
    have hdiv : (4 * k + j) / 4 = k := by omega
    have hmod : (4 * k + j) % 4 = j := by omega
    rw [Regs.sidRemap, hdiv, hmod, words_run cfg _ k hk, hval] at hs
    exact hs
  · intro h stream hs
    have hs16 : stream < 16 := hs
    have hk : stream / 4 < 4 := by omega
    have hj : stream % 4 < 4 := Nat.mod_lt _ (by norm_num)
    rw [Regs.sidRemap, words_run cfg _ _ hk]
    cases hlast : lastWrite (0x20 + stream / 4) ops with
    | some val => exact h _ hk val hlast _ hj
    -- The word is still the one of the reset.
    | none =>
      have hreset := sidRemap_reset cfg regs hs
      rw [Regs.sidRemap] at hreset
      rw [getD_none, hreset]
      exact hs

/-- One write of `0xFF` to the first word of `sid_remap` sends stream 0 to `sid_config[255]`. -/
theorem not_translatesInBounds_remapped : ¬ TranslatesInBounds sampleConfig
      (run (guestWrite sampleConfig) (Regs.blank.reset sampleConfig) [(0x20, 0xFF)]) := by
  intro h
  have hacc := h (fun _ => none) 0 0 .none (by decide) (by decide) (.sid_config 255) (by decide)
  have hlt : 255 < 16 := hacc
  omega

end Inferno.Dart
