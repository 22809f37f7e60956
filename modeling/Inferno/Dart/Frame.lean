import Mathlib.Tactic.IntervalCases
import Inferno.Dart.Model

/-!
# Which registers an MMIO access touches

A register write should change only the register at its offset, and a read should depend on no
other (`WriteFrame`, `ReadFrame`). Both handlers index the storage of the arrays by the distance of
the offset to the start of its range, and two of the ranges are longer than their arrays: sixteen
words from `SID_REMAP(0)` on for the four words of `sid_remap`, and 272 words from `TTBR(0, 0)` on
for the sixty-four words of `ttbr`. `frameLaw_iff` says that the law holds at all other offsets and
fails at every one of these: the first reach into `sid_config`, the second behind the registers.
-/

namespace Inferno.Dart

open Common BitVec Function
open BitVec (ofNat setWidth toNat)

/-! ## The law -/

/-- A register, or a word of the storage behind the registers. -/
inductive Register where
  | params1
  | params2
  | tlb_op
  /-- `tlb_op_set[0]`. -/
  | tlb_op_set
  | error_status
  | error_address
  | config
  | sid_remap (i : Fin 16)
  | sid_config (i : Fin 16)
  | ttbr (sid : Fin 16) (idx : Fin 4)
  /-- No register: a word behind the arrays. -/
  | outside (k : ℕ)

/-- The contents of a register. -/
def Regs.value (regs : Regs) : Register → ℕ
  | .params1 => regs.params1.toNat
  | .params2 => regs.params2.toNat
  | .tlb_op => regs.tlb_op.toNat
  | .tlb_op_set => regs.tlb_op_set.toNat
  | .error_status => regs.error_status.toNat
  | .error_address => regs.error_address.toNat
  | .config => regs.config.toNat
  | .sid_remap i => (regs.sidRemap i).toNat
  | .sid_config i => (regs.sidConfig i).toNat
  | .ttbr sid idx => (regs.ttbr (maxTtbr * sid + idx)).toNat
  | .outside k => (regs.words (Regs.wordsEnd + k)).toNat

variable (addr : ℕ)

/-- The register is the one, or one of those, at the offset. -/
def Denotes : Register → Prop
  | .params1 => addr = 0x0
  | .params2 => addr = 0x4
  | .tlb_op => addr = 0x20
  | .tlb_op_set => addr = 0x34 ∨ addr = 0x38
  | .error_status => addr = 0x40
  | .error_address => addr = 0x50 ∨ addr = 0x54
  | .config => addr = 0x60
  | .sid_remap i => addr = 0x80 + 4 * (i / 4)
  | .sid_config i => addr = 0x100 + 4 * i
  | .ttbr sid idx => addr = 0x200 + 4 * (4 * sid + idx)
  | .outside _ => False

/-- The registers that a device can have: after a reset, and then after register writes and
translations. -/
inductive Reachable (cfg : Config) : Regs → Prop
  | reset (regs : Regs) : Reachable cfg (regs.reset cfg)
  | write {regs : Regs} (addr : ℕ) (val : BitVec 32) :
      Reachable cfg regs → Reachable cfg (regWrite cfg regs addr val).1
  | translate {regs : Regs} (mem : Memory) (stream : ℕ) (addr : BitVec 64)
      (flag : IOMMUAccessFlags) :
      Reachable cfg regs → Reachable cfg (translate cfg regs mem stream addr flag).regs

/-- A write at the offset changes only the registers there. -/
def WriteFrame (cfg : Config) (addr : ℕ) : Prop :=
  ∀ regs, Reachable cfg regs → ∀ val r, ¬ Denotes addr r →
    (regWrite cfg regs addr val).1.value r = regs.value r

/-- A read at the offset depends only on the registers there. -/
def ReadFrame (cfg : Config) (addr : ℕ) : Prop :=
  ∀ regs regs', Reachable cfg regs → Reachable cfg regs' →
    (∀ r, Denotes addr r → regs.value r = regs'.value r) → regRead regs addr = regRead regs' addr

/-- The offsets whose index runs over the end of its array. -/
def Overruns : Prop := 0x90 ≤ addr ∧ addr < 0xC0 ∨ 0x300 ≤ addr ∧ addr < 0x640

/-! ## Labels and offsets -/

variable {regs' : Regs} {cfg : Config}

theorem label_eq (r : ℕ) : label r =
      if r = 0x0 then .params1
      else if r = 0x1 then .params2
      else if r = 0x8 then .tlbOp
      else if r = 0xD then .tlbOpSetLow
      else if r = 0xE then .tlbOpSetHigh
      else if r = 0x10 then .errorStatus
      else if r = 0x14 then .errorAddressLow
      else if r = 0x15 then .errorAddressHigh
      else if r = 0x18 then .config
      else if 0x20 ≤ r ∧ r ≤ 0x2F then .sidRemap (r - 0x20)
      else if 0x40 ≤ r ∧ r ≤ 0x4F then .sidConfig (r - 0x40)
      else if 0x80 ≤ r ∧ r ≤ 0x18F then .ttbr (r - 0x80)
      else .default := rfl

/-- The offsets at which a label is. -/
def Label.At : Label → Prop
  | .params1 => addr = 0x0
  | .params2 => addr = 0x4
  | .tlbOp => addr = 0x20
  | .tlbOpSetLow => addr = 0x34
  | .tlbOpSetHigh => addr = 0x38
  | .errorStatus => addr = 0x40
  | .errorAddressLow => addr = 0x50
  | .errorAddressHigh => addr = 0x54
  | .config => addr = 0x60
  | .sidRemap i => addr = 0x80 + 4 * i ∧ i < 16
  | .sidConfig i => addr = 0x100 + 4 * i ∧ i < 16
  | .ttbr i => addr = 0x200 + 4 * i ∧ i < 272
  | .default => True

variable (w : ℕ)

theorem label_at : (label w).At (4 * w) := by
  rw [label_eq]
  -- One test of the chain at a time: each branch is left with its own condition.
  repeat
    refine iteInduction (motive := Label.At (4 * w)) (fun h => ?_) fun _ => ?_
    · unfold Label.At
      omega
  trivial

/-- The label of an offset in the range of `SID_REMAP`. -/
theorem label_sidRemap (i : ℕ) (h : i < 16) : label (0x20 + i) = .sidRemap i := by
  interval_cases i <;> rfl

/-- The label of an offset in the range of `TTBR`. -/
theorem label_ttbr (i : ℕ) (h : i < 272) : label (0x80 + i) = .ttbr i := by
  rw [label_eq]
  grind

/-! ## Words and the registers in them -/

/-- The word that holds the register, if it is an element of an array. -/
def Register.word : Register → Option ℕ
  | .sid_remap i => some (i / 4)
  | .sid_config i => some (Regs.sidConfigBase + i)
  | .ttbr sid idx => some (Regs.ttbrBase + (maxTtbr * sid + idx))
  | .outside k => some (Regs.wordsEnd + k)
  | _ => none

theorem value_setWord {regs : Regs} (k : ℕ) (val : BitVec 32) (r : Register)
    (h : r.word ≠ some k) : (regs.setWord k val).value r = regs.value r := by
  -- The word of the register is another one; the scalar registers are in none.
  have hword : ∀ k', r.word = some k' → (regs.setWord k val).words k' = regs.words k' := by
    intro k' hk'
    have hne : k' ≠ k := by
      rintro rfl
      exact h hk'
    exact update_of_ne hne _ _
  cases r with
  | sid_remap i =>
    show ((regs.setWord k val).sidRemap i).toNat = (regs.sidRemap i).toNat
    unfold Regs.sidRemap
    rw [hword _ rfl]
  | sid_config i | ttbr sid idx | outside k' => exact congrArg toNat (hword _ rfl)
  | _ => rfl

/-- The registers in a word of `sid_remap`, `sid_config` or `ttbr` are those at its offset. -/
theorem denotes_of_word {r : Register} {k i off : ℕ} (h : r.word = some k)
    (hoff : off = 0x80 + 4 * i ∧ k = i ∧ i < 4 ∨
      off = 0x100 + 4 * i ∧ k = Regs.sidConfigBase + i ∧ i < 16 ∨
      off = 0x200 + 4 * i ∧ k = Regs.ttbrBase + i ∧ i < 64) : Denotes off r := by
  simp only [Regs.sidConfigBase, Regs.ttbrBase] at hoff
  cases r <;> simp only [Register.word, Option.some.injEq, reduceCtorEq, Regs.sidConfigBase,
    Regs.ttbrBase, Regs.wordsEnd, maxTtbr] at h
  all_goals unfold Denotes
  all_goals omega

variable {regs : Regs}

/-- A word is determined by its four `sid_remap` bytes. -/
theorem words_eq_of_sidRemap (i : ℕ)
    (h : ∀ j < 4, regs.sidRemap (4 * i + j) = regs'.sidRemap (4 * i + j)) :
    regs.words i = regs'.words i := by
  apply eq_of_getLsbD_eq
  intro b hb
  -- Bit `b` of the word is bit `b % 8` of its byte `b / 8`.
  have hbyte := congrArg (fun v : BitVec 8 => v.getLsbD (b % 8)) (h (b / 8) (by omega))
  have hdiv : (4 * i + b / 8) / 4 = i := by omega
  have hbit : 8 * ((4 * i + b / 8) % 4) + b % 8 = b := by omega
  have hlt : b % 8 < 8 := Nat.mod_lt _ (by norm_num)
  simp only [Regs.sidRemap, wordByte, getLsbD_extractLsb', hdiv, hbit, hlt, decide_true,
    Bool.true_and] at hbyte
  exact hbyte

/-! ## The offsets at which the law holds -/

/-- At the offsets that stay inside the arrays, a write changes only the registers there. -/
theorem writeFrame_of_not_overruns (h : ¬ Overruns (4 * w)) : WriteFrame cfg (4 * w) := by
  intro regs _ val r hr
  have hkeep : ∀ k, (∀ r : Register, r.word = some k → Denotes (4 * w) r) →
      (regs.setWord k val).value r = regs.value r := by
    intro k hk
    exact value_setWord k val r fun hword => hr (hk r hword)
  have hat := label_at w
  unfold Overruns at h
  unfold regWrite
  rw [Nat.mul_div_cancel_left w (by norm_num)]
  generalize label w = l at hat
  cases l with
  | sidRemap i =>
    obtain ⟨hw, hi⟩ := hat
    -- The handler takes the distance in bytes as an index of bytes, and stores a word there.
    exact hkeep _ fun r hk => hw ▸ denotes_of_word hk (.inl ⟨rfl, rfl, by omega⟩)
  | sidConfig i =>
    obtain ⟨hw, hi⟩ := hat
    exact hkeep _ fun r hk => hw ▸ denotes_of_word hk (.inr (.inl ⟨rfl, rfl, hi⟩))
  | ttbr i =>
    obtain ⟨hw, hi⟩ := hat
    exact hkeep _ fun r hk => hw ▸ denotes_of_word hk (.inr (.inr ⟨rfl, rfl, by omega⟩))
  | tlbOp =>
    have hne : r ≠ .tlb_op := by
      rintro rfl
      exact hr hat
    -- The operation is ignored, or `tlb_op` is all that it leaves behind.
    dsimp only [tlbOp]
    split_ifs <;> cases r <;> first | rfl | exact absurd rfl hne
  | tlbOpSetLow =>
    have hne : r ≠ .tlb_op_set := by
      rintro rfl
      exact hr (.inl hat)
    split_ifs <;> cases r <;> first | rfl | exact absurd rfl hne
  | tlbOpSetHigh =>
    have hne : r ≠ .tlb_op_set := by
      rintro rfl
      exact hr (.inr hat)
    split_ifs <;> cases r <;> first | rfl | exact absurd rfl hne
  | errorStatus | config =>
    cases r <;> first | rfl | exact absurd hat hr
  | _ => rfl

/-- Two states that agree in the registers at an offset of `sid_remap` agree in the word there. -/
theorem words_eq_of_agree {i : ℕ} (hi : i < 4)
    (h : ∀ r, Denotes (0x80 + 4 * i) r → regs.value r = regs'.value r) :
    regs.words i = regs'.words i := by
  -- The four registers at the offset make up the word.
  refine words_eq_of_sidRemap i ?_
  intro j hj
  refine eq_of_toNat_eq (h (.sid_remap ⟨4 * i + j, by omega⟩) ?_)
  unfold Denotes
  dsimp only
  omega

/-- Two states that agree in the register at an offset of `ttbr` agree in the word there. -/
theorem ttbr_eq_of_agree {i : ℕ} (hi : i < 64)
    (h : ∀ r, Denotes (0x200 + 4 * i) r → regs.value r = regs'.value r) :
    regs.ttbr i = regs'.ttbr i := by
  have hidx : 4 * (i / 4) + i % 4 = i := Nat.div_add_mod i 4
  have hdenotes : Denotes (0x200 + 4 * i) (.ttbr ⟨i / 4, by omega⟩ ⟨i % 4, by omega⟩) := by
    unfold Denotes
    dsimp only
    omega
  have heq := eq_of_toNat_eq (h _ hdenotes)
  dsimp only [maxTtbr] at heq
  rwa [hidx] at heq

/-- At the offsets that stay inside the arrays, a read depends only on the registers there. -/
theorem readFrame_of_not_overruns (h : ¬ Overruns (4 * w)) : ReadFrame cfg (4 * w) := by
  intro regs regs' _ _ hagree
  have hat := label_at w
  unfold Overruns at h
  unfold regRead
  rw [Nat.mul_div_cancel_left w (by norm_num)]
  generalize label w = l at hat
  cases l with
  | sidRemap i =>
    obtain ⟨hw, hi⟩ := hat
    rw [hw] at hagree
    have hword := words_eq_of_agree (by omega) hagree
    dsimp only
    rw [hword]
  | sidConfig i =>
    obtain ⟨hw, hi⟩ := hat
    have hword := eq_of_toNat_eq (hagree (.sid_config ⟨i, hi⟩) hw)
    dsimp only
    rw [hword]
  | ttbr i =>
    obtain ⟨hw, hi⟩ := hat
    rw [hw] at hagree
    have hword := ttbr_eq_of_agree (by omega) hagree
    dsimp only
    rw [hword]
  | params1 =>
    exact congrArg (setWidth 64) (eq_of_toNat_eq (hagree .params1 hat))
  | params2 =>
    exact congrArg (setWidth 64) (eq_of_toNat_eq (hagree .params2 hat))
  | tlbOp =>
    exact congrArg (setWidth 64) (eq_of_toNat_eq (hagree .tlb_op hat))
  | tlbOpSetLow =>
    exact congrArg (extract · 0 32) (eq_of_toNat_eq (hagree .tlb_op_set (.inl hat)))
  | tlbOpSetHigh =>
    exact congrArg (extract · 32 32) (eq_of_toNat_eq (hagree .tlb_op_set (.inr hat)))
  | errorStatus =>
    exact congrArg (setWidth 64) (eq_of_toNat_eq (hagree .error_status hat))
  | errorAddressLow =>
    exact congrArg (extract · 0 32) (eq_of_toNat_eq (hagree .error_address (.inl hat)))
  | errorAddressHigh =>
    exact congrArg (extract · 32 32) (eq_of_toNat_eq (hagree .error_address (.inr hat)))
  | config =>
    exact congrArg (setWidth 64) (eq_of_toNat_eq (hagree .config hat))
  | default => rfl

/-! ## The offsets at which it fails -/

/-- An offset that overruns its array is at no register; its accesses go to a word behind
`sid_remap`, which is in a register that is elsewhere or in none. -/
theorem Overruns.word {w : ℕ} (h : Overruns (4 * w)) :
    ∃ k r, 4 ≤ k ∧ (∀ regs : Regs, regs.value r = (regs.words k).toNat) ∧
      (∀ r, ¬ Denotes (4 * w) r) ∧
      (∀ cfg regs val, regWrite cfg regs (4 * w) val = (regs.setWord k val, [])) ∧
      ∀ regs, regRead regs (4 * w) = (regs.words k).setWidth 64 := by
  have hdiv : 4 * w / 4 = w := Nat.mul_div_cancel_left w (by norm_num)
  have hnone : ∀ r, ¬ Denotes (4 * w) r := by
    intro r hr
    unfold Overruns at h
    cases r <;> unfold Denotes at hr <;> dsimp only at hr <;> omega
  rcases h with ⟨hlo, hhi⟩ | ⟨hlo, hhi⟩
  -- The twelve words of the first range that are behind `sid_remap` are in `sid_config`.
  · have hl : label w = .sidRemap (w - 0x20) := by
      have hw : 0x20 + (w - 0x20) = w := by omega
      rw [← hw, label_sidRemap _ (by omega), hw]
    have hbase : Regs.sidConfigBase + (w - 0x24) = w - 0x20 := by
      unfold Regs.sidConfigBase
      omega
    refine ⟨w - 0x20, .sid_config ⟨w - 0x24, by omega⟩, by omega, ?_, hnone, ?_, ?_⟩
    · intro regs
      show (regs.words (Regs.sidConfigBase + (w - 0x24))).toNat = _
      rw [hbase]
    · intro cfg regs val
      rw [regWrite, hdiv, hl]
    · intro regs
      rw [regRead, hdiv, hl]
  -- Those of the second range that are behind `ttbr` are behind all registers.
  · have hl : label w = .ttbr (w - 0x80) := by
      have hw : 0x80 + (w - 0x80) = w := by omega
      rw [← hw, label_ttbr _ (by omega), hw]
    have hbase : Regs.wordsEnd + (w - 0xC0) = Regs.ttbrBase + (w - 0x80) := by
      unfold Regs.wordsEnd Regs.ttbrBase
      omega
    refine ⟨Regs.ttbrBase + (w - 0x80), .outside (w - 0xC0), by omega, ?_, hnone, ?_, ?_⟩
    · intro regs
      show (regs.words (Regs.wordsEnd + (w - 0xC0))).toNat = _
      rw [hbase]
    · intro cfg regs val
      rw [regWrite, hdiv, hl]
    · intro regs
      rw [regRead, hdiv, hl]
      rfl

/-- Registers that are all zero. -/
def Regs.blank : Regs := ⟨0, 0, 0, 0, 0, 0, 0, fun _ => 0⟩

/-- The loop that fills `sid_remap` does not touch the words behind it. -/
theorem words_foldl_setRemap (js : List ℕ) (hjs : ∀ j ∈ js, j < maxStreams) (regs : Regs) (k : ℕ)
    (hk : 4 ≤ k) : (js.foldl (fun regs j => regs.setRemap j (ofNat 32 j)) regs).words k =
      regs.words k := by
  induction js generalizing regs with
  | nil => rfl
  | cons j js ih =>
    have hj : j < 16 := hjs j List.mem_cons_self
    have hne : k ≠ j / 4 := by omega
    rw [List.foldl_cons, ih (fun j' hj' => hjs j' (List.mem_cons_of_mem _ hj'))]
    exact update_of_ne hne _ _

/-- A reset of blank registers leaves zeros behind `sid_remap`. -/
theorem words_reset_blank (k : ℕ) (hk : 4 ≤ k) : (Regs.blank.reset cfg).words k = 0 := by
  unfold Regs.reset
  rw [words_foldl_setRemap _ (fun j hj => List.mem_range.mp hj) _ k hk]
  dsimp only [Regs.zeroed, Regs.blank]
  rw [ite_self]

/-- After a reset, an offset that overruns its array changes a register that is not there. -/
theorem not_writeFrame_of_overruns (h : Overruns (4 * w)) : ¬ WriteFrame cfg (4 * w) := by
  obtain ⟨k, r, hk, hvalue, hnone, hwrite, -⟩ := h.word
  intro hframe
  have hkeep := hframe _ (.reset Regs.blank) 1 r (hnone r)
  rw [hwrite, hvalue, hvalue, words_reset_blank k hk] at hkeep
  have hone : ((Regs.blank.reset cfg).setWord k 1).words k = 1 := update_self _ _ _
  rw [hone] at hkeep
  exact absurd hkeep (by decide)

/-- An offset that overruns its array reads back what was written there, which no register at
the offset holds. -/
theorem not_readFrame_of_overruns (h : Overruns (4 * w)) : ¬ ReadFrame cfg (4 * w) := by
  obtain ⟨k, r, hk, -, hnone, hwrite, hread⟩ := h.word
  intro hframe
  -- Two states that agree in all registers at the offset, there being none.
  have hreset : Reachable cfg (Regs.blank.reset cfg) := .reset Regs.blank
  have hsame := hframe _ _ hreset (hreset.write (4 * w) 1) fun r hr => absurd hr (hnone r)
  have hone : ((Regs.blank.reset cfg).setWord k 1).words k = 1 := update_self _ _ _
  rw [hwrite, hread, hread, words_reset_blank k hk, hone] at hsame
  exact absurd hsame (by decide)

/-- Writes and reads at an aligned offset touch only the registers there exactly when the offset
does not overrun its array. -/
theorem frameLaw_iff (cfg : Config) (w : ℕ) : (WriteFrame cfg (4 * w) ↔ ¬ Overruns (4 * w)) ∧
      (ReadFrame cfg (4 * w) ↔ ¬ Overruns (4 * w)) := by
  refine ⟨⟨?_, writeFrame_of_not_overruns w⟩, ⟨?_, readFrame_of_not_overruns w⟩⟩
  · intro hframe h
    exact not_writeFrame_of_overruns w h hframe
  · intro hframe h
    exact not_readFrame_of_overruns w h hframe

/-- A configuration with 16 KiB pages and all streams. -/
def sampleConfig : Config := ⟨0x4000, 0xFFFF, 0, .inr (by decide)⟩

/-- A write at the offset `0x90`, in the range of `SID_REMAP`, changes `sid_config[0]`. -/
theorem not_writeFrame_sidRemap : ¬ WriteFrame sampleConfig 0x90 ∧
      (regWrite sampleConfig (Regs.blank.reset sampleConfig) 0x90 1).1.sidConfig 0 = 1 ∧
      (Regs.blank.reset sampleConfig).sidConfig 0 = 0 := by
  refine ⟨not_writeFrame_of_overruns 0x24 (.inl (by decide)), ?_, ?_⟩
  · decide
  · decide

end Inferno.Dart
