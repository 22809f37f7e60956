import Inferno.Common.Run
import Inferno.Aic.Model

/-!
# Delivery of external interrupts

A CPU takes an interrupt by reading `IACK`, in its own view or through an alias. What a read can
return is settled by the state it finds (`acked_of_acks`): the lowest interrupt that is pending, not
masked and destined to the CPU, when no IPI comes first. The read masks the interrupt, and only a
write to `EIR_MASK_CLR` with its bit takes the mask away (`masked_step`), so that no interrupt is
returned twice without such a write in between (`delivery`).

The value has the low ten bits of the number of the interrupt. They are enough, because
destinations can be written for the interrupts up to `AIC_INT_COUNT` only (`DestBound`).
-/

namespace Inferno.Aic

open Common Bitops List BitVec Option Bool

/-! ## The property -/

variable (cfg : Config)

/-- The CPU whose `IACK` register an operation reads. -/
def iackCpu : Op → Option ℕ
  | .read o addr _ =>
    match target cfg o addr with
    | some (o, addr) => if label addr = .iack then some o else none
    | none => none
  | _ => none

variable (s : AppleAICState)

/-- The value that a read returns. -/
def readValue : Op → Option ℕ
  | .read o addr clock => some (read cfg s o addr clock).2
  | _ => none

/-- The operation is a read of `IACK` by the CPU `o` that returns the external interrupt `i`. -/
def Acks (op : Op) (o i : ℕ) : Prop :=
  iackCpu cfg op = some o ∧ i < 0x400 ∧ readValue cfg s op = some (intExt ||| i)

/-- The interrupt is pending, not masked and destined to the CPU. -/
def Deliverable (o i : ℕ) : Prop :=
  i < cfg.numIRQ ∧ testBit32 s.eir_state i = true ∧ testBit32 s.eir_mask i = false ∧
    (s.eir_dest i).getLsbD o = true

/-- What has to hold for an interrupt to be returned. -/
structure Acked (cfg : Config) (s : AppleAICState) (o i : ℕ) : Prop where
  deliverable : Deliverable cfg s o i
  /-- No IPI of the CPU to itself is pending and not masked. -/
  no_self : ¬ (s.cpus o).owesSelf
  /-- No IPI from another CPU is pending and not masked. -/
  no_normal : ¬ (s.cpus o).owesNormal cfg
  /-- No lower interrupt could be returned. -/
  lowest : ∀ j < i, ¬ Deliverable cfg s o j

/-- The operation is a write to `EIR_MASK_CLR` with the bit of the interrupt. -/
def Unmasks (i : ℕ) : Op → Prop
  | .write _ addr val => label addr = .eirMaskClr (i / 32) ∧ val.getLsbD (i % 32) = true
  | _ => False

/-- The interrupts behind `AIC_INT_COUNT` have no destination. -/
def DestBound : Prop := ∀ v, aicIntCount < v → s.eir_dest v = 0

/-! ## Addresses -/

/-- What is known of an address from its label. -/
def Label.At (addr : ℕ) : Label → Prop
  | .eirDest vector => vector ≤ aicIntCount
  | .eirMaskClr _ => 0x4180 ≤ addr
  | .alias _ addr => addr < 0x2080
  | _ => True

variable (cfg : Config) (s : AppleAICState) (o : ℕ)

section

variable (addr : ℕ) {val : BitVec 32} {i : ℕ}

theorem label_at : (label addr).At addr := by
  repeat
    refine iteInduction (motive := Label.At addr) (fun h => ?_) fun _ => ?_
    · first | trivial | (dsimp only [Label.At] at h ⊢; omega)
  trivial

/-- An alias leads to the view of a CPU, where there are no external interrupts. -/
theorem label_of_target {cfg : Config} {o addr o' addr' eir : ℕ}
    (ht : target cfg o addr = some (o', addr')) (hl : label addr' = .eirMaskClr eir) :
    label addr = .eirMaskClr eir := by
  -- The address behind an alias is below `0x2080`, the masks are at `0x4180` and above.
  have hat := label_at addr
  have hat' := label_at addr'
  rw [hl] at hat'
  unfold target at ht
  split at ht
  · rename_i cpu a halias
    split_ifs at ht
    obtain ⟨-, rfl⟩ := Prod.mk.inj (some.inj ht)
    rw [halias] at hat
    simp only [Label.At] at hat hat'
    omega
  · obtain ⟨-, rfl⟩ := Prod.mk.inj (some.inj ht)
    exact hl

/-! ## What a read of `IACK` returns -/

theorem intExt_or (h : i < 0x400) : intExt ||| i = 0x10000 + i := by
  have hor := Nat.two_pow_add_eq_or_of_lt (show i < 2^16 by omega) 1
  exact hor.symm

/-- The loop finds the lowest interrupt that can be returned. -/
theorem find_deliverable (h : (setBits s.eir_state cfg.numIRQ).find? (deliverable s o) = some i) :
    Deliverable cfg s o i ∧ ∀ j < i, ¬ Deliverable cfg s o j := by
  rw [Config.numIRQ, setBits_eq, find?_filter, find?_range_eq_some] at h
  obtain ⟨hi, hlt, hbefore⟩ := h
  have hiff : ∀ j, decide (testBit32 s.eir_state j = true ∧ deliverable s o j = true) = true ↔
      testBit32 s.eir_state j = true ∧ testBit32 s.eir_mask j = false ∧
        (s.eir_dest j).getLsbD o = true := by
    intro j
    rw [decide_eq_true_iff, deliverable, and_eq_true, not_eq_true']
  refine ⟨⟨mem_range.mp hlt, (hiff i).mp hi⟩, ?_⟩
  rintro j hj ⟨-, hd⟩
  have hnot := hbefore j hj
  rw [(hiff j).mpr hd] at hnot
  exact absurd hnot (by decide)

/-- What a read of `IACK` returns, and what it does to the masks of the external interrupts. -/
theorem iack_cases : (iack cfg s o).1.eir_dest = s.eir_dest ∧
      (((iack cfg s o).2 = intIpiSelf ∨ (iack cfg s o).2 = intIpiNorm ∨
          (iack cfg s o).2 = intSpurious) ∧ (iack cfg s o).1.eir_mask = s.eir_mask ∨
        ∃ k, ¬ (s.cpus o).owesSelf ∧ ¬ (s.cpus o).owesNormal cfg ∧
          (setBits s.eir_state cfg.numIRQ).find? (deliverable s o) = some k ∧
          (iack cfg s o).2 = intExt ||| intExtid k ∧
          (iack cfg s o).1.eir_mask = setBit32 s.eir_mask k) := by
  by_cases hself : AppleAICCPU.owesSelf { s.cpus o with irq := false }
  · rw [iack, if_pos hself]
    exact ⟨rfl, .inl ⟨.inl rfl, rfl⟩⟩
  · by_cases hnormal : AppleAICCPU.owesNormal cfg { s.cpus o with irq := false }
    · rw [iack, if_neg hself, if_pos hnormal]
      exact ⟨rfl, .inl ⟨.inr (.inl rfl), rfl⟩⟩
    · -- Lowering the line does not change what the loop looks at.
      have hloop : deliverable
          { s with cpus := Function.update s.cpus o { s.cpus o with irq := false } } o =
            deliverable s o := rfl
      rw [iack, if_neg hself, if_neg hnormal]
      dsimp only
      rw [hloop]
      cases (setBits s.eir_state cfg.numIRQ).find? (deliverable s o) with
      | none => exact ⟨rfl, .inl ⟨.inr (.inr rfl), rfl⟩⟩
      | some k => exact ⟨rfl, .inr ⟨k, hself, hnormal, rfl, rfl, rfl⟩⟩

/-- A read of `IACK` that returns an external interrupt: when it does, and what it masks. -/
theorem iack_ext (hb : DestBound s) (hi : i < 0x400) (h : (iack cfg s o).2 = intExt ||| i) :
    Acked cfg s o i ∧ (iack cfg s o).1.eir_mask = setBit32 s.eir_mask i := by
  rw [intExt_or hi] at h
  obtain ⟨-, ⟨hvalue, -⟩ | ⟨k, hself, hnormal, hfind, hvalue, hmask⟩⟩ := iack_cases cfg s o
  -- The other values are outside of `[0x10000, 0x10400)`.
  · have hipi : (0x40000 : ℕ) ||| 0x40002 = 0x40002 := by decide
    have hipi' : (0x40000 : ℕ) ||| 0x40001 = 0x40001 := by decide
    unfold intIpiSelf intIpiNorm intSpurious at hvalue
    omega
  · obtain ⟨hdeliv, hlowest⟩ := find_deliverable cfg s o hfind
    -- The destination bounds the number, so that its low ten bits are all of it.
    have hk : k ≤ 576 := by
      by_contra hgt
      have hzero := hb k (by unfold aicIntCount; omega)
      have hset := hdeliv.2.2.2
      rw [hzero] at hset
      simp at hset
    have hid : intExtid k = k := by
      have hmod := Nat.and_two_pow_sub_one_eq_mod k 10
      exact hmod.trans (Nat.mod_eq_of_lt (by omega))
    rw [intExt_or (by omega)] at hvalue
    obtain rfl : k = i := by omega
    exact ⟨⟨hdeliv, hself, hnormal, hlowest⟩, hmask⟩

/-- An operation that returns an external interrupt is a read of `IACK` of the CPU. -/
theorem step_of_iackCpu {cfg : Config} {s : AppleAICState} {op : Op} {o : ℕ}
    (h : iackCpu cfg op = some o) :
    step cfg s op = (iack cfg s o).1 ∧ readValue cfg s op = some (iack cfg s o).2 := by
  cases op with
  | read o' addr clock =>
    dsimp only [iackCpu, step, readValue, read] at h ⊢
    cases ht : target cfg o' addr with
    | none =>
      rw [ht] at h
      exact absurd h (some_ne_none o).symm
    | some t =>
      rw [ht] at h
      dsimp only at h ⊢
      split_ifs at h with hl
      obtain rfl := some.inj h
      rw [readReg, hl]
      exact ⟨rfl, rfl⟩
  | _ => exact absurd h (some_ne_none o).symm

theorem acked_of_acks {cfg : Config} {s : AppleAICState} {op : Op} {o i : ℕ} (hb : DestBound s)
    (h : Acks cfg s op o i) : Acked cfg s o i ∧ testBit32 (step cfg s op).eir_mask i = true := by
  obtain ⟨hcpu, hi, hvalue⟩ := h
  obtain ⟨hstep, hread⟩ := step_of_iackCpu (s := s) hcpu
  rw [hread, some.injEq] at hvalue
  obtain ⟨hacked, hmask⟩ := iack_ext cfg s o hb hi hvalue
  refine ⟨hacked, ?_⟩
  rw [hstep, hmask, testBit32_setBit32, decide_eq_true rfl, Bool.or_true]

/-! ## What the steps preserve -/

/-- A read changes the state only if it is a read of `IACK`. -/
theorem read_cases (addr clock : ℕ) :
    (read cfg s o addr clock).1 = s ∨ ∃ o', (read cfg s o addr clock).1 = (iack cfg s o').1 := by
  unfold read
  cases target cfg o addr with
  | none => exact .inl rfl
  | some t =>
    obtain ⟨o', addr'⟩ := t
    dsimp only [readReg]
    split
    all_goals first | exact .inl rfl | exact .inr ⟨o', rfl⟩ | skip
    split_ifs <;> exact .inl rfl

theorem masked_reset (hi : i < cfg.numIRQ) : testBit32 (reset cfg s).eir_mask i = true := by
  have hw : i / 32 < cfg.numEIR := by
    unfold Config.numIRQ at hi
    omega
  have hbit : i % 32 < 32 := Nat.mod_lt _ (by decide)
  dsimp only [testBit32, reset]
  rw [if_pos hw, getLsbD_allOnes, decide_eq_true hbit]

/-- A masked interrupt stays masked until a write to `EIR_MASK_CLR` with its bit. -/
theorem masked_write (hi : i < cfg.numIRQ) (h : testBit32 s.eir_mask i = true)
    (hun : ¬ Unmasks i (.write o addr val)) :
    testBit32 (write cfg s o addr val).eir_mask i = true := by
  have hword : (s.eir_mask (i / 32)).getLsbD (i % 32) = true := h
  unfold write
  cases ht : target cfg o addr with
  | none => exact h
  | some t =>
    obtain ⟨o', addr'⟩ := t
    dsimp only [writeReg]
    cases hl : label addr' with
    | rst => exact masked_reset cfg s hi
    | eirMaskSet eir =>
      dsimp only
      split_ifs
      · exact h
      · rw [testBit32_update]
        split_ifs with heir
        · rw [← heir, getLsbD_or, hword, Bool.true_or]
        · exact h
    | eirMaskClr eir =>
      dsimp only
      split_ifs
      · exact h
      · rw [testBit32_update]
        split_ifs with heir
        · -- The bit is not in the value, or this would be the write that unmasks.
          have hclear : val.getLsbD (i % 32) = false := by
            rw [← not_eq_true]
            intro hset
            rw [← heir] at hl
            exact hun ⟨label_of_target ht hl, hset⟩
          have hbit : i % 32 < 32 := Nat.mod_lt _ (by decide)
          rw [← heir, getLsbD_and, getLsbD_not, hword, hclear, decide_eq_true hbit]
          rfl
        · exact h
    | eirDest vector | eirSwSet eir | eirSwClr eir =>
      dsimp only
      split_ifs <;> exact h
    | _ => exact h

theorem masked_step (op : Op) (i : ℕ) (hi : i < cfg.numIRQ) (h : testBit32 s.eir_mask i = true)
    (hun : ¬ Unmasks i op) : testBit32 (step cfg s op).eir_mask i = true := by
  cases op with
  | setIrq irq level | tick => exact h
  | write o addr val => exact masked_write cfg s o addr hi h hun
  | read o addr clock =>
    dsimp only [step]
    rcases read_cases cfg s o addr clock with heq | ⟨o', heq⟩
    · rw [heq]
      exact h
    · rw [heq]
      obtain ⟨-, ⟨-, hmask⟩ | ⟨k, -, -, -, -, hmask⟩⟩ := iack_cases cfg s o'
      · rw [hmask]
        exact h
      · rw [hmask, testBit32_setBit32, h, Bool.true_or]
  | reset => exact masked_reset cfg s hi

theorem destBound_reset (h : DestBound s) : DestBound (reset cfg s) := by
  intro v hv
  dsimp only [reset]
  rw [h v hv, ite_self]

/-- A write sets a destination only up to `AIC_INT_COUNT`, which is the last index of the range. -/
theorem destBound_write (h : DestBound s) : DestBound (write cfg s o addr val) := by
  unfold write
  cases target cfg o addr with
  | none => exact h
  | some t =>
    obtain ⟨o', addr'⟩ := t
    have hat := label_at addr'
    dsimp only [writeReg]
    cases hl : label addr' with
    | rst => exact destBound_reset cfg s h
    | eirDest vector =>
      rw [hl] at hat
      have hle : vector ≤ aicIntCount := hat
      dsimp only
      split_ifs
      · exact h
      · intro v hv
        exact (Function.update_of_ne (by omega) _ _).trans (h v hv)
    | eirSwSet eir | eirSwClr eir | eirMaskSet eir | eirMaskClr eir =>
      dsimp only
      split_ifs <;> exact h
    | _ => exact h

end

theorem destBound_step (op : Op) (h : DestBound s) : DestBound (step cfg s op) := by
  cases op with
  | setIrq irq level | tick => exact h
  | write o addr val => exact destBound_write cfg s o addr h
  | read o addr clock =>
    dsimp only [step]
    rcases read_cases cfg s o addr clock with heq | ⟨o', heq⟩
    · rw [heq]
      exact h
    · rw [heq]
      intro v hv
      rw [(iack_cases cfg s o').1, h v hv]
  | reset => exact destBound_reset cfg s h

/-! ## Whole runs -/

/-- A masked interrupt stays masked over every run in which nothing unmasks it. -/
theorem masked_run (ops : List Op) (s : AppleAICState) (i : ℕ) (hi : i < cfg.numIRQ)
    (h : testBit32 s.eir_mask i = true) (hun : ∀ op ∈ ops, ¬ Unmasks i op) :
    testBit32 (run (step cfg) s ops).eir_mask i = true := by
  induction ops generalizing s with
  | nil => exact h
  | cons op ops ih =>
    have hstep := masked_step cfg s op i hi h (hun op mem_cons_self)
    exact ih _ hstep fun op' hop' => hun op' (mem_cons_of_mem _ hop')

/-- Destinations are bounded in every run. -/
theorem destBound_run {ops : List Op} : DestBound (run (step cfg) realized ops) :=
  invariant_run (fun s op => destBound_step cfg s op) (fun _ _ => rfl) ops

/-- In every run from the realized controller, a read of `IACK` returns an external interrupt only
if this is the lowest one that is pending, not masked and destined to the CPU, and no IPI comes
first; and between two reads that return the same one there is a write that unmasks it. -/
theorem delivery (cfg : Config) : (∀ pre op o i, Acks cfg (run (step cfg) realized pre) op o i →
        Acked cfg (run (step cfg) realized pre) o i) ∧
      ∀ pre op mid op' o o' i, Acks cfg (run (step cfg) realized pre) op o i →
        Acks cfg (run (step cfg) realized (pre ++ op :: mid)) op' o' i →
          ∃ u ∈ mid, Unmasks i u := by
  constructor
  · intro pre op o i h
    exact (acked_of_acks (destBound_run cfg) h).1
  · intro pre op mid op' o o' i h h'
    obtain ⟨hacked, hmasked⟩ := acked_of_acks (destBound_run cfg) h
    obtain ⟨hacked', -⟩ := acked_of_acks (destBound_run cfg) h'
    -- Otherwise the interrupt would still be masked when it is returned again.
    by_contra hnone
    have hun : ∀ u ∈ mid, ¬ Unmasks i u := fun u hu hun => hnone ⟨u, hu, hun⟩
    have hstill := masked_run cfg mid _ i hacked.deliverable.1 hmasked hun
    have hclear := hacked'.deliverable.2.2.1
    rw [run_append, run_cons, hstill] at hclear
    exact absurd hclear (by decide)

/-- Two CPUs and one word of interrupts. -/
def twoCpus : Config := ⟨2, 1, 0, by decide, by decide⟩

/-- After a reset, interrupt 3 is raised, destined to both CPUs and unmasked. -/
def raised3 : List Op := [.reset, .setIrq 3 true, .write 0 0x300C 3, .write 0 0x4180 8]

/-- CPU 0 takes interrupt 3 and unmasks it, and CPU 1 takes it through the alias of its view. -/
theorem delivery_twoCpus :
    Acks twoCpus (run (step twoCpus) realized raised3) (.read 0 0x2004 0) 0 3 ∧
      Acks twoCpus (run (step twoCpus) realized
        (raised3 ++ .read 0 0x2004 0 :: [.write 0 0x4180 8])) (.read 0 0x5084 0) 1 3 ∧
      ∃ u ∈ [Op.write 0 0x4180 8], Unmasks 3 u := by
  have h : Acks twoCpus (run (step twoCpus) realized raised3) (.read 0 0x2004 0) 0 3 :=
    ⟨by decide, by decide, by decide +kernel⟩
  have h' : Acks twoCpus (run (step twoCpus) realized
      (raised3 ++ .read 0 0x2004 0 :: [.write 0 0x4180 8])) (.read 0 0x5084 0) 1 3 :=
    ⟨by decide, by decide, by decide +kernel⟩
  exact ⟨h, h', (delivery twoCpus).2 _ _ _ _ _ _ _ h h'⟩

end Inferno.Aic
