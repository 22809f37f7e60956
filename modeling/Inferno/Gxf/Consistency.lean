import Inferno.Gxf.Exception
import Inferno.Common.Run

/-!
# Guarded state and the banks of an exception

An exception to EL1 is meant to be handled in guarded state exactly when its return address and
program state were saved in the guarded bank and its vector came from it. A run takes exceptions,
returns by `ERET` and `GEXIT`, and writes the registers that these use, so that any value can be in
a saved program state.

The banks are chosen by what is current before the entry; whether the handler is guarded follows
from the status bit of EL1 after it. The two can differ in two ways. The status bit stays set when
guarded code returns to EL0 by `ERET`, and the test for guarded state is false at EL0: an ordinary
exception is then taken through `VBAR_EL1` and handled in guarded state. And an abort of guarded
execution that comes from AArch32 code saves its return address in the ordinary bank. Nothing else
can go wrong (`gxf_consistent_iff`).
-/

namespace Inferno.Gxf

open Common Function

/-! ## The state after an entry -/

variable (cpu : ARMCPU) (env : CPUARMState) (exc : Exception)

/-- The address that the interrupted code goes on at. -/
def returnAddress : BitVec 64 := if env.aarch64 then env.pc else env.regs15.setWidth 64

/-- A report of the fault changes the registers for it only. -/
theorem recordFault_eq : ∃ farEl farGl esrEl esrGl, recordFault cpu env exc =
    { env with farEl := farEl, farGl := farGl, esrEl := esrEl, esrGl := esrGl } := by
  unfold recordFault recordEsr recordFar
  dsimp only
  split_ifs <;> exact ⟨_, _, _, _, rfl⟩

/-- What the saving of the return address and the program state reads is as before the report. -/
theorem recordFault_frame :
    ((recordFault cpu env exc).gxfStatusEl = env.gxfStatusEl ∧
      (recordFault cpu env exc).elrGl = env.elrGl ∧ (recordFault cpu env exc).elrEl = env.elrEl ∧
      (recordFault cpu env exc).spsrGl = env.spsrGl ∧
      (recordFault cpu env exc).bankedSpsr = env.bankedSpsr) ∧
    elrBank cpu (recordFault cpu env exc) exc = elrBank cpu env exc ∧
    oldMode cpu (recordFault cpu env exc) exc = oldMode cpu env exc ∧
    returnAddress (recordFault cpu env exc) = returnAddress env := by
  obtain ⟨farEl, farGl, esrEl, esrGl, h⟩ := recordFault_eq cpu env exc
  rw [h]
  exact ⟨⟨rfl, rfl, rfl, rfl, rfl⟩, rfl, rfl, rfl⟩

theorem aarch64SaveSp_banks (el : EL) : (aarch64SaveSp cpu env el).elrGl = env.elrGl ∧
    (aarch64SaveSp cpu env el).elrEl = env.elrEl ∧
    (aarch64SaveSp cpu env el).spsrGl = env.spsrGl ∧
    (aarch64SaveSp cpu env el).bankedSpsr = env.bankedSpsr := by
  unfold aarch64SaveSp
  split_ifs <;> exact ⟨rfl, rfl, rfl, rfl⟩

theorem aarch64RestoreSp_banks (el : EL) : (aarch64RestoreSp cpu env el).elrGl = env.elrGl ∧
    (aarch64RestoreSp cpu env el).elrEl = env.elrEl ∧
    (aarch64RestoreSp cpu env el).spsrGl = env.spsrGl ∧
    (aarch64RestoreSp cpu env el).bankedSpsr = env.bankedSpsr := by
  unfold aarch64RestoreSp
  split_ifs <;> exact ⟨rfl, rfl, rfl, rfl⟩

/-- The return address goes to its bank. -/
theorem saveReturn_banks : (saveReturn cpu env exc).gxfStatusEl = env.gxfStatusEl ∧
    (saveReturn cpu env exc).elrGl = (if elrBank cpu env exc = .gl then
      update env.elrGl exc.targetEl (returnAddress env) else env.elrGl) ∧
    (saveReturn cpu env exc).elrEl = (if elrBank cpu env exc = .gl then env.elrEl
      else update env.elrEl exc.targetEl (returnAddress env)) ∧
    (saveReturn cpu env exc).spsrGl = env.spsrGl ∧
    (saveReturn cpu env exc).bankedSpsr = env.bankedSpsr := by
  unfold saveReturn returnAddress
  cases elrBank cpu env exc <;> dsimp only <;> split_ifs <;> simp_all [aarch64SaveSp_banks]

/-- The program state goes to its bank. -/
theorem saveSpsr_banks (bank : Bank) (spsr : BitVec 32) :
    (saveSpsr env exc bank spsr).gxfStatusEl = env.gxfStatusEl ∧
    (saveSpsr env exc bank spsr).elrGl = env.elrGl ∧
    (saveSpsr env exc bank spsr).elrEl = env.elrEl ∧
    (saveSpsr env exc bank spsr).spsrGl = (if bank = .gl then
      update env.spsrGl exc.targetEl (spsr.setWidth 64) else env.spsrGl) ∧
    (saveSpsr env exc bank spsr).bankedSpsr = (if bank = .gl then env.bankedSpsr
      else update env.bankedSpsr exc.targetEl (spsr.setWidth 64)) := by
  cases bank <;> exact ⟨rfl, rfl, rfl, rfl, rfl⟩

/-- What an entry leaves: AArch64 at the level that takes the exception, whose status bit is set
where it was or the exception enters guarded execution, and the return address and the program state
in one bank each. -/
structure Entered (env' : CPUARMState) : Prop where
  el : armCurrentEl env' = exc.targetEl
  status : (env'.gxfStatusEl exc.targetEl).getLsbD 0 =
    ((env.gxfStatusEl exc.targetEl).getLsbD 0 || exc.index.enters)
  elrGl : env'.elrGl exc.targetEl =
    if elrBank cpu env exc = .gl then returnAddress env else env.elrGl exc.targetEl
  elrEl : env'.elrEl exc.targetEl =
    if elrBank cpu env exc = .gl then env.elrEl exc.targetEl else returnAddress env
  spsrGl : env'.spsrGl exc.targetEl =
    if spsrBank cpu env exc = .gl then (oldMode cpu env exc).setWidth 64
    else env.spsrGl exc.targetEl
  bankedSpsr : env'.bankedSpsr exc.targetEl =
    if spsrBank cpu env exc = .gl then env.bankedSpsr exc.targetEl
    else (oldMode cpu env exc).setWidth 64
  pc : env'.pc = exceptionVector cpu env exc

theorem entered_entry : Entered cpu env exc (armCpuDoInterruptAarch64 cpu env exc) := by
  unfold armCpuDoInterruptAarch64
  refine ⟨?_, ?_, ?_, ?_, ?_, ?_, rfl⟩
  · simp only [aarch64RestoreSp_frame]
    exact newMode_el cpu _ exc _
  · simp only [aarch64RestoreSp_frame, pstateWrite, saveSpsr_banks, saveReturn_banks,
      recordFault_frame, update_self, BitVec.getLsbD_or]
    cases exc.index.enters <;> rfl
  all_goals
    simp only [aarch64RestoreSp_banks, pstateWrite, saveSpsr_banks, saveReturn_banks,
      recordFault_frame]
    split_ifs <;> simp only [update_self]

theorem guarded_entry_iff (hgxf : cpu.gxf = true) (env : CPUARMState) (exc : Exception)
    (hel : exc.targetEl = 1) : armIsGuarded cpu (armCpuDoInterruptAarch64 cpu env exc) = true ↔
      (env.gxfStatusEl 1).getLsbD 0 = true ∨ exc.index.enters = true := by
  have hentered := entered_entry cpu env exc
  have hcur := hentered.el
  have hstatus := hentered.status
  rw [hel] at hcur hstatus
  unfold armIsGuarded
  rw [hcur, hstatus, hgxf]
  simp

/-! ## The banks after an entry -/

/-- Values of the registers of EL1 that an entry saves to or takes its vector from. -/
structure Banks where
  elrGl : BitVec 64
  elrEl : BitVec 64
  spsrGl : BitVec 64
  spsrEl : BitVec 64
  vbarGl : BitVec 64
  vbarEl : BitVec 64
  gxfEnter : BitVec 64
  gxfAbort : BitVec 64

/-- The state with these values in the registers. -/
def CPUARMState.withBanks (env : CPUARMState) (b : Banks) : CPUARMState :=
  { env with
    elrGl := update env.elrGl 1 b.elrGl
    elrEl := update env.elrEl 1 b.elrEl
    spsrGl := update env.spsrGl 1 b.spsrGl
    bankedSpsr := update env.bankedSpsr 1 b.spsrEl
    vbarGl := update env.vbarGl 1 b.vbarGl
    vbarEl := update env.vbarEl 1 b.vbarEl
    gxfEnterEl := update env.gxfEnterEl 1 b.gxfEnter
    gxfAbortEl := update env.gxfAbortEl 1 b.gxfAbort }

/-- The guarded register that the vector of an exception is counted from. -/
def Banks.base (b : Banks) : ExceptionIndex → BitVec 64
  | .genter => b.gxfEnter
  | .gxfAbort => b.gxfAbort
  | _ => b.vbarGl

/-- An exception to EL1 is taken through the guarded bank: whatever the two banks hold, the return
address and the program state are in the guarded bank afterwards, the ordinary one is as before, and
the handler starts at some offset from the guarded register. -/
def TakenGl : Prop :=
  ∃ offset, ∀ b : Banks,
    let entered := armCpuDoInterruptAarch64 cpu (env.withBanks b) exc
    entered.elrGl 1 = returnAddress env ∧ entered.elrEl 1 = b.elrEl ∧
      entered.spsrGl 1 = (oldMode cpu env exc).setWidth 64 ∧ entered.bankedSpsr 1 = b.spsrEl ∧
      entered.pc = b.base exc.index + offset

/-- The vector is counted from one register of the bank that the vector is taken from. -/
theorem exceptionVector_withBanks (hel : exc.targetEl = 1) (b : Banks) :
    exceptionVector cpu (env.withBanks b) exc =
      (if vectorBank cpu env exc = .gl then b.base exc.index else b.vbarEl) +
        exceptionVector cpu (env.withBanks ⟨0, 0, 0, 0, 0, 0, 0, 0⟩) exc := by
  have hbank : ∀ b, vectorBank cpu (env.withBanks b) exc = vectorBank cpu env exc := fun _ => rfl
  have hsource : ∀ b, sourceOffset cpu (env.withBanks b) exc = sourceOffset cpu env exc :=
    fun _ => rfl
  have hextabt : ∀ b, extabtOffset (env.withBanks b) exc = extabtOffset env exc := fun _ => rfl
  unfold exceptionVector vectorBase
  simp only [hbank, hsource, hextabt, hel]
  by_cases henters : exc.index.enters = true
  · have hgl : vectorBank cpu env exc = .gl := by simp [vectorBank, henters]
    rw [hgl]
    cases hindex : exc.index <;> rw [hindex] at henters <;>
      simp [ExceptionIndex.enters] at henters <;> simp [CPUARMState.withBanks, Banks.base]
  · cases hindex : exc.index <;> rw [hindex] at henters <;>
      simp [ExceptionIndex.enters] at henters <;>
        cases vectorBank cpu env exc <;>
          simp [CPUARMState.withBanks, Banks.base, BitVec.add_assoc]

/-- What an exception to EL1 leaves in the two banks, from any values in them. -/
theorem entered_withBanks (hel : exc.targetEl = 1) (b : Banks) :
    let entered := armCpuDoInterruptAarch64 cpu (env.withBanks b) exc
    let elr := returnAddress env
    let spsr := (oldMode cpu env exc).setWidth 64
    entered.elrGl 1 = (if elrBank cpu env exc = .gl then elr else b.elrGl) ∧
      entered.elrEl 1 = (if elrBank cpu env exc = .gl then b.elrEl else elr) ∧
      entered.spsrGl 1 = (if spsrBank cpu env exc = .gl then spsr else b.spsrGl) ∧
      entered.bankedSpsr 1 = (if spsrBank cpu env exc = .gl then b.spsrEl else spsr) := by
  obtain ⟨index, syndrome, vaddress, targetEl⟩ := exc
  obtain rfl : targetEl = 1 := hel
  have h := entered_entry cpu (env.withBanks b) ⟨index, syndrome, vaddress, 1⟩
  refine ⟨h.elrGl.trans ?_, h.elrEl.trans ?_, h.spsrGl.trans ?_, h.bankedSpsr.trans ?_⟩
  all_goals
    simp only [CPUARMState.withBanks, update_self]
    rfl

/-- An exception is taken through the guarded bank where the three choices of the code are it. -/
theorem takenGl_iff (hel : exc.targetEl = 1) : TakenGl cpu env exc ↔
    elrBank cpu env exc = .gl ∧ spsrBank cpu env exc = .gl ∧ vectorBank cpu env exc = .gl := by
  have hpc (b : Banks) : (armCpuDoInterruptAarch64 cpu (env.withBanks b) exc).pc = _ :=
    (entered_entry cpu (env.withBanks b) exc).pc.trans
      (exceptionVector_withBanks cpu env exc hel b)
  constructor
  · rintro ⟨offset, h⟩
    refine ⟨?_, ?_, ?_⟩
    · -- The guarded bank did not hold the return address, so it was saved there.
      by_contra hbank
      obtain ⟨helr, -⟩ :=
        entered_withBanks cpu env exc hel ⟨returnAddress env + 1, 0, 0, 0, 0, 0, 0, 0⟩
      rw [if_neg hbank, (h _).1] at helr
      simp at helr
    · by_contra hbank
      obtain ⟨-, -, hspsr, -⟩ := entered_withBanks cpu env exc hel
        ⟨0, 0, (oldMode cpu env exc).setWidth 64 + 1, 0, 0, 0, 0, 0⟩
      rw [if_neg hbank, (h _).2.2.1] at hspsr
      simp at hspsr
    · -- The vector moves with the guarded register, which is not `VBAR`.
      by_contra hbank
      have hzero := (h ⟨0, 0, 0, 0, 0, 0, 0, 0⟩).2.2.2.2.symm.trans (hpc _)
      have hone := (h ⟨0, 0, 0, 0, 1, 0, 1, 1⟩).2.2.2.2.symm.trans (hpc _)
      have hbase : (⟨0, 0, 0, 0, 1, 0, 1, 1⟩ : Banks).base exc.index = 1 ∧
          (⟨0, 0, 0, 0, 0, 0, 0, 0⟩ : Banks).base exc.index = 0 := by
        cases exc.index <;> exact ⟨rfl, rfl⟩
      rw [if_neg hbank, hbase.1] at hone
      rw [if_neg hbank, hbase.2] at hzero
      bv_omega
  · rintro ⟨helr, hspsr, hbank⟩
    refine ⟨exceptionVector cpu (env.withBanks ⟨0, 0, 0, 0, 0, 0, 0, 0⟩) exc, fun b => ?_⟩
    obtain ⟨helrGl, helrEl, hspsrGl, hspsrEl⟩ := entered_withBanks cpu env exc hel b
    rw [if_pos helr] at helrGl helrEl
    rw [if_pos hspsr] at hspsrGl hspsrEl
    refine ⟨helrGl, helrEl, hspsrGl, hspsrEl, ?_⟩
    rw [hpc, if_pos hbank]

/-! ## Runs -/

/-- What happens to a processor. -/
inductive Op where
  | exception (exc : Exception)
  | eret
  | gexit
  | write (reg : BankedReg) (value : BitVec 64)
  | setSp (value : BitVec 64)
  | spsel (imm : Bool)

section

variable (cpu : ARMCPU) (env : CPUARMState)

/-- The state after an operation. The banked registers and the selection of the stack pointer cannot
be written at EL0. -/
def step : Op → CPUARMState
  | .exception exc => armCpuDoInterruptAarch64 cpu env exc
  | .eret => eret cpu env
  | .gexit => gexit cpu env
  | .write reg value => if armCurrentEl env = 0 then env else writeReg cpu env value reg
  | .setSp value => { env with sp := value }
  | .spsel imm => if armCurrentEl env = 0 then env else updateSpsel cpu env imm

/-- Right after an exception from EL0 or EL1 to EL1, the processor is guarded exactly if the
exception was taken through the guarded bank. -/
def Consistent : Op → Prop
  | .exception exc =>
    exc.targetEl = 1 → armCurrentEl env ≤ 1 →
      (armIsGuarded cpu (armCpuDoInterruptAarch64 cpu env exc) = true ↔ TakenGl cpu env exc)
  | _ => True

/-- An exception that does not enter guarded execution is not taken from EL0 while EL1 is marked as
guarded, and one that enters it, or comes while EL1 is marked, comes from AArch64. -/
def Clean : Op → Prop
  | .exception exc =>
    exc.targetEl = 1 → armCurrentEl env ≤ 1 →
      (armCurrentEl env = 0 → (env.gxfStatusEl 1).getLsbD 0 = true → exc.index.enters = true) ∧
        ((env.gxfStatusEl 1).getLsbD 0 = true ∨ exc.index.enters = true → env.aarch64 = true)
  | _ => True

end

instance decidableClean (env : CPUARMState) : ∀ op, Decidable (Clean env op)
  | .exception _ => inferInstanceAs (Decidable (_ → _ → (_ → _ → _) ∧ (_ ∨ _ → _)))
  | .eret | .gexit | .write _ _ | .setSp _ | .spsel _ => .isTrue trivial

/-- The three banks are guarded when the exception enters guarded execution or comes from it, and
the code is AArch64. -/
theorem banks_iff :
    (elrBank cpu env exc = .gl ∧ spsrBank cpu env exc = .gl ∧ vectorBank cpu env exc = .gl) ↔
      env.aarch64 = true ∧ (exc.index.enters = true ∨ armIsGuarded cpu env = true) := by
  unfold elrBank spsrBank vectorBank
  cases env.aarch64 <;> cases exc.index.enters <;> cases armIsGuarded cpu env <;> decide

theorem consistent_iff_clean (hgxf : cpu.gxf = true) (env : CPUARMState) (op : Op) :
    Consistent cpu env op ↔ Clean env op := by
  cases op with
  | exception exc =>
    refine forall_congr' fun hel => forall_congr' fun hle => ?_
    rw [guarded_entry_iff cpu hgxf env exc hel, takenGl_iff cpu env exc hel, banks_iff]
    by_cases h0 : armCurrentEl env = 0
    · -- At EL0 the test for guarded state is false, whether or not EL1 is marked.
      have hguarded : armIsGuarded cpu env = false := by simp [armIsGuarded, h0]
      rw [hguarded]
      simp only [h0]
      cases env.aarch64 <;> cases exc.index.enters <;> cases (env.gxfStatusEl 1).getLsbD 0 <;>
        decide
    · -- At EL1 the test is the mark, so only the width of the code can make a difference.
      have h1 : armCurrentEl env = 1 := by bv_omega
      have hguarded : armIsGuarded cpu env = (env.gxfStatusEl 1).getLsbD 0 := by
        simp [armIsGuarded, h1, hgxf]
      rw [hguarded]
      simp only [h0]
      cases env.aarch64 <;> cases exc.index.enters <;> cases (env.gxfStatusEl 1).getLsbD 0 <;>
        decide
  | eret | gexit | write reg value | setSp value | spsel imm => exact Iff.rfl

/-! ## Where EL1 stays marked -/

section

variable (cpu : ARMCPU) (env : CPUARMState)

/-- EL1 is marked as guarded. -/
def CPUARMState.marked : Bool := (env.gxfStatusEl 1).getLsbD 0

/-- `ERET` leaves the status bits. -/
theorem eret_gxfStatusEl : (eret cpu env).gxfStatusEl = env.gxfStatusEl := by
  unfold eret
  split_ifs
  · rfl
  all_goals
    unfold exceptionReturn
    dsimp only
    split
    · simp
    · split_ifs
      · simp
      · simp

theorem writeReg_frame (value : BitVec 64) (reg : BankedReg) :
    armCurrentEl (writeReg cpu env value reg) = armCurrentEl env ∧
      (writeReg cpu env value reg).gxfStatusEl = env.gxfStatusEl := by
  cases reg <;> simp only [writeReg, tpidrEl1Write, vbarEl1Write, spsrEl1Write, elrEl1Write,
    esrEl1Write, farEl1Write, bankedWrite] <;> split_ifs <;> exact ⟨rfl, rfl⟩

/-- EL1 is not marked as guarded while EL0 is current. -/
def Unmarked : Prop := armCurrentEl env = 0 → env.marked = false

/-- Exceptions are taken above EL0, and no return gets to EL0 while EL1 is marked; a `GEXIT` from
EL1 clears the mark itself. -/
def Orderly : Op → Prop
  | .exception exc => exc.targetEl ≠ 0
  | .eret => armCurrentEl (eret cpu env) = 0 → env.marked = false
  | .gexit => armCurrentEl (gexit cpu env) = 0 → armCurrentEl env ≠ 1 → env.marked = false
  | _ => True

end

theorem Unmarked.step {cpu : ARMCPU} {env : CPUARMState} (h : Unmarked env) {op : Op}
    (hop : Orderly cpu env op) : Unmarked (step cpu env op) := by
  have hsame : ∀ {env'}, armCurrentEl env' = armCurrentEl env →
      env'.gxfStatusEl = env.gxfStatusEl → Unmarked env' := by
    intro env' hel hstatus h0
    unfold CPUARMState.marked
    rw [hstatus]
    exact h (hel ▸ h0)
  cases op with
  | exception exc =>
    intro h0
    exact absurd ((entered_entry cpu env exc).el.symm.trans h0) hop
  | eret =>
    intro h0
    have hmarked : (eret cpu env).marked = env.marked := by
      unfold CPUARMState.marked
      rw [eret_gxfStatusEl]
    exact hmarked.trans (hop h0)
  | gexit =>
    intro h0
    by_cases hg : armIsGuarded cpu env = true
    · obtain ⟨-, -, -, hstatus⟩ := gexit_frame hg
      by_cases h1 : armCurrentEl env = 1
      · show ((gexit cpu env).gxfStatusEl 1).getLsbD 0 = false
        rw [hstatus, h1]
        simp
      · show ((gexit cpu env).gxfStatusEl 1).getLsbD 0 = false
        rw [hstatus, update_of_ne (Ne.symm h1)]
        exact hop h0 h1
    · have hsame' : gexit cpu env = env := if_neg hg
      rw [Gxf.step, hsame'] at h0 ⊢
      exact h h0
  | write reg value =>
    unfold Gxf.step
    split_ifs
    · exact h
    · obtain ⟨hel, hstatus⟩ := writeReg_frame cpu env value reg
      exact hsame hel hstatus
  | setSp value => exact hsame rfl rfl
  | spsel imm =>
    unfold Gxf.step
    split_ifs
    · exact h
    · obtain ⟨hel, hstatus⟩ := updateSpsel_frame cpu env imm
      exact hsame hel hstatus

/-- From a state in which EL1 is not marked at EL0, guarded state agrees with the banks in every run
of orderly operations on AArch64 code. -/
theorem consistent_of_orderly (cpu : GxfCpu) {env : CPUARMState} (h : Unmarked env) {ops : List Op}
    (hops : Guarded (step cpu.toARMCPU)
      (fun env op => Orderly cpu.toARMCPU env op ∧ env.aarch64 = true) env ops) :
    Guarded (step cpu.toARMCPU) (Consistent cpu.toARMCPU) env ops := by
  refine hops.of_invariant (I := Unmarked) (fun env op h hop => h.step hop.1) ?_ h
  intro env op h hop
  obtain ⟨-, haarch64⟩ := hop
  rw [consistent_iff_clean cpu.toARMCPU cpu.gxf_eq]
  cases op with
  | exception exc =>
    intro _ _
    refine ⟨fun h0 hmarked => ?_, fun _ => haarch64⟩
    exact absurd hmarked (Bool.eq_false_iff.mp (h h0))
  | _ => trivial

/-- Code at EL1 enters guarded execution and is interrupted there. -/
theorem consistent_of_orderly_genter :
    Guarded (step appleA13.toARMCPU) (Consistent appleA13.toARMCPU) (.zeroAt 1)
      [.exception ⟨.genter, 0, 0, 1⟩, .exception ⟨.swi, 0, 0, 1⟩] := by
  have hel : (1 : EL) ≠ 0 := by decide
  exact consistent_of_orderly appleA13 (fun h => absurd h (by decide))
    ⟨⟨hel, rfl⟩, ⟨hel, rfl⟩, trivial⟩

/-! ## All runs -/

/-- In the runs of a processor with guarded execution, from any state, guarded state agrees with the
banks after every exception from EL0 or EL1 to EL1 exactly if all these exceptions are clean. -/
theorem gxf_consistent_iff (cpu : GxfCpu) (env : CPUARMState) (ops : List Op) :
    Guarded (step cpu.toARMCPU) (Consistent cpu.toARMCPU) env ops ↔
      Guarded (step cpu.toARMCPU) Clean env ops :=
  guarded_congr (I := fun _ => True) (fun _ _ _ => trivial)
    (fun env op _ => consistent_iff_clean cpu.toARMCPU cpu.gxf_eq env op) trivial ops

/-- An exception of a kind to EL1. -/
def toEl1 (index : ExceptionIndex) : Exception := ⟨index, 0, 0, 1⟩

/-- Code at EL1 enters guarded execution, which returns to address `0x40` at EL0 by `ERET`; then
comes a system call. -/
def svcOps : List Op :=
  [.write .vbar 0x1000, .exception (toEl1 .genter), .write .spsr 0, .write .elr 0x40, .eret,
    .exception (toEl1 .swi)]

/-- Code at EL1 returns to AArch32 code at EL0, which has an abort that enters guarded execution. -/
def abortOps : List Op :=
  [.write .spsr 0x10, .write .elr 0x80, .eret, .exception (toEl1 .gxfAbort)]

/-- The state after a run from EL1. -/
def after (ops : List Op) : CPUARMState := run (step appleA13.toARMCPU) (.zeroAt 1) ops

/-- The system call is taken through `VBAR_EL1`, with its return address in the ordinary bank, and
its handler is guarded; and so is that of the abort, whose return address is in the ordinary bank
too. -/
theorem gxf_inconsistent :
    ((after svcOps).elrEl 1 = 0x40 ∧ (after svcOps).pc = 0x1400 ∧
      armIsGuarded appleA13.toARMCPU (after svcOps) = true) ∧
    ((after abortOps).elrEl 1 = 0x80 ∧ (after abortOps).elrGl 1 = 0 ∧
      armIsGuarded appleA13.toARMCPU (after abortOps) = true) ∧
    ¬ Guarded (step appleA13.toARMCPU) (Consistent appleA13.toARMCPU) (.zeroAt 1) svcOps ∧
    ¬ Guarded (step appleA13.toARMCPU) (Consistent appleA13.toARMCPU) (.zeroAt 1) abortOps := by
  have hclean : ∀ ops,
      Guarded (step appleA13.toARMCPU) (Consistent appleA13.toARMCPU) (.zeroAt 1) ops ↔
        Guarded (step appleA13.toARMCPU) Clean (.zeroAt 1) ops :=
    guarded_congr (I := fun _ => True) (fun _ _ _ => trivial)
      (fun env op _ => consistent_iff_clean appleA13.toARMCPU rfl env op) trivial
  rw [hclean, hclean]
  decide +kernel

end Inferno.Gxf
