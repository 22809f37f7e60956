import Inferno.Gxf.State

/-!
# Exception entry and return with guarded execution

`arm_cpu_do_interrupt_aarch64` of `target/arm/helper.c`, the helpers behind `ERET` and `GEXIT` of
`target/arm/tcg/helper-a64.c`, and the registers of `hw/arm/apple-silicon/a13_gxf.c` that are
banked.

An entry chooses a bank three times: for the vector, for the return address and for the saved
program state. `GENTER` and the abort of guarded execution use the guarded bank wherever they come
from; any other exception uses it when it is taken from guarded state. A return address of AArch32
is saved in the ordinary bank in every case.

The decoder lets `ERET` through above EL0 and `GEXIT` in guarded state; where it does not, the
instruction is undefined and leaves the state to the exception that it raises. Left out are the
change of the vector length, the flags of the translator and the removal of address tags from the
address that `ERET` returns to.
-/

namespace Inferno.Gxf

open Common Function BitVec

/-! ## Entry -/

/-- The exceptions that are taken to AArch64. -/
inductive ExceptionIndex where
  | gpc | gxfAbort | prefetchAbort | dataAbort | bkpt | udef | swi | hvc | hypTrap | smc
  | irq | virq | nmi | vinmi | fiq | vfiq | vfnmi | genter | vserr
  deriving DecidableEq

namespace ExceptionIndex

/-- The exception enters guarded execution. -/
def enters : ExceptionIndex → Bool
  | .gxfAbort | .genter => true
  | _ => false

/-- The exception reports an address. -/
def isAbort : ExceptionIndex → Bool
  | .gpc | .gxfAbort | .prefetchAbort | .dataAbort => true
  | _ => false

/-- The exception reports the syndrome it was raised with. -/
def hasSyndrome : ExceptionIndex → Bool
  | .gpc | .gxfAbort | .prefetchAbort | .dataAbort | .bkpt | .udef | .swi | .hvc | .hypTrap
  | .smc => true
  | _ => false

end ExceptionIndex

/-- An exception: `exception_index` and `env->exception`. -/
structure Exception where
  index : ExceptionIndex
  syndrome : BitVec 32
  /-- The address of an abort. -/
  vaddress : BitVec 64
  targetEl : EL

/-- A bank of registers. -/
inductive Bank where
  /-- The ordinary one. -/
  | el
  /-- The guarded one. -/
  | gl
  deriving DecidableEq

section

variable (cpu : ARMCPU) (env : CPUARMState) (exc : Exception)

/-- The bank of the register that the vector is taken from. -/
def vectorBank : Bank := if exc.index.enters || armIsGuarded cpu env then .gl else .el

/-- The bank in which the return address is saved. -/
def elrBank : Bank :=
  if env.aarch64 && (exc.index.enters || armIsGuarded cpu env) then .gl else .el

/-- The bank in which the program state is saved. -/
def spsrBank : Bank := if exc.index.enters || armIsGuarded cpu env then .gl else .el

/-- The level below the one that takes the exception is AArch64. -/
def lowerIsAa64 : Bool :=
  if exc.targetEl = 3 then armScrRwEff cpu env
  else if exc.targetEl = 2 ∧
      ¬ ((armHcrEl2Eff cpu env).getLsbD 34 = true ∧ (armHcrEl2Eff cpu env).getLsbD 27 = true) then
    (armHcrEl2Eff cpu env).getLsbD 31
  else env.aarch64

/-- The offset for the level and the stack pointer that the exception comes from. -/
def sourceOffset : BitVec 64 :=
  if armCurrentEl env < exc.targetEl then if lowerIsAa64 cpu env exc then 0x400 else 0x600
  else if (pstateRead env).getLsbD 0 then 0x200 else 0

variable (syndrome : BitVec 32)

def syndromeIsSyncExtabt : Bool :=
  ([0x20, 0x21, 0x24, 0x25] : List (BitVec 32)).contains (syndrome >>> 26) &&
    ([0x10, 0x13, 0x14, 0x15, 0x16, 0x17] : List (BitVec 32)).contains (syndrome &&& 0x3F)

/-- The offset of an external abort that EL3 takes at the vector of system errors. -/
def extabtOffset : BitVec 64 :=
  if exc.targetEl = 3 ∧ env.scrEl3.getLsbD 19 = true ∧ syndromeIsSyncExtabt exc.syndrome = true then
    0x180
  else 0

/-- The vector of an exception that has none of its own, without the offset of its kind. -/
def vectorBase : BitVec 64 :=
  (match vectorBank cpu env exc with
    | .gl => env.vbarGl exc.targetEl
    | .el => env.vbarEl exc.targetEl) + sourceOffset cpu env exc

/-- The address that the exception is taken at. -/
def exceptionVector : BitVec 64 :=
  match exc.index with
  | .genter => env.gxfEnterEl exc.targetEl
  | .gxfAbort => env.gxfAbortEl exc.targetEl + extabtOffset env exc
  | .gpc | .prefetchAbort | .dataAbort => vectorBase cpu env exc + extabtOffset env exc
  | .bkpt | .udef | .swi | .hvc | .hypTrap | .smc => vectorBase cpu env exc
  | .irq | .virq | .nmi | .vinmi => vectorBase cpu env exc + 0x80
  | .fiq | .vfiq | .vfnmi => vectorBase cpu env exc + 0x100
  | .vserr => vectorBase cpu env exc + 0x180

/-- `aarch64_regnum`. Monitor mode takes no exception to AArch64, so `r13` and `r14` have a number
in every other mode. -/
def aarch64Regnum (reg : BitVec 32) : BitVec 32 :=
  if reg < 8 then reg
  else if reg < 13 then if env.mode = 0x11 then reg + 16 else reg
  else if reg = 15 then 31
  else if env.mode = 0x1A then if reg = 13 then 15 else 14
  else
    -- The banked registers lie in pairs, `r14` before `r13`.
    let link : BitVec 32 :=
      if env.mode = 0x12 then 16 else if env.mode = 0x13 then 18 else if env.mode = 0x17 then 20
      else if env.mode = 0x1B then 22 else 30
    if env.mode = 0x10 ∨ env.mode = 0x1F then reg
    else if env.mode = 0x11 then if reg = 13 then 29 else 30
    else if reg = 13 then link + 1 else link

/-- A register number of AArch32 in four bits of the syndrome becomes one of AArch64 in five. -/
def convertRegnum (pos : ℕ) : BitVec 32 :=
  let rt := aarch64Regnum env ((syndrome >>> pos) &&& 0xF)
  (syndrome &&& ~~~((0x1F : BitVec 32) <<< pos)) ||| ((rt &&& 0x1F) <<< pos)

def reportedSyndrome : BitVec 32 :=
  let ec := exc.syndrome >>> 26
  if ec = 0x07 then exc.syndrome &&& ~~~0xFFFFF
  else if ec = 0x05 ∨ ec = 0x03 ∨ ec = 0x06 then convertRegnum env exc.syndrome 5
  else if ec = 0x04 ∨ ec = 0x0C then convertRegnum env (convertRegnum env exc.syndrome 5) 10
  else exc.syndrome

/-- The address of an abort is reported in `FAR`. -/
def recordFar : CPUARMState :=
  if exc.index.isAbort then
    if armIsGuarded cpu env then
      { env with farGl := update env.farGl exc.targetEl exc.vaddress }
    else { env with farEl := update env.farEl exc.targetEl exc.vaddress }
  else env

/-- A syndrome is reported in `ESR`. -/
def recordEsr : CPUARMState :=
  if armIsGuarded cpu env then
    { env with esrGl := update env.esrGl exc.targetEl (syndrome.setWidth 64) }
  else { env with esrEl := update env.esrEl exc.targetEl (syndrome.setWidth 64) }

/-- The exception reports its address and syndrome; that of a virtual system error comes from
`VSESR_EL2`. -/
def recordFault : CPUARMState :=
  let env := recordFar cpu env exc
  if exc.index.hasSyndrome then recordEsr cpu env exc (reportedSyndrome env exc)
  else if exc.index = .vserr then
    recordEsr cpu env exc (0xBE000000 ||| (env.vsesrEl2.setWidth 32 &&& 0x1FFFFFF))
  else env

/-- Nested virtualisation reports EL2 in the saved program state of EL1. -/
def reportsEl2 : Bool :=
  let hcr := armHcrEl2Eff cpu env
  armCurrentEl env = 1 && exc.targetEl = 1 && hcr.getLsbD 42 && (hcr.getLsbD 45 || !hcr.getLsbD 43)

/-- The program state that is saved. -/
def oldMode : BitVec 32 :=
  if env.aarch64 then
    if reportsEl2 cpu env exc then (pstateRead env &&& ~~~0xC) ||| 0x8 else pstateRead env
  else cpsrReadForSpsrElx env

/-- The return address is saved, and the stack pointer with it when it is one of AArch64. -/
def saveReturn : CPUARMState :=
  let bank := elrBank cpu env exc
  let saved := if env.aarch64 then aarch64SaveSp cpu env (armCurrentEl env) else env
  let addr := if env.aarch64 then env.pc else env.regs15.setWidth 64
  let saved := if env.aarch64 then saved else { saved with condexecBits := 0 }
  match bank with
  | .gl => { saved with elrGl := update saved.elrGl exc.targetEl addr }
  | .el => { saved with elrEl := update saved.elrEl exc.targetEl addr }

/-- The program state is saved. -/
def saveSpsr (bank : Bank) (spsr : BitVec 32) : CPUARMState :=
  match bank with
  | .gl => { env with spsrGl := update env.spsrGl exc.targetEl (spsr.setWidth 64) }
  | .el =>
    { env with bankedSpsr := update env.bankedSpsr exc.targetEl (spsr.setWidth 64) }

variable (old : BitVec 32)

/-- `PSTATE.PAN` after the entry. -/
def newPan : BitVec 32 :=
  let hcr := armHcrEl2Eff cpu env
  let host := hcr.getLsbD 34 && hcr.getLsbD 27
  if cpu.pan then
    if (exc.targetEl = 1 ∨ exc.targetEl = 2 ∧ host = true) ∧
        (env.sctlrEl exc.targetEl).getLsbD 23 = false then 0x400000
    else old &&& 0x400000
  else 0

/-- `PSTATE` after the entry. -/
def newMode : BitVec 32 :=
  pstateDaif ||| ((exc.targetEl.setWidth 32 <<< 2) ||| 1) ||| newPan cpu env exc old |||
    (if cpu.mte then 0x2000000 else 0) |||
    (if cpu.ssbs && (env.sctlrEl exc.targetEl).getLsbD 44 then 0x1000 else 0) |||
    (if cpu.nmi && !(env.sctlrEl exc.targetEl).getLsbD 62 then pstateAllint else 0)

def armCpuDoInterruptAarch64 : CPUARMState :=
  let addr := exceptionVector cpu env exc
  let bank := spsrBank cpu env exc
  let recorded := recordFault cpu env exc
  let old := oldMode cpu recorded exc
  let saved := saveSpsr (saveReturn cpu recorded exc) exc bank old
  let entered := pstateWrite saved (newMode cpu saved exc old)
  let status := entered.gxfStatusEl exc.targetEl ||| (if exc.index.enters then 1 else 0)
  let entered :=
    { entered with
      gxfStatusEl := update entered.gxfStatusEl exc.targetEl status
      aarch64 := true }
  { aarch64RestoreSp cpu entered exc.targetEl with pc := addr }

end

/-! ### The program state after an entry -/

variable (cpu : ARMCPU) (env : CPUARMState) (exc : Exception) (old spsr : BitVec 32)
  (newPc : BitVec 64)

theorem getLsbD_flag {c : Prop} [Decidable c] {flag : BitVec 32} {i : ℕ}
    (h : flag.getLsbD i = false) : (if c then flag else 0).getLsbD i = false := by
  split_ifs
  · exact h
  · simp

/-- `PSTATE.PAN` is not among the mode bits. -/
theorem newPan_getLsbD {i : ℕ} (hi : i < 4) : (newPan cpu env exc old).getLsbD i = false := by
  have hbit : (0x400000 : BitVec 32).getLsbD i = false := by interval_cases i <;> rfl
  unfold newPan
  dsimp only
  split_ifs
  · exact hbit
  · rw [getLsbD_and, hbit, Bool.and_false]
  · simp

/-- The level in the program state after an entry is the one that takes the exception. -/
theorem newMode_el :
    (newMode cpu env exc old &&& ~~~cachedPstateBits).extractLsb' 2 2 = exc.targetEl := by
  apply eq_of_getLsbD_eq
  intro i hi
  -- The features set no bit of the mode.
  have hpan := newPan_getLsbD cpu env exc old (i := 2 + i) (by omega)
  have hmte : (0x2000000 : BitVec 32).getLsbD (2 + i) = false := by interval_cases i <;> rfl
  have hssbs : (0x1000 : BitVec 32).getLsbD (2 + i) = false := by interval_cases i <;> rfl
  have hnmi : pstateAllint.getLsbD (2 + i) = false := by interval_cases i <;> rfl
  unfold newMode
  rw [getLsbD_extractLsb', getLsbD_and]
  simp only [getLsbD_or, hpan, getLsbD_flag hmte, getLsbD_flag hssbs, getLsbD_flag hnmi]
  interval_cases i <;> simp [pstateDaif, cachedPstateBits]

theorem newMode_sp : (newMode cpu env exc old &&& ~~~cachedPstateBits).getLsbD 0 = true := by
  unfold newMode
  simp [cachedPstateBits]

theorem newMode_d : (newMode cpu env exc old &&& pstateDaif).getLsbD 9 = true := by
  unfold newMode
  simp [pstateDaif]

/-! ## Return -/

section

variable (cpu : ARMCPU) (env : CPUARMState) (spsr : BitVec 32) (newPc : BitVec 64) (newEl : EL)

def elFromSpsr : Option EL :=
  if spsr.getLsbD 4 then
    let mode := spsr.setWidth 5
    if mode = 0x10 then some 0
    else if mode = 0x1A then some 2
    else if mode ∈ ([0x11, 0x12, 0x13, 0x17, 0x1B, 0x1F] : List (BitVec 5)) then some 1
    else none
  else if spsr.getLsbD 1 then none
  else if spsr.setWidth 4 = (1 : BitVec 4) then none
  else some (spsr.extractLsb' 2 2)

/-- The level that `ERET` returns to, unless the return is illegal. -/
def returnEl : Option EL :=
  let curEl := armCurrentEl env
  let toAa64 := !spsr.getLsbD 4
  match elFromSpsr spsr with
  | none => none
  | some newEl =>
    if curEl < newEl ∨ newEl = 2 ∧ armIsEl2Enabled cpu env = false then none
    else if curEl = 3 ∧ newEl < 3 ∧ env.scrEl3.getLsbD 0 = false ∧ env.scrEl3.getLsbD 62 = true then
      none
    else if newEl ≠ 0 ∧ armElIsAa64 cpu env newEl ≠ toAa64 then none
    else if toAa64 = false ∧ cpu.aa32 = false then none
    else if newEl = 1 ∧ (armHcrEl2Eff cpu env).getLsbD 27 = true then none
    else some newEl

/-- The return to AArch32. -/
def returnToAa32 : CPUARMState :=
  let env := squashSs cpu (cpsrWriteFromSpsrElx cpu { env with aarch64 := false } spsr)
  { env with
    regs15 := newPc.setWidth 32 &&& (if spsr.getLsbD 5 then ~~~1 else ~~~3) }

/-- The return to AArch64. -/
def returnToAa64 : CPUARMState :=
  let env := { env with aarch64 := true }
  let env := squashSs cpu (pstateWrite env (spsr &&& cpu.pstateValidMask))
  { aarch64RestoreSp cpu env newEl with pc := newPc }

/-- The bits of the program state that an illegal return restores. -/
def illegalReturnBits : BitVec 32 := pstateNzcv ||| pstateDaif ||| pstateAllint

/-- The illegal return: level, execution state and stack pointer stay. -/
def illegalReturn : CPUARMState :=
  let env := { env with pstate := env.pstate ||| pstateIl, pc := newPc }
  let kept := pstateRead env &&& ~~~illegalReturnBits
  squashSs cpu (pstateWrite env ((spsr &&& illegalReturnBits) ||| kept))

@[simp]
theorem returnToAa32_frame : (returnToAa32 cpu env spsr newPc).aarch64 = false ∧
      (returnToAa32 cpu env spsr newPc).scrEl3 = env.scrEl3 ∧
      (returnToAa32 cpu env spsr newPc).hcrEl2 = env.hcrEl2 ∧
      (returnToAa32 cpu env spsr newPc).gxfStatusEl = env.gxfStatusEl := by
  simp [returnToAa32, cpsrWriteFromSpsrElx, cpsrWriteRaw]

@[simp]
theorem returnToAa64_frame : (returnToAa64 cpu env spsr newPc newEl).aarch64 = true ∧
      (returnToAa64 cpu env spsr newPc newEl).scrEl3 = env.scrEl3 ∧
      (returnToAa64 cpu env spsr newPc newEl).hcrEl2 = env.hcrEl2 ∧
      (returnToAa64 cpu env spsr newPc newEl).gxfStatusEl = env.gxfStatusEl := by
  simp [returnToAa64, pstateWrite]

@[simp]
theorem illegalReturn_frame : (illegalReturn cpu env spsr newPc).aarch64 = env.aarch64 ∧
      (illegalReturn cpu env spsr newPc).scrEl3 = env.scrEl3 ∧
      (illegalReturn cpu env spsr newPc).hcrEl2 = env.hcrEl2 ∧
      (illegalReturn cpu env spsr newPc).gxfStatusEl = env.gxfStatusEl := by
  simp [illegalReturn, pstateWrite]

/-- The saved program state that `ERET` returns through. -/
def eretSpsr : BitVec 32 :=
  let spsr :=
    if armIsGuarded cpu env then env.spsrGl (armCurrentEl env)
    else env.bankedSpsr (armCurrentEl env)
  let spsr := spsr.setWidth 32
  if armGenerateDebugExceptions cpu env then spsr &&& ~~~pstateSs else spsr

def exceptionReturn : CPUARMState :=
  let spsr := eretSpsr cpu env
  let saved := aarch64SaveSp cpu env (armCurrentEl env)
  match returnEl cpu saved spsr with
  | none => illegalReturn cpu saved spsr newPc
  | some newEl =>
    if spsr.getLsbD 4 then returnToAa32 cpu saved spsr newPc
    else returnToAa64 cpu saved spsr newPc newEl

/-- `ERET`: the return address is in the bank of the current state. -/
def eret : CPUARMState :=
  if armCurrentEl env = 0 then env
  else
    exceptionReturn cpu env
      (if armIsGuarded cpu env then env.elrGl (armCurrentEl env) else env.elrEl (armCurrentEl env))

/-- The program state that `GEXIT` writes. -/
def gexitSpsr : BitVec 32 :=
  let spsr := (env.spsrGl (armCurrentEl env)).setWidth 32
  (if armGenerateDebugExceptions cpu env then spsr &&& ~~~pstateSs else spsr) &&&
    cpu.pstateValidMask

/-- The mode that `GEXIT` writes is the one in `SPSR_GL`. -/
theorem gexitSpsr_mode :
    (gexitSpsr cpu env).setWidth 4 = (env.spsrGl (armCurrentEl env)).setWidth 4 := by
  have hwidth : ((env.spsrGl (armCurrentEl env)).setWidth 32).setWidth 4 =
      (env.spsrGl (armCurrentEl env)).setWidth 4 := setWidth_setWidth_of_le _ (by decide)
  unfold gexitSpsr
  rw [masked_mode, ← hwidth]
  split_ifs
  · exact setWidth_and_of_allOnes (by decide)
  · rfl

def helperGexit : CPUARMState :=
  let curEl := armCurrentEl env
  let spsr := gexitSpsr cpu env
  let saved := aarch64SaveSp cpu env curEl
  let left := squashSs cpu (pstateWrite saved spsr)
  let left :=
    { left with
      gxfStatusEl := update left.gxfStatusEl curEl (left.gxfStatusEl curEl &&& ~~~1) }
  let restored := aarch64RestoreSp cpu left curEl
  { restored with pc := restored.elrGl curEl }

def gexit : CPUARMState :=
  if armIsGuarded cpu env then helperGexit cpu env else env

/-- What `GEXIT` of guarded code leaves of the registers that say what is current: it clears the
status bit of the level. -/
theorem gexit_frame {cpu : ARMCPU} {env : CPUARMState} (h : armIsGuarded cpu env = true) :
    (gexit cpu env).aarch64 = env.aarch64 ∧ (gexit cpu env).scrEl3 = env.scrEl3 ∧
      (gexit cpu env).hcrEl2 = env.hcrEl2 ∧
      (gexit cpu env).gxfStatusEl = update env.gxfStatusEl (armCurrentEl env)
        (env.gxfStatusEl (armCurrentEl env) &&& ~~~1) := by
  unfold gexit helperGexit
  rw [if_pos h]
  simp [pstateWrite]

/-! ## Banked registers -/

/-- A write to a banked register goes to the guarded bank in guarded state. -/
def bankedWrite (gl el : CPUARMState → BitVec 64 → CPUARMState) (env : CPUARMState)
    (value : BitVec 64) : CPUARMState :=
  if armIsGuarded cpu env then gl env value else el env value

def tpidrEl1Write : CPUARMState → BitVec 64 → CPUARMState :=
  bankedWrite cpu (fun env v => { env with tpidrGl := update env.tpidrGl 1 v })
    (fun env v => { env with tpidrEl := update env.tpidrEl 1 v })

/-- `vbar_el1_write`, which can be locked. -/
def vbarEl1Write : CPUARMState → BitVec 64 → CPUARMState :=
  bankedWrite cpu (fun env v => { env with vbarGl := update env.vbarGl 1 (v &&& ~~~0x1F) })
    (fun env v =>
      if env.vmsaLockEl1.getLsbD 0 then env
      else { env with vbarEl := update env.vbarEl 1 (v &&& ~~~0x1F) })

def spsrEl1Write : CPUARMState → BitVec 64 → CPUARMState :=
  bankedWrite cpu (fun env v => { env with spsrGl := update env.spsrGl 1 v })
    (fun env v => { env with bankedSpsr := update env.bankedSpsr 1 v })

def elrEl1Write : CPUARMState → BitVec 64 → CPUARMState :=
  bankedWrite cpu (fun env v => { env with elrGl := update env.elrGl 1 v })
    (fun env v => { env with elrEl := update env.elrEl 1 v })

def esrEl1Write : CPUARMState → BitVec 64 → CPUARMState :=
  bankedWrite cpu (fun env v => { env with esrGl := update env.esrGl 1 v })
    (fun env v => { env with esrEl := update env.esrEl 1 v })

def farEl1Write : CPUARMState → BitVec 64 → CPUARMState :=
  bankedWrite cpu (fun env v => { env with farGl := update env.farGl 1 v })
    (fun env v => { env with farEl := update env.farEl 1 v })

/-- The registers of EL1 that are banked. -/
inductive BankedReg where
  | tpidr | vbar | spsr | elr | esr | far
  deriving DecidableEq

/-- A write to a banked register. -/
def writeReg (value : BitVec 64) : BankedReg → CPUARMState
  | .tpidr => tpidrEl1Write cpu env value
  | .vbar => vbarEl1Write cpu env value
  | .spsr => spsrEl1Write cpu env value
  | .elr => elrEl1Write cpu env value
  | .esr => esrEl1Write cpu env value
  | .far => farEl1Write cpu env value

end

end Inferno.Gxf
