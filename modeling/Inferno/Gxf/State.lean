import Mathlib.Tactic.IntervalCases
import Inferno.Common.Bits

/-!
# The processor state of guarded execution

The part of `CPUARMState` that exception entry and return use, with the accessors of
`target/arm/cpu.h`, `target/arm/internals.h` and `target/arm/debug_helper.c`. Guarded execution
(GXF) has a second bank of the registers of an exception level: `ELR`, `SPSR`, `VBAR`, `ESR`, `FAR`,
`TPIDR` and the stack pointer. Which bank is used follows from the current exception level and from
a status bit of that level (`armIsGuarded`).

`PSTATE` is kept in parts: the flags in four words, the interrupt masks and the branch type in words
of their own, and the rest in `pstate`. `pstateRead` puts them together. The stack pointer in use is
`xregs[31]`; a bank holds the others.

The processors are those with AArch64 at their highest exception level, so EL3 is AArch64 wherever
it exists. General-purpose registers other than the stack pointer are left out.
-/

namespace Inferno.Gxf

open Common BitVec Function

/-- An exception level. -/
abbrev EL := BitVec 2

/-- The features of a processor that exception entry and return look at. -/
structure ARMCPU where
  el2 : Bool
  el3 : Bool
  gxf : Bool
  /-- EL0 can be AArch32. -/
  aa32 : Bool
  /-- EL2 can be AArch32. -/
  aa32El2 : Bool
  /-- The realm management extension. -/
  rme : Bool
  /-- Branch target identification. -/
  bti : Bool
  /-- Privileged access never. -/
  pan : Bool
  /-- User access override. -/
  uao : Bool
  /-- Data independent timing. -/
  dit : Bool
  /-- Speculative store bypass safe. -/
  ssbs : Bool
  /-- Memory tagging. -/
  mte : Bool
  /-- Non-maskable interrupts. -/
  nmi : Bool
  /-- The bits of `CPSR` that features of AArch32 add to `aarch32_cpsr_valid_mask`: `J`, `PAN`,
  `DIT` and `SSBS`. -/
  cpsrExtra : BitVec 32

/-- `CPUARMState`, as far as it is used here. -/
structure CPUARMState where
  aarch64 : Bool
  /-- The word whose top bit is the flag `N`. -/
  nf : BitVec 32
  /-- The word that is zero when the flag `Z` is set. -/
  zf : BitVec 32
  cf : BitVec 32
  /-- The word whose top bit is the flag `V`. -/
  vf : BitVec 32
  daif : BitVec 32
  btype : BitVec 32
  /-- The other bits of `PSTATE`. -/
  pstate : BitVec 32
  /-- The bits of `CPSR` that are in no other word. -/
  uncachedCpsr : BitVec 32
  /-- The flag `Q`. -/
  qf : BitVec 32
  /-- The processor executes Thumb code. -/
  thumb : BitVec 32
  /-- The `IT` state. -/
  condexecBits : BitVec 32
  /-- The flags `GE`. -/
  ge : BitVec 32
  /-- The program counter of AArch32. -/
  regs15 : BitVec 32
  pc : BitVec 64
  /-- `xregs[31]`: the stack pointer in use. -/
  sp : BitVec 64
  spEl : EL → BitVec 64
  elrEl : EL → BitVec 64
  /-- The saved program states, by the level whose bank it is. -/
  bankedSpsr : EL → BitVec 64
  vbarEl : EL → BitVec 64
  esrEl : EL → BitVec 64
  farEl : EL → BitVec 64
  tpidrEl : EL → BitVec 64
  sctlrEl : EL → BitVec 64
  hcrEl2 : BitVec 64
  scrEl3 : BitVec 64
  mdscrEl1 : BitVec 64
  mdcrEl2 : BitVec 64
  mdcrEl3 : BitVec 64
  sder : BitVec 64
  oslsrEl1 : BitVec 64
  osdlrEl1 : BitVec 64
  vsesrEl2 : BitVec 64
  vmsaLockEl1 : BitVec 64
  gxfEnterEl : EL → BitVec 64
  /-- `GXF_STATUS`, whose low bit says that the level is guarded. -/
  gxfStatusEl : EL → BitVec 64
  gxfAbortEl : EL → BitVec 64
  spGl : EL → BitVec 64
  tpidrGl : EL → BitVec 64
  vbarGl : EL → BitVec 64
  spsrGl : EL → BitVec 64
  esrGl : EL → BitVec 64
  elrGl : EL → BitVec 64
  farGl : EL → BitVec 64

/-! ## PSTATE -/

def pstateM : BitVec 32 := 0xF

def pstateDaif : BitVec 32 := 0x3C0

def pstateAllint : BitVec 32 := 0x2000

def pstateIl : BitVec 32 := 0x100000

def pstateSs : BitVec 32 := 0x200000

def pstateNzcv : BitVec 32 := 0xF0000000

/-- `CACHED_PSTATE_BITS`: flags, interrupt masks and branch type. -/
def cachedPstateBits : BitVec 32 := 0xF0000FC0

variable (env : CPUARMState)

def pstateRead : BitVec 32 :=
  (env.nf &&& 0x80000000) ||| (if env.zf = 0 then 0x40000000 else 0) ||| (env.cf <<< 29) |||
    ((env.vf &&& 0x80000000) >>> 3) ||| env.pstate ||| env.daif ||| (env.btype <<< 10)

variable (val : BitVec 32)

def pstateWrite : CPUARMState :=
  { env with
    zf := ~~~val &&& 0x40000000
    nf := val
    cf := (val >>> 29) &&& 1
    vf := (val <<< 3) &&& 0x80000000
    daif := val &&& pstateDaif
    btype := (val >>> 10) &&& 3
    pstate := val &&& ~~~cachedPstateBits }

variable (cpu : ARMCPU) {env' : CPUARMState}

/-- The flag `Z` is read back from its word, which is zero when the flag is set. -/
theorem zFlag_written : ((if ~~~val &&& 0x40000000 = 0 then 0x40000000 else 0 : ℕ) : BitVec 32) =
      val &&& 0x40000000 := by
  have hbit : (0x40000000 : BitVec 32) = twoPow 32 30 := by decide
  rw [hbit, and_twoPow, and_twoPow, getLsbD_not]
  cases val.getLsbD 30 <;> decide

/-- After a program state was written, the bits with words of their own are read from those words,
and the others from `pstate`. -/
theorem pstateRead_written {val pstate : BitVec 32} :
    pstateRead { pstateWrite env val with pstate := pstate } =
      (val &&& cachedPstateBits) ||| pstate := by
  have hz : ((if (pstateWrite env val).zf = 0 then 0x40000000 else 0 : ℕ) : BitVec 32) =
      val &&& 0x40000000 := zFlag_written val
  unfold pstateRead
  rw [hz]
  simp only [pstateWrite, pstateDaif, cachedPstateBits]
  apply eq_of_getLsbD_eq
  intro i hi
  interval_cases i <;> simp [Bool.or_comm]

theorem cached_or_uncached : (val &&& cachedPstateBits)
    ||| (val &&& ~~~cachedPstateBits) = val := by
  have hall : cachedPstateBits ||| ~~~cachedPstateBits = allOnes 32 := by decide
  rw [← and_or_distrib_left, hall, and_allOnes]

theorem pstateRead_pstateWrite : pstateRead (pstateWrite env val) = val :=
  (pstateRead_written env).trans (cached_or_uncached val)

section

variable (cpu : ARMCPU) (env : CPUARMState) (val : BitVec 32)

def ARMCPU.pstateValidMask : BitVec 32 :=
  pstateM ||| pstateDaif ||| pstateIl ||| pstateSs ||| pstateNzcv |||
    (if cpu.bti then 0xC00 else 0) ||| (if cpu.pan then 0x400000 else 0) |||
    (if cpu.uao then 0x800000 else 0) ||| (if cpu.dit then 0x1000000 else 0) |||
    (if cpu.ssbs then 0x1000 else 0) ||| (if cpu.mte then 0x2000000 else 0) |||
    (if cpu.nmi then pstateAllint else 0)

/-! ## CPSR -/

def cpsrAif : BitVec 32 := 0x1C0

def cachedCpsrBits : BitVec 32 := 0xFE0FFDE0

/-- `aarch32_cpsr_valid_mask`, of a processor with Thumb-2. -/
def ARMCPU.cpsrValidMask : BitVec 32 := 0xFE1FFFFF ||| cpu.cpsrExtra

def cpsrRead : BitVec 32 :=
  env.uncachedCpsr ||| (env.nf &&& 0x80000000) ||| (if env.zf = 0 then 0x40000000 else 0) |||
    (env.cf <<< 29) ||| ((env.vf &&& 0x80000000) >>> 3) ||| (env.qf <<< 27) |||
    (env.thumb <<< 5) ||| ((env.condexecBits &&& 3) <<< 25) |||
    ((env.condexecBits &&& 0xFC) <<< 8) ||| (env.ge <<< 16) ||| (env.daif &&& cpsrAif)

/-- `cpsr_read_for_spsr_elx`: `DIT` moves to its place in `SPSR` and `PSTATE.SS` is merged. -/
def cpsrReadForSpsrElx : BitVec 32 :=
  let ret := cpsrRead env
  let ret := if ret.getLsbD 21 then (ret &&& ~~~0x200000) ||| 0x1000000 else ret
  ret ||| (env.pstate &&& pstateSs)

/-- `cpsr_write` as a raw write under a mask that has all of the cached bits. -/
def cpsrWriteRaw (val mask : BitVec 32) : CPUARMState :=
  let uncached := mask &&& ~~~cachedCpsrBits
  { env with
    zf := ~~~val &&& 0x40000000
    nf := val
    cf := (val >>> 29) &&& 1
    vf := (val <<< 3) &&& 0x80000000
    qf := (val >>> 27) &&& 1
    thumb := (val >>> 5) &&& 1
    condexecBits := ((val >>> 25) &&& 3) ||| ((val >>> 8) &&& 0xFC)
    ge := (val >>> 16) &&& 0xF
    daif := (env.daif &&& ~~~cpsrAif) ||| (val &&& cpsrAif)
    uncachedCpsr := (env.uncachedCpsr &&& ~~~uncached) ||| (val &&& uncached) }

def cpsrWriteFromSpsrElx : CPUARMState :=
  let env := { env with pstate := (env.pstate &&& ~~~pstateSs) ||| (val &&& pstateSs) }
  let val := val &&& ~~~pstateSs
  let val := if val.getLsbD 24 then (val &&& ~~~0x1000000) ||| 0x200000 else val
  cpsrWriteRaw env val cpu.cpsrValidMask

/-! ## Exception levels -/

/-- The mode bits of `CPSR`. -/
def CPUARMState.mode : BitVec 5 := env.uncachedCpsr.setWidth 5

/-- `arm_current_el`. Where EL3 is AArch64, the secure modes of AArch32 are at EL1. -/
def armCurrentEl : EL :=
  if env.aarch64 then env.pstate.extractLsb' 2 2
  else if env.mode = 0x10 then 0
  else if env.mode = 0x1A then 2
  else if env.mode = 0x16 then 3
  else 1

inductive ARMSecuritySpace where
  | secure | nonSecure | root | realm
  deriving DecidableEq

def armSecuritySpaceBelowEl3 : ARMSecuritySpace :=
  if cpu.el3 then
    if env.scrEl3.getLsbD 0 then
      if env.scrEl3.getLsbD 62 then .realm else .nonSecure
    else .secure
  else .nonSecure

def armSecuritySpace : ARMSecuritySpace :=
  if cpu.el3 then
    if env.aarch64 then
      if env.pstate.extractLsb' 2 2 = 3 then if cpu.rme then .root else .secure
      else armSecuritySpaceBelowEl3 cpu env
    else if env.mode = 0x16 then .secure
    else armSecuritySpaceBelowEl3 cpu env
  else .nonSecure

def armIsSecure : Bool :=
  armSecuritySpace cpu env = .secure || armSecuritySpace cpu env = .root

def armIsEl2Enabled : Bool :=
  cpu.el2 && (armSecuritySpaceBelowEl3 cpu env ≠ .secure || env.scrEl3.getLsbD 18)

def armScrRwEff : Bool :=
  if env.scrEl3.getLsbD 10 then true
  else if env.scrEl3.getLsbD 0 then cpu.el2 && !cpu.aa32El2
  else env.scrEl3.getLsbD 18

section

variable (el : EL)

/-- `arm_el_is_aa64`, for the levels above EL0. -/
def armElIsAa64 : Bool :=
  if el = 3 then true
  else
    let aa64 := !cpu.el3 || armScrRwEff cpu env
    if el = 2 then aa64
    else aa64 && (!armIsEl2Enabled cpu env || env.hcrEl2.getLsbD 31)

/-- `arm_hcr_el2_eff`, in the bits that are looked at here: those that `HCR_EL2.TGE` changes
further are not among them. -/
def armHcrEl2Eff : BitVec 64 :=
  if armIsEl2Enabled cpu env then
    if armElIsAa64 cpu env 2 then env.hcrEl2 else env.hcrEl2 &&& 0x6FFFFFFF
  else 0

/-! ## Guarded execution -/

def armIsGuarded : Bool :=
  cpu.gxf && decide (0 < armCurrentEl env) && (env.gxfStatusEl (armCurrentEl env)).getLsbD 0

/-- `PSTATE_SP`: the level uses its own stack pointer, not that of EL0. -/
def CPUARMState.ownSp : Bool := env.pstate.getLsbD 0

def aarch64SaveSp : CPUARMState :=
  if env.ownSp then
    if armIsGuarded cpu env then { env with spGl := update env.spGl el env.sp }
    else { env with spEl := update env.spEl el env.sp }
  else { env with spEl := update env.spEl 0 env.sp }

def aarch64RestoreSp : CPUARMState :=
  if env.ownSp then
    if armIsGuarded cpu env then { env with sp := env.spGl el } else { env with sp := env.spEl el }
  else { env with sp := env.spEl 0 }

@[simp]
theorem aarch64SaveSp_frame : (aarch64SaveSp cpu env el).aarch64 = env.aarch64 ∧
      (aarch64SaveSp cpu env el).pstate = env.pstate ∧
      (aarch64SaveSp cpu env el).uncachedCpsr = env.uncachedCpsr ∧
      (aarch64SaveSp cpu env el).scrEl3 = env.scrEl3 ∧
      (aarch64SaveSp cpu env el).hcrEl2 = env.hcrEl2 ∧
      (aarch64SaveSp cpu env el).gxfStatusEl = env.gxfStatusEl := by
  unfold aarch64SaveSp
  split_ifs <;> exact ⟨rfl, rfl, rfl, rfl, rfl, rfl⟩

theorem aarch64SaveSp_daif : (aarch64SaveSp cpu env el).daif = env.daif := by
  unfold aarch64SaveSp
  split_ifs <;> rfl

@[simp]
theorem aarch64RestoreSp_frame : (aarch64RestoreSp cpu env el).aarch64 = env.aarch64 ∧
      (aarch64RestoreSp cpu env el).pstate = env.pstate ∧
      (aarch64RestoreSp cpu env el).uncachedCpsr = env.uncachedCpsr ∧
      (aarch64RestoreSp cpu env el).scrEl3 = env.scrEl3 ∧
      (aarch64RestoreSp cpu env el).hcrEl2 = env.hcrEl2 ∧
      (aarch64RestoreSp cpu env el).gxfStatusEl = env.gxfStatusEl := by
  unfold aarch64RestoreSp
  split_ifs <;> exact ⟨rfl, rfl, rfl, rfl, rfl, rfl⟩

end

/-- `update_spsel`, for the levels above EL0. -/
def updateSpsel (imm : Bool) : CPUARMState :=
  if imm = env.ownSp then env
  else
    let saved := aarch64SaveSp cpu env (armCurrentEl env)
    let env := { saved with pstate := (saved.pstate &&& ~~~1) ||| (if imm then 1 else 0) }
    aarch64RestoreSp cpu env (armCurrentEl env)

/-! ## Debug exceptions -/

/-- `arm_debug_target_el`, where EL3 is AArch64. -/
def armDebugTargetEl : EL :=
  if armIsEl2Enabled cpu env && (env.hcrEl2.getLsbD 27 || env.mdcrEl2.getLsbD 8) then 2 else 1

def aa64GenerateDebugExceptions : Bool :=
  if armCurrentEl env = 3 then false
  else if armSecuritySpaceBelowEl3 cpu env = .secure && env.mdcrEl3.getLsbD 16 then false
  else if armCurrentEl env = armDebugTargetEl cpu env then
    env.mdscrEl1.getLsbD 13 && !env.daif.getLsbD 9
  else decide (armCurrentEl env < armDebugTargetEl cpu env)

def aa32GenerateDebugExceptions : Bool :=
  if armCurrentEl env = 0 && armElIsAa64 cpu env 1 then aa64GenerateDebugExceptions cpu env
  else if armIsSecure cpu env then
    if armCurrentEl env = 0 && env.sder.getLsbD 0 then true
    else env.mdcrEl3.extractLsb' 14 2 ≠ 2
  else armCurrentEl env ≠ 2

def armGenerateDebugExceptions : Bool :=
  if env.oslsrEl1.getLsbD 0 || env.osdlrEl1.getLsbD 0 then false
  else if env.aarch64 then aa64GenerateDebugExceptions cpu env
  else aa32GenerateDebugExceptions cpu env

def armSinglestepActive : Bool :=
  env.mdscrEl1.getLsbD 0 && armElIsAa64 cpu env (armDebugTargetEl cpu env) &&
    armGenerateDebugExceptions cpu env

/-- `PSTATE.SS` is cleared unless single-stepping is active. -/
def squashSs : CPUARMState :=
  if armSinglestepActive cpu env then env else { env with pstate := env.pstate &&& ~~~pstateSs }

/-- Clearing `PSTATE.SS` changes no other of the registers that say what is current. -/
@[simp]
theorem squashSs_frame : (squashSs cpu env).aarch64 = env.aarch64 ∧
      (squashSs cpu env).uncachedCpsr = env.uncachedCpsr ∧
      (squashSs cpu env).scrEl3 = env.scrEl3 ∧
      (squashSs cpu env).hcrEl2 = env.hcrEl2 ∧
      (squashSs cpu env).gxfStatusEl = env.gxfStatusEl := by
  unfold squashSs
  split_ifs <;> exact ⟨rfl, rfl, rfl, rfl, rfl⟩

/-- Clearing `PSTATE.SS` leaves the mode. -/
theorem squashSs_mode : (squashSs cpu env).pstate.setWidth 4 = env.pstate.setWidth 4 := by
  unfold squashSs
  split_ifs
  · rfl
  · exact setWidth_and_of_allOnes (by decide)

/-- Clearing `PSTATE.SS` changes `pstate` only. -/
theorem squashSs_eq : ∃ pstate, squashSs cpu env = { env with pstate := pstate } := by
  unfold squashSs
  split_ifs
  · exact ⟨env.pstate, rfl⟩
  · exact ⟨_, rfl⟩

/-- A program state with `PSTATE.SS` cleared after it was written. -/
theorem pstateRead_squashSs : pstateRead (squashSs cpu (pstateWrite env val)) =
      if armSinglestepActive cpu (pstateWrite env val) then val else val &&& ~~~pstateSs := by
  unfold squashSs
  split_ifs
  · exact pstateRead_pstateWrite env val
  · -- `SS` is not among the bits with words of their own.
    have hss : cachedPstateBits &&& ~~~pstateSs = cachedPstateBits := by decide
    calc pstateRead _
        = (val &&& cachedPstateBits) ||| (val &&& ~~~cachedPstateBits &&& ~~~pstateSs) :=
          pstateRead_written env
      _ = (val &&& cachedPstateBits &&& ~~~pstateSs) |||
            (val &&& ~~~cachedPstateBits &&& ~~~pstateSs) := by
          rw [and_assoc val cachedPstateBits, hss]
      _ = val &&& ~~~pstateSs := by
          rw [← and_or_distrib_right, cached_or_uncached]

/-- The mode in `PSTATE` after a program state was written is the one written. -/
theorem written_mode : (squashSs cpu (pstateWrite env val)).pstate.setWidth 4 = val.setWidth 4 :=
  (squashSs_mode cpu _).trans (setWidth_and_of_allOnes (by decide))

end

/-- The mode in the program state is that of the word that holds it. -/
theorem pstateRead_mode {env : CPUARMState} (hdaif : env.daif &&& ~~~pstateDaif = 0) :
    (pstateRead env).setWidth 4 = env.pstate.setWidth 4 := by
  apply eq_of_getLsbD_eq
  intro i hi
  have hbit : env.daif.getLsbD i = false := by
    have h := congrArg (fun w => w.getLsbD i) hdaif
    interval_cases i <;> simpa [pstateDaif] using h
  rw [getLsbD_setWidth]
  simp only [pstateRead, getLsbD_or, hbit]
  by_cases hz : env.zf = 0
  · rw [if_pos hz]
    interval_cases i <;> simp
  · rw [if_neg hz]
    interval_cases i <;> simp

theorem masked_mode {spsr : BitVec 32} :
    (spsr &&& cpu.pstateValidMask).setWidth 4 = spsr.setWidth 4 := by
  have hmode : pstateM.setWidth 4 = allOnes 4 := by decide
  refine setWidth_and_of_allOnes ?_
  simp only [ARMCPU.pstateValidMask, setWidth_or, hmode, allOnes_or]

theorem armCurrentEl_congr {env : CPUARMState} (haarch64 : env'.aarch64 = env.aarch64)
    (hpstate : env'.pstate.extractLsb' 2 2 = env.pstate.extractLsb' 2 2)
    (hcpsr : env'.uncachedCpsr = env.uncachedCpsr) : armCurrentEl env' = armCurrentEl env := by
  unfold armCurrentEl CPUARMState.mode
  rw [haarch64, hpstate, hcpsr]

section

variable {env : CPUARMState} (hscr : env'.scrEl3 = env.scrEl3)

include hscr

/-- Whether EL2 is enabled follows from `SCR_EL3`. -/
theorem armIsEl2Enabled_congr : armIsEl2Enabled cpu env' = armIsEl2Enabled cpu env := by
  unfold armIsEl2Enabled armSecuritySpaceBelowEl3
  rw [hscr]

/-- The width of a level follows from `SCR_EL3` and `HCR_EL2`. -/
theorem armElIsAa64_congr (hhcr : env'.hcrEl2 = env.hcrEl2) (el : EL) :
    armElIsAa64 cpu env' el = armElIsAa64 cpu env el := by
  unfold armElIsAa64 armScrRwEff
  rw [armIsEl2Enabled_congr cpu hscr, hscr, hhcr]

/-- The effective value of `HCR_EL2` follows from `SCR_EL3` and `HCR_EL2`. -/
theorem armHcrEl2Eff_congr (hhcr : env'.hcrEl2 = env.hcrEl2) :
    armHcrEl2Eff cpu env' = armHcrEl2Eff cpu env := by
  unfold armHcrEl2Eff
  rw [armIsEl2Enabled_congr cpu hscr, armElIsAa64_congr cpu hscr hhcr, hhcr]

end

/-- Selecting a stack pointer changes neither the level nor the status bits. -/
theorem updateSpsel_frame (env : CPUARMState) (imm : Bool) :
    armCurrentEl (updateSpsel cpu env imm) = armCurrentEl env ∧
      (updateSpsel cpu env imm).gxfStatusEl = env.gxfStatusEl := by
  -- The selection is bit 0, and the level is in bits 2 and 3.
  have hel : ((env.pstate &&& ~~~1) ||| (if imm then 1 else 0)).extractLsb' 2 2 =
      env.pstate.extractLsb' 2 2 := by
    rw [extractLsb'_or, extractLsb'_and]
    have hkept : (~~~1 : BitVec 32).extractLsb' 2 2 = allOnes 2 := by decide
    have hadded : (if imm then 1 else 0 : BitVec 32).extractLsb' 2 2 = 0#2 := by
      cases imm <;> decide
    rw [hkept, hadded, and_allOnes, or_zero]
  unfold updateSpsel
  by_cases h : imm = env.ownSp
  · rw [if_pos h]
    exact ⟨rfl, rfl⟩
  · rw [if_neg h]
    refine ⟨armCurrentEl_congr ?_ ?_ ?_, ?_⟩
    · simp only [aarch64RestoreSp_frame, aarch64SaveSp_frame]
    · simpa only [aarch64RestoreSp_frame, aarch64SaveSp_frame] using hel
    · simp only [aarch64RestoreSp_frame, aarch64SaveSp_frame]
    · simp only [aarch64RestoreSp_frame, aarch64SaveSp_frame]

/-! ## The processor of the A13 -/

/-- A processor with guarded execution. -/
structure GxfCpu extends ARMCPU where
  gxf_eq : gxf = true

/-- The processor type `apple-gxf` as the A13 uses it, without EL2 and EL3. -/
def appleA13 : GxfCpu where
  el2 := false
  el3 := false
  gxf := true
  aa32 := true
  aa32El2 := true
  rme := false
  bti := true
  pan := true
  uao := true
  dit := true
  ssbs := true
  mte := false
  nmi := false
  cpsrExtra := 0xE00000
  gxf_eq := rfl

/-- AArch64 code at a level with its own stack pointer, with all other registers zero. -/
def CPUARMState.zeroAt (el : EL) : CPUARMState where
  aarch64 := true
  nf := 0
  zf := 1
  cf := 0
  vf := 0
  daif := 0
  btype := 0
  pstate := (el.setWidth 32 <<< 2) ||| 1
  uncachedCpsr := 0
  qf := 0
  thumb := 0
  condexecBits := 0
  ge := 0
  regs15 := 0
  pc := 0
  sp := 0
  spEl _ := 0
  elrEl _ := 0
  bankedSpsr _ := 0
  vbarEl _ := 0
  esrEl _ := 0
  farEl _ := 0
  tpidrEl _ := 0
  sctlrEl _ := 0
  hcrEl2 := 0
  scrEl3 := 0
  mdscrEl1 := 0
  mdcrEl2 := 0
  mdcrEl3 := 0
  sder := 0
  oslsrEl1 := 0
  osdlrEl1 := 0
  vsesrEl2 := 0
  vmsaLockEl1 := 0
  gxfEnterEl _ := 0
  gxfStatusEl _ := 0
  gxfAbortEl _ := 0
  spGl _ := 0
  tpidrGl _ := 0
  vbarGl _ := 0
  spsrGl _ := 0
  esrGl _ := 0
  elrGl _ := 0
  farGl _ := 0

end Inferno.Gxf
