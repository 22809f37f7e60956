import Inferno.Gxf.State

/-!
# Permissions of a stage 1 descriptor

The permission functions of `target/arm/ptw.c` for descriptors of the long format. With SPRR
enabled, the bits `AP`, `UXN` and `PXN` of a descriptor do not state a permission: together they
select one of sixteen four-bit attributes of a permission register, and the attribute has one
permission for ordinary execution and another one for guarded execution (`sprrProt`). `getS1prot`
turns the result into the permissions of the page, and takes away what `WXN`, `PAN` and the security
state forbid.

The processors have AArch64 at their highest exception level, and so version 7 of the architecture
and the long descriptor format: the branches of `get_S1prot` for processors without are left out.
-/

namespace Inferno.Ptw

open Gxf

/-! ## State -/

/-- The features of a processor that a table walk looks at. -/
structure MmuCpu extends ARMCPU where
  /-- `PAN3`: privileged access never takes account of execution. -/
  pan3 : Bool
  /-- EL2 in the secure state. -/
  sel2 : Bool
  /-- `ID_AA64MMFR0.PARANGE`: the index of the supported size of physical addresses. -/
  parange : ℕ

/-- The processor state with the registers of address translation. -/
structure MmuState extends CPUARMState where
  /-- `SPRR_CONFIG`, whose low bit enables SPRR at a level. -/
  sprrConfigEl : EL → BitVec 64
  /-- `sprr_el_br_el1[el][el]`: the permission register of a level. -/
  sprrElBrEl1 : EL → BitVec 64
  mairEl : EL → BitVec 64
  /-- The configuration registers exist for EL0 and EL1 alone. -/
  sprr_low : ∀ el, (sprrConfigEl el).getLsbD 0 = true → el < 2

/-- `ARMFaultType`, as far as a walk of stage 1 reports it. -/
inductive ARMFaultType where
  | accessFlag | alignment | permission | translation | addressSize | gxfAbort
  deriving DecidableEq

/-- A fault of an access to a translation table. -/
inductive WalkFault where
  | stage2 | syncExternalOnWalk | gpcfOnWalk | unsuppAtomicUpdate
  deriving DecidableEq

/-- What ends a walk without a translation. -/
inductive Stop where
  /-- A failed assertion ends the emulator. -/
  | assertion
  | fault (type : ARMFaultType) (level : ℤ)
  /-- A fault of an access to a table. -/
  | onWalk (fault : WalkFault)
  deriving DecidableEq

/-- Permissions: `PAGE_READ`, `PAGE_WRITE` and `PAGE_EXEC`. -/
structure Prot where
  read : Bool
  write : Bool
  exec : Bool
  deriving DecidableEq

/-! ## Translation regimes -/

/-- `ARMMMUIdx`, of a walk of stage 1. -/
inductive ARMMMUIdx where
  | stage1E0 | stage1E1 | stage1E1Pan | stage1GE1 | stage1GE1Pan
  | e20_0 | e20_2 | e20_2Pan | gE20_2 | gE20_2Pan | e2 | gE2
  | e3 | e30_0 | e30_3Pan | gE3 | gE30_3Pan
  deriving DecidableEq

def ARMMMUIdx.isGuarded : ARMMMUIdx → Bool
  | .stage1GE1 | .stage1GE1Pan | .gE20_2 | .gE20_2Pan | .gE2 | .gE3 | .gE30_3Pan => true
  | _ => false

def regimeHas2Ranges : ARMMMUIdx → Bool
  | .stage1E0 | .stage1E1 | .stage1E1Pan | .stage1GE1 | .stage1GE1Pan
  | .e20_0 | .e20_2 | .e20_2Pan | .gE20_2 | .gE20_2Pan => true
  | _ => false

def regimeIsPan : ARMMMUIdx → Bool
  | .stage1E1Pan | .stage1GE1Pan | .e20_2Pan | .e30_3Pan | .gE20_2Pan | .gE30_3Pan => true
  | _ => false

def regimeEl : ARMMMUIdx → EL
  | .e20_0 | .e20_2 | .e20_2Pan | .e2 | .gE20_2 | .gE20_2Pan | .gE2 => 2
  | .e3 | .e30_0 | .e30_3Pan | .gE3 | .gE30_3Pan => 3
  | _ => 1

def regimeIsUser : ARMMMUIdx → Bool
  | .e20_0 | .e30_0 | .stage1E0 => true
  | _ => false

variable (env : MmuState)

variable (idx : ARMMMUIdx)

def regimeSctlr : BitVec 64 := env.sctlrEl (regimeEl idx)

/-! ## SPRR -/

def armIsSprrEnabled : Bool :=
  (env.sprrConfigEl (armCurrentEl env.toCPUARMState)).getLsbD 0

/-- The bits of a descriptor that state its permissions. -/
structure PermBits where
  /-- `AP[2:1]`. -/
  ap : BitVec 2
  /-- `UXN`. -/
  xn : Bool
  pxn : Bool
  deriving DecidableEq

variable (b : PermBits)

/-- The index that the bits of a descriptor form. -/
def PermBits.sprrIdx : BitVec 4 := b.ap ++ BitVec.ofBool b.xn ++ BitVec.ofBool b.pxn

def sprrExtractIdxAttr (sprrValue : BitVec 64) (idx : BitVec 4) : BitVec 4 :=
  sprrValue.extractLsb' (idx.toNat * 4) 4

/-- The permissions of an attribute. -/
def sprrProt (attr : BitVec 4) (guarded : Bool) : Prot :=
  let el := attr.extractLsb' 0 2
  let gl := attr.extractLsb' 2 2
  if guarded then
    if gl = 0 then ⟨false, false, false⟩
    else if gl = 1 then ⟨true, false, true⟩
    else if gl = 2 then ⟨true, false, false⟩
    else ⟨true, true, false⟩
  else if el = 0 then ⟨false, false, false⟩
  else if el = 1 then if gl = 2 then ⟨false, false, true⟩ else ⟨true, false, true⟩
  else if el = 2 then ⟨true, false, false⟩
  -- No access in ordinary execution to what guarded execution runs.
  else if gl = 1 then ⟨false, false, false⟩ else ⟨true, true, false⟩

/-- The attribute that the bits of a descriptor select in the permission register of the current
level. -/
def sprrAttr : BitVec 4 :=
  sprrExtractIdxAttr (env.sprrElBrEl1 (armCurrentEl env.toCPUARMState)) b.sprrIdx

def pteToSprrProtIsGuarded (guarded : Bool) : Except Stop Prot :=
  if armIsSprrEnabled env = false then .ok ⟨true, true, true⟩
  else if armCurrentEl env.toCPUARMState < 2 then .ok (sprrProt (sprrAttr env b) guarded)
  else .error .assertion

variable (cpu : MmuCpu)

section

variable (env : MmuState) (idx : ARMMMUIdx) (isAa64 : Bool) (userRw protRw : Prot) (xn pxn : Bool)
  (inPa outPa : ARMSecuritySpace)

def pteToSprrProt (b : PermBits) : Except Stop Prot :=
  pteToSprrProtIsGuarded env b (armIsGuarded cpu.toARMCPU env.toCPUARMState)

theorem pteToSprrProtIsGuarded_eq (h : armIsSprrEnabled env = true) (b : PermBits)
    (guarded : Bool) :
    pteToSprrProtIsGuarded env b guarded = .ok (sprrProt (sprrAttr env b) guarded) := by
  have hlow := env.sprr_low _ h
  rw [pteToSprrProtIsGuarded, if_neg (by rw [h]; decide), if_pos hlow]

/-! ## Permissions of a page -/

def simpleApToRwProtIsUser (ap : BitVec 2) (isUser : Bool) : Prot :=
  if ap = 0 then ⟨!isUser, !isUser, false⟩
  else if ap = 1 then ⟨true, true, false⟩
  else if ap = 2 then ⟨!isUser, false, false⟩
  else ⟨true, false, false⟩

/-- Privileged access never forbids data accesses to pages that EL0 can use. -/
def panProt (xn : Bool) : Prot :=
  if (userRw.read || userRw.write) && regimeIsPan idx then ⟨false, false, false⟩
  else if cpu.pan3 && isAa64 && regimeIsPan idx && (regimeSctlr env idx).getLsbD 57 && !xn then
    ⟨false, false, false⟩
  else protRw

/-- The data permissions of `get_S1prot`, before execution is decided. -/
def dataProt (xn : Bool) : Prot :=
  if regimeIsUser idx then
    if armIsSprrEnabled env then protRw else userRw
  else panProt cpu env idx isAa64 userRw protRw xn

/-- Whether a page of another security space than the one of the walk may not be executed. -/
def spaceForbidsExec : Except Stop Bool :=
  if inPa = outPa then .ok false
  else
    match inPa with
    | .root => .ok true
    | .realm =>
      match idx with
      | .e2 | .e20_0 | .e20_2 | .e20_2Pan => .ok true
      | .gE2 | .gE20_2 | .gE20_2Pan => .error .assertion
      | _ => .ok false
    | .secure => .ok (env.scrEl3.getLsbD 9)
    | .nonSecure => .error .assertion

/-- Whether the execute-never bits, or those that stand for them, forbid execution. -/
def execNever : Bool :=
  let isUser := regimeIsUser idx
  let xn := if armIsSprrEnabled env then pxn else xn
  if isAa64 then
    if regimeHas2Ranges idx && !isUser then pxn || userRw.write else xn
  else if regimeEl idx = 2 then xn
  else if isUser then xn || !userRw.read
  else xn || !protRw.read || pxn || ((regimeSctlr env idx).getLsbD 20 && userRw.write)

def getS1prot : Except Stop Prot := do
  let protRw := dataProt cpu env idx isAa64 userRw protRw xn
  let forbidden ← spaceForbidsExec env idx inPa outPa
  let wxn := (regimeSctlr env idx).getLsbD 19
  .ok { protRw with
    exec := !(forbidden || execNever env idx isAa64 userRw protRw xn pxn || (wxn && protRw.write)) }

end

section

variable {env : MmuState} (h : armIsSprrEnabled env = true) (idx : ARMMMUIdx)

include h

theorem execNever_of_sprr (isAa64 : Bool) (userRw protRw : Prot) :
    execNever env idx isAa64 userRw protRw true true = true := by
  unfold execNever
  simp only [h]
  split_ifs <;> rfl

/-- `get_S1prot` returns where the spaces are those of a walk; with SPRR enabled, what it returns
denies execution wherever both execute-never bits are set. -/
theorem getS1prot_spec {idx : ARMMMUIdx} {inPa outPa : ARMSecuritySpace} {forbidden : Bool}
    (hspace : spaceForbidsExec env idx inPa outPa = .ok forbidden) (isAa64 : Bool)
    (userRw protRw : Prot) (xn : Bool) :
    ∃ prot, getS1prot cpu env idx isAa64 userRw protRw xn xn inPa outPa = .ok prot ∧
      (xn = true → prot.exec = false) := by
  unfold getS1prot
  rw [hspace]
  refine ⟨_, rfl, ?_⟩
  rintro rfl
  simp [execNever_of_sprr h]

end

end Inferno.Ptw
