import Mathlib.Algebra.Group.Nat.Defs
import Inferno.Bitops

/-!
# The interrupt controller model

`hw/intc/apple_aic.c`: the state of the controller and of its CPUs, the distribution of pending
interrupts (`apple_aic_update`), the MMIO handlers, and the step function of everything that can
happen to the controller. Interrupt lines are levels; the external interrupts are bitmaps of 32-bit
words, of which there are `numEIR`.

Each CPU has its own view of the registers, and there is an alias of every view for all CPUs. An
access to an alias calls the handler again with an address of the view, which is no alias.
-/

namespace Inferno.Aic

open Common Bitops

/-! ## State -/

/-- What `apple_aic_create` is given. -/
structure Config where
  numCPU : ℕ
  numEIR : ℕ
  /-- The offset of the timer registers. -/
  time_base : ℕ
  /-- `apple_aic_realize` asserts that there is a CPU. -/
  numCPU_pos : 0 < numCPU
  /-- The masks of CPUs are 32-bit words, with a bit for the IPI of a CPU to itself. -/
  numCPU_le : numCPU ≤ 31

variable (cfg : Config)

def Config.numIRQ : ℕ := 32 * cfg.numEIR

/-- `AppleAICCPU`, with the level of its line. -/
structure AppleAICCPU where
  /-- `pendingIPI`: the CPUs that sent an IPI, and `AIC_IPI_SELF`. -/
  pendingIPI : BitVec 32
  deferredIPI : BitVec 32
  ipi_mask : BitVec 32
  irq : Bool

structure AppleAICState where
  global_cfg : BitVec 32
  /-- `eir_mask`: a set bit masks the interrupt. -/
  eir_mask : Bitmap
  /-- `eir_dest`: for each interrupt, the CPUs that may take it. -/
  eir_dest : ℕ → BitVec 32
  /-- `eir_state`: the pending interrupts. -/
  eir_state : Bitmap
  cpus : ℕ → AppleAICCPU

/-- The state that `apple_aic_realize` leaves. -/
def realized : AppleAICState :=
  ⟨0, fun _ => 0, fun _ => 0, fun _ => 0, fun _ => ⟨0, 0, 0, false⟩⟩

/-- The word `1 << k`. -/
def bit (k : ℕ) : BitVec 32 := BitVec.twoPow 32 k

def ipiNormal : BitVec 32 := bit 0

def ipiSelf : BitVec 32 := bit 31

/-- The mask of the CPUs that exist. -/
def Config.cpuMask : BitVec 32 := bit cfg.numCPU - 1

variable (cpu : AppleAICCPU)

/-- An IPI of the CPU to itself is pending and not masked. -/
def AppleAICCPU.owesSelf : Prop :=
  cpu.pendingIPI &&& ipiSelf &&& ~~~cpu.ipi_mask ≠ 0

/-- An IPI from a CPU that exists is pending and not masked. -/
def AppleAICCPU.owesNormal : Prop :=
  ~~~cpu.ipi_mask &&& ipiNormal ≠ 0 ∧ cpu.pendingIPI &&& cfg.cpuMask ≠ 0

instance (cpu : AppleAICCPU) : Decidable cpu.owesSelf := inferInstanceAs (Decidable (_ ≠ _))

instance (cfg : Config) (cpu : AppleAICCPU) : Decidable (cpu.owesNormal cfg) :=
  inferInstanceAs (Decidable (_ ∧ _))

/-! ## `apple_aic_update` -/

variable (s : AppleAICState)

/-- The first loop: deferred IPIs become pending. -/
def undefer : AppleAICState :=
  { s with cpus := fun i =>
      if i < cfg.numCPU then
        { s.cpus i with
          pendingIPI := (s.cpus i).pendingIPI ||| (s.cpus i).deferredIPI
          deferredIPI := 0 }
      else s.cpus i }

/-- The second loop: the CPUs that are owed an IPI. -/
def ipiIntr : BitVec 32 :=
  (List.range cfg.numCPU).foldl (fun intr i =>
    let intr := if (s.cpus i).owesSelf then intr ||| bit i else intr
    if (s.cpus i).owesNormal cfg then intr ||| bit i else intr) 0

/-- One round of the third loop, for the pending interrupt `i`, on `intr` and `potential`. -/
def distribute (acc : BitVec 32 × BitVec 32) (i : ℕ) : BitVec 32 × BitVec 32 :=
  let (intr, potential) := acc
  let dest := s.eir_dest i
  if testBit32 s.eir_mask i = false ∧ dest ≠ 0 then
    if intr &&& dest = 0 then
      -- The interrupt does not have a CPU yet; the search may return `numCPU`.
      let cpu := findFirstBit32 (fun k => s.eir_dest (i + k)) cfg.numCPU
      (intr ||| bit cpu, potential ||| dest)
    else
      -- It has one; another CPU may take some of the earlier interrupts.
      match (List.range cfg.numCPU).find? fun k => !intr.getLsbD k && potential.getLsbD k with
      | some k => (intr ||| bit k, potential)
      | none => acc
  else acc

/-- The CPUs that `apple_aic_update` raises the line of. -/
def intrOf : BitVec 32 :=
  ((setBits s.eir_state cfg.numIRQ).foldl (distribute cfg s) (ipiIntr cfg s, 0)).1

/-- `apple_aic_update`. -/
def update : AppleAICState :=
  let s := undefer cfg s
  let intr := intrOf cfg s
  { s with cpus := fun i =>
      if i < cfg.numCPU then { s.cpus i with irq := (s.cpus i).irq || intr.getLsbD i }
      else s.cpus i }

/-! ## The other entry points -/

/-- `apple_aic_set_irq`. -/
def setIrq (irq : ℕ) (level : Bool) : AppleAICState :=
  { s with eir_state := if level then setBit32 s.eir_state irq else clearBit32 s.eir_state irq }

/-- `apple_aic_reset`. -/
def reset : AppleAICState :=
  { s with
    eir_mask := fun w => if w < cfg.numEIR then BitVec.allOnes 32 else s.eir_mask w
    eir_dest := fun i => if i < cfg.numIRQ then 0 else s.eir_dest i
    cpus := fun i =>
      if i < cfg.numCPU then ⟨0, 0, ipiNormal ||| ipiSelf, (s.cpus i).irq⟩ else s.cpus i }

/-! ## The register map -/

/-- The case labels of the two MMIO handlers; those of a range have the index in it. -/
inductive Label where
  | rev
  | cap0
  | rst
  | glbCfg
  | whoami
  | iack
  | ipiSet
  | ipiClr
  | ipiMaskSet
  | ipiMaskClr
  | ipiDeferSet
  | ipiDeferClr
  /-- `REG_AIC_EIR_DEST`. -/
  | eirDest (vector : ℕ)
  | eirSwSet (eir : ℕ)
  | eirSwClr (eir : ℕ)
  | eirMaskSet (eir : ℕ)
  | eirMaskClr (eir : ℕ)
  | eirIntRo (eir : ℕ)
  /-- The aliases, `REG_AIC_WHOAMI_Pn` and those behind it: the CPU and the address in its view. -/
  | alias (cpu addr : ℕ)
  | default
  deriving DecidableEq

def aicIntCount : ℕ := 576

def aicNumEirs : ℕ := 18

def aicCpuCount : ℕ := 6

/-- The label of an address. The ranges include the index that their macro is given last. -/
def label (addr : ℕ) : Label :=
  if addr = 0x0000 then .rev
  else if addr = 0x0004 then .cap0
  else if addr = 0x000C then .rst
  else if addr = 0x0010 then .glbCfg
  else if addr = 0x2000 then .whoami
  else if addr = 0x2004 then .iack
  else if addr = 0x2008 then .ipiSet
  else if addr = 0x200C then .ipiClr
  else if addr = 0x2024 then .ipiMaskSet
  else if addr = 0x2028 then .ipiMaskClr
  else if addr = 0x202C then .ipiDeferSet
  else if addr = 0x2030 then .ipiDeferClr
  else if 0x3000 ≤ addr ∧ addr ≤ 0x3000 + aicIntCount * 4 then .eirDest ((addr - 0x3000) / 4)
  else if 0x4000 ≤ addr ∧ addr ≤ 0x4000 + aicNumEirs * 4 then .eirSwSet ((addr - 0x4000) / 4)
  else if 0x4080 ≤ addr ∧ addr ≤ 0x4080 + aicNumEirs * 4 then .eirSwClr ((addr - 0x4080) / 4)
  else if 0x4100 ≤ addr ∧ addr ≤ 0x4100 + aicNumEirs * 4 then .eirMaskSet ((addr - 0x4100) / 4)
  else if 0x4180 ≤ addr ∧ addr ≤ 0x4180 + aicNumEirs * 4 then .eirMaskClr ((addr - 0x4180) / 4)
  else if 0x4200 ≤ addr ∧ addr ≤ 0x4200 + aicNumEirs * 4 then .eirIntRo ((addr - 0x4200) / 4)
  else if 0x5000 ≤ addr ∧ addr ≤ 0x5000 + aicCpuCount * 0x80 - 4 then
    let cpu := (addr - 0x5000) / 0x80
    .alias cpu (addr - 0x5000 + 0x2000 - 0x80 * cpu)
  else .default

/-! ## Register writes -/

variable (val : BitVec 32)

section

variable (o : ℕ) (f : AppleAICCPU → AppleAICCPU) (cpus : ℕ → AppleAICCPU)

/-- The loop over the CPUs that are named in `val`. -/
def forNamed : ℕ → AppleAICCPU := fun i =>
  if i < cfg.numCPU ∧ val.getLsbD i then f (cpus i) else cpus i

/-- What follows the loop when `val` has `AIC_IPI_SELF`: the same for the accessing CPU. -/
def forSelf : ℕ → AppleAICCPU :=
  if val.getLsbD 31 then Function.update cpus o (f (cpus o)) else cpus

end

section

variable (cfg : Config) (s : AppleAICState) (o addr : ℕ) (val : BitVec 32)

/-- `apple_aic_write` in the view of the CPU `o`, the aliases left out. -/
def writeReg : AppleAICState :=
  match label addr with
  | .rst => reset cfg s
  | .glbCfg => { s with global_cfg := val }
  | .ipiSet =>
    let cpus := forNamed cfg val (fun cpu => { cpu with
      pendingIPI := cpu.pendingIPI ||| bit o
      irq := cpu.irq || decide (~~~cpu.ipi_mask &&& ipiNormal ≠ 0) }) s.cpus
    { s with cpus := forSelf val o (fun cpu => { cpu with
      pendingIPI := cpu.pendingIPI ||| ipiSelf
      irq := cpu.irq || decide (~~~cpu.ipi_mask &&& ipiSelf ≠ 0) }) cpus }
  | .ipiClr =>
    let cpus := forNamed cfg val (fun cpu => { cpu with
      pendingIPI := cpu.pendingIPI &&& ~~~bit o }) s.cpus
    { s with cpus := forSelf val o (fun cpu => { cpu with
      pendingIPI := cpu.pendingIPI &&& ~~~ipiSelf }) cpus }
  | .ipiMaskSet =>
    let cpu := s.cpus o
    { s with cpus := Function.update s.cpus o { cpu with
      ipi_mask := cpu.ipi_mask ||| (val &&& (ipiNormal ||| ipiSelf)) } }
  | .ipiMaskClr =>
    let cpu := s.cpus o
    { s with cpus := Function.update s.cpus o { cpu with
      ipi_mask := cpu.ipi_mask &&& ~~~(val &&& (ipiNormal ||| ipiSelf)) } }
  | .ipiDeferSet =>
    let cpus := forNamed cfg val (fun cpu => { cpu with
      deferredIPI := cpu.deferredIPI ||| bit o }) s.cpus
    { s with cpus := forSelf val o (fun cpu => { cpu with
      deferredIPI := cpu.deferredIPI ||| ipiSelf }) cpus }
  | .ipiDeferClr =>
    let cpus := forNamed cfg val (fun cpu => { cpu with
      deferredIPI := cpu.deferredIPI &&& ~~~bit o }) s.cpus
    { s with cpus := forSelf val o (fun cpu => { cpu with
      deferredIPI := cpu.deferredIPI &&& ~~~ipiSelf }) cpus }
  | .eirDest vector =>
    if vector ≥ cfg.numIRQ then s
    else { s with eir_dest := Function.update s.eir_dest vector val }
  | .eirSwSet eir =>
    if eir ≥ cfg.numEIR then s
    else { s with eir_state := Function.update s.eir_state eir (s.eir_state eir ||| val) }
  | .eirSwClr eir =>
    if eir ≥ cfg.numEIR then s
    else { s with eir_state := Function.update s.eir_state eir (s.eir_state eir &&& ~~~val) }
  | .eirMaskSet eir =>
    if eir ≥ cfg.numEIR then s
    else { s with eir_mask := Function.update s.eir_mask eir (s.eir_mask eir ||| val) }
  | .eirMaskClr eir =>
    if eir ≥ cfg.numEIR then s
    else { s with eir_mask := Function.update s.eir_mask eir (s.eir_mask eir &&& ~~~val) }
  | _ => s

/-- The view and the address that an access of the CPU `o` ends up at, `none` for an alias of a
CPU that does not exist. -/
def target : Option (ℕ × ℕ) :=
  match label addr with
  | .alias cpu addr => if cpu ≥ cfg.numCPU then none else some (cpu, addr)
  | _ => some (o, addr)

/-- `apple_aic_write` by the CPU `o`. -/
def write : AppleAICState :=
  match target cfg o addr with
  | none => s
  | some (o, addr) => writeReg cfg s o addr val

end

/-! ## Register reads -/

/-- `kAIC_INT_SPURIOUS`. -/
def intSpurious : ℕ := 0x00000

/-- `kAIC_INT_EXT`. -/
def intExt : ℕ := 0x10000

/-- `kAIC_INT_IPI | kAIC_INT_IPI_NORM`. -/
def intIpiNorm : ℕ := 0x40000 ||| 0x40001

/-- `kAIC_INT_IPI | kAIC_INT_IPI_SELF`. -/
def intIpiSelf : ℕ := 0x40000 ||| 0x40002

def intExtid (v : ℕ) : ℕ := v &&& 0x3FF

/-- The interrupt is not masked and is destined to the CPU: what the loop of the `IACK` case looks
for among the pending ones. -/
def deliverable (o i : ℕ) : Bool :=
  !testBit32 s.eir_mask i && (s.eir_dest i).getLsbD o

/-- The `REG_AIC_IACK` case of `apple_aic_read`: the line is lowered, and what is returned is masked
until it is handled. -/
def iack (o : ℕ) : AppleAICState × ℕ :=
  let cpu := { s.cpus o with irq := false }
  if cpu.owesSelf then
    ({ s with cpus := Function.update s.cpus o { cpu with ipi_mask := cpu.ipi_mask ||| ipiSelf } },
      intIpiSelf)
  else if cpu.owesNormal cfg then
    ({ s with
        cpus := Function.update s.cpus o { cpu with ipi_mask := cpu.ipi_mask ||| ipiNormal } },
      intIpiNorm)
  else
    let s := { s with cpus := Function.update s.cpus o cpu }
    match (setBits s.eir_state cfg.numIRQ).find? (deliverable s o) with
    | some i => ({ s with eir_mask := setBit32 s.eir_mask i }, intExt ||| intExtid i)
    | none => (s, intSpurious)

/-- `apple_aic_emulate_timer`, from the virtual clock in nanoseconds. -/
def emulateTimer (clock : ℕ) : ℕ := clock / (1000000000 / 24000000)

/-- The value `-1` that `apple_aic_read` ends with. -/
def noValue : ℕ := 2^64 - 1

variable (o addr clock : ℕ)

/-- `apple_aic_read` in the view of the CPU `o`, the aliases left out: the state after it, and the
value. -/
def readReg : AppleAICState × ℕ :=
  match label addr with
  | .rev => (s, 2)
  | .cap0 => (s, (cfg.numCPU - 1) <<< 16 ||| cfg.numIRQ)
  | .glbCfg => (s, s.global_cfg.toNat)
  | .whoami => (s, o)
  | .iack => iack cfg s o
  | .ipiMaskSet => (s, (s.cpus o).ipi_mask.toNat)
  | .ipiMaskClr => (s, (s.cpus o).ipi_mask.toNat)
  | .eirDest vector => (s, if vector ≥ cfg.numIRQ then noValue else (s.eir_dest vector).toNat)
  | .eirMaskSet eir => (s, if eir ≥ cfg.numEIR then noValue else (s.eir_mask eir).toNat)
  | .eirMaskClr eir => (s, if eir ≥ cfg.numEIR then noValue else (s.eir_mask eir).toNat)
  | .eirIntRo eir => (s, if eir ≥ cfg.numEIR then noValue else (s.eir_state eir).toNat)
  | _ =>
    -- The timer is among the offsets without a label.
    if addr = cfg.time_base + 0x20 then (s, emulateTimer clock &&& 0xFFFFFFFF)
    else if addr = cfg.time_base + 0x28 then (s, emulateTimer clock >>> 32 &&& 0xFFFFFFFF)
    else (s, noValue)

/-- `apple_aic_read` by the CPU `o`. -/
def read : AppleAICState × ℕ :=
  match target cfg o addr with
  | none => (s, noValue)
  | some (o, addr) => readReg cfg s o addr clock

/-! ## The controller -/

/-- What happens to the controller. -/
inductive Op where
  | setIrq (irq : ℕ) (level : Bool)
  | write (o addr : ℕ) (val : BitVec 32)
  /-- A CPU reads a register, at a time of the virtual clock. -/
  | read (o addr clock : ℕ)
  /-- `apple_aic_tick`. -/
  | tick
  | reset
  deriving DecidableEq

/-- The controller after an operation. -/
def step (cfg : Config) (s : AppleAICState) : Op → AppleAICState
  | .setIrq irq level => setIrq s irq level
  | .write o addr val => write cfg s o addr val
  | .read o addr clock => (read cfg s o addr clock).1
  | .tick => update cfg s
  | .reset => reset cfg s

end Inferno.Aic
