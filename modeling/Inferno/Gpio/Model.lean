import Mathlib.Algebra.Group.Nat.Defs
import Inferno.Bitops
import Inferno.Common.Stateful

/-!
# GPIO controller

The controller of `hw/gpio/apple_gpio.c` keeps a configuration word for each pin, the levels of the
pins and the levels before, and one row of words for each interrupt group with the pins that have
raised an interrupt. The configuration of a pin selects its group with three bits.

The rows are `pin_count` words apart, while the register window of a group has sixteen words. An
access to an array fails in this model when its index is not below the length of the array, and is
noted otherwise.
-/

namespace Inferno.Gpio

open Common Bitops Function

/-! ## State -/

/-- The numbers of pins and of interrupt groups that `apple_gpio_new` accepts. -/
structure Counts where
  pinCount : BitVec 32
  /-- The number of interrupt groups. -/
  irqGroupCount : BitVec 32
  /-- It asserts that there are less than `GPIO_MAX_PIN_NR` pins. -/
  pinCount_lt : pinCount.toNat < 512

/-- The arrays of words of the controller. -/
inductive Block where
  /-- `gpio_cfg`, the configuration of the pins. -/
  | gpioCfg
  /-- `int_config`, the rows of the interrupt groups. -/
  | intConfig
  /-- `in`, the levels of the pins. -/
  | input
  /-- `in_old`, their levels before. -/
  | inOld
  deriving DecidableEq

/-- The length an array is allocated with. -/
def Counts.len (c : Counts) : Block → ℕ
  | .gpioCfg => c.pinCount.toNat
  | .intConfig => (c.irqGroupCount * c.pinCount).toNat
  | .input | .inOld => ((c.pinCount + 31) / 32).toNat

structure AppleGPIOState (c : Counts) where
  /-- The levels of the interrupt lines, one for each group. -/
  irqs : ℕ → Bool
  /-- The levels of the output lines, one for each pin. -/
  out : ℕ → Bool
  words : Block → Bitmap
  /-- The register `REG_GPIO_NPL_IN_EN`. -/
  npl : BitVec 32
  /-- The words that the last operation has accessed. -/
  touched : List (Block × ℕ)

def appleGpioNew (c : Counts) : AppleGPIOState c where
  irqs _ := false
  out _ := false
  words _ _ := 0
  npl := 0
  touched := []

variable {c : Counts}

/-- What the functions of the controller do; an access outside of an array fails. -/
abbrev GpioM (c : Counts) := StateT (AppleGPIOState c) Option

/-! ## Accesses -/

variable (b : Block)

/-- A word is read. -/
def load (i : ℕ) : GpioM c (BitVec 32) := fun s =>
  if i < c.len b then some (s.words b i, { s with touched := (b, i) :: s.touched }) else none

/-- A word is written. -/
def store (i : ℕ) (v : BitVec 32) : GpioM c Unit := fun s =>
  if i < c.len b then
    some ((), { s with
      words := update s.words b (update (s.words b) i v)
      touched := (b, i) :: s.touched })
  else none

/-- `qemu_set_irq` of an interrupt line. -/
def setIrq (group : ℕ) (level : Bool) : GpioM c Unit := fun s =>
  if group < c.irqGroupCount.toNat then
    some ((), { s with irqs := update s.irqs group level })
  else none

variable (pin : ℕ)

variable (level : Bool)

/-- `qemu_set_irq` of an output line. -/
def setOut : GpioM c Unit := fun s =>
  if pin < c.pinCount.toNat then some ((), { s with out := update s.out pin level })
  else none

variable (base nr : ℕ)

/-- `set_bit32` and `set_bit32_atomic`, of the bits from the word `base` on. -/
def setBit : GpioM c Unit := do
  let v ← load b (base + nr / 32)
  store b (base + nr / 32) (v ||| BitVec.twoPow 32 (nr % 32))

/-- `clear_bit32` and `clear_bit32_atomic`. -/
def clearBit : GpioM c Unit := do
  let v ← load b (base + nr / 32)
  store b (base + nr / 32) (v &&& ~~~BitVec.twoPow 32 (nr % 32))

def testBit : GpioM c Bool := do
  let v ← load b (base + nr / 32)
  pure (v.getLsbD (nr % 32))

/-- The loop of `find_first_bit32` over the words of `int_config` from `base` on. -/
def firstLoop (base size : ℕ) : ℕ → ℕ → GpioM c ℕ
  | 0, _ => pure size
  | fuel + 1, result =>
    if result < size then do
      -- The last word is read as a whole, also where the bits end within it.
      let tmp ← load .intConfig (base + result / 32)
      if tmp ≠ 0 then
        let result := result + ctz32 tmp
        pure (if result < size then result else size)
      else firstLoop base size fuel (result + 32)
    else pure size

def findFirstBit (base size : ℕ) : GpioM c ℕ := firstLoop base size (size + 1) 0

/-! ## Configuration words -/

def data1 : BitVec 32 := 1 <<< 0
def cfgGpOut : BitVec 32 := 1 <<< 1
def cfgIntLvlHi : BitVec 32 := 2 <<< 1
def cfgIntLvlLo : BitVec 32 := 3 <<< 1
def cfgIntEdgRis : BitVec 32 := 4 <<< 1
def cfgIntEdgFal : BitVec 32 := 5 <<< 1
def cfgIntEdgAny : BitVec 32 := 6 <<< 1
def cfgDisable : BitVec 32 := 7 <<< 1
def cfgMask : BitVec 32 := 7 <<< 1
def funcAlt0 : BitVec 32 := 1 <<< 5
def funcMask : BitVec 32 := 3 <<< 5
def inputEnable : BitVec 32 := 1 <<< 9
def intMasked : BitVec 32 := 7 <<< 16
def cfgDisabled : BitVec 32 := cfgDisable ||| intMasked
def cfgFunc0 : BitVec 32 := inputEnable ||| funcAlt0 ||| intMasked

variable (cfg : BitVec 32)

/-- What is done for the interrupt group that a configuration selects, unless it is masked. -/
def whenGroup (f : ℕ → GpioM c Unit) : GpioM c Unit :=
  if cfg &&& intMasked ≠ intMasked then f ((cfg &&& intMasked) >>> 16).toNat else pure ()

/-- The bit of a pin in the row of a group is set. -/
def raise (pin irqgrp : ℕ) : GpioM c Unit :=
  setBit .intConfig (irqgrp * c.pinCount.toNat) pin

/-- The line of a group follows its row. -/
def updateIrq (irqgrp : ℕ) : GpioM c Unit := do
  let first ← findFirstBit (irqgrp * c.pinCount.toNat) c.pinCount.toNat
  setIrq irqgrp (first ≠ c.pinCount.toNat)

/-! ## Configuration of a pin -/

variable (value : BitVec 32)

section

variable (level : Bool) (irqgrp : ℕ)

/-- An interrupt on a level is raised when the pin has the level already. -/
def raiseOnLevel : GpioM c Unit :=
  if value &&& cfgMask = cfgIntLvlHi then do
    let level ← testBit .input 0 pin
    if level then raise pin irqgrp else pure ()
  else if value &&& cfgMask = cfgIntLvlLo then do
    let level ← testBit .input 0 pin
    if level then pure () else raise pin irqgrp
  else pure ()

/-- The row and the line of the group that a pin is configured for. -/
def configureGroup : GpioM c Unit := do
  clearBit .intConfig (irqgrp * c.pinCount.toNat) pin
  raiseOnLevel pin value irqgrp
  updateIrq irqgrp

/-- The output line of a pin that is configured. -/
def drive : GpioM c Unit :=
  if value &&& funcMask ≠ 0 then
    if value &&& funcMask = funcAlt0 then
      if value &&& cfgMask = cfgDisable then pure ()
      else do
        let cfg ← load .gpioCfg pin
        store .gpioCfg pin
          (if value &&& cfgMask = cfgGpOut then cfg &&& ~~~data1 else cfg ||| data1)
        setOut pin true
    -- The other alternate functions are only logged.
    else pure ()
  else if value &&& cfgMask = cfgGpOut then setOut pin (value &&& data1 ≠ 0)
  else setOut pin true

def appleGpioUpdatePincfg : GpioM c Unit := do
  whenGroup value (configureGroup pin value)
  store .gpioCfg pin value
  drive pin value

/-! ## Level of a pin -/

/-- The bit of a pin is set when its level or the change of it asks for an interrupt. -/
def latch : GpioM c Unit :=
  if cfg &&& cfgMask = cfgIntLvlHi then
    if level then raise pin irqgrp else pure ()
  else if cfg &&& cfgMask = cfgIntLvlLo then
    if level then pure () else raise pin irqgrp
  else if cfg &&& cfgMask = cfgIntEdgRis then do
    let old ← testBit .inOld 0 pin
    if old = false ∧ level = true then raise pin irqgrp else pure ()
  else if cfg &&& cfgMask = cfgIntEdgFal then do
    let old ← testBit .inOld 0 pin
    if old = true ∧ level = false then raise pin irqgrp else pure ()
  else if cfg &&& cfgMask = cfgIntEdgAny then do
    let old ← testBit .inOld 0 pin
    if old ≠ level then raise pin irqgrp else pure ()
  -- `CFG_GP_IN`, `CFG_GP_OUT` and `CFG_DISABLE`.
  else pure ()

end

def storeLevel : GpioM c Unit :=
  if level then setBit .input 0 pin else clearBit .input 0 pin

/-- `apple_gpio_set` of a pin that exists. -/
def setPin : GpioM c Unit := do
  storeLevel pin level
  let cfg ← load .gpioCfg pin
  whenGroup cfg (latch pin cfg level)
  let now ← load .input (pin / 32)
  store .inOld (pin / 32) now
  -- `irqgrp` has stayed at -1 if the interrupts of the pin are masked.
  whenGroup cfg updateIrq

/-- `apple_gpio_set`. The number of the pin is compared without its sign. -/
def appleGpioSet (pin level : BitVec 32) : GpioM c Unit :=
  if pin.toNat ≥ c.pinCount.toNat then pure () else setPin pin.toNat (level ≠ 0)

/-! ## Registers -/

def appleGpioCfgWrite : GpioM c Unit :=
  if pin ≥ c.pinCount.toNat then pure () else appleGpioUpdatePincfg pin value

/-- The bit of a level as a word. -/
def levelBit : BitVec 32 := if level then 1 else 0

variable (val : BitVec 32)

/-- The level of a pin in the word that is read for it. -/
def insertLevel : GpioM c (BitVec 32) :=
  if val &&& funcMask = 0 then do
    let level ← testBit .input 0 pin
    pure ((val &&& ~~~data1) ||| levelBit level)
  else pure val

/-- The level of a disabled pin with the alternate function in that word. -/
def insertDisabled : GpioM c (BitVec 32) :=
  if val &&& cfgFunc0 = cfgFunc0 ∧ val &&& cfgMask = cfgDisable then do
    let level ← testBit .input 0 pin
    pure ((val ||| data1) &&& ~~~levelBit level)
  else pure val

def appleGpioCfgRead : GpioM c (BitVec 32) :=
  if pin ≥ c.pinCount.toNat then pure 0
  else do
    let cfg ← load .gpioCfg pin
    let val ← insertLevel pin cfg
    insertDisabled pin val

/-- `REG_GPIOINT(group, 0)`. -/
def regGpioint (group : ℕ) : ℕ := 0x800 + group * 0x40

/-- The word of `int_config` behind an address in the window of a group. -/
def windowWord (c : Counts) (group addr : ℕ) : ℕ :=
  group * c.pinCount.toNat + (addr - regGpioint group) / 4

def appleGpioIntWrite (group addr : ℕ) (value : BitVec 32) : GpioM c Unit :=
  if group ≥ c.irqGroupCount.toNat then pure ()
  else do
    let row ← load .intConfig (windowWord c group addr)
    store .intConfig (windowWord c group addr) (row &&& ~~~value)
    let first ← findFirstBit (group * c.pinCount.toNat) c.pinCount.toNat
    -- A line is lowered here, and never raised.
    if first = c.pinCount.toNat then setIrq group false else pure ()

def appleGpioIntRead (group addr : ℕ) : GpioM c (BitVec 32) :=
  if group ≥ c.irqGroupCount.toNat then pure 0 else load .intConfig (windowWord c group addr)

variable (addr : ℕ)

/-- The group whose window an address is in, among those between `REG_GPIOINT(0, 0)` and
`REG_GPIOINT(GPIO_MAX_INT_GRP_NR, GPIO_MAX_PIN_NR - 1)`. -/
def windowGroup : Option ℕ :=
  if 0x800 ≤ addr ∧ addr ≤ 0xA00 then some ((addr - 0x800) / 2^6) else none

/-- `apple_gpio_reg_write` of 32 bits. -/
def appleGpioRegWrite (data : BitVec 32) : GpioM c Unit :=
  if addr ≤ 0x7FC then appleGpioCfgWrite (addr / 2^2) data
  else
    match windowGroup addr with
    | some group => appleGpioIntWrite group addr data
    | none => if addr = 0xC48 then fun s => some ((), { s with npl := data }) else pure ()

/-- `apple_gpio_reg_read` of 32 bits. -/
def appleGpioRegRead : GpioM c (BitVec 32) :=
  if addr ≤ 0x7FC then appleGpioCfgRead (addr / 2^2)
  else
    match windowGroup addr with
    | some group => appleGpioIntRead group addr
    | none =>
      if addr = 0xC48 then fun s => some (s.npl, s)
      else if addr = 0xC4C then pure 0xFF
      else pure 0

/-! ## Reset -/

/-- The first `n` words of an array are set. -/
def fill (n : ℕ) (v : BitVec 32) : GpioM c Unit := fun s =>
  if n ≤ c.len b then
    some ((), { s with
      words := update s.words b fun i => if i < n then v else s.words b i
      touched := (List.range n).map (fun i => (b, i)) ++ s.touched })
  else none

/-- `apple_gpio_reset`. The size of `int_config` is computed in 64 bits here. -/
def appleGpioReset : GpioM c Unit := do
  fill .gpioCfg c.pinCount.toNat cfgDisabled
  fill .intConfig (c.pinCount.toNat * c.irqGroupCount.toNat) 0
  fill .inOld (c.len .inOld) 0
  fill .input (c.len .input) 0

/-! ## Operations -/

/-- What happens to the controller. -/
inductive Op where
  | write (addr : BitVec 64) (value : BitVec 32)
  | read (addr : BitVec 64)
  | set (pin level : BitVec 32)
  | reset

/-- The controller does an operation. -/
def exec : Op → GpioM c Unit
  | .write addr value => appleGpioRegWrite addr.toNat value
  | .read addr => do
    let _ ← appleGpioRegRead addr.toNat
    pure ()
  | .set pin level => appleGpioSet pin level
  | .reset => appleGpioReset

/-- The state after an operation, with the words accessed by it. -/
def step (s : AppleGPIOState c) (op : Op) : Option (AppleGPIOState c) :=
  (exec op { s with touched := [] }).map Prod.snd

/-- The group whose interrupt-status window an operation accesses. -/
def Op.window : Op → Option ℕ
  | .write addr _ | .read addr => windowGroup addr.toNat
  | .set _ _ | .reset => none

end Inferno.Gpio
