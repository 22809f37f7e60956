import Inferno.Fifo8

/-!
# I2C controller

The controller of `hw/i2c/apple_i2c.c` is driven by commands that the guest writes to `MTXFIFO`: a
start with an address, a byte to send, or the number of bytes to receive. What is received goes to a
queue of `0x100` bytes, which the guest reads through `MRXFIFO`, a byte at a time.

The devices on the bus may behave in any way, so the bus is a parameter: a state of its own and what
becomes of it at each call. A failed assertion is `none`.
-/

namespace Inferno.I2c

open Common Fifo8

/-! ## State -/

/-- The bus, by what its calls do. -/
structure I2CBus (β : Type) where
  /-- `i2c_start_transfer`: whether it fails, for an address and a direction. -/
  startTransfer : β → UInt8 → Bool → Bool × β
  /-- `i2c_send`: whether it fails. -/
  send : β → UInt8 → Bool × β
  recv : β → UInt8 × β
  endTransfer : β → β

structure AppleI2CState (β : Type) where
  bus : β
  irq : Bool
  /-- The registers, by their addresses. -/
  reg : ℕ → BitVec 32
  rxFifo : RingFifo8
  /-- The level that the interrupt line was set to last. -/
  lastIrq : Bool
  /-- A transaction is in progress. -/
  xip : Bool
  isRecv : Bool
  /-- The bytes that the bus has returned so far. -/
  received : List UInt8

variable {β : Type}

def appleI2cCreate (bus : β) (data : ℕ → UInt8) : AppleI2CState β where
  bus := bus
  irq := false
  reg _ := 0
  rxFifo := fifo8Create data 0x100 (by decide) (by decide)
  lastIrq := false
  xip := false
  isRecv := false
  received := []

/-! ## Registers -/

def regMtxfifo : ℕ := 0x00
def regMrxfifo : ℕ := 0x04
def regMcnt : ℕ := 0x08
def regSmsta : ℕ := 0x14
def regImask : ℕ := 0x18
def regCtl : ℕ := 0x1C
def regVersion : ℕ := 0x28
def regRdcount : ℕ := 0x2C

def kMTXFIFORead : BitVec 32 := 1 <<< 10
def kMTXFIFOStop : BitVec 32 := 1 <<< 9
def kMTXFIFOStart : BitVec 32 := 1 <<< 8
variable (v : BitVec 32)

def kMTXFIFOData : UInt8 := UInt8.ofBitVec (v.setWidth 8)
def kMRXFIFOEmpty : BitVec 32 := 1 <<< 8
def kMRXFIFOData (d : UInt8) : BitVec 32 := d.toBitVec.setWidth 32
def kSMSTAxip : BitVec 32 := 1 <<< 28
def kSMSTAxen : BitVec 32 := 1 <<< 27
def kSMSTAmtn : BitVec 32 := 1 <<< 21
def kSMSTAmrf : BitVec 32 := 1 <<< 20
def kSMSTAmrne : BitVec 32 := 1 <<< 19
def kCTLMRR : BitVec 32 := 1 <<< 10
def kRDCOUNT : BitVec 32 := (v >>> 8) &&& 0xFF
def kMCNTRxCnt : BitVec 32 := (v &&& 0xFF) <<< 8
def kMCNTTxCnt : BitVec 32 := (v &&& 0xFF) <<< 0

variable (s : AppleI2CState β)

/-- A register is written. -/
def setReg (addr : ℕ) (value : BitVec 32) : AppleI2CState β :=
  { s with reg := Function.update s.reg addr value }

/-- Bits of the status register are set. -/
def setSmsta (bits : BitVec 32) : AppleI2CState β :=
  setReg s regSmsta (s.reg regSmsta ||| bits)

def appleI2cUpdateIrq : AppleI2CState β :=
  let level : Bool := s.reg regSmsta &&& s.reg regImask ≠ 0
  if level ≠ s.lastIrq then { s with irq := level, lastIrq := level } else s

/-! ## Commands -/

variable (io : I2CBus β)

/-- A transfer is started in the direction of the transaction; a failure is noted as `kSMSTAmtn` and
ends the command. The result says whether the command goes on. -/
def startTransfer (s : AppleI2CState β) (addr : UInt8) : Bool × AppleI2CState β :=
  let (failed, bus) := io.startTransfer s.bus addr s.isRecv
  let s := { s with bus := bus }
  if failed then (false, setSmsta s kSMSTAmtn) else (true, s)

variable (value : BitVec 32)

/-- The address in a command. -/
def i2cAddr : UInt8 := kMTXFIFOData value >>> 1

section

variable (s : AppleI2CState β) (addr : ℕ) (value : BitVec 32)

/-- A command with `kMTXFIFOStart`. -/
def mtxStart : Bool × AppleI2CState β :=
  match startTransfer io { s with isRecv := kMTXFIFOData value &&& 1 ≠ 0 } (i2cAddr value) with
  | (false, s) => (false, s)
  | (true, s) => (true, setSmsta { s with xip := true } kSMSTAxip)

/-- The transfer is started again in the other direction, unless it has the direction. -/
def turn (isRecv : Bool) : Bool × AppleI2CState β :=
  if s.isRecv = isRecv then (true, s)
  else startTransfer io { s with isRecv := isRecv } (i2cAddr value)

/-- A byte is received from the bus and pushed to the queue. -/
def receive : Option (AppleI2CState β) :=
  let (b, bus) := io.recv s.bus
  (fifo8Push s.rxFifo b).map fun f =>
    { s with bus := bus, rxFifo := f, received := s.received ++ [b] }

/-- That many bytes are received. -/
def receiveLoop : ℕ → AppleI2CState β → Option (AppleI2CState β)
  | 0, s => some s
  | len + 1, s => (receive io s).bind (receiveLoop len)

/-- The status bits after bytes were received. -/
def receiveStatus : AppleI2CState β :=
  if kMTXFIFOData value > 0 then
    let s := setSmsta s kSMSTAmrne
    -- The length of this command is compared, whatever was in the queue before.
    if (kMTXFIFOData value).toNat ≥ (kRDCOUNT (s.reg regRdcount)).toNat then setSmsta s kSMSTAmrf
    else s
  else s

/-- A command with `kMTXFIFORead` in a transaction. -/
def mtxRead : Option (Bool × AppleI2CState β) :=
  match turn io s value true with
  | (false, s) => some (false, s)
  | (true, s) =>
    (receiveLoop io (kMTXFIFOData value).toNat s).map fun s => (true, receiveStatus s value)

/-- A command with a byte to send in a transaction. -/
def mtxWrite : Bool × AppleI2CState β :=
  match turn io s value false with
  | (false, s) => (false, s)
  | (true, s) =>
    let (failed, bus) := io.send s.bus (kMTXFIFOData value)
    let s := { s with bus := bus }
    -- Unlike a failed start, a failed byte does not end the command.
    (true, if failed then setSmsta s kSMSTAmtn else s)

/-- The end of a command with `kMTXFIFOStop`. -/
def mtxStop : AppleI2CState β :=
  if value &&& kMTXFIFOStop ≠ 0 ∧ s.xip = true then
    { setSmsta { s with bus := io.endTransfer s.bus } kSMSTAxen with xip := false }
  else s

/-- The part of a command that depends on its kind. -/
def mtxKind : Option (Bool × AppleI2CState β) :=
  if value &&& kMTXFIFOStart ≠ 0 then some (mtxStart io s value)
  else if s.xip = true then
    if value &&& kMTXFIFORead ≠ 0 then mtxRead io s value else some (mtxWrite io s value)
  else some (true, s)

/-- A command is written to `MTXFIFO`. -/
def writeMtxfifo : Option (AppleI2CState β) :=
  (mtxKind io s value).map fun p => if p.1 then mtxStop io p.2 value else p.2

/-! ## Accesses -/

/-- The queue is emptied by a write of `kCTLMRR` to the control register. -/
def resetRx : AppleI2CState β :=
  if value &&& kCTLMRR ≠ 0 then { s with rxFifo := fifo8Reset s.rxFifo } else s

def appleI2cRegWrite : Option (AppleI2CState β) :=
  if addr = regMtxfifo then
    (writeMtxfifo io s value).map fun s => appleI2cUpdateIrq (setReg s addr value)
  -- Status bits are cleared by ones.
  else if addr = regSmsta then
    some (appleI2cUpdateIrq (setReg s addr (s.reg addr &&& ~~~value)))
  else if addr = regImask then some (appleI2cUpdateIrq (setReg s addr value))
  else if addr = regCtl then some (setReg (resetRx s value) addr 0)
  else some (setReg s addr value)

/-- A byte is read through `MRXFIFO`. -/
def readMrxfifo : Option (BitVec 32 × AppleI2CState β) :=
  if fifo8IsEmpty s.rxFifo then some (kMRXFIFOEmpty, s)
  else (fifo8Pop s.rxFifo).map fun p => (kMRXFIFOData p.1, { s with rxFifo := p.2 })

/-- The counts in `MCNT`. -/
def readMcnt : BitVec 32 :=
  (s.reg regMcnt &&& ~~~(kMCNTRxCnt 0xFF ||| kMCNTTxCnt 0xFF)) |||
    kMCNTRxCnt (BitVec.ofNat 32 (fifo8NumUsed s.rxFifo))

def appleI2cRegRead : Option (BitVec 32 × AppleI2CState β) :=
  if addr = regMrxfifo then readMrxfifo s
  else if addr = regMcnt then some (readMcnt s, s)
  else if addr = regVersion then some (2, s)
  else some (s.reg addr, s)

/-- The phases of a reset. -/
def appleI2cReset : AppleI2CState β :=
  { s with
    reg := fun _ => 0
    xip := false
    isRecv := false
    rxFifo := fifo8Reset s.rxFifo
    irq := false
    lastIrq := false }

/-- An access of the guest to one of the `0x4000` words of registers, or a reset. -/
inductive Op where
  | write (word : Fin 0x4000) (value : BitVec 32)
  | read (word : Fin 0x4000)
  | reset

/-- An operation, with what it returns to the guest. -/
def step : Op → Option (BitVec 32 × AppleI2CState β)
  | .write word value => (appleI2cRegWrite io s (4 * word) value).map fun s => (0, s)
  | .read word => appleI2cRegRead s (4 * word)
  | .reset => some (0, appleI2cReset s)

end

end Inferno.I2c
