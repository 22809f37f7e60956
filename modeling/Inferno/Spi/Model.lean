import Inferno.Fifo32

/-!
# SPI controller

The controller of `hw/ssi/apple_spi.c` exchanges words of one, two or four bytes with a peripheral.
What it sends comes from a queue of sixteen words and what it receives goes to another one; in DMA
mode the queues are refilled and flushed through staging buffers of `dma_len` bytes.

The peripheral and the DMA channels may behave in any way, so they are a parameter with a state of
its own. A failed assertion is `none`. Every transfer between a queue and a channel is noted, and so
is every access to its staging buffer, inside or not.
-/

namespace Inferno.Spi

open Common Fifo32

/-! ## State -/

/-- The surroundings of the controller, by what calls to them do. -/
structure Env (ε : Type) where
  /-- `ssi_transfer`: the word that comes back for one that is sent. -/
  ssiTransfer : ε → BitVec 32 → BitVec 32 × ε
  /-- `apple_sio_dma_remaining` of the channel to the device. -/
  txRemaining : ε → BitVec 64
  /-- `apple_sio_dma_remaining` of the channel from the device. -/
  rxRemaining : ε → BitVec 64
  /-- `apple_sio_dma_read` of that many bytes: the bytes from the buffer on. -/
  dmaRead : ε → ℕ → (ℕ → UInt8) × ε
  /-- `apple_sio_dma_write`. -/
  dmaWrite : ε → List UInt8 → ε
  /-- `apple_spi_update_cs`, for the level of the line. -/
  updateCs : ε → Bool → ε

/-- A transfer between a queue and a DMA channel. -/
structure Transfer where
  width : ℕ
  /-- The number of bytes that the controller could transfer. -/
  wanted : ℕ
  /-- The number of bytes that the channel has left. -/
  remaining : ℕ

/-- The length of the staging buffer of a transfer. -/
def Transfer.len (t : Transfer) : ℕ := min t.wanted t.remaining

/-- An access to a staging buffer. -/
structure Staged where
  offset : ℕ
  width : ℕ
  len : ℕ

structure AppleSPIState (ε : Type) where
  env : ε
  irq : Bool
  rxFifo : Fifo8
  txFifo : Fifo8
  regs : ℕ → BitVec 32
  dmaCapable : Bool
  /-- The transfers so far. -/
  transfers : List Transfer
  /-- The accesses to staging buffers so far. -/
  staged : List Staged

variable {ε : Type}

/-- The controller after `apple_spi_instance_init`. -/
def appleSpiInit (env : ε) (dmaCapable : Bool) : AppleSPIState ε where
  env := env
  irq := false
  rxFifo := fifo32Create 16
  txFifo := fifo32Create 16
  regs _ := 0
  dmaCapable := dmaCapable
  transfers := []
  staged := []

/-! ## Registers -/

def regCtrl : ℕ := 0x000
def regCfg : ℕ := 0x004
def regStatus : ℕ := 0x008
def regPin : ℕ := 0x00c
def regTxdata : ℕ := 0x010
def regRxdata : ℕ := 0x020
def regRxcnt : ℕ := 0x034
def regTxcnt : ℕ := 0x04c
def regMax : ℕ := 0x50

def regCtrlRun : BitVec 32 := 1 <<< 0
def regCtrlTxReset : BitVec 32 := 1 <<< 2
def regCtrlRxReset : BitVec 32 := 1 <<< 3
def regCfgAgd : BitVec 32 := 1 <<< 0
def regCfgMode (x : BitVec 32) : BitVec 32 := (x >>> 5) &&& 0x3
def regCfgModeInvalid : BitVec 32 := 0
def regCfgModeDma : BitVec 32 := 2
def regCfgIeRxready : BitVec 32 := 1 <<< 7
def regCfgIeTxempty : BitVec 32 := 1 <<< 8
def regCfgWordSize (x : BitVec 32) : BitVec 32 := (x >>> 15) &&& 0x3
def regCfgIeComplete : BitVec 32 := 1 <<< 21
def regStatusRxready : BitVec 32 := 1 <<< 0
def regStatusTxempty : BitVec 32 := 1 <<< 1
def regStatusRxoverflow : BitVec 32 := 1 <<< 3
def regStatusComplete : BitVec 32 := 1 <<< 22
def regStatusTxfifoMask : BitVec 32 := 31 <<< 6
def regStatusRxfifoMask : BitVec 32 := 31 <<< 11
def regPinCs : BitVec 32 := 1 <<< 1

variable (s : AppleSPIState ε)

/-- A register is written. -/
def setReg (addr : ℕ) (value : BitVec 32) : AppleSPIState ε :=
  { s with regs := Function.update s.regs addr value }

/-- Bits of the status register are set. -/
def setStatus (bits : BitVec 32) : AppleSPIState ε :=
  setReg s regStatus (s.regs regStatus ||| bits)

def appleSpiWordSize : Option ℕ :=
  if regCfgWordSize (s.regs regCfg) = 0 then some 1
  else if regCfgWordSize (s.regs regCfg) = 1 then some 2
  else if regCfgWordSize (s.regs regCfg) = 2 then some 4
  else none

/-- The controller is in DMA mode. -/
def inDmaMode : Prop := regCfgMode (s.regs regCfg) = regCfgModeDma

instance (s : AppleSPIState ε) : Decidable (inDmaMode s) := inferInstanceAs (Decidable (_ = _))

/-! ## Transfers -/

/-- The values of `i` in a loop over a staging buffer, from zero on in steps of a word. -/
def offsets (width len : ℕ) : List ℕ :=
  (List.range ((len + width - 1) / width)).map (width * ·)

variable (buffer : ℕ → UInt8)

/-- A word of a staging buffer: `lduw_le_p`, `ldl_le_p`, or the byte. -/
def loadWord (width i : ℕ) : BitVec 32 :=
  BitVec.ofNat 32 (ofLe ((List.range width).map fun k => buffer (i + k)))

/-- A word is stored in a staging buffer: `stw_le_p`, `stl_le_p`, or the byte. -/
def storeWord (width i : ℕ) (w : BitVec 32) : ℕ → UInt8 := fun j =>
  if i ≤ j ∧ j < i + width then (leBytes width w.toNat).getD (j - i) 0 else buffer j

section

variable (t : Transfer) (buffer : ℕ → UInt8) (s : AppleSPIState ε)

/-- An access to the staging buffer of a transfer is noted. -/
def stage (t : Transfer) (i : ℕ) : AppleSPIState ε :=
  { s with staged := s.staged ++ [⟨i, t.width, t.len⟩] }

/-- A word goes from the staging buffer to the transmit queue. -/
def pushStaged (i : ℕ) : Option (AppleSPIState ε) :=
  (fifo32Push s.txFifo (loadWord buffer t.width i)).map fun f =>
    stage { s with txFifo := f } t i

/-- A word goes from the receive queue to the staging buffer. -/
def popStaged (p : AppleSPIState ε × (ℕ → UInt8)) (i : ℕ) :
    Option (AppleSPIState ε × (ℕ → UInt8)) :=
  (fifo32Pop p.1.rxFifo).map fun q =>
    (stage { p.1 with rxFifo := q.2 } t i, storeWord p.2 t.width i q.1)

end

variable (io : Env ε)

section

variable (s : AppleSPIState ε) (remaining width : ℕ)

/-- The transmit queue is refilled from the channel. -/
def refill (t : Transfer) : Option (AppleSPIState ε) :=
  let (buffer, env) := io.dmaRead s.env t.len
  (offsets t.width t.len).foldlM (pushStaged t buffer)
    { s with env := env, transfers := s.transfers ++ [t] }

/-- `apple_spi_update_xfer_tx` in DMA mode, with bytes left in the channel and a word size. -/
def refillTx : Option (AppleSPIState ε) :=
  -- The number of words becomes one of bytes modulo `2^32`.
  let dmaLen := (s.regs regTxcnt * BitVec.ofNat 32 width).toNat
  let fifoLen := fifo32NumFree s.txFifo * width
  if min dmaLen remaining = 0 then some (setStatus s regStatusTxempty)
  else if min (min dmaLen remaining) fifoLen = 0 then some s
  else refill io s ⟨width, min dmaLen fifoLen, remaining⟩

def appleSpiUpdateXferTx : Option (AppleSPIState ε) :=
  if ¬ fifo32IsEmpty s.txFifo then some s
  else if ¬ inDmaMode s then some (setStatus s regStatusTxempty)
  else if io.txRemaining s.env = 0 then some (setStatus s regStatusTxempty)
  else (appleSpiWordSize s).bind (refillTx io s (io.txRemaining s.env).toNat)

/-- The receive queue is flushed to the channel. The buffer has all its bytes written before they
are passed on. -/
def flush (t : Transfer) : Option (AppleSPIState ε) :=
  ((offsets t.width t.len).foldlM (popStaged t)
    ({ s with transfers := s.transfers ++ [t] }, fun _ => 0)).map fun p =>
    { p.1 with env := io.dmaWrite p.1.env ((List.range t.len).map p.2) }

/-- `apple_spi_flush_rx` in DMA mode, with room left in the channel and a word size. -/
def flushRx : Option (AppleSPIState ε) :=
  let wanted := fifo32NumUsed s.rxFifo * width
  if min wanted remaining = 0 then some s else flush io s ⟨width, wanted, remaining⟩

def appleSpiFlushRx : Option (AppleSPIState ε) :=
  if ¬ inDmaMode s then some s
  else if io.rxRemaining s.env = 0 then some s
  else (appleSpiWordSize s).bind (flushRx io s (io.rxRemaining s.env).toNat)

/-- The receive queue is flushed when it is full. -/
def flushFull : Option (AppleSPIState ε) :=
  if fifo32IsFull s.rxFifo then appleSpiFlushRx io s else some s

def appleSpiUpdateXferRx : AppleSPIState ε :=
  if fifo32IsEmpty s.rxFifo then setReg s regStatus (s.regs regStatus &&& ~~~regStatusRxready)
  else setStatus s regStatusRxready

/-! ## Running -/

/-- Bytes are exchanged with the peripheral one after the other; what comes back is shifted in. -/
def exchange (bytes : List (BitVec 32)) : BitVec 32 × AppleSPIState ε :=
  bytes.foldl (fun p b =>
    let (r, env) := io.ssiTransfer p.2.env b
    ((p.1 <<< 8) ||| r, { p.2 with env := env })) (0, s)

/-- A received word goes to the receive queue, unless that is full and cannot be flushed. The result
says whether the loop goes on. -/
def receiveWord (rx : BitVec 32) : Option (Bool × AppleSPIState ε) :=
  (flushFull io s).bind fun s =>
    -- Both loops break when the word does not fit.
    if fifo32IsFull s.rxFifo then some (false, setStatus s regStatusRxoverflow)
    else
      (fifo32Push s.rxFifo rx).map fun f =>
        let s := { s with rxFifo := f }
        (true, appleSpiUpdateXferRx (setReg s regRxcnt (s.regs regRxcnt - 1)))

end

variable (width : ℕ)

section

variable (s : AppleSPIState ε) (addr : ℕ) (value : BitVec 32)

/-- A word is sent, and one received for it when words are wanted. -/
def txRound : Option (Bool × AppleSPIState ε) :=
  (fifo32Pop s.txFifo).bind fun p =>
    let bytes := (List.range width).map fun i => (p.1 >>> (8 * i)) &&& 0xFF
    let (rx, s) := exchange io { s with txFifo := p.2 } bytes
    let s := setReg s regTxcnt (s.regs regTxcnt - 1)
    (appleSpiUpdateXferTx io s).bind fun s =>
      if (s.regs regRxcnt).toNat > 0 then receiveWord io s rx else some (true, s)

/-- The loop over the words to send, within `fuel` tests of its condition. -/
def txLoop (width : ℕ) : ℕ → AppleSPIState ε → Option (AppleSPIState ε)
  | 0, _ => none
  | fuel + 1, s =>
    if s.regs regTxcnt ≠ 0 ∧ ¬ fifo32IsEmpty s.txFifo then
      (txRound io width s).bind fun p => if p.1 then txLoop width fuel p.2 else some p.2
    else some s

/-- A word is received for a word of ones. -/
def rxRound : Option (Bool × AppleSPIState ε) :=
  let (rx, s) := exchange io s (List.replicate width 0xFF)
  receiveWord io s rx

/-- The loop over the words to receive after the last one was sent, within `fuel` tests of its
condition. -/
def rxLoop (width : ℕ) : ℕ → AppleSPIState ε → Option (AppleSPIState ε)
  | 0, _ => none
  | fuel + 1, s =>
    if ¬ fifo32IsFull s.rxFifo ∧ (s.regs regRxcnt).toNat > 0 ∧ s.regs regCfg &&& regCfgAgd ≠ 0 then
      (rxRound io width s).bind fun p => if p.1 then rxLoop width fuel p.2 else some p.2
    else some s

/-- The status after a run. -/
def complete : AppleSPIState ε :=
  if s.regs regRxcnt = 0 ∧ s.regs regTxcnt = 0 then setStatus s regStatusComplete else s

/-- `apple_spi_run` of a controller that has something to do. -/
def transferWords : Option (AppleSPIState ε) := do
  let s ← appleSpiUpdateXferTx io s
  let s ← txLoop io width ((s.regs regTxcnt).toNat + 1) s
  let s ← flushFull io s
  let s ← rxLoop io width ((s.regs regRxcnt).toNat + 1) s
  let s ← appleSpiFlushRx io s
  return complete s

def appleSpiRun : Option (AppleSPIState ε) :=
  -- The word size is asserted first, whether or not there is anything to do.
  (appleSpiWordSize s).bind fun width =>
    if inDmaMode s ∧ s.dmaCapable = false then some s
    else if regCfgMode (s.regs regCfg) = regCfgModeInvalid ∨ s.regs regCtrl &&& regCtrlRun = 0 ∨
        s.regs regRxcnt ||| s.regs regTxcnt = 0 then some s
    else transferWords io width s

/-! ## Accesses -/

def appleSpiUpdateIrq : AppleSPIState ε :=
  let cfg := s.regs regCfg
  let mask := (if cfg &&& regCfgIeRxready ≠ 0 then regStatusRxready else 0) |||
    (if cfg &&& regCfgIeTxempty ≠ 0 then regStatusTxempty else 0) |||
    (if cfg &&& regCfgIeComplete ≠ 0 then regStatusComplete else 0)
  { s with irq := s.regs regStatus &&& mask ≠ 0 }

def appleSpiUpdateCs : AppleSPIState ε :=
  { s with env := io.updateCs s.env (s.regs regPin &&& regPinCs ≠ 0) }

/-- The queues are cleared as a write to the control register asks for. -/
def resetFifos : AppleSPIState ε :=
  let s := if value &&& regCtrlTxReset ≠ 0 then { s with txFifo := fifo32Reset s.txFifo } else s
  if value &&& regCtrlRxReset ≠ 0 then { s with rxFifo := fifo32Reset s.rxFifo } else s

/-- A word is written to the transmit queue. -/
def writeTxdata : Option (AppleSPIState ε) :=
  -- A word for a full queue is dropped.
  if fifo32IsFull s.txFifo then some (setReg s regTxdata 0)
  else
    (appleSpiWordSize s).bind fun width =>
      (fifo32Push s.txFifo
        (if width = 1 then value &&& 0xFF else if width = 2 then value &&& 0xFFFF else value)).bind
        fun f => appleSpiRun io (setReg { s with txFifo := f } regTxdata value)

/-- A write to a register, without the interrupt line. -/
def writeReg : Option (AppleSPIState ε) :=
  if addr = regCtrl then
    let kept := value &&& ~~~regCtrlTxReset &&& ~~~regCtrlRxReset
    let s := setReg (resetFifos s value) regCtrl kept
    if value &&& regCtrlRun ≠ 0 then appleSpiRun io s else some s
  else if addr = regStatus then some (setReg s regStatus (s.regs regStatus &&& ~~~value))
  else if addr = regPin then some (appleSpiUpdateCs io (setReg s regPin value))
  else if addr = regTxdata then writeTxdata io s value
  else if addr = regTxcnt ∨ addr = regRxcnt ∨ addr = regCfg then
    appleSpiRun io (setReg s addr value)
  else some (setReg s addr value)

def appleSpiRegWrite : Option (AppleSPIState ε) :=
  if addr ≥ regMax then some s else (writeReg io s addr value).map appleSpiUpdateIrq

/-- A word is read from the receive queue; a run follows when it was the last one. -/
def readRxdata : Option (BitVec 32 × AppleSPIState ε) :=
  if fifo32IsEmpty s.rxFifo then some (0, s)
  else
    (fifo32Pop s.rxFifo).bind fun p =>
      let s := { s with rxFifo := p.2 }
      if fifo32IsEmpty s.rxFifo then (appleSpiRun io s).map fun s => (p.1, s) else some (p.1, s)

/-- The status register with the numbers of words in the queues. -/
def readStatus : BitVec 32 :=
  let val := (BitVec.ofNat 32 (fifo32NumUsed s.txFifo) <<< 6 |||
    BitVec.ofNat 32 (fifo32NumUsed s.rxFifo) <<< 11) &&&
    (regStatusTxfifoMask ||| regStatusRxfifoMask)
  (s.regs regStatus &&& ~~~(regStatusTxfifoMask ||| regStatusRxfifoMask)) ||| val

def appleSpiRegRead : Option (BitVec 32 × AppleSPIState ε) :=
  if addr ≥ regMax then some (0, s)
  else
    (if addr = regRxdata then readRxdata io s
    else if addr = regStatus then some (readStatus s, s)
    else some (s.regs addr, s)).map fun p => (p.1, appleSpiUpdateIrq p.2)

def appleSpiCsSet (level : Bool) : AppleSPIState ε :=
  appleSpiUpdateCs io (setReg s regPin
    (if level then s.regs regPin ||| regPinCs else s.regs regPin &&& ~~~regPinCs))

def appleSpiReset : AppleSPIState ε :=
  { s with regs := fun _ => 0, txFifo := fifo32Reset s.txFifo, rxFifo := fifo32Reset s.rxFifo }

/-- What happens to the controller. -/
inductive Op where
  | write (word : ℕ) (value : BitVec 32)
  | read (word : ℕ)
  | cs (level : Bool)
  | reset

/-- An operation, with what it returns to the guest. -/
def step : Op → Option (BitVec 32 × AppleSPIState ε)
  | .write word value => (appleSpiRegWrite io s (4 * word) value).map fun s => (0, s)
  | .read word => appleSpiRegRead io s (4 * word)
  | .cs level => some (0, appleSpiCsSet io s level)
  | .reset => some (0, appleSpiReset s)

end

end Inferno.Spi
