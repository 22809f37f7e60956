import Inferno.Common.Bits
import Inferno.Common.Bytes

/-!
# The AES accelerator model

`hw/misc/apple-silicon/aes.c`: the registers with the handler of the guest's writes, the assembly of
the words of the command FIFO into commands, and the worker thread that takes the commands off the
queue and performs them.

The handlers of the guest's accesses run with the big lock held, and so does the end of a command,
from the first change of a register other than `KEY_ID` to the update of the level. Both are single
steps here. A worker takes its other steps one at a time. `CONTROL` with `RESET_AES` stops the
worker without joining it and a later start creates another one, so that there can be several of
them; the first in the list is the one that `s->thread` names. A stop joins this thread with the
lock held and never returns when the thread has a command to end.

A cipher is one of `cipher-nettle.c.inc`; what `nettle` computes is a parameter, as is what the bus
holds.
-/

namespace Inferno.Aes

open Common Function

/-! ## Command words -/

/-- `command_opcodes_t`, those that the device knows. -/
inductive Opcode
  | key
  | iv
  | dsb
  | data
  | storeIv
  | flag
  /-- Another one. -/
  | unknown
  deriving DecidableEq

variable (w : BitVec 32)

/-- `COMMAND_OPCODE`. -/
def opcode : Opcode :=
  match (w.extractLsb' 28 4).toNat with
  | 1 => .key
  | 2 => .iv
  | 3 => .dsb
  | 5 => .data
  | 6 => .storeIv
  | 8 => .flag
  | _ => .unknown

/-- `COMMAND_KEY_COMMAND_KEY_CONTEXT` and `COMMAND_DATA_COMMAND_KEY_CONTEXT`. -/
def keyContext : Fin 2 := (w.extractLsb' 27 1).toFin

def keySelect : BitVec 32 := (w.extractLsb' 24 3).setWidth 32

def keyLength : BitVec 8 := (w.extractLsb' 22 2).setWidth 8

def keyFunc : BitVec 32 := (w.extractLsb' 18 2).setWidth 32

/-- `COMMAND_KEY_COMMAND_BLOCK_MODE`. -/
def blockMode : BitVec 32 := (w.extractLsb' 16 2).setWidth 32

/-- `COMMAND_KEY_COMMAND_COMMAND_ID` and `COMMAND_FLAG_ID_CODE`. -/
def commandId : BitVec 8 := w.extractLsb' 0 8

/-- `COMMAND_IV_COMMAND_IV_CONTEXT` and `COMMAND_STORE_IV_COMMAND_CONTEXT`. -/
def ivContext : Fin 4 := (w.extractLsb' 26 2).toFin

def dataIvContext : Fin 4 := (w.extractLsb' 25 2).toFin

def dataLength : ℕ := (w.extractLsb' 0 24).toNat

/-- An address from its low word and its upper byte. -/
def busAddr (low : BitVec 32) (upper : BitVec 8) : BitVec 64 :=
  low.setWidth 64 ||| upper.setWidth 64 <<< 32

def KEY_SELECT_SOFTWARE : BitVec 32 := 0

/-- `key_size`, in bits. -/
def keySize (len : BitVec 8) : BitVec 32 :=
  if len = 0 then 128 else if len = 1 then 192 else if len = 2 then 256 else 0

/-- The number of words of the command that begins with the word, as the handler of `COMMAND_FIFO`
computes it; `none` when it does not know the opcode. -/
def commandLen : Option (BitVec 32) :=
  match opcode w with
  | .key =>
    if keySelect w = KEY_SELECT_SOFTWARE then some (keySize (keyLength w) / 8 / 4 + 1) else some 1
  | .iv => some 5
  | .dsb => some 9
  | .data => some 4
  | .storeIv => some 2
  | .flag => some 1
  | .unknown => none

/-! ## Ciphers -/

/-- `QCryptoCipherAlgo`, those that `key_algo` returns. -/
inductive QCryptoCipherAlgo
  | aes128
  | aes192
  | aes256
  /-- `QCRYPTO_CIPHER_ALGO__MAX`. -/
  | max
  deriving DecidableEq

/-- `QCryptoCipherMode`, those that `key_mode` returns. -/
inductive QCryptoCipherMode
  | ecb
  | cbc
  | ctr
  /-- `QCRYPTO_CIPHER_MODE__MAX`. -/
  | max
  deriving DecidableEq

def keyAlgo (len : BitVec 8) : QCryptoCipherAlgo :=
  if len = 0 then .aes128 else if len = 1 then .aes192 else if len = 2 then .aes256 else .max

def keyMode (mode : BitVec 32) : QCryptoCipherMode :=
  if mode = 0 then .ecb else if mode = 1 then .cbc else if mode = 2 then .ctr else .max

/-- `QCryptoCipher`, with the state that the driver keeps. -/
structure QCryptoCipher where
  alg : QCryptoCipherAlgo
  mode : QCryptoCipherMode
  key : List UInt8
  iv : Fin 16 → UInt8

/-- `alg_key_len`, `none` out of range. -/
def algKeyLen : QCryptoCipherAlgo → Option ℕ
  | .aes128 => some 16
  | .aes192 => some 24
  | .aes256 => some 32
  | .max => none

/-- `qcrypto_cipher_new`, with `qcrypto_cipher_ctx_new` and `qcrypto_cipher_validate_key_length`. It
is `none` where it sets an error. -/
def cipherNew (alg : QCryptoCipherAlgo) (mode : QCryptoCipherMode) (key : List UInt8) (nkey : ℕ) :
    Option QCryptoCipher :=
  if mode = .max then none
  else if algKeyLen alg = some nkey then some ⟨alg, mode, key.take nkey, fun _ => 0⟩
  else none

variable (cipher : QCryptoCipher)

/-- `qcrypto_cipher_setiv` with a vector of 16 bytes. -/
def cipherSetiv (iv : Fin 16 → UInt8) : Option QCryptoCipher :=
  if cipher.mode = .ecb then none else some { cipher with iv := iv }

/-- `qcrypto_cipher_getiv` with a vector of 16 bytes. -/
def cipherGetiv : Option (Fin 16 → UInt8) :=
  if cipher.mode = .ecb then none else some cipher.iv

/-! ## State -/

structure AESCommand where
  command : BitVec 32
  data : List (BitVec 32)
  data_len : BitVec 32
  deriving DecidableEq

structure AESKey where
  /-- The cipher, none before the first software key. -/
  cipher : Option QCryptoCipher
  /-- `key_select_t`. -/
  select : BitVec 32
  algo : QCryptoCipherAlgo
  key : Fin 32 → UInt8
  len : BitVec 32
  /-- `key_func_t`. -/
  func : BitVec 32
  /-- `block_mode_t`. -/
  mode : BitVec 32
  wrapped : Bool
  encrypt : Bool
  /-- The key is one of the hardware. -/
  disabled : Bool
  /-- The identifier that `KEY_ID` shows. -/
  id : BitVec 8

/-- A context before the first key. -/
def AESKey.zero : AESKey where
  cipher := none
  select := 0
  algo := .aes128
  key := fun _ => 0
  len := 0
  func := 0
  mode := 0
  wrapped := false
  encrypt := false
  disabled := false
  id := 0

/-- Where in `aes_thread` a worker is. -/
inductive Worker
  /-- Before the condition of the loop. -/
  | top
  /-- In the loop, before it takes a command. -/
  | enter
  /-- It has taken a command. -/
  | busy (cmd : AESCommand)
  /-- It waits for a command. -/
  | wait
  /-- It has left the loop. -/
  | exited
  deriving DecidableEq

variable {μ : Type}

/-- `AppleAESState`, with the worker threads and the memory behind the bus. -/
structure AppleAESState (μ : Type) where
  /-- The level of the interrupt line as the device has set it. -/
  last_level : BitVec 32
  irq : Bool
  reg : Fin 129 → BitVec 32
  queue : List AESCommand
  /-- The first word of the command that is received. -/
  command : BitVec 32
  /-- The words of the command that is received. -/
  data : Option (List (BitVec 32))
  data_len : BitVec 32
  data_read : BitVec 32
  keys : Fin 2 → AESKey
  iv : Fin 4 → Fin 16 → UInt8
  stopped : Bool
  workers : List Worker
  mem : μ
  /-- The emulator has aborted, or waits for a worker that waits for it. -/
  halted : Bool

/-- What the device depends on outside of it. -/
structure Config (μ : Type) where
  /-- What `nettle` computes when it encrypts (`true`) or decrypts: the new vector and the data. -/
  crypt : Bool → QCryptoCipher → List UInt8 → (Fin 16 → UInt8) × List UInt8
  dmaRead : μ → BitVec 64 → ℕ → List UInt8
  dmaWrite : μ → BitVec 64 → List UInt8 → μ
  /-- What lies in memory behind the words of a command. -/
  beyond : ℕ → BitVec 32

/-! ## Registers -/

/-- `REG_AES_STATUS`. -/
def STATUS : Fin 129 := 3

/-- `REG_AES_KEY_ID`. -/
def KEY_ID : Fin 129 := 4

/-- `REG_AES_INT_STATUS`. -/
def INT_STATUS : Fin 129 := 6

/-- `REG_AES_INT_ENABLE`. -/
def INT_ENABLE : Fin 129 := 7

/-- `REG_AES_WATERMARKS`. -/
def WATERMARKS : Fin 129 := 8

def COMMAND_FIFO_STATUS : Fin 129 := 9

/-- `REG_AES_FLAG_COMMAND`. -/
def FLAG_COMMAND : Fin 129 := 12

/-- `REG_AES_CLEAR_FIFO`. -/
def CLEAR_FIFO : Fin 129 := 14

def COMMAND_FIFO_SIZE : ℕ := 128

/-- A word with one of its bits replaced. -/
def setBit (i : ℕ) (b : Bool) : BitVec 32 := deposit w i 1 (if b then 1 else 0)

namespace AppleAESState

variable (s : AppleAESState μ)

/-- `command_fifo_status.level`. -/
def level : BitVec 8 := (s.reg COMMAND_FIFO_STATUS).extractLsb' 8 8

def commandFifoLow : BitVec 7 := (s.reg WATERMARKS).extractLsb' 0 7

/-- The state with a register replaced. -/
def store (i : Fin 129) (v : BitVec 32) (s : AppleAESState μ) : AppleAESState μ :=
  { s with reg := update s.reg i v }

/-- The state with a new level. -/
def setLevel (l : BitVec 8) (s : AppleAESState μ) : AppleAESState μ :=
  s.store COMMAND_FIFO_STATUS (deposit (s.reg COMMAND_FIFO_STATUS) 8 8 (l.setWidth 32))

/-- The state with a bit of `INT_STATUS` replaced. -/
def setIntStatus (i : ℕ) (b : Bool) (s : AppleAESState μ) : AppleAESState μ :=
  s.store INT_STATUS (setBit (s.reg INT_STATUS) i b)

end AppleAESState

open AppleAESState

variable (s : AppleAESState μ)

def updateIrq : AppleAESState μ :=
  if s.reg INT_ENABLE &&& s.reg INT_STATUS ≠ 0 then
    if s.last_level = 0 then { s with last_level := 1, irq := true } else s
  else if s.last_level ≠ 0 then { s with last_level := 0, irq := false } else s

/-- The bits of `COMMAND_FIFO_STATUS` that `aes_update_command_fifo_status` computes. -/
def fifoStatus (level : BitVec 8) (low : BitVec 7) : BitVec 32 :=
  let w := setBit w 1 (level = 0)
  let w := setBit w 2 (COMMAND_FIFO_SIZE ≤ level.toNat)
  let w := setBit w 3 (COMMAND_FIFO_SIZE < level.toNat)
  setBit w 0 (level.toNat < low.toNat)

def updateCommandFifoStatus : AppleAESState μ :=
  let s := s.store COMMAND_FIFO_STATUS
    (fifoStatus (s.reg COMMAND_FIFO_STATUS) s.level s.commandFifoLow)
  updateIrq (s.setIntStatus 0 ((s.reg COMMAND_FIFO_STATUS).getLsbD 0))

def emptyFifo : AppleAESState μ :=
  updateCommandFifoStatus ({ s with queue := [] }.setLevel 0)

/-- `aes_start`. -/
def start : AppleAESState μ :=
  if s.stopped then { s with stopped := false, workers := .top :: s.workers } else s

/-- `aes_stop`: the thread that is joined still goes as far as it can without the lock. -/
def stop : AppleAESState μ :=
  if s.stopped then s
  else
    let s := { s with stopped := true }
    match s.workers, s.queue with
    | .enter :: ws, cmd :: queue =>
      { s with workers := .busy cmd :: ws, queue := queue, halted := true }
    | .busy _ :: _, _ => { s with halted := true }
    | _ :: ws, _ => { s with workers := .exited :: ws }
    | [], _ => s

/-- `apple_aes_reset`. -/
def reset : AppleAESState μ :=
  emptyFifo (stop { s with
    reg := update (fun _ => 0) STATUS 0xFF80
    command := 0, data := none, data_read := 0, data_len := 0, stopped := true })

/-- The device after `apple_aes_create` and `apple_aes_realize`. -/
def init (mem : μ) : AppleAESState μ :=
  reset
    { last_level := 0, irq := false, reg := fun _ => 0, queue := [], command := 0, data := none,
      data_len := 0, data_read := 0, keys := fun _ => .zero, iv := fun _ _ => 0,
      stopped := false, workers := [], mem := mem, halted := false }

/-! ## The command FIFO -/

variable (val : BitVec 32)

section

variable (addr : ℕ) (val : BitVec 32) (s : AppleAESState μ)

/-- The word goes to the command that is received, or begins one; `none` when there is no buffer
for it. -/
def receiveWord : Option (AppleAESState μ) :=
  if s.data_read < s.data_len then
    s.data.map fun data =>
      { s with data := some (data.set s.data_read.toNat val), data_read := s.data_read + 1 }
  else
    match commandLen val with
    | some len => some { s with
        command := val, data := some (val :: List.replicate (len.toNat - 1) 0), data_len := len,
        data_read := 1 }
    | none => some ({ s with command := val }.setIntStatus 2 true)

/-- The command that is complete, if there is one. -/
def completed : Option AESCommand :=
  match s.data with
  | some data => if s.data_len ≤ s.data_read then some ⟨s.command, data, s.data_len⟩ else none
  | none => none

/-- A complete command goes to the queue. -/
def enqueue : AppleAESState μ :=
  match completed s with
  | some cmd => { s with
      queue := s.queue ++ [cmd], command := 0, data := none, data_len := 0, data_read := 0 }
  | none => s

/-- The word is taken for the first of a command and has no opcode that the device knows. -/
def IsInvalid : Prop :=
  ¬ s.data_read < s.data_len ∧ commandLen val = none

instance (val : BitVec 32) (s : AppleAESState μ) : Decidable (IsInvalid val s) :=
  inferInstanceAs (Decidable (_ ∧ _))

/-- The write of a word to `COMMAND_FIFO`. -/
def commandFifoWrite : AppleAESState μ :=
  match receiveWord val s with
  | none => { s with halted := true }
  | some s₁ =>
    let s₂ := enqueue s₁
    let s₃ := updateCommandFifoStatus (s₂.setLevel (s₂.level + 1))
    if IsInvalid val s then updateIrq s₃ else s₃

/-! ## Writes of the guest -/

/-- What is at an offset. -/
inductive Register
  /-- A register that cannot be written. -/
  | readOnly
  | intStatus
  | intEnable
  | watermarks
  | control
  /-- `REG_AES_COMMAND_FIFO_S8000` or `REG_AES_COMMAND_FIFO`. -/
  | commandFifo
  | clearFifo
  /-- `REG_AES_CONFIG`, or a word without a meaning. -/
  | plain (i : Fin 129)
  /-- Nothing. -/
  | outside
  deriving DecidableEq

/-- The register at an offset. -/
def register : Register :=
  if h : addr < 0x204 then
    if addr ∈ [0x0, 0xC, 0x10, 0x14, 0x24, 0x2C, 0x30, 0x34] then .readOnly
    else if addr = 0x18 then .intStatus
    else if addr = 0x1C then .intEnable
    else if addr = 0x20 then .watermarks
    else if addr = 0x8 then .control
    else if addr = 0x100 ∨ addr = 0x200 then .commandFifo
    else if addr = 0x38 then .clearFifo
    else .plain ⟨addr / 4, by omega⟩
  else .outside

/-- The write of `REG_AES_CONTROL`. -/
def controlWrite : AppleAESState μ :=
  if val = 1 then start s
  else if val = 2 then stop s
  else if val = 4 then emptyFifo s
  else if val = 8 then reset s
  else s

def regWrite : AppleAESState μ :=
  match register addr with
  | .readOnly => s
  | .intStatus => updateIrq (s.store INT_STATUS (s.reg INT_STATUS &&& ~~~val))
  | .intEnable => updateIrq (s.store INT_ENABLE val)
  | .watermarks => (updateCommandFifoStatus s).store WATERMARKS val
  | .control => controlWrite val s
  | .commandFifo => commandFifoWrite val s
  | .clearFifo => (if val = 1 then emptyFifo s else s).store CLEAR_FIFO val
  | .plain i => s.store i val
  | .outside => s

end

/-! ## Commands -/

/-- How the emulator ends. -/
inductive Abort
  /-- An error that is passed to `error_abort`. -/
  | errorAbort
  /-- An error is set where one is set already. -/
  | assertion
  deriving DecidableEq

/-- The outcome of a command and the indices of the words of its data that it has read. -/
structure Processed (μ : Type) where
  /-- The words read. -/
  reads : List ℕ
  /-- The new state, if there is one. -/
  outcome : Except Abort (AppleAESState μ)

variable (cfg : Config μ) (cmd : AESCommand)

section

variable (i : ℕ) (w : Worker) (s : AppleAESState μ)

/-- A word of the data, or what lies behind it. -/
def AESCommand.word : BitVec 32 :=
  (cmd.data[i]?).getD (cfg.beyond i)

/-- The bytes of `n` words from the word `i` on. -/
def AESCommand.bytes (i n : ℕ) : List UInt8 :=
  (List.range' i n).flatMap fun k => leBytes 4 (cmd.word cfg k).toNat

/-- `int_status.key_0_disabled` and `int_status.key_1_disabled`. -/
def keyDisabledBit (ctx : Fin 2) : ℕ := if ctx = 1 then 13 else 7

/-- The state with a key context replaced. -/
def setKey (ctx : Fin 2) (k : AESKey) (s : AppleAESState μ) : AppleAESState μ :=
  { s with keys := update s.keys ctx k }

/-- `OPCODE_KEY`. -/
def processKey : Processed μ :=
  let w := cmd.command
  let ctx := keyContext w
  let len := keySize (keyLength w) / 8
  let bytes := cmd.bytes cfg 1 (len.toNat / 4)
  let k : AESKey :=
    { cipher := none
      select := keySelect w
      algo := keyAlgo (keyLength w)
      key := fun k => (bytes[k.val]?).getD ((s.keys ctx).key k)
      len := len
      func := keyFunc w
      mode := blockMode w
      wrapped := w.getLsbD 21
      encrypt := w.getLsbD 20
      disabled := keySelect w ≠ KEY_SELECT_SOFTWARE
      id := commandId w }
  let s := s.store KEY_ID (deposit (s.reg KEY_ID) (8 * ctx.val) 8 ((commandId w).setWidth 32))
  let s := s.setIntStatus (keyDisabledBit ctx) k.disabled
  { reads := List.range' 1 (len.toNat / 4)
    outcome :=
      if k.disabled then .ok (setKey ctx k s)
      else
        match cipherNew k.algo (keyMode k.mode) (List.ofFn k.key) len.toNat with
        | some cipher => .ok (setKey ctx { k with cipher := some cipher } s)
        | none => .error .errorAbort }

/-- `error_setg` on an error that may be set already. -/
def errorSetg (errp : Bool) : Except Abort Bool := if errp then .error .assertion else .ok true

/-- The part of `OPCODE_DATA` that works on the data, in which three calls share one error. -/
def cryptData (encrypt : Bool) (cipher : QCryptoCipher) (iv : Fin 16 → UInt8) (buffer : List UInt8)
    : Except Abort (QCryptoCipher × (Fin 16 → UInt8) × List UInt8) := do
  let (cipher, errp) ← match cipherSetiv cipher iv with
    | some c => pure (c, false)
    | none => do pure (cipher, ← errorSetg false)
  let (iv', buffer) := cfg.crypt encrypt cipher buffer
  let cipher := { cipher with iv := iv' }
  match cipherGetiv cipher with
  | some iv => pure (cipher, iv, buffer)
  | none => do
    let _ ← errorSetg errp
    pure (cipher, iv, buffer)

/-- `OPCODE_DATA`. The length is a multiple of the block size when the cipher is used. -/
def processData : Processed μ :=
  let w := cmd.word cfg 0
  let upper := cmd.word cfg 1
  let ctx := keyContext w
  let len := dataLength w
  let source := busAddr (cmd.word cfg 2) (upper.extractLsb' 16 8)
  let dest := busAddr (cmd.word cfg 3) (upper.extractLsb' 0 8)
  let k := s.keys ctx
  { reads := [0, 1, 2, 3]
    outcome :=
      if len % 16 ≠ 0 then .ok (s.setIntStatus 6 true)
      else
        match k.disabled, k.cipher with
        | false, some cipher =>
          match cryptData cfg k.encrypt cipher (s.iv (dataIvContext w))
              (cfg.dmaRead s.mem source len) with
          | .ok (cipher, iv, buffer) => .ok { setKey ctx { k with cipher := some cipher } s with
              iv := update s.iv (dataIvContext w) iv
              mem := cfg.dmaWrite s.mem dest buffer }
          | .error e => .error e
        | _, _ => .ok (s.setIntStatus (keyDisabledBit ctx) true) }

/-- `OPCODE_FLAG`. -/
def processFlag : AppleAESState μ :=
  let w := cmd.command
  let s := s.store FLAG_COMMAND (deposit (s.reg FLAG_COMMAND) 0 16 ((commandId w).setWidth 32))
  let s := if w.getLsbD 26 then { s with stopped := true } else s
  if w.getLsbD 27 then s.setIntStatus 5 true else s

def processCommand : Processed μ :=
  match opcode cmd.command with
  | .key => processKey cfg cmd s
  | .iv =>
    let iv := fun k : Fin 16 => ((cmd.bytes cfg 1 4)[k.val]?).getD 0
    ⟨List.range' 1 4, .ok { s with iv := update s.iv (ivContext cmd.command) iv }⟩
  | .dsb => ⟨[], .ok s⟩
  | .data => processData cfg cmd s
  | .storeIv =>
    let dest := busAddr (cmd.word cfg 1) ((cmd.word cfg 0).extractLsb' 0 8)
    let iv := s.iv (ivContext cmd.command)
    ⟨[0, 1], .ok { s with mem := cfg.dmaWrite s.mem dest (List.ofFn iv) }⟩
  | .flag => ⟨[], .ok (processFlag cmd s)⟩
  | .unknown => ⟨[], .ok (s.setIntStatus 2 true)⟩

/-! ## The worker -/

/-- The state with a worker somewhere else. -/
def setWorker : AppleAESState μ :=
  { s with workers := s.workers.set i w }

/-- A worker performs its command and takes its words off the level. -/
def complete (cmd : AESCommand) (s : AppleAESState μ) : AppleAESState μ :=
  match (processCommand cfg cmd s).outcome with
  | .ok s' =>
    setWorker i .wait (updateCommandFifoStatus (s'.setLevel (s'.level - cmd.data_len.setWidth 8)))
  | .error _ => { s with halted := true }

/-- One step of `aes_thread`. -/
def work : AppleAESState μ :=
  match s.workers[i]? with
  | some .top => setWorker i (if s.stopped then .exited else .enter) s
  | some .enter =>
    match s.queue with
    | [] => setWorker i .wait s
    | cmd :: queue => setWorker i (.busy cmd) { s with queue := queue }
  | some (.busy cmd) => complete cfg i cmd s
  | some .wait => if s.queue = [] ∧ s.stopped = false then s else setWorker i .top s
  | some .exited => s
  | none => s

/-- What can happen to the device. -/
inductive Op
  | regWrite (addr : ℕ) (val : BitVec 32)
  | work (i : ℕ)

/-- One step of the device; the registers admit only aligned accesses. -/
def step (op : Op) : AppleAESState μ :=
  if s.halted then s
  else
    match op with
    | .regWrite addr val => if addr % 4 = 0 then regWrite addr val s else s
    | .work i => work cfg i s

end

/-- A device without memory and with a cipher that changes nothing. -/
def sampleConfig : Config Unit where
  crypt := fun _ cipher data => (cipher.iv, data)
  dmaRead := fun _ _ len => List.replicate len 0
  dmaWrite := fun _ _ _ => ()
  beyond := fun _ => 0

end Inferno.Aes
