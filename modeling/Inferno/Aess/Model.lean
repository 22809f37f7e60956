import Inferno.Common.Bytes

/-!
# The AES engine of the secure enclave

The model of `AppleAESSState` of `sep.c`: the registers, the input and output blocks, the latched
keys, and the command decoder `aess_handle_cmd`. The two group keys are parameters of the model, and
so is the cipher library, whose CBC ciphers are objects with a chaining state. An access that runs
into `assert_not_reached` returns nothing. A write answers whether it has pushed the engine's
interrupt into the mailbox.
-/

namespace Inferno.Aess

open Common

/-! ## Arrays of bytes -/

/-- An array of `n` bytes. -/
abbrev Bytes (n : ℕ) : Type := Fin n → UInt8

/-- The byte `k` of a word, least significant first. -/
def byteOf (w : BitVec 32) (k : ℕ) : UInt8 := UInt8.ofNat (w.toNat / 256 ^ k)

/-- A key that is given by its eight words. -/
def ofWords (ws : List (BitVec 32)) : Bytes 32 := fun i => byteOf (ws.getD (i / 4) 0) (i % 4)

variable (b : Bytes 32)

/-- The first sixteen bytes of a block pair: `iv` and `in_dec` of the input, `tag_out` of the
output. -/
def firstHalf : Bytes 16 := fun i => b (i.castLE (by decide))

/-- The last sixteen bytes of a block pair: `in` and `iv_dec` of the input, `out` of the output. -/
def secondHalf : Bytes 16 := fun i => b (Fin.natAdd 16 i)

/-- The block pair of two blocks. -/
def join (a b : Bytes 16) : Bytes 32 := fun i =>
  if h : (i : ℕ) < 16 then a ⟨i, h⟩ else b ⟨i - 16, by omega⟩

/-- The array in memory, with zeros after its end. -/
def image : ℕ → UInt8 := fun i => if h : i < 32 then b ⟨i, h⟩ else 0

/-- `memcpy` of four bytes of memory to a register value. -/
def wordAt (m : ℕ → UInt8) (off : ℕ) : BitVec 32 := BitVec.ofNat 32 (ofLe (load m off 4))

/-- `memcpy` of the four bytes of a register value into an array. -/
def setWord (off : ℕ) (data : BitVec 32) : Bytes 32 := fun i =>
  if off ≤ (i : ℕ) ∧ (i : ℕ) < off + 4 then byteOf data (i - off) else b i

/-- `xor_32bit_value`: a value is combined with `size` words of an array, from the offset `off`. -/
def xor32BitValue (off : ℕ) (val : BitVec 32) (size : ℕ) : Bytes 32 := fun i =>
  if off ≤ (i : ℕ) ∧ (i : ℕ) < off + 4 * size then b i ^^^ byteOf val ((i - off) % 4) else b i

/-! ## Keys and ciphers -/

def aessUid0 : Bytes 32 := ofWords [0xDEADBEEF, 0x13370000, 0xA55A0000, 0xCAFECAFE, 0xC4F3C4F3,
  0xD34DB33F, 0xFF317331, 0xFFA50000]

def aessUid1 : Bytes 32 := ofWords [0xDEADBEEF, 0x13371111, 0xA55A1111, 0xCAFECAFE, 0xC4F3C4F3,
  0xD34DB33F, 0xFF317331, 0xFFA50000]

def aessKeyForDisabledKey : Bytes 32 := ofWords [0xF00FF00F, 0xF00FF00F, 0xF00FF00F, 0xCAFECA33,
  0xC4F3C488, 0xD34DB33F, 0xF00FF00F, 0xF00FF00F]

def aessUidSeedNotEnabled : Bytes 32 := ofWords [0x0FF00FF0, 0x0FF00FF0, 0x0FF00FF0, 0xCAFECA44,
  0xC4F3C499, 0xD34DB33F, 0x0FF00FF0, 0x0FF00FF0]

def aessUidSeedInvalid : Bytes 32 := ofWords [0x1FF11FF1, 0x1FF11FF1, 0x1FF11FF1, 0xCAFECA55,
  0xC4F3C4AA, 0xD34DB33F, 0x1FF11FF1, 0x1FF11FF1]

/-- The two group keys. -/
inductive Group where
  /-- The key that a command without selection flags uses. -/
  | gid0
  /-- The key that the flag `SEP_AESS_CMD_FLAG_KEYSELECT_GID1` selects. -/
  | gid1
  deriving DecidableEq, Repr

/-- The values of the group keys. -/
abbrev GroupKeys : Type := Group → Bytes 32

/-- The bit of the key-disable register for a group key. -/
def Group.disableBit : Group → ℕ
  | .gid0 => 0
  | .gid1 => 1

/-- The ciphers that the engine uses (`QCryptoCipherAlgo`). -/
inductive CipherAlgo where
  | aes128
  | aes192
  | aes256
  deriving DecidableEq, Repr

/-- `qcrypto_cipher_get_key_len`. -/
def CipherAlgo.keyLen : CipherAlgo → ℕ
  | .aes128 => 16
  | .aes192 => 24
  | .aes256 => 32

/-- What the engine uses of the cipher library. A cipher in CBC mode is an object whose state holds
the key and the chaining block. -/
structure CipherLib (C : Type) where
  /-- `qcrypto_cipher_new` in CBC mode, with the bytes of the key. -/
  new : CipherAlgo → List UInt8 → C
  setiv : C → Bytes 16 → C
  /-- `qcrypto_cipher_encrypt`, with the cipher afterwards. -/
  encrypt : {n : ℕ} → C → Bytes n → Bytes n × C
  /-- `qcrypto_cipher_decrypt`, with the cipher afterwards. -/
  decrypt : {n : ℕ} → C → Bytes n → Bytes n × C

/-- `qcrypto_cipher_new` with the first `key_len` bytes of a key buffer. -/
def CipherLib.withKey {C : Type} (lib : CipherLib C) (alg : CipherAlgo) (key : Bytes 32) : C :=
  lib.new alg ((List.ofFn key).take alg.keyLen)

/-! ## The state -/

/-- The bits of the key-disable register. -/
def keydisableMask : BitVec 32 := 0x1B

/-- The state of the engine, with the memory of the registers that the engine does not know. -/
structure AppleAESSState where
  status : BitVec 32
  command : BitVec 32
  interruptStatus : BitVec 32
  interruptEnabled : BitVec 32
  /-- `reg_0x14_keywrap_iterations_counter`. -/
  keywrapIterationsCounter : BitVec 32
  keydisable : BitVec 32
  /-- The key-disable register holds no other bits than its mask's. -/
  keydisable_and_mask : keydisable &&& keydisableMask = keydisable
  seedBits : BitVec 32
  seedBitsLock : BitVec 32
  /-- The input: `iv` and `in` of an encryption, `in_dec` and `iv_dec` of a decryption. -/
  inFull : Bytes 32
  /-- The output: `tag_out` and `out`. -/
  outFull : Bytes 32
  /-- The custom key that the command `0xB` latches. -/
  key256In : Bytes 32
  /-- The key of the key wrap `0x2`. -/
  keywrapKeyUid0 : Bytes 32
  /-- The key of the key wrap `0x12`. -/
  keywrapKeyUid1 : Bytes 32
  customKeyIndex : Fin 4 → Bytes 32
  customKeyIndexEnabled : Fin 4 → Bool
  keywrapUid0Enabled : Bool
  keywrapUid1Enabled : Bool
  /-- `aess_base_regs`, the memory of the other registers. -/
  aessBaseRegs : ℕ → UInt8

theorem zero_and_keydisableMask : (0 : BitVec 32) &&& keydisableMask = 0 := BitVec.zero_and

/-! ## The command word -/

variable (cmd : BitVec 32)

/-- `SEP_AESS_CMD_WITHOUT_KEYSIZE`. -/
def withoutKeysize : BitVec 32 := cmd &&& ~~~0x300#32

/-- `SEP_AESS_CMD_WITHOUT_FLAGS`. -/
def withoutFlags : BitVec 32 := withoutKeysize cmd &&& ~~~0xC0#32

/-- The flag `SEP_AESS_CMD_FLAG_KEYSELECT_GID1` is set. -/
def keyselectGid1 : Bool := cmd &&& 0x40 != 0

/-- The flag `SEP_AESS_CMD_FLAG_KEYSELECT_CUSTOM` is set. -/
def keyselectCustom : Bool := cmd &&& 0x80 != 0

/-- One of the two key selection flags is set. -/
def keyselectNonGid0 : Bool := cmd &&& 0xC0 != 0

/-- `get_aes_cipher_alg`, with the assertion for both size flags at once. -/
def getAesCipherAlg (flags : BitVec 32) : Option CipherAlgo :=
  if flags &&& 0x300 = 0 then some .aes128
  else if flags &&& 0x300 = 0x100 then some .aes192
  else if flags &&& 0x300 = 0x200 then some .aes256
  else none

def aessGetCustomKeywrapIndex : Option (Fin 4) :=
  if cmd = 0x01 ∨ cmd = 0x06 then some ⟨0, by decide⟩
  else if cmd = 0x41 ∨ cmd = 0x46 then some ⟨1, by decide⟩
  else if cmd = 0x81 ∨ cmd = 0x08 ∨ cmd = 0x88 then some ⟨2, by decide⟩
  else if cmd = 0xC1 ∨ cmd = 0x48 ∨ cmd = 0xC8 then some ⟨3, by decide⟩
  else none

/-- `check_register_0x18_KEYDISABLE_BIT_INVALID`: the command uses a key that is disabled. -/
def keydisableBitInvalid (cmd keydisable : BitVec 32) : Bool :=
  let c := withoutKeysize cmd
  if c = 0x0C ∨ c = 0x4C then keydisable.getLsbD 4
  else if c = 0x09 ∨ c = 0x0A then keydisable.getLsbD 0
  else if c = 0x49 ∨ c = 0x4A then keydisable.getLsbD 1
  else if c = 0x0D ∨ c = 0x4D then keydisable.getLsbD 3
  else if c = 0x50 ∨ c = 0x90 then keydisable.getLsbD 3
  else false

/-! ## The commands -/

section Commands

variable {C : Type} (lib : CipherLib C)

/-- The loop of `aess_keywrap_uid`: one cipher encrypts its own result `n` times. -/
def encryptTimes : ℕ → C → Bytes 32 → Bytes 32
  | 0, _, data => data
  | n + 1, cipher, data =>
    encryptTimes n (lib.encrypt cipher data).2 (lib.encrypt cipher data).1

variable (s : AppleAESSState)

/-- The key of `aess_keywrap_uid`, before the iteration counter is mixed in. -/
def keywrapKey : Option (Bytes 32) :=
  let normalized := withoutFlags s.command
  if normalized = 0x02 ∧ s.keywrapUid0Enabled then some s.keywrapKeyUid0
  else if normalized = 0x12 ∧ s.keywrapUid1Enabled then some s.keywrapKeyUid1
  else if normalized = 0x02 ∨ normalized = 0x12 then some aessUidSeedNotEnabled
  else none

/-- The command of `aess_keywrap_uid`, with the copies around it. -/
def aessKeywrapUid : Option AppleAESSState :=
  (keywrapKey s).map fun key =>
    let cipher := lib.withKey .aes256 (xor32BitValue key 0x10 s.keywrapIterationsCounter 2)
    { s with
      outFull := encryptTimes lib (max 1 s.keywrapIterationsCounter.toNat) cipher s.inFull
      keywrapIterationsCounter := 0 }

/-- The command is one of the two that force a custom key and AES-256. -/
def customEncryption (cmd : BitVec 32) : Bool := withoutFlags cmd == 0x6 || withoutFlags cmd == 0x8

variable (gid : GroupKeys)

variable (invalid : Bool)

/-- The key of an encryption or decryption command. -/
def usedKey (s : AppleAESSState) : Option (Bytes 32) :=
  if customEncryption s.command then
    (aessGetCustomKeywrapIndex (s.command &&& 0xFF)).map fun index =>
      if s.customKeyIndexEnabled index then s.customKeyIndex index else fun _ => 0
  else if keyselectCustom s.command then some s.key256In
  else if invalid then some aessKeyForDisabledKey
  else if keyselectGid1 s.command then some (gid .gid1)
  else some (gid .gid0)

variable (alg : CipherAlgo)

/-- The output of an encryption or decryption command under a key. -/
def cbcOutput (key : Bytes 32) (s : AppleAESSState) : Bytes 32 :=
  let custom := customEncryption s.command
  let cipher := lib.withKey (if custom then .aes256 else alg) key
  if custom && !keyselectCustom s.command then
    -- Both blocks are encrypted with the chaining block of a new cipher.
    (lib.encrypt cipher s.inFull).1
  else if custom || withoutFlags s.command == 0x9 then
    let iv := firstHalf s.inFull
    join iv (lib.encrypt (lib.setiv cipher iv) (secondHalf s.inFull)).1
  else
    -- The first block is decrypted twice, at first without the second as its chaining block.
    let first := lib.decrypt cipher (firstHalf s.inFull)
    join first.1 (lib.decrypt (lib.setiv first.2 (secondHalf s.inFull)) (firstHalf s.inFull)).1

section

variable (invalid : Bool) (s : AppleAESSState)

/-- The encryption and decryption commands of `aess_handle_cmd`. The command `0x6` does nothing when
it selects the custom key itself. -/
def cbcCommand : Option AppleAESSState :=
  if withoutFlags s.command = 0x6 ∧ keyselectCustom s.command then some s
  else (usedKey gid invalid s).map fun key => { s with outFull := cbcOutput lib alg key s }

/-- The command `0x40`: the key of the key wrap `0x2` takes in the seed bits. -/
def syncUid0 : AppleAESSState :=
  { s with
    keywrapKeyUid0 := xor32BitValue aessUid0 0x8 s.seedBits 2
    keywrapUid0Enabled := true }

/-- The command `0x50`: the key of the key wrap `0x12` takes in the seed bits. -/
def syncUid1 : AppleAESSState :=
  { s with
    keywrapKeyUid1 :=
      xor32BitValue (if invalid then aessUidSeedInvalid else aessUid1) 0x8 s.seedBits 2
    keywrapUid1Enabled := true }

/-- The command `0x1`: an indexed custom key is set to the input. -/
def setCustomKey : Option AppleAESSState :=
  (aessGetCustomKeywrapIndex (s.command &&& 0xFF)).map fun index =>
    { s with
      customKeyIndex :=
        Function.update s.customKeyIndex index (xor32BitValue s.inFull 0 0xDEADBEEF 8)
      customKeyIndexEnabled := Function.update s.customKeyIndexEnabled index true }

/-- The cases of `aess_handle_cmd`. -/
def performCmd : Option AppleAESSState :=
  let cmd := s.command
  let normalized := withoutFlags cmd
  if !keyselectNonGid0 cmd ∧ normalized = 0xB then some { s with key256In := s.inFull }
  else if !keyselectNonGid0 cmd ∧ (normalized = 0x2 ∨ normalized = 0x12) then aessKeywrapUid lib s
  else if normalized = 0x9 ∨ normalized = 0xA ∨ normalized = 0x8 ∨ normalized = 0x6 then
    cbcCommand lib gid alg invalid s
  else if normalized = 0x0 then some (if keyselectGid1 cmd then syncUid0 s else s)
  else if normalized = 0x10 then some (if keyselectGid1 cmd then syncUid1 invalid s else s)
  else if normalized = 0x1 then setCustomKey s
  else some s

/-- The end of `aess_handle_cmd` with `aess_raise_interrupt`: the answer is whether the interrupt
`0x10005` is pushed. -/
def jumpReturn : Bool × AppleAESSState :=
  (s.interruptEnabled &&& 0x3 == 0x3, { s with
      interruptStatus := (if invalid then s.interruptStatus ||| 0x2 else s.interruptStatus) ||| 0x1
      status := s.status &&& ~~~0x2#32 })

/-- The output is cleared at the start of a command. -/
def clearOut : AppleAESSState := { s with outFull := fun _ => 0 }

def aessHandleCmd : Option (Bool × AppleAESSState) :=
  (getAesCipherAlg s.command).bind fun alg =>
    let invalid := keydisableBitInvalid s.command s.keydisable
    (performCmd lib gid alg invalid (clearOut s)).map (jumpReturn invalid)

end

/-! ## The registers -/

variable (data : BitVec 32)

/-- The status register takes a new command on. -/
def startCmd : AppleAESSState :=
  { s with
    status := (data &&& ~~~0x1#32) ||| 0x2
    interruptStatus := s.interruptStatus &&& ~~~0x1#32 }

/-- The key-disable register takes bits in and loses none. -/
def setKeydisable : AppleAESSState :=
  { s with
    keydisable := (data ||| s.keydisable) &&& keydisableMask
    keydisable_and_mask := by rw [BitVec.and_assoc, BitVec.and_self] }

section

variable (s : AppleAESSState) (addr : ℕ) (data : BitVec 32)

/-- The writes of `aess_base_reg_write` to the registers other than the status register. -/
def writeReg : AppleAESSState :=
  if addr = 0x8 then { s with command := data &&& 0x3FF }
  else if addr = 0xC then
    if data &&& 0x1 != 0 then { s with interruptStatus := s.interruptStatus &&& ~~~0x1#32 } else s
  else if addr = 0x10 then { s with interruptEnabled := data &&& 0x3 }
  else if addr = 0x14 then { s with keywrapIterationsCounter := data }
  else if addr = 0x18 then setKeydisable s data
  else if addr = 0x1C then
    { s with seedBits := (data &&& ~~~s.seedBitsLock) ||| (s.seedBits &&& s.seedBitsLock) }
  else if addr = 0x20 then { s with seedBitsLock := data ||| s.seedBitsLock }
  else if 0x40 ≤ addr ∧ addr ≤ 0x4C ∨ 0x100 ≤ addr ∧ addr ≤ 0x10C then
    { s with inFull := setWord s.inFull (addr % 0x10) data }
  else if 0x50 ≤ addr ∧ addr ≤ 0x5C ∨ 0x110 ≤ addr ∧ addr ≤ 0x11C then
    { s with inFull := setWord s.inFull (0x10 + addr % 0x10) data }
  else { s with aessBaseRegs := Store.apply s.aessBaseRegs ⟨addr, leBytes 4 data.toNat⟩ }

def aessBaseRegWrite : Option (Bool × AppleAESSState) :=
  if addr = 0x4 then
    if data &&& 0x1 != 0 then aessHandleCmd lib gid (startCmd s data) else some (false, s)
  else some (false, writeReg s addr data)

def aessBaseRegRead : BitVec 32 :=
  if addr = 0x4 then s.status
  else if addr = 0x8 then s.command
  else if addr = 0xC then s.interruptStatus
  else if addr = 0x10 then s.interruptEnabled
  else if addr = 0x14 then s.keywrapIterationsCounter
  else if addr = 0x18 then s.keydisable
  else if addr = 0x1C then s.seedBits
  else if addr = 0x20 then s.seedBitsLock
  else if 0x40 ≤ addr ∧ addr ≤ 0x4C then wordAt (image s.inFull) (addr % 0x10)
  else if 0x50 ≤ addr ∧ addr ≤ 0x5C then wordAt (image s.inFull) (0x10 + addr % 0x10)
  else if 0x60 ≤ addr ∧ addr ≤ 0x6C then wordAt (image s.outFull) (addr % 0x10)
  else if 0x70 ≤ addr ∧ addr ≤ 0x7C then wordAt (image s.outFull) (0x10 + addr % 0x10)
  else if addr = 0xE4 then 0
  else if addr = 0x280 then 1
  else wordAt s.aessBaseRegs addr

/-- An access of the guest to the registers. -/
inductive Access where
  | read (addr : ℕ)
  | write (addr : ℕ) (data : BitVec 32)
  deriving DecidableEq, Repr

/-- What the guest sees of an access. -/
inductive Reply where
  | value (data : BitVec 32)
  /-- Whether the write has raised the interrupt. -/
  | done (raised : Bool)
  deriving DecidableEq, Repr

/-- One access of the guest. -/
def access : Access → Option (Reply × AppleAESSState)
  | .read addr => some (.value (aessBaseRegRead s addr), s)
  | .write addr data =>
    (aessBaseRegWrite lib gid s addr data).map fun p => (.done p.1, p.2)

end

end Commands

end Inferno.Aess
