import Inferno.Common.Bytes

/-!
# The key store of the System Management Controller

Keys, their registration and the key endpoint of `hw/misc/apple-silicon/smc.c`. A key has an entry
in `keys` with its size, attributes and handlers, and one in `key_data` with its bytes; the two
lists are matched by the identifier of the key. The AP sends messages of 64 bits to the endpoint.
Values of up to four bytes are returned in the response, longer ones and all values to be written
are exchanged through SRAM, which the guest can access at any time.

A handler of a function-backed key gets the keys that are registered, through its `opaque` pointer,
and the bytes of its own entry, which it can overwrite. It cannot change their number.

A failed assertion, the fatal error of a duplicate key and the use of an entry of `key_data` that
does not exist have no result. SRAM has at least 255 bytes, which is what an access can touch.
-/

namespace Inferno.Smc

open Common List

inductive SMCResult where
  | success | error | commCollision | spuriousData | badCommand | badParameter | keyNotFound
  | keyNotReadable | keyNotWritable | keySizeMismatch | framingError | badArgumentError
  | timeoutError | keyIndexRangeError | badFuncParameter | eventBuffWrongOrder
  | eventBuffReadError | deviceAccessError | unsupportedFeature | smbAccessError
  deriving DecidableEq

/-- `KeyResponse`: an answer of the endpoint. -/
structure KeyResponse where
  status : SMCResult
  /-- The tag of the message that is answered. -/
  tagAndId : BitVec 8
  length : BitVec 8
  /-- Up to four bytes. -/
  response : List UInt8
  deriving DecidableEq

/-- What the controller sends to the AP. -/
inductive Sent where
  | response (r : KeyResponse)
  | notification (bytes : List UInt8)
  | sramAddr (addr : BitVec 64)
  deriving DecidableEq

/-- What a handler does. -/
structure FuncResult where
  status : SMCResult
  data : List UInt8
  sent : List Sent
  deriving DecidableEq

/-- `SMCKeyFunc`: a handler, given the registered keys with their `is_sensor`, the size of its key,
the bytes of its entry and its input, `none` for `NULL`. -/
structure SMCKeyFunc where
  /-- What the handler does. -/
  run : List (BitVec 32 × Bool) → BitVec 8 → List UInt8 → Option (List UInt8) → FuncResult
  /-- It leaves as many bytes as there are. -/
  length_eq : ∀ keys size data input, (run keys size data input).data.length = data.length

structure SMCKeyInfo where
  /-- The number of bytes of the value. -/
  size : BitVec 8
  /-- The type, as it was given; it is stored with the most significant byte first. -/
  type : BitVec 32
  attr : BitVec 8

namespace SMCKeyInfo

variable (info : SMCKeyInfo)

/-- `SMC_ATTR_R`. -/
def readable : Bool := info.attr.getLsbD 7

/-- `SMC_ATTR_W`. -/
def writable : Bool := info.attr.getLsbD 6

/-- The six bytes of the packed structure. -/
def bytes : List UInt8 :=
  UInt8.ofBitVec info.size :: ((leBytes 4 info.type.toNat).reverse ++ [UInt8.ofBitVec info.attr])

end SMCKeyInfo

structure SMCKey where
  info : SMCKeyInfo
  key : BitVec 32
  isSensor : Bool
  read : Option SMCKeyFunc
  write : Option SMCKeyFunc

structure SMCKeyData where
  key : BitVec 32
  size : ℕ
  data : List UInt8
  deriving DecidableEq

/-- `AppleSMCState`, as far as the store uses it. -/
structure AppleSMCState where
  /-- The keys, in the order of their registration. -/
  keys : List SMCKey
  keyData : List SMCKeyData
  sram : ℕ → UInt8
  sramAddr : BitVec 64

/-! ## Lists -/

variable (s : AppleSMCState)

variable (key : BitVec 32)

def appleSmcGetKey : Option SMCKey :=
  s.keys.find? fun k => k.key = key

def appleSmcGetKeyData : Option SMCKeyData :=
  s.keyData.find? fun d => d.key = key

/-- The first entry of a key with other bytes. -/
def setData (key : BitVec 32) (data : List UInt8) : List SMCKeyData → List SMCKeyData
  | [] => []
  | d :: ds => if d.key = key then { d with data := data } :: ds else d :: setData key data ds

/-- The bytes of a key are overwritten. -/
def AppleSMCState.store (data : List UInt8) : AppleSMCState :=
  { s with keyData := setData key data s.keyData }

/-- What a handler sees of the keys. -/
def AppleSMCState.registered : List (BitVec 32 × Bool) :=
  s.keys.map fun k => (k.key, k.isSensor)

/-! ## Registration -/

variable (size : BitVec 8)

section

variable (isSensor : Bool) (s : AppleSMCState) (key : BitVec 32) (size : BitVec 8)
  (type : BitVec 32) (attr : BitVec 8) (data : Option (List UInt8))

/-- The initial bytes of a key: those given, or zeros. -/
def initialData : List UInt8 :=
  match data with
  | none => replicate size.toNat 0
  | some data => data.take size.toNat ++ replicate (size.toNat - data.length) 0

def appleSmcInsertKey (k : SMCKey) (d : SMCKeyData) : Option AppleSMCState :=
  if (appleSmcGetKey s k.key).isSome then none
  else some { s with keys := s.keys ++ [k], keyData := s.keyData ++ [d] }

/-- `SMC_ATTR_FUNC` is among the attributes. -/
def attrFunc : Bool := attr.getLsbD 4

/-- `apple_smc_add_key` and `apple_smc_add_sensor`, which differ in `is_sensor`. -/
def addPlain : Option AppleSMCState :=
  if attrFunc attr then none
  else appleSmcInsertKey s ⟨⟨size, type, attr⟩, key, isSensor, none, none⟩
    ⟨key, size.toNat, initialData size data⟩

def appleSmcAddKey := addPlain false

def appleSmcAddSensor := addPlain true

/-- `apple_smc_add_key_func`: the attributes follow from the handlers. -/
def appleSmcAddKeyFunc (reader writer : Option SMCKeyFunc) : Option AppleSMCState :=
  if attr &&& 0xD0 ≠ 0 then none
  else
    let attr := attr ||| 0x10 ||| (if reader.isSome then 0x80 else 0) |||
      (if writer.isSome then 0x40 else 0)
    appleSmcInsertKey s ⟨⟨size, type, attr⟩, key, false, reader, writer⟩
      ⟨key, size.toNat, initialData size none⟩

end

inductive Registration where
  | key (key : BitVec 32) (size : BitVec 8) (type : BitVec 32) (attr : BitVec 8)
      (data : Option (List UInt8))
  | sensor (key : BitVec 32) (size : BitVec 8) (type : BitVec 32) (attr : BitVec 8)
      (data : Option (List UInt8))
  | func (key : BitVec 32) (size : BitVec 8) (type : BitVec 32) (attr : BitVec 8)
      (reader writer : Option SMCKeyFunc)

/-- The store after a registration. -/
def register : Registration → Option AppleSMCState
  | .key key size type attr data => appleSmcAddKey s key size type attr data
  | .sensor key size type attr data => appleSmcAddSensor s key size type attr data
  | .func key size type attr reader writer =>
    appleSmcAddKeyFunc s key size type attr reader writer

/-- A store without keys. -/
def AppleSMCState.empty (sramAddr : BitVec 64) : AppleSMCState := ⟨[], [], fun _ => 0, sramAddr⟩

/-! ## Handlers -/

/-- The bytes after the first of them were overwritten. -/
def overwrite (bytes data : List UInt8) : List UInt8 :=
  (bytes ++ data.drop bytes.length).take data.length

theorem overwrite_length {bytes data : List UInt8} :
    (overwrite bytes data).length = data.length := by
  simp only [overwrite, length_take, length_append, length_drop]
  omega

/-- `smc_key_count_read`: the number of keys, most significant byte first. -/
def smcKeyCountRead : SMCKeyFunc where
  run keys _ data _ := ⟨.success, overwrite (leBytes 4 keys.length).reverse data, []⟩
  length_eq _ _ _ _ := overwrite_length

/-- The word of four characters, the first of them the most significant. -/
def fourCC (a b c d : Char) : ℕ := ((a.toNat * 256 + b.toNat) * 256 + c.toNat) * 256 + d.toNat

/-! ## The key endpoint -/

structure KeyMessage where
  cmd : BitVec 8
  tagAndId : BitVec 8
  /-- The number of bytes to read or write. -/
  length : BitVec 8
  /-- The number of bytes of input for a handler of reads. -/
  payloadLength : BitVec 8
  key : BitVec 32

/-- The message in a word. -/
def KeyMessage.ofRaw (msg : BitVec 64) : KeyMessage :=
  ⟨msg.extractLsb' 0 8, msg.extractLsb' 8 8, msg.extractLsb' 16 8, msg.extractLsb' 24 8,
    msg.extractLsb' 32 32⟩

variable (m : KeyMessage)

section

variable (k : SMCKey) (status : SMCResult)

/-- A response without a value. -/
def KeyMessage.answer : KeyResponse :=
  ⟨status, m.tagAndId, 0, [0, 0, 0, 0]⟩

/-- The input of a handler: the first bytes of SRAM, or `NULL`. -/
def handlerInput (length : BitVec 8) : Option (List UInt8) :=
  if length = 0 then none else some (load s.sram 0 length.toNat)

/-- The end of a read: `apple_smc_key_read` and the length of the value. -/
def finishRead (data : List UInt8) : AppleSMCState × KeyResponse :=
  if m.length < k.info.size then (s, m.answer .keySizeMismatch)
  else
    let value := data.take k.info.size.toNat
    if k.info.size ≤ 4 then
      (s, ⟨.success, m.tagAndId, k.info.size, value ++ replicate (4 - value.length) 0⟩)
    else
      ({ s with sram := Store.apply s.sram ⟨0, value⟩ },
        ⟨.success, m.tagAndId, k.info.size, [0, 0, 0, 0]⟩)

/-- `SMC_READ_KEY` and `SMC_READ_KEY_PAYLOAD`. -/
def readKey : Option (AppleSMCState × List Sent) :=
  match appleSmcGetKey s m.key with
  | none => some (s, [.response (m.answer .keyNotFound)])
  | some k =>
    if k.info.readable then
      (appleSmcGetKeyData s m.key).map fun d =>
        match k.read with
        | none =>
          let r := finishRead s m k d.data
          (r.1, [.response r.2])
        | some f =>
          let f := f.run s.registered k.info.size d.data (handlerInput s m.payloadLength)
          let s := s.store m.key f.data
          if f.status = .success then
            let r := finishRead s m k f.data
            (r.1, f.sent ++ [.response r.2])
          else (s, f.sent ++ [.response (m.answer f.status)])
    else some (s, [.response (m.answer .keyNotReadable)])

/-- The response to a write with its result; only a success has a length. -/
def writeAnswer : KeyResponse :=
  if status = .success then ⟨.success, m.tagAndId, k.info.size, [0, 0, 0, 0]⟩ else m.answer status

end

def writeKey : Option (AppleSMCState × List Sent) :=
  match appleSmcGetKey s m.key with
  | none => some (s, [.response (m.answer .keyNotFound)])
  | some k =>
    if k.info.writable then
      if k.info.size ≠ m.length then some (s, [.response (m.answer .keySizeMismatch)])
      else
        (appleSmcGetKeyData s m.key).map fun d =>
          match k.write with
          | none =>
            (s.store m.key (overwrite (load s.sram 0 m.length.toNat) d.data),
              [.response (writeAnswer m k .success)])
          | some f =>
            let f := f.run s.registered k.info.size d.data (handlerInput s m.length)
            (s.store m.key f.data, f.sent ++ [.response (writeAnswer m k f.status)])
    else some (s, [.response (m.answer .keyNotWritable)])

def getKeyByIndex : KeyResponse :=
  match s.keys[m.key.toNat]? with
  | none => m.answer .keyIndexRangeError
  | some k => ⟨.success, m.tagAndId, 0, leBytes 4 k.key.toNat⟩

def getKeyInfo : AppleSMCState × KeyResponse :=
  match appleSmcGetKey s m.key with
  | none => (s, m.answer .keyNotFound)
  | some k => ({ s with sram := Store.apply s.sram ⟨0, k.info.bytes⟩ }, m.answer .success)

/-- `apple_smc_handle_key_endpoint`: the state after a message and what is sent. -/
def appleSmcHandleKeyEndpoint : Option (AppleSMCState × List Sent) :=
  if m.cmd = 0x17 then some (s, [.sramAddr s.sramAddr])
  else if m.cmd = 0x10 ∨ m.cmd = 0x20 then readKey s m
  else if m.cmd = 0x11 then writeKey s m
  else if m.cmd = 0x12 then some (s, [.response (getKeyByIndex s m)])
  else if m.cmd = 0x13 then
    let r := getKeyInfo s m
    some (r.1, [.response r.2])
  else some (s, [.response (m.answer .badCommand)])

end Inferno.Smc
