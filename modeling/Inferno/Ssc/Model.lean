import Inferno.Common.BigEndian
import Inferno.Common.Buffer

/-!
# The secure storage component

`AppleSSCState` of `hw/arm/apple-silicon/sep.c`: a device behind an I2C bus that keeps 73 key slots
and a backing store. A request is written byte by byte (`apple_ssc_tx`) and answered when the second
byte of the response is read (`apple_ssc_rx`). A session of a slot starts with a key exchange over
P-384 (commands 0 and 1) and ends with command 2; commands 3 to 6 are authenticated with keys of the
session and a counter.

The functions of the cryptographic library are parameters (`Nettle`). An index that is not one of an
array, or a read or a write outside a buffer, is `none`. The calls that use the keys of a slot are
recorded in `log`, which no function reads.
-/

namespace Inferno.Ssc

open Common Function
open List (replicate)

/-! ## Points -/

/-- The modulus of secp384r1. -/
def curveP : ℕ :=
  0xfffffffffffffffffffffffffffffffffffffffffffffffffffffffffffffffeffffffff0000000000000000ffffffff

/-- The coefficient `b` of secp384r1. -/
def curveB : ℕ :=
  0xb3312fa7e23ee7e4988e056be3f82d19181d9c6efe8141120314088f5013875ac656398d8a2ed19d2a85c8edd3ec2aef

/-- The order of secp384r1. -/
def curveOrder : ℕ :=
  0xffffffffffffffffffffffffffffffffffffffffffffffffc7634d81f4372ddf581a0db248b0a77aecec196accc52973

/-- Two reduced coordinates satisfy `y² = x³ - 3x + b`. -/
def OnCurve (x y : ℕ) : Prop :=
  x < curveP ∧ y < curveP ∧ y * y % curveP = (x * x * x + (curveP - 3) * x + curveB) % curveP

instance decidableOnCurve (x y : ℕ) : Decidable (OnCurve x y) :=
  inferInstanceAs (Decidable (_ ∧ _))

structure EccPoint where
  x : ℕ
  y : ℕ
  onCurve : OnCurve x y

/-- `output_ec_pub` to the bytes at `off`. -/
def outputEcPub (pub : EccPoint) (off : ℕ) : List Store :=
  [⟨off, minBytes pub.x⟩, ⟨off + 48, minBytes pub.y⟩]

inductive EccScalar
  /-- All bytes of it are zero. -/
  | zero
  /-- It is initialised. -/
  | init
  /-- It has been given a value. -/
  | set (v : ℕ)
  deriving DecidableEq

/-! ## The cryptographic library -/

/-- The functions of the cryptographic library, with random contexts of type `R`. -/
structure Nettle (R : Type) where
  knuthLfibInit : ℕ → R
  eccPointMul : ℕ → EccPoint → EccPoint
  eccPointMulG : ℕ → EccPoint
  /-- `ecc_point_set`; `none` where it returns 0. -/
  eccPointSet : ℕ → ℕ → Option EccPoint
  eccScalarSet : ℕ → Bool
  /-- `ecdsa_sign`: both numbers of the signature, and the context. -/
  ecdsaSign : EccScalar → R → List UInt8 → (ℕ × ℕ) × R
  hmacSha256 : List UInt8 → List UInt8 → List UInt8
  sha384 : List UInt8 → List UInt8
  cmacAes256 : List UInt8 → List UInt8 → List UInt8
  /-- `ccm_aes256_encrypt_message`, from key, nonce, authenticated data and message to the
  ciphertext and the tag behind it. -/
  ccmEncrypt : List UInt8 → List UInt8 → List UInt8 → List UInt8 → List UInt8
  /-- `ccm_aes256_decrypt_message`, from key, nonce, authenticated data and the ciphertext with the
  tag behind it to the status and the message. -/
  ccmDecrypt : List UInt8 → List UInt8 → List UInt8 → List UInt8 → Bool × List UInt8
  pointSet_iff : ∀ x y P, eccPointSet x y = some P ↔ x = P.x ∧ y = P.y
  scalarSet_iff : ∀ v, eccScalarSet v = true ↔ 0 < v ∧ v < curveOrder
  sign_lt : ∀ key rctx digest, (ecdsaSign key rctx digest).1.1 < curveOrder ∧
    (ecdsaSign key rctx digest).1.2 < curveOrder
  length_cmac : ∀ key msg, (cmacAes256 key msg).length = 16
  length_encrypt : ∀ key nonce auth msg, (ccmEncrypt key nonce auth msg).length = msg.length + 16

/-! ## The state -/

/-- An index of the arrays with `KBKDF_KEY_MAX_SLOTS` elements. -/
abbrev Slot := Fin 0x49

/-- A use of such an index; `none` is an access outside the array. -/
def keySlot (kbkdfIndex : ℕ) : Option Slot :=
  if h : kbkdfIndex < 0x49 then some ⟨kbkdfIndex, h⟩ else none

/-- What is recorded of the keys of slots. -/
inductive Event
  /-- Keys are generated, and a session starts. -/
  | keys (i : Slot)
  | clear (i : Slot)
  | reset
  /-- The tag of a request is checked with a counter. -/
  | verify (i : Slot) (counter : BitVec 32)
  | respond (i : Slot) (key nonce : List UInt8)
  deriving DecidableEq

/-- The fields of `AppleSSCState` that commands work on. -/
structure SscKeys (R : Type) where
  eccKeyMain : EccScalar
  eccKeys : Slot → EccScalar
  rctx : R
  randomHmacKey : List UInt8
  slotHmacKey : Slot → List UInt8
  kbkdfKeys : Slot → List UInt8
  kbkdfCounter : Slot → BitVec 32
  cpsn : List UInt8
  blk : List UInt8
  /-- What has been done with the keys of slots. -/
  log : List Event

/-- A buffer for a request or a response. -/
structure Packet where
  bytes : List UInt8
  length_bytes : bytes.length = 0x100

/-- Bytes that are stored to a buffer. -/
def Packet.store (p : Packet) (ws : List Store) : Option Packet :=
  Option.pmap Packet.mk (putAll p.bytes ws) fun _ h =>
    ((exactly_putAll p.bytes ws).of_some h).2.trans p.length_bytes

/-- A buffer of zero bytes. -/
def Packet.zero : Packet := ⟨replicate 0x100 0, List.length_replicate⟩

structure AppleSSCState (R : Type) where
  reqCur : ℕ
  respCur : ℕ
  reqCmd : Packet
  respCmd : Packet
  keys : SscKeys R

/-! ## Keys -/

/-- The bytes of a text. -/
def ascii (text : List Char) : List UInt8 := text.map fun ch => UInt8.ofNat ch.toNat

def infostrAkeSessionseed : List UInt8 :=
  ascii ['A', 'K', 'E', '_', 'S', 'e', 's', 's', 'i', 'o', 'n', 'S', 'e', 'e', 'd', '\n']

def infostrAkeMackey : List UInt8 :=
  ascii ['A', 'K', 'E', '_', 'M', 'A', 'C', 'K', 'e', 'y', '\n', '\n', '\n', '\n', '\n', '\n']

def infostrAkeExtractorkey : List UInt8 :=
  ascii ['A', 'K', 'E', '_', 'E', 'x', 't', 'r', 'a', 'c', 't', 'o', 'r', 'K', 'e', 'y']

section Commands

variable {R : Type} (N : Nettle R)

variable (s : SscKeys R) (kbkdfIndex : ℕ)

def isKeyslotValid : Bool :=
  if h : kbkdfIndex < 0x49 then
    s.eccKeys ⟨kbkdfIndex, h⟩ ≠ .zero && (s.kbkdfKeys ⟨kbkdfIndex, h⟩).any (· ≠ 0)
  else false

def kbkdfGenerateKey (cmacKey label context : List UInt8) (length : ℕ) : List UInt8 :=
  let block (i : ℕ) := N.cmacAes256 cmacKey
    (beBytes 2 (i + 1) ++ label ++ [0] ++ context ++ beBytes 2 (length * 8))
  ((List.range ((length + 15) / 16)).flatMap block).take length

/-- `input_ec_pub` from the bytes of both coordinates; `none` where it returns 0. -/
def inputEcPub (xy : List UInt8) : Option EccPoint :=
  N.eccPointSet (ofBe (xy.take 48)) (ofBe ((xy.drop 48).take 48))

/-- `generate_ec_priv` for a private key that is given as a number: what `ecc_key` becomes, and the
public key if it does not fail. -/
def generateEcPriv (priv : ℕ) : EccScalar × Option EccPoint :=
  if N.eccScalarSet (priv + 1) then (.set (priv + 1), some (N.eccPointMulG (priv + 1)))
  else (.zero, none)

section

variable (eccKey : ℕ) (peer : EccPoint) (hmacKey label context : List UInt8) (kbkdfIndex : ℕ)

/-- The bytes that `generate_kbkdf_keys` hashes: the first half of `shared_key_xy`. -/
def sharedKey : Option (List UInt8) := do
  let sharedKeyXy ← putAll (replicate 96 0) (outputEcPub (N.eccPointMul eccKey peer) 0)
  fetch sharedKeyXy 0 48

def generateKbkdfKeys : Option (SscKeys R) := do
  let shared ← sharedKey N eccKey peer
  let i ← keySlot kbkdfIndex
  let derived := N.hmacSha256 hmacKey shared
  some { s with
    kbkdfKeys := update s.kbkdfKeys i (kbkdfGenerateKey N derived label context 0x48)
    kbkdfCounter := update s.kbkdfCounter i 0
    log := s.log ++ [.keys i] }

end

/-- `aes_keys_from_sp_key`: `aes_key_mackey` and `aes_key_extractorkey`. -/
def aesKeysFromSpKey (context : List UInt8) : Option (List UInt8 × List UInt8) := do
  let i ← keySlot kbkdfIndex
  let hmacKey := s.slotHmacKey i
  some (kbkdfGenerateKey N hmacKey infostrAkeMackey context 0x20,
    kbkdfGenerateKey N hmacKey infostrAkeExtractorkey context 0x20)

/-- The counter in the form in which it goes into nonces. -/
def counterBe (counter : BitVec 32) : List UInt8 := beBytes 4 counter.toNat

def nonceOf (kbkdfKey : List UInt8) (counter : BitVec 32) : List UInt8 :=
  kbkdfKey.take 8 ++ counterBe counter

/-- `aes_ccm_crypt` with the key for requests, which decrypts: the status and the payload. -/
def aesCcmDecrypt (hdr data : List UInt8) : Option ((Bool × List UInt8) × SscKeys R) := do
  let i ← keySlot kbkdfIndex
  let counter := s.kbkdfCounter i
  let out := N.ccmDecrypt (((s.kbkdfKeys i).drop 8).take 32) (nonceOf (s.kbkdfKeys i) counter)
    (hdr ++ counterBe counter) (data.drop 16 ++ data.take 16)
  some (out, { s with
    kbkdfCounter := update s.kbkdfCounter i (counter + 1)
    log := s.log ++ [.verify i counter] })

/-- `aes_ccm_crypt` with the key for responses, which encrypts: the tag and the ciphertext. -/
def aesCcmEncrypt (hdr payload : List UInt8) : Option (List UInt8 × SscKeys R) := do
  let i ← keySlot kbkdfIndex
  let counter := s.kbkdfCounter i
  let key := ((s.kbkdfKeys i).drop 0x28).take 32
  let out := N.ccmEncrypt key (nonceOf (s.kbkdfKeys i) counter) (hdr ++ counterBe counter) payload
  some (out.drop payload.length ++ out.take payload.length,
    { s with log := s.log ++ [.respond i key (nonceOf (s.kbkdfKeys i) counter)] })

/-! ## Responses -/

/-- `SSC_RESPONSE_FLAG_COMMAND_SIZE_MISMATCH`. -/
def flagSizeMismatch : UInt8 := 0x02

/-- `SSC_RESPONSE_FLAG_COMMAND_OR_FIELD_INVALID`. -/
def flagFieldInvalid : UInt8 := 0x04

def flagKeyslotInvalid : UInt8 := 0x08

def flagCmacInvalid : UInt8 := 0x10

def flagCurveInvalid : UInt8 := 0x20

/-- `SSC_RESPONSE_FLAG_OK`. -/
def flagOk : UInt8 := 0x80

variable (request response : Packet)

def doResponsePrefix (flags : UInt8) : Option Packet := do
  let cmd ← request.bytes[0]?
  let slot ← request.bytes[1]?
  response.store ([⟨0, replicate 0xC4 0⟩, ⟨0, [cmd]⟩] ++
    (if cmd ≤ 6 then [⟨1, [slot]⟩] else []) ++ [⟨2, [0]⟩, ⟨3, [flags]⟩])

/-- A command that ends with a response without a payload. -/
def respond (flags : UInt8) : Option (SscKeys R × Packet) := do
  let response ← doResponsePrefix request response flags
  some (s, response)

/-- The private key of command 0. -/
def init1Priv : ℕ :=
  0x222222222222222222222222222222222222222222222222222222222222222222222222222222222222222222222222

/-- The private key of command 1. -/
def connectPriv : ℕ :=
  0x333333333333333333333333333333333333333333333333333333333333333333333333333333333333333333333333

/-- The private key of command 7. -/
def init0Priv : ℕ :=
  0x111111111111111111111111111111111111111111111111111111111111111111111111111111111111111111111111

variable (peer pub : EccPoint)

/-- `answer_cmd_0x0_init1` from where the private key has been generated. -/
def init1Session : Option (SscKeys R × Packet) := do
  let response ← doResponsePrefix request response flagOk
  let response ← response.store (outputEcPub pub (4 + 96))
  let context ← fetch request.bytes 0 4
  let hmacKey ← fetch request.bytes 4 32
  let swPublic ← fetch request.bytes (4 + 32) 96
  let s := { s with randomHmacKey := hmacKey }
  let s ← generateKbkdfKeys N s (init1Priv + 1) peer hmacKey infostrAkeSessionseed context 0
  let hdr ← fetch response.bytes 0 4
  let public1 ← fetch response.bytes (4 + 96) 96
  let digest := N.sha384 (hdr ++ swPublic ++ public1 ++ hmacKey)
  let ((r, sig), rctx) := N.ecdsaSign s.eccKeyMain s.rctx digest
  let response ← response.store [⟨4, minBytes r⟩, ⟨4 + 48, minBytes sig⟩]
  some ({ s with rctx }, response)

def answerCmd0x0Init1 : Option (SscKeys R × Packet) := do
  if isKeyslotValid s 0 then respond s request response flagKeyslotInvalid else do
  let swPublic ← fetch request.bytes (4 + 32) 96
  match inputEcPub N swPublic with
  | none => respond s request response flagCurveInvalid
  | some peer =>
    let i ← keySlot 0
    let (eccKey, pub) := generateEcPriv N init1Priv
    let s := { s with eccKeys := update s.eccKeys i eccKey }
    match pub with
    | none => respond s request response flagCurveInvalid
    | some pub => init1Session N s request response peer pub

/-- `answer_cmd_0x1_connect_sp` from where the request has been accepted. -/
def connectSession (mackey extractorkey : List UInt8) (kbkdfIndex : ℕ) :
    Option (SscKeys R × Packet) := do
  let response ← doResponsePrefix request response flagOk
  let response ← response.store (outputEcPub pub (4 + 16))
  let context ← fetch request.bytes 0 4
  let swPublic ← fetch request.bytes (4 + 16) 96
  let s ← generateKbkdfKeys N s (connectPriv + 1) peer extractorkey infostrAkeSessionseed context
    kbkdfIndex
  let hdr ← fetch response.bytes 0 4
  let public2 ← fetch response.bytes (4 + 16) 96
  let response ← response.store [⟨4, N.cmacAes256 mackey (hdr ++ swPublic ++ public2)⟩]
  some (s, response)

def answerCmd0x1ConnectSp : Option (SscKeys R × Packet) := do
  let slot ← request.bytes[1]?
  let kbkdfIndex := slot.toNat
  if isKeyslotValid s kbkdfIndex then respond s request response flagKeyslotInvalid else do
  let swPublic ← fetch request.bytes (4 + 16) 96
  match inputEcPub N swPublic with
  | none => respond s request response flagCurveInvalid
  | some peer =>
    let i ← keySlot kbkdfIndex
    let (eccKey, pub) := generateEcPriv N connectPriv
    let s := { s with eccKeys := update s.eccKeys i eccKey }
    match pub with
    | none => respond s request response flagCurveInvalid
    | some pub =>
      let hdr ← fetch request.bytes 0 4
      let (mackey, extractorkey) ← aesKeysFromSpKey N s kbkdfIndex hdr
      let cmacShould ← fetch request.bytes 4 16
      if cmacShould ≠ N.cmacAes256 mackey (hdr ++ swPublic) then
        respond s request response flagCmacInvalid
      else connectSession N s request response peer pub mackey extractorkey kbkdfIndex

def answerCmd0x2DisconnectSp : Option (SscKeys R × Packet) := do
  let slot ← request.bytes[1]?
  if ¬ isKeyslotValid s slot.toNat then respond s request response flagKeyslotInvalid else do
  let i ← keySlot slot.toNat
  respond { s with
    eccKeys := update s.eccKeys i .zero
    kbkdfKeys := update s.kbkdfKeys i (replicate 0x48 0)
    kbkdfCounter := update s.kbkdfCounter i 0
    log := s.log ++ [.clear i] } request response flagOk

/-! ## Authenticated commands -/

/-- The part that commands 3 to 6 share: a request with a payload of `payloadLen` bytes is
decrypted, and if its tag is right, what `act` makes of the payload is encrypted as the response. -/
def authenticated (kbkdfIndex payloadLen : ℕ)
    (act : SscKeys R → List UInt8 → SscKeys R × List UInt8) : Option (SscKeys R × Packet) := do
  let hdr ← fetch request.bytes 0 4
  let data ← fetch request.bytes 4 (16 + payloadLen)
  let ((status, payload), s) ← aesCcmDecrypt N s kbkdfIndex hdr data
  if status = false then respond s request response flagCmacInvalid else do
  let response ← doResponsePrefix request response flagOk
  let (s, reply) := act s payload
  let hdr ← fetch response.bytes 0 4
  let (out, s) ← aesCcmEncrypt N s kbkdfIndex hdr reply
  let response ← response.store [⟨4, out⟩]
  some (s, response)

variable (blk : List UInt8)

/-- `blk_pread` to a buffer that holds `old`, which stays if the read fails. -/
def blkPread (off n : ℕ) (old : List UInt8) : List UInt8 :=
  (fetch blk off n).getD old

/-- `blk_pwrite`; nothing is written if it fails. -/
def blkPwrite (off : ℕ) (bytes : List UInt8) : List UInt8 :=
  (put blk ⟨off, bytes⟩).getD blk

variable (slot copy : ℕ)

def blkOffset : ℕ := slot * 0x40 * 4 + copy * 0x40

def keyOffset (slot : ℕ) : ℕ := 0x100 * 0x40 * 4 + slot * 0x20

section

variable (j : Slot) (copy : ℕ) (s : SscKeys R) (payload : List UInt8)

/-- What `answer_cmd_0x3_metadata_write` does with the payload. -/
def metadataWrite : SscKeys R × List UInt8 :=
  ({ s with
    slotHmacKey := update s.slotHmacKey j payload
    blk := blkPwrite (blkPwrite s.blk (blkOffset j copy) (replicate 0x40 0)) (keyOffset j)
      payload }, [])

/-- What `answer_cmd_0x4_metadata_data_read` does. -/
def metadataDataRead (_ : List UInt8) : SscKeys R × List UInt8 :=
  (s, blkPread s.blk (blkOffset slot copy) 0x40 (replicate 0x40 0))

/-- What `answer_cmd_0x5_metadata_data_write` does with the payload. -/
def metadataDataWrite : SscKeys R × List UInt8 :=
  ({ s with blk := blkPwrite s.blk (blkOffset slot copy) payload }, [])

/-- What `answer_cmd_0x6_metadata_read` does. -/
def metadataRead (_ : List UInt8) : SscKeys R × List UInt8 :=
  ({ s with
    slotHmacKey := update s.slotHmacKey j (blkPread s.blk (keyOffset j) 0x20 (s.slotHmacKey j)) },
    blkPread s.blk (blkOffset j copy) 0x20 (replicate 0x20 0))

end

/-- Commands 3 and 6, which name a data slot: `copies` is the number of copies, and `payloadLen` the
length of the payload of the request. -/
def answerMetadata (copies payloadLen : ℕ)
    (act : Slot → ℕ → SscKeys R → List UInt8 → SscKeys R × List UInt8) (s : SscKeys R)
    (request response : Packet) : Option (SscKeys R × Packet) := do
  let keySlotByte ← request.bytes[1]?
  let dataSlotByte ← request.bytes[2]?
  let copy ← request.bytes[3]?
  if copy.toNat ≥ copies then respond s request response flagFieldInvalid
  else if ¬ isKeyslotValid s keySlotByte.toNat then
    respond s request response flagKeyslotInvalid
  else if dataSlotByte.toNat = 0 ∨ dataSlotByte.toNat ≥ 0x49 then
    respond s request response flagKeyslotInvalid
  else do
    let j ← keySlot dataSlotByte.toNat
    authenticated N s request response keySlotByte.toNat payloadLen (act j copy.toNat)

/-- Commands 4 and 5, which work on the data of the slot of the session. -/
def answerMetadataData (payloadLen : ℕ)
    (act : ℕ → ℕ → SscKeys R → List UInt8 → SscKeys R × List UInt8) (s : SscKeys R)
    (request response : Packet) : Option (SscKeys R × Packet) := do
  let slot ← request.bytes[1]?
  let copy ← request.bytes[3]?
  if copy.toNat ≥ 4 then respond s request response flagFieldInvalid
  else if slot.toNat = 0 ∨ ¬ isKeyslotValid s slot.toNat then
    respond s request response flagKeyslotInvalid
  else authenticated N s request response slot.toNat payloadLen (act slot.toNat copy.toNat)

/-- `answer_cmd_0x3_metadata_write`; it accepts only copy 0. -/
def answerCmd0x3MetadataWrite : SscKeys R → Packet → Packet → Option (SscKeys R × Packet) :=
  answerMetadata N 1 0x20 metadataWrite

def answerCmd0x4MetadataDataRead : SscKeys R → Packet → Packet → Option (SscKeys R × Packet) :=
  answerMetadataData N 0 metadataDataRead

def answerCmd0x5MetadataDataWrite : SscKeys R → Packet → Packet → Option (SscKeys R × Packet) :=
  answerMetadataData N 0x40 metadataDataWrite

def answerCmd0x6MetadataRead : SscKeys R → Packet → Packet → Option (SscKeys R × Packet) :=
  answerMetadata N 4 0 metadataRead

/-! ## Other commands -/

def answerCmd0x7Init0 : Option (SscKeys R × Packet) := do
  let (eccKey, pub) := generateEcPriv N init0Priv
  let s := { s with eccKeyMain := eccKey }
  match pub with
  | none => respond s request response flagCurveInvalid
  | some pub =>
    let response ← doResponsePrefix request response flagOk
    let cpsn : List UInt8 := [0xDE, 0xAD, 0xBE, 0xEF, 0xCA, 0xFE, 0xCC]
    let s := { s with cpsn }
    let response ← response.store ([⟨4, [0x12, 0x34, 0x56, 0x78, 0x90, 0xAB]⟩, ⟨4 + 6, cpsn⟩,
      ⟨4 + 6 + 7, [0xCD, 0xEF, 0x01, 0x02, 0x03, 0x04, 0x05]⟩] ++
      outputEcPub pub (4 + 6 + 7 + 7))
    some (s, response)

def answerCmd0x8Sleep : Option (SscKeys R × Packet) := respond s request response flagOk

def answerCmd0x9Panic : Option (SscKeys R × Packet) := do
  let response ← doResponsePrefix request response flagOk
  let response ← response.store [⟨4, replicate 0x24 0xCC⟩, ⟨4 + 0x24, s.cpsn.take 7⟩]
  some (s, response)

def sscRequestSizes : List ℕ := [0x84, 0x74, 0x4, 0x34, 0x14, 0x54, 0x14, 0x4, 0x4, 0x4]

/-- The part of `apple_ssc_rx` that answers a request of which `reqCur` bytes were written. -/
def answer (request : Packet) (reqCur : ℕ) (response : Packet) : Option (SscKeys R × Packet) := do
  let cmd ← request.bytes[0]?
  if cmd > 0x09 then respond s request response flagFieldInvalid
  else if reqCur ≠ sscRequestSizes.getD cmd.toNat 0 then
    respond s request response flagSizeMismatch
  else match cmd.toNat with
    | 0 => answerCmd0x0Init1 N s request response
    | 1 => answerCmd0x1ConnectSp N s request response
    | 2 => answerCmd0x2DisconnectSp s request response
    | 3 => answerCmd0x3MetadataWrite N s request response
    | 4 => answerCmd0x4MetadataDataRead N s request response
    | 5 => answerCmd0x5MetadataDataWrite N s request response
    | 6 => answerCmd0x6MetadataRead N s request response
    | 7 => answerCmd0x7Init0 N s request response
    | 8 => answerCmd0x8Sleep s request response
    | _ => answerCmd0x9Panic s request response

/-! ## The bus -/

/-- A response without `SSC_RESPONSE_FLAG_OK` is filled behind its first four bytes. -/
def fillRejected (response : Packet) : Option Packet := do
  let flags ← response.bytes[3]?
  if flags ≠ flagOk then response.store [⟨4, replicate 0xFC 0xFF⟩] else some response

section

variable (s : AppleSSCState R) (data : UInt8)

/-- The request is answered, and the buffer for requests cleared. -/
def answerRequest : Option (AppleSSCState R) := do
  let (keys, response) ← answer N s.keys s.reqCmd s.reqCur s.respCmd
  let response ← fillRejected response
  some { s with reqCur := 0, reqCmd := .zero, respCmd := response, keys }

/-- What `apple_ssc_rx` does before it returns a byte. -/
def prepareResponse : Option (AppleSSCState R) :=
  if s.respCur = 0 then do
    let cmd ← s.reqCmd.bytes[0]?
    let respCmd ← Packet.zero.store [⟨0, [cmd]⟩]
    some { s with respCmd }
  else if s.respCur = 1 then answerRequest N s
  else some s

def appleSscRx : Option (UInt8 × AppleSSCState R) :=
  if s.respCur ≥ 0x100 then some (0, s) else do
    let s ← prepareResponse N s
    let ret ← s.respCmd.bytes[s.respCur]?
    some (ret, { s with respCur := s.respCur + 1 })

/-- The first byte of a request clears the response. -/
def startRequest : AppleSSCState R :=
  if s.reqCur = 0 then { s with respCur := 0, respCmd := .zero } else s

def appleSscTx : Option (AppleSSCState R) :=
  if s.reqCur ≥ 0x100 then some (startRequest s) else do
    let reqCmd ← s.reqCmd.store [⟨s.reqCur, [data]⟩]
    some { startRequest s with reqCmd, reqCur := s.reqCur + 1 }

end

/-- The fields of a device that has been switched on, as `apple_ssc_reset` sets them. -/
def powerOn (blk : List UInt8) : SscKeys R where
  eccKeyMain := .init
  eccKeys _ := .init
  rctx := N.knuthLfibInit 4711
  randomHmacKey := replicate 32 0
  slotHmacKey _ := replicate 32 0
  kbkdfKeys _ := replicate 0x48 0
  kbkdfCounter _ := 0
  cpsn := [0xDE, 0xAD, 0xBE, 0xEF, 0xCA, 0xFE, 0xFE]
  blk := blk
  log := []

/-- The fields after `apple_ssc_reset`. -/
def resetKeys : SscKeys R := { powerOn N s.blk with log := s.log ++ [.reset] }

def appleSscReset (s : AppleSSCState R) : AppleSSCState R where
  reqCur := 0
  respCur := 0
  reqCmd := .zero
  respCmd := .zero
  keys := resetKeys N s.keys

/-- What happens to the device on the bus. -/
inductive Op
  | tx (data : UInt8)
  | rx
  | reset

/-- An operation; reading returns a byte. -/
def step (s : AppleSSCState R) : Op → Option (Option UInt8 × AppleSSCState R)
  | .tx data => (appleSscTx s data).map fun s => (none, s)
  | .rx => (appleSscRx N s).map fun p => (some p.1, p.2)
  | .reset => some (none, appleSscReset N s)

end Commands

end Inferno.Ssc
