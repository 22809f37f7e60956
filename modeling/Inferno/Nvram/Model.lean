import Inferno.Common.Buffer
import Inferno.Common.CString

/-!
# The NVRAM

`hw/nvram/apple_nvram.c`: an image starts with a header of 32 bytes and holds partitions, each of
which has a header of 16 bytes and a length in units of 16. The partition `common` holds the
environment, a sequence of `name=value` strings. Loading parses the image into a list of partitions
and the environment into a list of variables; serialising writes both back.

A read or a write outside a buffer is `none` (`Failure.outside` where the function can fail of
itself). The function `adler32` is a parameter.
-/

namespace Inferno.Nvram

open Common

/-! ## Partitions -/

/-- The array `name` of a partition. -/
structure NameArray where
  bytes : List UInt8
  length_bytes : bytes.length = 16

/-- `NvramPartition`; its `len` is the number of bytes of its data. -/
structure NvramPartition where
  sig : UInt8
  data : List UInt8
  name : NameArray

structure NvramBank where
  parts : List NvramPartition
  len : ℕ

/-- The bytes of a text. -/
def ascii (text : List Char) : List UInt8 := text.map fun ch => UInt8.ofNat ch.toNat

/-- The name of the partition with the environment. -/
def common : List UInt8 := ascii ['c', 'o', 'm', 'm', 'o', 'n']

/-- `APPLE_NVRAM_PANIC_NAME_TRUNCATED`. -/
def panicName : List UInt8 := ascii ['A', 'P', 'L', ',', 'O', 'S', 'X', 'P', 'a', 'n', 'i']

def chrpNvpartFree : UInt8 := 0x7f

/-- One round of `chrp_checksum`. -/
def checksumRound (sum : ℕ) (b : UInt8) : ℕ :=
  let sum := sum + b.toNat
  (sum + ((sum &&& 0xff00) >>> 8)) &&& 0xff

variable (hdr : List UInt8)

/-- `chrp_checksum`: all bytes of the header but the one of the checksum. -/
def chrpChecksum : UInt8 :=
  UInt8.ofNat (((hdr.drop 2).take 14).foldl checksumRound (hdr.getD 0 0).toNat)

/-- `signature` of a `ChrpNvramPartHdr`. -/
def signature : UInt8 := hdr.getD 0 0

/-- `checksum` of a `ChrpNvramPartHdr`. -/
def checksum : UInt8 := hdr.getD 1 0

/-- `len` of a `ChrpNvramPartHdr`, as the host reads it. -/
def hdrLen : ℕ := ofLe ((hdr.drop 2).take 2)

/-- `name` of a `ChrpNvramPartHdr`. -/
def hdrName : List UInt8 := hdr.drop 4

/-! ## Parsing -/

/-- What `error_report` is called with. -/
inductive Report
  | nvramChecksum (expected got : UInt8)
  | adler (expected got : BitVec 32)
  | partitionChecksum
  | partitionLen
  deriving DecidableEq

/-- What the loop over the partitions does at a header. -/
inductive Walk
  | stop (report : Option Report)
  | skip (next : ℕ)
  | part (next : ℕ)
  deriving DecidableEq

/-- The tests of `nvram_parse_partitions` on a header. -/
def inspect (len offset : ℕ) (hdr : List UInt8) : Walk :=
  if checksum hdr ≠ chrpChecksum hdr then .stop (some .partitionChecksum)
  else if signature hdr = chrpNvpartFree then .stop none
  else if hdrLen hdr * 0x10 + offset > len ∨ hdrLen hdr < 1 then .stop (some .partitionLen)
  -- The comparison takes in the zero byte behind the name.
  else if hdrName hdr = panicName ++ [0] then .skip (offset + hdrLen hdr * 0x10)
  else .part (offset + hdrLen hdr * 0x10)

/-- `strncpy` to the array of a name. -/
def copyName (src : List UInt8) : Option NameArray :=
  Option.pmap NameArray.mk (strncpy 16 src) fun _ h => (of_strncpy h).1

variable (buf : List UInt8)

def readPartition (offset : ℕ) (hdr : List UInt8) : Option NvramPartition := do
  let name ← copyName (buf.drop (offset + 4))
  let data ← fetch buf (offset + 0x10) (hdrLen hdr * 0x10 - 0x10)
  some ⟨signature hdr, data, name⟩

/-- The partitions of an image with the offsets of their headers, and the report. -/
structure Parsed where
  parts : List (ℕ × NvramPartition)
  report : Option Report

/-- The loop of `nvram_parse_partitions`, for at most `fuel` rounds. -/
def parseFrom (buf : List UInt8) : ℕ → ℕ → Option Parsed
  | 0, _ => none
  | fuel + 1, offset =>
    if offset + 16 ≤ buf.length then do
      let hdr ← fetch buf offset 16
      match inspect buf.length offset hdr with
      | .stop report => some ⟨[], report⟩
      | .skip next => parseFrom buf fuel next
      | .part next => do
        let p ← readPartition buf offset hdr
        let rest ← parseFrom buf fuel next
        some { rest with parts := (offset, p) :: rest.parts }
    else some ⟨[], none⟩

/-- `nvram_parse_partitions`; every round advances, so the length bounds their number. -/
def nvramParsePartitions : Option Parsed :=
  parseFrom buf (buf.length + 1) 0x20

/-- `len - 0x14`, as it is passed to `adler32`. -/
def adlerLen (len : ℕ) : ℕ := (BitVec.ofNat 64 len - 0x14).toNat % 2^32

variable (adler32 : List UInt8 → BitVec 32)

def nvramParse (buf : List UInt8) : Option Parsed := do
  let hdr ← fetch buf 0 16
  if checksum hdr ≠ chrpChecksum hdr then
    some ⟨[], some (.nvramChecksum (checksum hdr) (chrpChecksum hdr))⟩
  else do
    let bytes ← fetch buf 0x14 (adlerLen buf.length)
    let stored ← fetch buf 0x10 4
    if adler32 bytes ≠ .ofNat 32 (ofLe stored) then
      some ⟨[], some (.adler (.ofNat 32 (ofLe stored)) (adler32 bytes))⟩
    else nvramParsePartitions buf

/-- The bank that `nvram_parse` returns. -/
def Parsed.bank (p : Parsed) (len : ℕ) : NvramBank := ⟨p.parts.map Prod.snd, len⟩

/-- The index of the partition that `nvram_find_part` returns. -/
def findPartIdx (key : List UInt8) : List NvramPartition → Option (Option ℕ)
  | [] => some none
  | p :: ps => do
    if ← strcmp p.name.bytes key then some (some 0)
    else
      let i ← findPartIdx key ps
      some (i.map (· + 1))

def nvramFindPart (bank : NvramBank) (key : List UInt8) : Option (Option NvramPartition) :=
  (findPartIdx key bank.parts).map fun i => i.bind fun i => bank.parts[i]?

/-! ## The environment -/

structure EnvVar where
  name : List UInt8
  str : List UInt8
  flags : BitVec 32
  deriving DecidableEq

variable (env : List EnvVar)

def envUnset (name : List UInt8) : List EnvVar :=
  env.eraseP fun v => v.name == name

/-- `env_set`; the name is cut to its array. -/
def envSet (name val : List UInt8) (flags : BitVec 32) : List EnvVar :=
  envUnset env name ++ [⟨name.take 63, val, flags⟩]

/-- The loops that look for a separator from an index: where they stop. -/
def scan (data : List UInt8) (sep : UInt8) : ℕ → ℕ → Option ℕ
  | 0, _ => none
  | fuel + 1, i =>
    if i < data.length then do
      let b ← data[i]?
      if b = sep then some i else scan data sep fuel (i + 1)
    else some i

variable (data : List UInt8)

/-- One round of `apple_nvram_load_env`: the variable at `cnt` and the next `cnt`, or the end. -/
def loadVar (cnt : ℕ) : Option (Option ((List UInt8 × List UInt8) × ℕ)) := do
  let first ← data[cnt]?
  if first = 0 then some none else do
    let nameEnd ← scan data (UInt8.ofNat '='.toNat) (data.length + 1) cnt
    if nameEnd ≥ data.length then some none else do
      let dataEnd ← scan data 0 (data.length + 1) (nameEnd + 1)
      if dataEnd ≥ data.length then some none else do
        let name ← fetch data cnt (nameEnd - cnt)
        let str ← fetch data (nameEnd + 1) (dataEnd - (nameEnd + 1))
        some (some ((cstr name, cstr str), dataEnd + 1))

/-- The loop of `apple_nvram_load_env`, for at most `fuel` rounds. -/
def loadEnvFrom (data : List UInt8) : ℕ → ℕ → List EnvVar → Option (List EnvVar)
  | 0, _, _ => none
  | fuel + 1, cnt, env =>
    if cnt < data.length then do
      match ← loadVar data cnt with
      | none => some env
      | some ((name, str), cnt) => loadEnvFrom data fuel cnt (envSet env name str 0)
    else some env

/-- `apple_nvram_load_env` on the data of the partition; every round advances. -/
def loadEnv (env : List EnvVar) : Option (List EnvVar) :=
  loadEnvFrom data (data.length + 1) 0 env

/-- The partition that is made where there is no `common`. -/
def newCommon : NvramPartition where
  sig := 0x70
  data := List.replicate 0x7f0 0
  name := ⟨common ++ List.replicate 10 0, by decide⟩

structure AppleNvramState where
  bank : NvramBank
  env : List EnvVar

/-- `apple_nvram_load_env`; without the partition it dereferences `NULL`. -/
def appleNvramLoadEnv (s : AppleNvramState) : Option AppleNvramState := do
  let part ← ← nvramFindPart s.bank common
  let env ← loadEnv part.data s.env
  some { s with env }

/-- `apple_nvram_load` from what can be read of a block device. -/
def appleNvramLoad (blk : List UInt8) : Option AppleNvramState := do
  let buffer := blk.take 0x2000
  let parsed ← nvramParse adler32 buffer
  let bank := parsed.bank buffer.length
  match ← nvramFindPart bank common with
  | some _ => appleNvramLoadEnv ⟨bank, []⟩
  | none => appleNvramLoadEnv ⟨{ bank with parts := newCommon :: bank.parts }, []⟩

/-! ## Serialising -/

/-- Why serialising has no result. -/
inductive Failure
  | outside
  | refused
  deriving DecidableEq

/-- An access that has to be inside. -/
def inside {α : Type} (x : Option α) : Except Failure α :=
  match x with
  | none => .error .outside
  | some a => .ok a

/-- The loop of `env_serialize` over a buffer of `len` bytes, with what has been written. -/
def serializeFrom (len : ℕ) : List UInt8 → List EnvVar → Option (List UInt8)
  | buf, [] => some buf
  | buf, v :: vs =>
    let text := v.name ++ UInt8.ofNat '='.toNat :: v.str
    -- `snprintf` leaves room for the zero byte.
    let buf := buf ++ (text.take (len - buf.length - 1) ++ [0])
    if buf.length ≥ len then none else serializeFrom len buf vs

/-- `env_serialize` to a buffer of `len` bytes. -/
def envSerialize (len : ℕ) : Option (List UInt8) :=
  if len = 0 then none else
    (serializeFrom len [] env).map fun buf => buf ++ List.replicate (len - buf.length) 0

/-- The 16 bytes of a header with its checksum. -/
def partHeader (sig : UInt8) (units : ℕ) (name : List UInt8) : List UInt8 :=
  sig :: chrpChecksum (sig :: 0 :: (leBytes 2 units ++ name)) :: (leBytes 2 units ++ name)

/-- `ROUND_UP(len + 0x10, 0x10) / 0x10`, as it is assigned to `len` of a header. -/
def unitsOf (len : ℕ) : ℕ := (len + 0x10 + 0xf) / 0x10 * 0x10 / 0x10 % 2^16

/-- The loop of `nvram_prepare_bank` over the partitions: the buffer and `offset`. -/
def prepareParts (buf : List UInt8) (offset : ℕ) :
    List NvramPartition → Except Failure (List UInt8 × ℕ)
  | [] => .ok (buf, offset)
  | p :: ps =>
    if p.data.length = 0 then prepareParts buf offset ps
    else if offset + 16 > buf.length then .error .refused
    else do
      let buf ← inside (put buf ⟨offset,
        partHeader p.sig (unitsOf p.data.length) (p.name.bytes.take 12)⟩)
      if offset + 16 + p.data.length > buf.length then .error .refused else do
        let buf ← inside (put buf ⟨offset + 16, p.data⟩)
        prepareParts buf (offset + unitsOf p.data.length * 0x10) ps

/-- The header of the free space behind the partitions, if there is room for it. -/
def prepareFree (offset : ℕ) : Except Failure (List UInt8) :=
  if offset + 16 ≤ buf.length then do
    -- The name is not assigned.
    let name ← inside (fetch buf (offset + 4) 12)
    inside (put buf ⟨offset, partHeader chrpNvpartFree ((buf.length - offset) / 0x10 % 2^16) name⟩)
  else .ok buf

/-- The header of an image before `adler` is assigned. -/
def appleHeader : List UInt8 :=
  partHeader 0x5a 2 (ascii ['n', 'v', 'r', 'a', 'm'] ++ List.replicate 7 0)

def nvramPrepareBank (bank : NvramBank) : Except Failure (List UInt8) := do
  let buf ← inside (putAll (List.replicate bank.len 0)
    [⟨0, appleHeader⟩, ⟨0x14, List.replicate 4 0⟩])
  let (buf, offset) ← prepareParts buf 0x20 bank.parts
  let buf ← prepareFree buf offset
  let bytes ← inside (fetch buf 0x14 (adlerLen bank.len))
  inside (put buf ⟨0x10, leBytes 4 (adler32 bytes).toNat⟩)

/-- The partition `common` with the environment in it; it stays as it is if that fails. -/
def storeEnv (p : NvramPartition) : NvramPartition :=
  match envSerialize env p.data.length with
  | some data => { p with data }
  | none => p

/-- The partitions with the environment in the partition `common`, which is made if need be. -/
def storeCommon (parts : List NvramPartition) : Option (List NvramPartition) := do
  match ← findPartIdx common parts with
  | some i => some (parts.modify i (storeEnv env))
  | none => some (storeEnv env newCommon :: parts)

/-- `apple_nvram_serialize` to a buffer of `size` bytes: what is written to it, and the state. -/
def appleNvramSerialize (adler32 : List UInt8 → BitVec 32) (s : AppleNvramState) (size : ℕ) :
    Except Failure (List UInt8 × AppleNvramState) := do
  let parts ← inside (storeCommon s.env s.bank.parts)
  let bank := { s.bank with parts }
  let buf ← nvramPrepareBank adler32 bank
  .ok (buf.take size, { s with bank })

end Inferno.Nvram
