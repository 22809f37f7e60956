import Inferno.Common.Bytes
import Mathlib.Data.BitVec

/-!
# The smart I/O DMA controller

The guest maps buffers to an endpoint with a message; each buffer is a list of segments of its
memory. A device that uses the endpoint transfers bytes with `apple_sio_dma_read` or
`apple_sio_dma_write`, which take them from the first buffer on: a buffer is mapped into the memory
of the emulator when it is reached, its progress is kept in `completed`, and when it is done its
timestamps are stored, a message is sent and it is removed.

`none` is an assertion or an allocation that fails. A host pointer that `dma_memory_map` returns is
represented by the bus address that it stands for, so that the bytes that a call moves are cells of
the guest's memory; they are returned with their addresses. The clock is an argument of what reads
it. The mutex of an endpoint and the reference count of the device are not there, and what
`dma_memory_unmap` marks is not observed.
-/

namespace Inferno.Sio

open Common Function
open BitVec (ofInt ofNat)

/-! ## Data -/

inductive DMADirection
  | toDevice
  | fromDevice
  deriving DecidableEq

structure SIODMAConfig where
  xfer : BitVec 32
  timeout : BitVec 32
  fifo : BitVec 32
  trigger : BitVec 32
  limit : BitVec 32
  field_14 : BitVec 32
  field_18 : BitVec 32
  deriving DecidableEq

structure SIODMASegment where
  addr : BitVec 64
  len : BitVec 32
  deriving DecidableEq

structure ScatterGatherEntry where
  base : BitVec 64
  len : BitVec 64
  deriving DecidableEq

/-- `struct iovec`. -/
structure IOVec where
  /-- The bus address of the memory that is mapped. -/
  iov_base : BitVec 64
  iov_len : BitVec 64
  deriving DecidableEq

structure SIODMABuffer where
  segments : List SIODMASegment
  sgl : List ScatterGatherEntry
  iov : List IOVec
  /-- The tag of the message that mapped the buffer. -/
  tag : BitVec 8
  mapped : Bool
  segment_count : BitVec 32
  completed : BitVec 64
  /-- When the buffer came. -/
  start_timestamp : BitVec 64
  deriving DecidableEq

variable (buf : SIODMABuffer)

/-- `sgl.size`, which `qemu_sglist_add` sums up. -/
def SIODMABuffer.sglSize : BitVec 64 := (buf.sgl.map (·.len)).sum

/-- `iov.size`, which `qemu_iovec_add` sums up. -/
def SIODMABuffer.iovSize : BitVec 64 := (buf.iov.map (·.iov_len)).sum

structure AppleSIODMAEndpoint where
  config : SIODMAConfig
  direction : DMADirection
  id : BitVec 8
  buffers : List SIODMABuffer
  deriving DecidableEq

def SIO_NUM_EPS : ℕ := 0xDC

structure SIOMessage where
  ep : BitVec 8
  tag : BitVec 8
  op : BitVec 8
  param : BitVec 8
  data : BitVec 32
  deriving DecidableEq

/-- The message in a word. -/
def SIOMessage.ofRaw (raw : BitVec 64) : SIOMessage where
  ep := raw.extractLsb' 0 8
  tag := raw.extractLsb' 8 8
  op := raw.extractLsb' 16 8
  param := raw.extractLsb' 24 8
  data := raw.extractLsb' 32 32

/-- `AppleSIOState`, with the memory and the messages that were sent. -/
structure AppleSIOState where
  eps : Fin SIO_NUM_EPS → AppleSIODMAEndpoint
  protocol_version : BitVec 32
  segment_size : BitVec 32
  segment_base : BitVec 64
  resp_base : BitVec 64
  mem : BitVec 64 → UInt8
  /-- What `apple_rtkit_send_user_msg` was called with on `EP_CONTROL`. -/
  sent : List SIOMessage

/-- What the memory answers while one message is handled, or while one buffer is mapped. -/
structure Config where
  /-- `dma_memory_read` of so many bytes at the address returns `MEMTX_OK`. -/
  readOk : BitVec 64 → ℕ → Bool
  /-- How many of the bytes at the address the `k`-th call of `dma_memory_map` maps, if any. -/
  dmaMemoryMap : ℕ → BitVec 64 → BitVec 64 → DMADirection → Option (BitVec 64)
  /-- It maps no more than it is asked for. -/
  dmaMemoryMap_le : ∀ k base len dir xlen, dmaMemoryMap k base len dir = some xlen → xlen ≤ len

namespace AppleSIOState

/-- The state with the buffers of an endpoint replaced. -/
def setBuffers (i : Fin SIO_NUM_EPS) (buffers : List SIODMABuffer) (s : AppleSIOState) :
    AppleSIOState :=
  { s with eps := update s.eps i { s.eps i with buffers := buffers } }

/-- `apple_rtkit_send_user_msg` on `EP_CONTROL`. -/
def sendUserMsg (m : SIOMessage) (s : AppleSIOState) : AppleSIOState :=
  { s with sent := s.sent ++ [m] }

variable (addr : BitVec 64)

/-- The bytes that `dma_memory_read` reads. -/
def dmaMemoryRead (n : ℕ) (s : AppleSIOState) : List UInt8 :=
  (List.range n).map fun k => s.mem (addr + ofNat 64 k)

/-- The state with bytes stored from an address on. -/
def store (bytes : List UInt8) (s : AppleSIOState) : AppleSIOState :=
  { s with mem := fun a => (bytes[(a - addr).toNat]?).getD (s.mem a) }

def stqLeDma (v : BitVec 64) (s : AppleSIOState) : AppleSIOState :=
  s.store addr (leBytes 8 v.toNat)

end AppleSIOState

open AppleSIOState

/-! ## Buffers -/

variable (ep : AppleSIODMAEndpoint)

/-- `apple_sio_dma_del_buffers`. -/
def delBuffers : AppleSIODMAEndpoint := { ep with buffers := [] }

def OP_COMPLETE : BitVec 8 := 104

/-- The message about a buffer that is done. -/
def completeMsg (id : BitVec 8) (buf : SIODMABuffer) : SIOMessage where
  ep := id
  tag := buf.tag
  op := OP_COMPLETE
  param := 0x80
  data := buf.completed.setWidth 32

/-- Where `apple_sio_dma_writeback` stores the timestamps, from the response region on. -/
def respOff (id tag : BitVec 8) : BitVec 64 :=
  ofInt 64 (((tag.toNat : ℤ) - 1 + id.toNat * 0x20) * 0x10)

variable (now : BitVec 64)

/-- `apple_sio_dma_writeback` of the first buffer, with what is behind it. -/
def writeback (i : Fin SIO_NUM_EPS) (buf : SIODMABuffer) (buffers : List SIODMABuffer)
    (s : AppleSIOState) : AppleSIOState :=
  let id := (s.eps i).id
  let addr := s.resp_base + respOff id buf.tag
  let s := (s.stqLeDma addr buf.start_timestamp).stqLeDma (addr + 8) now
  (s.setBuffers i buffers).sendUserMsg (completeMsg id buf)

/-- The loop of `apple_sio_dma_map_buf` over one segment; `none` when `dma_memory_map` fails. Each
round maps a byte at least, so that the length bounds their number; `k` calls were made before. -/
def mapSegment (cfg : Config) (dir : DMADirection) :
    ℕ → ℕ → BitVec 64 → BitVec 64 → Option (List IOVec)
  | fuel, k, base, len =>
    if len = 0 then some []
    else
      match fuel, cfg.dmaMemoryMap k base len dir with
      | fuel + 1, some xlen =>
        if xlen = 0 then none
        else (mapSegment cfg dir fuel (k + 1) (base + xlen) (len - xlen)).map (⟨base, xlen⟩ :: ·)
      | _, _ => none

/-- The loop of `apple_sio_dma_map_buf` over the segments, after `k` calls. Each call that succeeds
gives an element of the vector. -/
def mapSegments (cfg : Config) (dir : DMADirection) :
    ℕ → List ScatterGatherEntry → Option (List IOVec)
  | _, [] => some []
  | k, e :: es => do
    let iov ← mapSegment cfg dir e.len.toNat k e.base e.len
    let more ← mapSegments cfg dir (k + iov.length) es
    pure (iov ++ more)

/-- The number does not fit the `int` of an allocation hint, and the allocation fails. -/
def TooMany (segment_count : BitVec 32) : Prop := segment_count.toInt < 0

instance : DecidablePred TooMany := fun c => inferInstanceAs (Decidable (c.toInt < 0))

/-- `apple_sio_dma_map_buf`: the result and the buffer. -/
def mapBuf (cfg : Config) (dir : DMADirection) (buf : SIODMABuffer) :
    Option (Bool × SIODMABuffer) :=
  if buf.mapped then some (true, buf)
  else if TooMany buf.segment_count then none
  else
    match mapSegments cfg dir 0 (buf.sgl.take buf.segment_count.toNat) with
    | some iov => some (true, { buf with iov := iov, mapped := true })
    | none => some (false, { buf with iov := [] })

/-! ## Transfers -/

variable (addr : BitVec 64)

/-- The addresses of `n` bytes. -/
def cells (n : ℕ) : List (BitVec 64) :=
  (List.range n).map fun k => addr + ofNat 64 k

/-- The loop of `iov_to_buf_full` and `iov_from_buf_full`: the addresses of the bytes that are
copied, with `bytes` those that are still wanted. -/
def iovCells : List IOVec → ℕ → ℕ → List (BitVec 64)
  | [], _, _ => []
  | v :: iov, offset, bytes =>
    if offset = 0 ∧ bytes = 0 then []
    else if offset < v.iov_len.toNat then
      let len := min (v.iov_len.toNat - offset) bytes
      cells (v.iov_base + ofNat 64 offset) len ++ iovCells iov 0 (bytes - len)
    else iovCells iov (offset - v.iov_len.toNat) bytes

/-- Who asks for a transfer: a reader, or a writer with its bytes. -/
inductive Client
  | read
  | write (buffer : ℕ → UInt8)

/-- The direction that the endpoint has to have. -/
def Client.direction : Client → DMADirection
  | .read => .toDevice
  | .write _ => .fromDevice

variable (mem : BitVec 64 → UInt8)

/-- What the bytes are that go over the cells, `done` of them before. -/
def Client.bytes (done : ℕ) (addrs : List (BitVec 64)) : Client → List UInt8
  | .read => addrs.map mem
  | .write buffer => (List.range addrs.length).map fun k => buffer (done + k)

/-- The memory after bytes have gone to or come from their addresses. -/
def Client.copy (moved : List (BitVec 64 × UInt8)) : Client → BitVec 64 → UInt8
  | .read => mem
  | .write _ => moved.foldl (fun m c => update m c.1 c.2) mem

/-- A call under way. -/
structure Transfer where
  s : AppleSIOState
  actual_len : BitVec 64
  /-- The bytes transferred and their addresses. -/
  moved : List (BitVec 64 × UInt8)

/-- What a round transfers between the client and a mapped buffer. -/
def transferCells (actual_len len : BitVec 64) : List (BitVec 64) :=
  iovCells buf.iov buf.completed.toNat (len - actual_len).toNat

variable (client : Client)

section

variable (now : BitVec 64) (i : Fin SIO_NUM_EPS) (len : BitVec 64) (buf : SIODMABuffer)
  (buffers : List SIODMABuffer) (t : Transfer)

/-- The bytes of a round and their addresses. -/
def transferMoved : List (BitVec 64 × UInt8) :=
  let addrs := transferCells buf t.actual_len len
  addrs.zip (client.bytes t.s.mem t.actual_len.toNat addrs)

/-- A round with a mapped buffer that is the first. -/
def transferBuf : Transfer :=
  let moved := transferMoved client len buf t
  let iovec_len := ofNat 64 moved.length
  let buf := { buf with completed := buf.completed + iovec_len }
  let s := { t.s with mem := client.copy t.s.mem moved }
  { s := if buf.iovSize ≤ buf.completed then writeback now i buf buffers s
      else s.setBuffers i (buf :: buffers)
    actual_len := t.actual_len + iovec_len
    moved := t.moved ++ moved }

end

/-- The loop of `apple_sio_dma_read` and `apple_sio_dma_write`, with a bound of the rounds. The
memory may answer in another way in each round. -/
def transferLoop (cfg : ℕ → Config) (client : Client) (now : BitVec 64) (i : Fin SIO_NUM_EPS)
    (len : BitVec 64) : ℕ → Transfer → Option Transfer
  | fuel, t =>
    if t.actual_len < len then
      match fuel, (t.s.eps i).buffers with
      | _, [] => some t
      | fuel + 1, buf :: buffers =>
        match mapBuf (cfg fuel) (t.s.eps i).direction buf with
        | some (true, buf) =>
          transferLoop cfg client now i len fuel (transferBuf client now i len buf buffers t)
        | some (false, buf) => some { t with s := t.s.setBuffers i (buf :: buffers) }
        | none => none
      | 0, _ :: _ => none
    else some t

section

variable (cfg : ℕ → Config) (now : BitVec 64) (i : Fin SIO_NUM_EPS) (buffer : ℕ → UInt8)
  (len : BitVec 64) (s : AppleSIOState)

/-- `apple_sio_dma_read` and `apple_sio_dma_write`. In each round but the last a buffer is done, so
that the number of the buffers bounds the rounds. -/
def dmaTransfer (client : Client) (now : BitVec 64) (i : Fin SIO_NUM_EPS) (len : BitVec 64)
    (s : AppleSIOState) : Option Transfer :=
  if (s.eps i).direction ≠ client.direction then none
  else if len = 0 then some ⟨s, 0, []⟩
  else transferLoop cfg client now i len ((s.eps i).buffers.length + 1) ⟨s, 0, []⟩

/-- `apple_sio_dma_read`. -/
def dmaRead : Option Transfer :=
  dmaTransfer cfg .read now i len s

/-- `apple_sio_dma_write`. -/
def dmaWrite : Option Transfer :=
  dmaTransfer cfg (.write buffer) now i len s

end

/-- `apple_sio_dma_remaining`. -/
def dmaRemaining : BitVec 64 :=
  (ep.buffers.map fun buf => buf.sglSize - buf.completed).sum

/-! ## Messages -/

def OP_ACK : BitVec 8 := 101

def OP_SYNC_ERROR : BitVec 8 := 2

variable (m : SIOMessage)

/-- A reply with an operation. -/
def replyTo (op : BitVec 8) (data : BitVec 32) : SIOMessage where
  ep := m.ep
  tag := m.tag
  op := op
  param := 0
  data := data

def controlSetParam (param : BitVec 8) (value : BitVec 32) (s : AppleSIOState) : AppleSIOState :=
  if param = 1 then { s with segment_base := (value <<< 12).setWidth 64 }
  else if param = 2 then { s with segment_size := value }
  else if param = 11 then { s with resp_base := (value <<< 12).setWidth 64 }
  else s

/-- `apple_sio_control`, with `apple_sio_control_get_param`. -/
def control (s : AppleSIOState) : AppleSIOState :=
  if m.op = 2 then
    if m.param = 0 then s.sendUserMsg (replyTo m 103 s.protocol_version)
    else s.sendUserMsg (replyTo m OP_SYNC_ERROR 0)
  else if m.op = 3 then (controlSetParam m.param m.data s).sendUserMsg (replyTo m OP_ACK 0)
  else s.sendUserMsg (replyTo m 0 0)

variable (s : AppleSIOState)

/-- A word of the memory. -/
def ldlLe : BitVec 32 :=
  ofNat 32 (ofLe (s.dmaMemoryRead addr 4))

def loadConfig : SIODMAConfig where
  xfer := ldlLe addr s
  timeout := ldlLe (addr + 4) s
  fifo := ldlLe (addr + 8) s
  trigger := ldlLe (addr + 12) s
  limit := ldlLe (addr + 16) s
  field_14 := ldlLe (addr + 20) s
  field_18 := ldlLe (addr + 24) s

def loadSegment : SIODMASegment where
  addr := ofNat 64 (ofLe (s.dmaMemoryRead addr 8))
  len := ldlLe (addr + 8) s

section

variable (tag : BitVec 8) (segments : List SIODMASegment)

def sglOf : List ScatterGatherEntry :=
  segments.map fun g => ⟨g.addr, g.len.setWidth 64⟩

/-- The buffer that `OP_MAP` builds. -/
def newBuffer (segment_count : BitVec 32) : SIODMABuffer where
  segments := segments
  sgl := sglOf segments
  iov := []
  tag := tag
  mapped := false
  segment_count := segment_count
  completed := 0
  start_timestamp := now

end

section

variable (cfg : Config) (now : BitVec 64) (i : Fin SIO_NUM_EPS) (m : SIOMessage) (s : AppleSIOState)

/-- Where a message points to in the segment region. -/
def segmentAddr : BitVec 64 :=
  s.segment_base + (m.data * 0xC).setWidth 64

def opConfigure : AppleSIOState :=
  let addr := segmentAddr m s
  let s' := { s with
    eps := update s.eps i { s.eps i with config := loadConfig addr s } }
  s'.sendUserMsg (replyTo m (if cfg.readOk addr 28 then OP_ACK else OP_SYNC_ERROR) 0)

def opMap : Option AppleSIOState :=
  let addr := segmentAddr m s
  if m.param ≠ 0 then none
  else if cfg.readOk (addr + 0x3C) 4 = false then
    some (s.sendUserMsg (replyTo m OP_SYNC_ERROR 0))
  else
    let segment_count := ldlLe (addr + 0x3C) s
    if cfg.readOk (addr + 0x48) (segment_count.toNat * 12) = false then
      some (s.sendUserMsg (replyTo m OP_SYNC_ERROR 0))
    else if TooMany segment_count then none
    else
      let segments := (List.range segment_count.toNat).map fun k =>
        loadSegment (addr + 0x48 + ofNat 64 (k * 12)) s
      let buf := newBuffer now m.tag segments segment_count
      some ((s.setBuffers i ((s.eps i).buffers ++ [buf])).sendUserMsg (replyTo m OP_ACK 0))

end

variable (i : Fin SIO_NUM_EPS)

section

variable (cfg : Config) (now : BitVec 64) (i : Fin SIO_NUM_EPS) (m : SIOMessage) (s : AppleSIOState)

def opQuery : AppleSIOState :=
  if (s.eps i).buffers = [] then s.sendUserMsg (replyTo m OP_SYNC_ERROR 0)
  else s.sendUserMsg (replyTo m 105 ((dmaRemaining (s.eps i)).setWidth 32))

/-- `OP_STOP`, with `apple_sio_dma_stop`. -/
def opStop : AppleSIOState :=
  let s := (s.sendUserMsg (replyTo m OP_ACK 0)).setBuffers i []
  s.sendUserMsg ⟨(s.eps i).id, 0, OP_COMPLETE, 0, 0⟩

/-- `apple_sio_dma`. -/
def dma : Option AppleSIOState :=
  if m.op = 1 then some (s.sendUserMsg (replyTo m OP_ACK 0))
  else if m.op = 5 then some (opConfigure cfg i m s)
  else if m.op = 6 then opMap cfg now i m s
  else if m.op = 7 then some (opQuery i m s)
  else if m.op = 8 then some (opStop i m s)
  else some (s.sendUserMsg (replyTo m OP_SYNC_ERROR 0))

/-- `apple_sio_handle_endpoint`. -/
def handleEndpoint (now raw : BitVec 64) (s : AppleSIOState) : Option AppleSIOState :=
  let m := SIOMessage.ofRaw raw
  if m.ep = 0 ∨ m.ep = 3 then some (control m s)
  else if h : m.ep.toNat < SIO_NUM_EPS then dma cfg now ⟨m.ep.toNat, h⟩ m s
  else some s

end

/-! ## The controller -/

/-- A configuration of zeros. -/
def SIODMAConfig.zero : SIODMAConfig := ⟨0, 0, 0, 0, 0, 0, 0⟩

/-- An endpoint after `apple_sio_realize`. -/
def freshEndpoint : AppleSIODMAEndpoint where
  config := .zero
  direction := if i.val % 2 = 1 then .fromDevice else .toDevice
  id := ofNat 8 i.val
  buffers := []

/-- The controller after `apple_sio_from_node` and `apple_sio_realize`. -/
def init (protocol_version : BitVec 32) (mem : BitVec 64 → UInt8) : AppleSIOState where
  eps := freshEndpoint
  protocol_version := protocol_version
  segment_size := 0
  segment_base := 0
  resp_base := 0
  mem := mem
  sent := []

/-- `apple_sio_reset_hold`. -/
def resetHold : AppleSIOState :=
  { s with
    segment_base := 0, segment_size := 0
    eps := fun i => { delBuffers (s.eps i) with config := .zero } }

/-- What can happen to the controller, with what the memory answers then. -/
inductive Op
  | message (cfg : Config) (now raw : BitVec 64)
  | transfer (cfg : ℕ → Config) (client : Client) (now : BitVec 64) (i : Fin SIO_NUM_EPS)
    (len : BitVec 64)
  | store (addr : BitVec 64) (bytes : List UInt8)
  | reset

/-- One step of the controller; `none` when the emulator aborts. -/
def step (s : AppleSIOState) : Op → Option AppleSIOState
  | .message cfg now raw => handleEndpoint cfg now raw s
  | .transfer cfg client now i len => (dmaTransfer cfg client now i len s).map (·.s)
  | .store addr bytes => some (s.store addr bytes)
  | .reset => some (resetHold s)

/-- A memory that can be read and mapped everywhere. -/
def sampleConfig : Config where
  readOk := fun _ _ => true
  dmaMemoryMap := fun _ _ len _ => some len
  dmaMemoryMap_le := by
    intro k base len dir xlen h
    rw [← Option.some.inj h]
    exact BitVec.le_refl len

end Inferno.Sio
