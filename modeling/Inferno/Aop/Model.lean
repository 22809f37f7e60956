import Inferno.Common.Buffer
import Inferno.Common.Bits
import Inferno.Smc.Model

/-!
# The endpoints of the always-on processor

`hw/misc/apple-silicon/aop.c`: an endpoint puts replies and reports into a ring buffer in the memory
of the guest. The ring starts with a header of three aligned blocks (size, read pointer, write
pointer), and the packets follow it. All of it can be changed by the guest, so the write pointer
that is read may be anything.

The stores of a function are given as the list of what `TXOK_GUARD` performs one after the other,
until one fails (`perform`). The address space and the clock are a parameter (`Host`).
-/

namespace Inferno.Aop

open Common List

/-! ## The address space -/

inductive MemTxResult
  | ok
  | error
  | decodeError
  | accessError
  deriving DecidableEq

/-- What the endpoint finds around it. -/
structure Host where
  /-- The result of a read of so many bytes at an address. -/
  read : ℕ → ℕ → MemTxResult
  /-- The result of a write of so many bytes at an address. -/
  write : ℕ → ℕ → MemTxResult
  /-- `qemu_clock_get_ns`, at each time it is called. -/
  clock : ℕ → BitVec 64

variable (host : Host) (mem : ℕ → UInt8)

def dmaMemoryRead (addr n : ℕ) : Except MemTxResult (List UInt8) :=
  match host.read addr n with
  | .ok => .ok (load mem addr n)
  | res => .error res

/-- The little-endian word of `n` bytes at an address (`lduw_le_dma`, `ldl_le_dma`). -/
def ldLeDma (n : ℕ) (addr : BitVec 32) : Except MemTxResult ℕ :=
  (dmaMemoryRead host mem addr.toNat n).map ofLe

variable (addr : BitVec 32)

/-- The store of a little-endian word of `n` bytes (`stw_le_dma`, `stl_le_dma`, `stq_le_dma`). -/
def stLeDma (n : ℕ) (addr : BitVec 32) (v : ℕ) : Store := ⟨addr.toNat, leBytes n v⟩

def stlBeDma (v : ℕ) : Store := ⟨addr.toNat, (leBytes 4 v).reverse⟩

def dmaMemorySet (c : UInt8) (n : ℕ) : Store :=
  ⟨addr.toNat, replicate n c⟩

def Host.result (w : Store) : MemTxResult := host.write w.off w.bytes.length

/-- Stores performed one after the other until one fails, each under `TXOK_GUARD`. -/
def perform (host : Host) : (ℕ → UInt8) → List Store → MemTxResult × (ℕ → UInt8)
  | mem, [] => (.ok, mem)
  | mem, w :: ws =>
    match host.result w with
    | .ok => perform host (w.apply mem) ws
    | res => (res, mem)

/-- The stores that `perform` tries, the one that fails included. -/
def tried (host : Host) : List Store → List Store
  | [] => []
  | w :: ws => w :: if host.result w = .ok then tried host ws else []

/-! ## Endpoints -/

/-- An endpoint as `apple_aop_ep_create` makes it, with what it finds around it. -/
structure EndpointConfig where
  host : Host
  /-- `align` of the processor. -/
  align : BitVec 32
  /-- `tx_len` of its description. -/
  txLen : BitVec 32
  align_ne : align ≠ 0
  txLen_mod : txLen % align = 0

inductive AppleAOPEndpointState
  | poweredOff
  | awaitingHello
  | awaitingRxAck
  | awaitingTxAck
  | idle
  deriving DecidableEq

/-- `AppleAOPEndpoint`, with the memory of the guest. -/
structure AppleAOPEndpoint where
  txOff : BitVec 32
  seq : BitVec 16
  state : AppleAOPEndpointState
  mem : ℕ → UInt8
  /-- The messages sent to the application processor. -/
  sent : List (BitVec 64)
  /-- How often the clock has been read. -/
  ticks : ℕ

variable (s : AppleAOPEndpoint)

/-- `apple_rtkit_send_user_msg` for the endpoint. -/
def sendUserMsg (msg : BitVec 64) : AppleAOPEndpoint :=
  { s with sent := s.sent ++ [msg] }

/-- `MSG_TX_SIGNAL`. -/
def msgTxSignal : BitVec 64 := 0x85 <<< 48

/-! ## Ring buffers -/

def roundUp (n d : BitVec 32) : BitVec 32 := roundDown (n + d - 1) d

def rbEntryLen : BitVec 32 := 16

def packetLen : BitVec 32 := 16

def subPacketLen : BitVec 32 := 24

def rbV7IopMagic : ℕ := Smc.fourCC 'I' 'O' 'P' ' '

section Ring

variable (c : EndpointConfig)

/-- The store of `apple_aop_ep_set_rptr`. -/
def setRptr (addr val : BitVec 32) : Store := stLeDma 4 (addr + c.align) val.toNat

/-- The store of `apple_aop_ep_set_wptr`. -/
def setWptr (addr val : BitVec 32) : Store := stLeDma 4 (addr + c.align * 2) val.toNat

/-- `apple_aop_ep_get_wptr`. -/
def getWptr (mem : ℕ → UInt8) (addr : BitVec 32) : Except MemTxResult (BitVec 32) :=
  (ldLeDma c.host mem 4 (addr + c.align * 2)).map (BitVec.ofNat 32)

/-- `data_off`: the offset of the packets in a ring. -/
def dataOff : BitVec 32 := c.align * 3

end Ring

/-- The stores of `apple_aop_ep_write_rb_entry`. -/
def writeRbEntry (addr length : BitVec 32) : List Store :=
  [stlBeDma addr rbV7IopMagic, stLeDma 4 (addr + 4) length.toNat, dmaMemorySet (addr + 8) 0 8]

/-- The stores of `apple_aop_ep_write_packet`. -/
def writePacket (seq : BitVec 16) (timestamp : BitVec 64) : List Store :=
  [dmaMemorySet addr 2 1, stLeDma 2 (addr + 1) seq.toNat, dmaMemorySet (addr + 3) 0 5,
    stLeDma 8 (addr + 8) timestamp.toNat]

/-- The stores of `apple_aop_ep_write_sub_packet`. -/
def writeSubPacket (addr payloadLen : BitVec 32) (category : BitVec 8) (type seq : BitVec 16)
    (timestamp : BitVec 64) (outLen : BitVec 32) : List Store :=
  [stLeDma 4 addr payloadLen.toNat, dmaMemorySet (addr + 4) 2 1,
    -- `SUB_PACKET_FLAG_CAT`, as a byte.
    dmaMemorySet (addr + 5) (UInt8.ofBitVec (category <<< 4)) 1,
    stLeDma 2 (addr + 6) type.toNat, stLeDma 2 (addr + 8) seq.toNat,
    stLeDma 8 (addr + 10) timestamp.toNat, dmaMemorySet (addr + 18) 0 2,
    stLeDma 4 (addr + 20) outLen.toNat]

/-! ## Sending -/

/-- A payload, whose length is a `uint32_t`. -/
structure Payload where
  bytes : List UInt8
  /-- Their number fits. -/
  length_lt : bytes.length < 2^32

def Payload.len (p : Payload) : BitVec 32 := .ofNat 32 p.bytes.length

/-- The categories of sub-packets. -/
def subPacketFlagCatReport : BitVec 8 := 0

@[inherit_doc subPacketFlagCatReport]
def subPacketFlagCatResponse : BitVec 8 := 2

variable (c : EndpointConfig)

/-- `total_size`: the room that a packet with a payload of `len` bytes takes. -/
def totalSize (len : BitVec 32) : BitVec 32 :=
  roundUp (rbEntryLen + packetLen + subPacketLen + len) c.align

/-- Where a packet goes, from the write pointer of the ring: `wptr` and `end_wptr`. -/
def placePacket (wptr len : BitVec 32) : BitVec 32 × BitVec 32 :=
  let endWptr := wptr + totalSize c len
  if dataOff c + endWptr > c.txLen then (0, totalSize c len) else (wptr, endWptr)

/-- What a packet says apart from its payload. -/
structure Heading where
  type : BitVec 16
  category : BitVec 8
  /-- `seq` of the sub-packet. -/
  seq : BitVec 16
  outLen : BitVec 32

section

variable (c : EndpointConfig) (s : AppleAOPEndpoint) (hdr : Heading) (payload : Payload)
  (timestamp : BitVec 64) (wptr : BitVec 32)

/-- The stores of `apple_aop_ep_send_packet_full` for a packet at `wptr`: three headers and the
payload. -/
def packetBytes : List Store :=
  let addr := s.txOff + dataOff c + wptr
  writeRbEntry addr (packetLen + subPacketLen + payload.len) ++
    (writePacket (addr + rbEntryLen) s.seq timestamp ++
      (writeSubPacket (addr + rbEntryLen + packetLen) payload.len hdr.category hdr.type hdr.seq
          timestamp hdr.outLen ++
        [⟨(addr + rbEntryLen + packetLen + subPacketLen).toNat, payload.bytes⟩]))

/-- All stores of `apple_aop_ep_send_packet_full`: the packet, and then the write pointer. -/
def packetStores (wptr endWptr : BitVec 32) : List Store :=
  packetBytes c s hdr payload timestamp wptr ++ [setWptr c s.txOff endWptr]

/-- The end of `apple_aop_ep_send_packet_full`: the signal and the next sequence number. -/
def signalPacket : AppleAOPEndpoint :=
  let s := sendUserMsg s msgTxSignal
  { s with seq := if s.seq < 0xFFFF then s.seq + 1 else 0 }

/-- `apple_aop_ep_send_packet_full`. -/
def sendPacketFull : MemTxResult × AppleAOPEndpoint :=
  if s.state ≠ .idle then (.error, s) else
    let timestamp := c.host.clock s.ticks
    let s := { s with ticks := s.ticks + 1 }
    match getWptr c s.mem s.txOff with
    | .error res => (res, s)
    | .ok wptr =>
      let place := placePacket c wptr payload.len
      match perform c.host s.mem (packetStores c s hdr payload timestamp place.1 place.2) with
      | (.ok, mem) => (.ok, signalPacket { s with mem })
      | (res, mem) => (res, { s with mem })

end

end Inferno.Aop
