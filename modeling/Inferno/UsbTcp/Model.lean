import Inferno.Common.Run
import Inferno.Common.Wire

/-!
# USB over TCP

The two ends of the connection of `hw/usb/dev-tcp-remote.c` and `hw/usb/hcd-tcp.c`. The *remote* is
a USB device of the emulated machine: what the guest asks of it goes out as requests, cancellations
and resets (`usbTcpRemoteHandlePacket`, `usbTcpRemoteCancelPacket`, `usbTcpRemoteHandleReset`). The
*host* has the real device behind it: it reads these (`usbTcpHostMsgLoop`), and sends the results
back (`usbTcpHostRespondPacket`), which a thread of the remote reads (`usbTcpRemoteReadThread`).

A message is a byte for its type, a packed header and, sometimes, a payload. Whether there is a
payload is nowhere in the message: each end decides it from the token, the status and the length.

A writer holds a mutex over a message, so the stream of a direction is one message after another.
The channel delivers what was written. Both ends are taken to be little-endian. What the host's
devices do with a packet, the states of the packets of the remote and the addresses that other code
sets are arguments of the runs.
-/

namespace Inferno.UsbTcp

open Common

/-! ## Wire format -/

def tcpUsbRequest : UInt8 := 1

def tcpUsbResponse : UInt8 := 2

def tcpUsbReset : UInt8 := 3

def tcpUsbCancel : UInt8 := 4

def usbTokenSetup : UInt32 := 0x2D

def usbTokenIn : UInt32 := 0x69

def usbTokenOut : UInt32 := 0xE1

def usbRetSuccess : UInt32 := 0

/-- `USB_RET_NAK`, which is -2. -/
def usbRetNak : UInt32 := 0xFFFFFFFE

/-- `USB_RET_IOERROR`, which is -5. -/
def usbRetIoerror : UInt32 := 0xFFFFFFFB

/-- `USB_RET_ASYNC`, which is -6. -/
def usbRetAsync : UInt32 := 0xFFFFFFFA

/-- `tcp_usb_request_header`. -/
structure RequestHeader where
  addr : UInt8
  pid : UInt32
  ep : UInt8
  id : UInt64
  stream : UInt32
  /-- A short packet is an error. -/
  shortNotOk : UInt8
  intReq : UInt8
  length : UInt16
  deriving DecidableEq

/-- `tcp_usb_response_header`. -/
structure ResponseHeader where
  addr : UInt8
  pid : UInt32
  ep : UInt8
  id : UInt64
  status : UInt32
  length : UInt16
  deriving DecidableEq

/-- `tcp_usb_cancel_header`. -/
structure CancelHeader where
  addr : UInt8
  pid : UInt32
  ep : UInt8
  id : UInt64
  deriving DecidableEq

/-- The fields of a request header, with their widths. -/
def RequestHeader.fields (h : RequestHeader) : List (ℕ × ℕ) :=
  [(1, h.addr.toNat), (4, h.pid.toNat), (1, h.ep.toNat), (8, h.id.toNat), (4, h.stream.toNat),
    (1, h.shortNotOk.toNat), (1, h.intReq.toNat), (2, h.length.toNat)]

def RequestHeader.bytes (h : RequestHeader) : List UInt8 := pack h.fields

variable (bs : List UInt8)

/-- The request header in some bytes. -/
def RequestHeader.ofBytes : Option RequestHeader :=
  match unpack [1, 4, 1, 8, 4, 1, 1, 2] bs with
  | [addr, pid, ep, id, stream, shortNotOk, intReq, length] =>
    some ⟨.ofNat addr, .ofNat pid, .ofNat ep, .ofNat id, .ofNat stream, .ofNat shortNotOk,
      .ofNat intReq, .ofNat length⟩
  | _ => none

variable (h : ResponseHeader)

/-- The fields of a response header, with their widths. -/
def ResponseHeader.fields : List (ℕ × ℕ) :=
  [(1, h.addr.toNat), (4, h.pid.toNat), (1, h.ep.toNat), (8, h.id.toNat), (4, h.status.toNat),
    (2, h.length.toNat)]

def ResponseHeader.bytes : List UInt8 := pack h.fields

/-- The response header in some bytes. -/
def ResponseHeader.ofBytes : Option ResponseHeader :=
  match unpack [1, 4, 1, 8, 4, 2] bs with
  | [addr, pid, ep, id, status, length] =>
    some ⟨.ofNat addr, .ofNat pid, .ofNat ep, .ofNat id, .ofNat status, .ofNat length⟩
  | _ => none

/-- The fields of a cancellation header, with their widths. -/
def CancelHeader.fields (h : CancelHeader) : List (ℕ × ℕ) :=
  [(1, h.addr.toNat), (4, h.pid.toNat), (1, h.ep.toNat), (8, h.id.toNat)]

def CancelHeader.bytes (h : CancelHeader) : List UInt8 := pack h.fields

/-- The cancellation header in some bytes. -/
def CancelHeader.ofBytes : Option CancelHeader :=
  match unpack [1, 4, 1, 8] bs with
  | [addr, pid, ep, id] => some ⟨.ofNat addr, .ofNat pid, .ofNat ep, .ofNat id⟩
  | _ => none

/-! ## Packets -/

/-- The token of a packet. -/
inductive Pid where
  | setup | inp | out
  deriving DecidableEq

/-- The number of a token. -/
def Pid.code : Pid → UInt32
  | .setup => usbTokenSetup
  | .inp => usbTokenIn
  | .out => usbTokenOut

/-- The assertions of `usb_ep_get` on a token and the number of an endpoint. -/
def usbEpGet (pid : UInt32) (ep : UInt8) : Bool :=
  ep = 0 || ((pid = usbTokenIn || pid = usbTokenOut) && ep ≤ 15)

inductive USBPacketState where
  | undefined | setup | queued | async | complete | canceled
  deriving DecidableEq

/-! ## Requests -/

/-- A `USBPacket` that the guest has given to the remote. -/
structure USBPacket where
  pid : Pid
  ep : UInt8
  id : UInt64
  stream : UInt32
  shortNotOk : Bool
  intReq : Bool
  /-- The bytes that the vector of the packet has. -/
  iov : List UInt8
  actualLength : ℕ
  /-- The packet is part of a combined one. -/
  combined : Bool
  endpoint : usbEpGet pid.code ep = true
  actual_le : actualLength ≤ iov.length

/-- What remains of a packet fits the length of a request. -/
def USBPacket.Short (p : USBPacket) : Prop := p.iov.length - p.actualLength < 65536

/-- `USBTCPRemoteState`, as far as the requests depend on it. -/
structure USBTCPRemoteState where
  /-- The address that the guest has given to the device. -/
  addr : UInt8
  closed : Bool

section

variable (s : USBTCPRemoteState) (p : USBPacket) (memory : List UInt8)

/-- `usb_packet_copy` of a packet that goes out: the next `n` bytes. -/
def usbPacketCopyOut (n : ℕ) : List UInt8 := (p.iov.drop p.actualLength).take n

def requestHeader : RequestHeader where
  addr := s.addr
  pid := p.pid.code
  ep := p.ep
  id := p.id
  stream := p.stream
  shortNotOk := if p.shortNotOk then 1 else 0
  intReq := if p.intReq then 1 else 0
  length := .ofNat (p.iov.length - p.actualLength)

def requestBuffer : Option (List UInt8) :=
  let length := (requestHeader s p).length
  if p.pid.code ≠ usbTokenIn ∧ length ≠ 0 then some (usbPacketCopyOut p length.toNat) else none

/-- The remote takes note of the address in a request that sets it. The request is read from the
memory at the buffer, which goes on behind a buffer that is too short for it. -/
def noteAddress : USBTCPRemoteState :=
  if p.pid.code = usbTokenSetup ∧ p.ep = 0 ∧ memory.getD 0 0 = 0 ∧ memory.getD 1 0 = 5 then
    { s with addr := memory.getD 2 0 }
  else s

/-- `usb_tcp_remote_handle_packet`, up to where it waits for the response: the state after it and
the bytes that it writes. The bytes `behind` follow the buffer in memory. -/
def usbTcpRemoteHandlePacket (behind : List UInt8) : USBTCPRemoteState × List UInt8 :=
  if s.closed then (s, [])
  else
    let hdr := [tcpUsbRequest] ++ (requestHeader s p).bytes
    match requestBuffer s p with
    | some buffer => (noteAddress s p (buffer ++ behind), hdr ++ buffer)
    | none => (s, hdr)

/-- `usb_tcp_remote_cancel_packet`: the bytes that it writes. -/
def usbTcpRemoteCancelPacket : List UInt8 :=
  if p.combined then []
  else if s.closed then []
  else [tcpUsbCancel] ++ (CancelHeader.mk s.addr p.pid.code p.ep p.id).bytes

end

variable (s : USBTCPRemoteState)

/-- `usb_tcp_remote_handle_reset`: the state after it and the bytes that it writes. -/
def usbTcpRemoteHandleReset : USBTCPRemoteState × List UInt8 :=
  if s.closed then (s, [])
  else ({ s with addr := 0 }, [tcpUsbReset])

/-- What happens at the remote. -/
inductive RemoteOp where
  | packet (p : USBPacket) (short : p.Short) (behind : List UInt8)
  | cancel (p : USBPacket)
  | reset
  /-- The thread that reads the responses puts the address back. -/
  | setAddr (addr : UInt8)
  | close

/-- An operation of the remote: the state after it and the bytes that it writes. -/
def RemoteOp.exec (s : USBTCPRemoteState) : RemoteOp → USBTCPRemoteState × List UInt8
  | .packet p _ behind => usbTcpRemoteHandlePacket s p behind
  | .cancel p => (s, usbTcpRemoteCancelPacket s p)
  | .reset => usbTcpRemoteHandleReset s
  | .setAddr addr => ({ s with addr := addr }, [])
  | .close => ({ s with closed := true }, [])

/-- The state after an operation of the remote. -/
def remoteStep (op : RemoteOp) : USBTCPRemoteState := (op.exec s).1

/-- The stream of a run of the remote. -/
def remoteStream (ops : List RemoteOp) : List UInt8 :=
  (trace remoteStep (fun s op => (op.exec s).2) s ops).flatten

/-! ## The host reads -/

/-- A message of the remote. -/
inductive Message where
  | request (hdr : RequestHeader) (payload : List UInt8)
  | cancel (hdr : CancelHeader)
  | reset
  deriving DecidableEq

/-- What stops the host. -/
inductive HostStop where
  /-- The stream ends behind a message. -/
  | eof
  /-- The stream ends in the middle of a message. -/
  | cutShort
  /-- A response, which is for the remote alone. -/
  | unexpected
  | assertion
  deriving DecidableEq

/-- The payload that the host reads behind a request header. -/
def readRequestPayload (hdr : RequestHeader) (bs : List UInt8) :
    Except HostStop (Message × List UInt8) :=
  if hdr.length > 0 ∧ hdr.pid ≠ usbTokenIn then
    match takeExactly hdr.length.toNat bs with
    | none => .error .cutShort
    | some (payload, bs) => .ok (.request hdr payload, bs)
  else .ok (.request hdr [], bs)

/-- The request that the host reads behind its type. -/
def readRequest : Except HostStop (Message × List UInt8) :=
  match takeExactly 22 bs with
  | none => .error .cutShort
  | some (front, bs) =>
    match RequestHeader.ofBytes front with
    | none => .error .cutShort
    | some hdr => if usbEpGet hdr.pid hdr.ep then readRequestPayload hdr bs else .error .assertion

/-- The cancellation that the host reads behind its type. -/
def readCancel : Except HostStop (Message × List UInt8) :=
  match takeExactly 14 bs with
  | none => .error .cutShort
  | some (front, bs) =>
    match CancelHeader.ofBytes front with
    | none => .error .cutShort
    | some hdr => if usbEpGet hdr.pid hdr.ep then .ok (.cancel hdr, bs) else .error .assertion

/-- A round of `usb_tcp_host_msg_loop_co`. -/
def hostReadOne : Except HostStop (Message × List UInt8) :=
  match bs with
  | [] => .error .eof
  | type :: bs =>
    if type = tcpUsbRequest then readRequest bs
    else if type = tcpUsbResponse then .error .unexpected
    else if type = tcpUsbCancel then readCancel bs
    else if type = tcpUsbReset then .ok (.reset, bs)
    else .error .assertion

/-- The same as a step of a loop that keeps no state. -/
def hostRound (_ : Unit) (bs : List UInt8) : Except HostStop (Message × Unit × List UInt8) :=
  (hostReadOne bs).map fun r => (r.1, (), r.2)

/-- `usb_tcp_host_msg_loop_co`: the messages that it reads and what stops it. No more rounds are
needed than there are bytes. -/
def usbTcpHostMsgLoop : List Message × Option HostStop :=
  readAll hostRound (bs.length + 1) () bs

/-! ## Responses -/

/-- A packet of the host with its result. -/
structure HostPacket where
  /-- The address of the device on the active port. -/
  addr : UInt8
  pid : Pid
  ep : UInt8
  id : UInt64
  status : UInt32
  iov : List UInt8
  actualLength : ℕ
  /-- The device has the endpoint of the packet. -/
  endpoint : usbEpGet pid.code ep = true
  /-- The vector is as long as the request has said. -/
  short : iov.length < 65536

section

variable (closed : Bool) (p : HostPacket)

def responseHeader : ResponseHeader where
  addr := p.addr
  pid := p.pid.code
  ep := p.ep
  id := p.id
  status := p.status
  length :=
    let length := UInt16.ofNat p.iov.length
    if length.toNat > p.actualLength then .ofNat p.actualLength else length

def responseBuffer : Option (List UInt8) :=
  if p.pid.code = usbTokenIn ∧ p.status ≠ usbRetAsync then
    some (p.iov.take (responseHeader p).length.toNat)
  else none

/-- `usb_tcp_host_respond_packet_co`: the bytes that it writes. -/
def usbTcpHostRespondPacket : List UInt8 :=
  if closed then []
  else [tcpUsbResponse] ++ (responseHeader p).bytes ++ (responseBuffer p).getD []

/-- What happens at the host. -/
inductive HostOp where
  | respond (p : HostPacket)
  | close

/-- An operation of the host: whether the connection is closed after it, and the bytes that it
writes. -/
def HostOp.exec : HostOp → Bool × List UInt8
  | .respond p => (closed, usbTcpHostRespondPacket closed p)
  | .close => (true, [])

/-- Whether the connection is closed after an operation of the host. -/
def hostStep (op : HostOp) : Bool := (op.exec closed).1

/-- The stream of a run of the host. -/
def hostStream (ops : List HostOp) : List UInt8 :=
  (trace hostStep (fun closed op => (op.exec closed).2) closed ops).flatten

end

/-! ## The remote reads -/

/-- A response with its payload. -/
structure Response where
  hdr : ResponseHeader
  payload : List UInt8
  deriving DecidableEq

/-- The packet of the remote that a response is found to be for. -/
structure LocalPacket where
  /-- A thread of the guest waits for the response. -/
  inflight : Bool
  pid : Pid
  ep : UInt8
  state : USBPacketState
  status : UInt32
  /-- The bytes of the vector that `usb_packet_copy` works on. -/
  iov : List UInt8
  actualLength : ℕ
  deriving DecidableEq

/-- What a response leads to. -/
structure Delivered where
  packet : LocalPacket
  /-- The address of the device is put back. -/
  restoresAddr : Bool
  /-- The thread that waits is told. -/
  handled : Bool
  /-- The packet is queued for completion. -/
  completed : Bool
  deriving DecidableEq

/-- Why a response is refused. -/
inductive Refusal where
  /-- The assertion of `usb_packet_copy` on the room in the packet fails. -/
  | noRoom
  /-- The packet was known to be asynchronous, and the response has no result for it. -/
  | violation
  deriving DecidableEq

/-- What stops the thread of the remote. -/
inductive RemoteStop where
  /-- The stream ends behind a message. -/
  | eof
  /-- The stream ends in the middle of a message. -/
  | cutShort
  /-- A message that is not a response. -/
  | invalidType
  /-- A failed assertion of `usb_ep_get`. -/
  | assertion
  /-- A response was refused; the rest of the stream is not read. -/
  | refused (why : Refusal) (rest : List UInt8)
  deriving DecidableEq

variable (p : LocalPacket)

/-- `usb_packet_copy` into or out of a packet of the remote. -/
def usbPacketCopy (buffer : List UInt8) : Except Refusal LocalPacket :=
  let done := p.actualLength + buffer.length
  if done ≤ p.iov.length then
    match p.pid with
    | .setup | .out => .ok { p with actualLength := done }
    | .inp =>
      .ok { p with
        iov := p.iov.take p.actualLength ++ buffer ++ p.iov.drop done
        actualLength := done }
  else .error .noRoom

variable (hdr : ResponseHeader)

/-- The data of a response reaches its packet. -/
def transferData (payload : List UInt8) (p : LocalPacket) : Except Refusal LocalPacket :=
  if hdr.length > 0 ∧ hdr.status ≠ usbRetAsync then
    if hdr.pid = usbTokenIn then usbPacketCopy p payload
    else .ok { p with actualLength := p.actualLength + hdr.length.toNat }
  else .ok p

/-- What follows once the data is there and the status is set. -/
def settlePacket : Except Refusal Delivered :=
  if p.state = .async ∧ (p.status = usbRetNak ∨ p.status = usbRetAsync) then .error .violation
  else
    let p :=
      if p.state = .queued ∧ p.status = usbRetNak then { p with status := usbRetIoerror } else p
    let cancelled := p.state = .canceled
    let failed := p.status ≠ usbRetSuccess ∧ p.status ≠ usbRetAsync ∧ p.status ≠ usbRetNak
    .ok {
      packet := p
      restoresAddr := (failed ∨ cancelled) ∧ p.ep = 0 ∧ p.pid = .inp
      handled := p.inflight
      completed := ¬ p.inflight ∧ p.status ≠ usbRetAsync ∧ ¬ cancelled }

def deliver (r : Response) (p : LocalPacket) : Except Refusal Delivered :=
  match transferData r.hdr r.payload p with
  | .error why => .error why
  | .ok p => settlePacket { p with status := r.hdr.status }

section

variable (found : Found) (bs : List UInt8)

/-- The payload that the remote reads behind a response header. -/
def readResponsePayload : Except RemoteStop (Response × List UInt8) :=
  if hdr.length > 0 ∧ hdr.status ≠ usbRetAsync ∧ hdr.pid = usbTokenIn then
    match takeExactly hdr.length.toNat bs with
    | none => .error .cutShort
    | some (payload, bs) => .ok (⟨hdr, payload⟩, bs)
  else .ok (⟨hdr, []⟩, bs)

/-- The packets that the responses are found to be for, one after another. -/
abbrev Found := List (Option LocalPacket)

/-- The response that the remote reads behind its type, and what it is found to be for. A response
that is for no packet in flight is looked for on its endpoint, which has to be one of the device. -/
def readResponse (found : Option LocalPacket) (bs : List UInt8) :
    Except RemoteStop (Response × List UInt8) :=
  match takeExactly 20 bs with
  | none => .error .cutShort
  | some (front, bs) =>
    match ResponseHeader.ofBytes front with
    | none => .error .cutShort
    | some hdr =>
      if (found.any (·.inflight)) = false ∧ usbEpGet hdr.pid hdr.ep = false then .error .assertion
      else readResponsePayload hdr bs

/-- `usb_tcp_remote_read_one`: the response with what it leads to, where it is for a packet. -/
def usbTcpRemoteReadOne : Except RemoteStop ((Response × Option Delivered) × Found × List UInt8) :=
  match bs with
  | [] => .error .eof
  | type :: bs =>
    if type = tcpUsbResponse then
      match readResponse (found.headD none) bs with
      | .error stop => .error stop
      | .ok (r, rest) =>
        match found.headD none with
        | none => .ok ((r, none), found.tail, rest)
        | some p =>
          match deliver r p with
          | .error why => .error (.refused why rest)
          | .ok d => .ok ((r, some d), found.tail, rest)
    else .error .invalidType

/-- `usb_tcp_remote_read_thread`: the responses that it reads and what stops it. No more rounds are
needed than there are bytes. -/
def usbTcpRemoteReadThread : List (Response × Option Delivered) × Option RemoteStop :=
  readAll usbTcpRemoteReadOne (bs.length + 1) found bs

end

end Inferno.UsbTcp
