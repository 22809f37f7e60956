import Inferno.UsbTcp.Model

/-!
# The USB core behind the messages

What the messages of `UsbTcp/Model.lean` lead to in `hw/usb/core.c`. The host hands the packet of a
request to its device (`usbHandlePacket`), looks for the packet of a cancellation in the queue of
its endpoint (`usbCancelPacket`) and resets the device (`usbDeviceReset`). The remote copies a
response into its packet, and a bottom half completes the packet (`usbTcpRemoteCompleted`).

A failed assertion is `none`. The code of the device is a parameter (`Backend`): its callbacks may
change the device in any way, and so may what goes on between two messages. Queues hold packets in
flight, and no packet holds more than its buffer; the types of packets and endpoints say so.
-/

namespace Inferno.UsbTcp

open Common List

/-! ## Streams -/

/-- `usb_tcp_remote_read`, and what `tcp_usb_read` asks of its channel: the first `length` bytes of
a stream that comes in pieces, and what is left of it. -/
def usbTcpRemoteRead (length : ℕ) : List (List UInt8) → Option (List UInt8 × List (List UInt8))
  | [] => if length = 0 then some ([], []) else none
  | piece :: pieces =>
    if length ≤ piece.length then some (piece.take length, piece.drop length :: pieces)
    else (usbTcpRemoteRead (length - piece.length) pieces).map fun r => (piece ++ r.1, r.2)

/-! ## Packets -/

/-- `USB_RET_STALL`, which is -3. -/
def usbRetStall : UInt32 := 0xFFFFFFFD

/-- `USB_RET_ADD_TO_QUEUE`, which is -7. -/
def usbRetAddToQueue : UInt32 := 0xFFFFFFF9

/-- `USB_RET_REMOVE_FROM_QUEUE`, which is -8. -/
def usbRetRemoveFromQueue : UInt32 := 0xFFFFFFF8

/-- `usb_packet_is_inflight`, by the state of a packet. -/
def USBPacketState.isInflight : USBPacketState → Bool
  | .queued => true
  | .async => true
  | _ => false

/-- A `USBPacket` of the host. Its token is what the request has said. -/
structure CorePacket where
  pid : UInt32
  id : UInt64
  stream : UInt32
  shortNotOk : Bool
  intReq : Bool
  state : USBPacketState
  status : UInt32
  /-- The bytes of the vector. -/
  iov : List UInt8
  actualLength : ℕ
  le : actualLength ≤ iov.length
  deriving DecidableEq

/-- What `usb_packet_copy` leaves behind. -/
structure Copied (p : CorePacket) where
  packet : CorePacket
  buffer : List UInt8
  length_eq : packet.iov.length = p.iov.length

variable (p : CorePacket)

variable (buffer : List UInt8)

/-- `usb_packet_copy` between a packet of the host and a buffer. -/
def corePacketCopy : Option (Copied p) :=
  let done := p.actualLength + buffer.length
  if h : done ≤ p.iov.length then
    if p.pid = usbTokenSetup ∨ p.pid = usbTokenOut then
      some ⟨{ p with actualLength := done, le := h },
        (p.iov.drop p.actualLength).take buffer.length, rfl⟩
    else if p.pid = usbTokenIn then
      let iov := p.iov.take p.actualLength ++ buffer ++ p.iov.drop done
      have hlen : iov.length = p.iov.length := by
        simp only [iov, length_append, length_take, length_drop]
        omega
      some ⟨{ p with iov := iov, actualLength := done, le := hlen ▸ h }, buffer, hlen⟩
    else none
  else none

def usbPacketCleanup : Option Unit :=
  if p.state.isInflight then none else some ()

variable (hdr : RequestHeader)

/-- The packet that `usb_packet_init` and `usb_packet_setup` make of new memory, which is not in
flight. -/
def usbPacketSetup : CorePacket where
  pid := hdr.pid
  id := hdr.id
  stream := hdr.stream
  shortNotOk := hdr.shortNotOk ≠ 0
  intReq := hdr.intReq ≠ 0
  state := .setup
  status := usbRetSuccess
  iov := []
  actualLength := 0
  le := Nat.le_refl 0

def usbPacketAddbuf : CorePacket :=
  { p with
    iov := p.iov ++ buffer
    le := p.le.trans (length_append ▸ Nat.le_add_right _ _) }

/-! ## Devices -/

/-- The types of endpoints (`USB_ENDPOINT_XFER_CONTROL` and so on). -/
inductive XferType where
  | control | isoc | bulk | int | invalid
  deriving DecidableEq

structure USBEndpoint where
  type : XferType
  pipeline : Bool
  halted : Bool
  queue : List CorePacket
  inflight : ∀ p ∈ queue, p.state.isInflight = true

variable (e : USBEndpoint)

/-- The endpoint after a packet has been queued. -/
def USBEndpoint.push (p : CorePacket) (h : p.state.isInflight = true) : USBEndpoint :=
  { e with
    queue := e.queue ++ [p]
    inflight := by
      intro q hq
      rcases List.mem_append.mp hq with hold | hnew
      · exact e.inflight q hold
      · exact List.mem_singleton.mp hnew ▸ h }

/-- The endpoint after a packet has been taken out of its queue. -/
def USBEndpoint.remove (p : CorePacket) : USBEndpoint :=
  { e with
    queue := e.queue.erase p
    inflight := fun q hq => e.inflight q (mem_of_mem_erase hq) }

/-- An endpoint of a device: `ep_ctl`, or one of `ep_in` and `ep_out`. -/
inductive EpRef where
  | ctl
  | inp (i : Fin 15)
  | out (i : Fin 15)
  deriving DecidableEq

/-- `usb_ep_get`. -/
def usbEpRef (pid : UInt32) (ep : UInt8) : Option EpRef :=
  if ep = 0 then some .ctl
  else if pid = usbTokenIn ∨ pid = usbTokenOut then
    if h : ep.toNat - 1 < 15 then
      some (if pid = usbTokenIn then .inp ⟨ep.toNat - 1, h⟩ else .out ⟨ep.toNat - 1, h⟩)
    else none
  else none

/-- The states of a device (`USB_STATE_NOTATTACHED` and so on). -/
inductive USBDeviceState where
  | notattached | attached | default | suspended
  deriving DecidableEq

/-- The stages of a control transfer (`SETUP_STATE_IDLE` and so on). -/
inductive SetupState where
  | idle | setup | data | ack | param
  deriving DecidableEq

/-- `USBDevice`, where `δ` is what the code of the device has of its own. -/
structure USBDevice (δ : Type) where
  state : USBDeviceState
  attached : Bool
  /-- `USB_DEV_FLAG_IS_HOST` of `flags`. -/
  isHost : Bool
  addr : UInt8
  canHandlePacket : Bool
  /-- `ep_ctl`, `ep_in` and `ep_out`. -/
  ep : EpRef → USBEndpoint
  setupBuf : List UInt8
  dataBuf : ℕ → UInt8
  setupState : SetupState
  setupLen : ℕ
  setupIndex : ℕ
  /-- What the code of the device has of its own. -/
  own : δ

variable {δ : Type}

variable (dev : USBDevice δ)

/-- The device after a change of one endpoint. -/
def USBDevice.setEp (ref : EpRef) (e : USBEndpoint) : USBDevice δ :=
  { dev with ep := Function.update dev.ep ref e }

/-- What the code of a device makes of a packet. It moves data with `usb_packet_copy`, so that no
more is transferred than fits. -/
structure Answer (δ : Type) (p : CorePacket) where
  device : USBDevice δ
  status : UInt32
  /-- The bytes of the packet. -/
  iov : List UInt8
  actualLength : ℕ
  length_eq : iov.length = p.iov.length
  le : actualLength ≤ iov.length

/-- The packet after an answer. -/
def Answer.packet {p : CorePacket} (a : Answer δ p) : CorePacket :=
  { p with status := a.status, iov := a.iov, actualLength := a.actualLength, le := a.le }

/-- What the code of a device makes of a control request. The length is that of the data, which the
core puts right for a request that succeeds. -/
structure ControlAnswer (δ : Type) (p : CorePacket) where
  device : USBDevice δ
  status : UInt32
  actualLength : ℕ
  /-- Where it does not succeed no more is transferred than fits. -/
  le : status ≠ usbRetSuccess → actualLength ≤ p.iov.length

/-- The code of a device, and what goes on at the host between two messages. -/
structure Backend (δ : Type) where
  /-- What goes on between two messages. -/
  activity : USBDevice δ → USBDevice δ
  handlePacket : USBDevice δ → EpRef → (p : CorePacket) → Answer δ p
  handleData : USBDevice δ → EpRef → (p : CorePacket) → Answer δ p
  /-- `usb_device_handle_control`, for `request`, `value`, `index` and `length`. -/
  handleControl : USBDevice δ → (p : CorePacket) → ℕ → ℕ → ℕ → ℕ → ControlAnswer δ p
  cancelPacket : USBDevice δ → EpRef → CorePacket → USBDevice δ
  handleReset : USBDevice δ → USBDevice δ

/-! ## Control transfers -/

/-- A byte of `setup_buf`. -/
def USBDevice.setupByte (i : ℕ) : ℕ := (dev.setupBuf.getD i 0).toNat

/-- The request is for data from the device (`USB_DIR_IN`). -/
def USBDevice.dirIn : Bool := dev.setupBuf.getD 0 0 &&& 0x80 ≠ 0

variable (b : Backend δ)

section

variable (dev : USBDevice δ) (ref : EpRef) (p : CorePacket) (h : p.state.isInflight = true)

/-- `usb_device_handle_control` with what is in `setup_buf`. -/
def handleSetup : ControlAnswer δ p :=
  b.handleControl dev p (dev.setupByte 0 <<< 8 ||| dev.setupByte 1)
    (dev.setupByte 3 <<< 8 ||| dev.setupByte 2) (dev.setupByte 5 <<< 8 ||| dev.setupByte 4)
    dev.setupLen

def CorePacket.stall : CorePacket := { p with status := usbRetStall }

/-- `do_token_setup`, once the request is in `setup_buf`. -/
def startControl (h : p.iov.length = 8) : USBDevice δ × CorePacket :=
  let setupLen := dev.setupByte 7 <<< 8 ||| dev.setupByte 6
  if setupLen > 4096 then (dev, p.stall)
  else
    let dev := { dev with setupLen := setupLen }
    if dev.dirIn then
      let a := handleSetup b dev p
      if hstatus : a.status = usbRetSuccess then
        ({ a.device with
            setupLen := min a.actualLength a.device.setupLen
            setupState := .data },
          { p with status := a.status, actualLength := 8, le := h.ge })
      else
        (if a.status = usbRetAsync then { a.device with setupState := .setup } else a.device,
          { p with status := a.status, actualLength := a.actualLength, le := a.le hstatus })
    else
      ({ dev with setupState := if setupLen = 0 then .ack else .data },
        { p with actualLength := 8, le := h.ge })

def doTokenSetup : Option (USBDevice δ × CorePacket) :=
  if h : p.iov.length = 8 then
    (corePacketCopy p (replicate p.iov.length 0)).map fun c =>
      startControl b { dev with setupBuf := c.buffer, setupIndex := 0 }
        { c.packet with actualLength := 0, le := Nat.zero_le _ } (c.length_eq.trans h)
  else some (dev, p.stall)

/-- How much of the data of a control transfer goes into a packet of some size. The difference of
the indices is compared as an unsigned number. -/
def USBDevice.dataLen (size : ℕ) : ℕ :=
  if dev.setupIndex ≤ dev.setupLen then min (dev.setupLen - dev.setupIndex) size else size

/-- The device after some data of a control transfer. -/
def USBDevice.advance (len : ℕ) : USBDevice δ :=
  let index := dev.setupIndex + len
  { dev with
    setupIndex := index
    setupState := if index ≥ dev.setupLen then .ack else dev.setupState }

def doTokenIn : Option (USBDevice δ × CorePacket) :=
  if ref ≠ .ctl then none
  else
    match dev.setupState with
    | .ack =>
      if dev.dirIn then some (dev, p)
      else
        let a := handleSetup b dev p
        if hstatus : a.status = usbRetAsync then
          have hle : a.actualLength ≤ p.iov.length := a.le (hstatus ▸ by decide)
          some (a.device, { p with status := a.status, actualLength := a.actualLength, le := hle })
        else
          some ({ a.device with setupState := .idle },
            { p with status := a.status, actualLength := 0, le := Nat.zero_le _ })
    | .data =>
      if dev.dirIn then
        let len := dev.dataLen p.iov.length
        (corePacketCopy p (load dev.dataBuf dev.setupIndex len)).map fun c =>
          (dev.advance len, c.packet)
      else some ({ dev with setupState := .idle }, p.stall)
    | _ => some (dev, p.stall)

def doTokenOut : Option (USBDevice δ × CorePacket) :=
  if ref ≠ .ctl then none
  else
    match dev.setupState with
    | .ack => some (if dev.dirIn then { dev with setupState := .idle } else dev, p)
    | .data =>
      if dev.dirIn then some ({ dev with setupState := .idle }, p.stall)
      else
        let len := dev.dataLen p.iov.length
        (corePacketCopy p (load dev.dataBuf dev.setupIndex len)).map fun c =>
          ({ dev.advance len with
              dataBuf := Store.apply dev.dataBuf ⟨dev.setupIndex, c.buffer⟩ }, c.packet)
    | _ => some (dev, p.stall)

/-! ## Handling and cancelling packets -/

/-- `usb_process_one`, for a packet without a parameter. -/
def usbProcessOne : Option (USBDevice δ × CorePacket) :=
  let p := { p with status := usbRetSuccess }
  if dev.canHandlePacket then
    let a := b.handlePacket dev ref p
    some (a.device, a.packet)
  else if ref = .ctl then
    if p.pid = usbTokenSetup then doTokenSetup b dev p
    else if p.pid = usbTokenIn then doTokenIn b dev ref p
    else if p.pid = usbTokenOut then doTokenOut dev ref p
    else some (dev, p.stall)
  else
    let a := b.handleData dev ref p
    some (a.device, a.packet)

/-- A packet is put into the queue of its endpoint. -/
def enqueue : USBDevice δ × CorePacket :=
  (dev.setEp ref ((dev.ep ref).push p h), p)

def usbQueueOne : USBDevice δ × CorePacket :=
  enqueue dev ref { p with state := .queued, status := usbRetAsync } rfl

/-- `usb_handle_packet`, once the device has processed the packet. -/
def finishPacket : Option (USBDevice δ × CorePacket) :=
  let e := dev.ep ref
  if p.status = usbRetAsync then
    if e.type ≠ .isoc ∧ (e.type ≠ .int ∨ dev.isHost) then
      some (enqueue dev ref { p with state := .async } rfl)
    else none
  else if p.status = usbRetAddToQueue then some (usbQueueOne dev ref p)
  else if p.stream ≠ 0 ∨ ¬ e.pipeline ∨ e.queue = [] then
    some (dev, if p.status ≠ usbRetNak then { p with state := .complete } else p)
  else none

/-- A packet is processed at once where none waits before it, or need not wait. -/
def Immediate : Prop :=
  e.queue = [] ∨ e.pipeline = true ∨ p.stream ≠ 0

instance (e : USBEndpoint) (p : CorePacket) : Decidable (Immediate e p) :=
  inferInstanceAs (Decidable (_ ∨ _))

/-- A new packet clears a halt of its endpoint. -/
def clearHalt : USBDevice δ :=
  let e := dev.ep ref
  if e.halted then dev.setEp ref { e with halted := false } else dev

def usbHandlePacket : Option (USBDevice δ × CorePacket) :=
  if dev.state ≠ .default ∨ p.state ≠ .setup then none
  else
    let e := dev.ep ref
    if e.halted ∧ e.queue ≠ [] then none
    else if Immediate e p then
      (usbProcessOne b (clearHalt dev ref) ref p).bind fun r => finishPacket r.1 ref r.2
    else some (usbQueueOne (clearHalt dev ref) ref p)

def usbCancelPacket : Option (USBDevice δ × CorePacket) :=
  if p.state.isInflight then
    let canceled := { p with state := .canceled }
    let dev := dev.setEp ref ((dev.ep ref).remove p)
    some (if p.state = .async then b.cancelPacket dev ref canceled else dev, canceled)
  else none

def usbDeviceReset : USBDevice δ :=
  if dev.attached then { b.handleReset dev with addr := 0, state := .default } else dev

/-! ## The host -/

/-- `usb_tcp_host_respond_packet_co`, as far as it is about the packet: one that is not in flight is
cleaned up. -/
def respondPacket (r : USBDevice δ × CorePacket) : Option (USBDevice δ) :=
  if r.2.state.isInflight then some r.1 else (usbPacketCleanup r.2).map fun _ => r.1

def requestPacket (payload : List UInt8) : CorePacket :=
  let p := usbPacketSetup hdr
  if hdr.length > 0 then
    usbPacketAddbuf p (if hdr.pid = usbTokenIn then replicate hdr.length.toNat 0 else payload)
  else p

/-- What `usb_tcp_host_msg_loop_co` does with a message that it has read. -/
def handleHostMessage : Message → Option (USBDevice δ)
  | .request hdr payload =>
    (usbEpRef hdr.pid hdr.ep).bind fun ref =>
      (usbHandlePacket b dev ref (requestPacket hdr payload)).bind respondPacket
  | .cancel hdr =>
    (usbEpRef hdr.pid hdr.ep).bind fun ref =>
      -- `usb_ep_find_packet_by_id`.
      match (dev.ep ref).queue.find? fun p => p.id == hdr.id with
      | some p => (usbCancelPacket b dev ref p).bind respondPacket
      | none => some dev
  | .reset => some (usbDeviceReset b dev)

/-- A round of `usb_tcp_host_msg_loop_co` with the device of the host. -/
def hostDeviceRound (bs : List UInt8) : Except HostStop (Message × USBDevice δ × List UInt8) :=
  match hostReadOne bs with
  | .error stop => .error stop
  | .ok (m, rest) =>
    match handleHostMessage b (b.activity dev) m with
    | none => .error .assertion
    | some dev => .ok (m, dev, rest)

/-- `usb_tcp_host_msg_loop_co` with the device of the host: the messages that it handles and what
stops it. -/
def usbTcpHostRun (bs : List UInt8) : List Message × Option HostStop :=
  readAll (hostDeviceRound b) (bs.length + 1) dev bs

/-- Unless an assertion stops it, the loop handles what `usbTcpHostMsgLoop` reads. -/
theorem usbTcpHostRun_eq (h : (usbTcpHostRun b dev bs).2 ≠ some .assertion) :
    usbTcpHostRun b dev bs = usbTcpHostMsgLoop bs := by
  unfold usbTcpHostRun usbTcpHostMsgLoop at *
  generalize bs.length + 1 = fuel at *
  induction fuel generalizing dev bs with
  | zero => rfl
  | succ fuel ih =>
    rw [readAll, hostDeviceRound] at h ⊢
    rw [readAll, hostRound]
    cases hone : hostReadOne bs with
    | error stop => rfl
    | ok r =>
      rw [hone] at h
      dsimp only at h ⊢
      cases hdev : handleHostMessage b (b.activity dev) r.1 with
      | none => exact absurd (by rw [hdev]) h
      | some dev' =>
        rw [hdev] at h
        simp [Except.map, ih dev' h]

end

/-! ## The remote -/

/-- A packet of the remote that a response is found to be for, with its place in the queue of its
endpoint. -/
structure PlacedPacket where
  packet : LocalPacket
  stream : UInt32
  /-- It is the first packet of the queue. -/
  first : Bool
  le : packet.actualLength ≤ packet.iov.length

variable (place : PlacedPacket)

/-- `usb_packet_complete`, as far as it is about the packet itself. -/
def usbPacketComplete (p : LocalPacket) : Bool :=
  p.state = .async ∧ (place.stream ≠ 0 ∨ place.first) ∧ p.status ≠ usbRetAsync ∧
    p.status ≠ usbRetNak

/-- `usb_tcp_remote_completed_bh`, for the packet of a response as the response has left it. -/
def usbTcpRemoteCompleted (d : Delivered) : Bool :=
  !d.completed || !d.packet.state.isInflight || d.packet.status == usbRetRemoveFromQueue ||
    usbPacketComplete place d.packet

variable (places : List (Option PlacedPacket))

variable (bs : List UInt8)

/-- A round of the thread of the remote, with the completion of the packet that it leads to. -/
def remotePacketRound : Except RemoteStop
      ((Response × Option Delivered) × List (Option PlacedPacket) × List UInt8) :=
  let place := places.headD none
  match usbTcpRemoteReadOne [place.map fun p => p.packet] bs with
  | .error stop => .error stop
  | .ok (out, _, rest) =>
    match place, out.2 with
    | some p, some d =>
      if usbTcpRemoteCompleted p d then .ok (out, places.tail, rest) else .error .assertion
    | _, _ => .ok (out, places.tail, rest)

/-- `usb_tcp_remote_read_thread` with the packets of the remote: the responses that it reads and
what stops it. -/
def usbTcpRemoteRun : List (Response × Option Delivered) × Option RemoteStop :=
  readAll remotePacketRound (bs.length + 1) places bs

end Inferno.UsbTcp
