import Inferno.A7iop.Model

/-!
# The simulated SEP

`hw/arm/apple-silicon/sep-sim.c` stands in for the secure enclave: a bottom half takes the messages
out of the mailbox of the IOP and answers them, through the mailbox of the AP and in buffers of the
guest that it was told about (OOL). A message has 16 bytes, and the handlers read it in one of
several layouts.

A failed assertion is `none`, and so is the use of a message that was not received. The request of a
keystore message is copied into a buffer of the size that the message names; every read of that
buffer is noted, inside or not, and behind the end of the buffer it finds memory of the host.
-/

namespace Inferno.SepSim

open Common A7iop Function
open BitVec (ofNat)

/-! ## Messages -/

variable (msg : Message)

/-- The number in some bytes of a message. -/
def word (bytes : List (Fin 16)) : ℕ := ofLe (bytes.map msg)

structure SEPMessage where
  ep : UInt8
  tag : UInt8
  op : UInt8
  param : UInt8
  data : BitVec 32

/-- A message in this layout. -/
def SEPMessage.ofMessage : SEPMessage :=
  ⟨msg 0, msg 1, msg 2, msg 3, ofNat 32 (word msg [4, 5, 6, 7])⟩

/-- The message of 16 bytes with this layout in front. -/
def SEPMessage.toMessage (m : SEPMessage) : Message := fun i =>
  ([m.ep, m.tag, m.op, m.param] ++ leBytes 4 m.data.toNat).getD i 0

/-- `SetOOLMessage`, but for the fields in front. -/
structure SetOOLMessage where
  id : UInt8
  data : BitVec 32

/-- A message in this layout. -/
def SetOOLMessage.ofMessage : SetOOLMessage :=
  ⟨msg 3, ofNat 32 (word msg [4, 5, 6, 7])⟩

/-- `L4InfoMessage`, but for the fields in front. -/
structure L4InfoMessage where
  size : BitVec 16
  address : BitVec 32

/-- A message in this layout. -/
def L4InfoMessage.ofMessage : L4InfoMessage :=
  ⟨ofNat 16 (word msg [2, 3]), ofNat 32 (word msg [4, 5, 6, 7])⟩

/-- `KeystoreMessage`, but for the fields that must be zero. -/
structure KeystoreMessage where
  ep : UInt8
  tag : UInt8
  id : UInt8
  size : ℕ

/-- A message in this layout. -/
def KeystoreMessage.ofMessage : KeystoreMessage :=
  ⟨msg 0, msg 1, msg 2, word msg [6, 7]⟩

/-- The endpoints, without those that nothing refers to. -/
inductive Endpoint
  | control
  | logger
  | artStorage
  | artRequests
  | debug
  | secureCredentials
  | unitTesting
  | xartSlave
  | hilo
  | keystore
  | xartMaster
  | discovery
  | l4info
  | bootstrap
  deriving DecidableEq

def Endpoint.byte : Endpoint → UInt8
  | .control => 0
  | .logger => 1
  | .artStorage => 2
  | .artRequests => 3
  | .debug => 5
  | .secureCredentials => 10
  | .unitTesting => 15
  | .xartSlave => 16
  | .hilo => 17
  | .keystore => 18
  | .xartMaster => 19
  | .discovery => 253
  | .l4info => 254
  | .bootstrap => 255

variable (b : UInt8)

/-- The endpoints that the messages are handled for, by their numbers. -/
def Endpoint.ofByte : Option Endpoint :=
  [.control, .artStorage, .artRequests, .secureCredentials, .xartSlave, .keystore, .xartMaster,
    .discovery, .l4info, .bootstrap].find? fun ep => ep.byte == b

/-- The opcodes of `EP_CONTROL` that are handled. -/
inductive ControlOp
  | nop
  | setOolInAddr
  | setOolOutAddr
  | setOolInSize
  | setOolOutSize
  | getSecurityMode
  | selfTest
  | eraseInstall
  deriving DecidableEq

/-- An opcode by its number. -/
def ControlOp.ofByte : Option ControlOp :=
  match b.toNat with
  | 0 => some .nop
  | 2 => some .setOolInAddr
  | 3 => some .setOolOutAddr
  | 4 => some .setOolInSize
  | 5 => some .setOolOutSize
  | 20 => some .getSecurityMode
  | 24 => some .selfTest
  | 37 => some .eraseInstall
  | _ => none

/-- The opcodes of `EP_BOOTSTRAP` that are handled. -/
inductive BootstrapOp
  | ping
  | getStatus
  | generateNonce
  | getNonceWord
  | bootTz0
  | bootImg4
  | opcode16
  deriving DecidableEq

/-- An opcode by its number. -/
def BootstrapOp.ofByte : Option BootstrapOp :=
  match b.toNat with
  | 1 => some .ping
  | 2 => some .getStatus
  | 3 => some .generateNonce
  | 4 => some .getNonceWord
  | 5 => some .bootTz0
  | 6 => some .bootImg4
  | 16 => some .opcode16
  | _ => none

/-! ## State -/

/-- What does not change while the emulator runs. -/
structure Host where
  /-- `LOG_GUEST_ERROR` is logged, so that the arguments of such a log are evaluated. -/
  logGuestError : Bool
  /-- The coding of the empty `ART.Header`, unless a call of the ASN.1 library fails. -/
  art : Option (List UInt8)
  /-- The SHA-256 hash, if the library supports it. -/
  sha256 : Option (List UInt8 → Fin 32 → UInt8)

/-- What the handling of one message finds around the device. -/
structure Env where
  /-- The memory of the guest, with zeros where it cannot be read. -/
  memory : BitVec 64 → UInt8
  /-- The memory of the host behind the copy of the request, by offsets into the copy. -/
  heap : ℕ → UInt8
  /-- The result of `qemu_guest_getrandom`. -/
  random : BitVec 32

/-- A read of the copy of a request. -/
structure Read where
  offset : ℕ
  size : ℕ
  limit : ℕ
  deriving DecidableEq

inductive AppleSEPStatus
  | sleeping
  | bootstrap
  | active
  deriving DecidableEq

/-- The number of a status. -/
def AppleSEPStatus.word : AppleSEPStatus → BitVec 32
  | .sleeping => 0
  | .bootstrap => 1
  | .active => 2

structure AppleSEPSimOOLInfo where
  inMinPages : UInt8
  inMaxPages : UInt8
  outMinPages : UInt8
  outMaxPages : UInt8

structure AppleSEPSimOOLState where
  inAddr : BitVec 64
  inSize : BitVec 32
  outAddr : BitVec 64
  outSize : BitVec 32

def sepEndpointMax : ℕ := 0x20

structure AppleSEPSimState where
  a7iop : AppleA7IOP
  rsep : Bool
  status : AppleSEPStatus
  oolInfo : Fin sepEndpointMax → AppleSEPSimOOLInfo
  oolState : Fin sepEndpointMax → AppleSEPSimOOLState
  reads : List Read
  /-- The writes to the memory of the guest so far. -/
  writes : List (BitVec 64 × List UInt8)

/-- The place of `EP_CONTROL` among the buffers. -/
def oolControl : Fin sepEndpointMax := ⟨0, by decide⟩

/-- The place of `EP_ART_STORAGE` among the buffers. -/
def oolArtStorage : Fin sepEndpointMax := ⟨2, by decide⟩

/-- The place of `EP_KEYSTORE` among the buffers. -/
def oolKeystore : Fin sepEndpointMax := ⟨18, by decide⟩

variable (s : AppleSEPSimState)

def dmaMemoryWrite (addr : BitVec 64) (bytes : List UInt8) : AppleSEPSimState :=
  { s with writes := s.writes ++ [(addr, bytes)] }

/-! ## Buffers -/

variable (ep : UInt8)

/-- A function that sets a field of the buffers of an endpoint, which is asserted to exist. -/
def setOol (f : AppleSEPSimOOLState → AppleSEPSimOOLState) : Option AppleSEPSimState :=
  if h : ep.toNat < sepEndpointMax then
    let i : Fin sepEndpointMax := ⟨ep.toNat, h⟩
    some { s with oolState := update s.oolState i (f (s.oolState i)) }
  else none

variable (size : BitVec 32)

def appleSepSimSetOolInSize : Option AppleSEPSimState :=
  setOol s ep fun o => { o with inSize := size }

def appleSepSimSetOolInAddr (ep : UInt8) (addr : BitVec 64) : Option AppleSEPSimState :=
  setOol s ep fun o => { o with inAddr := addr }

def appleSepSimSetOolOutSize : Option AppleSEPSimState :=
  setOol s ep fun o => { o with outSize := size }

def appleSepSimSetOolOutAddr (ep : UInt8) (addr : BitVec 64) : Option AppleSEPSimState :=
  setOol s ep fun o => { o with outAddr := addr }

/-! ## Replies -/

section Handlers

variable (cfg : Config)

variable (s : AppleSEPSimState)

/-- `apple_a7iop_send_ap`. -/
def sendAp (msg : Message) : AppleSEPSimState :=
  { s with a7iop := sendTo cfg .ap .iop msg s.a7iop }

def appleSepSimSendMessage (ep tag op param : UInt8) (data : BitVec 32) : AppleSEPSimState :=
  sendAp cfg s (SEPMessage.toMessage ⟨ep, tag, op, param, data⟩)

def appleSepSimMessageReply (msg : SEPMessage) (op param : UInt8) (data : BitVec 32) :
    AppleSEPSimState :=
  appleSepSimSendMessage cfg s msg.ep msg.tag op param data

def controlOpAck : UInt8 := 1

def appleSepSimControlSendAck (msg : SEPMessage) (param : UInt8) (data : BitVec 32) :
    AppleSEPSimState :=
  appleSepSimMessageReply cfg s msg controlOpAck param data

def artStorageOpIncoming : UInt8 := 20

variable (host : Host)

def appleSepSimHandleControlMsg (s : AppleSEPSimState) (msg : Message) : Option AppleSEPSimState :=
  let sep := SEPMessage.ofMessage msg
  let setOol := SetOOLMessage.ofMessage msg
  match ControlOp.ofByte sep.op with
  | some .nop => some (appleSepSimControlSendAck cfg s sep 0 0)
  | some .setOolInAddr =>
    (appleSepSimSetOolInAddr s setOol.id (setOol.data.zeroExtend 64 <<< 12)).map fun s =>
      appleSepSimControlSendAck cfg s sep 0 0
  | some .setOolOutAddr =>
    (appleSepSimSetOolOutAddr s setOol.id (setOol.data.zeroExtend 64 <<< 12)).map fun s =>
      appleSepSimControlSendAck cfg s sep 0 0
  | some .setOolInSize =>
    (appleSepSimSetOolInSize s setOol.id setOol.data).map fun s =>
      appleSepSimControlSendAck cfg s sep 0 0
  | some .setOolOutSize =>
    (appleSepSimSetOolOutSize s setOol.id setOol.data).map fun s =>
      appleSepSimControlSendAck cfg s sep 0 0
  | some .getSecurityMode => some (appleSepSimControlSendAck cfg s sep 0 3)
  | some .selfTest => some (appleSepSimControlSendAck cfg s sep 0 0)
  | some .eraseInstall =>
    let s := appleSepSimControlSendAck cfg s sep 0 0
    host.art.map fun data =>
      let s := dmaMemoryWrite s (s.oolState oolArtStorage).outAddr data
      appleSepSimSendMessage cfg s Endpoint.artStorage.byte 0 artStorageOpIncoming 0 0
  | none => some s

def xartOpAck : UInt8 := 0

def appleSepSimXartSendAck (message : SEPMessage) (param : UInt8) (data : BitVec 32) :
    AppleSEPSimState :=
  appleSepSimMessageReply cfg s message xartOpAck param data

variable (message : Message)

/-- `apple_sep_sim_handle_xart_msg`, which acknowledges every opcode. -/
def appleSepSimHandleXartMsg : AppleSEPSimState :=
  appleSepSimXartSendAck cfg s (SEPMessage.ofMessage message) 0 0

def appleSepSimHandleL4info : AppleSEPSimState :=
  let msg := L4InfoMessage.ofMessage message
  let addr := msg.address.zeroExtend 64 <<< 12
  let size := msg.size.zeroExtend 32 <<< 12
  { s with oolState := update s.oolState oolControl ⟨addr, size, addr, size⟩ }

/-! ## Endpoints and bootstrap -/

/-- `apple_sep_sim_eps`, with the places among the buffers, and `apple_sep_sim_endpoint_names`. -/
def appleSepSimEps : List (Endpoint × Fin sepEndpointMax × ℕ) :=
  [(.control, ⟨0, by decide⟩, 0x636E746C), (.logger, ⟨1, by decide⟩, 0x6C6F6720),
    (.artStorage, ⟨2, by decide⟩, 0x61727473), (.artRequests, ⟨3, by decide⟩, 0x61727472),
    (.secureCredentials, ⟨10, by decide⟩, 0x73637264), (.xartSlave, ⟨16, by decide⟩, 0x78617273),
    (.keystore, ⟨18, by decide⟩, 0x736B7320), (.xartMaster, ⟨19, by decide⟩, 0x7861726D)]

def discoveryOpEpAdvert : UInt8 := 0

def discoveryOpOolAdvert : UInt8 := 1

/-- The bytes of the information on buffers, as a word. -/
def AppleSEPSimOOLInfo.word (o : AppleSEPSimOOLInfo) : BitVec 32 :=
  ofNat 32 (ofLe [o.inMinPages, o.inMaxPages, o.outMinPages, o.outMaxPages])

/-- `apple_sep_sim_advertise_eps`: its body for one endpoint. -/
def advertiseEp (e : Endpoint × Fin sepEndpointMax × ℕ) : AppleSEPSimState :=
  let s := sendAp cfg s (SEPMessage.toMessage
    ⟨Endpoint.discovery.byte, 0, discoveryOpEpAdvert, e.1.byte, ofNat 32 e.2.2⟩)
  sendAp cfg s (SEPMessage.toMessage
    ⟨Endpoint.discovery.byte, 0, discoveryOpOolAdvert, e.1.byte, (s.oolInfo e.2.1).word⟩)

def appleSepSimAdvertiseEps : AppleSEPSimState :=
  appleSepSimEps.foldl (advertiseEp cfg) s

def controlOpNotifyAlive : UInt8 := 13

variable (env : Env)

section

variable (s : AppleSEPSimState) (msg : KeystoreMessage) (resp : List UInt8)

def appleSepSimHandleBootstrapMsg (message : Message) : Option AppleSEPSimState :=
  let msg := SEPMessage.ofMessage message
  -- The opcode of an answer is that of the message and a hundred.
  let reply := fun s op param data =>
    appleSepSimSendMessage cfg s Endpoint.bootstrap.byte msg.tag op param data
  match BootstrapOp.ofByte msg.op with
  | some .ping => some (reply s 101 0 0)
  | some .getStatus => some (reply s 102 0 s.status.word)
  | some .generateNonce => some (reply s 103 0 0xA0)
  | some .getNonceWord => some (reply s 104 msg.param env.random)
  | some .bootTz0 =>
    some (reply { s with rsep := msg.param == 1, status := .active } 105 0 0)
  | some .bootImg4 =>
    if s.rsep = (msg.param == 1) then
      let s := reply s 106 0 0
      let s := appleSepSimSendMessage cfg s Endpoint.control.byte 0 controlOpNotifyAlive 0 0
      some (appleSepSimAdvertiseEps cfg s)
    else none
  | some .opcode16 => some (reply s 116 0 env.random)
  | none => some s

/-! ## Keystore -/

def keystoreIpcHeaderSize : ℕ := 0x54

/-- `KEYSTORE_MSG_TAG_REPLY`, set in a tag. -/
def replyTag (tag : UInt8) : UInt8 := tag ||| 0x80

/-- `KEYSTORE_MSG_TAG_CODE_MASK`, applied to a tag. -/
def msgCode (tag : UInt8) : ℕ := (tag &&& 0x7F).toNat

/-- The fields of the header of a request that go into a response, by offset and size: `time_msecs`,
`id`, `proc_uid`, `audit_session_id` and `ipc_digest`. -/
def headerFields : List (ℕ × ℕ) := [(0x18, 8), (0x24, 8), (0x2C, 8), (0x34, 4), (0x38, 0x14)]

/-- The header of a response (`KeystoreIPCHeader`), with its hash still zero. -/
def ipcHeader (buf : ℕ → UInt8) : List UInt8 :=
  leBytes 4 (keystoreIpcHeaderSize - 4) ++ leBytes 0x10 0 ++ leBytes 4 1 ++ load buf 0x18 8 ++
    leBytes 4 0 ++ load buf 0x24 8 ++ load buf 0x2C 8 ++ load buf 0x34 4 ++ load buf 0x38 0x14 ++
    leBytes 8 0

/-- What is particular to the answer to a code. -/
structure Response where
  /-- The fields of the request that are logged. -/
  logged : List (ℕ × ℕ)
  /-- The fields of the request, other than those of the header, that the answer is made of. -/
  used : List (ℕ × ℕ)
  /-- What follows the header: the selector and the payload. -/
  body : (ℕ → UInt8) → List UInt8

/-- An answer with a selector and a fixed payload. -/
def Response.fixed (logged : List (ℕ × ℕ)) (selector : ℕ) (payload : List UInt8) : Response :=
  ⟨logged, [], fun _ => leBytes 4 selector ++ payload⟩

/-- The codes that are answered with an IPC response. -/
def response : ℕ → Option Response
  -- Create keybag, with the word `BAG1`.
  | 0x01 => some (.fixed [] 1 (leBytes 4 0x42414731))
  -- Copy keybag.
  | 0x02 =>
    some (.fixed [(0x54, 4), (0x58, 8), (0x60, 4)] 0 (leBytes 4 0x10 ++ List.replicate 0x10 0xAF))
  -- Load keybag.
  | 0x03 => some (.fixed [] 0 (leBytes 4 0x42414731))
  -- Change lock state.
  | 0x04 =>
    some ⟨[], [(0x60, 4)], fun buf =>
      leBytes 4 0 ++ leBytes 4 (ofLe (load buf 0x60 4) ||| 1 <<< 22) ++ leBytes 8 (1 ||| 2)⟩
  -- Unload keybag.
  | 0x05 => some (.fixed [] 0 [])
  -- Null D key.
  | 0x0A => some (.fixed [] 0 [])
  -- Unwrap D key.
  | 0x0C => some (.fixed [] 0 [])
  -- Make system keybag.
  | 0x0D => some (.fixed [] 0 [])
  -- Get device state, with the text `applehax`.
  | 0x19 =>
    some (.fixed [(0x54, 4), (0x58, 8), (0x60, 4), (0x64, 4)] 0
      (leBytes 4 8 ++ [0x61, 0x70, 0x70, 0x6C, 0x65, 0x68, 0x61, 0x78]))
  -- Client terminate.
  | 0x1B => some (.fixed [(0x54, 4)] 0 [])
  | _ => none

/-- `apple_sep_sim_gen_sks_hash`: what is hashed. -/
def hashed : List UInt8 :=
  (resp.drop 0x14).take (if ofLe ((resp.drop 0x14).take 4) = 2 then 0x40 else 0x38) ++
    resp.drop keystoreIpcHeaderSize

def appleSepSimKeystoreSendIpcResp : Option AppleSEPSimState :=
  host.sha256.map fun sha256 =>
    let hash := (List.ofFn (sha256 (hashed resp))).take 0x10
    let s := dmaMemoryWrite s (s.oolState oolKeystore).outAddr
      (resp.take 4 ++ hash ++ resp.drop 0x14)
    appleSepSimSendMessage cfg s msg.ep (replyTag msg.tag) msg.id 0 (ofNat 32 (resp.length <<< 16))

/-- The copy of a request, with the memory of the host behind it. -/
def requestBuf (inAddr : BitVec 64) (size : ℕ) : ℕ → UInt8 := fun i =>
  if i < size then env.memory (inAddr + ofNat 64 i) else env.heap i

/-- The fields that an answer reads. -/
def Response.fields (r : Response) : List (ℕ × ℕ) :=
  (if host.logGuestError then r.logged else []) ++ headerFields ++ r.used

/-- The reads of the fields of a request. -/
def readsOf (size : ℕ) (fields : List (ℕ × ℕ)) : List Read :=
  fields.map fun f => ⟨f.1, f.2, size⟩

def appleSepSimHandleKeystoreMsg (message : Message) : Option AppleSEPSimState :=
  let msg := KeystoreMessage.ofMessage message
  let buf := requestBuf env (s.oolState oolKeystore).inAddr msg.size
  match response (msgCode msg.tag) with
  | some r =>
    let s := { s with reads := s.reads ++ readsOf msg.size (r.fields host) }
    appleSepSimKeystoreSendIpcResp cfg host s msg (ipcHeader buf ++ r.body buf)
  | none =>
    -- `KC Wrap` is answered without a response.
    if msgCode msg.tag = 0x08 then
      some (appleSepSimSendMessage cfg s msg.ep (replyTag msg.tag) msg.id 0 0)
    else
      let s := { s with reads := s.reads ++ readsOf msg.size [(0, msg.size)] }
      let s := dmaMemoryWrite s (s.oolState oolKeystore).outAddr (load buf 0 msg.size)
      some (appleSepSimSendMessage cfg s msg.ep (replyTag msg.tag) msg.id 0
        (ofNat 32 (msg.size <<< 16)))

/-! ## The bottom half -/

/-- The body of `apple_sep_sim_handle_messages`, for one message. -/
def handleMessage (msg : Message) : Option AppleSEPSimState :=
  match Endpoint.ofByte (SEPMessage.ofMessage msg).ep with
  | some .control => appleSepSimHandleControlMsg cfg host s msg
  | some .xartSlave => some (appleSepSimHandleXartMsg cfg s msg)
  | some .xartMaster => some (appleSepSimHandleXartMsg cfg s msg)
  | some .keystore => appleSepSimHandleKeystoreMsg cfg host env s msg
  | some .l4info => some (appleSepSimHandleL4info s msg)
  | some .bootstrap => appleSepSimHandleBootstrapMsg cfg env s msg
  -- The other endpoints only log the message, and so does `apple_sep_sim_handle_arts_msg`.
  | _ => some s

/-- `apple_a7iop_mailbox_is_empty`. -/
def isEmpty (m : AppleA7IOPMailbox) : Bool := m.underflow || m.inbox.isEmpty

/-- `apple_sep_sim_handle_messages`, with fuel for the messages that wait. -/
def appleSepSimHandleMessages (host : Host) (fuel : ℕ) (env : ℕ → Env) (s : AppleSEPSimState) :
    Option AppleSEPSimState :=
  if isEmpty (s.a7iop.mailbox .iop) then some s
  else
    match fuel, recvFrom cfg .iop .ap s.a7iop with
    | fuel + 1, (p, some msg) =>
      (handleMessage cfg host (env 0) { s with a7iop := p } msg).bind
        (appleSepSimHandleMessages host fuel fun k => env (k + 1))
    | _, _ => none

/-- What happens to the device. -/
inductive Op
  | send (msg : Message)
  /-- The bottom half runs, and finds these surroundings message by message. -/
  | handle (env : ℕ → Env)

/-- One step of the device. -/
def step : Op → Option AppleSEPSimState
  | .send msg => some { s with a7iop := sendTo cfg .iop .ap msg s.a7iop }
  | .handle env =>
    let s := { s with a7iop := A7iop.step cfg s.a7iop .bottomHalf }
    appleSepSimHandleMessages cfg host (s.a7iop.mailbox .iop).inbox.length env s

end

end Handlers

/-! ## Reset -/

/-- The buffers that an endpoint is advertised with. -/
def oolInfoOf : Endpoint → AppleSEPSimOOLInfo
  | .logger => ⟨0, 0, 1, 1⟩
  | .artStorage => ⟨1, 1, 1, 1⟩
  | .artRequests => ⟨1, 1, 1, 1⟩
  | .debug => ⟨1, 1, 1, 1⟩
  | .unitTesting => ⟨1, 1, 1, 1⟩
  | .hilo => ⟨0, 0, 0, 0⟩
  | _ => ⟨2, 2, 2, 2⟩

def bootstrapOpAnnounceStatus : UInt8 := 210

def appleSepSimResetHold (cfg : Config) (s : AppleSEPSimState) : AppleSEPSimState :=
  let s := { s with
    a7iop := A7iop.step cfg s.a7iop .enable
    oolInfo := appleSepSimEps.foldl (fun info e => update info e.2.1 (oolInfoOf e.1)) s.oolInfo
    status := .bootstrap }
  sendAp cfg s (SEPMessage.toMessage
    ⟨Endpoint.bootstrap.byte, 0, bootstrapOpAnnounceStatus, 0, s.status.word⟩)

/-- The coprocessor of `apple_sep_sim_from_node`. -/
def sepConfig (version : AppleA7IOPVersion) : Config := ⟨"SEP", version, true⟩

/-- The device after `apple_sep_sim_from_node` and the reset of the machine. -/
def appleSepSimNew (cfg : Config) : AppleSEPSimState :=
  appleSepSimResetHold cfg
    { a7iop := started cfg
      rsep := false
      status := .sleeping
      oolInfo := fun _ => ⟨0, 0, 0, 0⟩
      oolState := fun _ => ⟨0, 0, 0, 0⟩
      reads := []
      writes := [] }

end Inferno.SepSim
