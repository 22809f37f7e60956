import Inferno.A7iop.Model

/-!
# The RTKit model

`hw/misc/apple-silicon/a7iop/rtkit.c` on top of the mailbox pair, with the power control of
`a7iop/core.c` and the registers of the coprocessor that reach it. The management endpoint
negotiates a protocol version with the application processor, calls the roll of the endpoints and
follows the power states; the messages of the other endpoints go to the device that the coprocessor
stands for.

The device is a parameter: its state is `δ`, and what its handlers and hooks do to the coprocessor
is to send messages of user endpoints. An assertion that fails, of the management endpoint or of a
handler of the device, is `none`. The table of the endpoints is a list of pairs, in the order in
which the dictionary yields them, with each key once; its lookup is a parameter with laws.
-/

namespace Inferno.Rtkit

open A7iop Common BitVec

/-! ## Messages -/

/-- `AppleRTKitMessage.msg`. -/
def msgOf (msg : Message) : BitVec 64 := msg.load 0 8

/-- `AppleRTKitMessage.endpoint`. -/
def endpointOf (msg : Message) : BitVec 32 := (msg.load 8 4).setWidth 32

/-- `apple_rtkit_construct_msg`. -/
def constructMsg (ep : BitVec 8) (data : BitVec 64) : Message :=
  (Message.store (fun _ => 0) 8 (leBytes 4 ep.toNat)).store 0 (leBytes 8 data.toNat)

/-- The types of management messages that are handled. -/
inductive MgmtType
  | helloAck
  | ping
  | reqPower
  | rollcall
  | apPower
  /-- Every other type. -/
  | other
  deriving DecidableEq

/-- `type` of an `AppleRTKitManagementMessage`. -/
def mgmtType (raw : BitVec 64) : MgmtType :=
  match (raw.extractLsb' 52 4).toNat with
  | 2 => .helloAck
  | 3 => .ping
  | 6 => .reqPower
  | 8 => .rollcall
  | 11 => .apPower
  | _ => .other

/-- `hello_ack.min_version`. -/
def minVersion (raw : BitVec 64) : BitVec 16 := raw.extractLsb' 0 16

/-- `hello_ack.max_version`. -/
def maxVersion (raw : BitVec 64) : BitVec 16 := raw.extractLsb' 16 16

def getPstate (raw : BitVec 64) : BitVec 64 := raw &&& 0xFFF

/-- A field of a management message, at the bit `start`. -/
def field {n : ℕ} (start : ℕ) (value : BitVec n) : BitVec 64 := value.setWidth 64 <<< start

variable (type : BitVec 4)

/-- A management message of the given `type`, with its other fields. -/
def mgmtMsg (fields : BitVec 64) : BitVec 64 := fields ||| field 52 type

/-- A message of the type `MSG_HELLO`. -/
def helloMsg (min_version max_version : BitVec 16) : BitVec 64 :=
  mgmtMsg 1 (field 0 min_version ||| field 16 max_version)

/-- A message of the type `MSG_TYPE_PING_ACK`. -/
def pingAckMsg (seg : BitVec 32) (timestamp : BitVec 16) : BitVec 64 :=
  mgmtMsg 4 (field 0 seg ||| field 32 timestamp)

/-- A message about power states, of the type `MSG_TYPE_POWER_ACK` or `MSG_TYPE_AP_POWER`. -/
def powerMsg (state : BitVec 32) : BitVec 64 := mgmtMsg type (field 0 state)

/-- A message of the roll call of version 10 (`rollcall_v10`). -/
def rollcallV10Msg (mask : BitVec 52) : BitVec 64 := mgmtMsg 8 (field 0 mask)

/-- A message of the roll call of version 11 (`rollcall_v11`). -/
structure RollcallV11 where
  mask : BitVec 32
  block : BitVec 6
  last : Bool
  deriving DecidableEq

/-- The message as a word. -/
def RollcallV11.raw (m : RollcallV11) : BitVec 64 :=
  mgmtMsg 8 (field 0 m.mask ||| field 32 m.block ||| field 51 (BitVec.ofBool m.last))

/-! ## State -/

/-- A message of a user endpoint, which `apple_rtkit_send_user_msg` asserts to be below `224`. -/
abbrev UserMsg := Fin 224 × BitVec 64

/-- What the device does when it is called: its next state, and the messages that it sends. -/
abbrev Action (δ : Type) := δ → δ × List UserMsg

inductive AppleRTKitEPHandler (δ : Type)
  /-- `apple_rtkit_mgmt_handle_msg`. -/
  | mgmt
  /-- A handler of the device, `none` where one of its assertions fails. -/
  | device (f : BitVec 8 → BitVec 64 → δ → Option (δ × List UserMsg))

structure AppleRTKitEPData (δ : Type) where
  /-- `handler`, `none` for `NULL`. -/
  handler : Option (AppleRTKitEPHandler δ)
  user : Bool

/-- `AppleRTKitEPTable` after `apple_rtkit_init` and the registrations of the device. -/
structure AppleRTKitEPTable (δ : Type) where
  /-- The pairs, in the order of an iteration. -/
  pairs : List (BitVec 8 × AppleRTKitEPData δ)
  nodup : (pairs.map Prod.fst).Nodup
  management : (0, ⟨some .mgmt, false⟩) ∈ pairs
  crashlog : (1, ⟨none, false⟩) ∈ pairs
  /-- `AppleRTKitEPTable_get`, whose key has 16 bits. -/
  get : BitVec 16 → Option (AppleRTKitEPData δ)
  /-- What is registered is found. -/
  get_of_mem : ∀ e ∈ pairs, get (e.1.setWidth 16) = some e.2
  /-- What is not registered is not found, but for the two keys that the dictionary reserves. -/
  get_of_not_mem : ∀ key, key ≠ 0xFFFF → key ≠ 0xFFFE → (∀ e ∈ pairs, e.1.setWidth 16 ≠ key) →
    get key = none

variable {δ : Type}

variable (t : AppleRTKitEPTable δ)

/-- The registered endpoints, in the order of an iteration. -/
def AppleRTKitEPTable.keys : List ℕ := t.pairs.map fun e => e.1.toNat

/-- What `apple_rtkit_init` and `apple_rtkit_register_user_ep` are given. -/
structure Config (δ : Type) where
  /-- The arguments of `apple_a7iop_init`. -/
  a7iop : A7iop.Config
  endpoints : AppleRTKitEPTable δ
  start : Option (Action δ)
  wakeup : Option (Action δ)
  boot_done : Option (Action δ)

inductive EP0Status
  | idle
  | waitHello
  | waitRollcall
  deriving DecidableEq

/-- `AppleRTKit`, with the state of its device. -/
structure AppleRTKit (δ : Type) where
  a7iop : AppleA7IOP
  cpu_status : BitVec 32
  cpu_ctrl : BitVec 32
  ep0_status : EP0Status
  protocol_version : BitVec 32
  /-- `rollcall`: the messages of the roll call that are still to be sent. -/
  rollcall : List RollcallV11
  device : δ

variable (cfg : Config δ)

/-- The coprocessor that `apple_rtkit_init` makes. -/
def init (device : δ) : AppleRTKit δ where
  a7iop := A7iop.init cfg.a7iop
  cpu_status := 0
  cpu_ctrl := 0
  ep0_status := .idle
  protocol_version := 0
  rollcall := []
  device := device

/-! ## Sending -/

section

variable (cfg : Config δ) (ep : BitVec 8) (data : BitVec 64) (s : AppleRTKit δ)

/-- `apple_rtkit_send_msg`, and `apple_rtkit_send_control_msg` for the management endpoint. -/
def sendMsg : AppleRTKit δ :=
  { s with a7iop := sendTo cfg.a7iop .ap .iop (constructMsg ep data) s.a7iop }

def sendUserMsg (m : UserMsg) : AppleRTKit δ :=
  sendMsg cfg (BitVec.ofNat 8 (m.1 + 32)) m.2 s

/-- The device is called. -/
def perform (act : Action δ) (s : AppleRTKit δ) : AppleRTKit δ :=
  (act s.device).2.foldl (sendUserMsg cfg) { s with device := (act s.device).1 }

/-- One of the hooks of `ops` is called, if it is there. -/
def callHook (hook : Option (Action δ)) (s : AppleRTKit δ) : AppleRTKit δ :=
  match hook with
  | none => s
  | some act => perform cfg act s

/-! ## Power -/

def CPU_STATUS_IDLE : BitVec 32 := 1

def CPU_CTRL_RUN : BitVec 32 := twoPow 32 4

def SEP_BOOT_MONITOR_RUN : BitVec 32 := twoPow 32 16

def RTKIT_MIN_VERSION : BitVec 16 := 3

def RTKIT_MAX_VERSION_PRE_IOS14 : BitVec 16 := 10

def RTKIT_MAX_VERSION : BitVec 16 := 12

def mgmtSendHello : AppleRTKit δ :=
  { sendMsg cfg 0 (helloMsg RTKIT_MIN_VERSION RTKIT_MAX_VERSION) s with ep0_status := .waitHello }

/-- `apple_rtkit_iop_start`. -/
def iopStart : AppleRTKit δ :=
  mgmtSendHello cfg (callHook cfg cfg.start s)

/-- `apple_rtkit_iop_wakeup`. -/
def iopWakeup : AppleRTKit δ :=
  mgmtSendHello cfg (callHook cfg cfg.wakeup s)

/-- `apple_a7iop_cpu_start` returns at once. -/
def AlreadyAwake (cpu_status cpu_ctrl : BitVec 32) : Prop :=
  cpu_ctrl &&& SEP_BOOT_MONITOR_RUN = 0 ∧ cpu_status &&& CPU_STATUS_IDLE = 0

instance (cpu_status cpu_ctrl : BitVec 32) : Decidable (AlreadyAwake cpu_status cpu_ctrl) :=
  inferInstanceAs (Decidable (_ ∧ _))

/-- `apple_a7iop_cpu_start`. -/
def cpuStart (wake : Bool) (s : AppleRTKit δ) : AppleRTKit δ :=
  if AlreadyAwake s.cpu_status s.cpu_ctrl then s
  else
    let s := { s with cpu_status := s.cpu_status &&& ~~~CPU_STATUS_IDLE }
    if wake then iopWakeup cfg s else iopStart cfg s

/-- `apple_a7iop_set_cpu_ctrl`. -/
def setCpuCtrl (value : BitVec 32) (s : AppleRTKit δ) : AppleRTKit δ :=
  let s := { s with cpu_ctrl := value }
  if value &&& (CPU_CTRL_RUN ||| SEP_BOOT_MONITOR_RUN) ≠ 0 then cpuStart cfg false s else s

/-! ## The roll call -/

/-- `BIT_ULL`. A shift by 64 or more is undefined; here the count is taken modulo 64. -/
def bitUll (nr : ℕ) : BitVec 64 := twoPow 64 (nr % 64)

/-- The mask that `apple_rtkit_mgmt_rollcall_v10` collects, in a field of 52 bits. -/
def rollcallV10Mask (keys : List ℕ) : BitVec 52 :=
  keys.foldl (fun mask ep => mask ||| (bitUll ep).setWidth 52) 0

def mgmtRollcallV10 : AppleRTKit δ :=
  sendMsg cfg 0 (rollcallV10Msg (rollcallV10Mask cfg.endpoints.keys)) s

/-- The variables of the loop of `apple_rtkit_mgmt_rollcall_v11`. -/
structure V11Loop where
  queue : List RollcallV11
  mask : BitVec 32
  last_block : ℕ

/-- One round of the loop of `apple_rtkit_mgmt_rollcall_v11`. -/
def V11Loop.round (l : V11Loop) (ep : ℕ) : V11Loop :=
  let l :=
    if ep / 32 ≠ l.last_block ∧ l.mask ≠ 0 then
      { l with queue := l.queue ++ [⟨l.mask, BitVec.ofNat 6 l.last_block, false⟩], mask := 0 }
    else l
  { l with last_block := ep / 32, mask := l.mask ||| twoPow 32 (ep % 32) }

/-- The messages that `apple_rtkit_mgmt_rollcall_v11` queues. -/
def rollcallV11Msgs (keys : List ℕ) : List RollcallV11 :=
  let l := keys.foldl V11Loop.round ⟨[], 0, 0⟩
  l.queue ++ [⟨l.mask, BitVec.ofNat 6 l.last_block, true⟩]

/-- The first message of the roll call that is queued is taken off the queue and sent. -/
def sendRollcall : AppleRTKit δ :=
  match s.rollcall with
  | [] => s
  | m :: rest => sendMsg cfg 0 m.raw { s with rollcall := rest }

/-- `apple_rtkit_mgmt_rollcall_v11`, which asserts that the queue is empty. -/
def mgmtRollcallV11 : Option (AppleRTKit δ) :=
  if s.rollcall = [] then
    some (sendRollcall cfg { s with rollcall := rollcallV11Msgs cfg.endpoints.keys })
  else none

/-! ## The management endpoint -/

/-- The acknowledgement asks for a version range of older systems. -/
def WantsOlder (raw : BitVec 64) : Prop := minVersion raw = 0xFFFF ∧ maxVersion raw = 0xBAD

instance (raw : BitVec 64) : Decidable (WantsOlder raw) := inferInstanceAs (Decidable (_ ∧ _))

/-- `MSG_HELLO_ACK` in `apple_rtkit_mgmt_handle_msg`. -/
def handleHelloAck (raw : BitVec 64) (s : AppleRTKit δ) : Option (AppleRTKit δ) :=
  if s.ep0_status ≠ .waitHello then none
  else if WantsOlder raw then
    some (sendMsg cfg 0 (helloMsg RTKIT_MIN_VERSION RTKIT_MAX_VERSION_PRE_IOS14) s)
  else
    let s := { s with protocol_version := (maxVersion raw).setWidth 32 }
    let s := if (maxVersion raw).toNat ≤ 10 then some (mgmtRollcallV10 cfg s)
      else mgmtRollcallV11 cfg s
    s.map fun s => { s with ep0_status := .waitRollcall }

/-- `MSG_TYPE_REQ_POWER` in `apple_rtkit_mgmt_handle_msg`, with `PSTATE_ON`, and with
`PSTATE_SLEEP`, `PSTATE_OFF` and `PSTATE_PWRGATE`. -/
def handleReqPower (raw : BitVec 64) (s : AppleRTKit δ) : AppleRTKit δ :=
  if getPstate raw = 0x220 then cpuStart cfg true s
  else if getPstate raw = 0x201 ∨ getPstate raw = 0x202 ∨ getPstate raw = 0 then
    sendMsg cfg ep (powerMsg 7 ((getPstate raw).setWidth 32))
      { s with cpu_status := s.cpu_status ||| CPU_STATUS_IDLE }
  else s

/-- `MSG_TYPE_ROLLCALL` in `apple_rtkit_mgmt_handle_msg`. -/
def handleRollcall : Option (AppleRTKit δ) :=
  if s.ep0_status ≠ .waitRollcall then none
  else if s.rollcall = [] then
    some (callHook cfg cfg.boot_done
      (sendMsg cfg ep (powerMsg 7 32) { s with ep0_status := .idle }))
  else some (sendRollcall cfg s)

def mgmtHandleMsg (raw : BitVec 64) (s : AppleRTKit δ) : Option (AppleRTKit δ) :=
  match mgmtType raw with
  | .helloAck => handleHelloAck cfg raw s
  | .ping => some (sendMsg cfg ep (pingAckMsg (raw.extractLsb' 0 32) (raw.extractLsb' 32 16)) s)
  | .apPower => some (sendMsg cfg ep (powerMsg 11 (raw.extractLsb' 0 32)) s)
  | .reqPower => some (handleReqPower cfg ep raw s)
  | .rollcall => handleRollcall cfg ep s
  | .other => some s

/-! ## The message pump -/

/-- The call of a handler: the handler, and what it is called with. -/
structure Delivery (δ : Type) where
  handler : AppleRTKitEPHandler δ
  /-- The endpoint, without `EP_USER_START` where it is a user endpoint. -/
  ep : BitVec 8
  msg : BitVec 64

/-- The call that a message leads to. The key of the table has 16 bits, the argument 8. -/
def delivery (msg : Message) : Option (Delivery δ) := do
  let data ← cfg.endpoints.get ((endpointOf msg).setWidth 16)
  let handler ← data.handler
  let ep := if data.user then endpointOf msg - 32 else endpointOf msg
  return ⟨handler, ep.setWidth 8, msgOf msg⟩

/-- The handler is called. -/
def deliver (d : Delivery δ) (s : AppleRTKit δ) : Option (AppleRTKit δ) :=
  match d.handler with
  | .mgmt => mgmtHandleMsg cfg d.ep d.msg s
  | .device f => (f d.ep d.msg s.device).map fun r => perform cfg (fun _ => r) s

/-- The handler of the endpoint is called, if there is one. -/
def dispatch (msg : Message) (s : AppleRTKit δ) : Option (AppleRTKit δ) :=
  match delivery cfg msg with
  | none => some s
  | some d => deliver cfg d s

end

/-- `apple_a7iop_mailbox_is_empty`. -/
def mailboxIsEmpty (m : AppleA7IOPMailbox) : Bool := m.underflow || m.inbox.isEmpty

/-- How `apple_rtkit_handle_messages_bh` ends. -/
inductive Pumped (δ : Type)
  /-- It returns, after some calls of handlers. -/
  | returned (s : AppleRTKit δ) (calls : List (Delivery δ))
  /-- It dereferences the `NULL` that `apple_a7iop_recv_iop` returned. -/
  | nullDeref
  /-- An assertion of a handler fails. -/
  | aborted
  /-- It did not return in so many rounds. -/
  | running

/-- `apple_rtkit_handle_messages_bh`, with a bound on the rounds of the loop. -/
def pump (cfg : Config δ) : ℕ → AppleRTKit δ → List (Delivery δ) → Pumped δ
  | 0, _, _ => .running
  | fuel + 1, s, calls =>
    if mailboxIsEmpty (s.a7iop.mailbox .iop) then .returned s calls
    else
      match recvFrom cfg.a7iop .iop .ap s.a7iop with
      | (_, none) => .nullDeref
      | (p, some msg) =>
        match dispatch cfg msg { s with a7iop := p } with
        | none => .aborted
        | some s => pump cfg fuel s (calls ++ (delivery cfg msg).toList)

/-! ## Steps -/

variable (s : AppleRTKit δ)

/-- `apple_rtkit_reset_hold`, and the reset of the parent. -/
def reset : AppleRTKit δ :=
  { s with
    cpu_status := CPU_STATUS_IDLE, ep0_status := .idle, protocol_version := 0, rollcall := [] }

section

variable (cfg : Config δ) (addr : ℕ) (data : BitVec 64) (s : AppleRTKit δ)

/-- `apple_a7iop_v2_reg_write` and `apple_a7iop_v4_reg_write`. -/
def a7iopRegWrite : AppleRTKit δ :=
  if addr = 0x44 then setCpuCtrl cfg (data.setWidth 32) s
  else if addr = 0x48 ∧ cfg.a7iop.version = .v2 then { s with cpu_status := data.setWidth 32 }
  else { s with a7iop := a7iopWrite cfg.a7iop addr data s.a7iop }

/-- The inbox of the coprocessor. -/
def AppleRTKit.iopInbox : List Message := (s.a7iop.mailbox .iop).inbox

/-- Everything that can happen to the coprocessor. -/
inductive Op (δ : Type)
  /-- An operation on the mailboxes, or on the registers of the coprocessor. -/
  | a7iop (op : A7iop.Op)
  /-- The device does something of its own accord. -/
  | device (act : Action δ)
  | reset

/-- The operation runs `apple_rtkit_handle_messages_bh`: its bottom half is scheduled and called. -/
def runsPump : Op δ → Bool
  | .a7iop .bottomHalf => (s.a7iop.mailbox .iop).handle_messages_bh == some true
  | _ => false

/-- The state in which the bottom half begins, no longer scheduled. -/
def entered : AppleRTKit δ :=
  { s with a7iop := A7iop.step cfg.a7iop s.a7iop .bottomHalf }

/-- One step of the coprocessor, `none` when the bottom half does not return. A message is taken off
the inbox in every round, which bounds their number. -/
def step (op : Op δ) : Option (AppleRTKit δ) :=
  if runsPump s op then
    match pump cfg (s.iopInbox.length + 1) (entered cfg s) [] with
    | .returned s' _ => some s'
    | _ => none
  else
    match op with
    | .a7iop (.a7iopWrite addr data) => some (a7iopRegWrite cfg addr data s)
    | .a7iop op => some { s with a7iop := A7iop.step cfg.a7iop s.a7iop op }
    | .device act => some (perform cfg act s)
    | .reset => some (reset s)

end

end Inferno.Rtkit
