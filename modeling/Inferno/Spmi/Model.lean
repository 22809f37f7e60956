import Inferno.Fifo32

/-!
# The SPMI controller

The queue and control registers of `hw/spmi/apple_spmi.c`. The guest writes request words to the
register `SPMI_REQ_QUEUE_PUSH`. A write request is followed by its data words, which are collected
until there are enough of them and sent to the slave; a read request is answered at once. The
answers are words in the response queue, which the guest pops through `SPMI_RSP_QUEUE_POP`.

What the slaves do is an argument of every register write: what `spmi_start_transfer`, `spmi_recv`
and `spmi_send` return during that access. A failed assertion has no result, and neither has a store
behind the allocation of the data words. The version of the registers is asserted not to be 0 at
creation, and versions other than 0 and 1 are marked as not reached.
-/

namespace Inferno.Spmi

open Common Fifo32

/-- The 64 words of a register window. -/
abbrev Registers := Fin 64 → BitVec 32

/-- The layouts of the queue registers. -/
inductive RegVers where
  | v0 | v1
  deriving DecidableEq

/-- `AppleSPMIState`, with the level of the interrupt line. -/
structure AppleSPMIState where
  irq : Bool
  respFifo : Fifo8
  controlReg : Registers
  queueReg : Registers
  /-- The interrupt that a response raises. -/
  respIntrIndex : Fin 288
  regVers : RegVers
  /-- The data words of a write request that is not complete, `none` for `NULL`. -/
  data : Option (List (BitVec 32))
  /-- How many data words there are to be. -/
  dataLength : ℕ
  /-- How many of them have been written. -/
  dataFilled : ℕ
  command : BitVec 32

/-- What the slaves do during an access. -/
structure Bus where
  /-- What `spmi_start_transfer` returns for a slave, an opcode and an address. -/
  start : BitVec 8 → BitVec 8 → BitVec 16 → BitVec 32
  /-- What `spmi_recv` returns for a length, and the bytes it fills in. -/
  recv : ℕ → BitVec 32 × List UInt8
  /-- What `spmi_send` returns for the bytes sent. -/
  send : List UInt8 → BitVec 32

/-! ## Request words -/

/-- `SPMI_CMD_EXT_WRITE`. -/
def extWrite : BitVec 8 := 0x00

/-- `SPMI_CMD_EXT_READ`. -/
def extRead : BitVec 8 := 0x20

/-- `SPMI_CMD_EXT_WRITEL`. -/
def extWriteL : BitVec 8 := 0x30

/-- `SPMI_CMD_EXT_READL`. -/
def extReadL : BitVec 8 := 0x38

variable (request : BitVec 32)

def reqSid : BitVec 8 := ((request >>> 8) &&& 0xf).setWidth 8

/-- The bit `SPMI_REQ_FINAL`. -/
def reqFinal : Bool := request.getLsbD 15

def spmiOpcode : BitVec 8 :=
  if (request >>> 4) &&& 0xf = 1 then (request &&& 0xff).setWidth 8
  else (request &&& 0xf8).setWidth 8

def spmiDataLength : ℕ :=
  if (request >>> 4) &&& 0xf = 1 then 0 else (request &&& 0x7).toNat + 1

def spmiAddress : BitVec 16 :=
  if spmiOpcode request ∈ [extWrite, extRead, extWriteL, extReadL] then
    ((request >>> 16) &&& 0xffff).setWidth 16
  else ((request >>> 16) &&& 0xff).setWidth 16

/-- The request is followed by data words. -/
def isWrite : Bool :=
  spmiOpcode request = extWrite ∨ spmiOpcode request = extWriteL

/-- The words that the data of a request takes. -/
def dataWords : ℕ := (spmiDataLength request + 3) / 4

/-! ## Interrupts -/

variable (regVers : RegVers)

/-- The status register of a bank. -/
def intStatus (bank : ℕ) : Fin 64 :=
  match regVers with
  | .v0 => Fin.ofNat 64 ((0x40 + bank * 4) / 4)
  | .v1 => Fin.ofNat 64 ((0x60 + bank * 4) / 4)

/-- The enable register of a bank. -/
def intEnab (bank : ℕ) : Fin 64 := Fin.ofNat 64 ((0x20 + bank * 4) / 4)

variable (s : AppleSPMIState)

def appleSpmiUpdateIrq : AppleSPMIState :=
  { s with
    irq := (List.range 9).any fun bank =>
      s.queueReg (intStatus s.regVers bank) &&& s.queueReg (intEnab bank) ≠ 0 }

def appleSpmiSetIrq (irq : Fin 288) (level : Bool) : AppleSPMIState :=
  let status := intStatus s.regVers (irq / 32)
  let bit := BitVec.twoPow 32 (irq % 32)
  let value := if level then s.queueReg status ||| bit else s.queueReg status &&& ~~~bit
  appleSpmiUpdateIrq { s with queueReg := fun i => if i = status then value else s.queueReg i }

/-- `apple_spmi_update_queues_status`: the line of the responses is wired back to an interrupt. -/
def appleSpmiUpdateQueuesStatus : AppleSPMIState :=
  appleSpmiSetIrq s s.respIntrIndex (!fifo32IsEmpty s.respFifo)

/-! ## The queue registers -/

/-- The offset of `SPMI_REQ_QUEUE_PUSH`, in words. -/
def reqQueuePush : Fin 64 := 1

/-- The offset of `SPMI_RSP_QUEUE_POP`, in words. -/
def rspQueuePop : Fin 64 := 2

/-- The offset of `SPMI_QUEUE_STATUS`, in words. -/
def queueStatus : Fin 64 := 0

def statusReqEmpty : BitVec 32 := 0x100

def statusRspEmpty : BitVec 32 := 0x1000000

variable (index : Fin 64) (value : BitVec 32)

/-- The end of a queue register write: the register is stored, and what `qflg` and `iflg` ask for is
updated. -/
def finishWrite (qflg iflg : Bool) : AppleSPMIState :=
  let s := { s with queueReg := fun i => if i = index then value else s.queueReg i }
  let s := if qflg then appleSpmiUpdateQueuesStatus s else s
  if iflg then appleSpmiUpdateIrq s else s

/-- The words that `spmi_recv` has filled a buffer of zeros with. -/
def recvWords (bytes : List UInt8) (len : ℕ) : List (BitVec 32) :=
  let buffer := bytes.take len ++ List.replicate (len + 3) 0
  (List.range ((len + 3) / 4)).map fun i => BitVec.ofNat 32 (ofLe ((buffer.drop (4 * i)).take 4))

/-- The first word of the answer to a read: the low bits of the request and a bit for each byte. -/
def ackWord (request count : BitVec 32) : BitVec 32 :=
  let ack : BitVec 8 :=
    if count.toInt > 0 then (~~~(BitVec.allOnes 32 <<< count.toNat)).setWidth 8 else 0
  (request &&& 0xFFF) ||| (ack.setWidth 32 <<< 16)

/-- What a request word does before the slave is asked: it is kept, and room is made for the data
words of a write. -/
def openRequest : AppleSPMIState :=
  if isWrite value then
    { s with command := value, dataLength := dataWords value, dataFilled := 0,
             data := some (List.replicate (dataWords value) 0) }
  else { s with command := value }

variable (bus : Bus)

/-- The slave takes the request. -/
def Bus.accepts (request : BitVec 32) : Bool :=
  bus.start (reqSid request) (spmiOpcode request) (spmiAddress request) = 0

/-- The answer to a request with data that is no write: it is asserted to be a read, and pushed to
the response queue. -/
def answerRequest : Option AppleSPMIState :=
  if spmiOpcode value = extRead ∨ spmiOpcode value = extReadL then
    let len := spmiDataLength value
    let reply := bus.recv len
    let ack := ackWord value reply.1
    ((ack :: recvWords reply.2 len).foldlM fifo32Push s.respFifo).map fun fifo =>
      finishWrite { s with respFifo := fifo } reqQueuePush ack (reqFinal value) (reqFinal value)
  else none

/-- A request word, when no data word is waited for. When the slave does not take the request, the
function returns at once. -/
def newRequest : Option AppleSPMIState :=
  let s := openRequest s value
  if ¬ bus.accepts value then some s
  else if s.data.isNone ∧ spmiDataLength value ≠ 0 then answerRequest s value bus
  else
    let final := s.data.isNone && reqFinal value
    some (finishWrite s reqQueuePush value final final)

variable (data : List (BitVec 32))

/-- The bytes of the data words. -/
def dataBytes : List UInt8 := data.flatMap fun w => leBytes 4 w.toNat

/-- A data word of the request whose words are `data`. -/
def dataWord (value : BitVec 32) (bus : Bus) : Option AppleSPMIState :=
  if s.dataFilled < data.length then
    let data := data.set s.dataFilled value
    let filled := s.dataFilled + 1
    if s.dataLength ≤ filled then
      let requested := spmiDataLength s.command
      let count := bus.send ((dataBytes data).take requested)
      let done : BitVec 32 := if count = BitVec.ofNat 32 requested then 1 else 0
      (fifo32Push s.respFifo ((s.command &&& 0xFFF) ||| (done <<< 15))).map fun fifo =>
        finishWrite { s with respFifo := fifo, data := none, dataLength := 0, dataFilled := filled }
          reqQueuePush value (reqFinal s.command) (reqFinal s.command)
    else
      some (finishWrite { s with data := some data, dataFilled := filled } reqQueuePush value
        false false)
  else none

/-- `apple_spmi_queue_reg_write` of a word. -/
def appleSpmiQueueRegWrite : Option AppleSPMIState :=
  if index = reqQueuePush then
    match s.data with
    | none => newRequest s value bus
    | some data => dataWord s data value bus
  else if intEnab 0 ≤ index ∧ index ≤ intEnab 8 then some (finishWrite s index value false true)
  else if intStatus .v1 0 ≤ index ∧ index ≤ intStatus .v1 8 then
    some (finishWrite s index (s.queueReg index &&& ~~~value) false true)
  else some (finishWrite s index value false false)

/-- `apple_spmi_queue_reg_read` of a word: the value and the state after it. -/
def appleSpmiQueueRegRead : Option (BitVec 32 × AppleSPMIState) :=
  if index = rspQueuePop then
    if fifo32IsEmpty s.respFifo then
      some (0, appleSpmiUpdateIrq (appleSpmiUpdateQueuesStatus s))
    else
      (fifo32Pop s.respFifo).map fun (value, fifo) =>
        (value, appleSpmiUpdateIrq (appleSpmiUpdateQueuesStatus { s with respFifo := fifo }))
  else if index = queueStatus then
    let value := (s.queueReg index &&& ~~~(statusReqEmpty ||| statusRspEmpty)) ||| statusReqEmpty
    some (if fifo32IsEmpty s.respFifo then value ||| statusRspEmpty else value, s)
  else some (s.queueReg index, s)

/-! ## The control registers -/

/-- The offset of `SPMI_CONTROL_QUEUE_RESET`, in words. -/
def controlQueueReset : Fin 64 := 5

/-- `apple_spmi_control_write` of a word. -/
def appleSpmiControlWrite : AppleSPMIState :=
  if index = controlQueueReset then
    let (s, value) := if value.getLsbD 1 then
        ({ s with respFifo := fifo32Reset s.respFifo }, value &&& ~~~2)
      else (s, value)
    appleSpmiUpdateQueuesStatus
      { s with controlReg := fun i => if i = index then value &&& ~~~1 else s.controlReg i }
  else { s with controlReg := fun i => if i = index then value else s.controlReg i }

/-! ## Creation and reset -/

/-- `apple_spmi_reset_enter` and `apple_spmi_reset_exit`. -/
def appleSpmiReset : AppleSPMIState :=
  appleSpmiUpdateIrq (appleSpmiUpdateQueuesStatus
    { s with controlReg := fun _ => 0, queueReg := fun _ => 0, respFifo := fifo32Reset s.respFifo,
             data := none, dataLength := 0 })

/-- The controller as `apple_spmi_init` leaves it, for a layout and an interrupt of the
responses. -/
def appleSpmiInit (respIntrIndex : Fin 288) : AppleSPMIState :=
  { irq := false, respFifo := fifo32Create 0x100, controlReg := fun _ => 0,
    queueReg := fun _ => 0, respIntrIndex := respIntrIndex, regVers := regVers, data := none,
    dataLength := 0, dataFilled := 0, command := 0 }

end Inferno.Spmi
