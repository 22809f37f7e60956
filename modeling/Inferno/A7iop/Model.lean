import Inferno.Common.Bitmap
import Inferno.Common.Bytes

/-!
# The mailbox pair model

`hw/misc/apple-silicon/a7iop`: the mailbox of the coprocessor (IOP) and the mailbox of the
application processor (AP), which `apple_a7iop_init` connects. Each has an inbox and registers of
its own, and through either of them both inboxes can be reached: `send_iop` and `recv_iop` work on
the inbox of the IOP, `send_ap` and `recv_ap` on that of the AP, whichever mailbox they are called
on. The functions below take the mailbox they are called on as `s`, and the inbox as `d`.

The two sides are treated alike by the source, field by field, so a pair of fields such as
`iop_dir_en` and `ap_dir_en` is one field here, a function of the side. A handler of the messages is
called from a bottom half; what it does to the mailboxes are the calls of the core interface.
-/

namespace Inferno.A7iop

open Common Function BitVec

/-! ## State -/

/-- One of the two processors: its mailbox, or the direction of the messages to it. -/
inductive Side
  | iop
  | ap
  deriving DecidableEq

/-- `AppleA7IOPVersion`: the layout of the registers. -/
inductive AppleA7IOPVersion
  | v2
  | v4
  deriving DecidableEq

/-- What `apple_a7iop_init` is given. -/
structure Config where
  /-- `role`: the name of the coprocessor. -/
  role : String
  version : AppleA7IOPVersion
  /-- `handle_messages_func` is not `NULL`. -/
  handler : Bool

variable (cfg : Config)

/-- The `role` of a mailbox, which begins with the name of the coprocessor. -/
def Config.mailboxRole : Side → String
  | .iop => cfg.role ++ "-iop"
  | .ap => cfg.role ++ "-ap"

theorem Config.mailboxRole_iop_ne : cfg.mailboxRole .iop ≠ "SEP-ap" := by
  intro h
  have hlast := congrArg (fun role => role.toList.reverse) h
  simp [Config.mailboxRole] at hlast

/-- The bytes of a message (`AppleA7IOPMessage`), and of the registers that it passes. -/
abbrev Message := Fin 16 → UInt8

/-- The lines of a mailbox: two for each inbox. -/
structure Lines where
  /-- `APPLE_A7IOP_IRQ_IOP_NONEMPTY` and `APPLE_A7IOP_IRQ_AP_NONEMPTY`. -/
  nonempty : Side → Bool
  /-- `APPLE_A7IOP_IRQ_IOP_EMPTY` and `APPLE_A7IOP_IRQ_AP_EMPTY`. -/
  empty : Side → Bool

/-- `AppleA7IOPMailbox`, with the levels of its lines. -/
structure AppleA7IOPMailbox where
  inbox : List Message
  interrupt_status : List (BitVec 32)
  count : BitVec 32
  /-- `handle_messages_bh`: whether it is scheduled, `none` for `NULL`. -/
  handle_messages_bh : Option Bool
  irqs : Lines
  sep_cpu_irq : Bool
  /-- `iop_dir_en` and `ap_dir_en`. -/
  dir_en : Side → Bool
  underflow : Bool
  int_mask : BitVec 32
  /-- `iop_recv_reg` and `ap_recv_reg`. -/
  recv_reg : Side → Message
  /-- `iop_send_reg` and `ap_send_reg`. -/
  send_reg : Side → Message
  interrupts_enabled : Bitmap
  /-- `iop_nonempty`, `iop_empty`, `ap_nonempty` and `ap_empty`. -/
  flags : Lines
  glb_cfg : BitVec 32
  timer0_enabled : BitVec 32
  timer1_enabled : BitVec 32
  timer0_masked : BitVec 32
  timer1_masked : BitVec 32
  sepd_enabled : BitVec 32

/-- The two mailboxes of an `AppleA7IOP`. -/
structure AppleA7IOP where
  iop_mailbox : AppleA7IOPMailbox
  ap_mailbox : AppleA7IOPMailbox

variable (p : AppleA7IOP)

def AppleA7IOP.mailbox : Side → AppleA7IOPMailbox
  | .iop => p.iop_mailbox
  | .ap => p.ap_mailbox

variable (s : Side) (f : AppleA7IOPMailbox → AppleA7IOPMailbox)

/-- The pair after a change of one of its mailboxes. -/
def AppleA7IOP.modify : AppleA7IOP :=
  match s with
  | .iop => { p with iop_mailbox := f p.iop_mailbox }
  | .ap => { p with ap_mailbox := f p.ap_mailbox }

@[simp]
theorem AppleA7IOP.mailbox_modify_self : (p.modify s f).mailbox s = f (p.mailbox s) := by
  cases s <;> rfl

theorem AppleA7IOP.mailbox_modify_of_ne {s d : Side} (h : d ≠ s)
    (f : AppleA7IOPMailbox → AppleA7IOPMailbox) : (p.modify s f).mailbox d = p.mailbox d := by
  cases s <;> cases d <;> first | rfl | exact absurd rfl h

/-- A mailbox as `apple_a7iop_mailbox_new` makes it, the memory of the device being zeroed. -/
def AppleA7IOPMailbox.new (bh : Option Bool) : AppleA7IOPMailbox where
  inbox := []
  interrupt_status := []
  count := 0
  handle_messages_bh := bh
  irqs := ⟨fun _ => false, fun _ => false⟩
  sep_cpu_irq := false
  dir_en := fun _ => false
  underflow := false
  int_mask := 0
  recv_reg := fun _ _ => 0
  send_reg := fun _ _ => 0
  interrupts_enabled := fun _ => 0
  flags := ⟨fun _ => false, fun _ => false⟩
  glb_cfg := 0
  timer0_enabled := 0
  timer1_enabled := 0
  timer0_masked := 0
  timer1_masked := 0
  sepd_enabled := 0

/-- `apple_a7iop_init`: only the mailbox of the IOP has a handler. -/
def init : AppleA7IOP where
  iop_mailbox := .new (if cfg.handler then some false else none)
  ap_mailbox := .new none

/-! ## Interrupts -/

/-- `IOP_NONEMPTY` and `AP_NONEMPTY`, bits of `int_mask`. -/
def nonemptyBit : Side → BitVec 32
  | .iop => twoPow 32 4
  | .ap => twoPow 32 12

/-- `IOP_EMPTY` and `AP_EMPTY`, bits of `int_mask`. -/
def emptyBit : Side → BitVec 32
  | .iop => twoPow 32 0
  | .ap => twoPow 32 8

/-- `iop_empty_is_unmasked` and its likes. -/
def isUnmasked (int_mask bit : BitVec 32) : Bool := int_mask &&& bit == 0

/-- The lines that `apple_a7iop_mailbox_update_irq_status` computes from the inboxes. -/
def linesOf (int_mask : BitVec 32) : Lines where
  nonempty d :=
    (isUnmasked int_mask (nonemptyBit d) && !(p.mailbox d).inbox.isEmpty) || (p.mailbox d).underflow
  empty d := isUnmasked int_mask (emptyBit d) && (p.mailbox d).inbox.isEmpty

/-- `apple_a7iop_mailbox_update_irq_status`. -/
def updateIrqStatus (p : AppleA7IOP) : AppleA7IOP :=
  p.modify s fun m => { m with irqs := linesOf p m.int_mask, flags := linesOf p m.int_mask }

def IRQ_IOP_NONEMPTY : BitVec 32 := 0x40000

def IRQ_IOP_EMPTY : BitVec 32 := 0x40001

def IRQ_AP_NONEMPTY : BitVec 32 := 0x40002

def IRQ_AP_EMPTY : BitVec 32 := 0x40003

def IRQ_SEP_TIMER0 : BitVec 32 := 0x70001

def IRQ_SEP_TIMER1 : BitVec 32 := 0x70009

/-- A timer is enabled (`REG_KIC_TMR_EN_MASK`) and not masked (`REG_KIC_TMR_INT_MASK_MASK`). -/
def timerFires (enabled masked : BitVec 32) : Bool := enabled &&& 0xE == 0xE && masked &&& 2 == 0

variable (m : AppleA7IOPMailbox) (status : BitVec 32)

def isInterruptEnabled : Bool :=
  if m.sepd_enabled = 0 then false
  else if status &&& 0xF0000 = 0x10000 ∧ m.glb_cfg &&& 1 ≠ 0 then
    testBit32 m.interrupts_enabled (status &&& 0x7F).toNat
  else if status = IRQ_IOP_NONEMPTY then m.flags.nonempty .iop
  else if status = IRQ_IOP_EMPTY then m.flags.empty .iop
  else if status = IRQ_AP_NONEMPTY then m.flags.nonempty .ap
  else if status = IRQ_AP_EMPTY then m.flags.empty .ap
  else if status = IRQ_SEP_TIMER0 then timerFires m.timer0_enabled m.timer0_masked
  else if status = IRQ_SEP_TIMER1 then timerFires m.timer1_enabled m.timer1_masked
  else true

def interruptStatusEmpty : Bool :=
  !m.interrupt_status.any (isInterruptEnabled m)

/-- The part of `apple_a7iop_mailbox_update_irq` that is about the mailbox it is called on. -/
def updateOwnIrq (p : AppleA7IOP) : AppleA7IOP :=
  let p := updateIrqStatus s p
  if cfg.mailboxRole s = "SEP-iop" then
    p.modify s fun m => { m with
      sep_cpu_irq := m.flags.nonempty .iop || m.flags.empty .iop || m.flags.nonempty .ap ||
        m.flags.empty .ap || !interruptStatusEmpty m }
  else p

/-- `apple_a7iop_mailbox_update_irq`, which goes on with the mailbox of the IOP when it is called on
the AP mailbox of the SEP. The role of the IOP mailbox is never `SEP-ap`, so it ends there. -/
def updateIrq (p : AppleA7IOP) : AppleA7IOP :=
  let p := updateOwnIrq cfg s p
  if cfg.mailboxRole s = "SEP-ap" then updateOwnIrq cfg .iop p else p

/-! ## Messages -/

variable (msg : Message)

/-- The bytes of a message in memory. -/
def Message.image : ℕ → UInt8 := fun a => if h : a < 16 then msg ⟨a, h⟩ else 0

/-- The message with some bytes copied over those at `off`. -/
def Message.store (off : ℕ) (bytes : List UInt8) : Message := fun i =>
  Store.apply msg.image ⟨off, bytes⟩ i

/-- The first `size` bytes at `off`, as a word. -/
def Message.load (off size : ℕ) : BitVec 64 :=
  BitVec.ofNat 64 (ofLe (Common.load msg.image off size))

def ctrlCount (v : BitVec 32) : BitVec 32 := (v <<< 20) &&& (15 <<< 20)

variable (d : Side)

section

variable (d s : Side) (msg : Message) (p : AppleA7IOP)

/-- `apple_a7iop_mailbox_send`. -/
def send : AppleA7IOP :=
  let p := p.modify d fun m => { m with inbox := m.inbox ++ [msg], count := m.count + 1 }
  let p := updateIrq cfg d p
  p.modify d fun m => { m with handle_messages_bh := m.handle_messages_bh.map fun _ => true }

/-- `apple_a7iop_mailbox_send_iop` and `apple_a7iop_mailbox_send_ap`. -/
def sendTo : AppleA7IOP :=
  if (p.mailbox s).dir_en d then send cfg d msg p else p

/-- `apple_a7iop_mailbox_recv`. The last four bytes of the message are replaced by the number of
messages that were queued. -/
def recv : AppleA7IOP × Option Message :=
  let m := p.mailbox d
  if m.underflow then (p, none)
  else
    match m.inbox with
    | [] => (updateIrq cfg d (p.modify d fun m => { m with underflow := true }), none)
    | msg :: rest =>
      (updateIrq cfg d (p.modify d fun m => { m with inbox := rest, count := m.count - 1 }),
        some (msg.store 0xC (leBytes 4 (ctrlCount m.count).toNat)))

/-- `apple_a7iop_mailbox_recv_iop` and `apple_a7iop_mailbox_recv_ap`. -/
def recvFrom : AppleA7IOP × Option Message :=
  if (p.mailbox s).dir_en d then recv cfg d p else (p, none)

end

/-! ## Control -/

variable (value : BitVec 32)

section

variable (d s : Side) (value : BitVec 32) (p : AppleA7IOP)

/-- `apple_a7iop_mailbox_set_int_mask`. -/
def setIntMask : AppleA7IOP :=
  updateIrq cfg s (p.modify s fun m => { m with int_mask := m.int_mask ||| value })

/-- `apple_a7iop_mailbox_clear_int_mask`. -/
def clearIntMask : AppleA7IOP :=
  updateIrq cfg s (p.modify s fun m => { m with int_mask := m.int_mask &&& ~~~value })

/-- `apple_a7iop_mailbox_ctrl`. -/
def ctrl : BitVec 32 :=
  if m.underflow then twoPow 32 19
  else
    (if 15 ≤ m.count then twoPow 32 16 else 0) ||| (if m.inbox.isEmpty then twoPow 32 17 else 0) |||
      ctrlCount (if m.count < 15 then m.count else 15)

/-- `apple_a7iop_mailbox_get_iop_ctrl` and `apple_a7iop_mailbox_get_ap_ctrl`. -/
def getCtrl : BitVec 32 :=
  (if (p.mailbox s).dir_en d then 1 else 0) ||| ctrl (p.mailbox d)

/-- `apple_a7iop_mailbox_set_iop_ctrl` and `apple_a7iop_mailbox_set_ap_ctrl`. -/
def setCtrl : AppleA7IOP :=
  p.modify s fun m => { m with dir_en := update m.dir_en d (value &&& 1 != 0) }

/-! ## The status queue -/

/-- `apple_a7iop_interrupt_status_push`. -/
def interruptStatusPush (status : BitVec 32) (p : AppleA7IOP) : AppleA7IOP :=
  if status ∈ (p.mailbox s).interrupt_status then updateIrq cfg s p
  else
    updateIrq cfg s
      (p.modify s fun m => { m with interrupt_status := m.interrupt_status ++ [status] })

def interruptGroup : BitVec 32 := (status >>> 16) &&& 7

/-- One round of the loop of `apple_a7iop_interrupt_status_pop`. -/
def prefer (preferred : Option (BitVec 32)) (status : BitVec 32) : Option (BitVec 32) :=
  if isInterruptEnabled m status then
    match preferred with
    | none => some status
    | some best =>
      if (interruptGroup status = interruptGroup best ∧ status < best) ∨
          (interruptGroup status ≠ interruptGroup best ∧ interruptGroup status = 7) then
        some status
      else some best
  else preferred

/-- `apple_a7iop_interrupt_status_pop`. A status is queued at most once, so it names its entry. -/
def interruptStatusPop : AppleA7IOP × BitVec 32 :=
  match (p.mailbox s).interrupt_status.foldl (prefer (p.mailbox s)) none with
  | none => (updateIrq cfg s p, 0)
  | some status =>
    (updateIrq cfg s
      (p.modify s fun m => { m with interrupt_status := m.interrupt_status.erase status }), status)

/-- The bit of `int_mask` that belongs to a status of the fourth group. -/
def poppedBit : BitVec 32 :=
  if status = IRQ_IOP_NONEMPTY then nonemptyBit .iop
  else if status = IRQ_IOP_EMPTY then emptyBit .iop
  else if status = IRQ_AP_NONEMPTY then nonemptyBit .ap
  else if status = IRQ_AP_EMPTY then emptyBit .ap
  -- `IRQ_MAILBOX_UNKN0_NONEMPTY` and the others of the unknown mailboxes.
  else if status = 0x40004 then twoPow 32 18
  else if status = 0x40005 then twoPow 32 16
  else if status = 0x40006 then twoPow 32 22
  else if status = 0x40007 then twoPow 32 20
  else if status = 0x40008 then twoPow 32 26
  else if status = 0x40009 then twoPow 32 24
  else if status = 0x4000A then twoPow 32 30
  else if status = 0x4000B then twoPow 32 28
  else 0

/-- What `apple_a7iop_mailbox_read_interrupt_status` masks, of the mailbox of the IOP, for a status
that it popped. -/
def maskPopped (m : AppleA7IOPMailbox) : AppleA7IOPMailbox :=
  if status &&& 0xF0000 = 0x10000 then
    { m with interrupts_enabled := clearBit32 m.interrupts_enabled (status &&& 0x7F).toNat }
  else
    { m with
      int_mask := m.int_mask ||| poppedBit status
      timer0_masked := if status = IRQ_SEP_TIMER0 then m.timer0_masked ||| 2 else m.timer0_masked
      timer1_masked := if status = IRQ_SEP_TIMER1 then m.timer1_masked ||| 2 else m.timer1_masked }

/-- `apple_a7iop_mailbox_read_interrupt_status`. -/
def readInterruptStatus : AppleA7IOP × BitVec 32 :=
  let masked (bit : BitVec 32) :=
    updateIrq cfg s (p.modify .iop fun m => { m with int_mask := m.int_mask ||| bit })
  let flags := (p.mailbox .iop).flags
  if flags.nonempty .iop then (masked (nonemptyBit .iop), IRQ_IOP_NONEMPTY)
  else if flags.empty .iop then (masked (emptyBit .iop), IRQ_IOP_EMPTY)
  else if flags.nonempty .ap then (masked (nonemptyBit .ap), IRQ_AP_NONEMPTY)
  else if flags.empty .ap then (masked (emptyBit .ap), IRQ_AP_EMPTY)
  else
    let (p, status) := interruptStatusPop cfg s p
    let p := if status ≠ 0 then p.modify .iop (maskPopped status) else p
    (updateIrq cfg s p, status)

/-! ## Reset -/

/-- What a reset leaves of a mailbox: its mask, its lines and whether its handler is scheduled. -/
def AppleA7IOPMailbox.cleared : AppleA7IOPMailbox :=
  { AppleA7IOPMailbox.new m.handle_messages_bh with
    irqs := m.irqs
    sep_cpu_irq := m.sep_cpu_irq
    dir_en := fun _ => true
    int_mask := m.int_mask }

/-- `apple_a7iop_mailbox_reset`. -/
def reset : AppleA7IOP :=
  updateIrqStatus s (p.modify s AppleA7IOPMailbox.cleared)

end

/-- The pair after `apple_a7iop_init` and the reset of the machine. -/
def started : AppleA7IOP := reset .ap (reset .iop (init cfg))

/-! ## Registers of a mailbox -/

/-- The offsets of the registers of a mailbox, but for those that are the same in all versions. -/
structure Layout where
  /-- `REG_IOP_CTRL` and `REG_AP_CTRL`. -/
  ctrl : Side → ℕ
  /-- `REG_IOP_SEND0` and `REG_AP_SEND0`. -/
  send : Side → ℕ
  /-- `REG_IOP_RECV0` and `REG_AP_RECV0`. -/
  recv : Side → ℕ
  /-- The number of 32-bit registers a message passes. -/
  words : ℕ
  size : ℕ

/-- The registers of `mailbox/regs-v2.c`. -/
def Layout.v2 : Layout where
  ctrl := fun | .iop => 0x08 | .ap => 0x20
  send := fun | .iop => 0x10 | .ap => 0x30
  recv := fun | .iop => 0x18 | .ap => 0x38
  words := 2
  size := 0x40

/-- The registers of `mailbox/regs-v4.c`. -/
def Layout.v4 : Layout where
  ctrl := fun | .iop => 0x08 | .ap => 0x0C
  send := fun | .iop => 0x700 | .ap => 0x720
  recv := fun | .iop => 0x710 | .ap => 0x730
  words := 4
  size := 0x740

/-- The layout of the registers, after the version. -/
def Config.layout : Layout :=
  match cfg.version with
  | .v2 => .v2
  | .v4 => .v4

/-- A register of a mailbox; those for messages with the offset in the message. -/
inductive Register
  | intMaskSet
  | intMaskClr
  /-- `REG_IOP_CTRL` or `REG_AP_CTRL`. -/
  | ctrl (d : Side)
  /-- `REG_IOP_SEND0` or `REG_AP_SEND0`, or one of those that follow. -/
  | send (d : Side) (off : ℕ)
  /-- `REG_IOP_RECV0` or `REG_AP_RECV0`, or one of those that follow. -/
  | recv (d : Side) (off : ℕ)
  /-- None of them. -/
  | unknown

variable (l : Layout)

/-- The offset is that of one of the registers for messages that begin at `base`. -/
def Layout.IsData (base addr : ℕ) : Prop :=
  base ≤ addr ∧ addr < base + 4 * l.words ∧ (addr - base) % 4 = 0

instance (l : Layout) (base addr : ℕ) : Decidable (l.IsData base addr) :=
  inferInstanceAs (Decidable (_ ∧ _ ∧ _))

/-- The register at an offset. -/
def Layout.register (addr : ℕ) : Register :=
  if addr = 0 then .intMaskSet
  else if addr = 4 then .intMaskClr
  else if addr = l.ctrl .iop then .ctrl .iop
  else if addr = l.ctrl .ap then .ctrl .ap
  else if l.IsData (l.send .iop) addr then .send .iop (addr - l.send .iop)
  else if l.IsData (l.send .ap) addr then .send .ap (addr - l.send .ap)
  else if l.IsData (l.recv .iop) addr then .recv .iop (addr - l.recv .iop)
  else if l.IsData (l.recv .ap) addr then .recv .ap (addr - l.recv .ap)
  else .unknown

variable (addr size : ℕ)

/-- The accesses that the region admits: aligned words of 4 or 8 bytes. -/
def Layout.Admits : Prop :=
  (size = 4 ∨ size = 8) ∧ addr % size = 0 ∧ addr + size ≤ l.size

instance (l : Layout) (addr size : ℕ) : Decidable (l.Admits addr size) :=
  inferInstanceAs (Decidable (_ ∧ _ ∧ _))

/-- The send register after a write of `size` bytes. -/
def filled (off size : ℕ) (data : BitVec 64) : Message :=
  (m.send_reg d).store off (leBytes size data.toNat)

section

variable (data : BitVec 64) (p : AppleA7IOP)

/-- `apple_a7iop_v4_mailbox_reg_write` and `apple_a7iop_v2_mailbox_reg_write`. The write that fills
the last register for messages sends what they hold. -/
def regWrite : AppleA7IOP :=
  match cfg.layout.register addr with
  | .intMaskSet => setIntMask cfg s (data.setWidth 32) p
  | .intMaskClr => clearIntMask cfg s (data.setWidth 32) p
  | .ctrl d => setCtrl d s (data.setWidth 32) p
  | .send d off =>
    let msg := filled (p.mailbox s) d off size data
    let p := p.modify s fun m => { m with send_reg := update m.send_reg d msg }
    if off + size = 4 * cfg.layout.words then sendTo cfg d s msg p else p
  | .recv _ _ => p
  | .unknown => p

/-- A read of the first register for messages fetches one, or zeros when there is none. -/
def fetch (d s : Side) (p : AppleA7IOP) : AppleA7IOP :=
  let (p, msg) := recvFrom cfg d s p
  p.modify s fun m => { m with
    recv_reg := update m.recv_reg d (msg.getD fun _ => 0) }

/-- `apple_a7iop_v4_mailbox_reg_read` and `apple_a7iop_v2_mailbox_reg_read`. -/
def regRead : AppleA7IOP × BitVec 64 :=
  match cfg.layout.register addr with
  | .intMaskSet => (p, (p.mailbox s).int_mask.setWidth 64)
  | .intMaskClr => (p, (p.mailbox s).int_mask.setWidth 64)
  | .ctrl d => (p, (getCtrl d s p).setWidth 64)
  | .recv d off =>
    let p := if off = 0 then fetch cfg d s p else p
    (p, ((p.mailbox s).recv_reg d).load off size)
  | .send _ _ => (p, 0)
  | .unknown => (p, 0)

/-! ## Registers of the coprocessor -/

/-- What `apple_a7iop_v4_reg_write` does to the mailbox of the IOP, `none` where it does nothing.
The second version has none of these registers. -/
def kicWrite (addr : ℕ) (data : BitVec 32) : Option AppleA7IOPMailbox :=
  let setWord (k : ℕ) (v : BitVec 32) :=
    some { m with interrupts_enabled := update m.interrupts_enabled k v }
  if addr ∈ [0xA00, 0xA04, 0xA08, 0xA0C] then
    setWord ((addr - 0xA00) / 4) (m.interrupts_enabled ((addr - 0xA00) / 4) &&& ~~~data)
  else if addr ∈ [0xA80, 0xA84, 0xA88, 0xA8C] then
    setWord ((addr - 0xA80) / 4) (m.interrupts_enabled ((addr - 0xA80) / 4) ||| data)
  else if addr = 0x80C then some { m with glb_cfg := data }
  else if addr = 0xC00 then some { m with timer0_enabled := data }
  else if addr = 0xC04 then some { m with timer1_enabled := data }
  else if addr = 0xC10 then some { m with timer0_masked := m.timer0_masked ||| data }
  else if addr = 0xC18 then some { m with timer0_masked := m.timer0_masked &&& ~~~data }
  else if addr = 0xC14 then some { m with timer1_masked := m.timer1_masked ||| data }
  else if addr = 0xC1C then some { m with timer1_masked := m.timer1_masked &&& ~~~data }
  else none

/-- The mailbox part of `apple_a7iop_v4_reg_write`. -/
def a7iopWrite (addr : ℕ) (data : BitVec 64) (p : AppleA7IOP) : AppleA7IOP :=
  match cfg.version, kicWrite p.iop_mailbox addr (data.setWidth 32) with
  | .v4, some m => updateIrq cfg .iop (p.modify .iop fun _ => m)
  | _, _ => p

/-! ## Steps -/

/-- Everything that can happen to the pair. -/
inductive Op
  | mailboxWrite (s : Side) (addr size : ℕ) (data : BitVec 64)
  | mailboxRead (s : Side) (addr size : ℕ)
  | sendAp (msg : Message)
  | recvAp
  | sendIop (msg : Message)
  | recvIop
  /-- A write to the registers of the coprocessor. -/
  | a7iopWrite (addr : ℕ) (data : BitVec 64)
  /-- A read of `REG_INTERRUPT_STATUS`. -/
  | readInterruptStatus
  /-- A timer of the SEP, or another of its devices, pushes a status. -/
  | interruptStatusPush (status : BitVec 32)
  /-- The power state that `sepd_enabled` follows is written. -/
  | sepdEnabled (data : BitVec 64)
  /-- The reset of the simulated SEP enables both directions in both mailboxes. -/
  | enable
  /-- The bottom half with the handler of the messages is called. -/
  | bottomHalf
  | reset (s : Side)

/-- One step of the pair. -/
def step : Op → AppleA7IOP
  | .mailboxWrite s addr size data =>
    if cfg.layout.Admits addr size then regWrite cfg s addr size data p else p
  | .mailboxRead s addr size =>
    if cfg.layout.Admits addr size then (regRead cfg s addr size p).1 else p
  -- The core interface sends and receives for the other side of the mailbox it calls.
  | .sendAp msg => sendTo cfg .ap .iop msg p
  | .recvAp => (recvFrom cfg .ap .iop p).1
  | .sendIop msg => sendTo cfg .iop .ap msg p
  | .recvIop => (recvFrom cfg .iop .ap p).1
  | .a7iopWrite addr data => a7iopWrite cfg addr data p
  | .readInterruptStatus =>
    if cfg.version = .v4 then (readInterruptStatus cfg .iop p).1 else p
  | .interruptStatusPush status => interruptStatusPush cfg .iop status p
  | .sepdEnabled data =>
    p.modify .iop fun m => { m with sepd_enabled := if data = 0xFF then 1 else 0 }
  | .enable =>
    (p.modify .iop fun m => { m with dir_en := fun _ => true }).modify .ap fun m =>
      { m with dir_en := fun _ => true }
  | .bottomHalf =>
    p.modify .iop fun m => { m with handle_messages_bh := m.handle_messages_bh.map fun _ => false }
  | .reset s => reset s p

end

end Inferno.A7iop
