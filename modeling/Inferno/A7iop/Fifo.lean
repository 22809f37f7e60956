import Inferno.A7iop.Model
import Inferno.Common.Fifo

/-!
# The mailboxes are lossless queues

Whatever happens to a pair of mailboxes, an inbox sees it as one of four operations: nothing, a
message put in, a message wanted, or a clearing by its reset (`Call.event`). With its underflow flag
it is the queue of `Common.Fifo`, with a counter beside it (`core_step`), so that runs of the pair
are runs of the queue. What a receive returns is the oldest message but for the four bytes that it
overwrites, hence in a run without a reset of the mailbox the messages come out as they went in
(`lossless`). The counter has 32 bits, and counts the messages modulo `2^32`. A receive stamps its
last four bits into the message, where a control register reports 15 at most (`occupancy_iff`).
-/

namespace Inferno.A7iop

open Common List Nat

/-! ## Frames -/

/-- An inbox with its flag and its counter. -/
structure Core where
  /-- `inbox` and `underflow`. -/
  fifo : Fifo Message
  count : BitVec 32

/-- The inbox of a mailbox. -/
def AppleA7IOPMailbox.core (m : AppleA7IOPMailbox) : Core := ⟨⟨m.inbox, m.underflow⟩, m.count⟩

/-- The inbox after an operation on it. -/
def Core.step (c : Core) (op : FifoOp Message) : Core where
  fifo := c.fifo.step op
  count :=
    match op with
    | .idle => c.count
    | .put _ => c.count + 1
    | .get => if (c.fifo.got .get).isSome then c.count - 1 else c.count
    | .clear => 0

variable (cfg : Config) (d' : Side) (msg : Message)

variable (p : AppleA7IOP)

theorem core_modify {s d : Side} {f : AppleA7IOPMailbox → AppleA7IOPMailbox}
    (hf : ∀ m, (f m).core = m.core) : ((p.modify s f).mailbox d).core = (p.mailbox d).core := by
  cases s <;> cases d <;> first | rfl | exact hf _

section

variable (s : Side) (p : AppleA7IOP) (d : Side)

theorem core_updateOwnIrq : ((updateOwnIrq cfg s p).mailbox d).core = (p.mailbox d).core := by
  unfold updateOwnIrq updateIrqStatus
  split_ifs <;> cases s <;> cases d <;> rfl

@[simp]
theorem core_updateIrq : ((updateIrq cfg s p).mailbox d).core = (p.mailbox d).core := by
  unfold updateIrq
  split_ifs
  · rw [core_updateOwnIrq, core_updateOwnIrq]
  · exact core_updateOwnIrq cfg s p d

end

theorem mailbox_ap_updateOwnIrq : (updateOwnIrq cfg .iop p).mailbox .ap = p.mailbox .ap := by
  unfold updateOwnIrq updateIrqStatus
  split_ifs <;> rfl

theorem mailbox_ap_updateIrq : (updateIrq cfg .iop p).mailbox .ap = p.mailbox .ap := by
  rw [updateIrq, if_neg cfg.mailboxRole_iop_ne, mailbox_ap_updateOwnIrq]

/-- A change of a mailbox that leaves its directions alone leaves those of both mailboxes alone. -/
theorem dir_en_modify (p : AppleA7IOP) {s d : Side} (f : AppleA7IOPMailbox → AppleA7IOPMailbox)
    (hf : ∀ m, (f m).dir_en = m.dir_en) :
    ((p.modify s f).mailbox d).dir_en = (p.mailbox d).dir_en := by
  cases s <;> cases d <;> first | rfl | exact hf _

theorem dir_en_updateIrq (s : Side) (p : AppleA7IOP) (d : Side) :
    ((updateIrq cfg s p).mailbox d).dir_en = (p.mailbox d).dir_en := by
  have hown : ∀ s p, ((updateOwnIrq cfg s p).mailbox d).dir_en = (p.mailbox d).dir_en := by
    intro s p
    unfold updateOwnIrq updateIrqStatus
    split_ifs <;> cases s <;> cases d <;> rfl
  unfold updateIrq
  split_ifs
  · rw [hown, hown]
  · exact hown s p

theorem dir_en_sendTo (s : Side) (msg : Message) (p : AppleA7IOP) (d : Side) :
    ((sendTo cfg d' s msg p).mailbox d).dir_en = (p.mailbox d).dir_en := by
  unfold sendTo send
  split_ifs
  · rw [dir_en_modify, dir_en_updateIrq, dir_en_modify]
    · exact fun _ => rfl
    · exact fun _ => rfl
  · rfl

theorem dir_en_recvFrom (s : Side) {p : AppleA7IOP} (d : Side) :
    ((recvFrom cfg d' s p).1.mailbox d).dir_en = (p.mailbox d).dir_en := by
  unfold recvFrom recv
  dsimp only
  split_ifs
  · rfl
  · split
    · exact (dir_en_updateIrq _ _ _ _).trans (dir_en_modify _ _ fun _ => rfl)
    · exact (dir_en_updateIrq _ _ _ _).trans (dir_en_modify _ _ fun _ => rfl)
  · rfl

/-! ## Operations on an inbox -/

/-- The call of `send_iop` and its likes that a step makes, if any. -/
inductive Call
  /-- A message is sent to `d`, through the mailbox `s`. -/
  | send (s d : Side) (msg : Message)
  /-- A message for `d` is wanted, through the mailbox `s`. -/
  | recv (s d : Side)
  | reset (s : Side)
  /-- None of them. -/
  | other

variable (d : Side)

/-- What a call is to the inbox of `d`. -/
def Call.event : Call → FifoOp Message
  | .send s d' msg => if d' = d ∧ (p.mailbox s).dir_en d' = true then .put msg else .idle
  | .recv s d' => if d' = d ∧ (p.mailbox s).dir_en d' = true then .get else .idle
  | .reset s => if s = d then .clear else .idle
  | .other => .idle

section

variable (cfg : Config) (s : Side) (addr size : ℕ) (data : BitVec 64) (p : AppleA7IOP)

/-- The call that a write to the registers of a mailbox makes: it sends when it fills the last
register for messages. -/
def writeCall : Call :=
  match cfg.layout.register addr with
  | .send d off =>
    if off + size = 4 * cfg.layout.words then .send s d (filled (p.mailbox s) d off size data)
    else .other
  | _ => .other

/-- The call that a read from the registers of a mailbox makes: it receives at the first register
for messages. -/
def readCall (addr : ℕ) : Call :=
  match cfg.layout.register addr with
  | .recv d off => if off = 0 then .recv s d else .other
  | _ => .other

/-- The call that a step makes. -/
def call : Op → Call
  | .mailboxWrite s addr size data =>
    if cfg.layout.Admits addr size then writeCall cfg s addr size data p else .other
  | .mailboxRead s addr size => if cfg.layout.Admits addr size then readCall cfg s addr else .other
  | .sendAp msg => .send .iop .ap msg
  | .recvAp => .recv .iop .ap
  | .sendIop msg => .send .ap .iop msg
  | .recvIop => .recv .ap .iop
  | .reset s => .reset s
  | _ => .other

end

theorem core_send (p : AppleA7IOP) (d : Side) : ((send cfg d' msg p).mailbox d).core =
      (p.mailbox d).core.step (if d' = d then .put msg else .idle) := by
  unfold send
  rw [core_modify, core_updateIrq]
  · cases d' <;> cases d <;> rfl
  · exact fun _ => rfl

variable (s : Side)

theorem core_sendTo (msg : Message) (p : AppleA7IOP) (d : Side) :
    ((sendTo cfg d' s msg p).mailbox d).core =
      (p.mailbox d).core.step ((Call.send s d' msg).event p d) := by
  unfold sendTo Call.event
  dsimp only
  split_ifs with hen hboth hboth
  · rw [core_send, if_pos hboth.1]
  · rw [core_send, if_neg fun hd => hboth ⟨hd, hen⟩]
  · exact absurd hboth.2 hen
  · rfl

section

variable (addr : ℕ) (data : BitVec 64) (p : AppleA7IOP) (d : Side)

/-- A receive gets the oldest message of the inbox. -/
theorem core_recv : ((recv cfg d' p).1.mailbox d).core =
      (p.mailbox d).core.step (if d' = d then .get else .idle) := by
  unfold recv
  dsimp only
  by_cases hd : d' = d
  · subst hd
    -- The underflow is tested before the inbox is looked at.
    cases hunder : (p.mailbox d').underflow with
    | true => simp [AppleA7IOPMailbox.core, Core.step, Fifo.step, Fifo.got, hunder]
    | false =>
      rw [if_neg Bool.false_ne_true]
      cases hinbox : (p.mailbox d').inbox with
      | nil | cons msg rest =>
        rw [core_updateIrq]
        simp [AppleA7IOPMailbox.core, Core.step, Fifo.step, Fifo.got, hunder, hinbox]
  · -- The other inbox is not touched.
    have hne : d ≠ d' := fun h => hd h.symm
    split_ifs
    · rfl
    · split <;> rw [core_updateIrq, AppleA7IOP.mailbox_modify_of_ne _ hne] <;> rfl

theorem core_recvFrom : ((recvFrom cfg d' s p).1.mailbox d).core =
      (p.mailbox d).core.step ((Call.recv s d').event p d) := by
  unfold recvFrom Call.event
  dsimp only
  split_ifs with hen hboth hboth
  · rw [core_recv, if_pos hboth.1]
  · rw [core_recv, if_neg fun hd => hboth ⟨hd, hen⟩]
  · exact absurd hboth.2 hen
  · rfl

theorem core_reset (s : Side) (p : AppleA7IOP) (d : Side) :
    ((reset s p).mailbox d).core = (p.mailbox d).core.step ((Call.reset s).event p d) := by
  unfold reset updateIrqStatus
  rw [core_modify]
  · cases s <;> cases d <;> rfl
  · exact fun _ => rfl

/-- The registers of a mailbox reach the inboxes only by sending. -/
theorem core_regWrite (s : Side) {addr size : ℕ} {data : BitVec 64} (p : AppleA7IOP) (d : Side) :
    ((regWrite cfg s addr size data p).mailbox d).core =
      (p.mailbox d).core.step ((writeCall cfg s addr size data p).event p d) := by
  unfold regWrite writeCall
  cases cfg.layout.register addr with
  | intMaskSet => exact (core_updateIrq _ _ _ _).trans (core_modify _ fun _ => rfl)
  | intMaskClr => exact (core_updateIrq _ _ _ _).trans (core_modify _ fun _ => rfl)
  | ctrl d' => exact core_modify _ fun _ => rfl
  | send d' off =>
    dsimp only
    split_ifs
    · -- The send register is filled before the message is sent; the directions are as they were.
      rw [core_sendTo, core_modify]
      · unfold Call.event
        dsimp only
        rw [AppleA7IOP.mailbox_modify_self]
      · exact fun _ => rfl
    · exact core_modify _ fun _ => rfl
  | _ => rfl

/-- The registers of a mailbox are read without touching the inboxes, but for the first of those for
messages. -/
theorem core_regRead {addr size : ℕ} (p : AppleA7IOP) (d : Side) :
    ((regRead cfg s addr size p).1.mailbox d).core =
      (p.mailbox d).core.step ((readCall cfg s addr).event p d) := by
  unfold regRead readCall
  cases cfg.layout.register addr with
  | recv d' off =>
    dsimp only
    split_ifs
    · rw [fetch, core_modify]
      · exact core_recvFrom cfg d' s p d
      · exact fun _ => rfl
    · rfl
  | _ => rfl

/-- A write to the registers of the coprocessor leaves the inboxes alone. -/
theorem core_a7iopWrite : ((a7iopWrite cfg addr data p).mailbox d).core = (p.mailbox d).core := by
  -- The registers that are shared with the mailbox of the IOP have nothing of its inbox.
  have hkic : ∀ m, kicWrite p.iop_mailbox addr (data.setWidth 32) = some m →
      m.core = p.iop_mailbox.core := by
    repeat' refine iteInduction (motive := fun x : Option AppleA7IOPMailbox =>
      ∀ m, x = some m → m.core = p.iop_mailbox.core) (fun _ => ?_) fun _ => ?_
    all_goals
      intro m h
      first
        | exact (congrArg AppleA7IOPMailbox.core (Option.some.inj h)).symm
        | exact nomatch h
  unfold a7iopWrite
  split
  · rename_i m _ h
    rw [core_updateIrq]
    cases d
    · exact hkic m h
    · rfl
  · rfl

end

theorem core_readInterruptStatus {s : Side} (p : AppleA7IOP) (d : Side) :
    ((readInterruptStatus cfg s p).1.mailbox d).core = (p.mailbox d).core := by
  have hmask : ∀ status m, (maskPopped status m).core = m.core := by
    intro status m
    unfold maskPopped
    split <;> rfl
  have hpop : ((interruptStatusPop cfg s p).1.mailbox d).core = (p.mailbox d).core := by
    unfold interruptStatusPop
    split
    · exact core_updateIrq _ _ _ _
    · exact (core_updateIrq _ _ _ _).trans (core_modify _ fun _ => rfl)
  unfold readInterruptStatus
  dsimp only
  split_ifs
  all_goals refine (core_updateIrq _ _ _ _).trans ?_
  all_goals first
    | exact core_modify _ fun _ => rfl
    | exact (core_modify _ (hmask _)).trans hpop
    | exact hpop

theorem core_step (p : AppleA7IOP) (op : Op) (d : Side) :
    ((step cfg p op).mailbox d).core = (p.mailbox d).core.step ((call cfg p op).event p d) := by
  cases op with
  | mailboxWrite s addr size data =>
    dsimp only [step, call]
    split_ifs
    · exact core_regWrite cfg s p d
    · rfl
  | mailboxRead s addr size =>
    dsimp only [step, call]
    split_ifs
    · exact core_regRead cfg s p d
    · rfl
  | sendAp msg => exact core_sendTo cfg .ap .iop msg p d
  | recvAp => exact core_recvFrom cfg .ap .iop p d
  | sendIop msg => exact core_sendTo cfg .iop .ap msg p d
  | recvIop => exact core_recvFrom cfg .iop .ap p d
  | a7iopWrite addr data => exact core_a7iopWrite cfg addr data p d
  | readInterruptStatus =>
    dsimp only [step]
    split_ifs
    · exact core_readInterruptStatus cfg p d
    · rfl
  | interruptStatusPush status =>
    dsimp only [step, interruptStatusPush]
    split_ifs
    · exact core_updateIrq _ _ _ _
    · exact (core_updateIrq _ _ _ _).trans (core_modify _ fun _ => rfl)
  | sepdEnabled data | bottomHalf => exact core_modify _ fun _ => rfl
  | enable => cases d <;> rfl
  | reset s => exact core_reset s p d

/-! ## Runs -/

/-- The first 12 bytes of a message, which a receive leaves as they are. -/
def payload (msg : Message) : Fin 12 → UInt8 := fun i => msg (i.castLE (by decide))

section

variable (cfg : Config) (d : Side) (p : AppleA7IOP) (op : Op)

/-- The message that a step puts into the inbox of `d`. -/
def accepted : Option Message :=
  match call cfg p op with
  | .send s d' msg => if d' = d ∧ (p.mailbox s).dir_en d' = true then some msg else none
  | _ => none

/-- The message that a receive for `d` returns in a step. -/
def returned : Option Message :=
  match call cfg p op with
  | .recv s d' => if d' = d then (recvFrom cfg d' s p).2 else none
  | _ => none

section

variable (off : ℕ) (bytes : List UInt8)

theorem payload_store : payload (msg.store 0xC bytes) = payload msg := by
  funext i
  have hi : (i : ℕ) < 0xC := i.isLt
  unfold payload Message.store
  rw [Store.apply_of_not_mem _ _ (.inl hi)]
  exact dif_pos (i.castLE (by decide)).isLt

theorem load_image_store {p n : ℕ} (h : p + n ≤ 16) : Common.load (msg.store off bytes).image p n =
      Common.load (Store.apply msg.image ⟨off, bytes⟩) p n := by
  refine map_congr_left fun i hi => ?_
  have hlt : p + i < 16 := by
    have := mem_range.mp hi
    omega
  exact dif_pos hlt

theorem load_image_store_self (h : off + bytes.length ≤ 16) :
    Common.load (msg.store off bytes).image off bytes.length = bytes := by
  rw [load_image_store msg off bytes h]
  exact load_applyAll [⟨off, bytes⟩] (pairwise_singleton _ _) msg.image ⟨off, bytes⟩ mem_cons_self

end

theorem accepted_eq :
    accepted cfg d p op = (p.mailbox d).core.fifo.putIn ((call cfg p op).event p d) := by
  unfold accepted Call.event
  cases call cfg p op with
  | other => rfl
  | _ =>
    dsimp only
    split_ifs <;> rfl

/-- What a step returns is what it gets from the queue, but for the last four bytes. -/
theorem returned_eq : (returned cfg d p op).map payload =
      ((p.mailbox d).core.fifo.got ((call cfg p op).event p d)).map payload := by
  unfold returned Call.event
  cases call cfg p op with
  | recv s d' =>
    dsimp only
    by_cases hd : d' = d
    · subst hd
      rw [if_pos rfl, recvFrom]
      by_cases hen : (p.mailbox s).dir_en d' = true
      · -- The queue yields the message as it was sent, the receive one with four other bytes.
        rw [if_pos hen, if_pos ⟨rfl, hen⟩]
        unfold recv Fifo.got AppleA7IOPMailbox.core
        dsimp only
        split_ifs
        · rfl
        · cases (p.mailbox d').inbox with
          | nil => rfl
          | cons msg rest => simp [payload_store]
      · rw [if_neg hen, if_neg fun h => hen h.2]
        rfl
    · rw [if_neg hd, if_neg fun h => hd h.1]
      rfl
  | other => rfl
  | _ =>
    dsimp only
    split_ifs <;> rfl

end

/-- The counter of an inbox counts its messages. -/
def Core.Counted (c : Core) : Prop := c.count = BitVec.ofNat 32 c.fifo.queue.length

/-- Every operation on an inbox keeps the counter right. -/
theorem Core.Counted.step {c : Core} (h : c.Counted) (op : FifoOp Message) :
    (c.step op).Counted := by
  obtain ⟨⟨queue, underflow⟩, count⟩ := c
  unfold Core.Counted Core.step at *
  dsimp only at h
  cases op with
  | idle => exact h
  | put msg => simp [h, Fifo.step, BitVec.ofNat_add]
  | get =>
    dsimp only [Fifo.got, Fifo.step] at *
    cases underflow with
    | true => simpa using h
    | false =>
      cases queue with
      | nil => simpa using h
      | cons msg rest =>
        -- The counter may have wrapped around; the difference is right in any case.
        rw [h, length_cons, BitVec.ofNat_add]
        exact BitVec.add_sub_cancel _ _
  | clear => rfl

/-- A right counter stays right whatever happens to the pair. -/
theorem counted_run {p : AppleA7IOP} (h : (p.mailbox d).core.Counted) (ops : List Op) :
    ((run (step cfg) p ops).mailbox d).core.Counted := by
  refine invariant_run (P := fun p : AppleA7IOP => (p.mailbox d).core.Counted) ?_ h ops
  intro p op hp
  rw [core_step]
  exact hp.step _

theorem event_ne_clear (d : Side) {op : Op} (h : op ≠ .reset d) (p : AppleA7IOP) :
    (call cfg p op).event p d ≠ .clear := by
  -- The registers of the mailboxes make no reset.
  have hcall : call cfg p op ≠ .reset d := by
    cases op with
    | mailboxWrite | mailboxRead =>
      dsimp only [call, writeCall, readCall]
      split_ifs
      · split
        · split_ifs <;> exact nofun
        · exact nofun
      · exact nofun
    | reset s => exact fun hs => h (congrArg Op.reset (Call.reset.inj hs))
    | _ => exact nofun
  unfold Call.event
  cases hc : call cfg p op with
  | reset s =>
    have hs : s ≠ d := fun hs => hcall (hs ▸ hc)
    dsimp only
    rw [if_neg hs]
    exact nofun
  | other => exact nofun
  | _ =>
    dsimp only
    split_ifs <;> exact nofun

/-- The operations that a run of the pair is to the inbox of `d`. -/
def events (cfg : Config) (d : Side) (p : AppleA7IOP) (ops : List Op) : List (FifoOp Message) :=
  trace (step cfg) (fun p op => (call cfg p op).event p d) p ops

section Simulation

variable (cfg : Config) (d : Side) (p : AppleA7IOP) (ops : List Op)

theorem fifo_step (p : AppleA7IOP) (op : Op) : ((step cfg p op).mailbox d).core.fifo =
    (p.mailbox d).core.fifo.step ((call cfg p op).event p d) :=
  congrArg Core.fifo (core_step cfg p op d)

theorem events_ne_clear (h : .reset d ∉ ops) : ∀ e ∈ events cfg d p ops, e ≠ .clear := by
  refine forall_mem_trace (P := fun e => e ≠ FifoOp.clear) ?_
  intro op hop
  exact event_ne_clear cfg d fun heq => h (heq ▸ hop)

theorem fifo_run : ((run (step cfg) p ops).mailbox d).core.fifo =
    run Fifo.step (p.mailbox d).core.fifo (events cfg d p ops) :=
  run_trace (fun p : AppleA7IOP => (p.mailbox d).core.fifo) (fifo_step cfg d) p ops

theorem outputs_accepted : outputs (step cfg) (accepted cfg d) p ops =
    outputs Fifo.step Fifo.putIn (p.mailbox d).core.fifo (events cfg d p ops) := by
  have h := outputs_trace (fun p : AppleA7IOP => (p.mailbox d).core.fifo) (fifo_step cfg d) id
    (fun p op => congrArg _ (accepted_eq cfg d p op)) p ops
  rwa [map_id, map_id] at h

theorem outputs_returned : (outputs (step cfg) (returned cfg d) p ops).map payload =
    (outputs Fifo.step Fifo.got (p.mailbox d).core.fifo (events cfg d p ops)).map payload :=
  outputs_trace (fun p : AppleA7IOP => (p.mailbox d).core.fifo) (fifo_step cfg d) payload
    (returned_eq cfg d) p ops

end Simulation

section

variable (cfg : Config) (d : Side) (p : AppleA7IOP) (op : Op)

/-- A receive for `d` is made, through a mailbox in which the direction is enabled. -/
def Receives : Prop :=
  ∃ s, call cfg p op = .recv s d ∧ (p.mailbox s).dir_en d = true

/-- The mailbox `d` is a lossless queue in a run from the state `p`. -/
structure Lossless (cfg : Config) (d : Side) (p : AppleA7IOP) (ops : List Op) : Prop where
  /-- From an empty inbox, the messages come out in the order in which they were accepted. -/
  ordered : (p.mailbox d).inbox = [] → (outputs (step cfg) (returned cfg d) p ops).map payload <+:
      (outputs (step cfg) (accepted cfg d) p ops).map payload
  /-- What was queued and what is accepted is what is returned and what is left. -/
  conserved : ((p.mailbox d).inbox ++ outputs (step cfg) (accepted cfg d) p ops).map payload =
    (outputs (step cfg) (returned cfg d) p ops).map payload ++
      ((run (step cfg) p ops).mailbox d).inbox.map payload
  /-- The counter counts the messages queued, modulo `2^32`. -/
  counted : ((run (step cfg) p ops).mailbox d).count.toNat =
    ((run (step cfg) p ops).mailbox d).inbox.length % 2 ^ 32
  /-- A receive from the empty inbox fails and is an underflow. -/
  underflows : ∀ op, Receives cfg d (run (step cfg) p ops) op →
    ((run (step cfg) p ops).mailbox d).inbox = [] →
      returned cfg d (run (step cfg) p ops) op = none ∧
        ((run (step cfg) p (ops ++ [op])).mailbox d).underflow = true
  /-- After an underflow every receive fails, and the messages stay queued. -/
  stuck : (p.mailbox d).underflow = true → outputs (step cfg) (returned cfg d) p ops = [] ∧
      ((run (step cfg) p ops).mailbox d).inbox =
        (p.mailbox d).inbox ++ outputs (step cfg) (accepted cfg d) p ops ∧
      ((run (step cfg) p ops).mailbox d).underflow = true
  /-- The receive registers are read as they are after the read, and a read of the first one leaves
  the message there that it returns. -/
  shown : ∀ s addr size off, cfg.layout.Admits addr size → cfg.layout.register addr = .recv d off →
    (regRead cfg s addr size (run (step cfg) p ops)).2 =
        (((run (step cfg) p (ops ++ [.mailboxRead s addr size])).mailbox s).recv_reg d).load
          off size ∧
      (off = 0 → ((run (step cfg) p (ops ++ [.mailboxRead s addr size])).mailbox s).recv_reg d =
        (returned cfg d (run (step cfg) p ops) (.mailboxRead s addr size)).getD fun _ => 0)

/-- The inboxes of a pair whose counters are right are lossless queues. -/
theorem lossless_of_counted {p : AppleA7IOP} (hcount : (p.mailbox d).core.Counted) {ops : List Op}
    (h : .reset d ∉ ops) : Lossless cfg d p ops := by
  have hclear := events_ne_clear cfg d p ops h
  -- The run of the queue, with whole messages.
  have hmessages : (p.mailbox d).inbox ++ outputs (step cfg) (accepted cfg d) p ops =
      outputs Fifo.step Fifo.got (p.mailbox d).core.fifo (events cfg d p ops) ++
        ((run (step cfg) p ops).mailbox d).inbox := by
    have hrun := Fifo.run_conserves (p.mailbox d).core.fifo hclear
    rwa [← fifo_run, ← outputs_accepted] at hrun
  have hconserved : ((p.mailbox d).inbox ++ outputs (step cfg) (accepted cfg d) p ops).map payload =
      (outputs (step cfg) (returned cfg d) p ops).map payload ++
        ((run (step cfg) p ops).mailbox d).inbox.map payload := by
    rw [hmessages, map_append, outputs_returned]
  refine ⟨?_, hconserved, ?_, ?_, ?_, ?_⟩
  · intro hempty
    rw [hempty] at hconserved
    exact ⟨_, hconserved.symm⟩
  · have hend := congrArg BitVec.toNat (counted_run cfg d hcount ops)
    exact hend.trans (BitVec.toNat_ofNat _ _)
  · rintro op ⟨s, hcall, hen⟩ hempty
    -- The receive reaches the queue, because its direction is enabled.
    have hevent : (call cfg (run (step cfg) p ops) op).event (run (step cfg) p ops) d = .get := by
      rw [hcall, Call.event, if_pos ⟨rfl, hen⟩]
    have hgot := returned_eq cfg d (run (step cfg) p ops) op
    have hstep := fifo_step cfg d (run (step cfg) p ops) op
    rw [hevent] at hgot hstep
    rw [run_append]
    exact ⟨Option.map_eq_none_iff.mp (hgot.trans (congrArg _ (Fifo.got_of_nil hempty))),
      (congrArg Fifo.underflow hstep).trans (Fifo.underflow_of_nil hempty)⟩
  · intro hunder
    obtain ⟨hnone, hstays⟩ := Fifo.run_underflow (q := (p.mailbox d).core.fifo) hunder hclear
    refine ⟨?_, ?_, ?_⟩
    · have hmap := outputs_returned cfg d p ops
      rw [hnone] at hmap
      exact map_eq_nil_iff.mp hmap
    · rw [hmessages, hnone, nil_append]
    · exact (congrArg Fifo.underflow (fifo_run cfg d p ops)).trans hstays
  · intro s addr size off hok haddr
    rw [run_append]
    simp only [run_cons, run_nil, step, returned, call, readCall, regRead, haddr, if_pos hok,
      true_and]
    rintro rfl
    rw [if_pos rfl, fetch, AppleA7IOP.mailbox_modify_self]
    simp

/-- Whatever happened to a pair, its mailboxes are lossless queues as long as they are not reset. -/
theorem lossless (hist ops : List Op) (h : .reset d ∉ ops) :
    Lossless cfg d (run (step cfg) (init cfg) hist) ops := by
  have hinit : ((init cfg).mailbox d).core.Counted := by
    cases d <;> rfl
  exact lossless_of_counted cfg d (counted_run cfg d hinit hist) h

end

/-- A coprocessor with the registers of the fourth version. -/
def sampleConfig : Config := ⟨"SIO", .v4, true⟩

/-- A message sent through the registers of the AP mailbox and received through those of the IOP. -/
def sampleOps : List Op :=
  [.mailboxWrite .ap 0x700 8 7, .mailboxWrite .ap 0x708 8 0, .mailboxRead .iop 0x710 8]

theorem lossless_sio : Lossless sampleConfig .iop (started sampleConfig) sampleOps ∧
    (outputs (step sampleConfig) (returned sampleConfig .iop) (started sampleConfig)
      sampleOps).length = 1 :=
  ⟨lossless sampleConfig .iop [.reset .iop, .reset .ap] _ (by simp [sampleOps]),
    by decide +kernel⟩

/-- Sending through the core interface puts the message into the inbox and leaves the directions as
they are. -/
theorem step_sendIop {p : AppleA7IOP} (h : (p.mailbox .ap).dir_en .iop = true) :
    ((step cfg p (.sendIop msg)).mailbox .iop).inbox = (p.mailbox .iop).inbox ++ [msg] ∧
      ((step cfg p (.sendIop msg)).mailbox .ap).dir_en .iop = true := by
  constructor
  · have hfifo := congrArg Fifo.queue (fifo_step cfg .iop p (.sendIop msg))
    rw [call, Call.event, if_pos ⟨rfl, h⟩] at hfifo
    exact hfifo
  · rw [step, dir_en_sendTo]
    exact h

theorem length_inbox_sendIop (n : ℕ) {p : AppleA7IOP} (h : (p.mailbox .ap).dir_en .iop = true) :
    ((run (step cfg) p (replicate n (.sendIop msg))).mailbox .iop).inbox.length =
      (p.mailbox .iop).inbox.length + n := by
  induction n generalizing p with
  | zero => rfl
  | succ n ih =>
    obtain ⟨hinbox, hdir⟩ := step_sendIop cfg msg h
    rw [replicate_succ, run_cons, ih hdir, hinbox, length_append, length_singleton,
      add_assoc, add_comm 1]

/-- The counter of an inbox with a multiple of `2^32` messages is zero. -/
theorem count_sendIop {n : ℕ} (hn : n % 2 ^ 32 = 0) : ((run (step cfg) (started cfg)
        (replicate n (.sendIop msg))).mailbox .iop).count.toNat = 0 ∧
      ((run (step cfg) (started cfg)
        (replicate n (.sendIop msg))).mailbox .iop).inbox.length = n := by
  have hinbox := (length_inbox_sendIop cfg msg n (p := started cfg) rfl).trans (zero_add n)
  have hcount := counted_run cfg .iop (p := started cfg) rfl (replicate n (.sendIop msg))
  refine ⟨(congrArg BitVec.toNat hcount).trans ((BitVec.toNat_ofNat _ _).trans ?_), hinbox⟩
  exact (congrArg (· % 2 ^ 32) hinbox).trans hn

/-- After `2^32` messages were sent and none received, the counter does not say how many are
queued. -/
theorem not_count_eq_length : ((run (step sampleConfig) (started sampleConfig)
        (replicate (2 ^ 32) (.sendIop fun _ => 0))).mailbox .iop).count.toNat ≠
      ((run (step sampleConfig) (started sampleConfig)
        (replicate (2 ^ 32) (.sendIop fun _ => 0))).mailbox .iop).inbox.length := by
  obtain ⟨hcount, hlen⟩ := count_sendIop sampleConfig (fun _ => 0) (mod_self (2 ^ 32))
  rw [hcount, hlen]
  norm_num

/-! ## Occupancy -/

/-- The field of `CTRL_COUNT_MASK`. -/
def occupancy (v : BitVec 32) : BitVec 4 := v.extractLsb' 20 4

/-- The occupancy that a receive stamps into the message. -/
def stamped (msg : Message) : BitVec 4 := occupancy ((msg.load 0xC 4).setWidth 32)

/-- `CTRL_COUNT` keeps the last four bits of the number. -/
theorem occupancy_ctrlCount (v : BitVec 32) : occupancy (ctrlCount v) = v.setWidth 4 := by
  refine BitVec.eq_of_getElem_eq fun i hi => ?_
  have hbit : i = 0 ∨ i = 1 ∨ i = 2 ∨ i = 3 := by omega
  rcases hbit with rfl | rfl | rfl | rfl <;> simp [occupancy, ctrlCount]

section

variable {cfg : Config} {p : AppleA7IOP}

/-- A control register reports at most 15 messages. -/
theorem occupancy_getCtrl {d : Side} (h : (p.mailbox d).underflow = false) (s : Side) :
    occupancy (getCtrl d s p) = BitVec.ofNat 4 (min (p.mailbox d).count.toNat 15) := by
  have hor : ∀ v w, occupancy (v ||| w) = occupancy v ||| occupancy w := fun _ _ =>
    BitVec.extractLsb'_or
  have hflag : ∀ (c : Prop) [Decidable c] (v : BitVec 32), occupancy v = 0#4 →
      occupancy (if c then v else 0) = 0#4 := by
    intro c _ v hv
    split_ifs
    · exact hv
    · rfl
  have hcount : (if (p.mailbox d).count < 15 then (p.mailbox d).count else 15).toNat =
      min (p.mailbox d).count.toNat 15 := by
    split_ifs with hlt
    · exact (min_eq_left (le_of_lt hlt)).symm
    · exact (min_eq_right (not_lt.mp hlt)).symm
  have hunder : ¬ (p.mailbox d).underflow = true := by
    rw [h]
    exact Bool.false_ne_true
  -- Of the bits beside the number none is in the field.
  rw [getCtrl, ctrl, if_neg hunder, hor, hor, hor, hflag _ _ (by decide), hflag _ _ (by decide),
    hflag _ _ (by decide), occupancy_ctrlCount, BitVec.zero_or, BitVec.zero_or, BitVec.zero_or,
    ← hcount, BitVec.ofNat_toNat]

/-- A message that is received is stamped with the last four bits of the counter. -/
theorem stamped_recvFrom {d s : Side} {msg : Message} (h : (recvFrom cfg d s p).2 = some msg) :
    (p.mailbox d).underflow = false ∧ stamped msg = (p.mailbox d).count.setWidth 4 := by
  unfold recvFrom at h
  split_ifs at h
  unfold recv at h
  dsimp only at h
  split_ifs at h with hunder
  refine ⟨Bool.eq_false_of_not_eq_true hunder, ?_⟩
  cases hinbox : (p.mailbox d).inbox with
  | nil =>
    rw [hinbox] at h
    cases h
  | cons first rest =>
    rw [hinbox] at h
    have hload := load_image_store_self first 0xC
      (leBytes 4 (ctrlCount (p.mailbox d).count).toNat) (by rw [leBytes_length])
    rw [leBytes_length] at hload
    have hlt : (ctrlCount (p.mailbox d).count).toNat < 256 ^ 4 :=
      (BitVec.isLt _).trans_eq (by decide)
    rw [← Option.some.inj h, stamped, Message.load, hload, ofLe_leBytes, mod_eq_of_lt hlt,
      BitVec.setWidth_ofNat_of_le (by decide),
      BitVec.ofNat_toNat, BitVec.setWidth_eq, occupancy_ctrlCount]

/-- Of `n` messages that are queued the one that is received reports what the control register does
exactly if `n`, as it is counted, is at most 15 or ends in 15, and it reports none exactly if `n` is
a multiple of 16. -/
theorem occupancy_iff {hist : List Op} {d s : Side} {msg : Message} {n : ℕ}
    (hn : ((run (step cfg) (init cfg) hist).mailbox d).inbox.length = n)
    (h : (recvFrom cfg d s (run (step cfg) (init cfg) hist)).2 = some msg) :
    (stamped msg = occupancy (getCtrl d s (run (step cfg) (init cfg) hist)) ↔
      n % 2 ^ 32 ≤ 15 ∨ n % 16 = 15) ∧ (stamped msg = 0 ↔ n % 16 = 0) := by
  have hinit : ((init cfg).mailbox d).core.Counted := by
    cases d <;> rfl
  have hcount : ((run (step cfg) (init cfg) hist).mailbox d).count.toNat = n % 2 ^ 32 := by
    rw [← hn]
    exact (congrArg BitVec.toNat (counted_run cfg d hinit hist)).trans (BitVec.toNat_ofNat _ _)
  obtain ⟨hunder, hstamp⟩ := stamped_recvFrom h
  have hmod : n % 2 ^ 32 % 16 = n % 16 := mod_mod_of_dvd n (by decide)
  rw [occupancy_getCtrl hunder, hstamp]
  constructor
  · rw [BitVec.toNat_eq, BitVec.toNat_setWidth, BitVec.toNat_ofNat]
    omega
  · rw [BitVec.toNat_eq, BitVec.toNat_setWidth, hcount]
    exact (congrArg (· = 0) hmod).to_iff

end

/-- The only message that is queued is received. -/
theorem occupancy_iff_sio :
    ∃ msg, (recvFrom sampleConfig .iop .ap (run (step sampleConfig) (init sampleConfig)
        [.reset .iop, .reset .ap, .sendIop fun _ => 7])).2 = some msg ∧
      stamped msg = occupancy (getCtrl .iop .ap (run (step sampleConfig) (init sampleConfig)
        [.reset .iop, .reset .ap, .sendIop fun _ => 7])) ∧ stamped msg ≠ 0 := by
  obtain ⟨msg, hmsg⟩ := Option.isSome_iff_exists.mp (show (recvFrom sampleConfig .iop .ap
    (run (step sampleConfig) (init sampleConfig)
      [.reset .iop, .reset .ap, .sendIop fun _ => 7])).2.isSome from by decide +kernel)
  obtain ⟨hsame, hnone⟩ := occupancy_iff (n := 1) (by decide +kernel) hmsg
  exact ⟨msg, hmsg, hsame.mpr (by decide), fun h => absurd (hnone.mp h) (by decide)⟩

/-- The message received from 16 that are queued says that there are none, where the control
register says 15. -/
theorem not_occupancy :
    let p := run (step sampleConfig) (init sampleConfig)
      ([.reset .iop, .reset .ap] ++ replicate 16 (.sendIop fun _ => 7))
    (recvFrom sampleConfig .iop .ap p).2.map stamped = some 0 ∧
      occupancy (getCtrl .iop .ap p) = 15 ∧ (p.mailbox .iop).inbox.length = 16 := by
  decide +kernel

end Inferno.A7iop
