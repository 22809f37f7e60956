import Inferno.I2c.Model

/-!
# The receive queue and the transactions of the I2C controller

Every command that receives pushes its bytes without a look at the room in the queue, so a sequence
of accesses runs without a failed assertion exactly if each such command finds room for all of its
bytes (`step_exactly`). As long as it does, the bytes that are read are those received, in their
order, except for those in the queue when it is cleared (`Conserves`).

Only `receive` and `readMrxfifo` touch the queue; all other parts of a command keep the queue and
the record of what the bus has returned (`queue`).

The address of a transfer is taken from the command that starts it, be it a start or a byte that
turns the transaction, so a transaction keeps its address only in some sequences of commands
(`Orderly`).
-/

namespace Inferno.I2c

open Common Fifo8 List Prod Option

variable {β : Type} {io : I2CBus β} {s s' : AppleI2CState β}

/-! ## The queue -/

/-- The queue and the bytes that the bus has returned. -/
def queue (s : AppleI2CState β) : RingFifo8 × List UInt8 := (s.rxFifo, s.received)

variable {s'' : AppleI2CState β} {bs : List UInt8} {values : List (BitVec 32)}

theorem queue_appleI2cUpdateIrq : queue (appleI2cUpdateIrq s) = queue s := by
  unfold appleI2cUpdateIrq
  dsimp only
  split_ifs <;> rfl

theorem queue_startTransfer (io : I2CBus β) (addr : UInt8) :
    queue (startTransfer io s addr).2 = queue s := by
  unfold startTransfer
  dsimp only
  split_ifs <;> rfl

variable (value : BitVec 32)

theorem queue_mtxStart : queue (mtxStart io s value).2 = queue s := by
  unfold mtxStart
  have hstart := queue_startTransfer io (i2cAddr value)
    (s := { s with isRecv := kMTXFIFOData value &&& 1 ≠ 0 })
  split
  · next s₁ heq =>
    rw [heq] at hstart
    exact hstart
  · next s₁ heq =>
    rw [heq] at hstart
    exact hstart

theorem queue_turn (io : I2CBus β) (value : BitVec 32) (isRecv : Bool) :
    queue (turn io s value isRecv).2 = queue s := by
  unfold turn
  split_ifs
  · rfl
  · exact queue_startTransfer io _

theorem queue_mtxWrite : queue (mtxWrite io s value).2 = queue s := by
  unfold mtxWrite
  have hturn := queue_turn io (s := s) value false
  split
  · next s₁ heq =>
    rw [heq] at hturn
    exact hturn
  · next s₁ heq =>
    rw [heq] at hturn
    dsimp only
    split_ifs <;> exact hturn

theorem queue_receiveStatus : queue (receiveStatus s value) = queue s := by
  unfold receiveStatus
  dsimp only
  split_ifs <;> rfl

theorem queue_mtxStop : queue (mtxStop io s value) = queue s := by
  unfold mtxStop
  split_ifs <;> rfl

/-! ## Receiving -/

/-- Bytes have been received and pushed to the queue. -/
structure Receives (s : AppleI2CState β) (bs : List UInt8) (s' : AppleI2CState β) : Prop where
  contents : s'.rxFifo.contents = s.rxFifo.contents ++ bs
  received : s'.received = s.received ++ bs
  capacity : s'.rxFifo.capacity = s.rxFifo.capacity

theorem receives_nil (h : queue s' = queue s) : Receives s [] s' := by
  obtain ⟨hfifo, hreceived⟩ := mk.inj h
  exact ⟨by rw [hfifo, append_nil], by rw [hreceived, append_nil], by rw [hfifo]⟩

section

variable {s₀ : AppleI2CState β} {bs : List UInt8} (h : Receives s bs s')

include h

theorem Receives.of_queue (hq : queue s'' = queue s') : Receives s bs s'' := by
  obtain ⟨hfifo, hreceived⟩ := mk.inj hq
  exact ⟨by rw [hfifo, h.contents], by rw [hreceived, h.received], by rw [hfifo, h.capacity]⟩

theorem Receives.from_queue (hq : queue s = queue s₀) : Receives s₀ bs s' := by
  obtain ⟨hfifo, hreceived⟩ := mk.inj hq
  exact ⟨by rw [← hfifo, h.contents], by rw [← hreceived, h.received], by rw [← hfifo, h.capacity]⟩

theorem Receives.num : s'.rxFifo.num = s.rxFifo.num + bs.length := by
  rw [← s'.rxFifo.length_contents, h.contents, length_append, s.rxFifo.length_contents]

end

section

variable (io : I2CBus β)

section

variable (n : ℕ) (s : AppleI2CState β)

theorem receive_exactly : Exactly (receive io s) (s.rxFifo.num + 1 ≤ s.rxFifo.capacity) fun s' =>
      Receives s [(io.recv s.bus).1] s' := by
  refine (fifo8Push_exactly s.rxFifo (io.recv s.bus).1).map ?_
  rintro f ⟨hcontents, hcapacity⟩
  exact ⟨hcontents, rfl, hcapacity⟩

theorem receiveLoop_exactly :
    Exactly (receiveLoop io n s) (s.rxFifo.num + n ≤ s.rxFifo.capacity) fun s' =>
      ∃ bs : List UInt8, bs.length = n ∧ Receives s bs s' := by
  induction n generalizing s with
  | zero => exact exactly_some s.rxFifo.num_le ⟨[], rfl, receives_nil rfl⟩
  | succ n ih =>
    -- The room for the rest after the first byte is the room for all of them before it.
    have hnext : ∀ s₁, Receives s [(io.recv s.bus).1] s₁ →
        Exactly (receiveLoop io n s₁) (s.rxFifo.num + (n + 1) ≤ s.rxFifo.capacity) fun s' =>
          ∃ bs : List UInt8, bs.length = n + 1 ∧ Receives s bs s' := by
      intro s₁ h₁
      have hnum := h₁.num
      rw [length_singleton] at hnum
      refine (ih s₁).imp ?_ ?_
      · rw [h₁.capacity]
        omega
      · rintro - s' ⟨bs, hlength, h'⟩
        refine ⟨(io.recv s.bus).1 :: bs, by rw [length_cons, hlength], ?_, ?_, ?_⟩
        · rw [h'.contents, h₁.contents, append_assoc, singleton_append]
        · rw [h'.received, h₁.received, append_assoc, singleton_append]
        · rw [h'.capacity, h₁.capacity]
    refine ((receive_exactly io s).bind hnext).imp ?_ fun _ _ h => h
    omega

/-! ## Commands -/

/-- The number of bytes that a command receives. -/
def received (value : BitVec 32) : ℕ :=
  if value &&& kMTXFIFOStart = 0 ∧ s.xip = true ∧ value &&& kMTXFIFORead ≠ 0 ∧
    (turn io s value true).1 = true then (kMTXFIFOData value).toNat
  else 0

end

end

/-- A command is carried out exactly if there is room for what it receives. -/
theorem mtxKind_exactly (io : I2CBus β) (s : AppleI2CState β) {value : BitVec 32} :
    Exactly (mtxKind io s value) (s.rxFifo.num + received io s value ≤ s.rxFifo.capacity)
      fun p => ∃ bs, Receives s bs p.2 := by
  have hle := s.rxFifo.num_le
  unfold mtxKind received
  by_cases hstart : value &&& kMTXFIFOStart = 0
  · rw [if_neg (not_not.mpr hstart)]
    -- Outside of a transaction a command has no effect.
    cases hxip : s.xip with
    | false => exact exactly_some (by simpa using hle) ⟨[], receives_nil rfl⟩
    | true =>
      rw [if_pos rfl]
      by_cases hread : value &&& kMTXFIFORead = 0
      · rw [if_neg (not_not.mpr hread), if_neg (fun h => h.2.2.1 hread)]
        exact exactly_some hle ⟨[], receives_nil (queue_mtxWrite value)⟩
      · rw [if_pos hread, mtxRead]
        have hturn := queue_turn io (s := s) value true
        split
        · next s₁ heq =>
          rw [heq] at hturn ⊢
          -- The turn has failed, and nothing is received.
          rw [if_neg (by simp)]
          exact exactly_some hle ⟨[], receives_nil hturn⟩
        · next s₁ heq =>
          rw [heq] at hturn ⊢
          rw [if_pos ⟨hstart, rfl, hread, rfl⟩]
          obtain ⟨hfifo, -⟩ := mk.inj hturn
          have hloop := receiveLoop_exactly io (kMTXFIFOData value).toNat s₁
          rw [hfifo] at hloop
          refine hloop.map ?_
          rintro s₂ ⟨bs, -, hreceives⟩
          exact ⟨bs, (hreceives.from_queue hturn).of_queue (queue_receiveStatus value)⟩
  · rw [if_pos hstart, if_neg (fun h => hstart h.1)]
    exact exactly_some hle ⟨[], receives_nil (queue_mtxStart value)⟩

theorem writeMtxfifo_exactly (io : I2CBus β) (s : AppleI2CState β) {value : BitVec 32} :
    Exactly (writeMtxfifo io s value) (s.rxFifo.num + received io s value ≤ s.rxFifo.capacity)
      fun s' => ∃ bs, Receives s bs s' := by
  refine (mtxKind_exactly io s).map ?_
  rintro ⟨goesOn, s'⟩ ⟨bs, h⟩
  refine ⟨bs, ?_⟩
  cases goesOn with
  | true => exact h.of_queue (queue_mtxStop value)
  | false => exact h

/-! ## Operations -/

section

variable (io : I2CBus β)

/-- The number of bytes that an operation pushes to the queue. -/
def pushes (s : AppleI2CState β) : Op → ℕ
  | .write word value => if 4 * word.val = regMtxfifo then received io s value else 0
  | .read _ | .reset => 0

/-- Whether an operation clears the queue. -/
def Op.clears : Op → Bool
  | .write word value => 4 * word.val = regCtl ∧ value &&& kCTLMRR ≠ 0
  | .read _ => false
  | .reset => true

/-- The byte in what an operation returns: a read of `MRXFIFO` returns one, unless it returns
`kMRXFIFOEmpty`. -/
def Op.byteRead : Op → BitVec 32 → Option UInt8
  | .read word, value =>
    if 4 * word.val = regMrxfifo ∧ value &&& kMRXFIFOEmpty = 0 then
      some (UInt8.ofBitVec (value.setWidth 8))
    else none
  | .write _ _, _ | .reset, _ => none

/-- From a state to another one, the bytes in the queue and those received are those read and those
in the queue then. -/
def Conserves (s : AppleI2CState β) (out : List UInt8) (s' : AppleI2CState β) : Prop :=
  ∃ bs, s'.received = s.received ++ bs ∧ s.rxFifo.contents ++ bs = out ++ s'.rxFifo.contents

theorem Receives.conserves (h : Receives s bs s') : Conserves s [] s' :=
  ⟨bs, h.received, by rw [h.contents, nil_append]⟩

/-- One stretch after another. -/
theorem Conserves.trans {out out' : List UInt8} (h : Conserves s out s')
    (h' : Conserves s' out' s'') : Conserves s (out ++ out') s'' := by
  obtain ⟨bs, hreceived, hcontents⟩ := h
  obtain ⟨bs', hreceived', hcontents'⟩ := h'
  refine ⟨bs ++ bs', by rw [hreceived', hreceived, append_assoc], ?_⟩
  rw [← append_assoc, hcontents, append_assoc, hcontents', append_assoc]

/-- What an operation leaves: a queue of the same length, in which nothing is lost unless the
operation clears it. -/
structure Keeps (s : AppleI2CState β) (op : Op) (value : BitVec 32) (s' : AppleI2CState β) :
    Prop where
  capacity : s'.rxFifo.capacity = s.rxFifo.capacity
  /-- A cleared queue is empty. -/
  cleared : op.clears = true → s'.rxFifo.contents = []
  /-- Another one has lost nothing. -/
  conserves : op.clears = false → Conserves s (op.byteRead value).toList s'

/-- A byte does not read as `kMRXFIFOEmpty`. -/
theorem kMRXFIFOData_and_empty (b : UInt8) : kMRXFIFOData b &&& kMRXFIFOEmpty = 0 := by
  have hempty : kMRXFIFOEmpty = BitVec.twoPow 32 8 := rfl
  have hbit : (b.toBitVec.setWidth 32).getLsbD 8 = false := by
    rw [BitVec.getLsbD_setWidth, BitVec.getLsbD_of_ge _ _ (Nat.le_refl 8), Bool.and_false]
  rw [hempty, BitVec.and_twoPow, kMRXFIFOData, hbit]
  rfl

section

variable (s : AppleI2CState β) {word : Fin 0x4000}

theorem byteRead_kMRXFIFOData (h : 4 * word.val = regMrxfifo) (b : UInt8) :
    Op.byteRead (.read word) (kMRXFIFOData b) = some b := by
  have hbyte : UInt8.ofBitVec ((kMRXFIFOData b).setWidth 8) = b := by
    rw [kMRXFIFOData, BitVec.setWidth_setWidth_of_le _ (by decide), BitVec.setWidth_eq]
  rw [Op.byteRead, if_pos ⟨h, kMRXFIFOData_and_empty b⟩, hbyte]

/-- A read returns, and the byte that it returns was the first in the queue. -/
theorem appleI2cRegRead_keeps (word : Fin 0x4000) :
    ∃ value s', appleI2cRegRead s (4 * word) = some (value, s') ∧
      Keeps s (.read word) value s' := by
  by_cases hrx : 4 * word.val = regMrxfifo
  · rw [appleI2cRegRead, if_pos hrx, readMrxfifo]
    by_cases hempty : s.rxFifo.num = 0
    · rw [if_pos (by simpa [fifo8IsEmpty] using hempty)]
      have hnone : Op.byteRead (.read word) kMRXFIFOEmpty = none := if_neg fun h => nomatch h.2
      refine ⟨_, s, rfl, rfl, nofun, fun _ => ?_⟩
      rw [hnone]
      exact (receives_nil rfl).conserves
    · rw [if_neg (by simpa [fifo8IsEmpty] using hempty)]
      have hpop : fifo8Pop s.rxFifo =
          some (s.rxFifo.data s.rxFifo.head, ⟨s.rxFifo.pop, s.rxFifo.capacity_le⟩) :=
        if_pos (Nat.pos_of_ne_zero hempty)
      obtain ⟨hcontents, hcapacity⟩ := fifo8Pop_eq_some hpop
      rw [hpop]
      refine ⟨_, _, rfl, hcapacity, nofun, fun _ => ⟨[], ?_, ?_⟩⟩
      · rw [append_nil]
      · rw [byteRead_kMRXFIFOData hrx, append_nil]
        exact hcontents
  · -- The other registers return no byte and leave the state alone.
    have hnone : ∀ value, Op.byteRead (.read word) value = none := fun value =>
      if_neg fun h => hrx h.1
    have hkeeps : ∀ value, Keeps s (.read word) value s := by
      intro value
      refine ⟨rfl, nofun, fun _ => ?_⟩
      rw [hnone]
      exact (receives_nil rfl).conserves
    rw [appleI2cRegRead]
    split_ifs
    · exact ⟨_, s, rfl, hkeeps _⟩
    · exact ⟨_, s, rfl, hkeeps _⟩
    · exact ⟨_, s, rfl, hkeeps _⟩

/-- A write elsewhere than to `MTXFIFO` returns, and clears the queue or leaves it alone. -/
theorem appleI2cRegWrite_keeps (hword : 4 * word.val ≠ regMtxfifo) (value : BitVec 32) :
    ∃ s', appleI2cRegWrite io s (4 * word) value = some s' ∧ Keeps s (.write word value) 0 s' := by
  have hkeeps : ∀ s', queue s' = queue s → Op.clears (.write word value) = false →
      Keeps s (.write word value) 0 s' := by
    intro s' hqueue hclears
    have hreceives := receives_nil hqueue
    refine ⟨hreceives.capacity, fun h => ?_, fun _ => hreceives.conserves⟩
    rw [hclears] at h
    cases h
  have hclears : 4 * word.val ≠ regCtl → Op.clears (.write word value) = false := fun h =>
    decide_eq_false fun hboth => h hboth.1
  rw [appleI2cRegWrite, if_neg hword]
  split_ifs with hsmsta himask hctl
  · have hne : 4 * word.val ≠ regCtl := by rw [hsmsta]; decide
    exact ⟨_, rfl, hkeeps _ (queue_appleI2cUpdateIrq.trans rfl) (hclears hne)⟩
  · have hne : 4 * word.val ≠ regCtl := by rw [himask]; decide
    exact ⟨_, rfl, hkeeps _ (queue_appleI2cUpdateIrq.trans rfl) (hclears hne)⟩
  · refine ⟨_, rfl, ?_⟩
    unfold resetRx
    split_ifs with hmrr
    · have hclear : Op.clears (.write word value) = true := decide_eq_true ⟨hctl, hmrr⟩
      refine ⟨rfl, fun _ => s.rxFifo.contents_clear, fun h => ?_⟩
      rw [hclear] at h
      cases h
    · exact hkeeps _ rfl (decide_eq_false fun hboth => hmrr hboth.2)
  · exact ⟨_, rfl, hkeeps _ rfl (hclears hctl)⟩

/-- An operation is carried out exactly if there is room for the bytes that it pushes. -/
theorem step_exactly {op : Op} :
    Exactly (step io s op) (s.rxFifo.num + pushes io s op ≤ s.rxFifo.capacity) fun p =>
      Keeps s op p.1 p.2 := by
  cases op with
  | write word value =>
    by_cases hword : 4 * word.val = regMtxfifo
    · have hclears : Op.clears (.write word value) = false :=
        decide_eq_false fun hboth => absurd (hword.symm.trans hboth.1) (by decide)
      rw [step, appleI2cRegWrite, if_pos hword, pushes, if_pos hword, Option.map_map]
      refine (writeMtxfifo_exactly io s).map ?_
      rintro s' ⟨bs, h⟩
      have hreceives := h.of_queue (queue_appleI2cUpdateIrq (s := setReg s' (4 * word) value))
      refine ⟨hreceives.capacity, fun hclear => ?_, fun _ => hreceives.conserves⟩
      rw [hclears] at hclear
      cases hclear
    · obtain ⟨s', hwrite, hkeeps⟩ := appleI2cRegWrite_keeps io s hword value
      rw [step, hwrite, pushes, if_neg hword]
      exact exactly_some s.rxFifo.num_le hkeeps
  | read word =>
    obtain ⟨value, s', hread, hkeeps⟩ := appleI2cRegRead_keeps s word
    rw [step, hread]
    exact exactly_some s.rxFifo.num_le hkeeps
  | reset =>
    refine exactly_some s.rxFifo.num_le ⟨rfl, fun _ => s.rxFifo.contents_clear, fun h => ?_⟩
    cases h

end

end

/-! ## Runs -/

/-- The bytes in what a sequence of operations has returned. -/
def bytesRead (ops : List Op) (values : List (BitVec 32)) : List UInt8 :=
  (zipWith (fun op value => (Op.byteRead op value).toList) ops values).flatten

/-- A sequence of operations that does not clear the queue loses nothing. -/
theorem conserves_replies {ops : List Op} (hops : ∀ op ∈ ops, op.clears = false)
    (h : replies (step io) s ops = some (values, s')) : Conserves s (bytesRead ops values) s' := by
  induction ops generalizing s values with
  | nil =>
    obtain ⟨rfl, rfl⟩ := mk.inj (some.inj h)
    exact (receives_nil rfl).conserves
  | cons op ops ih =>
    obtain ⟨value, s₁, values', hfirst, hrest, rfl⟩ := replies_cons_eq_some.mp h
    obtain ⟨-, hkeeps⟩ := (step_exactly io s).of_some hfirst
    have hone := hkeeps.conserves (hops op mem_cons_self)
    exact hone.trans (ih (fun op' hop' => hops op' (mem_cons_of_mem op hop')) hrest)

/-- The length of the queue stays as it was created. -/
theorem capacity_replies {bus : β} {data : ℕ → UInt8} {ops : List Op}
    (h : replies (step io) (appleI2cCreate bus data) ops = some (values, s)) :
    s.rxFifo.capacity = 0x100 := by
  refine invariant_replies (I := fun s => s.rxFifo.capacity = 0x100) ?_ rfl h
  intro s op value s' hs hstep
  obtain ⟨-, hkeeps⟩ := (step_exactly io s).of_some hstep
  exact hkeeps.capacity.trans hs

/-- No assertion fails in a sequence of operations exactly if every one of them finds room for the
bytes that it pushes. The queue never holds more than `0x100` bytes, and between two places without
a clearing in between, what was in the queue and was received is what was read and is in the queue.
-/
theorem i2c_rx_fifo_iff (io : I2CBus β) (bus : β) (data : ℕ → UInt8) (ops : List Op) :
    ((∃ values s, replies (step io) (appleI2cCreate bus data) ops = some (values, s)) ↔
      ∀ pre op post, ops = pre ++ op :: post → ∀ values s,
        replies (step io) (appleI2cCreate bus data) pre = some (values, s) →
          s.rxFifo.num + pushes io s op ≤ 0x100) ∧
    ∀ pre, ∀ values s, replies (step io) (appleI2cCreate bus data) pre = some (values, s) →
      s.rxFifo.num ≤ 0x100 ∧
      ∀ seg : List Op, (∀ op ∈ seg, op.clears = false) → ∀ values' s',
        replies (step io) s seg = some (values', s') → Conserves s (bytesRead seg values') s' := by
  refine ⟨?_, fun pre values s hpre => ⟨?_, fun seg hseg values' s' hrun => ?_⟩⟩
  · refine exists_replies_iff (I := fun s => s.rxFifo.capacity = 0x100) (fun s op hs => ?_) rfl
    refine (step_exactly io s).imp (by rw [hs]) fun _ p hkeeps => ?_
    exact hkeeps.capacity.trans hs
  · rw [← capacity_replies hpre]
    exact s.rxFifo.num_le
  · exact conserves_replies hseg hrun

/-- A bus with a device that answers with zeros. -/
def zeroBus : I2CBus Unit where
  startTransfer _ _ _ := (false, ())
  send _ _ := (false, ())
  recv _ := (0, ())
  endTransfer _ := ()

/-- A transaction that receives 255 bytes goes well; one that receives them twice fails the
assertion of `fifo8_push`. -/
theorem i2c_rx_fifo_overfull : (replies (step zeroBus) (appleI2cCreate () fun _ => 0)
      [.write 0 0x101, .write 0 0x4FF]).isSome = true ∧
    (replies (step zeroBus) (appleI2cCreate () fun _ => 0)
      [.write 0 0x101, .write 0 0x4FF, .write 0 0x4FF]).isNone = true := by
  decide +kernel

/-! ## The address of a transaction -/

section Address

variable (io : I2CBus β)

/-- The bus with an observer of its calls. -/
structure Watched (β : Type) where
  bus : β
  /-- The command in progress is a start. -/
  start : Bool
  /-- The address that the last start names. -/
  named : UInt8
  /-- A start went well, and since then none failed and no transfer ended. -/
  live : Bool
  /-- All transfers were started with the address named, and bytes moved only while live. -/
  kept : Bool

def watch : I2CBus (Watched β) where
  startTransfer w addr isRecv :=
    let (failed, bus) := io.startTransfer w.bus addr isRecv
    (failed, { w with
      bus, live := !failed && (w.start || w.live), kept := w.kept && addr == w.named })
  send w b :=
    let (failed, bus) := io.send w.bus b
    (failed, { w with bus, kept := w.kept && w.live })
  recv w :=
    let (b, bus) := io.recv w.bus
    (b, { w with bus, kept := w.kept && w.live })
  endTransfer w := { w with bus := io.endTransfer w.bus, live := false }

variable (s : AppleI2CState (Watched β)) (value : BitVec 32)

/-- The observer is told of a command. -/
def observe : AppleI2CState (Watched β) :=
  if value &&& kMTXFIFOStart ≠ 0 then
    { s with bus := { s.bus with start := true, named := i2cAddr value } }
  else { s with bus := { s.bus with start := false } }

/-- A command is written to `MTXFIFO`, unless an assertion has failed before. -/
def command (o : Option (AppleI2CState (Watched β))) (value : BitVec 32) :
    Option (AppleI2CState (Watched β)) :=
  o.bind fun s => writeMtxfifo (watch io) (observe s value) value

def created (bus : β) (data : ℕ → UInt8) : Option (AppleI2CState (Watched β)) :=
  some (appleI2cCreate ⟨bus, false, 0, false, true⟩ data)

/-- In a transaction, a command turns it only with the address named, and moves bytes only while
live. -/
def Orderly : Prop :=
  let recv : Bool := value &&& kMTXFIFORead ≠ 0
  value &&& kMTXFIFOStart = 0 → s.xip = true → (s.isRecv = recv ∨ i2cAddr value = s.bus.named) ∧
      ((turn (watch io) s value recv).1 = true →
        (recv = true ∧ (kMTXFIFOData value).toNat = 0) ∨ s.bus.live = true)

variable {s value}

theorem turn_watch (hstart : s.bus.start = false) (value : BitVec 32) (recv : Bool) :
    ((turn (watch io) s value recv).2.bus.kept = true ↔
      s.bus.kept = true ∧ (s.isRecv = recv ∨ i2cAddr value = s.bus.named)) ∧
    ((turn (watch io) s value recv).1 = true →
      (turn (watch io) s value recv).2.bus.live = s.bus.live) := by
  unfold turn startTransfer
  dsimp only
  split_ifs <;> simp_all [watch, setSmsta, setReg]

theorem kept_receiveLoop {n : ℕ} {s' : AppleI2CState (Watched β)}
    (h : receiveLoop (watch io) n s = some s') :
    s'.bus.kept = true ↔ s.bus.kept = true ∧ (n = 0 ∨ s.bus.live = true) := by
  induction n generalizing s with
  | zero => simp_all [receiveLoop]
  | succ n ih =>
    obtain ⟨s₁, hone, hrest⟩ := bind_eq_some_iff.mp h
    obtain ⟨f, -, rfl⟩ := map_eq_some_iff.mp hone
    rw [ih hrest]
    simp [watch]
    tauto

theorem kept_mtxKind {p : Bool × AppleI2CState (Watched β)} (hkept : s.bus.kept = true)
    (h : mtxKind (watch io) (observe s value) value = some p) :
    p.2.bus.kept = true ↔ Orderly io (observe s value) value := by
  unfold mtxKind at h
  unfold Orderly
  by_cases hstart : value &&& kMTXFIFOStart = 0
  · have hobserve : (observe s value).bus.start = false ∧ (observe s value).bus.kept = true := by
      unfold observe
      rw [if_neg (not_not.mpr hstart)]
      exact ⟨rfl, hkept⟩
    obtain ⟨hfalse, hkept⟩ := hobserve
    have hturn := turn_watch io hfalse value
    rw [if_neg (not_not.mpr hstart)] at h
    split_ifs at h with hxip
    · rw [mtxRead] at h
      split at h
      · next s₁ heq =>
        obtain rfl := some.inj h
        simp_all
      · next s₁ heq =>
        obtain ⟨s₂, hloop, rfl⟩ := map_eq_some_iff.mp h
        have hstatus : (receiveStatus s₂ value).bus = s₂.bus := by
          unfold receiveStatus
          dsimp only
          split_ifs <;> rfl
        simp_all [kept_receiveLoop io hloop]
    · obtain rfl := some.inj h
      rw [mtxWrite]
      split
      · simp_all
      · dsimp only
        split_ifs <;> simp_all [watch, setSmsta, setReg]
    · obtain rfl := some.inj h
      exact iff_of_true hkept fun _ h => absurd h hxip
  · rw [if_pos hstart] at h
    obtain rfl := some.inj h
    refine iff_of_true ?_ fun h => absurd h hstart
    unfold mtxStart startTransfer
    dsimp only
    split_ifs <;> simp_all [watch, observe, setSmsta, setReg]

/-- A transaction keeps its address in a sequence of commands exactly when all of them are
orderly. -/
theorem i2c_address_iff (bus : β) (data : ℕ → UInt8) (values : List (BitVec 32)) :
    Throughout (command io) (fun o => ∀ s ∈ o, s.bus.kept = true) (created bus data) values ↔
    Guarded (command io) (fun o value => ∀ s ∈ o, command io o value ≠ none →
      Orderly io (observe s value) value) (created bus data) values := by
  refine throughout_iff_guarded (fun o value hkept => ?_) (by rintro s ⟨⟩; rfl)
  cases o with
  | none => simp [command]
  | some s =>
    rw [command, bind_some, writeMtxfifo]
    cases hkind : mtxKind (watch io) (observe s value) value with
    | none => simp
    | some p =>
      have hstop : (if p.1 then mtxStop (watch io) p.2 value else p.2).bus.kept = p.2.bus.kept := by
        unfold mtxStop
        split_ifs <;> rfl
      simp [hstop, kept_mtxKind io (hkept s rfl) hkind]

/-- One byte received in a transaction with the device `0x10` comes from a transfer that is started
with the device 0. -/
theorem not_i2c_address : ¬ Throughout (command zeroBus) (fun o => ∀ s ∈ o, s.bus.kept = true)
    (created () fun _ => 0) [0x120, 0x401] := by
  rintro ⟨-, -, h⟩
  exact absurd (h _ rfl) (by decide +kernel)

end Address

end Inferno.I2c
