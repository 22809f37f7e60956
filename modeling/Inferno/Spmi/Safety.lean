import Inferno.Spmi.Model

/-!
# Which accesses the controller survives

Two numbers decide whether an access fails an assertion: how many words are in the response queue,
and how many data words are still to come (`View`). Neither the pushes nor the opcode are checked
before they are asserted, so each access succeeds exactly when the view allows it (`step_exactly`),
and a run goes on exactly when the view allows all of its accesses (`spmi_safely_iff`).
-/

namespace Inferno.Spmi

open Common Fifo32

/-- What the guest and the machine do to the controller. -/
inductive Op where
  /-- A write of a queue register, during which the slaves behave as said. -/
  | queueWrite (index : Fin 64) (value : BitVec 32) (bus : Bus)
  | queueRead (index : Fin 64)
  | controlWrite (index : Fin 64) (value : BitVec 32)
  | controlRead (index : Fin 64)
  | setIrq (irq : Fin 288) (level : Bool)
  | reset

variable (s : AppleSPMIState)

/-- The state after an operation, if no assertion fails. -/
def step : Op → Option AppleSPMIState
  | .queueWrite index value bus => appleSpmiQueueRegWrite s index value bus
  | .queueRead index => (appleSpmiQueueRegRead s index).map Prod.snd
  | .controlWrite index value => some (appleSpmiControlWrite s index value)
  | .controlRead _ => some s
  | .setIrq irq level => some (appleSpmiSetIrq s irq level)
  | .reset => some (appleSpmiReset s)

/-! ## The view -/

/-- What tells whether an access fails. -/
structure View where
  /-- The words in the response queue. -/
  queued : ℕ
  /-- The data words that are still to come for a write request, if one is not complete. -/
  awaited : Option ℕ
  deriving DecidableEq

/-- The request is answered at once: it is no write, it has data and the slave takes it. -/
def answered (value : BitVec 32) (bus : Bus) : Bool :=
  !isWrite value && bus.accepts value && (spmiDataLength value ≠ 0)

namespace View

variable (v : View)

variable (value : BitVec 32)

/-- The view after a word was written to the request queue. -/
def push (bus : Bus) : View :=
  match v.awaited with
  | none =>
    if isWrite value then { v with awaited := some (dataWords value) }
    else if answered value bus then { v with queued := v.queued + (1 + dataWords value) }
    else v
  | some n => if n ≤ 1 then ⟨v.queued + 1, none⟩ else { v with awaited := some (n - 1) }

/-- The view after an operation. -/
def step : Op → View
  | .queueWrite index value bus => if index = reqQueuePush then v.push value bus else v
  | .queueRead index => if index = rspQueuePop then { v with queued := v.queued - 1 } else v
  | .controlWrite index value =>
    if index = controlQueueReset ∧ value.getLsbD 1 then { v with queued := 0 } else v
  | .controlRead _ => v
  | .setIrq _ _ => v
  | .reset => ⟨0, none⟩

/-- A word can be written to the request queue: what is answered at once is a read, and there is
room for the answer; the last data word of a write finds room for its acknowledgement. -/
def AllowsPush (bus : Bus) : Prop :=
  match v.awaited with
  | none => answered value bus = true → (spmiOpcode value = extRead ∨ spmiOpcode value = extReadL) ∧
        v.queued + (1 + dataWords value) ≤ 0x100
  | some n => n ≤ 1 → v.queued + 1 ≤ 0x100

/-- An operation can be performed. -/
def Allows : Op → Prop
  | .queueWrite index value bus => index = reqQueuePush → v.AllowsPush value bus
  | _ => True

end View

/-- The view of a state. -/
def view : View :=
  ⟨s.respFifo.data.length / 4, s.data.map fun _ => s.dataLength - s.dataFilled⟩

/-- The state is one that the view `v` stands for. -/
structure Stands (v : View) (s : AppleSPMIState) : Prop where
  queued : Words 0x100 v.queued s.respFifo
  /-- The data words still to come are what is missing of the allocation. -/
  awaited : match v.awaited with
    | none => s.data = none
    | some n => ∃ data, s.data = some data ∧ data.length = s.dataLength ∧
        s.dataFilled + n = s.dataLength ∧ 0 < n

theorem Stands.view_eq {v : View} {s : AppleSPMIState} (h : Stands v s) : view s = v := by
  obtain ⟨queued, awaited⟩ := v
  obtain ⟨hqueued, hawaited⟩ := h
  have hlen : s.respFifo.data.length / 4 = queued := by
    rw [hqueued.length]
    exact Nat.mul_div_cancel_left _ (by decide)
  rw [view, hlen]
  cases awaited with
  | none => rw [show s.data = none from hawaited, Option.map_none]
  | some n =>
    obtain ⟨data, hdata, -, hsum, -⟩ := hawaited
    rw [hdata, Option.map_some, ← hsum, Nat.add_sub_cancel_left]

/-! ## What is left alone -/

variable {v : View} {s : AppleSPMIState}

section

variable {s' : AppleSPMIState} (h : Stands v s)

include h

theorem Stands.congr (hfifo : s'.respFifo = s.respFifo) (hdata : s'.data = s.data)
    (hlength : s'.dataLength = s.dataLength) (hfilled : s'.dataFilled = s.dataFilled) :
    Stands v s' := by
  obtain ⟨hqueued, hawaited⟩ := h
  refine ⟨hfifo ▸ hqueued, ?_⟩
  rw [hdata, hlength, hfilled]
  exact hawaited

theorem Stands.setIrq {irq : Fin 288} {level : Bool} : Stands v (appleSpmiSetIrq s irq level) :=
  h.congr rfl rfl rfl rfl

theorem Stands.updateQueuesStatus : Stands v (appleSpmiUpdateQueuesStatus s) :=
  h.setIrq

theorem Stands.updateIrq : Stands v (appleSpmiUpdateIrq s) :=
  h.congr rfl rfl rfl rfl

theorem Stands.finishWrite {index : Fin 64} {value : BitVec 32} {qflg iflg : Bool} :
    Stands v (finishWrite s index value qflg iflg) := by
  have hstored : Stands v
      { s with queueReg := fun i => if i = index then value else s.queueReg i } :=
    h.congr rfl rfl rfl rfl
  cases qflg <;> cases iflg
  · exact hstored
  · exact hstored.updateIrq
  · exact hstored.updateQueuesStatus
  · exact hstored.updateQueuesStatus.updateIrq

end

/-! ## Requests -/

theorem dataWords_pos {value : BitVec 32} (h : isWrite value = true) : 0 < dataWords value := by
  have hlen : spmiDataLength value ≠ 0 := by
    unfold spmiDataLength
    split_ifs with hclass
    · -- The opcodes of the class without data have bit 4 set and bit 5 clear.
      have h4 : value.getLsbD 4 = true := by simpa using congrArg (·.getLsbD 0) hclass
      have h5 : value.getLsbD 5 = false := by simpa using congrArg (·.getLsbD 1) hclass
      rw [isWrite, decide_eq_true_eq, spmiOpcode, if_pos hclass] at h
      rcases h with hop | hop
      · have hbit := congrArg (·.getLsbD 4) hop
        rw [BitVec.getLsbD_setWidth, BitVec.getLsbD_and, h4] at hbit
        exact absurd hbit (by decide)
      · have hbit := congrArg (·.getLsbD 5) hop
        rw [BitVec.getLsbD_setWidth, BitVec.getLsbD_and, h5] at hbit
        exact absurd hbit (by decide)
    · exact Nat.succ_ne_zero _
  unfold dataWords
  omega

theorem recvWords_length (bytes : List UInt8) (value : BitVec 32) :
    (recvWords bytes (spmiDataLength value)).length = dataWords value := by
  simp [recvWords, dataWords]

section

variable {queued : ℕ} (h : Stands ⟨queued, none⟩ s) (value : BitVec 32)

include h

theorem openRequest_stands : Stands ⟨queued, if isWrite value then some (dataWords value) else none⟩
      (openRequest s value) := by
  unfold openRequest
  by_cases hwrite : isWrite value = true
  · rw [if_pos hwrite, if_pos hwrite]
    exact ⟨h.queued, _, rfl, List.length_replicate, Nat.zero_add _, dataWords_pos hwrite⟩
  · rw [if_neg hwrite, if_neg hwrite]
    exact h.congr rfl rfl rfl rfl

theorem answerRequest_exactly (bus : Bus) : Exactly (answerRequest s value bus)
      ((spmiOpcode value = extRead ∨ spmiOpcode value = extReadL) ∧
        queued + (1 + dataWords value) ≤ 0x100)
      (Stands ⟨queued + (1 + dataWords value), none⟩) := by
  unfold answerRequest
  split_ifs with hread
  · have hpush := foldlM_fifo32Push h.queued (ackWord value (bus.recv (spmiDataLength value)).1 ::
        recvWords (bus.recv (spmiDataLength value)).2 (spmiDataLength value))
    rw [List.length_cons, recvWords_length, Nat.add_comm (dataWords value)] at hpush
    refine (hpush.map fun fifo hfifo => ?_).imp (and_iff_right hread).symm fun _ _ h => h
    have hstands : Stands ⟨queued + (1 + dataWords value), none⟩ { s with respFifo := fifo } :=
      ⟨hfifo, h.awaited⟩
    exact hstands.finishWrite
  · exact exactly_none fun hboth => hread hboth.1

theorem newRequest_exactly (bus : Bus) :
    Exactly (newRequest s value bus) (View.AllowsPush ⟨queued, none⟩ value bus)
      (Stands (View.push ⟨queued, none⟩ value bus)) := by
  have hopen := openRequest_stands h value
  simp only [newRequest, View.AllowsPush, View.push]
  by_cases hwrite : isWrite value = true
  · -- A write opens an allocation for its data words, and is answered behind the last of them.
    have hanswered : answered value bus = false := by simp [answered, hwrite]
    rw [if_pos hwrite] at hopen ⊢
    obtain ⟨data, hdata, -⟩ := hopen.awaited
    rw [hanswered, hdata]
    by_cases haccept : bus.accepts value = true
    · rw [if_neg (not_not.mpr haccept)]
      exact exactly_some (by simp) (hopen.finishWrite)
    · rw [if_pos haccept]
      exact exactly_some (by simp) hopen
  · -- Any other request is answered at once, if it has data and the slave takes it.
    rw [if_neg hwrite] at hopen ⊢
    have hdata : (openRequest s value).data = none := hopen.awaited
    rw [hdata]
    by_cases haccept : bus.accepts value = true
    · rw [if_neg (not_not.mpr haccept)]
      by_cases hlen : spmiDataLength value = 0
      · have hanswered : answered value bus = false := by simp [answered, hlen]
        rw [hanswered, if_neg (fun hboth => hboth.2 hlen)]
        exact exactly_some (by simp) (hopen.finishWrite)
      · have hanswered : answered value bus = true := by simp [answered, hlen, haccept, hwrite]
        rw [hanswered, if_pos ⟨rfl, hlen⟩]
        refine (answerRequest_exactly hopen value bus).imp ?_ fun _ _ h => h
        exact ⟨fun h _ => h, fun h => h rfl⟩
    · have hanswered : answered value bus = false := by simp [answered, haccept]
      rw [if_pos haccept, hanswered]
      exact exactly_some (by simp) hopen

end

theorem dataWord_exactly {queued n : ℕ} (h : Stands ⟨queued, some n⟩ s)
    {data : List (BitVec 32)} (hdata : s.data = some data) {value : BitVec 32} (bus : Bus) :
    Exactly (dataWord s data value bus) (View.AllowsPush ⟨queued, some n⟩ value bus)
      (Stands (View.push ⟨queued, some n⟩ value bus)) := by
  obtain ⟨hqueued, data', hdata', hlength, hsum, hpos⟩ := h
  obtain rfl : data = data' := Option.some.inj (hdata.symm.trans hdata')
  simp only [dataWord, View.push]
  rw [if_pos (show s.dataFilled < data.length by omega)]
  by_cases hlast : n ≤ 1
  · -- The last word is acknowledged by a word in the response queue.
    rw [if_pos (show s.dataLength ≤ s.dataFilled + 1 by omega), if_pos hlast]
    refine ((fifo32Push_exactly hqueued).map fun fifo hfifo => ?_).imp ?_ fun _ _ h => h
    · have hstands : Stands ⟨queued + 1, none⟩
          { s with respFifo := fifo, data := none, dataLength := 0,
                   dataFilled := s.dataFilled + 1 } := ⟨hfifo, rfl⟩
      exact hstands.finishWrite
    · exact ⟨fun h _ => h, fun h => h hlast⟩
  · rw [if_neg (show ¬ s.dataLength ≤ s.dataFilled + 1 by omega), if_neg hlast]
    have hstands : Stands ⟨queued, some (n - 1)⟩
        { s with data := some (data.set s.dataFilled value), dataFilled := s.dataFilled + 1 } := by
      refine ⟨hqueued, _, rfl, by simpa using hlength, ?_, by omega⟩
      show s.dataFilled + 1 + (n - 1) = s.dataLength
      omega
    exact exactly_some (fun h => absurd h hlast) (hstands.finishWrite)

/-! ## Runs -/

section

variable (h : Stands v s) {index : Fin 64} {value : BitVec 32} {bus : Bus}

include h

theorem queueWrite_exactly :
    Exactly (appleSpmiQueueRegWrite s index value bus) (v.Allows (.queueWrite index value bus))
      (Stands (v.step (.queueWrite index value bus))) := by
  simp only [appleSpmiQueueRegWrite, View.Allows, View.step]
  by_cases hindex : index = reqQueuePush
  · simp only [hindex, true_imp_iff]
    obtain ⟨queued, awaited⟩ := v
    cases awaited with
    | none =>
      rw [show s.data = none from h.awaited]
      exact newRequest_exactly h value bus
    | some n =>
      obtain ⟨data, hdata, -⟩ := h.awaited
      rw [hdata]
      exact dataWord_exactly h hdata bus
  · simp only [hindex, if_false, false_imp_iff]
    split_ifs
    · exact exactly_some trivial (h.finishWrite)
    · exact exactly_some trivial (h.finishWrite)
    · exact exactly_some trivial (h.finishWrite)

/-- A queue register read succeeds, and pops a word if there is one. -/
theorem queueRead_exactly : Exactly ((appleSpmiQueueRegRead s index).map Prod.snd) True
      (Stands (v.step (.queueRead index))) := by
  simp only [appleSpmiQueueRegRead, View.step]
  obtain ⟨queued, awaited⟩ := v
  by_cases hpop : index = rspQueuePop
  · simp only [hpop, if_true]
    cases queued with
    | zero =>
      rw [if_pos ((fifo32IsEmpty_iff h.queued).mpr rfl)]
      exact exactly_some trivial h.updateQueuesStatus.updateIrq
    | succ n =>
      obtain ⟨w, fifo, hfifo, hwords⟩ := fifo32Pop_words h.queued
      rw [if_neg (by rw [fifo32IsEmpty_iff h.queued]; exact Nat.succ_ne_zero n), hfifo]
      refine exactly_some trivial (Stands.updateIrq (Stands.updateQueuesStatus ?_))
      exact ⟨hwords, h.awaited⟩
  · simp only [hpop]
    by_cases hstatus : index = queueStatus
    · rw [if_pos hstatus]
      exact exactly_some trivial h
    · rw [if_neg hstatus]
      exact exactly_some trivial h

/-- A control register write clears the response queue if it is told to. -/
theorem controlWrite_stands :
    Stands (v.step (.controlWrite index value)) (appleSpmiControlWrite s index value) := by
  simp only [appleSpmiControlWrite, View.step]
  by_cases hindex : index = controlQueueReset
  · by_cases hbit : value.getLsbD 1 = true
    · simp only [hindex, hbit]
      apply Stands.updateQueuesStatus
      exact ⟨fifo32Reset_words h.queued, h.awaited⟩
    · simp only [hindex, hbit]
      apply Stands.updateQueuesStatus
      exact h.congr rfl rfl rfl rfl
  · simp only [hindex]
    exact h.congr rfl rfl rfl rfl

/-- An operation succeeds exactly when the view allows it, and the view follows it. -/
theorem step_exactly (op : Op) : Exactly (step s op) (v.Allows op) (Stands (v.step op)) := by
  cases op with
  | queueWrite index value bus => exact queueWrite_exactly h
  | queueRead index => exact queueRead_exactly h
  | controlWrite index value => exact exactly_some trivial (controlWrite_stands h)
  | controlRead index => exact exactly_some trivial h
  | setIrq irq level => exact exactly_some trivial (h.setIrq)
  | reset =>
    refine exactly_some trivial (Stands.updateIrq (Stands.updateQueuesStatus ?_))
    exact ⟨fifo32Reset_words h.queued, rfl⟩

end

section

variable (regVers : RegVers) (respIntrIndex : Fin 288) (ops : List Op)

theorem appleSpmiInit_stands : Stands ⟨0, none⟩ (appleSpmiInit regVers respIntrIndex) :=
  ⟨⟨rfl, rfl, Nat.zero_le _⟩, rfl⟩

/-- From a state that stands for a view, a run goes on exactly when the view allows all of its
operations. -/
theorem Stands.safely_iff (h : Stands v s) (ops : List Op) :
    Safely step (fun _ _ => True) s ops ↔ Guarded View.step View.Allows v ops := by
  have hstep : ∀ s op, Stands (view s) s → Exactly (step s op) ((view s).Allows op) fun s' =>
        Stands (view s') s' ∧ view s' = (view s).step op := by
    intro s op h
    refine (step_exactly h op).imp Iff.rfl fun _ s' h' => ?_
    have hview := h'.view_eq
    exact ⟨hview.symm ▸ h', hview⟩
  have hview := h.view_eq
  rw [safely_iff_guarded_of_exactly hstep (fun _ _ _ => trivial) (hview.symm ▸ h) ops, hview]

/-- A run of the controller goes on without a failing assertion exactly when each word written to
the request queue is allowed: a request that is answered at once is a read, and its answer fits the
response queue, and so does the acknowledgement of a write. -/
theorem spmi_safely_iff : Safely step (fun _ _ => True) (appleSpmiInit regVers respIntrIndex) ops ↔
      Guarded View.step View.Allows ⟨0, none⟩ ops :=
  (appleSpmiInit_stands regVers respIntrIndex).safely_iff ops

end

instance (v : View) (value : BitVec 32) (bus : Bus) : Decidable (v.AllowsPush value bus) :=
  match v with
  | ⟨queued, none⟩ => inferInstanceAs (Decidable (answered value bus = true →
      (spmiOpcode value = extRead ∨ spmiOpcode value = extReadL) ∧
        queued + (1 + dataWords value) ≤ 0x100))
  | ⟨queued, some n⟩ => inferInstanceAs (Decidable (n ≤ 1 → queued + 1 ≤ 0x100))

instance (v : View) (op : Op) : Decidable (v.Allows op) :=
  match op with
  | .queueWrite index value bus =>
    inferInstanceAs (Decidable (index = reqQueuePush → v.AllowsPush value bus))
  | .queueRead _ | .controlWrite _ _ | .controlRead _ | .setIrq _ _ | .reset => .isTrue trivial

/-- Slaves that take every request, and fill in and take all bytes. -/
def obligingBus : Bus := ⟨fun _ _ _ => 0, fun len => (BitVec.ofNat 32 len, List.replicate len 0),
  fun bytes => BitVec.ofNat 32 bytes.length⟩

/-- One request word with the opcode `0x08` that a slave takes fails the assertion on the opcode,
and 86 reads of eight bytes, none of whose answers is popped, overflow the response queue. -/
theorem spmi_fails : ¬ Safely step (fun _ _ => True) (appleSpmiInit .v1 0xc0)
        [.queueWrite reqQueuePush 0x8008 obligingBus] ∧
      ¬ Safely step (fun _ _ => True) (appleSpmiInit .v1 0xc0)
        (List.replicate 86 (.queueWrite reqQueuePush 0x8027 obligingBus)) := by
  constructor
  · rw [(appleSpmiInit_stands .v1 0xc0).safely_iff]
    decide
  · rw [(appleSpmiInit_stands .v1 0xc0).safely_iff]
    decide +kernel

end Inferno.Spmi
