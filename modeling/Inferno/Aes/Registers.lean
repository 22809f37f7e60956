import Inferno.Aes.Model

/-!
# Register fields of the AES accelerator

The fields of `COMMAND_FIFO_STATUS` after it was computed anew, and what the functions of the device
leave alone. `Fifo` collects what the command FIFO consists of and `Line` what drives the interrupt
line; the commands that a worker performs touch neither (`same_processCommand`), and a new status
touches only the status register and the line.
-/

namespace Inferno.Aes

open Common AppleAESState BitVec
open Except (ok)

variable {μ : Type}

/-! ## Offsets -/

/-- What is known of the offset of a register. -/
def Register.At (addr : ℕ) : Register → Prop
  | .watermarks => addr = 0x20
  | .control => addr = 0x8
  | .plain i => i.val = addr / 4 ∧ addr ∉ [0x18, 0x1C, 0x20, 0x24]
  | _ => True

variable (w : BitVec 32) (l : BitVec 8) {t : AppleAESState μ} {cfg : Config μ} {cmd : AESCommand}
  {s' : AppleAESState μ}

theorem register_at (addr : ℕ) : (register addr).At addr := by
  unfold register
  by_cases hlt : addr < 0x204
  case neg =>
    rw [dif_neg hlt]
    trivial
  rw [dif_pos hlt]
  refine iteInduction (motive := Register.At addr) (fun _ => trivial) fun hro => ?_
  refine iteInduction (motive := Register.At addr) (fun _ => trivial) fun hstatus => ?_
  refine iteInduction (motive := Register.At addr) (fun _ => trivial) fun henable => ?_
  refine iteInduction (motive := Register.At addr) (fun hmarks => hmarks) fun hmarks => ?_
  refine iteInduction (motive := Register.At addr) (fun hcontrol => hcontrol) fun _ => ?_
  refine iteInduction (motive := Register.At addr) (fun _ => trivial) fun _ => ?_
  refine iteInduction (motive := Register.At addr) (fun _ => trivial) fun _ => ?_
  -- `COMMAND_FIFO_STATUS` is read-only, and the other three were asked for by name.
  have hfifo : addr ≠ 0x24 := fun heq => hro (by simp [heq])
  exact ⟨rfl, by simp [hstatus, henable, hmarks, hfifo]⟩

/-! ## Fields -/

theorem getLsbD_setBit {i : ℕ} (hi : i < 32) (b : Bool) (j : ℕ) :
    (setBit w i b).getLsbD j = if j = i then b else w.getLsbD j := by
  by_cases hj : j < 32
  · rw [setBit, getLsbD_deposit w _ i 1 j hi hj]
    by_cases heq : j = i
    · have hin : i ≤ j ∧ j < i + 1 := by omega
      rw [if_pos hin, if_pos heq, heq, Nat.sub_self]
      cases b <;> rfl
    · have hout : ¬ (i ≤ j ∧ j < i + 1) := by omega
      rw [if_neg hout, if_neg heq]
  · have hne : j ≠ i := by omega
    rw [if_neg hne, getLsbD_of_ge _ j (by omega), getLsbD_of_ge _ j (by omega)]

theorem level_setBit {i : ℕ} (hi : i < 8) (b : Bool) :
    (setBit w i b).extractLsb' 8 8 = w.extractLsb' 8 8 := by
  apply eq_of_getLsbD_eq
  intro j hj
  have hne : 8 + j ≠ i := by omega
  rw [getLsbD_extractLsb', getLsbD_extractLsb', getLsbD_setBit w (by omega), if_neg hne]

theorem level_deposit : (deposit w 8 8 (l.setWidth 32)).extractLsb' 8 8 = l := by
  apply eq_of_getLsbD_eq
  intro j hj
  have hin : 8 ≤ 8 + j ∧ 8 + j < 8 + 8 := by omega
  rw [getLsbD_extractLsb', getLsbD_deposit w _ 8 8 _ (by omega) (by omega), if_pos hin]
  have hj32 : j < 32 := by omega
  simp [hj, hj32]

/-- The derived bits are those of the level and the watermark. -/
structure Derived (w : BitVec 32) (level : BitVec 8) (low : BitVec 7) : Prop where
  low : w.getLsbD 0 = decide (level.toNat < low.toNat)
  empty : w.getLsbD 1 = decide (level = 0)
  full : w.getLsbD 2 = decide (COMMAND_FIFO_SIZE ≤ level.toNat)
  overflow : w.getLsbD 3 = decide (COMMAND_FIFO_SIZE < level.toNat)

theorem derived_fifoStatus {level : BitVec 8} {low : BitVec 7} :
    Derived (fifoStatus w level low) level low := by
  constructor <;> simp (disch := decide) only [fifoStatus, getLsbD_setBit] <;> rfl

@[simp]
theorem level_fifoStatus {level : BitVec 8} {low : BitVec 7} :
    (fifoStatus w level low).extractLsb' 8 8 = w.extractLsb' 8 8 := by
  simp (disch := decide) only [fifoStatus, level_setBit]

/-! ## What the command FIFO consists of -/

/-- The part of the state that the command FIFO consists of. -/
structure Fifo where
  status : BitVec 32
  watermarks : BitVec 32
  queue : List AESCommand
  command : BitVec 32
  data : Option (List (BitVec 32))
  data_len : BitVec 32
  data_read : BitVec 32
  workers : List Worker
  halted : Bool

variable (s : AppleAESState μ)

/-- The command FIFO of the device. -/
def AppleAESState.fifo : Fifo where
  status := s.reg COMMAND_FIFO_STATUS
  watermarks := s.reg WATERMARKS
  queue := s.queue
  command := s.command
  data := s.data
  data_len := s.data_len
  data_read := s.data_read
  workers := s.workers
  halted := s.halted

/-- What drives the interrupt line, but for `INT_STATUS`. -/
structure Line where
  int_enable : BitVec 32
  last_level : BitVec 32
  irq : Bool

/-- The interrupt line of the device. -/
def AppleAESState.line : Line := ⟨s.reg INT_ENABLE, s.last_level, s.irq⟩

theorem reg_store_of_ne {i j : Fin 129} (h : j ≠ i) (v : BitVec 32) (s : AppleAESState μ) :
    (s.store i v).reg j = s.reg j := by
  simp [store, h]

/-- Other registers are not part of it. -/
theorem fifo_store {i : Fin 129} (hstatus : i ≠ COMMAND_FIFO_STATUS) (hmarks : i ≠ WATERMARKS)
    (v : BitVec 32) (s : AppleAESState μ) : (s.store i v).fifo = s.fifo := by
  unfold fifo
  rw [reg_store_of_ne hstatus.symm, reg_store_of_ne hmarks.symm]
  rfl

/-- Nor is `INT_STATUS`. -/
@[simp]
theorem fifo_setIntStatus (i : ℕ) {b : Bool} {s : AppleAESState μ} :
    (s.setIntStatus i b).fifo = s.fifo :=
  fifo_store (by decide) (by decide) _ s

@[simp]
theorem fifo_updateIrq : (updateIrq s).fifo = s.fifo := by
  unfold updateIrq
  split_ifs <;> rfl

theorem fifo_store_status : (s.store COMMAND_FIFO_STATUS w).fifo = { s.fifo with status := w } := by
  rfl

theorem fifo_updateCommandFifoStatus : (updateCommandFifoStatus s).fifo = { s.fifo with
        status := fifoStatus (s.reg COMMAND_FIFO_STATUS) s.level s.commandFifoLow } := by
  unfold updateCommandFifoStatus
  rw [fifo_updateIrq]
  exact fifo_store_status _ s

/-- The level in the status register. -/
def Fifo.level (f : Fifo) : BitVec 8 := f.status.extractLsb' 8 8

theorem level_eq : s.level = s.fifo.level := rfl

theorem fifo_update : ∃ status, status.extractLsb' 8 8 = s.level ∧
      (updateCommandFifoStatus s).fifo = { s.fifo with status := status } := by
  rw [fifo_updateCommandFifoStatus]
  exact ⟨_, level_fifoStatus _, rfl⟩

/-- Storing a level and computing the status touches only the register. -/
theorem fifo_update_setLevel : ∃ status, status.extractLsb' 8 8 = l ∧
      (updateCommandFifoStatus (s.setLevel l)).fifo = { s.fifo with status := status } := by
  obtain ⟨status, hlevel, hfifo⟩ := fifo_update (s.setLevel l)
  refine ⟨status, ?_, hfifo⟩
  have hset : (s.setLevel l).level = l := by
    exact level_deposit _ l
  exact hlevel.trans hset

/-! ## Commands -/

/-- The command FIFO and the interrupt line are the same in two states. -/
structure Same (s s' : AppleAESState μ) : Prop where
  fifo : s'.fifo = s.fifo
  line : s'.line = s.line

theorem same_store {i : Fin 129} (h : i ≠ COMMAND_FIFO_STATUS ∧ i ≠ WATERMARKS ∧ i ≠ INT_ENABLE)
    {v : BitVec 32} {s : AppleAESState μ} : Same s (s.store i v) where
  fifo := fifo_store h.1 h.2.1 v s
  line := by
    unfold line
    rw [reg_store_of_ne h.2.2.symm]
    rfl

section

variable {s : AppleAESState μ}

/-- `INT_STATUS` belongs to neither. -/
theorem Same.setIntStatus (h : Same s t) {i : ℕ} {b : Bool} : Same s (t.setIntStatus i b) :=
  have hstore := same_store (i := INT_STATUS) (by decide)
  ⟨hstore.fifo.trans h.fifo, hstore.line.trans h.line⟩

theorem Same.setKey (h : Same s t) (ctx : Fin 2) (k : AESKey) : Same s (setKey ctx k t) :=
  ⟨h.fifo, h.line⟩

theorem Same.stop (h : Same s t) : Same s { t with stopped := true } :=
  ⟨h.fifo, h.line⟩

/-- A key command leaves both alone. -/
theorem same_processKey (h : (processKey cfg cmd s).outcome = .ok s') : Same s s' := by
  unfold processKey at h
  dsimp only at h
  split_ifs at h
  · obtain rfl := ok.inj h
    exact ((same_store (by decide)).setIntStatus).setKey _ _
  · split at h
    · obtain rfl := ok.inj h
      exact ((same_store (by decide)).setIntStatus).setKey _ _
    · exact nomatch h

theorem same_processData (h : (processData cfg cmd s).outcome = .ok s') : Same s s' := by
  unfold processData at h
  dsimp only at h
  split_ifs at h
  · obtain rfl := ok.inj h
    exact Same.setIntStatus ⟨rfl, rfl⟩
  · split at h
    · split at h
      · obtain rfl := ok.inj h
        exact ⟨rfl, rfl⟩
      · exact nomatch h
    · obtain rfl := ok.inj h
      exact Same.setIntStatus ⟨rfl, rfl⟩

end

theorem same_processFlag : Same s (processFlag cmd s) := by
  have hcode : Same s (s.store FLAG_COMMAND
      (deposit (s.reg FLAG_COMMAND) 0 16 ((commandId cmd.command).setWidth 32))) :=
    same_store (by decide)
  unfold processFlag
  dsimp only
  split_ifs
  · exact hcode.stop.setIntStatus
  · exact hcode.setIntStatus
  · exact hcode.stop
  · exact hcode

/-- Every command leaves the command FIFO and the interrupt line alone. -/
theorem same_processCommand {cfg : Config μ} {cmd : AESCommand} {s s' : AppleAESState μ}
    (h : (processCommand cfg cmd s).outcome = .ok s') : Same s s' := by
  unfold processCommand at h
  cases hop : opcode cmd.command <;> rw [hop] at h <;> dsimp only at h
  case key => exact same_processKey h
  case data => exact same_processData h
  all_goals obtain rfl := ok.inj h
  case flag => exact same_processFlag s
  case unknown => exact Same.setIntStatus ⟨rfl, rfl⟩
  all_goals exact ⟨rfl, rfl⟩

end Inferno.Aes
