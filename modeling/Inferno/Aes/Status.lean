import Inferno.Aes.Fifo
import Inferno.Common.Run

/-!
# Coherence of the status of the AES accelerator

The derived bits of `COMMAND_FIFO_STATUS` follow from the level and the watermark, and the interrupt
line from `INT_ENABLE` and `INT_STATUS`. `View` is what these statements are about. A step of the
device moves it in one of four ways (`moves_step`): not at all; new interrupt registers and then the
line; a new level and then all the derived bits; or a new watermark, which is stored after the
derived bits were computed from the old one.

The last is the only one that can leave a bit behind. In a run from the start of the device the
status is coherent in all states exactly when every write of `WATERMARKS` leaves the comparison of
the level with the watermark as it is (`status_throughout_iff`).
-/

namespace Inferno.Aes

open Common AppleAESState

variable {μ : Type}

/-! ## The registers with derived bits -/

/-- The registers that the derived bits and the interrupt line depend on. -/
structure View where
  status : BitVec 32
  watermarks : BitVec 32
  int_status : BitVec 32
  int_enable : BitVec 32
  last_level : BitVec 32
  irq : Bool

variable (s : AppleAESState μ)

/-- The registers of the device that they depend on. -/
def AppleAESState.view : View where
  status := s.reg COMMAND_FIFO_STATUS
  watermarks := s.reg WATERMARKS
  int_status := s.reg INT_STATUS
  int_enable := s.reg INT_ENABLE
  last_level := s.last_level
  irq := s.irq

namespace View

variable (v : View)

def level : BitVec 8 := v.status.extractLsb' 8 8

def low : BitVec 7 := v.watermarks.extractLsb' 0 7

/-- The interrupt line follows the registers. -/
def updateIrq : View :=
  if v.int_enable &&& v.int_status ≠ 0 then
    if v.last_level = 0 then { v with last_level := 1, irq := true } else v
  else if v.last_level ≠ 0 then { v with last_level := 0, irq := false } else v

/-- The derived bits and the line follow the level and the registers. -/
def refresh : View :=
  let status := fifoStatus v.status v.level v.low
  updateIrq { v with status := status, int_status := setBit v.int_status 0 (status.getLsbD 0) }

/-- The derived bits are those of the level and the watermark, and the line is high when an enabled
interrupt is pending. -/
structure Coherent (v : View) : Prop where
  derived : Derived v.status v.level v.low
  line : v.irq = decide (v.int_enable &&& v.int_status ≠ 0)

/-- The line is where the device has set it. -/
def Driven : Prop := v.irq = decide (v.last_level ≠ 0)

variable {v : View} {marks : Option (BitVec 32)}

theorem updateIrq_eq (v : View) :
    ∃ last irq, v.updateIrq = { v with last_level := last, irq := irq } := by
  unfold updateIrq
  split_ifs <;> exact ⟨_, _, rfl⟩

/-- A line that is where the device has set it is high after the update when an enabled interrupt
is pending. -/
theorem irq_updateIrq (h : v.Driven) :
    v.updateIrq.irq = decide (v.int_enable &&& v.int_status ≠ 0) := by
  unfold updateIrq
  split_ifs with hpending hlow hhigh
  · exact (decide_eq_true hpending).symm
  · rw [h, decide_eq_true hlow, decide_eq_true hpending]
  · exact (decide_eq_false hpending).symm
  · rw [h, decide_eq_false hhigh, decide_eq_false hpending]

theorem driven_updateIrq (h : v.Driven) : v.updateIrq.Driven := by
  unfold updateIrq
  split_ifs
  · rfl
  · exact h
  · rfl
  · exact h

theorem updateIrq_updateIrq (v : View) : v.updateIrq.updateIrq = v.updateIrq := by
  by_cases hpending : v.int_enable &&& v.int_status ≠ 0
  · by_cases hlow : v.last_level = 0
    · simp only [updateIrq, if_pos hpending, if_pos hlow]
      rfl
    · simp only [updateIrq, if_pos hpending, if_neg hlow]
  · by_cases hhigh : v.last_level ≠ 0
    · simp only [updateIrq, if_neg hpending, if_pos hhigh]
      rfl
    · simp only [updateIrq, if_neg hpending, if_neg hhigh]

theorem coherent_updateIrq (h : v.Driven) (hderived : Derived v.status v.level v.low) :
    v.updateIrq.Coherent := by
  have hline := irq_updateIrq h
  obtain ⟨last, irq, heq⟩ := updateIrq_eq v
  rw [heq] at hline ⊢
  exact ⟨hderived, hline⟩

/-- Computing everything anew makes the status coherent. -/
theorem coherent_refresh (h : v.Driven) : v.refresh.Coherent := by
  refine coherent_updateIrq h ?_
  unfold level
  rw [level_fifoStatus]
  exact derived_fifoStatus v.status

/-- The level and the watermark are the same after everything was computed anew. -/
theorem level_refresh (v : View) : v.refresh.level = v.level ∧ v.refresh.low = v.low := by
  unfold refresh
  obtain ⟨last, irq, heq⟩ := updateIrq_eq { v with
    status := fifoStatus v.status v.level v.low
    int_status := setBit v.int_status 0 ((fifoStatus v.status v.level v.low).getLsbD 0) }
  rw [heq]
  exact ⟨level_fifoStatus v.status, rfl⟩

/-- After everything was computed anew a new watermark keeps the status coherent exactly when the
level compares with it as with the old one. -/
theorem coherent_watermarks_iff (h : v.Driven) (val : BitVec 32) :
    Coherent { v.refresh with watermarks := val } ↔
      (v.level.toNat < (val.extractLsb' 0 7).toNat ↔ v.level.toNat < v.low.toNat) := by
  obtain ⟨hderived, hline⟩ := coherent_refresh h
  obtain ⟨hlevel, hlow⟩ := level_refresh v
  have hbit := hderived.low
  rw [hlevel, hlow] at hbit
  constructor
  · rintro ⟨hnew, -⟩
    have hnewBit : v.refresh.status.getLsbD 0 =
        decide (v.refresh.level.toNat < (val.extractLsb' 0 7).toNat) := hnew.low
    rw [hlevel, hbit] at hnewBit
    exact (decide_eq_decide.mp hnewBit).symm
  · intro hsame
    refine ⟨⟨?_, hderived.empty, hderived.full, hderived.overflow⟩, hline⟩
    show v.refresh.status.getLsbD 0 = decide (v.refresh.level.toNat < (val.extractLsb' 0 7).toNat)
    rw [hlevel, hbit]
    exact decide_eq_decide.mpr hsame.symm

/-- How a step moves the registers, when it stores `marks` in `WATERMARKS`. -/
inductive Moves (v : View) : Option (BitVec 32) → View → Prop
  /-- They stay as they are. -/
  | quiet : Moves v none v
  /-- New interrupt registers and then the line. -/
  | irq (status enable : BitVec 32) :
    Moves v none (updateIrq { v with int_status := status, int_enable := enable })
  /-- New registers and then the derived bits and the line. -/
  | refresh (w : View) (hlast : w.last_level = v.last_level) (hirq : w.irq = v.irq) :
    Moves v none w.refresh
  /-- The derived bits and the line, and then a new watermark. -/
  | watermarks (val : BitVec 32) : Moves v (some val) { v.refresh with watermarks := val }

section

variable {v' : View} (h : Moves v marks v') (hv : v.Driven)

include h hv

theorem Moves.driven : v'.Driven := by
  cases h with
  | quiet => exact hv
  | irq status enable => exact driven_updateIrq hv
  | refresh w hlast hirq =>
    refine driven_updateIrq ?_
    rw [hirq, hlast]
    exact hv
  | watermarks val => exact driven_updateIrq (v := { v with
      status := fifoStatus v.status v.level v.low
      int_status := setBit v.int_status 0 ((fifoStatus v.status v.level v.low).getLsbD 0) }) hv

/-- Only a new watermark can leave something behind. -/
theorem Moves.coherent_iff (hcoherent : v.Coherent) : v'.Coherent ↔ ∀ val, marks = some val →
      (v.level.toNat < (val.extractLsb' 0 7).toNat ↔ v.level.toNat < v.low.toNat) := by
  cases h with
  | quiet => exact iff_of_true hcoherent nofun
  | irq status enable => exact iff_of_true (coherent_updateIrq hv hcoherent.derived) nofun
  | refresh w hlast hirq =>
    refine iff_of_true (coherent_refresh ?_) nofun
    show w.irq = decide (w.last_level ≠ 0)
    rw [hirq, hlast]
    exact hv
  | watermarks val =>
    rw [coherent_watermarks_iff hv]
    constructor
    · intro hsame val' hval'
      rw [← Option.some.inj hval']
      exact hsame
    · exact fun hall => hall val rfl

end

end View

/-! ## Steps of the device -/

theorem view_updateIrq : (updateIrq s).view = s.view.updateIrq := by
  simp only [updateIrq, apply_ite view]
  rfl

theorem view_store {i : Fin 129} (h : i ∉ [COMMAND_FIFO_STATUS, WATERMARKS, INT_STATUS, INT_ENABLE])
    (w : BitVec 32) (s : AppleAESState μ) : (s.store i w).view = s.view := by
  simp only [List.mem_cons, List.not_mem_nil, or_false, not_or] at h
  obtain ⟨hstatus, hmarks, hint, henable⟩ := h
  unfold view
  rw [reg_store_of_ne (Ne.symm hstatus), reg_store_of_ne (Ne.symm hmarks),
    reg_store_of_ne (Ne.symm hint), reg_store_of_ne (Ne.symm henable)]
  rfl

theorem view_updateCommandFifoStatus : (updateCommandFifoStatus s).view = s.view.refresh := by
  exact view_updateIrq _

theorem view_start : (start s).view = s.view := by
  unfold start
  split_ifs <;> rfl

theorem view_stop : (stop s).view = s.view := by
  unfold stop
  split_ifs
  · rfl
  · dsimp only
    split <;> rfl

/-- Emptying the FIFO computes the status anew. -/
theorem moves_emptyFifo : View.Moves s.view none (emptyFifo s).view := by
  unfold emptyFifo
  rw [view_updateCommandFifoStatus]
  exact .refresh _ rfl rfl

/-- So does the reset. -/
theorem moves_reset : View.Moves s.view none (reset s).view := by
  unfold reset
  unfold emptyFifo
  rw [view_updateCommandFifoStatus]
  exact .refresh _ rfl rfl

theorem moves_commandFifoWrite (val : BitVec 32) (s : AppleAESState μ) :
    View.Moves s.view none (commandFifoWrite val s).view := by
  unfold commandFifoWrite
  cases hword : receiveWord val s with
  | none => exact .quiet
  | some s₁ =>
    -- Neither the word nor the queue touches the line.
    have hline₁ : s₁.view.last_level = s.view.last_level ∧ s₁.view.irq = s.view.irq := by
      unfold receiveWord at hword
      split_ifs at hword
      · obtain ⟨data, -, rfl⟩ := Option.map_eq_some_iff.mp hword
        exact ⟨rfl, rfl⟩
      · split at hword <;> obtain rfl := Option.some.inj hword <;> exact ⟨rfl, rfl⟩
    have hqueue : (enqueue s₁).view = s₁.view := by
      unfold enqueue
      split <;> rfl
    have hmoves : View.Moves s.view none
        ((enqueue s₁).setLevel ((enqueue s₁).level + 1)).view.refresh := by
      refine .refresh _ ?_ ?_
      · exact (congrArg View.last_level hqueue).trans hline₁.1
      · exact (congrArg View.irq hqueue).trans hline₁.2
    split_ifs
    · rw [view_updateIrq, view_updateCommandFifoStatus, View.refresh, View.updateIrq_updateIrq]
      exact hmoves
    · rw [view_updateCommandFifoStatus]
      exact hmoves

theorem register_eq_watermarks_iff {addr : ℕ} : register addr = .watermarks ↔ addr = 0x20 := by
  constructor
  · intro h
    have hat := register_at addr
    rwa [h] at hat
  · rintro rfl
    rfl

/-- What a step stores in `WATERMARKS`. -/
def watermarksWrite : Op → Option (BitVec 32)
  | .regWrite addr val => if s.halted = false ∧ addr = 0x20 then some val else none
  | .work _ => none

/-- A write of the guest moves the registers in one of the four ways. -/
theorem moves_regWrite {addr : ℕ} (haligned : addr % 4 = 0) (val : BitVec 32)
    (s : AppleAESState μ) :
    View.Moves s.view (if addr = 0x20 then some val else none) (regWrite addr val s).view := by
  by_cases hmarks : addr = 0x20
  · subst hmarks
    have hview : (regWrite 0x20 val s).view = { s.view.refresh with watermarks := val } :=
      congrArg (fun v : View => { v with watermarks := val }) (view_updateCommandFifoStatus s)
    rw [hview]
    exact .watermarks val
  · rw [if_neg hmarks]
    unfold regWrite
    cases hreg : register addr with
    | readOnly | outside => exact .quiet
    | intStatus | intEnable =>
      rw [view_updateIrq]
      exact .irq _ _
    | watermarks => exact absurd (register_eq_watermarks_iff.mp hreg) hmarks
    | control =>
      unfold controlWrite
      split_ifs
      · rw [view_start]
        exact .quiet
      · rw [view_stop]
        exact .quiet
      · exact moves_emptyFifo s
      · exact moves_reset s
      · exact .quiet
    | commandFifo => exact moves_commandFifoWrite val s
    | clearFifo =>
      split_ifs
      · exact moves_emptyFifo s
      · exact .quiet
    | plain i =>
      rw [view_store (register_plain haligned hreg)]
      exact .quiet

variable (cfg : Config μ)

theorem moves_work (i : ℕ) (s : AppleAESState μ) : View.Moves s.view none (work cfg i s).view := by
  unfold work
  split
  · exact .quiet
  · split <;> exact .quiet
  · rename_i cmd _
    unfold complete
    split
    · rename_i s' hprocess
      obtain ⟨-, hline⟩ := same_processCommand hprocess
      have hview : ∀ t : AppleAESState μ, (setWorker i .wait t).view = t.view := fun _ => rfl
      rw [hview, view_updateCommandFifoStatus]
      exact .refresh _ (congrArg Line.last_level hline) (congrArg Line.irq hline)
    · exact .quiet
  · split_ifs <;> exact .quiet
  · exact .quiet
  · exact .quiet

theorem moves_step (s : AppleAESState μ) {op : Op} :
    View.Moves s.view (watermarksWrite s op) (step cfg s op).view := by
  unfold step
  by_cases hhalted : s.halted = true
  · have hnone : watermarksWrite s op = none := by
      cases op with
      | regWrite addr val => exact if_neg fun h => by simp [hhalted] at h
      | work i => rfl
    rw [if_pos hhalted, hnone]
    exact .quiet
  · rw [if_neg hhalted]
    cases op with
    | regWrite addr val =>
      have hmarks : watermarksWrite s (.regWrite addr val) =
          if addr = 0x20 then some val else none := by
        simp [watermarksWrite, Bool.eq_false_iff.mpr hhalted]
      rw [hmarks]
      dsimp only
      by_cases haligned : addr % 4 = 0
      · rw [if_pos haligned]
        exact moves_regWrite haligned val s
      · have hne : addr ≠ 0x20 := by omega
        rw [if_neg haligned, if_neg hne]
        exact .quiet
    | work i => exact moves_work cfg i s

/-! ## Runs -/

/-- The derived bits and the interrupt line of the device are as they should be. -/
def Coherent : Prop := s.view.Coherent

/-- The operation, when it writes `WATERMARKS`, leaves the comparison with the level as it is. -/
def KeepsLow (op : Op) : Prop :=
  ∀ val, watermarksWrite s op = some val →
    (s.level.toNat < (val.extractLsb' 0 7).toNat ↔ s.level.toNat < s.commandFifoLow.toNat)

/-- At the start of the device the line is low, as the device has set it. -/
theorem driven_init (mem : μ) : (init mem).view.Driven := (moves_reset _).driven rfl

theorem coherent_init (mem : μ) : Coherent (init mem) := by
  unfold Coherent init reset
  unfold emptyFifo
  rw [view_updateCommandFifoStatus]
  exact View.coherent_refresh rfl

/-- In a run from the start of the device the status is coherent in every state exactly when every
write of `WATERMARKS` leaves the comparison of the level with the watermark as it is. -/
theorem status_throughout_iff (mem : μ) (ops : List Op) :
    Throughout (step cfg) Coherent (init mem) ops ↔ Guarded (step cfg) KeepsLow (init mem) ops :=
  throughout_iff_guarded_of_invariant (I := fun s => s.view.Driven)
    (fun s _ => (moves_step cfg s).driven)
    (fun s _ => (moves_step cfg s).coherent_iff) (driven_init mem) (coherent_init mem)

/-- A watermark above the level is stored without `low` being set. -/
theorem not_coherent_watermarks :
    ¬ Coherent (run (step sampleConfig) (init ()) [.regWrite 0x20 5]) := by
  intro h
  have hlow := h.derived.low
  revert hlow
  decide +kernel

end Inferno.Aes
