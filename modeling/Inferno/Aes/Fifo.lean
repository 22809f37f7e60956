import Inferno.Aes.Registers

/-!
# Steps of the command FIFO

What the steps of the device do to the command FIFO, said once. `Fifo.Steps` has a constructor for
each of the things that can happen: a word is received, the queue is cleared, with or without the
command that is received, a worker is created, goes on, takes a command or completes one, and the
emulator stops. `steps_step` says that nothing else happens, and which writes of the guest are words
and clears.
-/

namespace Inferno.Aes

open Common AppleAESState List Option

variable {μ : Type}

/-! ## The words of a command -/

/-- The number of words of the command that a worker performs. -/
def Worker.words : Worker → ℕ
  | .busy cmd => cmd.data_len.toNat
  | _ => 0

namespace Fifo

variable (f : Fifo)

/-- A complete command goes to the queue. -/
def close : Fifo :=
  match f.data with
  | some data =>
    if f.data_len ≤ f.data_read then
      { f with
        queue := f.queue ++ [⟨f.command, data, f.data_len⟩]
        command := 0, data := none, data_len := 0, data_read := 0 }
    else f
  | none => f

/-- A word is received, but for the level. -/
def receive (val : BitVec 32) (f : Fifo) : Option Fifo :=
  if f.data_read < f.data_len then
    f.data.map fun data => close { f with
      data := some (data.set f.data_read.toNat val), data_read := f.data_read + 1 }
  else
    match commandLen val with
    | some len => some (close { f with
        command := val, data := some (val :: replicate (len.toNat - 1) 0), data_len := len,
        data_read := 1 })
    | none => some (close { f with command := val })

theorem close_frame : f.close.status = f.status ∧ f.close.workers = f.workers := by
  unfold close
  split
  · split_ifs <;> exact ⟨rfl, rfl⟩
  · exact ⟨rfl, rfl⟩

theorem receive_frame {val : BitVec 32} {f f₁ : Fifo} (h : f.receive val = some f₁) :
    f₁.status = f.status ∧ f₁.workers = f.workers := by
  unfold receive at h
  split_ifs at h
  · obtain ⟨data, -, rfl⟩ := map_eq_some_iff.mp h
    exact close_frame _
  · split at h
    · obtain rfl := some.inj h
      exact close_frame _
    · obtain rfl := some.inj h
      exact close_frame _

/-- What a write of the guest means to the command FIFO. -/
inductive Kind
  | word (val : BitVec 32)
  | clear
  | reset
  /-- None of them. -/
  | other

/-- What can happen to the command FIFO. -/
inductive Steps (f : Fifo) : Kind → Fifo → Prop
  /-- Other bits of the registers change. -/
  | quiet (status watermarks : BitVec 32) (h : status.extractLsb' 8 8 = f.level) :
    Steps f .other { f with status := status, watermarks := watermarks }
  /-- The emulator does not go on. -/
  | halt : Steps f .other { f with halted := true }
  | word (val status : BitVec 32) (f₁ : Fifo) (hreceive : f.receive val = some f₁)
      (h : status.extractLsb' 8 8 = f.level + 1) : Steps f (.word val) { f₁ with status := status }
  /-- A word is received without a buffer for it. -/
  | crash (val : BitVec 32) (h : f.receive val = none) :
    Steps f (.word val) { f with halted := true }
  | clear (status : BitVec 32) (h : status.extractLsb' 8 8 = 0) :
    Steps f .clear { f with status := status, queue := [] }
  | reset (status watermarks : BitVec 32) (h : status.extractLsb' 8 8 = 0) : Steps f .reset { f with
      status := status, watermarks := watermarks, queue := [], command := 0, data := none
      data_len := 0, data_read := 0 }
  | start : Steps f .other { f with workers := .top :: f.workers }
  /-- A worker without a command goes on. -/
  | move (i : ℕ) (w w' : Worker) (h : f.workers[i]? = some w) (hw : w.words = 0)
      (hw' : w'.words = 0) : Steps f .other { f with workers := f.workers.set i w' }
  /-- A worker takes a command. -/
  | take (i : ℕ) (cmd : AESCommand) (queue : List AESCommand) (halted : Bool)
      (h : f.workers[i]? = some .enter) (hqueue : f.queue = cmd :: queue) :
    Steps f .other { f with
      workers := f.workers.set i (.busy cmd), queue := queue, halted := halted }
  /-- A worker completes a command. -/
  | complete (i : ℕ) (cmd : AESCommand) (status : BitVec 32) (h : f.workers[i]? = some (.busy cmd))
      (hlevel : status.extractLsb' 8 8 = f.level - cmd.data_len.setWidth 8) :
    Steps f .other { f with workers := f.workers.set i .wait, status := status }

theorem Steps.refl : Steps f .other f := .quiet f.status f.watermarks rfl

end Fifo

/-! ## Functions of the device -/

variable (s : AppleAESState μ)

theorem fifo_enqueue : (enqueue s).fifo = s.fifo.close := by
  unfold enqueue completed Fifo.close
  cases hdata : s.data with
  | none =>
    have hfifo : s.fifo.data = none := hdata
    rw [hfifo]
  | some data =>
    have hfifo : s.fifo.data = some data := hdata
    rw [hfifo]
    dsimp only
    by_cases hlen : s.data_len ≤ s.data_read
    · have hlen' : s.fifo.data_len ≤ s.fifo.data_read := hlen
      rw [if_pos hlen, if_pos hlen']
      rfl
    · have hlen' : ¬ s.fifo.data_len ≤ s.fifo.data_read := hlen
      rw [if_neg hlen, if_neg hlen']

theorem fifo_receiveWord (val : BitVec 32) (s : AppleAESState μ) :
    (receiveWord val s).map (fun s₁ => (enqueue s₁).fifo) = s.fifo.receive val := by
  unfold receiveWord Fifo.receive
  by_cases hread : s.data_read < s.data_len
  · have hread' : s.fifo.data_read < s.fifo.data_len := hread
    rw [if_pos hread, if_pos hread', Option.map_map]
    exact congrArg (fun g => Option.map g s.data) (funext fun data => fifo_enqueue _)
  · have hread' : ¬ s.fifo.data_read < s.fifo.data_len := hread
    rw [if_neg hread, if_neg hread']
    cases commandLen val with
    | some len => exact congrArg some (fifo_enqueue _)
    | none => exact congrArg some ((fifo_enqueue _).trans (congrArg Fifo.close
        (fifo_setIntStatus 2)))

theorem steps_commandFifoWrite (val : BitVec 32) (s : AppleAESState μ) :
    s.fifo.Steps (.word val) (commandFifoWrite val s).fifo := by
  have hreceive := fifo_receiveWord val s
  unfold commandFifoWrite
  cases hword : receiveWord val s with
  | none =>
    rw [hword] at hreceive
    exact .crash val hreceive.symm
  | some s₁ =>
    rw [hword] at hreceive
    obtain ⟨status, hlevel, hfifo⟩ :=
      fifo_update_setLevel ((enqueue s₁).level + 1) (enqueue s₁)
    have hsame : (enqueue s₁).level = s.fifo.level :=
      congrArg (fun status : BitVec 32 => status.extractLsb' 8 8)
        (Fifo.receive_frame hreceive.symm).1
    have hsteps : s.fifo.Steps (.word val) { (enqueue s₁).fifo with status := status } :=
      .word val status _ hreceive.symm (hlevel.trans (by rw [hsame]))
    split_ifs
    · rw [fifo_updateIrq, hfifo]
      exact hsteps
    · rw [hfifo]
      exact hsteps

theorem fifo_emptyFifo : ∃ status, status.extractLsb' 8 8 = 0 ∧
      (emptyFifo s).fifo = { s.fifo with status := status, queue := [] } :=
  fifo_update_setLevel 0 { s with queue := [] }

theorem steps_emptyFifo : s.fifo.Steps .clear (emptyFifo s).fifo := by
  obtain ⟨status, hlevel, hfifo⟩ := fifo_emptyFifo s
  rw [hfifo]
  exact .clear status hlevel

theorem stop_of_stopped {s : AppleAESState μ} (h : s.stopped = true) : stop s = s := by
  rw [stop, if_pos h]

theorem steps_reset : s.fifo.Steps .reset (reset s).fifo := by
  unfold reset
  rw [stop_of_stopped rfl]
  obtain ⟨status, hlevel, hfifo⟩ := fifo_emptyFifo { s with
    reg := Function.update (fun _ => 0) STATUS 0xFF80
    command := 0, data := none, data_read := 0, data_len := 0, stopped := true }
  rw [hfifo]
  exact .reset status _ hlevel

theorem steps_start : s.fifo.Steps .other (start s).fifo := by
  unfold start
  split_ifs
  · exact .start
  · exact .refl _

theorem steps_stop : s.fifo.Steps .other (stop s).fifo := by
  unfold stop
  split_ifs
  · exact .refl _
  · dsimp only
    split
    · rename_i ws cmd queue hworkers hqueue
      have hget : s.fifo.workers = .enter :: ws := hworkers
      have hsteps := Fifo.Steps.take (f := s.fifo) 0 cmd queue true (by rw [hget]; rfl) hqueue
      rw [hget] at hsteps
      exact hsteps
    · exact .halt
    · rename_i w ws hbusy hworkers _
      have hget : s.fifo.workers = w :: ws := hworkers
      have hwords : w.words = 0 := by
        cases w with
        | busy cmd => exact absurd rfl (hbusy cmd)
        | _ => rfl
      have hsteps := Fifo.Steps.move (f := s.fifo) 0 w .exited (by rw [hget]; rfl) hwords rfl
      rw [hget] at hsteps
      exact hsteps
    · exact .refl _

theorem steps_store {i : Fin 129} (hstatus : i ≠ COMMAND_FIFO_STATUS) (hmarks : i ≠ WATERMARKS)
    {v : BitVec 32} {s t : AppleAESState μ} {k : Fifo.Kind} (h : s.fifo.Steps k t.fifo) :
    s.fifo.Steps k (t.store i v).fifo := by
  rw [fifo_store hstatus hmarks]
  exact h

/-! ## Steps of the device -/

/-- What a write of the guest means to the command FIFO. -/
def writeKind (addr : ℕ) (val : BitVec 32) : Fifo.Kind :=
  match register addr with
  | .commandFifo => .word val
  | .control => if val = 4 then .clear else if val = 8 then .reset else .other
  | .clearFifo => if val = 1 then .clear else .other
  | _ => .other

theorem register_plain {addr : ℕ} (haligned : addr % 4 = 0) {i : Fin 129}
    (h : register addr = .plain i) :
    i ∉ [COMMAND_FIFO_STATUS, WATERMARKS, INT_STATUS, INT_ENABLE] := by
  have hat := register_at addr
  rw [h] at hat
  obtain ⟨hi, hnamed⟩ := hat
  have hne : ∀ a : Fin 129, addr ≠ 4 * a.val → i ≠ a := by
    rintro a ha rfl
    omega
  simp only [mem_cons, not_mem_nil, or_false, not_or] at hnamed ⊢
  obtain ⟨hint, henable, hmarks, hstatus⟩ := hnamed
  exact ⟨hne COMMAND_FIFO_STATUS hstatus, hne WATERMARKS hmarks, hne INT_STATUS hint,
    hne INT_ENABLE henable⟩

theorem steps_regWrite {addr : ℕ} (haligned : addr % 4 = 0) (val : BitVec 32)
    (s : AppleAESState μ) : s.fifo.Steps (writeKind addr val) (regWrite addr val s).fifo := by
  unfold regWrite writeKind
  cases hreg : register addr with
  | readOnly | outside => exact .refl _
  | intStatus | intEnable =>
    rw [fifo_updateIrq]
    exact steps_store (by decide) (by decide) (.refl _)
  | watermarks =>
    obtain ⟨status, hlevel, hfifo⟩ := fifo_update s
    have hmarks : ((updateCommandFifoStatus s).store WATERMARKS val).fifo =
        { (updateCommandFifoStatus s).fifo with watermarks := val } := rfl
    rw [hmarks, hfifo]
    exact .quiet status val hlevel
  | control =>
    unfold controlWrite
    by_cases hclear : val = 4
    · subst hclear
      exact steps_emptyFifo s
    · by_cases hreset : val = 8
      · subst hreset
        exact steps_reset s
      · split_ifs
        · exact steps_start s
        · exact steps_stop s
        · exact .refl _
  | commandFifo => exact steps_commandFifoWrite val s
  | clearFifo =>
    dsimp only
    split_ifs
    · exact steps_store (by decide) (by decide) (steps_emptyFifo s)
    · exact steps_store (by decide) (by decide) (.refl _)
  | plain i =>
    have hne := register_plain haligned hreg
    simp only [mem_cons, not_or] at hne
    exact steps_store hne.1 hne.2.1 (.refl _)

variable (cfg : Config μ)

theorem steps_work (i : ℕ) (s : AppleAESState μ) : s.fifo.Steps .other (work cfg i s).fifo := by
  unfold work
  cases hworker : s.workers[i]? with
  | none => exact .refl _
  | some w =>
    have hget : s.fifo.workers[i]? = some w := hworker
    cases w with
    | top =>
      dsimp only
      split_ifs
      · exact .move i _ .exited hget rfl rfl
      · exact .move i _ .enter hget rfl rfl
    | enter =>
      cases hqueue : s.queue with
      | nil => exact .move i _ .wait hget rfl rfl
      | cons cmd queue => exact .take i cmd queue s.halted hget hqueue
    | busy cmd =>
      dsimp only
      unfold complete
      split
      · rename_i s' hprocess
        have hsame := (same_processCommand hprocess).fifo
        obtain ⟨status, hlevel, hfifo⟩ :=
          fifo_update_setLevel (s'.level - cmd.data_len.setWidth 8) s'
        have hset : ∀ t : AppleAESState μ,
            (setWorker i .wait t).fifo = { t.fifo with workers := t.fifo.workers.set i .wait } :=
          fun _ => rfl
        rw [level_eq, hsame] at hlevel
        rw [hset, hfifo, hsame]
        exact .complete i cmd status hget hlevel
      · exact .halt
    | wait =>
      dsimp only
      split_ifs
      · exact .refl _
      · exact .move i _ .top hget rfl rfl
    | exited => exact .refl _

/-- What an operation means to the command FIFO. -/
def kind : Op → Fifo.Kind
  | .regWrite addr val =>
    if s.halted = false ∧ addr % 4 = 0 then writeKind addr val else .other
  | .work _ => .other

theorem steps_step (s : AppleAESState μ) (op : Op) :
    s.fifo.Steps (kind s op) (step cfg s op).fifo := by
  unfold step
  by_cases hhalted : s.halted = true
  · have hother : kind s op = .other := by
      cases op with
      | regWrite addr val => exact if_neg fun h => by simp [hhalted] at h
      | work i => rfl
    rw [if_pos hhalted, hother]
    exact .refl _
  · rw [if_neg hhalted]
    cases op with
    | regWrite addr val =>
      dsimp only [kind]
      by_cases haligned : addr % 4 = 0
      · have hboth : s.halted = false ∧ addr % 4 = 0 := ⟨Bool.eq_false_iff.mpr hhalted, haligned⟩
        rw [if_pos haligned, if_pos hboth]
        exact steps_regWrite haligned val s
      · have hnot : ¬ (s.halted = false ∧ addr % 4 = 0) := fun h => haligned h.2
        rw [if_neg haligned, if_neg hnot]
        exact .refl _
    | work i => exact steps_work cfg i s

end Inferno.Aes
