import Inferno.Aes.Framing

/-!
# The level of the command FIFO of the AES accelerator

`level` counts the words that were received and not yet retired: those of the queued commands, of
the commands that the workers perform, and of the command that is received. It is counted up word by
word and down command by command, in a field of eight bits.

`Steps.accounted_iff` goes through the steps of the command FIFO and says which of them keep the
account. A word with an unknown opcode is counted and never retired, and a cleared queue or a reset
takes words for retired that are not: those of the command that is received, and those of the
commands that the workers perform and will retire later. In all other cases the level is the number
of words, modulo what the field holds (`level_throughout_iff`).
-/

namespace Inferno.Aes

open Common AppleAESState List BitVec

variable {μ : Type}

namespace Fifo

variable (f : Fifo)

/-- The number of words of the commands that the workers perform. -/
def inProcess : ℕ := (f.workers.map Worker.words).sum

/-- The number of words of the queued commands. -/
def inQueue : ℕ := (f.queue.map fun cmd => cmd.data_len.toNat).sum

/-- The number of words that were received and not yet retired. -/
def outstanding : ℕ := f.inQueue + f.inProcess + f.data_read.toNat

/-- The level is this number, as far as the field holds it. -/
def Accounted : Prop := f.level.toNat = f.outstanding % 256

/-- The word is taken for the first of a command and has no opcode that the device knows. -/
def IsInvalid (val : BitVec 32) : Prop :=
  ¬ f.data_read < f.data_len ∧ commandLen val = none

instance (f : Fifo) (val : BitVec 32) : Decidable (f.IsInvalid val) :=
  inferInstanceAs (Decidable (_ ∧ _))

/-- What keeps the level right: the opcode of a word is known, and nothing but what is queued is
outstanding when the queue is cleared; when the device is reset, nothing but what is queued and what
is received. -/
def Keeps : Kind → Prop
  | .word val => ¬ f.IsInvalid val
  | .clear => (f.inProcess + f.data_read.toNat) % 256 = 0
  | .reset => f.inProcess % 256 = 0
  | .other => True

/-! ## Words that come and go -/

variable {i : ℕ} {f : Fifo}

theorem sum_words_set {ws : List Worker} {w : Worker} (h : ws[i]? = some w) (w' : Worker) :
    ((ws.set i w').map Worker.words).sum + w.words = (ws.map Worker.words).sum + w'.words := by
  induction ws generalizing i with
  | nil => exact nomatch h
  | cons v vs ih =>
    cases i with
    | zero =>
      obtain rfl : v = w := Option.some.inj h
      simp only [set_cons_zero, map_cons, sum_cons]
      omega
    | succ i =>
      have hrest := ih h
      simp only [set_cons_succ, map_cons, sum_cons]
      omega

theorem Assembling.length_received (h : f.Assembling) : f.received.length = f.data_read.toNat := by
  cases h with
  | idle hdata hlen hread =>
    rw [received_of_idle hdata, hread]
    rfl
  | receiving words room hdata hread hlen hroom hcommand =>
    rw [received_of_receiving hdata hread, hread, length_cons]

theorem Assembling.data_read_lt (h : f.Assembling) : f.data_read.toNat + 1 < 2 ^ 32 := by
  cases h with
  | idle hdata hlen hread =>
    rw [hread]
    decide
  | receiving words room hdata hread hlen hroom hcommand =>
    omega

theorem isInvalid_iff (h : f.Assembling) {val : BitVec 32} :
    f.IsInvalid val ↔ commandSize (f.received.headD val) = none := by
  unfold IsInvalid
  cases h with
  | idle hdata hlen hread =>
    have hnot : ¬ f.data_read < f.data_len := by
      rw [hlen, hread]
      decide
    rw [and_iff_right hnot, received_of_idle hdata, headD_nil, commandSize, Option.map_eq_none_iff]
  | receiving words room hdata hread hlen hroom hcommand =>
    have hlt : f.data_read < f.data_len := by
      show f.data_read.toNat < f.data_len.toNat
      omega
    rw [received_of_receiving hdata hread, headD_cons, commandSize, hcommand]
    exact iff_of_false (fun hinvalid => hinvalid.1 hlt) (Option.some_ne_none _)

theorem outstanding_receives {f' : Fifo} {val : BitVec 32} (hf : f.Assembling)
    (h : f.Receives f' val) (hworkers : f'.workers = f.workers) :
    f'.outstanding = f.outstanding + if f.IsInvalid val then 0 else 1 := by
  have hread : f.data_read.toNat = f.received.length := hf.length_received.symm
  have hread' : f'.data_read.toNat = (accept commandSize f.received val).1.length := by
    rw [← h.assembling.length_received, h.received]
  have hqueue : f'.inQueue = f.inQueue +
      (((accept commandSize f.received val).2.map AESCommand.ofWords).toList.map
        fun cmd => cmd.data_len.toNat).sum := by
    unfold inQueue
    rw [h.queue, map_append, sum_append]
  have hprocess : f'.inProcess = f.inProcess := by
    unfold inProcess
    rw [hworkers]
  have hunfinished := hf.unfinished
  unfold outstanding
  rw [hread', hqueue, hprocess, hread]
  unfold accept
  cases hsize : commandSize (f.received.headD val) with
  | none =>
    rw [if_pos ((isInvalid_iff hf).mpr hsize), hunfinished.eq_nil hsize]
    rfl
  | some n =>
    have hvalid : ¬ f.IsInvalid val := by
      rw [isInvalid_iff hf, hsize]
      exact nofun
    dsimp only
    split_ifs with hcomplete
    · have hlen : (AESCommand.ofWords (f.received ++ [val])).data_len.toNat =
          f.received.length + 1 := by
        show (BitVec.ofNat 32 (f.received ++ [val]).length).toNat = _
        rw [length_append, ← hread]
        exact Nat.mod_eq_of_lt hf.data_read_lt
      show f.inQueue + ((AESCommand.ofWords (f.received ++ [val])).data_len.toNat + 0) +
        f.inProcess + 0 = _
      omega
    · show f.inQueue + 0 + f.inProcess + (f.received ++ [val]).length = _
      rw [length_append, length_singleton]
      omega

/-- A worker that goes on with as many words as before keeps all that is outstanding. -/
theorem outstanding_move {w w' : Worker} (hget : f.workers[i]? = some w)
    (hwords : w'.words = w.words) :
    outstanding { f with workers := f.workers.set i w' } = f.outstanding := by
  have hprocess : ((f.workers.set i w').map Worker.words).sum = f.inProcess := by
    have hsum := sum_words_set hget w'
    unfold inProcess
    omega
  show f.inQueue + ((f.workers.set i w').map Worker.words).sum + f.data_read.toNat = _
  rw [hprocess]
  rfl

variable {cmd : AESCommand}

/-- The words of a command that is taken leave the queue and go to the worker. -/
theorem outstanding_take {queue : List AESCommand} {halted : Bool}
    (hget : f.workers[i]? = some .enter) (hqueue : f.queue = cmd :: queue) : outstanding { f with
      workers := f.workers.set i (.busy cmd), queue := queue, halted := halted } =
        f.outstanding := by
  have hprocess : ((f.workers.set i (.busy cmd)).map Worker.words).sum =
      f.inProcess + cmd.data_len.toNat := sum_words_set hget (.busy cmd)
  have hsplit : f.inQueue = cmd.data_len.toNat + (queue.map fun cmd => cmd.data_len.toNat).sum := by
    unfold inQueue
    rw [hqueue]
    rfl
  show (queue.map fun cmd => cmd.data_len.toNat).sum +
    ((f.workers.set i (.busy cmd)).map Worker.words).sum + f.data_read.toNat = _
  unfold outstanding
  omega

theorem outstanding_complete (status : BitVec 32) (hget : f.workers[i]? = some (.busy cmd)) :
    outstanding { f with workers := f.workers.set i .wait, status := status } +
      cmd.data_len.toNat = f.outstanding := by
  have hprocess : ((f.workers.set i .wait).map Worker.words).sum + cmd.data_len.toNat =
      f.inProcess := sum_words_set hget .wait
  show f.inQueue + ((f.workers.set i .wait).map Worker.words).sum + f.data_read.toNat + _ = _
  unfold outstanding
  omega

theorem Steps.accounted_iff {f' : Fifo} {k : Kind} (h : f.Steps k f') (hf : f.Assembling)
    (haccounted : f.Accounted) : f'.Accounted ↔ f.Keeps k := by
  cases h with
  | quiet status watermarks hlevel =>
    refine iff_of_true ?_ trivial
    show (status.extractLsb' 8 8).toNat = f.outstanding % 256
    rw [hlevel]
    exact haccounted
  | halt => exact iff_of_true haccounted trivial
  | word val status f₁ hreceive hlevel =>
    have hword := outstanding_receives hf ((Steps.word val status f₁ hreceive hlevel).receives hf)
      (receive_frame hreceive).2
    have hcount : (f.level + 1).toNat = (f.outstanding + 1) % 256 := by
      rw [toNat_add, haccounted]
      exact (Nat.add_mod f.outstanding 1 256).symm
    show (status.extractLsb' 8 8).toNat = outstanding _ % 256 ↔ ¬ f.IsInvalid val
    rw [hlevel, hcount, hword]
    by_cases hinvalid : f.IsInvalid val
    · rw [if_pos hinvalid]
      exact iff_of_false (by omega) (not_not_intro hinvalid)
    · rw [if_neg hinvalid]
      exact iff_of_true rfl hinvalid
  | crash val hnone =>
    obtain ⟨f₁, hreceive, -⟩ := receive_spec hf val
    exact absurd (hnone.symm.trans hreceive) nofun
  | clear status hlevel =>
    show (status.extractLsb' 8 8).toNat = (0 + f.inProcess + f.data_read.toNat) % 256 ↔
      (f.inProcess + f.data_read.toNat) % 256 = 0
    rw [hlevel, Nat.zero_add]
    exact eq_comm
  | reset status watermarks hlevel =>
    show (status.extractLsb' 8 8).toNat = (0 + f.inProcess + 0) % 256 ↔ f.inProcess % 256 = 0
    rw [hlevel, Nat.zero_add]
    exact eq_comm
  | start =>
    refine iff_of_true ?_ trivial
    show f.level.toNat = (f.inQueue + (0 + f.inProcess) + f.data_read.toNat) % 256
    rw [Nat.zero_add]
    exact haccounted
  | move i w w' hget hw hw' =>
    refine iff_of_true ?_ trivial
    show f.level.toNat = outstanding _ % 256
    rw [outstanding_move hget (hw'.trans hw.symm)]
    exact haccounted
  | take i cmd queue halted hget hqueue =>
    refine iff_of_true ?_ trivial
    show f.level.toNat = outstanding _ % 256
    rw [outstanding_take hget hqueue]
    exact haccounted
  | complete i cmd status hget hlevel =>
    refine iff_of_true ?_ trivial
    -- The words of the command are taken off both.
    have hlen : (cmd.data_len.setWidth 8).toNat = cmd.data_len.toNat % 256 :=
      toNat_setWidth ..
    have hsum := outstanding_complete status hget
    show (status.extractLsb' 8 8).toNat = outstanding _ % 256
    rw [hlevel, toNat_sub, haccounted]
    omega

end Fifo

/-! ## Runs -/

variable (s : AppleAESState μ)

/-- The level is the number of words that were received and not yet retired, as far as the field
holds it. -/
def Accounted : Prop := s.fifo.Accounted

/-- The operation keeps the level right. -/
def Keeps (op : Op) : Prop := s.fifo.Keeps (kind s op)

section

variable (cfg : Config μ) (mem : μ) (ops : List Op)

/-- Nothing is received at the start of the device. -/
theorem assembling_init : (init mem).fifo.Assembling :=
  (steps_reset _).assembling (.idle rfl rfl rfl)

/-- The level is zero at the start of the device. -/
theorem accounted_init : Accounted (init mem) := by
  refine ((steps_reset _).accounted_iff (.idle rfl rfl rfl) ?_).mpr rfl
  show ((0 : BitVec 32).extractLsb' 8 8).toNat = (0 + 0 + (0 : BitVec 32).toNat) % 256
  decide

/-- In a run from the start of the device the level is right in every state exactly when every word
has a known opcode, and every clear and every reset finds nothing outstanding that it does not
remove. -/
theorem level_throughout_iff :
    Throughout (step cfg) Accounted (init mem) ops ↔ Guarded (step cfg) Keeps (init mem) ops :=
  throughout_iff_guarded_of_invariant (I := fun s => s.fifo.Assembling)
    (fun s op => (steps_step cfg s op).assembling)
    (fun s op => (steps_step cfg s op).accounted_iff) (assembling_init mem) (accounted_init mem)

/-- The device after some operations. -/
def after : AppleAESState Unit := run (step sampleConfig) (init ()) ops

end

/-- A word with an unknown opcode leaves the level at one with nothing outstanding. Clearing the
queue in the middle of a command leaves it at zero with one word outstanding, and clearing it while
a worker performs a command of one word leaves it at 255 in the end. -/
theorem not_level_eq_outstanding :
    (after [.regWrite 0x200 0]).fifo.outstanding = 0 ∧ (after [.regWrite 0x200 0]).level = 1 ∧
    (after [.regWrite 0x200 0x10000000, .regWrite 0x38 1]).fifo.outstanding = 1 ∧
    (after [.regWrite 0x200 0x10000000, .regWrite 0x38 1]).level = 0 ∧
    (after [.regWrite 0x200 0x80000000, .regWrite 0x8 1, .work 0, .work 0, .regWrite 0x38 1,
      .work 0]).fifo.outstanding = 0 ∧
    (after [.regWrite 0x200 0x80000000, .regWrite 0x8 1, .work 0, .work 0, .regWrite 0x38 1,
      .work 0]).level = 255 := by
  decide +kernel

end Inferno.Aes
