import Inferno.Aes.Model
import Inferno.Common.Run
import Inferno.Vmstate.Transfer

/-!
# The AES engine over a migration

`vmstate_apple_aes` has version 0. The array of the key contexts and the words of a command are
fields of version 1, which neither `vmstate_save_state` nor `vmstate_load_state` ever visits, and
there is no field for the words of the command that is received. `RoundTrip` says that a state
survives; `appleAes_roundTrip_iff` says which ones do: those without a command in the queue, without
a command that is received and without a key, in which `pre_save` can join the worker.

What loading keeps carries one direction (`Forgotten`): whatever the stream holds, the new device
has no received words, the key contexts of a fresh device, and commands whose words are what
`g_malloc` left there. For the other direction the fields that exist are copied one by one.
-/

namespace Inferno.Aes

open Common Vmstate AppleAESState List

variable {μ : Type}

/-! ## The descriptions -/

/-- The value of a `QCryptoCipherAlgo`. -/
def QCryptoCipherAlgo.code : QCryptoCipherAlgo → BitVec 32
  | .aes128 => 0
  | .aes192 => 1
  | .aes256 => 2
  | .max => 13

/-- The `QCryptoCipherAlgo` with a value, where the engine can use it. -/
def QCryptoCipherAlgo.ofCode (v : BitVec 32) : QCryptoCipherAlgo :=
  if v = 0 then .aes128 else if v = 1 then .aes192 else if v = 2 then .aes256 else .max

def appleAesKeyPostLoad (k : AESKey) : Option AESKey :=
  if k.select ≠ KEY_SELECT_SOFTWARE then some { k with cipher := none, disabled := true }
  else
    (cipherNew k.algo (keyMode k.mode) (ofFn k.key) k.len.toNat).map fun cipher =>
      { k with cipher := some cipher, disabled := false }

variable (s : AppleAESState μ)

/-- `apple_aes_pre_save`; it does not return when the worker cannot be joined. -/
def appleAesPreSave : Option (AppleAESState μ) :=
  let s := if s.stopped then s else { stop s with stopped := false }
  if s.halted then none else some s

def appleAesPostLoad : Option (AppleAESState μ) :=
  some (if s.stopped then s else start { s with stopped := true })

def vmstateAppleAesCommand : VMStateDescription AESCommand where
  name := "apple_aes_command"
  version_id := 0
  minimum_version_id := 0
  fields :=
    [vmstateSingle "command" 0 vmstateInfoUint32 (·.command) fun v c => { c with command := v },
      vmstateSingle "data_len" 0 vmstateInfoUint32 (·.data_len) fun v c => { c with data_len := v },
      vmstateVarrayUint32Alloc "data" 1 vmstateInfoUint32 (·.data_len) (fun _ => 0) (·.data)
        fun v c => { c with data := v }]

def vmstateAppleAesKey : VMStateDescription AESKey where
  name := "apple_aes_key"
  version_id := 0
  minimum_version_id := 0
  post_load := appleAesKeyPostLoad
  fields :=
    [vmstateSingle "select" 0 vmstateInfoUint32 (·.select) fun v k => { k with select := v },
      vmstateSingle "algo" 0 vmstateInfoUint32 (·.algo.code) fun v k =>
        { k with algo := .ofCode v },
      vmstateSingle "len" 0 vmstateInfoUint32 (·.len) fun v k => { k with len := v },
      vmstateSingle "wrapped" 0 vmstateInfoBool (·.wrapped) fun v k => { k with wrapped := v },
      vmstateSingle "encrypt" 0 vmstateInfoBool (·.encrypt) fun v k => { k with encrypt := v },
      vmstateSingle "func" 0 vmstateInfoUint32 (·.func) fun v k => { k with func := v },
      vmstateSingle "mode" 0 vmstateInfoUint32 (·.mode) fun v k => { k with mode := v },
      vmstateSingle "id" 0 vmstateInfoUint8 (·.id) fun v k => { k with id := v },
      vmstateArray "key" 32 0 vmstateInfoUint8 (fun k i => (k.key i).toBitVec) fun v k =>
        { k with key := fun i => ⟨v i⟩ },
      vmstateSingle "disabled" 0 vmstateInfoBool (·.disabled) fun v k => { k with disabled := v }]

variable (iv : Fin 4 → Fin 16 → UInt8)

/-- The initialisation vectors as one array. -/
def ivBytes (i : Fin 64) : BitVec 8 :=
  (iv ⟨i / 16, by omega⟩ ⟨i % 16, by omega⟩).toBitVec

/-- The initialisation vectors in one array. -/
def ivOfBytes (v : Fin 64 → BitVec 8) (i : Fin 4) (j : Fin 16) : UInt8 :=
  ⟨v ⟨16 * i + j, by omega⟩⟩

variable (malloc : ℕ → AESCommand)

/-- `vmstate_apple_aes`; `malloc` is what a new command of the queue holds before it is loaded. -/
def vmstateAppleAes : VMStateDescription (AppleAESState μ) where
  name := "AppleAESState"
  version_id := 0
  minimum_version_id := 0
  pre_save := appleAesPreSave
  post_load := appleAesPostLoad
  fields :=
    [vmstateSingle "last_level" 0 vmstateInfoInt32 (·.last_level) fun v s =>
        { s with last_level := v },
      vmstateArray "reg.raw" 129 0 vmstateInfoUint32 (·.reg) fun v s => { s with reg := v },
      vmstateQtailqV "queue" 0 vmstateAppleAesCommand malloc (·.queue) fun v s =>
        { s with queue := v },
      vmstateSingle "command" 0 vmstateInfoUint32 (·.command) fun v s => { s with command := v },
      vmstateSingle "data_len" 0 vmstateInfoUint32 (·.data_len) fun v s => { s with data_len := v },
      vmstateSingle "data_read" 0 vmstateInfoUint32 (·.data_read) fun v s =>
        { s with data_read := v },
      vmstateArray "keys" 2 1 vmstateAppleAesKey.info (·.keys) fun v s => { s with keys := v },
      vmstateArray "iv" 64 0 vmstateInfoUint8 (ivBytes ·.iv) fun v s =>
        { s with iv := ivOfBytes v },
      vmstateSingle "stopped" 0 vmstateInfoBool (·.stopped) fun v s => { s with stopped := v }]

/-! ## What loading keeps -/

variable {s s' : AppleAESState μ}

theorem data_of_loadState_command {cmd cmd' : AESCommand} {f rest : List UInt8}
    (h : loadState vmstateAppleAesCommand 0 cmd f = some (cmd', rest)) : cmd'.data = cmd.data := by
  obtain ⟨-, -, -, cmd₁, hfields, hpost⟩ := loadState_eq_some_iff.mp h
  obtain rfl := Option.some.inj hpost
  refine loadFields_preserves (I := fun c => c.data = cmd.data) ?_ hfields rfl
  intro field hfield hversion
  simp only [vmstateAppleAesCommand, mem_cons, not_mem_nil, or_false] at hfield
  rcases hfield with rfl | rfl | rfl
  case inr.inr => exact absurd hversion (by decide)
  all_goals exact preserves_single fun _ _ h => h

/-- No field carries these parts of a state: the words of the command that is received, the key
contexts and the words of the commands in the queue. -/
structure Forgotten (data : List (BitVec 32)) (s : AppleAESState μ) : Prop where
  data_eq : s.data = none
  keys_eq : s.keys = fun _ => .zero
  /-- The words of the commands are those of new memory. -/
  queue_data : ∀ cmd ∈ s.queue, cmd.data = data

theorem init_fresh (mem : μ) :
    (init mem).queue = [] ∧ (init mem).data = none ∧ (init mem).keys = fun _ => .zero := by
  have hline : ∀ s : AppleAESState μ, (updateIrq s).queue = s.queue ∧
      (updateIrq s).data = s.data ∧ (updateIrq s).keys = s.keys := by
    intro s
    unfold updateIrq
    split_ifs
    all_goals exact ⟨rfl, rfl, rfl⟩
  exact hline _

theorem forgotten_init {data : List (BitVec 32)} (mem : μ) : Forgotten data (init mem) := by
  obtain ⟨hqueue, hdata, hkeys⟩ := init_fresh mem
  refine ⟨hdata, hkeys, fun cmd hcmd => ?_⟩
  rw [hqueue] at hcmd
  exact absurd hcmd not_mem_nil

/-- `post_load` starts a worker or changes nothing. -/
theorem eq_of_appleAesPostLoad (h : appleAesPostLoad s = some s') :
    ∃ stopped workers, s' = { s with stopped := stopped, workers := workers } := by
  obtain rfl := Option.some.inj h
  split_ifs
  · exact ⟨s.stopped, s.workers, rfl⟩
  · exact ⟨false, .top :: s.workers, rfl⟩

/-- Whatever the stream holds, a fresh device that loads it has forgotten. -/
theorem forgotten_of_loadState {cmd : AESCommand} {mem : μ} {f rest : List UInt8}
    (h : loadState (vmstateAppleAes fun _ => cmd) 0 (init mem) f = some (s', rest)) :
    Forgotten cmd.data s' := by
  obtain ⟨-, -, -, s₁, hfields, hpost⟩ := loadState_eq_some_iff.mp h
  have hs₁ : Forgotten cmd.data s₁ := by
    refine loadFields_preserves ?_ hfields (forgotten_init mem)
    intro field hfield hversion
    simp only [vmstateAppleAes, mem_cons, not_mem_nil, or_false] at hfield
    rcases hfield with rfl | rfl | rfl | rfl | rfl | rfl | rfl | rfl | rfl
    case inr.inl => exact preserves_array fun _ _ h => ⟨h.1, h.2, h.3⟩
    case inr.inr.inl =>
      -- The queue is the only field that brings commands, each of them in new memory.
      refine preserves_qtailq (P := fun c => c.data = cmd.data)
        (fun _ _ _ _ hload => data_of_loadState_command hload) fun es s hes hs => ?_
      refine ⟨hs.data_eq, hs.keys_eq, fun c hc => ?_⟩
      rcases mem_append.mp hc with hc | hc
      · exact hs.queue_data c hc
      · exact hes c hc
    case inr.inr.inr.inr.inr.inr.inl => exact absurd hversion (Nat.not_succ_le_zero 0)
    case inr.inr.inr.inr.inr.inr.inr.inl => exact preserves_array fun _ _ h => ⟨h.1, h.2, h.3⟩
    all_goals exact preserves_single fun _ _ h => ⟨h.1, h.2, h.3⟩
  obtain ⟨stopped, workers, rfl⟩ := eq_of_appleAesPostLoad hpost
  exact ⟨hs₁.data_eq, hs₁.keys_eq, hs₁.queue_data⟩

/-! ## What is saved -/

section

variable (s : AppleAESState μ)

/-- `pre_save` can join the worker. -/
def Joins : Prop :=
  s.halted = false ∧ (s.stopped = false → ∀ cmd, s.workers.head? ≠ some (.busy cmd))

/-- With an empty queue `aes_stop` changes only the workers, unless the first of them is busy. -/
theorem stop_of_queue_eq_nil (hstopped : s.stopped = false) (hqueue : s.queue = []) :
    ∃ workers halted, stop s = { s with stopped := true, workers := workers, halted := halted } ∧
      (halted = false ↔ s.halted = false ∧ ∀ cmd, s.workers.head? ≠ some (.busy cmd)) := by
  obtain ⟨last_level, irq, reg, queue, command, data, data_len, data_read, keys, iv, stopped,
    workers, mem, halted⟩ := s
  obtain rfl : queue = [] := hqueue
  obtain rfl : stopped = false := hstopped
  cases workers with
  | nil => exact ⟨[], halted, rfl, by simp⟩
  | cons w ws =>
    cases w
    case busy cmd => exact ⟨.busy cmd :: ws, true, rfl, by simp⟩
    all_goals exact ⟨.exited :: ws, halted, rfl, by simp⟩

/-- With an empty queue `pre_save` returns when the worker can be joined, with a state that differs
only in the workers. -/
theorem appleAesPreSave_of_joins (hqueue : s.queue = []) (hjoins : Joins s) :
    ∃ workers, appleAesPreSave s = some { s with workers := workers } := by
  obtain ⟨hhalted, hworkers⟩ := hjoins
  unfold appleAesPreSave
  rcases Bool.eq_false_or_eq_true s.stopped with hstopped | hstopped
  · rw [if_pos hstopped, if_neg (by rw [hhalted]; exact Bool.false_ne_true)]
    exact ⟨s.workers, rfl⟩
  · obtain ⟨workers, halted, hstop, hiff⟩ := stop_of_queue_eq_nil s hstopped hqueue
    obtain rfl : halted = false := hiff.mpr ⟨hhalted, hworkers hstopped⟩
    rw [hstop]
    exact ⟨workers, by simp [hstopped, hhalted]⟩

end

/-- With an empty queue `pre_save` returns only when the worker can be joined. -/
theorem joins_of_appleAesPreSave {s₁ : AppleAESState μ} (hqueue : s.queue = [])
    (h : appleAesPreSave s = some s₁) : Joins s := by
  unfold appleAesPreSave at h
  dsimp only at h
  rcases Bool.eq_false_or_eq_true s.stopped with hstopped | hstopped
  · split_ifs at h with hhalted
    refine ⟨Bool.eq_false_iff.mpr hhalted, fun hrunning => ?_⟩
    exact absurd hstopped (Bool.eq_false_iff.mp hrunning)
  · obtain ⟨workers, halted, hstop, hiff⟩ := stop_of_queue_eq_nil s hstopped hqueue
    rw [if_neg (Bool.eq_false_iff.mp hstopped), hstop] at h
    split_ifs at h with hhalted
    obtain ⟨hs, hworkers⟩ := hiff.mp (Bool.eq_false_iff.mpr hhalted)
    exact ⟨hs, fun _ => hworkers⟩

/-! ## The round trip -/

/-- What is to survive: the registers, the queue with the words of its commands, the words of the
command that is received, the key contexts and the initialisation vectors. -/
structure Survives (s s' : AppleAESState μ) : Prop where
  reg : s'.reg = s.reg
  queue : s'.queue = s.queue
  data : s'.data = s.data
  data_len : s'.data_len = s.data_len
  data_read : s'.data_read = s.data_read
  keys : s'.keys = s.keys
  iv : s'.iv = s.iv

/-- The state is saved, and a fresh device that loads it takes the whole stream and has the same
state, whatever `g_malloc` returns. -/
def RoundTrip (s : AppleAESState μ) : Prop :=
  ∀ (mem : μ) (malloc : ℕ → AESCommand), ∃ bytes s',
    saveState (vmstateAppleAes malloc) s = some bytes ∧
      loadState (vmstateAppleAes malloc) 0 (init mem) bytes = some (s', []) ∧ Survives s s'

section

variable (h : RoundTrip s)

include h

/-- A state with a command in the queue does not survive: its words are lost. -/
theorem queue_eq_nil_of_roundTrip : s.queue = [] := by
  cases hqueue : s.queue with
  | nil => rfl
  | cons cmd cmds =>
    -- The memory of the new commands holds one word more than this command has.
    obtain ⟨bytes, s', -, hload, hsame⟩ := h s.mem fun _ => { cmd with data := 0 :: cmd.data }
    have hmem : cmd ∈ s'.queue := by
      rw [hsame.queue, hqueue]
      exact mem_cons_self
    have hdata := (forgotten_of_loadState hload).queue_data cmd hmem
    exact absurd hdata.symm (cons_ne_self 0 cmd.data)

theorem data_eq_none_of_roundTrip : s.data = none := by
  obtain ⟨bytes, s', -, hload, hsame⟩ := h s.mem fun _ => ⟨0, [], 0⟩
  rw [← hsame.data]
  exact (forgotten_of_loadState hload).data_eq

theorem keys_eq_zero_of_roundTrip : s.keys = fun _ => .zero := by
  obtain ⟨bytes, s', -, hload, hsame⟩ := h s.mem fun _ => ⟨0, [], 0⟩
  rw [← hsame.keys]
  exact (forgotten_of_loadState hload).keys_eq

theorem joins_of_roundTrip : Joins s := by
  obtain ⟨bytes, s', hsave, -⟩ := h s.mem fun _ => ⟨0, [], 0⟩
  obtain ⟨s₁, hpre, -⟩ := Option.bind_eq_some_iff.mp hsave
  exact joins_of_appleAesPreSave (queue_eq_nil_of_roundTrip h) hpre

end

theorem ivOfBytes_ivBytes : ivOfBytes (ivBytes iv) = iv := by
  funext i j
  have hi : (⟨(16 * i.val + j.val) / 16, by omega⟩ : Fin 4) = i := Fin.ext (by simp; omega)
  have hj : (⟨(16 * i.val + j.val) % 16, by omega⟩ : Fin 16) = j := Fin.ext (by simp)
  show (⟨(iv ⟨(16 * i.val + j.val) / 16, _⟩ ⟨(16 * i.val + j.val) % 16, _⟩).toBitVec⟩ : UInt8) = _
  rw [hi, hj]

theorem fieldsCopy_vmstateAppleAes (s : AppleAESState μ) (hqueue : s.queue = []) :
    ∃ bytes c, FieldsCopy 0 (vmstateAppleAes malloc).fields s bytes [] c ∧ ∀ t, c t = { t with
      last_level := s.last_level, reg := s.reg, command := s.command, data_len := s.data_len,
      data_read := s.data_read, iv := s.iv, stopped := s.stopped } := by
  have hword := infoUint_faithful 4
  have hbyte := infoUint_faithful 1
  refine ⟨_, _, .cons le_rfl hword.copies_single <| .cons le_rfl hword.copies_array <|
    .cons le_rfl (copies_qtailq_nil hqueue le_rfl le_rfl) <|
    .cons le_rfl hword.copies_single <| .cons le_rfl hword.copies_single <|
    .cons le_rfl hword.copies_single <| .skip (Nat.not_succ_le_zero 0) <|
    .cons le_rfl hbyte.copies_array <| .cons le_rfl infoBool_faithful.copies_single .nil, ?_⟩
  intro t
  simp [ivOfBytes_ivBytes]

/-- A state survives a migration exactly when no command is in the queue, none is received, no key
was given and the worker can be joined. -/
theorem appleAes_roundTrip_iff (s : AppleAESState μ) :
    RoundTrip s ↔ Joins s ∧ s.queue = [] ∧ s.data = none ∧ s.keys = fun _ => .zero := by
  constructor
  · intro h
    exact ⟨joins_of_roundTrip h, queue_eq_nil_of_roundTrip h, data_eq_none_of_roundTrip h,
      keys_eq_zero_of_roundTrip h⟩
  · rintro ⟨hjoins, hqueue, hdata, hkeys⟩ mem malloc
    obtain ⟨workers, hpre⟩ := appleAesPreSave_of_joins s hqueue hjoins
    obtain ⟨bytes, c, hcopy, hc⟩ :=
      fieldsCopy_vmstateAppleAes malloc { s with workers := workers } hqueue
    have hsave : saveState (vmstateAppleAes malloc) s = some bytes := hcopy.saveState hpre
    obtain ⟨s', hpost⟩ : ∃ s', appleAesPostLoad (c (init mem)) = some s' := ⟨_, rfl⟩
    have hload : loadState (vmstateAppleAes malloc) 0 (init mem) (bytes ++ []) = some (s', []) :=
      hcopy.loadState le_rfl nofun hpost
    rw [append_nil] at hload
    refine ⟨bytes, s', hsave, hload, ?_⟩
    -- What the fields do not carry is the same because there was nothing to carry.
    obtain ⟨hqueue', hdata', hkeys'⟩ := init_fresh mem
    obtain ⟨stopped, workers', rfl⟩ := eq_of_appleAesPostLoad hpost
    rw [hc]
    exact ⟨rfl, hqueue'.trans hqueue.symm, hdata'.trans hdata.symm, rfl, rfl,
      hkeys'.trans hkeys.symm, rfl⟩

/-- A device that has received the first word of a command does not survive, nor does one with a
command in the queue, nor one that was given a key. -/
theorem not_appleAes_roundTrip :
    ¬ RoundTrip (run (step sampleConfig) (init ()) [.regWrite 0x200 0x20000000]) ∧
    ¬ RoundTrip (run (step sampleConfig) (init ())
      [.regWrite 0x200 0x20000000, .regWrite 0x200 1, .regWrite 0x200 2, .regWrite 0x200 3,
        .regWrite 0x200 4]) ∧ ¬ RoundTrip (run (step sampleConfig) (init ())
      [.regWrite 0x8 1, .regWrite 0x200 0x11000007, .work 0, .work 0, .work 0]) := by
  refine ⟨fun h => ?_, fun h => ?_, fun h => ?_⟩
  · exact absurd (data_eq_none_of_roundTrip h) (by decide +kernel)
  · exact absurd (queue_eq_nil_of_roundTrip h) (by decide +kernel)
  · have hid := congrArg (fun keys => (keys 0).id) (keys_eq_zero_of_roundTrip h)
    exact absurd hid (by decide +kernel)

end Inferno.Aes
