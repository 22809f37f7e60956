import Inferno.Aes.Fifo
import Inferno.Common.Framing
import Inferno.Common.Run

/-!
# Framing of the commands of the AES accelerator

The words that the guest writes to the command FIFO are put together to commands. The meaning of a
stream of words is `Common.parse` with the number of words that the first one tells; words with an
unknown opcode are skipped. `Fifo.Assembling` is the invariant of the command that is received, and
`receive_spec` says that the device is the receiver `Common.accept`.

The length of a command is computed when it is received and its words are read when it is
performed, in separate places. They agree but for a key of the hardware, whose command has one word
and of which the key is read all the same. A software key with the length 3 or the block mode 3
makes a cipher that does not exist, with `error_abort` (`framing`).
-/

namespace Inferno.Aes

open Common AppleAESState List BitVec Option Except

variable {μ : Type}

/-! ## The receiver -/

/-- A command of at least one word, as it is queued. -/
def AESCommand.ofWords (words : List (BitVec 32)) : AESCommand :=
  ⟨words.headD 0, words, BitVec.ofNat 32 words.length⟩

variable (w : BitVec 32)

/-- The number of words of the command that begins with the word. -/
def commandSize : Option ℕ := (commandLen w).map BitVec.toNat

variable {s : AppleAESState μ} (cfg : Config μ)

theorem commandSize_pos (n : ℕ) (h : commandSize w = some n) : 1 ≤ n := by
  obtain ⟨len, hlen, rfl⟩ := map_eq_some_iff.mp h
  unfold commandLen at hlen
  cases hop : opcode w <;> rw [hop] at hlen <;> dsimp only at hlen
  case unknown => exact nomatch hlen
  case key =>
    split_ifs at hlen
    · obtain rfl := some.inj hlen
      unfold keySize
      split_ifs <;> decide
    · obtain rfl := some.inj hlen
      decide
  all_goals
    obtain rfl := some.inj hlen
    decide

namespace Fifo

/-- The words that are there of the command that is received. -/
def received (f : Fifo) : List (BitVec 32) :=
  match f.data with
  | some data => data.take f.data_read.toNat
  | none => []

/-- The command that is received: there is none, or there is a buffer with room for the words that
are missing. -/
inductive Assembling (f : Fifo) : Prop
  /-- No command is received. -/
  | idle (hdata : f.data = none) (hlen : f.data_len = 0) (hread : f.data_read = 0)
  | receiving (words room : List (BitVec 32)) (hdata : f.data = some (f.command :: words ++ room))
      (hread : f.data_read.toNat = words.length + 1)
      (hlen : f.data_len.toNat = words.length + 1 + room.length) (hroom : 0 < room.length)
      (hcommand : commandLen f.command = some f.data_len)

variable {f : Fifo} {words room : List (BitVec 32)} {f' : Fifo}

theorem received_of_idle (hdata : f.data = none) : f.received = [] := by
  unfold received
  rw [hdata]

theorem received_of_receiving (hdata : f.data = some (f.command :: words ++ room))
    (hread : f.data_read.toNat = words.length + 1) : f.received = f.command :: words := by
  unfold received
  rw [hdata, hread]
  exact take_left' rfl

theorem Assembling.unfinished (h : f.Assembling) : Unfinished commandSize f.received := by
  cases h with
  | idle hdata _ _ =>
    rw [received_of_idle hdata]
    exact nofun
  | receiving words room hdata hread hlen hroom hcommand =>
    rw [received_of_receiving hdata hread]
    intro w hw
    obtain rfl : f.command = w := some.inj hw
    refine ⟨f.data_len.toNat, by rw [commandSize, hcommand]; rfl, ?_⟩
    rw [length_cons]
    omega

/-- The word and the command that it makes complete, if it does. -/
structure Receives (f f₁ : Fifo) (val : BitVec 32) : Prop where
  /-- The words that are missing have room. -/
  assembling : f₁.Assembling
  /-- The words that are there. -/
  received : f₁.received = (accept commandSize f.received val).1
  /-- The complete command goes to the queue. -/
  queue : f₁.queue =
    f.queue ++ ((accept commandSize f.received val).2.map AESCommand.ofWords).toList

/-- A word was stored behind the others of its command: the command goes to the queue when no word
is missing. -/
theorem receives_close {g : Fifo} {val : BitVec 32} {room : List (BitVec 32)}
    (words : List (BitVec 32)) (hqueue : g.queue = f.queue)
    (hwords : f.received ++ [val] = g.command :: words)
    (hdata : g.data = some (g.command :: words ++ room))
    (hread : g.data_read.toNat = words.length + 1)
    (hlen : g.data_len.toNat = words.length + 1 + room.length)
    (hcommand : commandLen g.command = some g.data_len) : f.Receives g.close val := by
  have hlength : f.received.length + 1 = words.length + 1 := by
    have hboth := congrArg length hwords
    rwa [length_append] at hboth
  have haccept : accept commandSize f.received val =
      if g.data_len.toNat ≤ words.length + 1 then ([], some (g.command :: words))
      else (g.command :: words, none) := by
    have hhead : f.received.headD val = g.command := by
      cases hpart : f.received with
      | nil | cons w ws =>
        rw [hpart] at hwords
        exact (cons.inj hwords).1
    rw [accept, hhead, commandSize, hcommand, hwords, hlength]
    rfl
  by_cases hdone : room.length = 0
  · -- The command is complete.
    obtain rfl := eq_nil_of_length_eq_zero hdone
    rw [append_nil] at hdata
    have hle : g.data_len.toNat ≤ words.length + 1 := hlen.le
    have hle' : g.data_len ≤ g.data_read := hle.trans_eq hread.symm
    have hlen' : g.data_len = BitVec.ofNat 32 (g.command :: words).length := by
      rw [length_cons, ← hread, ofNat_toNat]
      exact eq_of_toNat_eq (hlen.trans hread.symm)
    have hclose : g.close = { g with
        queue := g.queue ++ [AESCommand.ofWords (g.command :: words)]
        command := 0, data := none, data_len := 0, data_read := 0 } := by
      unfold close
      rw [hdata]
      dsimp only
      rw [if_pos hle', AESCommand.ofWords, ← hlen', headD_cons]
    rw [if_pos hle] at haccept
    rw [hclose]
    refine ⟨.idle rfl rfl rfl, ?_, ?_⟩
    · rw [haccept]
      rfl
    · rw [haccept, ← hqueue]
      rfl
  · have hnot : ¬ g.data_len.toNat ≤ words.length + 1 := by omega
    have hnot' : ¬ g.data_len ≤ g.data_read := fun hle => hnot (le_of_le_of_eq hle hread)
    have hclose : g.close = g := by
      unfold close
      rw [hdata]
      exact if_neg hnot'
    rw [if_neg hnot] at haccept
    rw [hclose]
    refine ⟨.receiving words room hdata hread hlen (by omega) hcommand, ?_, ?_⟩
    · rw [haccept]
      exact received_of_receiving hdata hread
    · rw [haccept, hqueue]
      exact (append_nil _).symm

theorem receives_first (hdata : f.data = none) (hlen : f.data_len = 0) (hread : f.data_read = 0)
    (val : BitVec 32) : ∃ f₁, f.receive val = some f₁ ∧ f.Receives f₁ val := by
  have hnot : ¬ f.data_read < f.data_len := by
    rw [hlen, hread]
    decide
  have hnil := received_of_idle hdata
  unfold receive
  rw [if_neg hnot]
  cases hcommand : commandLen val with
  | none =>
    -- The word is skipped.
    have haccept : accept commandSize f.received val = ([], none) := by
      rw [hnil, accept, headD_nil, commandSize, hcommand]
      rfl
    have hclose : close { f with command := val } = { f with command := val } := by
      unfold close
      rw [hdata]
    refine ⟨_, congrArg some hclose, .idle hdata hlen hread, ?_, ?_⟩
    · rw [haccept]
      exact hnil
    · rw [haccept]
      exact (append_nil _).symm
  | some len =>
    have hpos := commandSize_pos val len.toNat (by rw [commandSize, hcommand]; rfl)
    refine ⟨_, rfl, receives_close [] rfl ?_ rfl rfl ?_ hcommand⟩
    · rw [hnil]
      rfl
    · show len.toNat = 0 + 1 + (List.replicate (len.toNat - 1) (0 : BitVec 32)).length
      rw [length_replicate]
      omega

theorem receives_next (hdata : f.data = some (f.command :: words ++ room))
    (hread : f.data_read.toNat = words.length + 1)
    (hlen : f.data_len.toNat = words.length + 1 + room.length) (hroom : 0 < room.length)
    (hcommand : commandLen f.command = some f.data_len) (val : BitVec 32) :
    ∃ f₁, f.receive val = some f₁ ∧ f.Receives f₁ val := by
  obtain ⟨spare, room', rfl⟩ := exists_cons_of_length_pos hroom
  rw [length_cons] at hlen
  have hlt : f.data_read < f.data_len := by
    show f.data_read.toNat < f.data_len.toNat
    omega
  have hset : (f.command :: words ++ spare :: room').set f.data_read.toNat val =
      f.command :: (words ++ [val]) ++ room' := by
    rw [hread]
    simp
  have hlength : (words ++ [val]).length = words.length + 1 := length_append
  unfold receive
  rw [if_pos hlt, hdata, map_some, hset]
  refine ⟨_, rfl, receives_close (words ++ [val]) rfl ?_ rfl ?_ ?_ hcommand⟩
  · rw [received_of_receiving hdata hread]
    rfl
  · rw [toNat_add, hread, hlength]
    show (words.length + 1 + 1) % 2 ^ 32 = words.length + 1 + 1
    omega
  · rw [hlen]
    omega

theorem receive_spec (h : f.Assembling) (val : BitVec 32) :
    ∃ f₁, f.receive val = some f₁ ∧ f.Receives f₁ val := by
  cases h with
  | idle hdata hlen hread => exact receives_first hdata hlen hread val
  | receiving words room hdata hread hlen hroom hcommand =>
    exact receives_next hdata hread hlen hroom hcommand val

theorem Assembling.congr (h : f.Assembling) (hcommand : f'.command = f.command)
    (hdata : f'.data = f.data) (hlen : f'.data_len = f.data_len)
    (hread : f'.data_read = f.data_read) : f'.Assembling := by
  cases h with
  | idle hd hl hr => exact .idle (hdata.trans hd) (hlen.trans hl) (hread.trans hr)
  | receiving words room hd hr hl hroom hc =>
    refine .receiving words room ?_ ?_ ?_ hroom ?_
    · rw [hdata, hcommand, hd]
    · rw [hread, hr]
    · rw [hlen, hl]
    · rw [hcommand, hlen, hc]

theorem Steps.receives {val : BitVec 32} (h : f.Steps (.word val) f') (hf : f.Assembling) :
    f.Receives f' val := by
  obtain ⟨f₁, hreceive₁, hspec⟩ := receive_spec hf val
  cases h with
  | word _ status f₂ hreceive hlevel =>
    obtain rfl : f₁ = f₂ := some.inj (hreceive₁.symm.trans hreceive)
    exact ⟨hspec.assembling.congr rfl rfl rfl rfl, hspec.received, hspec.queue⟩
  | crash _ hnone => exact absurd (hreceive₁.symm.trans hnone) nofun

theorem Steps.assembling {k : Kind} (h : f.Steps k f') (hf : f.Assembling) : f'.Assembling := by
  cases k with
  | word val => exact (h.receives hf).assembling
  | reset =>
    cases h with
    | reset status watermarks hlevel => exact .idle rfl rfl rfl
  | _ => cases h <;> exact hf.congr rfl rfl rfl rfl

/-- A step that is neither a word nor a reset leaves the command that is received alone and queues
nothing. -/
theorem Steps.unframed {k : Kind} (h : f.Steps k f') (hword : ∀ val, k ≠ .word val)
    (hreset : k ≠ .reset) : f'.received = f.received ∧ f'.queue.length ≤ f.queue.length := by
  cases h with
  | word val | crash val => exact absurd rfl (hword val)
  | reset => exact absurd rfl hreset
  | clear status hlevel => exact ⟨rfl, Nat.zero_le _⟩
  | take i cmd queue halted hworker hqueue =>
    refine ⟨rfl, ?_⟩
    rw [hqueue]
    exact Nat.le_succ _
  | _ => exact ⟨rfl, le_refl _⟩

end Fifo

/-! ## Runs -/

/-- The word that the operation writes to the command FIFO. -/
def written (s : AppleAESState μ) (op : Op) : Option (BitVec 32) :=
  match kind s op with
  | .word val => some val
  | _ => none

/-- The command that the operation appends to the queue. -/
def queued (cfg : Config μ) (s : AppleAESState μ) : Op → Option AESCommand
  | .regWrite addr val => ((step cfg s (.regWrite addr val)).queue.drop s.queue.length).head?
  | .work _ => none

/-- The operation resets the device. -/
def Op.IsReset (op : Op) : Prop :=
  match op with
  | .regWrite addr val => addr = 0x8 ∧ val = 8
  | .work _ => False

theorem isReset_of_kind {op : Op} (h : kind s op = .reset) : op.IsReset := by
  cases op with
  | work i => exact nomatch h
  | regWrite addr val =>
    dsimp only [kind] at h
    split_ifs at h
    unfold writeKind at h
    split at h
    · exact nomatch h
    · rename_i hreg
      have hat := register_at addr
      rw [hreg] at hat
      split_ifs at h with _ hval
      exact ⟨hat, hval⟩
    · split_ifs at h
    · exact nomatch h

theorem queued_eq_none {op : Op} (h : (step cfg s op).queue.length ≤ s.queue.length) :
    queued cfg s op = none := by
  cases op with
  | work i => rfl
  | regWrite addr val =>
    dsimp only [queued]
    rw [drop_of_length_le h]
    rfl

theorem frame_step (hs : s.fifo.Assembling) {op : Op} (hop : ¬ op.IsReset) :
    match written s op with
    | some val => (step cfg s op).fifo.received = (accept commandSize s.fifo.received val).1 ∧
        queued cfg s op = (accept commandSize s.fifo.received val).2.map AESCommand.ofWords
    | none => (step cfg s op).fifo.received = s.fifo.received ∧ queued cfg s op = none := by
  have hsteps := steps_step cfg s op
  unfold written
  cases hkind : kind s op with
  | word val =>
    rw [hkind] at hsteps
    have hreceives := hsteps.receives hs
    refine ⟨hreceives.received, ?_⟩
    cases op with
    | work i => exact nomatch hkind
    | regWrite addr val' =>
      have hqueue : (step cfg s (.regWrite addr val')).queue = s.queue ++
          ((accept commandSize s.fifo.received val).2.map AESCommand.ofWords).toList :=
        hreceives.queue
      dsimp only [queued]
      rw [hqueue, drop_left]
      cases (accept commandSize s.fifo.received val).2 <;> rfl
  | reset => exact absurd (isReset_of_kind hkind) hop
  | clear | other =>
    rw [hkind] at hsteps
    obtain ⟨hreceived, hqueue⟩ := hsteps.unframed nofun nofun
    exact ⟨hreceived, queued_eq_none cfg hqueue⟩

theorem queued_run (hs : s.fifo.Assembling) {ops : List Op} (hops : ∀ op ∈ ops, ¬ op.IsReset) :
    outputs (step cfg) (queued cfg) s ops =
      (parse commandSize (s.fifo.received ++ outputs (step cfg) written s ops)).map
        AESCommand.ofWords := by
  induction ops generalizing s with
  | nil =>
    show [] = _
    rw [outputs, append_nil, parse_unfinished hs.unfinished]
    rfl
  | cons op ops ih =>
    have hnext := ih ((steps_step cfg s op).assembling hs)
      fun op' hop' => hops op' (mem_cons_of_mem _ hop')
    have hframe := frame_step cfg hs (hops op mem_cons_self)
    rw [outputs, outputs, hnext]
    cases hwritten : written s op with
    | none =>
      rw [hwritten] at hframe
      rw [hframe.1, hframe.2]
      rfl
    | some val =>
      rw [hwritten] at hframe
      rw [hframe.1, hframe.2]
      have hparse := parse_accept commandSize_pos hs.unfinished val
        (outputs (step cfg) written (step cfg s op) ops)
      rw [toList_some, singleton_append, hparse, map_append, ← toList_map]

/-! ## Performing a command -/

/-- The words of the command are read inside its data: it is no key of the hardware, or one whose
length is not known. -/
def InBounds : Prop :=
  opcode w = .key → keySelect w = KEY_SELECT_SOFTWARE ∨ keySize (keyLength w) = 0

/-- The cipher exists: the command is no software key, or one of a known length and mode. -/
def Supported : Prop :=
  opcode w = .key → keySelect w = KEY_SELECT_SOFTWARE →
    keyAlgo (keyLength w) ≠ .max ∧ keyMode (blockMode w) ≠ .max

theorem cipherNew_isSome_iff (len : BitVec 8) (mode : BitVec 32) (key : List UInt8) :
    (cipherNew (keyAlgo len) (keyMode mode) key (keySize len / 8).toNat).isSome = true ↔
      keyAlgo len ≠ .max ∧ keyMode mode ≠ .max := by
  have hlen : algKeyLen (keyAlgo len) = some (keySize len / 8).toNat ↔ keyAlgo len ≠ .max := by
    unfold keyAlgo keySize
    split_ifs <;> decide
  unfold cipherNew
  by_cases hmode : keyMode mode = .max
  · simp [hmode]
  · by_cases halgo : keyAlgo len ≠ .max
    · rw [if_pos (hlen.mpr halgo)]
      simp [halgo]
    · rw [if_neg (mt hlen.mp halgo)]
      simp [halgo]

section

variable {cmd : AESCommand} {t : AppleAESState μ}

/-- A key command reads inside its data exactly when the key is a software key or has no bytes. -/
theorem reads_processKey_iff (hop : opcode cmd.command = .key)
    (hlen : commandLen cmd.command = some cmd.data_len) :
    (∀ i ∈ (processKey cfg cmd t).reads, i < cmd.data_len.toNat) ↔ InBounds cmd.command := by
  have hreads : (processKey cfg cmd t).reads =
      range' 1 ((keySize (keyLength cmd.command) / 8).toNat / 4) := rfl
  unfold commandLen at hlen
  rw [hop] at hlen
  rw [hreads]
  by_cases hselect : keySelect cmd.command = KEY_SELECT_SOFTWARE
  · rw [if_pos hselect] at hlen
    refine iff_of_true (fun i hi => ?_) fun _ => .inl hselect
    have hwords : cmd.data_len.toNat = (keySize (keyLength cmd.command) / 8).toNat / 4 + 1 := by
      rw [← some.inj hlen]
      unfold keySize
      split_ifs <;> rfl
    rw [mem_range'_1] at hi
    omega
  · rw [if_neg hselect] at hlen
    have hone : cmd.data_len.toNat = 1 := by
      rw [← some.inj hlen]
      rfl
    -- Of a command with one word, nothing may be read.
    have hnone : keySize (keyLength cmd.command) = 0 ↔
        (keySize (keyLength cmd.command) / 8).toNat / 4 = 0 := by
      unfold keySize
      split_ifs <;> decide
    constructor
    · intro hall _
      right
      rw [hnone]
      by_contra hpos
      have h1 := hall 1 (mem_range'_1.mpr ⟨le_refl _, by omega⟩)
      omega
    · intro hbounds i hi
      have hzero := hnone.mp ((hbounds hop).resolve_left hselect)
      rw [hzero] at hi
      exact nomatch hi

/-- A command of the length that its first word tells reads inside its data exactly when it is
none of the keys of the hardware. -/
theorem reads_iff (hlen : commandLen cmd.command = some cmd.data_len) :
    (∀ i ∈ (processCommand cfg cmd t).reads, i < cmd.data_len.toNat) ↔ InBounds cmd.command := by
  by_cases hkey : opcode cmd.command = .key
  · unfold processCommand
    rw [hkey]
    exact reads_processKey_iff cfg hkey hlen
  · refine iff_of_true ?_ fun h => absurd h hkey
    unfold commandLen at hlen
    unfold processCommand
    cases hop : opcode cmd.command <;> rw [hop] at hlen hkey <;> dsimp only at ⊢
    case key => exact absurd rfl hkey
    case unknown => exact nomatch hlen
    all_goals
      rw [← some.inj hlen]
      simp [processData]

end

/-- A key command reaches `error_abort` exactly when there is no cipher for a software key. -/
theorem outcome_processKey_iff {cmd : AESCommand} (t : AppleAESState μ)
    (hop : opcode cmd.command = .key) :
    (processKey cfg cmd t).outcome ≠ .error .errorAbort ↔ Supported cmd.command := by
  by_cases hselect : keySelect cmd.command = KEY_SELECT_SOFTWARE
  · have hdisabled : ¬ decide (keySelect cmd.command ≠ KEY_SELECT_SOFTWARE) = true := by
      simp [hselect]
    have hcipher := cipherNew_isSome_iff (keyLength cmd.command) (blockMode cmd.command)
    unfold processKey Supported
    dsimp only
    rw [if_neg hdisabled]
    constructor
    · intro hne _ _
      by_contra hunsupported
      have hnone : ∀ key, cipherNew (keyAlgo (keyLength cmd.command))
          (keyMode (blockMode cmd.command)) key (keySize (keyLength cmd.command) / 8).toNat =
          none := by
        intro key
        rw [← not_isSome_iff_eq_none, hcipher]
        exact hunsupported
      rw [hnone] at hne
      exact hne rfl
    · intro hsupported
      obtain ⟨c, hc⟩ := isSome_iff_exists.mp ((hcipher _).mpr (hsupported hop hselect))
      rw [hc]
      exact nofun
  · refine iff_of_true ?_ fun _ h => absurd h hselect
    have hdisabled : decide (keySelect cmd.command ≠ KEY_SELECT_SOFTWARE) = true := by
      simp [hselect]
    unfold processKey
    dsimp only
    rw [if_pos hdisabled]
    exact nofun

/-- The three calls on the data end in an assertion exactly when the mode has no vector. -/
theorem cryptData_eq_error_iff (encrypt : Bool) (cipher : QCryptoCipher) (iv : Fin 16 → UInt8)
    (buffer : List UInt8) (e : Abort) :
    cryptData cfg encrypt cipher iv buffer = .error e ↔ cipher.mode = .ecb ∧ e = .assertion := by
  by_cases hmode : cipher.mode = .ecb
  · have herror : cryptData cfg encrypt cipher iv buffer = .error .assertion := by
      simp [cryptData, cipherSetiv, cipherGetiv, hmode, errorSetg, bind, Except.bind, pure,
        Except.pure]
    rw [herror, and_iff_right hmode]
    exact ⟨fun h => (error.inj h).symm, fun h => congrArg _ h.symm⟩
  · refine iff_of_false ?_ fun h => hmode h.1
    simp [cryptData, cipherSetiv, cipherGetiv, hmode, bind, Except.bind, pure, Except.pure]

/-- A command reaches `error_abort` exactly when it is a software key without a cipher. -/
theorem outcome_iff (cmd : AESCommand) (t : AppleAESState μ) :
    (processCommand cfg cmd t).outcome ≠ .error .errorAbort ↔ Supported cmd.command := by
  by_cases hkey : opcode cmd.command = .key
  · unfold processCommand
    rw [hkey]
    exact outcome_processKey_iff cfg t hkey
  · refine iff_of_true ?_ fun h => absurd h hkey
    unfold processCommand
    cases hop : opcode cmd.command <;> rw [hop] at hkey <;> dsimp only
    case key => exact absurd rfl hkey
    case data =>
      intro herror
      unfold processData at herror
      dsimp only at herror
      split_ifs at herror
      split at herror
      · split at herror
        · exact nomatch herror
        · rename_i e hcrypt
          have he := ((cryptData_eq_error_iff cfg _ _ _ _ e).mp hcrypt).2
          rw [he] at herror
          exact nomatch herror
      · exact nomatch herror
    all_goals exact nofun

/-- A data command with a cipher whose mode has no vector ends in an assertion: reading the vector
back sets an error after storing it has set one. -/
theorem outcome_processData_iff (cmd : AESCommand) (t : AppleAESState μ) :
    (processData cfg cmd t).outcome = .error .assertion ↔ dataLength (cmd.word cfg 0) % 16 = 0 ∧
        (t.keys (keyContext (cmd.word cfg 0))).disabled = false ∧
        ∃ cipher, (t.keys (keyContext (cmd.word cfg 0))).cipher = some cipher ∧
          cipher.mode = .ecb := by
  unfold processData
  dsimp only
  by_cases haligned : dataLength (cmd.word cfg 0) % 16 = 0
  · rw [if_neg (not_not_intro haligned), and_iff_right haligned]
    split
    · rename_i cipher hdisabled hcipher
      rw [and_iff_right hdisabled, hcipher]
      have hcrypt := cryptData_eq_error_iff cfg (t.keys (keyContext (cmd.word cfg 0))).encrypt
        cipher
      split
      · rename_i r hok
        refine iff_of_false nofun ?_
        rintro ⟨c, hc, hmode⟩
        obtain rfl := some.inj hc
        rw [(hcrypt _ _ _).mpr ⟨hmode, rfl⟩] at hok
        exact nomatch hok
      · rename_i e herror
        obtain ⟨hmode, rfl⟩ := (hcrypt _ _ _).mp herror
        exact iff_of_true rfl ⟨cipher, rfl, hmode⟩
    · rename_i hnone
      refine iff_of_false nofun ?_
      rintro ⟨hdisabled, c, hc, -⟩
      exact hnone c hdisabled hc
  · rw [if_pos haligned]
    exact iff_of_false nofun fun h => haligned h.1

/-! ## The stream and the commands -/

/-- The command that is received is none. -/
def Idle (s : AppleAESState μ) : Prop := s.data = none ∧ s.data_len = 0 ∧ s.data_read = 0

/-- In a run without a reset the commands that are queued are those of the stream of words. Each of
them reads inside its data exactly when it is none of the keys of the hardware with a length that is
known, and does not reach `error_abort` exactly when it is no software key without a cipher. -/
theorem framing (cfg : Config μ) {s : AppleAESState μ} (hidle : Idle s) (ops : List Op)
    (hops : ∀ op ∈ ops, ¬ op.IsReset) : outputs (step cfg) (queued cfg) s ops =
        (parse commandSize (outputs (step cfg) written s ops)).map AESCommand.ofWords ∧
      ∀ cmd ∈ outputs (step cfg) (queued cfg) s ops, ∀ t : AppleAESState μ,
        ((∀ i ∈ (processCommand cfg cmd t).reads, i < cmd.data_len.toNat) ↔ InBounds cmd.command) ∧
        ((processCommand cfg cmd t).outcome ≠ .error .errorAbort ↔ Supported cmd.command) := by
  obtain ⟨hdata, hlen, hread⟩ := hidle
  have hnil : s.fifo.received = [] := by
    have hfifo : s.fifo.data = none := hdata
    unfold Fifo.received
    rw [hfifo]
  have hqueued := queued_run cfg (.idle hdata hlen hread) hops
  rw [hnil] at hqueued
  refine ⟨hqueued, fun cmd hcmd t => ⟨reads_iff cfg ?_, outcome_iff cfg cmd t⟩⟩
  -- A queued command has the length that its first word tells.
  rw [hqueued] at hcmd
  obtain ⟨words, hwords, rfl⟩ := mem_map.mp hcmd
  obtain ⟨w, hhead, hsize⟩ := size_of_mem_parse commandSize_pos hwords
  obtain ⟨len, hcommand, hlength⟩ := map_eq_some_iff.mp hsize
  have hfirst : (AESCommand.ofWords words).command = w := by
    show words.headD 0 = w
    rw [headD_eq_head?_getD, hhead]
    rfl
  have hdataLen : (AESCommand.ofWords words).data_len = len := by
    apply eq_of_toNat_eq
    show (BitVec.ofNat 32 words.length).toNat = len.toNat
    rw [← hlength, ofNat_toNat, setWidth_eq]
  rw [hfirst, hdataLen]
  exact hcommand

/-- The words of a software key and of a flag, written to the command FIFO. -/
def sampleWords : List Op := [0x10000000, 1, 2, 3, 4, 0x80000007].map (.regWrite 0x200)

/-- The two commands are queued, and the key can be performed. -/
theorem framing_key : outputs (step sampleConfig) (queued sampleConfig) (init ()) sampleWords =
        (parse commandSize (outputs (step sampleConfig) written (init ()) sampleWords)).map
          AESCommand.ofWords ∧
      outputs (step sampleConfig) (queued sampleConfig) (init ()) sampleWords =
        [⟨0x10000000, [0x10000000, 1, 2, 3, 4], 5⟩, ⟨0x80000007, [0x80000007], 1⟩] ∧
      (processCommand sampleConfig ⟨0x10000000, [0x10000000, 1, 2, 3, 4], 5⟩ (init ())).outcome ≠
        .error .errorAbort := by
  obtain ⟨hparse, hcommands⟩ := framing sampleConfig (s := init ()) ⟨rfl, rfl, rfl⟩
    sampleWords (by simp [sampleWords, Op.IsReset])
  have hqueued : outputs (step sampleConfig) (queued sampleConfig) (init ()) sampleWords =
      [⟨0x10000000, [0x10000000, 1, 2, 3, 4], 5⟩, ⟨0x80000007, [0x80000007], 1⟩] := by
    decide +kernel
  refine ⟨hparse, hqueued, ?_⟩
  refine (hcommands _ (by rw [hqueued]; exact mem_cons_self) (init ())).2.mpr ?_
  unfold Supported
  decide

/-- The command of a key of the hardware has one word, of which the second is read. The command of a
software key with the length 3 reaches `error_abort`. -/
theorem not_framing :
    (∃ cmd ∈ (run (step sampleConfig) (init ()) [.regWrite 0x200 0x11000000]).queue,
      ∃ i ∈ (processCommand sampleConfig cmd (init ())).reads, ¬ i < cmd.data_len.toNat) ∧
    ∃ cmd ∈ (run (step sampleConfig) (init ()) [.regWrite 0x200 0x10C00000]).queue,
      (processCommand sampleConfig cmd (init ())).outcome = .error .errorAbort := by
  refine ⟨⟨⟨0x11000000, [0x11000000], 1⟩, by decide +kernel, 1, by decide +kernel, by decide⟩, ?_⟩
  exact ⟨⟨0x10C00000, [0x10C00000], 1⟩, by decide +kernel, rfl⟩

end Inferno.Aes
