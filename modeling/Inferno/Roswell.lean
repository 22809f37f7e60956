import Inferno.Common.Run

/-!
# The Roswell coprocessor

`hw/misc/apple-silicon/roswell.c`: a byte that is written is a command, and the bytes of its
response are read one by one. The command is pending until the last byte is read, and no other is
taken as long as one is pending. Migration carries the command over, but not the response.
-/

namespace Inferno.Roswell

open Common List

inductive Command
  | getDeviceInfo | genSignature | getSignatureLength | getSignature | getCertLength | getCert
  | getCertSn | extended | invalid
  deriving DecidableEq

/-- `AppleRoswellResponse`; `buf` has `0x261` bytes. -/
structure AppleRoswellResponse where
  buf : ℕ → UInt8
  len : ℕ
  pos : ℕ

structure AppleRoswellState where
  command : Command
  resp : AppleRoswellResponse

def resetCommand : AppleRoswellState := ⟨.invalid, fun _ => 0, 0, 0⟩

variable (s : AppleRoswellState)

/-- `apple_roswell_pop_resp`; a read outside the buffer is `none`. -/
def popResp : Option UInt8 × AppleRoswellState :=
  if s.command = .invalid ∨ s.resp.len = 0 then (some 0, s)
  else
    (if s.resp.pos < 0x261 then some (s.resp.buf s.resp.pos) else none,
      if s.resp.len = s.resp.pos + 1 then resetCommand else { s with resp.pos := s.resp.pos + 1 })

def commandOf : UInt8 → Option Command
  | 0x00 => some .getDeviceInfo
  | 0x10 => some .genSignature
  | 0x11 => some .getSignatureLength
  | 0x12 => some .getSignature
  | 0x30 => some .getCertLength
  | 0x31 => some .getCert
  | 0x4E => some .getCertSn
  | 0x60 => some .extended
  | _ => none

def Command.response : Command → List UInt8
  | .getDeviceInfo => [0, 0, 2, 0, 0xDE, 0xAD, 0xBE, 0xEF]
  | .extended => [0, 0, 0, 0, 0, 0, 0, 0, 0, 0xE3, 0x43, 0x4B, 0x52, 0x6F, 0x73, 0x77]
  | _ => []

/-- `apple_roswell_tx`: whether it is acknowledged, and the state. -/
def tx (data : UInt8) : Bool × AppleRoswellState :=
  if s.command ≠ .invalid then (true, s)
  else match commandOf data with
    | none => (false, s)
    | some command =>
      let bytes := command.response
      (true, ⟨command, if bytes = [] then s.resp else
        ⟨fun i => bytes.getD i (s.resp.buf i), bytes.length, s.resp.pos⟩⟩)

inductive Op
  | tx (data : UInt8)
  | rx
  /-- The device is saved and restored. -/
  | migrate

def step : Op → AppleRoswellState
  | .tx data => (tx s data).2
  | .rx => (popResp s).2
  | .migrate => { resetCommand with command := s.command }

/-- What a read returns. -/
def out : Op → Option (Option UInt8)
  | .rx => some (popResp s).1
  | _ => none

/-! ## The protocol -/

/-- The state is what is left to read of the response. -/
def expected (left : List UInt8) : Op → List UInt8
  | .tx data => if left = [] then ((commandOf data).map Command.response).getD [] else left
  | .rx => left.tail
  | .migrate => left

def expectedOut (left : List UInt8) : Op → Option (Option UInt8)
  | .rx => some (left.headD 0)
  | _ => none

/-- The reads return the responses. -/
def Lawful (ops : List Op) : Prop :=
  outputs step out resetCommand ops = outputs expected expectedOut [] ops

/-- No command without a response is sent, and nothing is left to read at a migration. -/
def Fair (left : List UInt8) : Op → Prop
  | .tx data => left = [] → ∀ command, commandOf data = some command → command.response ≠ []
  | .rx => True
  | .migrate => left = []

/-- What is left to read. -/
def unread : List UInt8 := (range' s.resp.pos (s.resp.len - s.resp.pos)).map s.resp.buf

/-- Without a command there is no response, and the next byte is in the buffer. -/
structure Sound : Prop where
  idle : s.command = .invalid → s = resetCommand
  inside : s.resp.len = 0 ∨ s.resp.pos < s.resp.len ∧ s.resp.len ≤ 0x261

theorem commandOf_ne {data : UInt8} {command : Command} (h : commandOf data = some command) :
    command ≠ .invalid := by
  unfold commandOf at h
  split at h <;> cases h <;> decide

theorem sound_resetCommand : Sound resetCommand := ⟨fun _ => rfl, .inl rfl⟩

/-- What a byte leaves when no command is pending. -/
theorem tx_idle (data : UInt8) : Sound (tx resetCommand data).2 ∧
    unread (tx resetCommand data).2 = ((commandOf data).map Command.response).getD [] ∧
    ((tx resetCommand data).2.command = .invalid ∨
      commandOf data = some (tx resetCommand data).2.command) := by
  unfold tx
  cases hcommand : commandOf data with
  | none => exact ⟨sound_resetCommand, rfl, .inl rfl⟩
  | some command =>
    refine ⟨⟨fun h => absurd h (commandOf_ne hcommand), ?_⟩, ?_, .inr rfl⟩
    · cases command <;> decide
    · cases command <;> rfl

variable {s}

/-- A byte of a response is read. -/
theorem Sound.popResp_eq (h : Sound s) (hcommand : s.command ≠ .invalid) (hlen : s.resp.len ≠ 0) :
    popResp s = (some (s.resp.buf s.resp.pos), if s.resp.len = s.resp.pos + 1 then resetCommand
      else { s with resp.pos := s.resp.pos + 1 }) := by
  have hpos : s.resp.pos < 0x261 := by
    have := h.inside
    omega
  rw [popResp, if_neg (not_or.mpr ⟨hcommand, hlen⟩), if_pos hpos]

theorem Sound.next (h : Sound s) (op : Op) : Sound (step s op) := by
  cases op with
  | tx data =>
    by_cases hcommand : s.command = .invalid
    · rw [h.idle hcommand]
      exact (tx_idle data).1
    · simpa [step, tx, hcommand] using h
  | rx =>
    by_cases hnone : s.command = .invalid ∨ s.resp.len = 0
    · simpa [step, popResp, hnone] using h
    · obtain ⟨hcommand, hlen⟩ := not_or.mp hnone
      have hinside := h.inside
      rw [step, h.popResp_eq hcommand hlen]
      split_ifs
      · exact sound_resetCommand
      · exact ⟨fun hinvalid => absurd hinvalid hcommand, .inr (by dsimp only; omega)⟩
  | migrate =>
    refine ⟨fun hinvalid => ?_, .inl rfl⟩
    rw [step, show s.command = .invalid from hinvalid]
    rfl

/-- In a fair run, an operation is answered as the protocol says, and leaves what it says. -/
theorem follows (h : Sound s) (hclear : unread s = [] → s.command = .invalid) {op : Op}
    (hfair : Fair (unread s) op) : out s op = expectedOut (unread s) op ∧
      unread (step s op) = expected (unread s) op ∧
      (unread (step s op) = [] → (step s op).command = .invalid) := by
  by_cases hcommand : s.command = .invalid
  · rw [h.idle hcommand] at hfair ⊢
    cases op with
    | tx data =>
      obtain ⟨-, hunread, hidle⟩ := tx_idle data
      refine ⟨rfl, hunread, fun hnil => hidle.resolve_right fun hsome => ?_⟩
      rw [step, hunread, hsome] at hnil
      exact hfair rfl _ hsome hnil
    | rx => exact ⟨rfl, rfl, fun _ => rfl⟩
    | migrate => exact ⟨rfl, rfl, fun _ => rfl⟩
  · have hne : unread s ≠ [] := fun hnil => hcommand (hclear hnil)
    cases op with
    | tx data => simp [step, tx, out, expected, expectedOut, hcommand, hne]
    | rx =>
      obtain ⟨n, hn⟩ : ∃ n, s.resp.len = s.resp.pos + (n + 1) := by
        have : s.resp.len - s.resp.pos ≠ 0 := by simpa [unread] using hne
        exact ⟨s.resp.len - s.resp.pos - 1, by omega⟩
      have hunread : unread s = s.resp.buf s.resp.pos ::
          (range' (s.resp.pos + 1) n).map s.resp.buf := by
        simp [unread, hn, range'_succ]
      rw [step, out, h.popResp_eq hcommand (by omega), hunread]
      refine ⟨rfl, ?_⟩
      split_ifs with hlast
      · obtain rfl : n = 0 := by omega
        exact ⟨rfl, fun _ => rfl⟩
      · have hrest : s.resp.len - (s.resp.pos + 1) = n := by omega
        have hpos : n ≠ 0 := by omega
        simp [unread, expected, hrest, hpos]
    | migrate => exact absurd hfair hne

theorem Sound.reads_inside (h : Sound s) (ops : List Op) : none ∉ outputs step out s ops := by
  induction ops generalizing s with
  | nil => exact not_mem_nil
  | cons op ops ih =>
    refine fun hmem => (mem_append.mp hmem).elim (fun hout => ?_) (ih (h.next op))
    cases op with
    | tx data => cases hout
    | rx =>
      by_cases hnone : s.command = .invalid ∨ s.resp.len = 0
      · simp [out, popResp, hnone] at hout
      · obtain ⟨hcommand, hlen⟩ := not_or.mp hnone
        simp [out, h.popResp_eq hcommand hlen] at hout
    | migrate => cases hout

/-- No read is outside the buffer; and the reads of a fair run return the responses. -/
theorem roswell_framing (ops : List Op) :
    none ∉ outputs step out resetCommand ops ∧ (Guarded expected Fair [] ops → Lawful ops) := by
  refine ⟨sound_resetCommand.reads_inside ops, ?_⟩
  suffices hrun : ∀ s, Sound s → (unread s = [] → s.command = .invalid) →
      Guarded expected Fair (unread s) ops →
        outputs step out s ops = outputs expected expectedOut (unread s) ops from
    hrun _ sound_resetCommand fun _ => rfl
  induction ops with
  | nil => exact fun _ _ _ _ => rfl
  | cons op ops ih =>
    intro s h hclear hfair
    obtain ⟨hout, hstep, hclear'⟩ := follows h hclear hfair.1
    rw [outputs, outputs, hout, ← hstep, ih _ (h.next op) hclear' (hstep ▸ hfair.2)]

/-- A command without a response stays pending, and a migration loses the response. -/
theorem roswell_stuck : ¬ Lawful [.tx 0x10, .tx 0, .rx, .rx, .rx] ∧
    ¬ Lawful [.tx 0, .migrate, .rx, .rx, .rx] := by
  unfold Lawful
  decide

end Inferno.Roswell
