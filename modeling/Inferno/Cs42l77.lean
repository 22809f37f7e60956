import Inferno.Common.Bits
import Inferno.Common.Run
import Mathlib.Data.BitVec

/-!
# The register file of the CS42L77 codec

The host sends the codec a command byte and then as many bytes as the command has. Two commands set
a start address and a length, which the others go through in chunks: `address` is where the next
chunk begins. How many bytes a chunk has is computed when its command comes, as the difference to
the end of the range, in 64 bits without a sign.

Nothing compares an address with the size of the register file. It is left exactly where a chunk is
larger than what follows its first register (`inFile_of_fits`), as one is that begins at the last
register, or one whose range has been shortened below the running address.

Registers are a function of the address; `touched` is the address that a byte has the codec access.
The positions in a command are numbers, since they stay below 130.
-/

namespace Inferno.Cs42l77

open Common

/-! ## Model -/

def CS42L77_REG_SIZE : ℕ := 0x1000000

def STS_OK : BitVec 8 := 0x50

structure AppleCS42L77State where
  start_addr : BitVec 64
  address : BitVec 64
  pos : ℕ
  end_pos : ℕ
  length : BitVec 16
  cur_cmd : BitVec 8
  data_ready : Bool
  regs : BitVec 64 → BitVec 8

/-- What a byte does: the state after it, the byte that is returned and the register accessed. -/
structure Reply where
  s : AppleCS42L77State
  ret : BitVec 8
  touched : Option (BitVec 64)

namespace AppleCS42L77State

variable (s : AppleCS42L77State)

/-- The end of the range, in units of so many bytes. -/
def stop (size : ℕ) : BitVec 64 :=
  s.start_addr + BitVec.ofNat 64 (s.length.toNat * size)

/-- The bytes of a chunk. -/
def chunk (size limit : ℕ) : ℕ := min (s.stop size - s.address).toNat limit

/-- A command that takes so many bytes begins. -/
def begin (end_pos : ℕ) (ret : BitVec 8) : Reply :=
  ⟨{ s with end_pos := end_pos }, ret, none⟩

def readReg : Reply :=
  ⟨{ s with address := s.address + 1 }, s.regs s.address, some s.address⟩

def writeReg (val : BitVec 32) : Reply :=
  ⟨{ s with
      address := s.address + 1
      regs := Function.update s.regs s.address (val.setWidth 8) }, STS_OK, some s.address⟩

/-- The range begins anew after its last byte. -/
def rewind (size : ℕ) : AppleCS42L77State :=
  if s.pos = s.end_pos ∧ s.address = s.stop size then { s with address := s.start_addr } else s

end AppleCS42L77State

open AppleCS42L77State

variable (s : AppleCS42L77State) (val : BitVec 32)

def setStartAddress : Reply :=
  let s :=
    if s.pos = 0 then { s with start_addr := 0, address := 0, end_pos := 3 }
    else { s with start_addr := deposit s.start_addr ((s.pos - 1) * 8) 8 (val.setWidth 64) }
  ⟨if s.pos = s.end_pos then { s with address := s.start_addr } else s, 0, none⟩

def setLength : Reply :=
  if s.pos = 0 then begin { s with length := 0 } 2 0
  else ⟨{ s with length := s.length ||| (val.setWidth 16 <<< ((s.pos - 1) * 8)) }, 0, none⟩

/-- `CMD_READ_WORDS`. The first of these commands returns no register, but makes the data ready. -/
def readWords : Reply :=
  let r :=
    if s.pos = 0 then
      if s.data_ready then begin s (1 + s.chunk 4 0x80) 0
      else begin { s with data_ready := true } 1 0
    else if s.pos = 1 then ⟨s, STS_OK, none⟩
    else readReg s
  if r.s.pos = r.s.end_pos ∧ r.s.address = r.s.stop 4 then
    { r with s := { r.s with address := r.s.start_addr, data_ready := false } }
  else r

def readBytes : Reply :=
  let r :=
    if s.pos = 0 then begin s (1 + s.chunk 1 0x20) STS_OK
    else if s.pos = 1 then ⟨s, STS_OK, none⟩
    else readReg s
  { r with s := r.s.rewind 1 }

/-- `CMD_WRITE_WORDS` and `CMD_WRITE_BYTES`, by the size of the units and of the largest chunk. -/
def writeUnits (size limit : ℕ) (s : AppleCS42L77State) (val : BitVec 32) : Reply :=
  let r := if s.pos = 0 then begin s (s.chunk size limit) STS_OK else writeReg s val
  { r with s := r.s.rewind size }

/-- The commands that access registers. -/
inductive DataCommand
  | readWords
  | readBytes
  | writeWords
  | writeBytes
  deriving DecidableEq

def DataCommand.ofByte (cmd : BitVec 8) : Option DataCommand :=
  if cmd = 0xC4 then some .readWords
  else if cmd = 0xC6 then some .readBytes
  else if cmd = 0xB2 then some .writeWords
  else if cmd = 0xB5 then some .writeBytes
  else none

/-- The commands that access no registers. The command `0xA1` goes back to the start address. -/
def otherCommand : Reply :=
  if s.cur_cmd = 0x80 then setStartAddress s val
  else if s.cur_cmd = 0x81 then setLength s val
  else if s.cur_cmd = 0x90 then
    if s.pos = 0 then begin s 1 STS_OK else ⟨s, 0x98, none⟩
  else if s.cur_cmd = 0x91 then
    if s.pos = 0 then begin s 2 STS_OK else ⟨s, 0, none⟩
  else if s.cur_cmd = 0xA1 then
    if s.pos = 0 then begin s 1 STS_OK
    else ⟨if val.getLsbD 6 then { s with address := s.start_addr } else s, 0, none⟩
  else ⟨s, 0, none⟩

/-- The `switch` of `apple_cs42l77_transfer`. -/
def command : Reply :=
  match DataCommand.ofByte s.cur_cmd with
  | some .readWords => readWords s
  | some .readBytes => readBytes s
  | some .writeWords => writeUnits 4 0x80 s val
  | some .writeBytes => writeUnits 1 0x20 s val
  | none => otherCommand s val

/-- The first byte is the command. -/
def latch : AppleCS42L77State :=
  if s.pos = 0 then { s with cur_cmd := val.setWidth 8 } else s

/-- The last byte ends it. -/
def advance : AppleCS42L77State :=
  if s.pos = s.end_pos then { s with cur_cmd := 0, pos := 0, end_pos := 0 }
  else { s with pos := s.pos + 1 }

/-- `apple_cs42l77_transfer`. -/
def transfer : Reply :=
  let r := command (latch s val) val
  { r with s := advance r.s }

/-- The registers after a reset: `CS42L77_CHIP_ID` and four words, of which one byte is not zero. -/
def resetRegs (a : BitVec 64) : BitVec 8 :=
  match a.toNat with
  | 0 => 0x77
  | 1 => 0x2A
  | 2 => 0x04
  | 0x20034 => 3
  | 0x40048 => 0x10
  | 0x40054 => 0x08
  | 0xBC09C9 => 0xA5
  | _ => 0

/-- `apple_cs42l77_reset`. -/
def init : AppleCS42L77State := ⟨0, 0, 0, 0, 0, 0, false, resetRegs⟩

/-! ## Safety -/

/-- The register that a byte has the codec access, if any, is in the register file. -/
def InFile : Prop :=
  ∀ a ∈ (transfer s val).touched, a.toNat < CS42L77_REG_SIZE

/-- The registers that a command accesses that begins in a state. -/
def DataCommand.count : DataCommand → ℕ
  | .readWords => if s.data_ready then s.chunk 4 0x80 else 0
  | .readBytes => s.chunk 1 0x20
  | .writeWords => s.chunk 4 0x80
  | .writeBytes => s.chunk 1 0x20

/-- If a byte begins a command, the registers that the command accesses are in the register file. -/
def Fits : Prop :=
  s.pos = 0 → ∀ c ∈ DataCommand.ofByte (val.setWidth 8),
    s.address.toNat + c.count s ≤ CS42L77_REG_SIZE

instance (s : AppleCS42L77State) (val : BitVec 32) : Decidable (Fits s val) :=
  inferInstanceAs (Decidable (s.pos = 0 → ∀ c ∈ DataCommand.ofByte (val.setWidth 8), _))

/-- The position of the first byte of a command that accesses a register. -/
def DataCommand.first : DataCommand → ℕ
  | .readWords | .readBytes => 2
  | .writeWords | .writeBytes => 1

/-- How many registers the byte that comes and those behind it access, the command being known. -/
def DataCommand.left (c : DataCommand) : ℕ :=
  if s.pos = 0 then c.count s else s.end_pos + 1 - max s.pos c.first

/-- The registers that a command still accesses are in the register file. -/
structure Ready (s : AppleCS42L77State) : Prop where
  pos : s.pos ≠ 0 → s.pos ≤ s.end_pos
  fits : ∀ c ∈ DataCommand.ofByte s.cur_cmd, s.address.toNat + c.left s ≤ CS42L77_REG_SIZE

/-- No command is under way, or it can go on. -/
def Inv : Prop := s.pos ≠ 0 → Ready s

section Step

variable {s : AppleCS42L77State} (val : BitVec 32)

theorem command_data {c : DataCommand} (hc : DataCommand.ofByte s.cur_cmd = some c) :
    (command s val).touched = (if c.first ≤ s.pos then some s.address else none) ∧
      (command s val).s.pos = s.pos ∧ (command s val).s.cur_cmd = s.cur_cmd ∧
      (command s val).s.end_pos = (if s.pos = 0 then c.count s + c.first - 1 else s.end_pos) ∧
      ((command s val).s.pos ≠ (command s val).s.end_pos →
        (command s val).s.address = if c.first ≤ s.pos then s.address + 1 else s.address) := by
  have hsplit : s.pos = 0 ∨ s.pos = 1 ∨ 2 ≤ s.pos := by omega
  rw [command]
  -- The end of a range is only looked at by the last byte of a command.
  cases c with
  | readWords =>
    simp only [readWords, begin, readReg, DataCommand.first, DataCommand.count]
    rcases hsplit with hpos | hpos | hpos <;> grind
  | readBytes =>
    simp only [readBytes, begin, readReg, rewind, DataCommand.first, DataCommand.count]
    rcases hsplit with hpos | hpos | hpos <;> grind
  | writeWords | writeBytes =>
    simp only [writeUnits, begin, writeReg, rewind, DataCommand.first, DataCommand.count]
    by_cases hpos : s.pos = 0 <;> grind

theorem command_other (hc : DataCommand.ofByte s.cur_cmd = none) :
    (command s val).touched = none ∧ (command s val).s.pos = s.pos ∧
      (command s val).s.cur_cmd = s.cur_cmd ∧
      (s.pos ≠ 0 → (command s val).s.end_pos = s.end_pos) := by
  rw [command]
  unfold otherCommand setStartAddress setLength begin
  dsimp only
  split_ifs <;> simp_all

/-- A byte of a command that is ready accesses a register of the register file. -/
theorem lt_of_touched (h : Ready s) {a : BitVec 64} (ha : (command s val).touched = some a) :
    a.toNat < CS42L77_REG_SIZE := by
  cases hc : DataCommand.ofByte s.cur_cmd with
  | none =>
    rw [(command_other val hc).1] at ha
    cases ha
  | some c =>
    have hfits := h.fits c hc
    have hpos := h.pos
    have hfirst : 0 < c.first := by cases c <;> decide
    rw [(command_data val hc).1] at ha
    split_ifs at ha with hle
    rw [← Option.some.inj ha]
    rw [DataCommand.left, if_neg (by omega)] at hfits
    omega

theorem inv_advance (h : Ready s) : Inv (advance (command s val).s) := by
  have hle := h.pos
  unfold advance
  split_ifs with hend
  · exact fun hpos => absurd rfl hpos
  intro _
  cases hc : DataCommand.ofByte s.cur_cmd with
  | none =>
    obtain ⟨-, hpos, hcmd, hstop⟩ := command_other val hc
    refine ⟨fun _ => ?_, fun c hnone => ?_⟩
    · dsimp only
      omega
    · rw [hcmd, hc] at hnone
      cases hnone
  | some c =>
    obtain ⟨-, hpos, hcmd, hstop, haddr⟩ := command_data val hc
    have haddr := haddr hend
    have hfits := h.fits c hc
    have hfirst : 0 < c.first := by cases c <;> decide
    have hsucc : s.address.toNat < CS42L77_REG_SIZE →
        (s.address + 1).toNat = s.address.toNat + 1 := by
      intro hlt
      exact Nat.mod_eq_of_lt (Nat.lt_trans (Nat.succ_lt_succ hlt) (by decide))
    unfold DataCommand.left at hfits
    refine ⟨fun _ => ?_, fun c' hc' => ?_⟩
    · dsimp only
      split_ifs at hstop <;> omega
    · rw [hcmd, hc] at hc'
      obtain rfl := Option.some.inj hc'
      rw [DataCommand.left, if_neg (Nat.succ_ne_zero _)]
      dsimp only
      rw [haddr]
      by_cases hlt : c.first ≤ s.pos
      · have hzero : s.pos ≠ 0 := by omega
        rw [if_neg hzero] at hstop hfits
        rw [if_pos hlt]
        omega
      · rw [if_neg hlt]
        split_ifs at hstop hfits <;> omega

theorem ready_latch (h : Inv s) (hfits : Fits s val) : Ready (latch s val) := by
  unfold latch
  split_ifs with hzero
  · refine ⟨fun hpos => absurd hzero hpos, fun c hc => ?_⟩
    have hcount : c.left { s with cur_cmd := val.setWidth 8 } = c.count s := by
      rw [DataCommand.left, if_pos hzero]
      cases c <;> rfl
    rw [hcount]
    exact hfits hzero c hc
  · exact h hzero

end Step

/-- In every sequence of bytes in which each command fits when it begins, all registers accessed are
in the register file. -/
theorem inFile_of_fits {bytes : List (BitVec 32)}
    (h : Guarded (fun s val => (transfer s val).s) Fits init bytes) :
    Guarded (fun s val => (transfer s val).s) InFile init bytes :=
  h.of_invariant (I := Inv) (fun _ val hs hfits => inv_advance val (ready_latch val hs hfits))
    (fun _ val hs hfits _ ha => lt_of_touched val (ready_latch val hs hfits) ha)
    fun hpos => absurd rfl hpos

/-- The last register is written. -/
theorem inFile_of_fits_sample : Guarded (fun s val => (transfer s val).s) InFile init
      [0x80, 0xFF, 0xFF, 0xFF, 0x81, 1, 0, 0xB5, 7] :=
  inFile_of_fits (by decide +kernel)

/-- Two registers are written from the last one on. -/
theorem not_inFile : ¬ Guarded (fun s val => (transfer s val).s) InFile init
      [0x80, 0xFF, 0xFF, 0xFF, 0x81, 2, 0, 0xB5, 7, 7] := by
  intro ⟨_, _, _, _, _, _, _, _, _, hlast, _⟩
  exact absurd (hlast 0x1000000 rfl) (by decide)

end Inferno.Cs42l77
