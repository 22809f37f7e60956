import Inferno.Common.Bytes

/-!
# Loading a kernel

`apple_boot_get_kc_bounds` and `apple_boot_parse_macho` of `hw/arm/apple-silicon/boot.c`. A Mach-O
file of `len` bytes has a header and load commands behind it, each of which gives its own size. The
first function goes through the commands for the bounds of the segments, and the second goes through
them again and copies every segment to a buffer between these bounds.

Memory is a function from offsets behind the start of the file to bytes, and the file is a part of
it. The spans of the file that are read, and those of the buffer that are written, are noted, inside
or not. A failed assertion has no result.
-/

namespace Inferno.MachO

open Common

/-! ## Fields -/

/-- Host memory, from the start of the file on. -/
abbrev Memory := ℕ → UInt8

/-- A field of four bytes. -/
def u32 (mem : Memory) (pos : ℕ) : BitVec 32 := BitVec.ofNat 32 (ofLe (load mem pos 4))

/-- A field of eight bytes. -/
def u64 (mem : Memory) (pos : ℕ) : BitVec 64 := BitVec.ofNat 64 (ofLe (load mem pos 8))

variable (mem : Memory)

/-- `header->magic`. -/
def magic : BitVec 32 := u32 mem 0
def nCmds : BitVec 32 := u32 mem 16
/-- The size of `MachoHeader64`. -/
def headerSize : ℕ := 32
variable (pos : ℕ)

/-- `cmd->cmd` of the load command at `pos`. -/
def cmd : BitVec 32 := u32 mem pos
def cmdSize : BitVec 32 := u32 mem (pos + 4)
/-- The first ten bytes of `seg_cmd->segname`. -/
def segname : List UInt8 := load mem (pos + 8) 10
/-- `seg_cmd->vmaddr`. -/
def vmaddr : BitVec 64 := u64 mem (pos + 24)
/-- `seg_cmd->vmsize`. -/
def vmsize : BitVec 64 := u64 mem (pos + 32)
/-- `seg_cmd->fileoff`. -/
def fileoff : BitVec 64 := u64 mem (pos + 40)
/-- `seg_cmd->filesize`. -/
def filesize : BitVec 64 := u64 mem (pos + 48)
/-- `seg_cmd->maxprot`. -/
def maxprot : BitVec 32 := u32 mem (pos + 56)

def machMagic64 : BitVec 32 := 0xFEEDFACF
def lcSegment64 : BitVec 32 := 0x19
def vmProtWrite : BitVec 32 := 0x02

def nameBytes (name : List Char) : List UInt8 := name.map fun c => UInt8.ofNat c.toNat

def pagezero : List UInt8 := nameBytes ['_', '_', 'P', 'A', 'G', 'E', 'Z', 'E', 'R', 'O']

def linkedit : List UInt8 := nameBytes ['_', '_', 'L', 'I', 'N', 'K', 'E', 'D', 'I', 'T']

/-! ## Load commands -/

/-- A span of the file or of the buffer. -/
structure Span where
  offset : ℕ
  size : ℕ

/-- The positions of `n` load commands, the first of them at `pos`. -/
def positions : ℕ → ℕ → List ℕ
  | 0, _ => []
  | n + 1, pos => pos :: positions n (pos + (cmdSize mem pos).toNat)

/-- The positions of the load commands of the file. -/
def commands : List ℕ := positions mem (nCmds mem).toNat headerSize

/-- The test for a segment to load that both loops make, and what they read for it: the command, the
name of a segment unless it is one, and its size unless it has that name. The size of the command
is read to get to the next one. -/
def testSegment : Bool × List Span :=
  if cmd mem pos ≠ lcSegment64 then (false, [⟨pos, 4⟩, ⟨pos + 4, 4⟩])
  else if segname mem pos = pagezero then (false, [⟨pos, 4⟩, ⟨pos + 4, 4⟩, ⟨pos + 8, 10⟩])
  else (vmsize mem pos ≠ 0, [⟨pos, 4⟩, ⟨pos + 4, 4⟩, ⟨pos + 8, 10⟩, ⟨pos + 32, 8⟩])

/-! ## Bounds -/

/-- The variables of `apple_boot_get_kc_bounds`. -/
structure Bounds where
  textBase : BitVec 64
  kcBase : BitVec 64
  kcEnd : BitVec 64
  roLower : BitVec 64
  roUpper : BitVec 64
  reads : List Span

/-- Their initial values. -/
def initBounds : Bounds := ⟨-1, -1, 0, -1, 0, []⟩

variable (b : Bounds)

section

variable (len : BitVec 32) (kcBase : BitVec 64) (l : Loading) (pos : ℕ)

/-- The bounds of read-only segments. -/
def roSegment : Bounds :=
  let vmend := vmaddr mem pos + vmsize mem pos
  if maxprot mem pos &&& vmProtWrite ≠ 0 ∨ segname mem pos = linkedit then b
  else
    { b with
      roLower := if b.roLower ≥ vmaddr mem pos then vmaddr mem pos else b.roLower
      roUpper := if b.roUpper ≤ vmend then vmend else b.roUpper }

/-- A segment to load in `apple_boot_get_kc_bounds`. -/
def boundsSegment : Bounds :=
  let vmend := vmaddr mem pos + vmsize mem pos
  roSegment mem { b with
      textBase := if filesize mem pos ≠ 0 ∧ fileoff mem pos = 0 then vmaddr mem pos else b.textBase
      kcBase := if vmaddr mem pos < b.kcBase then vmaddr mem pos else b.kcBase
      kcEnd := if vmend > b.kcEnd then vmend else b.kcEnd
      reads := b.reads ++
        (if filesize mem pos ≠ 0 then [⟨pos + 48, 8⟩, ⟨pos + 40, 8⟩] else [⟨pos + 48, 8⟩]) ++
        [⟨pos + 24, 8⟩, ⟨pos + 56, 4⟩] } pos

/-- A load command in `apple_boot_get_kc_bounds`. -/
def boundsStep : Bounds :=
  let (loaded, reads) := testSegment mem pos
  let b := { b with reads := b.reads ++ reads }
  if loaded then boundsSegment mem b pos else b

/-- The bounds after the loop. -/
def walkBounds : Bounds := (commands mem).foldl (boundsStep mem) initBounds

/-- `apple_boot_get_kc_bounds`: the bounds, that of the base rounded down. -/
def appleBootGetKcBounds : Option Bounds :=
  let b := walkBounds mem
  if b.textBase ≠ 0 ∧ b.textBase ≠ -1 ∧ b.kcBase ≠ 0 ∧ b.kcBase ≠ -1 ∧ b.kcEnd ≠ 0 ∧
      b.roLower ≠ 0 ∧ b.roLower ≠ -1 ∧ b.roUpper ≠ 0 then
    some { b with kcBase := b.kcBase &&& -0x2000000 }
  else none

/-! ## Copies -/

/-- The buffer and what has been accessed. -/
structure Loading where
  buffer : ℕ → UInt8
  reads : List Span
  writes : List Span

/-- `memcpy` of a segment to the buffer. -/
def copySegment : Loading :=
  let offset := (vmaddr mem pos - kcBase).toNat
  let size := (filesize mem pos).toNat
  let source := (fileoff mem pos).toNat
  { buffer := fun i =>
      if offset ≤ i ∧ i < offset + size then mem (source + (i - offset)) else l.buffer i
    reads := l.reads ++ [⟨pos + 40, 8⟩, ⟨pos + 24, 8⟩, ⟨pos + 48, 8⟩, ⟨source, size⟩]
    writes := l.writes ++ [⟨offset, size⟩] }

/-- A load command in the loop of `apple_boot_parse_macho`. -/
def copyStep : Option Loading :=
  let (loaded, reads) := testSegment mem pos
  let l := { l with reads := l.reads ++ reads }
  if loaded then
    if (fileoff mem pos).toNat < len.toNat then some (copySegment mem kcBase l pos) else none
  else some l

/-- What `apple_boot_parse_macho` has done. -/
structure Loaded extends Loading where
  size : ℕ
  /-- The returned pointer, as an offset in the buffer. -/
  header : ℕ

/-- `apple_boot_parse_macho`. The header is read for its magic and for the number of commands. -/
def appleBootParseMacho : Option Loaded :=
  if magic mem = machMagic64 then do
    let b ← appleBootGetKcBounds mem
    if b.kcBase < b.kcEnd then
      let l ← (commands mem).foldlM (copyStep mem len b.kcBase)
        ⟨fun _ => 0, ⟨0, 4⟩ :: ⟨16, 4⟩ :: b.reads, []⟩
      some ⟨l, (b.kcEnd - b.kcBase).toNat, (b.textBase - b.kcBase).toNat⟩
    else none
  else none

end

end Inferno.MachO
