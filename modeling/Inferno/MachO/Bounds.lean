import Inferno.Common.Run
import Inferno.MachO.Model

/-!
# What loading a kernel accesses

The functions check the magic, the bounds as a whole, and that segments start inside of the file.
They do not check that load commands, or segments as a whole, are inside of it, nor that a segment
has no more bytes in the file than in memory. So an accepted file is loaded with accesses inside of
the file and of the buffer exactly if each of its load commands fits (`Fits`).

Each of the three kinds of spans is followed through its loop: the spans that a loop has noted are
inside exactly if each command fits in that respect. The base of the buffer is not above any
segment, so offsets in the buffer do not wrap (`kcBase_le`).
-/

namespace Inferno.MachO

open Common List Option

variable {mem : Memory} {len : BitVec 32}

/-! ## Load commands -/

/-- A span is inside of `n` bytes; one without bytes accesses nothing. -/
def Span.Inside (n : ℕ) (s : Span) : Prop := s.size = 0 ∨ s.offset + s.size ≤ n

theorem inside_mk (n offset size : ℕ) :
    Span.Inside n ⟨offset, size⟩ ↔ size = 0 ∨ offset + size ≤ n :=
  Iff.rfl

section

variable (mem : Memory) (pos : ℕ)

/-- Whether the segment at a position is loaded. -/
def isLoaded : Bool := (testSegment mem pos).1

/-- How much of a load command the test reads. -/
def testExtent : ℕ :=
  if cmd mem pos ≠ lcSegment64 then 8 else if segname mem pos = pagezero then 18 else 40

/-- How much of a load command is read: up to `maxprot` for a segment that is loaded. -/
def extent : ℕ := if isLoaded mem pos then 60 else testExtent mem pos

theorem testSegment_inside_iff (pos n : ℕ) : (∀ r ∈ (testSegment mem pos).2, r.Inside n)
    ↔ pos + testExtent mem pos ≤ n := by
  unfold testSegment testExtent
  split_ifs
  all_goals
    simp only [forall_mem_cons, not_mem_nil, IsEmpty.forall_iff, implies_true, and_true, inside_mk]
    omega

theorem testExtent_le_extent : testExtent mem pos ≤ extent mem pos := by
  unfold extent testExtent
  split_ifs <;> omega

end

/-! ## Bounds -/

theorem roSegment_frame {mem : Memory} {b : Bounds} {pos : ℕ} :
    (roSegment mem b pos).reads = b.reads ∧ (roSegment mem b pos).kcBase = b.kcBase ∧
      (roSegment mem b pos).textBase = b.textBase := by
  unfold roSegment
  split_ifs <;> exact ⟨rfl, rfl, rfl⟩

theorem boundsStep_inside_iff (mem : Memory) (n : ℕ) (b : Bounds) (pos : ℕ) :
    (∀ r ∈ (boundsStep mem b pos).reads, r.Inside n) ↔
      (∀ r ∈ b.reads, r.Inside n) ∧ pos + extent mem pos ≤ n := by
  have htest := testSegment_inside_iff mem pos n
  have hle := testExtent_le_extent mem pos
  unfold boundsStep
  dsimp only
  by_cases hloaded : (testSegment mem pos).1 = true
  · have hextent : extent mem pos = 60 := if_pos hloaded
    rw [if_pos hloaded, boundsSegment, roSegment_frame.1]
    simp only [forall_mem_append, htest]
    split_ifs
    all_goals
      simp only [forall_mem_cons, not_mem_nil, IsEmpty.forall_iff, implies_true,
      and_true, inside_mk]
      rw [and_assoc, and_assoc]
      refine and_congr_right fun _ => ?_
      omega
  · have hextent : extent mem pos = testExtent mem pos := if_neg hloaded
    rw [if_neg hloaded, forall_mem_append, htest, hextent]

theorem walkBounds_inside_iff (mem : Memory) (n : ℕ) : (∀ r ∈ (walkBounds mem).reads, r.Inside n) ↔
      ∀ pos ∈ commands mem, pos + extent mem pos ≤ n := by
  have hrun := run_iff_forall (P := fun b : Bounds => ∀ r ∈ b.reads, r.Inside n)
    (boundsStep_inside_iff mem n) initBounds (commands mem)
  exact hrun.trans (and_iff_right nofun)

/-- A bound below the base after a step was below it before, and is below the segment. -/
theorem le_boundsStep_iff (mem : Memory) (x : BitVec 64) (b : Bounds) (pos : ℕ) :
    x ≤ (boundsStep mem b pos).kcBase ↔
      x ≤ b.kcBase ∧ (isLoaded mem pos = true → x ≤ vmaddr mem pos) := by
  unfold boundsStep isLoaded
  dsimp only
  by_cases hloaded : (testSegment mem pos).1 = true
  · rw [if_pos hloaded, boundsSegment, roSegment_frame.2.1]
    dsimp only
    rw [forall_prop_of_true hloaded]
    split_ifs with hlt
    · exact (and_iff_right_of_imp fun hx => BitVec.le_trans hx (BitVec.le_of_lt hlt)).symm
    · exact (and_iff_left_of_imp fun hx => BitVec.le_trans hx (BitVec.not_lt.mp hlt)).symm
  · rw [if_neg hloaded]
    exact (and_iff_left fun hcon => absurd hcon hloaded).symm

theorem le_walkBounds_iff (mem : Memory) (x : BitVec 64) : x ≤ (walkBounds mem).kcBase ↔
      x ≤ initBounds.kcBase ∧
        ∀ pos ∈ commands mem, isLoaded mem pos = true → x ≤ vmaddr mem pos := by
  exact run_iff_forall (P := fun b : Bounds => x ≤ b.kcBase) (le_boundsStep_iff mem x) initBounds
    (commands mem)

theorem kcBase_le {pos : ℕ} (hpos : pos ∈ commands mem) (hloaded : isLoaded mem pos = true) :
    (walkBounds mem).kcBase ≤ vmaddr mem pos :=
  ((le_walkBounds_iff mem _).mp (BitVec.le_refl _)).2 pos hpos hloaded

/-- The start of the text is that of a segment that is loaded and has bytes in the file. -/
theorem exists_text (h : (walkBounds mem).textBase ≠ -1) :
    ∃ pos ∈ commands mem, isLoaded mem pos = true ∧ filesize mem pos ≠ 0 ∧
      vmaddr mem pos = (walkBounds mem).textBase := by
  refine Or.resolve_left ?_ h
  refine foldlRecOn (motive := fun b => b.textBase = -1 ∨ ∃ pos ∈ commands mem,
    isLoaded mem pos = true ∧ filesize mem pos ≠ 0 ∧ vmaddr mem pos = b.textBase)
    (commands mem) (boundsStep mem) (b := initBounds) (.inl rfl) ?_
  intro b hb pos hpos
  unfold boundsStep
  dsimp only
  split_ifs with hloaded
  · rw [boundsSegment, roSegment_frame.2.2]
    dsimp only
    split_ifs with htext
    · exact .inr ⟨pos, hpos, hloaded, htext.1, rfl⟩
    · exact hb
  · exact hb

theorem headerSize_le {pos : ℕ} (hpos : pos ∈ commands mem) : headerSize ≤ pos := by
  have hfrom : ∀ n start, ∀ p ∈ positions mem n start, start ≤ p := by
    intro n
    induction n with
    | zero => exact fun _ _ => nofun
    | succ n ih =>
      intro start p hp
      rcases mem_cons.mp hp with rfl | hrest
      · exact Nat.le_refl _
      · exact (Nat.le_add_right _ _).trans (ih _ p hrest)
  exact hfrom _ _ pos hpos

/-! ## Copies -/

section Copy

variable {kcBase : BitVec 64} {l l' : Loading} {pos : ℕ}

theorem copyStep_eq_some (h : copyStep mem len kcBase l pos = some l') :
    (isLoaded mem pos = true ∧ (fileoff mem pos).toNat < len.toNat ∧
      l' = copySegment mem kcBase { l with reads := l.reads ++ (testSegment mem pos).2 } pos) ∨
    (isLoaded mem pos = false ∧ l' = { l with reads := l.reads ++ (testSegment mem pos).2 }) := by
  unfold copyStep at h
  dsimp only at h
  split_ifs at h with hloaded hoff
  · exact .inl ⟨hloaded, hoff, (some.inj h).symm⟩
  · exact .inr ⟨Bool.eq_false_iff.mpr hloaded, (some.inj h).symm⟩

/-- How much of a load command the second loop reads. -/
def copyExtent (mem : Memory) (pos : ℕ) : ℕ := if isLoaded mem pos then 56 else testExtent mem pos

section

variable {n : ℕ} (h : copyStep mem len kcBase l pos = some l')

include h

/-- What a step of the second loop reads is inside exactly if the command and the segment are. -/
theorem copyStep_reads_iff : (∀ r ∈ l'.reads, r.Inside len.toNat) ↔
      (∀ r ∈ l.reads, r.Inside len.toNat) ∧ pos + copyExtent mem pos ≤ len.toNat ∧
        (isLoaded mem pos = true →
          (fileoff mem pos).toNat + (filesize mem pos).toNat ≤ len.toNat) := by
  have htest := testSegment_inside_iff mem pos len.toNat
  have hextent : isLoaded mem pos = true → testExtent mem pos = 40 := by
    unfold isLoaded testSegment testExtent
    split_ifs <;> simp
  rcases copyStep_eq_some h with ⟨hloaded, hoff, rfl⟩ | ⟨hloaded, rfl⟩
  · rw [copySegment, copyExtent, if_pos hloaded, forall_prop_of_true hloaded]
    simp only [forall_mem_append, htest, hextent hloaded, and_assoc]
    refine and_congr_right fun _ => ?_
    simp only [forall_mem_cons, not_mem_nil, IsEmpty.forall_iff, implies_true, and_true, inside_mk]
    omega
  · rw [copyExtent, hloaded, if_neg Bool.false_ne_true]
    simp only [forall_mem_append, htest, Bool.false_eq_true, false_implies, and_true]

theorem copyStep_writes_iff : (∀ w ∈ l'.writes, w.Inside n) ↔ (∀ w ∈ l.writes, w.Inside n) ∧
        (isLoaded mem pos = true →
          Span.Inside n ⟨(vmaddr mem pos - kcBase).toNat, (filesize mem pos).toNat⟩) := by
  rcases copyStep_eq_some h with ⟨hloaded, -, rfl⟩ | ⟨hloaded, rfl⟩
  · rw [copySegment, forall_prop_of_true hloaded, forall_mem_append, forall_mem_singleton]
  · rw [hloaded]
    simp

end

end Copy

/-! ## Loading -/

/-- A load command that fits: it is inside of the file as far as it is read, and so is its segment,
of which no more is in the file than there is room for below the end of the bounds. -/
structure Fits (mem : Memory) (len kcEnd pos : ℕ) : Prop where
  /-- The command is inside of the file. -/
  command : pos + extent mem pos ≤ len
  /-- The segment is inside of the file. -/
  source : isLoaded mem pos = true → (fileoff mem pos).toNat + (filesize mem pos).toNat ≤ len
  /-- The segment is inside of the bounds. -/
  target : isLoaded mem pos = true →
    (filesize mem pos).toNat = 0 ∨ (vmaddr mem pos).toNat + (filesize mem pos).toNat ≤ kcEnd

theorem appleBootParseMacho_eq_some {r : Loaded} (h : appleBootParseMacho mem len = some r) :
    ∃ kcBase l, kcBase ≤ (walkBounds mem).kcBase ∧ kcBase < (walkBounds mem).kcEnd ∧
      (walkBounds mem).textBase ≠ -1 ∧
      (commands mem).foldlM (copyStep mem len kcBase)
        ⟨fun _ => 0, ⟨0, 4⟩ :: ⟨16, 4⟩ :: (walkBounds mem).reads, []⟩ = some l ∧
      r = ⟨l, ((walkBounds mem).kcEnd - kcBase).toNat,
        ((walkBounds mem).textBase - kcBase).toNat⟩ := by
  unfold appleBootParseMacho at h
  split_ifs at h
  obtain ⟨b, hbounds, hrest⟩ := bind_eq_some_iff.mp h
  unfold appleBootGetKcBounds at hbounds
  dsimp only at hbounds
  split_ifs at hbounds with hassert
  obtain rfl := some.inj hbounds
  split_ifs at hrest with hlt
  obtain ⟨l, hcopy, hr⟩ := bind_eq_some_iff.mp hrest
  refine ⟨_, l, ?_, hlt, hassert.2.1, hcopy, (some.inj hr).symm⟩
  exact Nat.and_le_left

section Loading

variable {kcBase : BitVec 64} {l : Loading} {pos : ℕ}

/-- What is read is inside exactly if the commands and the segments are. The header is in front of
the commands, of which there is one. -/
theorem reads_inside_iff (hpos : pos ∈ commands mem)
    (hcopy : (commands mem).foldlM (copyStep mem len kcBase)
      ⟨fun _ => 0, ⟨0, 4⟩ :: ⟨16, 4⟩ :: (walkBounds mem).reads, []⟩ = some l) :
    (∀ a ∈ l.reads, a.Inside len.toNat) ↔
      ∀ pos ∈ commands mem, pos + extent mem pos ≤ len.toNat ∧ (isLoaded mem pos = true →
        (fileoff mem pos).toNat + (filesize mem pos).toNat ≤ len.toNat) := by
  rw [foldlM_iff_forall (P := fun l : Loading => ∀ a ∈ l.reads, a.Inside len.toNat)
    (fun _ _ _ hstep => copyStep_reads_iff hstep) hcopy]
  rw [forall_mem_cons, forall_mem_cons, walkBounds_inside_iff, inside_mk, inside_mk]
  constructor
  · rintro ⟨⟨-, -, hcommands⟩, hcopied⟩ p hp
    exact ⟨hcommands p hp, (hcopied p hp).2⟩
  · intro hall
    have hheader := headerSize_le hpos
    have hin := (hall pos hpos).1
    have h32 : headerSize = 32 := rfl
    refine ⟨⟨by omega, by omega, fun p hp => (hall p hp).1⟩, fun p hp => ⟨?_, (hall p hp).2⟩⟩
    -- The second loop reads no more of a command than the first one.
    have hextent : copyExtent mem p ≤ extent mem p := by
      unfold copyExtent extent
      split_ifs <;> omega
    have hcommand := (hall p hp).1
    omega

theorem toNat_vmaddr_sub (hbase : kcBase ≤ (walkBounds mem).kcBase) (hpos : pos ∈ commands mem)
    (hloaded : isLoaded mem pos = true) :
    (vmaddr mem pos - kcBase).toNat = (vmaddr mem pos).toNat - kcBase.toNat ∧
      kcBase.toNat ≤ (vmaddr mem pos).toNat := by
  have hle := BitVec.le_trans hbase (kcBase_le hpos hloaded)
  exact ⟨BitVec.toNat_sub_of_le hle, hle⟩

theorem toNat_kcEnd_sub (hend : kcBase < (walkBounds mem).kcEnd) :
    ((walkBounds mem).kcEnd - kcBase).toNat = (walkBounds mem).kcEnd.toNat - kcBase.toNat ∧
      kcBase.toNat < (walkBounds mem).kcEnd.toNat :=
  ⟨BitVec.toNat_sub_of_le (BitVec.le_of_lt hend), hend⟩

section

variable (hbase : kcBase ≤ (walkBounds mem).kcBase) (hend : kcBase < (walkBounds mem).kcEnd)

include hbase hend

/-- What is written is inside of the buffer exactly if the segments end below the end of the
bounds. -/
theorem writes_inside_iff {reads : List Span}
    (hcopy : (commands mem).foldlM (copyStep mem len kcBase) ⟨fun _ => 0, reads, []⟩ = some l) :
    (∀ a ∈ l.writes, a.Inside ((walkBounds mem).kcEnd - kcBase).toNat) ↔
      ∀ pos ∈ commands mem, isLoaded mem pos = true → (filesize mem pos).toNat = 0 ∨
        (vmaddr mem pos).toNat + (filesize mem pos).toNat ≤ (walkBounds mem).kcEnd.toNat := by
  obtain ⟨hsize, hlt⟩ := toNat_kcEnd_sub hend
  rw [foldlM_iff_forall
    (P := fun l : Loading => ∀ a ∈ l.writes, a.Inside ((walkBounds mem).kcEnd - kcBase).toNat)
    (fun _ _ _ hstep => copyStep_writes_iff hstep) hcopy, and_iff_right nofun]
  refine forall₂_congr fun p hp => forall_congr' fun hloaded => ?_
  obtain ⟨hsub, hle⟩ := toNat_vmaddr_sub hbase hp hloaded
  rw [inside_mk]
  omega

/-- The text is in the buffer if its bytes in the file, which there are, end below the end of the
bounds. -/
theorem header_lt_size (hpos : pos ∈ commands mem) (hloaded : isLoaded mem pos = true)
    (hfile : filesize mem pos ≠ 0) (htarget : (filesize mem pos).toNat = 0 ∨
      (vmaddr mem pos).toNat + (filesize mem pos).toNat ≤ (walkBounds mem).kcEnd.toNat) :
    (vmaddr mem pos - kcBase).toNat < ((walkBounds mem).kcEnd - kcBase).toNat := by
  have hbytes : (filesize mem pos).toNat ≠ 0 := fun hz => hfile (BitVec.eq_of_toNat_eq hz)
  obtain ⟨hsize, hlt⟩ := toNat_kcEnd_sub hend
  obtain ⟨hsub, hle⟩ := toNat_vmaddr_sub hbase hpos hloaded
  omega

end

end Loading

/-- An accepted file is loaded with accesses inside of the file and of the buffer, to a pointer into
the buffer, exactly if all its load commands fit. -/
theorem macho_loading_iff {r : Loaded} (h : appleBootParseMacho mem len = some r) :
    ((∀ a ∈ r.reads, a.Inside len.toNat) ∧ (∀ a ∈ r.writes, a.Inside r.size) ∧ r.header < r.size) ↔
    ∀ pos ∈ commands mem, Fits mem len.toNat (walkBounds mem).kcEnd.toNat pos := by
  obtain ⟨kcBase, l, hbase, hend, htext, hcopy, rfl⟩ := appleBootParseMacho_eq_some h
  obtain ⟨text, htextpos, hloaded, hfile, htextbase⟩ := exists_text htext
  have hreads := reads_inside_iff htextpos hcopy
  have hwrites := writes_inside_iff hbase hend hcopy
  constructor
  · rintro ⟨hallreads, hallwrites, -⟩ pos hpos
    have hsource := hreads.mp hallreads pos hpos
    exact ⟨hsource.1, hsource.2, hwrites.mp hallwrites pos hpos⟩
  · intro hfits
    have htarget := (hfits text htextpos).target hloaded
    refine ⟨hreads.mpr fun pos hpos => ?_, hwrites.mpr fun pos hpos => ?_, ?_⟩
    · exact ⟨(hfits pos hpos).command, (hfits pos hpos).source⟩
    · exact (hfits pos hpos).target
    · rw [← htextbase]
      exact header_lt_size hbase hend htextpos hloaded hfile htarget

/-! ## Files with one segment -/

/-- A file of 104 bytes with the header and the load command of one segment, which starts with the
file and has the given sizes in memory and in the file. -/
def oneSegment (vmsize filesize : ℕ) : Memory := fun i =>
  (leBytes 4 0xFEEDFACF ++ leBytes 12 0 ++ leBytes 4 1 ++ leBytes 12 0 ++
    leBytes 4 0x19 ++ leBytes 4 72 ++ nameBytes ['_', '_', 'T', 'E', 'X', 'T'] ++ leBytes 10 0 ++
    leBytes 8 0xFFFFFFF007004000 ++ leBytes 8 vmsize ++ leBytes 8 0 ++ leBytes 8 filesize ++
    leBytes 4 5 ++ leBytes 12 0).getD i 0

/-- A file that is its only segment is loaded with accesses inside. -/
theorem macho_loading_iff_whole : ∃ r, appleBootParseMacho (oneSegment 0x4000 104) 104 = some r ∧
      (∀ a ∈ r.reads, a.Inside 104) ∧ (∀ a ∈ r.writes, a.Inside r.size) ∧ r.header < r.size := by
  have haccepted : (appleBootParseMacho (oneSegment 0x4000 104) 104).isSome = true := by
    decide +kernel
  obtain ⟨r, hr⟩ := isSome_iff_exists.mp haccepted
  have hcommands : commands (oneSegment 0x4000 104) = [32] := by decide +kernel
  refine ⟨r, hr, (macho_loading_iff hr).mpr ?_⟩
  rw [hcommands, forall_mem_singleton]
  exact ⟨by decide +kernel, by decide +kernel, by decide +kernel⟩

/-- A file whose segment has 4096 bytes in a file of 104 and 16 in memory is accepted; the copy
reads behind the file and writes behind the buffer. -/
theorem macho_loading_overruns : ((appleBootParseMacho (oneSegment 16 4096) 104).any fun r =>
      r.reads.any (fun a => a.size ≠ 0 ∧ 104 < a.offset + a.size) &&
        r.writes.any fun a => a.size ≠ 0 ∧ r.size < a.offset + a.size) = true := by
  decide +kernel

end Inferno.MachO
