import Inferno.Ptw.Sprr

/-!
# The walk of stage 1 tables

`get_phys_addr_lpae` of `target/arm/ptw.c` for stage 1. A walk loads descriptors from level to level
(`handleDescriptor`) until it gets to a block or a page, the *leaf*. The leaf and the attributes
that the tables above it have collected give the permissions; then the faults of the leaf are looked
for, in order (`handleLeaf`). Where the walk has to set the access flag, it swaps the descriptor in
memory, and starts over from the descriptor that it finds when another agent was faster (`settle`).

The parameters that `aa64_va_parameters` and `aa32_va_parameters` decode from `TCR`, the table base
that they select, and the memory are arguments. A load of a descriptor, with its own translation,
either faults or returns a descriptor; the compare-and-swaps take their answers from a list, and
succeed when the list has ended.
-/

namespace Inferno.Ptw

open Gxf Common

/-! ## Arguments and results -/

inductive ARMGranuleSize where
  | gran4K | gran16K | gran64K
  deriving DecidableEq

def armGranuleBits : ARMGranuleSize → ℕ
  | .gran64K => 16
  | .gran16K => 14
  | .gran4K => 12

structure ARMVAParameters where
  /-- The number of bits that the input address lacks. -/
  tsz : ℕ
  /-- The index of the size of output addresses. -/
  ps : ℕ
  sh : BitVec 2
  /-- Which of two ranges the address is in. -/
  select : Bool
  /-- The top byte is ignored. -/
  tbi : Bool
  /-- Walks are disabled. -/
  epd : Bool
  /-- The attributes of tables are disabled. -/
  hpd : Bool
  /-- The size of the input address is out of bounds. -/
  tszOob : Bool
  /-- Output addresses have 52 bits. -/
  ds : Bool
  /-- The walk sets the access flag. -/
  ha : Bool
  /-- The walk manages the dirty state. -/
  hd : Bool
  gran : ARMGranuleSize

inductive MMUAccessType where
  | dataLoad | dataStore | instFetch
  deriving DecidableEq

/-- The arguments of a walk: those of `S1Translate` and the access. -/
structure S1Translate where
  inMmuIdx : ARMMMUIdx
  /-- `in_space`, which is the space of the result before the walk as well. -/
  inSpace : ARMSecuritySpace
  /-- `in_at`: an address translation instruction. -/
  inAt : Bool
  inProtCheck : Prot
  address : BitVec 64
  accessType : MMUAccessType
  /-- `memop_atomicity_bits` of the access. -/
  aBits : ℕ
  param : ARMVAParameters
  ttbr : BitVec 64
  load : ARMSecuritySpace → BitVec 64 → Except WalkFault (BitVec 64)

structure GetPhysAddrResult where
  physAddr : BitVec 64
  lgPageSize : ℕ
  prot : Prot
  space : ARMSecuritySpace
  attrs : BitVec 8
  /-- The page is guarded against branches. -/
  guarded : Bool
  shareability : BitVec 2
  checkAligned : Bool

/-! ## From level to level -/

/-- `stride`: the bits of the address that one level resolves. -/
def ARMVAParameters.stride (p : ARMVAParameters) : ℕ := armGranuleBits p.gran - 3

/-- The level with `left` levels below it. -/
def levelOf (left : ℕ) : ℤ := 3 - left

def pamaxMap : List ℕ := [32, 36, 40, 42, 44, 48, 52]

variable (cpu : MmuCpu)

def lpaeBlockDescValid (p : ARMVAParameters) (level : ℤ) : Bool :=
  match p.gran with
  | .gran4K => (level = 0 && p.ds) || level = 1 || level = 2
  | .gran16K => (level = 1 && p.ds) || level = 2
  | .gran64K => (level = 1 && pamaxMap[cpu.parange]? = some 52) || level = 2

/-- A leaf that a walk got to. -/
structure Leaf where
  /-- The number of levels below it. -/
  left : ℕ
  /-- The attributes of the tables above it. -/
  tableattrs : BitVec 5
  /-- The space of the walk, after the tables above it. -/
  space : ARMSecuritySpace
  descriptor : BitVec 64
  /-- The descriptor with access flag and dirty state updated. -/
  newDescriptor : BitVec 64
  descaddr : BitVec 64

/-- The address that a descriptor has, if the descriptor is valid and the address in range. -/
def descriptorAddr (t : S1Translate) (outputsize left : ℕ) (descriptor : BitVec 64) :
    Except Stop (BitVec 64) :=
  let level := levelOf left
  let descaddrmask :=
    lowMask 64 (if t.param.ds then 50 else 48) &&& ~~~lowMask 64 (t.param.stride + 3)
  let descaddr := descriptor &&& descaddrmask
  if !descriptor.getLsbD 0 || (!descriptor.getLsbD 1 && !lpaeBlockDescValid cpu t.param level) then
    .error (.fault .translation level)
  else if outputsize > 48 then
    if t.param.ds then .ok (descaddr ||| (extract descriptor 8 2 <<< 50))
    else .ok (descaddr ||| (extract descriptor 12 4 <<< 48))
  else if descaddr >>> outputsize ≠ 0 then .error (.fault .addressSize level)
  else .ok descaddr

variable (t : S1Translate)

section

variable (left : ℕ) (tableattrs : BitVec 5) (space : ARMSecuritySpace)

/-- `next_level`: the space of a table and the descriptor that the address selects in it. -/
def loadDescriptor (descaddr indexmask : BitVec 64) : Except Stop (ARMSecuritySpace × BitVec 64) :=
  let descaddr := descaddr ||| ((t.address >>> (t.param.stride * (left + 1))) &&& indexmask)
  let descaddr := descaddr &&& ~~~7
  -- `NSTable` takes a walk out of the secure space
  let space := if space = .secure ∧ tableattrs.getLsbD 4 then .nonSecure else space
  match t.load space descaddr with
  | .error fault => .error (.onWalk fault)
  | .ok descriptor => .ok (space, descriptor)

/-- The descriptor of a leaf after the dirty state. -/
def setDirty (descriptor newDescriptor : BitVec 64) : BitVec 64 :=
  if t.param.hd ∧ descriptor.getLsbD 51 ∧ t.accessType = .dataStore then
    newDescriptor &&& ~~~0x80
  else newDescriptor

/-- A leaf: its physical address, and the access flag. -/
def leafOf (descriptor descaddr : BitVec 64) : Except Stop Leaf :=
  let low := lowMask 64 (t.param.stride * (left + 1) + 3)
  let descaddr := (descaddr &&& ~~~low) ||| (t.address &&& low)
  let leaf (newDescriptor : BitVec 64) : Leaf :=
    ⟨left, tableattrs, space, descriptor, newDescriptor, descaddr⟩
  if t.inAt then .ok (leaf descriptor)
  else if descriptor.getLsbD 10 then .ok (leaf (setDirty t descriptor descriptor))
  else if t.param.ha then .ok (leaf (setDirty t descriptor (descriptor ||| 0x400)))
  else .error (.fault .accessFlag (levelOf left))

end

/-- `restart_atomic_update`: a descriptor at the level with `left` levels below it, and what it
leads to. -/
def handleDescriptor (cpu : MmuCpu) (t : S1Translate) (outputsize : ℕ) :
    ℕ → BitVec 5 → ARMSecuritySpace → BitVec 64 → Except Stop Leaf
  | 0, tableattrs, space, descriptor => do
    let descaddr ← descriptorAddr cpu t outputsize 0 descriptor
    leafOf t 0 tableattrs space descriptor descaddr
  | left + 1, tableattrs, space, descriptor => do
    let descaddr ← descriptorAddr cpu t outputsize (left + 1) descriptor
    if descriptor.getLsbD 1 then
      -- A table, whose attributes hold for the levels below.
      let tableattrs := tableattrs ||| descriptor.extractLsb' 59 5
      let (space, descriptor) ←
        loadDescriptor t left tableattrs space descaddr (lowMask 64 (t.param.stride + 3))
      handleDescriptor cpu t outputsize left tableattrs space descriptor
    else leafOf t (left + 1) tableattrs space descriptor descaddr

/-! ## The leaf -/

/-- `attrs`: the attributes of a leaf, with those of its tables. -/
def leafAttrs (l : Leaf) : BitVec 64 :=
  let attrs := l.newDescriptor &&& 0xFFFC000000000FFC
  if t.param.hpd then attrs
  else
    let attrs := attrs ||| ((l.tableattrs.extractLsb' 0 2).setWidth 64 <<< 53)
    let attrs := attrs &&& ~~~((l.tableattrs.extractLsb' 2 1).setWidth 64 <<< 6)
    attrs ||| ((l.tableattrs.extractLsb' 3 1).setWidth 64 <<< 7)

/-- The space that a leaf of a walk is in. -/
def outSpace (idx : ARMMMUIdx) (space : ARMSecuritySpace) (attrs : BitVec 64) :
    Except Stop ARMSecuritySpace :=
  let ns := attrs.getLsbD 5
  match space with
  | .root =>
    match attrs.getLsbD 11, ns with
    | false, false => .ok (if cpu.sel2 then .secure else .nonSecure)
    | false, true => .ok .nonSecure
    | true, false => .ok .root
    | true, true => .ok .realm
  | .secure => .ok (if ns then .nonSecure else .secure)
  | .realm =>
    match idx with
    | .stage1E0 | .stage1E1 | .stage1E1Pan => .ok .realm
    | .e2 | .e20_0 | .e20_2 | .e20_2Pan => .ok (if ns then .nonSecure else .realm)
    | _ => .error .assertion
  | .nonSecure => .ok .nonSecure

variable (env : MmuState)

/-- `nv_nv1_enabled`, whose space is not the root space. -/
def nvNv1Enabled (space : ARMSecuritySpace) : Bool :=
  cpu.el2 && (space ≠ .secure || env.scrEl3.getLsbD 18) &&
    armElIsAa64 cpu.toARMCPU env.toCPUARMState 2 && env.hcrEl2.getLsbD 42 && env.hcrEl2.getLsbD 43

section

variable (cpu : MmuCpu) (env : MmuState) (t : S1Translate) (l : Leaf)

/-- The permission bits of a leaf. With nested virtualisation in effect, `UXN` stands for `PXN`, and
`AP[1]` is taken as clear. -/
def permBits : PermBits :=
  let attrs := leafAttrs t l
  let b : PermBits := ⟨attrs.extractLsb' 6 2, attrs.getLsbD 54, attrs.getLsbD 53⟩
  if regimeEl t.inMmuIdx = 1 ∧ nvNv1Enabled cpu env l.space then ⟨b.ap &&& 2, false, b.xn⟩ else b

/-- What the leaf permits, and the permission bits as they stand after that was computed: with SPRR
enabled, both execute-never bits are overwritten by what the attribute says of execution. -/
def leafPerms : Except Stop (PermBits × ARMSecuritySpace × Prot) := do
  let out ← outSpace cpu t.inMmuIdx l.space (leafAttrs t l)
  let b := permBits cpu env t l
  let isAa64 := armElIsAa64 cpu.toARMCPU env.toCPUARMState (regimeEl t.inMmuIdx)
  let userRw := simpleApToRwProtIsUser b.ap true
  if regimeEl t.inMmuIdx = 1 ∧ l.space = .root then .error .assertion
  else if armIsSprrEnabled env then
    let prot ← pteToSprrProt cpu env b
    let b : PermBits := ⟨b.ap, !prot.exec, !prot.exec⟩
    let res ← getS1prot cpu env t.inMmuIdx isAa64 userRw ⟨prot.read, prot.write, false⟩ b.xn b.pxn
      t.inSpace out
    .ok (b, out, res)
  else
    let res ← getS1prot cpu env t.inMmuIdx isAa64 userRw (simpleApToRwProtIsUser b.ap false)
      b.xn b.pxn t.inSpace out
    .ok (b, out, res)

/-- Whether a fetch that the permissions deny is reported as an abort of guarded execution. -/
def gxfAborts (b : PermBits) (prot : Prot) : Except Stop Bool :=
  if t.accessType = .instFetch ∧ armIsSprrEnabled env ∧
      ¬ armIsGuarded cpu.toARMCPU env.toCPUARMState ∧ ¬ prot.exec then do
    let glProt ← pteToSprrProtIsGuarded env b true
    .ok glProt.exec
  else .ok false

/-- The memory attributes that a leaf selects in `MAIR`. -/
def memAttrs : BitVec 8 :=
  let attrindx := ((leafAttrs t l).extractLsb' 2 3).toNat
  (env.mairEl (regimeEl t.inMmuIdx)).extractLsb' (attrindx * 8) 8

def s1AttrsAreDevice (attrs : BitVec 8) : Bool := attrs &&& 0xF0 = 0

/-- The access is not aligned and to device memory. -/
def misaligned : Bool :=
  s1AttrsAreDevice (memAttrs env t l) && t.address &&& lowMask 64 t.aBits ≠ 0

/-- The permissions grant all that is checked. -/
def Prot.covers (prot check : Prot) : Bool :=
  (!check.read || prot.read) && (!check.write || prot.write) && (!check.exec || prot.exec)

/-- The result of a walk that ends at a leaf. -/
def leafResult (out : ARMSecuritySpace) (prot : Prot) : GetPhysAddrResult where
  physAddr := l.descaddr
  lgPageSize := t.param.stride * (l.left + 1) + 3
  prot := prot
  space := out
  attrs := memAttrs env t l
  guarded := armElIsAa64 cpu.toARMCPU env.toCPUARMState (regimeEl t.inMmuIdx) && cpu.bti &&
    (leafAttrs t l).getLsbD 50
  shareability := if t.param.ds then t.param.sh else (leafAttrs t l).extractLsb' 8 2
  checkAligned := s1AttrsAreDevice (memAttrs env t l)

/-- A leaf, from its permissions to the last of its faults. -/
def handleLeaf : Except Stop GetPhysAddrResult := do
  let (b, out, prot) ← leafPerms cpu env t l
  let aborts ← gxfAborts cpu env t b prot
  if aborts then .error (.fault .gxfAbort (levelOf l.left))
  else if misaligned env t l then .error (.fault .alignment (levelOf l.left))
  else if prot.covers t.inProtCheck then .ok (leafResult cpu env t l out prot)
  else .error (.fault .permission (levelOf l.left))

end

/-! ## The walk -/

/-- The end of a walk: the leaf of its last attempt, if it got to one, and what it reports. -/
structure Ended where
  /-- The leaf that the report is about. -/
  leaf : Option Leaf
  report : Except Stop GetPhysAddrResult

/-- The attempts at a leaf. An attempt that has changed the descriptor swaps it; where the
descriptor in memory is another one by then, the walk goes on from that one. -/
def settle (cpu : MmuCpu) (env : MmuState) (t : S1Translate) (outputsize : ℕ) :
    List (Except WalkFault (BitVec 64)) → Except Stop Leaf → Ended
  | _, .error stop => ⟨none, .error stop⟩
  | [], .ok l => ⟨some l, handleLeaf cpu env t l⟩
  | answer :: answers, .ok l =>
    match handleLeaf cpu env t l with
    | .error stop => ⟨some l, .error stop⟩
    | .ok res =>
      if l.newDescriptor = l.descriptor then ⟨some l, .ok res⟩
      else
        match answer with
        | .error fault => ⟨some l, .error (.onWalk fault)⟩
        | .ok found =>
          if found = l.descriptor then ⟨some l, .ok res⟩
          else settle cpu env t outputsize answers
            (handleDescriptor cpu t outputsize l.left l.tableattrs l.space found)

/-- Where the tables of a walk start. -/
structure Start where
  outputsize : ℕ
  left : ℕ
  descaddr : BitVec 64
  indexmask : BitVec 64

section

variable (cpu : MmuCpu) (env : MmuState) (t : S1Translate)
  (answers : List (Except WalkFault (BitVec 64)))

/-- `outputsize` of AArch64. -/
def outputsize (p : ARMVAParameters) : Except Stop ℕ :=
  match pamaxMap[min cpu.parange p.ps]? with
  | none => .error .assertion
  | some size => .ok (if p.ds = false ∧ p.gran ≠ .gran64K then min size 48 else size)

/-- The bits of an address above its input size all agree with the range it is in. -/
def inRegion (addrsize inputsize : ℕ) : Bool :=
  if inputsize < addrsize then
    -((t.address <<< (64 - addrsize)).sshiftRight (64 - (addrsize - inputsize))) =
      (BitVec.ofBool t.param.select).setWidth 64
  else true

/-- The first table of a walk, whose `inputsize` is large enough for one level. -/
def startTable (outputsize inputsize : ℕ) : Except Stop Start :=
  let stride := t.param.stride
  let left := (inputsize - 4) / stride - 1
  let indexmask := lowMask 64 (inputsize - stride * (left + 1))
  let descaddr := extract t.ttbr 0 48
  if outputsize > 48 then
    .ok ⟨outputsize, left, (descaddr ||| (extract t.ttbr 2 4 <<< 48)) &&& ~~~indexmask, indexmask⟩
  else if descaddr >>> outputsize ≠ 0 then .error (.fault .addressSize 0)
  else .ok ⟨outputsize, left, descaddr &&& ~~~indexmask, indexmask⟩

/-- What precedes the first table, once the sizes are known. -/
def startWalk (level : ℤ) (outputsize addrsize inputsize : ℕ) : Except Stop Start :=
  if inRegion t addrsize inputsize = false then .error (.fault .translation level)
  else if t.param.epd then .error (.fault .translation level)
  else startTable t outputsize inputsize

/-- The start of a walk. -/
def start : Except Stop Start :=
  if armElIsAa64 cpu.toARMCPU env.toCPUARMState (regimeEl t.inMmuIdx) then
    if t.param.tszOob then .error (.fault .translation 0)
    else do
      let size ← outputsize cpu t.param
      startWalk t 0 size (if t.param.tbi then 56 else 64) (64 - t.param.tsz)
  else startWalk t 1 40 32 (32 - t.param.tsz)

/-- The first leaf that a walk gets to. -/
def firstLeaf (s : Start) : Except Stop Leaf := do
  let (space, descriptor) ← loadDescriptor t s.left 0 t.inSpace s.descaddr s.indexmask
  handleDescriptor cpu t s.outputsize s.left 0 space descriptor

/-- A whole walk, with the answers to its compare-and-swaps. -/
def walk : Ended :=
  match start cpu env t with
  | .error stop => ⟨none, .error stop⟩
  | .ok s => settle cpu env t s.outputsize answers (firstLeaf cpu t s)

/-- `get_phys_addr_lpae` for stage 1. -/
def getPhysAddrLpae : Except Stop GetPhysAddrResult :=
  (walk cpu env t answers).report

end

/-! ## What a report is about -/

/-- The report of a walk is that of the leaf: its fault, or its result unless the swap of the
descriptor failed. -/
def Ended.Reports (e : Ended) (handled : Except Stop GetPhysAddrResult) : Prop :=
  e.report = handled ∨ ∃ res fault, handled = .ok res ∧ e.report = .error (.onWalk fault)

variable (cpu : MmuCpu) (env : MmuState) (t : S1Translate)

/-- An attempt at a leaf ends the walk there, or the walk goes on from the descriptor that is in
memory by then, in the space of the leaf. -/
theorem settle_cons_cases (outputsize : ℕ) (answer : Except WalkFault (BitVec 64))
    (answers : List (Except WalkFault (BitVec 64))) (l : Leaf) :
    ((settle cpu env t outputsize (answer :: answers) (.ok l)).leaf = some l ∧
      (settle cpu env t outputsize (answer :: answers) (.ok l)).Reports (handleLeaf cpu env t l)) ∨
    ∃ found, settle cpu env t outputsize (answer :: answers) (.ok l) =
      settle cpu env t outputsize answers
        (handleDescriptor cpu t outputsize l.left l.tableattrs l.space found) := by
  rw [settle]
  cases hhandled : handleLeaf cpu env t l with
  | error stop => exact .inl ⟨rfl, .inl rfl⟩
  | ok res =>
    split_ifs with hsame
    · exact .inl ⟨rfl, .inl rfl⟩
    · cases answer with
      | error fault => exact .inl ⟨rfl, .inr ⟨res, fault, rfl, rfl⟩⟩
      | ok found =>
        dsimp only
        split_ifs with hfound
        · exact .inl ⟨rfl, .inl rfl⟩
        · exact .inr ⟨found, rfl⟩

/-- A walk that got to a leaf reports what it found there, however often it started over. -/
theorem settle_reports (outputsize : ℕ) {answers : List (Except WalkFault (BitVec 64))}
    (first : Except Stop Leaf) (l : Leaf)
    (h : (settle cpu env t outputsize answers first).leaf = some l) :
    (settle cpu env t outputsize answers first).Reports (handleLeaf cpu env t l) := by
  induction answers generalizing first with
  | nil =>
    cases first with
    | error stop => simp [settle] at h
    | ok leaf =>
      simp only [settle, Option.some.injEq] at h
      subst h
      exact .inl rfl
  | cons answer answers ih =>
    cases first with
    | error stop => simp [settle] at h
    | ok leaf =>
      rcases settle_cons_cases cpu env t outputsize answer answers leaf with
        ⟨hleaf, hreports⟩ | ⟨found, heq⟩
      · obtain rfl : leaf = l := Option.some.inj (hleaf.symm.trans h)
        exact hreports
      -- The walk starts over from the descriptor that it found.
      · rw [heq] at h ⊢
        exact ih _ h

theorem walk_reports {answers : List (Except WalkFault (BitVec 64))} (l : Leaf)
    (h : (walk cpu env t answers).leaf = some l) :
    (walk cpu env t answers).Reports (handleLeaf cpu env t l) := by
  unfold walk at h ⊢
  cases hstart : start cpu env t with
  | error stop => simp [hstart] at h
  | ok s =>
    simp only [hstart] at h
    exact settle_reports cpu env t _ _ l h

end Inferno.Ptw
