import Inferno.Common.Outcome
import Inferno.Ptw.Walk

/-!
# Aborts of guarded execution

An instruction fetch that ordinary execution is denied and guarded execution is granted is to be
reported as an abort of guarded execution, so that its handler can look at it; any other denied
fetch is a permission fault. The walk decides it with a second lookup of the leaf's attribute. By
then both execute-never bits have been overwritten by what the first lookup said of execution, so
the second lookup selects another attribute than that of the leaf, except where the bits happened to
be equal already.

`sprr_abort_iff` is exact: the report follows the leaf's own attribute for just those permission
registers in which the attributes of the two lookups agree on guarded execution.
-/

namespace Inferno.Ptw

open Gxf Common

/-- An instruction fetch with SPRR enabled, outside of guarded execution. -/
structure Fetch (cpu : MmuCpu) where
  env : MmuState
  t : S1Translate
  answers : List (Except WalkFault (BitVec 64))
  fetch : t.accessType = .instFetch
  check : t.inProtCheck = ⟨false, false, true⟩
  sprr : armIsSprrEnabled env = true
  plain : armIsGuarded cpu.toARMCPU env.toCPUARMState = false
  regime : t.inMmuIdx.isGuarded = false
  /-- The root space is that of EL3. -/
  root : t.inSpace = .root → regimeEl t.inMmuIdx = 3
  realm : t.inSpace = .realm → regimeEl t.inMmuIdx ≠ 3

namespace Fetch

variable {cpu : MmuCpu} (f : Fetch cpu)

/-- The leaf that the walk got to. -/
def leaf : Option Leaf := (walk cpu f.env f.t f.answers).leaf

/-- What the walk reports. -/
def report : Except Stop GetPhysAddrResult := getPhysAddrLpae cpu f.env f.t f.answers

/-- The attribute that the leaf's own bits select. -/
def ownAttr (l : Leaf) : BitVec 4 := sprrAttr f.env (permBits cpu f.env f.t l)

/-- The attribute that is selected when both execute-never bits are `xn`. -/
def attrWith (l : Leaf) (xn : Bool) : BitVec 4 :=
  sprrAttr f.env ⟨(permBits cpu f.env f.t l).ap, xn, xn⟩

end Fetch

variable (attr : BitVec 4)

/-- The attribute denies execution to ordinary execution. -/
def Denies : Prop := (sprrProt attr false).exec = false

def GrantsGuarded : Prop := (sprrProt attr true).exec = true

instance (attr : BitVec 4) : Decidable (Denies attr) := inferInstanceAs (Decidable (_ = _))

instance (attr : BitVec 4) : Decidable (GrantsGuarded attr) := inferInstanceAs (Decidable (_ = _))

/-! ## The space of a walk -/

/-- The spaces that a walk can be in: that of its start, or the non-secure space when it started in
the secure one. -/
def SpaceOf (t : S1Translate) (space : ARMSecuritySpace) : Prop :=
  space = t.inSpace ∨ (t.inSpace = .secure ∧ space = .nonSecure)

variable {t : S1Translate} {left : ℕ} {tableattrs : BitVec 5} {space : ARMSecuritySpace}
  {descriptor : BitVec 64} {l : Leaf} {answers : List (Except WalkFault (BitVec 64))}

theorem loadDescriptor_space {descaddr indexmask : BitVec 64} {next : ARMSecuritySpace × BitVec 64}
    (hspace : SpaceOf t space)
    (h : loadDescriptor t left tableattrs space descaddr indexmask = .ok next) :
    SpaceOf t next.1 := by
  unfold loadDescriptor at h
  dsimp only at h
  split at h
  · cases h
  · cases h
    split_ifs with hns
    · refine .inr ⟨?_, rfl⟩
      rcases hspace with heq | ⟨hsec, -⟩
      · exact heq ▸ hns.1
      · exact hsec
    · exact hspace

theorem leafOf_space {descaddr : BitVec 64}
    (h : leafOf t left tableattrs space descriptor descaddr = .ok l) : l.space = space := by
  unfold leafOf at h
  split_ifs at h <;> cases h <;> rfl

section

variable {cpu : MmuCpu} {env : MmuState} {outputsize : ℕ} {first : Except Stop Leaf}

theorem handleDescriptor_space (hspace : SpaceOf t space)
    (h : handleDescriptor cpu t outputsize left tableattrs space descriptor = .ok l) :
    SpaceOf t l.space := by
  induction left generalizing tableattrs space descriptor with
  | zero =>
    obtain ⟨descaddr, -, hleaf⟩ := exists_of_bind_eq_ok h
    exact leafOf_space hleaf ▸ hspace
  | succ left ih =>
    obtain ⟨descaddr, -, hrest⟩ := exists_of_bind_eq_ok h
    split_ifs at hrest with htable
    · obtain ⟨next, hload, hnext⟩ := exists_of_bind_eq_ok hrest
      exact ih (loadDescriptor_space hspace hload) hnext
    · exact leafOf_space hrest ▸ hspace

theorem settle_space (hfirst : ∀ l, first = .ok l → SpaceOf t l.space)
    (h : (settle cpu env t outputsize answers first).leaf = some l) : SpaceOf t l.space := by
  induction answers generalizing first with
  | nil =>
    cases first with
    | error stop => simp [settle] at h
    | ok leaf =>
      obtain rfl : leaf = l := Option.some.inj h
      exact hfirst leaf rfl
  | cons answer answers ih =>
    cases first with
    | error stop => simp [settle] at h
    | ok leaf =>
      have hspace := hfirst leaf rfl
      rcases settle_cons_cases cpu env t outputsize answer answers leaf with
        ⟨hleaf, -⟩ | ⟨found, heq⟩
      · obtain rfl : leaf = l := Option.some.inj (hleaf.symm.trans h)
        exact hspace
      -- The walk starts over in the space of this leaf.
      · rw [heq] at h
        exact ih (fun _ hnext => handleDescriptor_space hspace hnext) h

end

theorem walk_space {cpu : MmuCpu} {env : MmuState} (h : (walk cpu env t answers).leaf = some l) :
    SpaceOf t l.space := by
  unfold walk at h
  split at h
  · cases h
  · refine settle_space ?_ h
    intro first hfirst
    obtain ⟨next, hload, hnext⟩ := exists_of_bind_eq_ok hfirst
    exact handleDescriptor_space (loadDescriptor_space (.inl rfl) hload) hnext

/-! ## The permissions of the leaf -/

namespace Fetch

variable {cpu : MmuCpu} (f : Fetch cpu)

variable {l : Leaf} {out : ARMSecuritySpace}

theorem outSpace_eq (hspace : SpaceOf f.t l.space) (attrs : BitVec 64) :
    ∃ out, outSpace cpu f.t.inMmuIdx l.space attrs = .ok out ∧
      (f.t.inSpace = .nonSecure → out = .nonSecure) := by
  have hregime := f.regime
  have hrealm := f.realm
  rcases hspace with heq | ⟨hsec, heq⟩
  · rw [heq]
    cases hin : f.t.inSpace with
    | root =>
      unfold outSpace
      dsimp only
      split <;> exact ⟨_, rfl, by simp⟩
    | secure => exact ⟨_, rfl, by simp⟩
    | nonSecure => exact ⟨_, rfl, fun _ => rfl⟩
    | realm =>
      have hlow := hrealm hin
      cases hidx : f.t.inMmuIdx <;> rw [hidx] at hregime hlow <;>
        first
        | exact ⟨_, rfl, by simp⟩
        | exact absurd hregime (by decide)
        | exact absurd rfl hlow
  · rw [heq]
    exact ⟨.nonSecure, rfl, fun _ => rfl⟩

/-- The space of the leaf of a fetch decides whether it may be executed. -/
theorem spaceForbidsExec_eq (hout : f.t.inSpace = .nonSecure → out = .nonSecure) :
    ∃ forbidden, spaceForbidsExec f.env f.t.inMmuIdx f.t.inSpace out = .ok forbidden := by
  have hregime := f.regime
  unfold spaceForbidsExec
  split_ifs with hsame
  · exact ⟨_, rfl⟩
  · cases hin : f.t.inSpace with
    | root | secure => exact ⟨_, rfl⟩
    | nonSecure => exact absurd (hin.trans (hout hin).symm) hsame
    | realm =>
      cases hidx : f.t.inMmuIdx <;> rw [hidx] at hregime <;>
        first
        | exact ⟨_, rfl⟩
        | exact absurd hregime (by decide)

/-- The permission bits that the second lookup uses: both execute-never bits say whether the leaf's
own attribute denies execution. -/
def overwritten (l : Leaf) : PermBits :=
  ⟨(permBits cpu f.env f.t l).ap, decide (Denies (f.ownAttr l)), decide (Denies (f.ownAttr l))⟩

/-- A fetch finds the permissions of its leaf; they deny execution where the leaf's own attribute
does. -/
theorem leafPerms_eq (hspace : SpaceOf f.t l.space) :
    ∃ out prot, leafPerms cpu f.env f.t l = .ok (f.overwritten l, out, prot) ∧
      (Denies (f.ownAttr l) → prot.exec = false) := by
  obtain ⟨out, hout, hns⟩ := f.outSpace_eq hspace (leafAttrs f.t l)
  obtain ⟨forbidden, hforbidden⟩ := f.spaceForbidsExec_eq hns
  have hroot : ¬ (regimeEl f.t.inMmuIdx = 1 ∧ l.space = .root) := by
    rintro ⟨hone, hl⟩
    rcases hspace with heq | ⟨-, heq⟩
    · have hthree := f.root (heq.symm.trans hl)
      rw [hone] at hthree
      exact absurd hthree (by decide)
    · rw [heq] at hl
      cases hl
  have hprot : pteToSprrProt cpu f.env (permBits cpu f.env f.t l) =
      .ok (sprrProt (f.ownAttr l) false) := by
    rw [pteToSprrProt, f.plain, pteToSprrProtIsGuarded_eq f.env f.sprr]
    rfl
  -- What the first lookup says of execution is written to both execute-never bits.
  have hbits : (!(sprrProt (f.ownAttr l) false).exec) = decide (Denies (f.ownAttr l)) := by
    by_cases hdenies : Denies (f.ownAttr l)
    · rw [decide_eq_true hdenies, hdenies]
      rfl
    · rw [decide_eq_false hdenies, Bool.eq_true_of_not_eq_false hdenies]
      rfl
  obtain ⟨prot, hs1, hexec⟩ := getS1prot_spec cpu f.sprr hforbidden
    (armElIsAa64 cpu.toARMCPU f.env.toCPUARMState (regimeEl f.t.inMmuIdx))
    (simpleApToRwProtIsUser (permBits cpu f.env f.t l).ap true)
    ⟨(sprrProt (f.ownAttr l) false).read, (sprrProt (f.ownAttr l) false).write, false⟩
    (decide (Denies (f.ownAttr l)))
  refine ⟨out, prot, ?_, fun hdenies => hexec (decide_eq_true hdenies)⟩
  unfold leafPerms
  rw [hout]
  dsimp only [bind, Except.bind]
  rw [if_neg hroot, if_pos f.sprr, hprot]
  dsimp only
  rw [hbits, hs1]
  rfl

/-! ## The report -/

theorem handleLeaf_eq {prot : Prot}
    (h : leafPerms cpu f.env f.t l = .ok (f.overwritten l, out, prot)) :
    handleLeaf cpu f.env f.t l =
      if prot.exec = false ∧ GrantsGuarded (f.attrWith l (decide (Denies (f.ownAttr l)))) then
        .error (.fault .gxfAbort (levelOf l.left))
      else if misaligned f.env f.t l then .error (.fault .alignment (levelOf l.left))
      else if prot.exec then .ok (leafResult cpu f.env f.t l out prot)
      else .error (.fault .permission (levelOf l.left)) := by
  have haborts : gxfAborts cpu f.env f.t (f.overwritten l) prot = .ok (decide (prot.exec = false ∧
        GrantsGuarded (f.attrWith l (decide (Denies (f.ownAttr l)))))) := by
    unfold gxfAborts
    cases hexec : prot.exec with
    | true => simp
    | false =>
      rw [if_pos ⟨f.fetch, f.sprr, by simp [f.plain], by simp⟩,
        pteToSprrProtIsGuarded_eq f.env f.sprr]
      simp only [bind, Except.bind, true_and, Except.ok.injEq]
      exact Bool.decide_eq_true.symm
  have hcovers : prot.covers f.t.inProtCheck = prot.exec := by
    rw [f.check]
    simp [Prot.covers]
  unfold handleLeaf
  rw [h]
  dsimp only [bind, Except.bind]
  rw [haborts]
  simp [hcovers]

theorem report_eq_fault_iff (hleaf : f.leaf = some l) (type : ARMFaultType) (level : ℤ) :
    f.report = .error (.fault type level) ↔
      handleLeaf cpu f.env f.t l = .error (.fault type level) := by
  have hreport : f.report = (walk cpu f.env f.t f.answers).report := rfl
  rcases walk_reports cpu f.env f.t l hleaf with heq | ⟨res, fault, hok, heq⟩
  · rw [hreport, heq]
  -- The swap of the descriptor failed, after the leaf was found to be in order.
  · rw [hreport, heq, hok]
    exact iff_of_false (by simp) (by simp)

/-- The permissions of the leaf deny the fetch. -/
def Denied (l : Leaf) : Prop :=
  ∃ b out prot, leafPerms cpu f.env f.t l = .ok (b, out, prot) ∧ prot.exec = false

theorem report_spec (hleaf : f.leaf = some l) :
    (f.report = .error (.fault .gxfAbort (levelOf l.left)) ↔
      f.Denied l ∧ GrantsGuarded (f.attrWith l (decide (Denies (f.ownAttr l))))) ∧
    (f.report = .error (.fault .permission (levelOf l.left)) ↔
      f.Denied l ∧ ¬ GrantsGuarded (f.attrWith l (decide (Denies (f.ownAttr l)))) ∧
        misaligned f.env f.t l = false) ∧ (Denies (f.ownAttr l) → f.Denied l) := by
  obtain ⟨out, prot, hperms, hexec⟩ := f.leafPerms_eq (walk_space hleaf)
  have hdenied : f.Denied l ↔ prot.exec = false := by
    constructor
    · rintro ⟨b, out', prot', heq, hprot⟩
      rw [hperms] at heq
      cases heq
      exact hprot
    · exact fun hprot => ⟨_, _, _, hperms, hprot⟩
  rw [f.report_eq_fault_iff hleaf, f.report_eq_fault_iff hleaf, f.handleLeaf_eq hperms, hdenied]
  refine ⟨?_, ?_, hexec⟩
  · split_ifs <;> simp_all
  · split_ifs <;> simp_all

/-! ## When the report follows the leaf's own attribute -/

/-- The leaf's own attribute says that guarded execution may fetch what ordinary execution may
not. -/
def Owed (l : Leaf) : Prop := Denies (f.ownAttr l) ∧ GrantsGuarded (f.ownAttr l)

/-- The report on a leaf is the one its own attribute asks for. -/
structure ClassifiedAt (l : Leaf) : Prop where
  /-- An abort of guarded execution is reported when it is owed. -/
  abort : f.report = .error (.fault .gxfAbort (levelOf l.left)) ↔ f.Owed l
  /-- A denied fetch is a permission fault otherwise. -/
  permission : f.Denied l → ¬ f.Owed l → f.report = .error (.fault .permission (levelOf l.left))

/-- What makes the second lookup say the same of guarded execution as the leaf's own attribute. -/
structure AgreesAt (l : Leaf) : Prop where
  /-- Where the leaf's own attribute denies execution, the attribute with both execute-never bits
  set has the same to say of guarded execution. -/
  denying : Denies (f.ownAttr l) → (GrantsGuarded (f.attrWith l true) ↔ GrantsGuarded (f.ownAttr l))
  /-- Where the fetch is denied although the leaf's own attribute grants it, the attribute with both
  execute-never bits clear does not grant it to guarded execution. -/
  granting : f.Denied l → ¬ Denies (f.ownAttr l) → ¬ GrantsGuarded (f.attrWith l false)
  /-- No other denied fetch has an alignment fault. -/
  aligned : f.Denied l → ¬ f.Owed l → misaligned f.env f.t l = false

/-- One leaf is reported as its own attribute asks when the lookups agree. -/
theorem classifiedAt_iff (hleaf : f.leaf = some l) : f.ClassifiedAt l ↔ f.AgreesAt l := by
  obtain ⟨habort, hpermission, hdenies⟩ := f.report_spec hleaf
  by_cases hown : Denies (f.ownAttr l)
  -- The first lookup denies, so the second one has both execute-never bits set.
  · have hdenied := hdenies hown
    rw [decide_eq_true hown] at habort hpermission
    constructor
    · intro h
      refine ⟨fun _ => ⟨?_, ?_⟩, fun _ hn => absurd hown hn, ?_⟩
      · exact fun hgl => (h.abort.mp (habort.mpr ⟨hdenied, hgl⟩)).2
      · exact fun hgl => (habort.mp (h.abort.mpr ⟨hown, hgl⟩)).2
      · exact fun hd ho => (hpermission.mp (h.permission hd ho)).2.2
    · intro h
      have hagree := h.denying hown
      refine ⟨habort.trans ⟨?_, ?_⟩, fun hd ho => hpermission.mpr ⟨hd, ?_, h.aligned hd ho⟩⟩
      · exact fun hgl => ⟨hown, hagree.mp hgl.2⟩
      · exact fun ho => ⟨hdenied, hagree.mpr ho.2⟩
      · exact fun hgl => ho ⟨hown, hagree.mp hgl⟩
  -- The first lookup grants, so an abort is not owed, and the second one has both bits clear.
  · have hnot : ¬ f.Owed l := fun ho => hown ho.1
    rw [decide_eq_false hown] at habort hpermission
    constructor
    · intro h
      refine ⟨fun hn => absurd hn hown, fun hd _ => ?_, fun hd ho => ?_⟩
      · exact (hpermission.mp (h.permission hd hnot)).2.1
      · exact (hpermission.mp (h.permission hd ho)).2.2
    · intro h
      refine ⟨iff_of_false ?_ hnot, fun hd ho => hpermission.mpr ⟨hd, ?_, h.aligned hd ho⟩⟩
      · exact fun hr => h.granting (habort.mp hr).1 hown (habort.mp hr).2
      · exact h.granting hd hown

/-- The walk reports what the attribute of the leaf that it got to asks for. -/
def Classified : Prop := ∀ l, f.leaf = some l → f.ClassifiedAt l

/-- The two lookups agree on the leaf that the walk got to. -/
def Agrees : Prop := ∀ l, f.leaf = some l → f.AgreesAt l

end Fetch

/-- A denied fetch is reported as the attribute that its leaf's bits select asks for, just when that
attribute and the one that is looked up after the bits were overwritten agree on guarded
execution. -/
theorem sprr_abort_iff (cpu : MmuCpu) (f : Fetch cpu) : f.Classified ↔ f.Agrees := by
  constructor
  · exact fun h l hleaf => (f.classifiedAt_iff hleaf).mp (h l hleaf)
  · exact fun h l hleaf => (f.classifiedAt_iff hleaf).mpr (h l hleaf)

/-! ## A permission register for which they do not -/

/-- The A13, as far as a walk looks at it. -/
def mmuA13 : MmuCpu where
  toARMCPU := appleA13.toARMCPU
  pan3 := true
  sel2 := false
  parange := 6

/-- Code at EL1 with SPRR enabled. The attribute of the index 2 is for guarded execution to run and
for ordinary execution not to touch; all the others deny everything. -/
def sprrCode : MmuState where
  toCPUARMState := CPUARMState.zeroAt 1
  sprrConfigEl el := if el = 1 then 1 else 0
  sprrElBrEl1 _ := 0x400
  mairEl _ := 0xFF
  sprr_low := by decide

/-- A fetch whose walk has two levels, of 16 KiB tables. The page is not executable at EL0, which
makes it one of the index 2. -/
def missedFetch : Fetch mmuA13 where
  env := sprrCode
  t := {
    inMmuIdx := .stage1E1
    inSpace := .nonSecure
    inAt := false
    inProtCheck := ⟨false, false, true⟩
    address := 0x4000
    accessType := .instFetch
    aBits := 0
    param := {
      tsz := 28
      ps := 1
      sh := 0
      select := false
      tbi := false
      epd := false
      hpd := false
      tszOob := false
      ds := false
      ha := false
      hd := false
      gran := .gran16K }
    ttbr := 0x800000000
    load := fun _ descaddr =>
      if descaddr = 0x800000000 then .ok 0x800004003
      else if descaddr = 0x800004008 then .ok 0x40000800008403
      else .error .syncExternalOnWalk }
  answers := []
  fetch := rfl
  check := rfl
  sprr := rfl
  plain := rfl
  regime := rfl
  root := nofun
  realm := nofun

/-- The leaf of that fetch. -/
def missedLeaf : Leaf where
  left := 0
  tableattrs := 0
  space := .nonSecure
  descriptor := 0x40000800008403
  newDescriptor := 0x40000800008403
  descaddr := 0x800008000

/-- The page is one that guarded execution may run and ordinary execution may not, and yet the fetch
is reported as a permission fault. -/
theorem sprr_abort_missed : missedFetch.leaf = some missedLeaf ∧ missedFetch.Owed missedLeaf ∧
      missedFetch.report = .error (.fault .permission 3) ∧ ¬ missedFetch.Classified := by
  have hleaf : missedFetch.leaf = some missedLeaf := rfl
  have howed : missedFetch.Owed missedLeaf := ⟨by decide, by decide⟩
  have hreport : missedFetch.report = .error (.fault .permission 3) := rfl
  refine ⟨hleaf, howed, hreport, fun h => ?_⟩
  have habort := (h missedLeaf hleaf).abort.mpr howed
  rw [hreport] at habort
  simp at habort

end Inferno.Ptw
