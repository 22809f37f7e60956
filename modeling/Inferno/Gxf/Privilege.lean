import Inferno.Gxf.Exception

/-!
# Exception returns and privilege

An exception return restores the program state from a register that the code before it can have
written. `ERET` checks what it restores: the mode has to be one that exists, its level must not be
above the current one, it has to be implemented and to have the width it is configured for.
Otherwise the return is illegal and the level stays (`eret_sound`).

`GEXIT` checks nothing. It masks the bits that are not part of the program state and writes the
rest, the mode among them. So it is sound exactly if the mode in `SPSR_GL` would have passed those
checks (`exception_returns_sound_iff`). Guarded code at EL1 can put EL3 there, on a processor
without EL3 (`gexit_gains_privilege`).
-/

namespace Inferno.Gxf

open Common Option

/-! ## Legal modes -/

/-- The level is implemented. -/
structure ARMCPU.Implements (cpu : ARMCPU) (el : EL) : Prop where
  el2 : el = 2 → cpu.el2 = true
  el3 : el = 3 → cpu.el3 = true

/-- The modes of AArch64: every level has its own stack pointer or that of EL0. -/
def modes64 : List (BitVec 4) := [0, 4, 5, 8, 9, 12, 13]

/-- The modes of AArch32 that are not the monitor mode: `usr`, `fiq`, `irq`, `svc`, `abt`, `hyp`,
`und` and `sys`. -/
def modes32 : List (BitVec 5) := [0x10, 0x11, 0x12, 0x13, 0x17, 0x1A, 0x1B, 0x1F]

/-- The current mode exists on the processor as it is configured. -/
structure LegalMode (cpu : ARMCPU) (env : CPUARMState) : Prop where
  /-- It is a mode of AArch64, if that is executed. -/
  named64 : env.aarch64 = true → env.pstate.setWidth 4 ∈ modes64
  /-- It is a mode of AArch32, if that is executed, and the processor has it. -/
  named32 : env.aarch64 = false → env.mode ∈ modes32 ∧ cpu.aa32 = true
  implemented : cpu.Implements (armCurrentEl env)
  /-- Above EL0, it has the width that is configured. -/
  width : armCurrentEl env ≠ 0 → armElIsAa64 cpu env (armCurrentEl env) = env.aarch64

/-- A return from one state to another that gains no privilege and ends in a mode that exists. -/
structure Sound (cpu : ARMCPU) (env env' : CPUARMState) : Prop where
  /-- The level is not above the one before. -/
  level : armCurrentEl env' ≤ armCurrentEl env
  /-- The mode exists. -/
  legal : LegalMode cpu env'

/-- A processor that executes AArch64 in a mode that exists. -/
structure Executing (cpu : ARMCPU) where
  env : CPUARMState
  aarch64 : env.aarch64 = true
  /-- The word of the interrupt masks has no other bits. -/
  daif : env.daif &&& ~~~pstateDaif = 0
  legal : LegalMode cpu env

/-! ## What `ERET` accepts -/

variable {spsr : BitVec 32}

/-- What `el_from_spsr` accepts for AArch64. -/
theorem elFromSpsr_aa64 {el : EL} (hnrw : spsr.getLsbD 4 = false) (h : elFromSpsr spsr = some el) :
    spsr.setWidth 4 ∈ modes64 ∧ el = spsr.extractLsb' 2 2 := by
  unfold elFromSpsr at h
  rw [if_neg (by rw [hnrw]; decide)] at h
  split_ifs at h with h1 hone
  obtain rfl := some.inj h
  refine ⟨?_, rfl⟩
  have hbit : (spsr.setWidth 4).getLsbD 1 = false := by
    simpa using h1
  revert hbit hone
  generalize spsr.setWidth 4 = mode
  revert mode
  decide

/-- What `el_from_spsr` accepts for AArch32. -/
theorem elFromSpsr_aa32 {el : EL} (hnrw : spsr.getLsbD 4 = true) (h : elFromSpsr spsr = some el) :
    spsr.setWidth 5 ∈ modes32 ∧ el = if spsr.setWidth 5 = (0x10 : BitVec 5) then 0
        else if spsr.setWidth 5 = (0x1A : BitVec 5) then 2 else 1 := by
  unfold elFromSpsr at h
  dsimp only at h
  revert h
  generalize spsr.setWidth 5 = mode
  intro h
  split_ifs at h with h0 h2
  · obtain rfl := some.inj h
    exact ⟨by rw [h0]; decide, by rw [if_pos h0]⟩
  · obtain rfl := some.inj h
    exact ⟨by rw [h2]; decide, by rw [if_neg h0, if_pos h2]⟩
  · obtain rfl := some.inj h
    refine ⟨?_, by rw [if_neg h0, if_neg h2]⟩
    revert mode
    decide

/-- What a level that `ERET` returns to has passed. -/
structure Accepted (cpu : ARMCPU) (env : CPUARMState) (spsr : BitVec 32) (el : EL) : Prop where
  /-- The program state names the level. -/
  named : elFromSpsr spsr = some el
  level : el ≤ armCurrentEl env
  el2 : el = 2 → armIsEl2Enabled cpu env = true
  /-- Above EL0, the level has the width it is configured for. -/
  width : el ≠ 0 → armElIsAa64 cpu env el = !spsr.getLsbD 4
  aa32 : spsr.getLsbD 4 = true → cpu.aa32 = true

variable {cpu : ARMCPU}

/-- The checks of `ERET`. -/
theorem returnEl_accepted {env : CPUARMState} {spsr : BitVec 32} {el : EL}
    (h : returnEl cpu env spsr = some el) : Accepted cpu env spsr el := by
  unfold returnEl at h
  cases hnamed : elFromSpsr spsr with
  | none => simp [hnamed] at h
  | some newEl =>
    simp only [hnamed] at h
    split_ifs at h with hlevel hscr hwidth haa32
    obtain rfl := some.inj h
    rw [not_or] at hlevel
    refine ⟨hnamed, BitVec.not_lt.mp hlevel.1, ?_, ?_, ?_⟩
    · intro hel
      simpa [hel] using hlevel.2
    · intro hel
      exact not_not.mp fun hne => hwidth ⟨hel, hne⟩
    · intro hbit
      simpa [hbit] using haa32

theorem returnEl_saveSp (cpu : ARMCPU) {env : CPUARMState} (el : EL) (spsr : BitVec 32) :
    returnEl cpu (aarch64SaveSp cpu env el) spsr = returnEl cpu env spsr := by
  obtain ⟨h64, hpstate, hcpsr, hscr, hhcr, -⟩ := aarch64SaveSp_frame cpu env el
  have hel := armCurrentEl_congr h64 (congrArg (BitVec.extractLsb' 2 2) hpstate) hcpsr
  simp [returnEl, hel, armIsEl2Enabled_congr cpu hscr, armElIsAa64_congr cpu hscr hhcr,
    armHcrEl2Eff_congr cpu hscr hhcr]

/-! ## Where the returns end -/

theorem legalMode_aa64 (cpu : ARMCPU) {env env' : CPUARMState} {mode : BitVec 32}
    (haarch64 : env'.aarch64 = true) (hmode : env'.pstate.setWidth 4 = mode.setWidth 4)
    (hscr : env'.scrEl3 = env.scrEl3) (hhcr : env'.hcrEl2 = env.hcrEl2) :
    armCurrentEl env' = mode.extractLsb' 2 2 ∧
      (LegalMode cpu env' ↔ mode.setWidth 4 ∈ modes64 ∧ cpu.Implements (mode.extractLsb' 2 2) ∧
        (mode.extractLsb' 2 2 ≠ 0 → armElIsAa64 cpu env (mode.extractLsb' 2 2) = true)) := by
  have hel : armCurrentEl env' = mode.extractLsb' 2 2 := by
    unfold armCurrentEl
    rw [if_pos haarch64]
    exact extractLsb_eq_of_setWidth (by decide) hmode
  refine ⟨hel, ?_, ?_⟩
  · rintro ⟨h64, -, himpl, hwidth⟩
    rw [hel] at himpl hwidth
    rw [haarch64, armElIsAa64_congr cpu hscr hhcr] at hwidth
    exact ⟨hmode ▸ h64 haarch64, himpl, hwidth⟩
  · rintro ⟨h64, himpl, hwidth⟩
    refine ⟨fun _ => hmode.symm ▸ h64, ?_, hel.symm ▸ himpl, ?_⟩
    · intro h32
      simp [haarch64] at h32
    · rw [hel, haarch64, armElIsAa64_congr cpu hscr hhcr]
      exact hwidth

variable (s : Executing cpu)

theorem Executing.mode_spec : armCurrentEl s.env = s.env.pstate.extractLsb' 2 2 ∧
      (LegalMode cpu s.env ↔ s.env.pstate.setWidth 4 ∈ modes64 ∧
        cpu.Implements (s.env.pstate.extractLsb' 2 2) ∧
        (s.env.pstate.extractLsb' 2 2 ≠ 0 →
          armElIsAa64 cpu s.env (s.env.pstate.extractLsb' 2 2) = true)) :=
  legalMode_aa64 cpu s.aarch64 rfl rfl rfl

theorem Accepted.implements {s : Executing cpu} {spsr : BitVec 32} {el : EL}
    (h : Accepted cpu s.env spsr el) : cpu.Implements el where
  el2 := by
    intro hel
    have hen := h.el2 hel
    unfold armIsEl2Enabled at hen
    rw [Bool.and_eq_true] at hen
    exact hen.1
  el3 := by
    rintro rfl
    -- Only EL3 itself returns to EL3.
    have hcur : armCurrentEl s.env = 3 := by
      have hle := h.level
      bv_omega
    exact s.legal.implemented.el3 hcur

theorem illegalReturn_mode (cpu : ARMCPU) {env : CPUARMState}
    (hdaif : env.daif &&& ~~~pstateDaif = 0) (spsr : BitVec 32) (newPc : BitVec 64) :
    (illegalReturn cpu env spsr newPc).pstate.setWidth 4 = env.pstate.setWidth 4 := by
  have hil : (env.pstate ||| pstateIl).setWidth 4 = env.pstate.setWidth 4 :=
    setWidth_or_of_zero (by decide)
  have hkept : ∀ read : BitVec 32,
      ((spsr &&& illegalReturnBits) ||| (read &&& ~~~illegalReturnBits)).setWidth 4 =
        read.setWidth 4 := by
    intro read
    have hrestored : (spsr &&& illegalReturnBits).setWidth 4 = 0#4 :=
      setWidth_and_of_zero (by decide)
    rw [BitVec.or_comm, setWidth_or_of_zero hrestored]
    exact setWidth_and_of_allOnes (by decide)
  -- None of the bits that an illegal return restores is one of the mode.
  unfold illegalReturn
  rw [written_mode, hkept]
  have hread : (pstateRead { env with pstate := env.pstate ||| pstateIl, pc := newPc }).setWidth 4 =
      (env.pstate ||| pstateIl).setWidth 4 := pstateRead_mode hdaif
  exact hread.trans hil

theorem illegalReturn_sound (spsr : BitVec 32) (newPc : BitVec 64) : Sound cpu s.env
      (illegalReturn cpu (aarch64SaveSp cpu s.env (armCurrentEl s.env)) spsr newPc) := by
  have hdaif : (aarch64SaveSp cpu s.env (armCurrentEl s.env)).daif &&& ~~~pstateDaif = 0 := by
    rw [aarch64SaveSp_daif]
    exact s.daif
  have hmode := illegalReturn_mode cpu hdaif spsr newPc
  rw [(aarch64SaveSp_frame cpu s.env _).2.1] at hmode
  obtain ⟨h64, hscr, hhcr, -⟩ :=
    illegalReturn_frame cpu (aarch64SaveSp cpu s.env (armCurrentEl s.env)) spsr newPc
  simp only [aarch64SaveSp_frame] at h64 hscr hhcr
  obtain ⟨hel, hlegal⟩ := legalMode_aa64 cpu (h64.trans s.aarch64) hmode hscr hhcr
  obtain ⟨hel', hlegal'⟩ := s.mode_spec
  refine ⟨?_, hlegal.mpr (hlegal'.mp s.legal)⟩
  rw [hel, hel']
  exact BitVec.le_refl _

theorem returnToAa64_sound {cpu : ARMCPU} (s : Executing cpu) {spsr : BitVec 32} {el : EL}
    (h : Accepted cpu s.env spsr el) (hnrw : spsr.getLsbD 4 = false) (newPc : BitVec 64) :
    Sound cpu s.env
      (returnToAa64 cpu (aarch64SaveSp cpu s.env (armCurrentEl s.env)) spsr newPc el) := by
  obtain ⟨hnamed, rfl⟩ := elFromSpsr_aa64 hnrw h.named
  have hmode : (returnToAa64 cpu (aarch64SaveSp cpu s.env (armCurrentEl s.env)) spsr newPc
      (spsr.extractLsb' 2 2)).pstate.setWidth 4 = spsr.setWidth 4 := by
    simp only [returnToAa64, aarch64RestoreSp_frame]
    exact (written_mode cpu _ _).trans (masked_mode cpu)
  obtain ⟨h64, hscr, hhcr, -⟩ :=
    returnToAa64_frame cpu (aarch64SaveSp cpu s.env (armCurrentEl s.env)) spsr newPc
      (spsr.extractLsb' 2 2)
  simp only [aarch64SaveSp_frame] at hscr hhcr
  obtain ⟨hel, hlegal⟩ := legalMode_aa64 cpu h64 hmode hscr hhcr
  refine ⟨hel.symm ▸ h.level, hlegal.mpr ⟨hnamed, h.implements, ?_⟩⟩
  intro hne
  rw [h.width hne, hnrw]
  rfl

section

variable (cpu : ARMCPU) (env : CPUARMState) (val : BitVec 32)

/-- A raw write of `CPSR` writes the mode bits. -/
theorem cpsrWriteRaw_mode : (cpsrWriteRaw env val cpu.cpsrValidMask).mode = val.setWidth 5 := by
  -- The mask has the mode bits, so nothing of them is kept.
  have hmask : (cpu.cpsrValidMask &&& ~~~cachedCpsrBits).setWidth 5 = BitVec.allOnes 5 := by
    have hvalid : (0xFE1FFFFF : BitVec 32).setWidth 5 = BitVec.allOnes 5 := by decide
    rw [setWidth_and_of_allOnes (by decide), ARMCPU.cpsrValidMask, BitVec.setWidth_or, hvalid,
      BitVec.allOnes_or]
  have hkept : (env.uncachedCpsr &&& ~~~(cpu.cpsrValidMask &&& ~~~cachedCpsrBits)).setWidth 5 =
      0#5 := by
    refine setWidth_and_of_zero ?_
    rw [BitVec.setWidth_not (by decide), hmask, BitVec.not_allOnes]
  unfold CPUARMState.mode cpsrWriteRaw
  dsimp only
  rw [BitVec.or_comm, setWidth_or_of_zero hkept]
  exact setWidth_and_of_allOnes hmask

/-- The mode bits of `CPSR` after a return to AArch32 are those of the saved program state. -/
theorem returnToAa32_mode (spsr : BitVec 32) (newPc : BitVec 64) :
    (returnToAa32 cpu env spsr newPc).mode = spsr.setWidth 5 := by
  have hsquash : ∀ env : CPUARMState, (squashSs cpu env).mode = env.mode := by
    intro env
    simp [CPUARMState.mode]
  -- Only the bits 21 and 24 are moved before the write.
  have hval : ∀ val : BitVec 32,
      (if val.getLsbD 24 then (val &&& ~~~0x1000000) ||| 0x200000 else val).setWidth 5 =
        val.setWidth 5 := by
    intro val
    split_ifs
    · rw [setWidth_or_of_zero (by decide)]
      exact setWidth_and_of_allOnes (by decide)
    · rfl
  have hss : (spsr &&& ~~~pstateSs).setWidth 5 = spsr.setWidth 5 :=
    setWidth_and_of_allOnes (by decide)
  calc (returnToAa32 cpu env spsr newPc).mode
      = (cpsrWriteFromSpsrElx cpu { env with aarch64 := false } spsr).mode := hsquash _
    _ = _ := cpsrWriteRaw_mode cpu _ _
    _ = (spsr &&& ~~~pstateSs).setWidth 5 := hval _
    _ = spsr.setWidth 5 := hss

theorem armCurrentEl_of_aa32 {env : CPUARMState} (h : env.aarch64 = false) : armCurrentEl env =
      if env.mode = 0x10 then 0
      else if env.mode = 0x1A then 2
      else if env.mode = 0x16 then 3
      else 1 := by
  unfold armCurrentEl
  rw [if_neg (by rw [h]; decide)]

theorem returnToAa32_sound {cpu : ARMCPU} (s : Executing cpu) {spsr : BitVec 32} {el : EL}
    (h : Accepted cpu s.env spsr el) (hnrw : spsr.getLsbD 4 = true) (newPc : BitVec 64) :
    Sound cpu s.env
      (returnToAa32 cpu (aarch64SaveSp cpu s.env (armCurrentEl s.env)) spsr newPc) := by
  obtain ⟨hnamed, hlevel⟩ := elFromSpsr_aa32 hnrw h.named
  have hmode := returnToAa32_mode cpu (aarch64SaveSp cpu s.env (armCurrentEl s.env)) spsr newPc
  obtain ⟨h32, hscr, hhcr, -⟩ :=
    returnToAa32_frame cpu (aarch64SaveSp cpu s.env (armCurrentEl s.env)) spsr newPc
  simp only [aarch64SaveSp_frame] at hscr hhcr
  have hel : armCurrentEl (returnToAa32 cpu (aarch64SaveSp cpu s.env (armCurrentEl s.env)) spsr
      newPc) = el := by
    have hmon : spsr.setWidth 5 ≠ (0x16 : BitVec 5) := by
      intro h
      rw [h] at hnamed
      revert hnamed
      decide
    rw [armCurrentEl_of_aa32 h32, hmode, if_neg hmon, hlevel]
  refine ⟨hel.symm ▸ h.level, ⟨?_, ?_, hel.symm ▸ h.implements, ?_⟩⟩
  · intro h64
    exact absurd (h32.symm.trans h64) Bool.false_ne_true
  · intro _
    exact ⟨hmode.symm ▸ hnamed, h.aa32 hnrw⟩
  · rw [hel, h32, armElIsAa64_congr cpu hscr hhcr]
    intro hne
    rw [h.width hne, hnrw]
    rfl

/-! ## The returns -/

/-- The instructions that return. -/
inductive Return where
  | eret | gexit
  deriving DecidableEq

/-- The state after a return. -/
def performReturn : Return → CPUARMState
  | .eret => eret cpu env
  | .gexit => gexit cpu env

end

theorem Executing.sound_refl : Sound cpu s.env s.env :=
  ⟨BitVec.le_refl _, s.legal⟩

/-- `ERET` is sound, whatever the saved program state is. -/
theorem eret_sound : Sound cpu s.env (eret cpu s.env) := by
  unfold eret
  by_cases h0 : armCurrentEl s.env = 0
  · rw [if_pos h0]
    exact s.sound_refl
  · rw [if_neg h0]
    unfold exceptionReturn
    dsimp only
    cases hreturn : returnEl cpu (aarch64SaveSp cpu s.env (armCurrentEl s.env))
        (eretSpsr cpu s.env) with
    | none => exact illegalReturn_sound s _ _
    | some el =>
      have haccepted : Accepted cpu s.env (eretSpsr cpu s.env) el := by
        refine returnEl_accepted ?_
        rw [← hreturn]
        exact (returnEl_saveSp cpu _ _).symm
      dsimp only
      by_cases hnrw : (eretSpsr cpu s.env).getLsbD 4 = true
      · rw [if_pos hnrw]
        exact returnToAa32_sound s haccepted hnrw _
      · rw [if_neg hnrw]
        exact returnToAa64_sound s haccepted (Bool.eq_false_iff.mpr hnrw) _

/-- The program state in `SPSR_GL` names a mode that exists and is not above the current one. -/
structure GexitLegal (cpu : ARMCPU) (env : CPUARMState) : Prop where
  /-- It is a mode of AArch64. -/
  named : (env.spsrGl (armCurrentEl env)).setWidth 4 ∈ modes64
  level : (env.spsrGl (armCurrentEl env)).extractLsb' 2 2 ≤ armCurrentEl env
  implemented : cpu.Implements ((env.spsrGl (armCurrentEl env)).extractLsb' 2 2)
  /-- Above EL0, its level is AArch64. -/
  width : (env.spsrGl (armCurrentEl env)).extractLsb' 2 2 ≠ 0 →
    armElIsAa64 cpu env ((env.spsrGl (armCurrentEl env)).extractLsb' 2 2) = true

/-- `GEXIT` is sound exactly if the program state in `SPSR_GL` is legal. -/
theorem gexit_sound_iff (hguarded : armIsGuarded cpu s.env = true) :
    Sound cpu s.env (gexit cpu s.env) ↔ GexitLegal cpu s.env := by
  obtain ⟨h64, hscr, hhcr, -⟩ := gexit_frame hguarded
  have hmode : (gexit cpu s.env).pstate.setWidth 4 = (gexitSpsr cpu s.env).setWidth 4 := by
    simp only [gexit, hguarded, helperGexit, aarch64RestoreSp_frame]
    exact written_mode cpu _ _
  obtain ⟨hel, hlegal⟩ := legalMode_aa64 cpu (h64.trans s.aarch64) hmode hscr hhcr
  -- The mode that is written is the one in `SPSR_GL`, whatever that is.
  have hnamed := gexitSpsr_mode cpu s.env
  have hlevel : (gexitSpsr cpu s.env).extractLsb' 2 2 =
      (s.env.spsrGl (armCurrentEl s.env)).extractLsb' 2 2 :=
    extractLsb_eq_of_setWidth (by decide) hnamed
  rw [hlevel] at hel hlegal
  rw [hnamed] at hlegal
  constructor
  · rintro ⟨hle, hlegal'⟩
    obtain ⟨h1, h2, h3⟩ := hlegal.mp hlegal'
    exact ⟨h1, hel ▸ hle, h2, h3⟩
  · rintro ⟨h1, hle, h2, h3⟩
    exact ⟨hel.symm ▸ hle, hlegal.mpr ⟨h1, h2, h3⟩⟩

/-- From every state that executes AArch64 in a legal mode, with whatever program state is saved, a
return gains no privilege and ends in a legal mode, unless it is a `GEXIT` of guarded code with a
program state in `SPSR_GL` that is not legal. -/
theorem exception_returns_sound_iff (cpu : ARMCPU) (s : Executing cpu) (r : Return) :
    Sound cpu s.env (performReturn cpu s.env r) ↔
      (r = .gexit → armIsGuarded cpu s.env = true → GexitLegal cpu s.env) := by
  cases r with
  | eret => exact iff_of_true (eret_sound s) (by simp)
  | gexit =>
    by_cases hguarded : armIsGuarded cpu s.env = true
    · exact (gexit_sound_iff s hguarded).trans (by simp [hguarded])
    · have hsame : gexit cpu s.env = s.env := if_neg hguarded
      refine iff_of_true ?_ (fun _ h => absurd h hguarded)
      rw [performReturn, hsame]
      exact s.sound_refl

/-- Code at EL1 after `GENTER` and a write of the guarded `SPSR`, on the processor of the A13. -/
def guardedWith (spsr : BitVec 64) : CPUARMState :=
  spsrEl1Write appleA13.toARMCPU
    (armCpuDoInterruptAarch64 appleA13.toARMCPU (.zeroAt 1) ⟨.genter, 0, 0, 1⟩) spsr

/-- It executes AArch64 at EL1, with the mode of EL3 in `SPSR_GL1`. -/
def guardedWithEl3 : Executing appleA13.toARMCPU where
  env := guardedWith 0xD
  aarch64 := by decide +kernel
  daif := by decide +kernel
  legal := ⟨by decide +kernel, by decide +kernel, ⟨by decide +kernel, by decide +kernel⟩,
    by decide +kernel⟩

/-- Guarded code at EL1 that writes the mode of EL3 to `SPSR_GL1` is at EL3 after `GEXIT`, on a
processor that has no EL3. One that writes a reserved mode is in that mode. -/
theorem gexit_gains_privilege :
    let cpu := appleA13.toARMCPU
    let env := guardedWithEl3.env
    (armCurrentEl env = 1 ∧ armIsGuarded cpu env = true ∧
        armCurrentEl (performReturn cpu env .gexit) = 3 ∧ cpu.el3 = false) ∧
      (performReturn cpu (guardedWith 0x6) .gexit).pstate.setWidth 4 = (0x6 : BitVec 4) ∧
      ¬ Sound cpu env (performReturn cpu env .gexit) ∧
      ¬ Sound cpu (guardedWith 0x6) (performReturn cpu (guardedWith 0x6) .gexit) := by
  refine ⟨by decide +kernel, by decide +kernel, ?_, ?_⟩
  · rintro ⟨hlevel, -⟩
    revert hlevel
    decide +kernel
  · rintro ⟨-, ⟨hnamed, -, -, -⟩⟩
    revert hnamed
    decide +kernel

end Inferno.Gxf
