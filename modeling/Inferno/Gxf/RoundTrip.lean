import Inferno.Gxf.Exception
import Inferno.Common.Run

/-!
# `GENTER` and `GEXIT`

Code at EL1 that enters guarded execution is to find everything as it was when guarded code leaves
it again: program counter, program state, stack pointer and the ordinary bank of the registers. In
between, guarded code reads and writes the banked registers and its stack pointer, and leaves the
return address and the program state that the entry saved.

Entry and exit each change the bank in their middle: the stack pointer is saved under the status bit
before the change and restored under the one after it. The accesses in between see the guarded bank
only (`OnlyGuarded`), so that the exit finds in the ordinary bank what the entry left there.

Three things are not as before. The stack pointer in use is in `xregs[31]`, and its slot of `sp_el`
holds an older value; the entry saves it there. `PSTATE.SS` is cleared unless single-stepping is
active and debug exceptions are taken to EL1. And where nested virtualisation reports EL2 in the
saved program state, the exit ends at EL2; it is taken not to be in effect.
-/

namespace Inferno.Gxf

open Common BitVec Function

/-! ## Accesses of guarded code -/

/-- An access of guarded code. -/
inductive Access where
  | read (reg : BankedReg)
  | write (reg : BankedReg) (value : BitVec 64)
  | readSp
  | writeSp (value : BitVec 64)

/-- The state after an access. -/
def access (cpu : ARMCPU) (env : CPUARMState) : Access → CPUARMState
  | .read _ | .readSp => env
  | .write reg value => writeReg cpu env value reg
  | .writeSp value => { env with sp := value }

/-- Only registers of the guarded bank and the stack pointer in use differ. -/
def OnlyGuarded (env env' : CPUARMState) : Prop :=
  ∃ tpidr vbar spsr esr elr far sp, env' =
    { env with
      tpidrGl := tpidr, vbarGl := vbar, spsrGl := spsr, esrGl := esr, elrGl := elr, farGl := far
      sp := sp }

variable {env env' : CPUARMState} {cpu : ARMCPU}

theorem OnlyGuarded.refl {env : CPUARMState} : OnlyGuarded env env :=
  ⟨env.tpidrGl, env.vbarGl, env.spsrGl, env.esrGl, env.elrGl, env.farGl, env.sp, rfl⟩

theorem OnlyGuarded.trans {a b c : CPUARMState} (h : OnlyGuarded a b) (h' : OnlyGuarded b c) :
    OnlyGuarded a c := by
  obtain ⟨_, _, _, _, _, _, _, rfl⟩ := h
  obtain ⟨t, v, s, e, l, f, p, rfl⟩ := h'
  exact ⟨t, v, s, e, l, f, p, rfl⟩

theorem OnlyGuarded.guarded_eq (cpu : ARMCPU) (h : OnlyGuarded env env') :
    armIsGuarded cpu env' = armIsGuarded cpu env := by
  obtain ⟨_, _, _, _, _, _, _, rfl⟩ := h
  rfl

theorem onlyGuarded_access (h : armIsGuarded cpu env = true) (a : Access) :
    OnlyGuarded env (access cpu env a) := by
  cases a with
  | read reg | readSp => exact .refl
  | writeSp value =>
    exact ⟨env.tpidrGl, env.vbarGl, env.spsrGl, env.esrGl, env.elrGl, env.farGl, value, rfl⟩
  | write reg value =>
    cases reg <;> simp only [access, writeReg, tpidrEl1Write, vbarEl1Write, spsrEl1Write,
      elrEl1Write, esrEl1Write, farEl1Write, bankedWrite, h] <;>
      exact ⟨_, _, _, _, _, _, _, rfl⟩

theorem onlyGuarded_run (h : armIsGuarded cpu env = true) (accesses : List Access) :
    OnlyGuarded env (run (access cpu) env accesses) := by
  refine invariant_run (P := OnlyGuarded env) ?_ .refl accesses
  intro env' a henv'
  have hguarded : armIsGuarded cpu env' = true := (henv'.guarded_eq cpu).trans h
  exact henv'.trans (onlyGuarded_access hguarded a)

/-! ## Entry -/

def genterException (syndrome : BitVec 32) (vaddress : BitVec 64) : Exception :=
  ⟨.genter, syndrome, vaddress, 1⟩

/-- Code at EL1 that is not guarded. -/
structure Interrupted (cpu : GxfCpu) where
  env : CPUARMState
  aarch64 : env.aarch64 = true
  el1 : armCurrentEl env = 1
  nonGuarded : armIsGuarded cpu.toARMCPU env = false
  /-- The word of the interrupt masks has no other bits. -/
  daif : env.daif &&& ~~~pstateDaif = 0
  /-- The bits of `PSTATE` that have words of their own are not in `pstate`. -/
  uncached : env.pstate &&& cachedPstateBits = 0
  /-- Nested virtualisation does not report EL2. -/
  noNv : ∀ exc, reportsEl2 cpu.toARMCPU env exc = false

/-- The slot of the stack pointer in use. -/
def CPUARMState.spSlot (env : CPUARMState) : EL := if env.ownSp then armCurrentEl env else 0

theorem aarch64SaveSp_of_nonGuarded (h : armIsGuarded cpu env = false) :
    aarch64SaveSp cpu env (armCurrentEl env) =
      { env with spEl := update env.spEl env.spSlot env.sp } := by
  unfold aarch64SaveSp CPUARMState.spSlot
  rw [h]
  cases env.ownSp <;> rfl

theorem aarch64RestoreSp_of_guarded {el : EL} (hown : env.ownSp = true)
    (h : armIsGuarded cpu env = true) :
    aarch64RestoreSp cpu env el = { env with sp := env.spGl el } := by
  unfold aarch64RestoreSp
  rw [if_pos hown, if_pos h]

theorem aarch64RestoreSp_of_nonGuarded {el : EL} (h : armIsGuarded cpu env = false) :
    aarch64RestoreSp cpu env el = { env with sp := env.spEl (if env.ownSp then el else 0) } := by
  unfold aarch64RestoreSp
  rw [h]
  cases env.ownSp <;> rfl

theorem armIsGuarded_of_status (hgxf : cpu.gxf = true) {el : EL} (hel : armCurrentEl env = el)
    (hpos : 0 < el) (hbit : (env.gxfStatusEl el).getLsbD 0 = true) :
    armIsGuarded cpu env = true := by
  unfold armIsGuarded
  rw [hgxf, hel, hbit]
  simpa using hpos

theorem status_marked (status : EL → BitVec 64) (el : EL) :
    (update status el (status el ||| 1) el).getLsbD 0 = true := by
  simp

/-- The state after `GENTER`. -/
theorem genter_eq {cpu : GxfCpu} {s : Interrupted cpu} {syndrome : BitVec 32}
    {vaddress : BitVec 64} :
    let exc := genterException syndrome vaddress
    armCpuDoInterruptAarch64 cpu.toARMCPU s.env exc =
      { pstateWrite s.env (newMode cpu.toARMCPU s.env exc (pstateRead s.env)) with
        aarch64 := true
        pc := s.env.gxfEnterEl 1
        sp := s.env.spGl 1
        spEl := update s.env.spEl s.env.spSlot s.env.sp
        gxfStatusEl := update s.env.gxfStatusEl 1 (s.env.gxfStatusEl 1 ||| 1)
        spsrGl := update s.env.spsrGl 1 ((pstateRead s.env).setWidth 64)
        elrGl := update s.env.elrGl 1 s.env.pc } := by
  intro exc
  have hfault : recordFault cpu.toARMCPU s.env exc = s.env := rfl
  have hold : oldMode cpu.toARMCPU s.env exc = pstateRead s.env := by
    unfold oldMode
    rw [if_pos s.aarch64, s.noNv exc]
    rfl
  have hsave : saveReturn cpu.toARMCPU s.env exc =
      { s.env with
        spEl := update s.env.spEl s.env.spSlot s.env.sp
        elrGl := update s.env.elrGl 1 s.env.pc } := by
    have hbank : elrBank cpu.toARMCPU s.env exc = .gl := by
      unfold elrBank
      rw [s.aarch64]
      rfl
    simp only [saveReturn, hbank, s.aarch64, aarch64SaveSp_of_nonGuarded s.nonGuarded]
    rfl
  unfold armCpuDoInterruptAarch64
  dsimp only
  rw [hfault, hold, hsave, aarch64RestoreSp_of_guarded]
  · rfl
  · exact newMode_sp cpu.toARMCPU _ exc _
  · -- The level is EL1, whose status bit has just been set.
    refine armIsGuarded_of_status cpu.gxf_eq ?_ (by decide : (0 : EL) < 1) ?_
    · exact newMode_el cpu.toARMCPU _ exc _
    · exact status_marked s.env.gxfStatusEl 1

/-! ## Exit -/

/-- The ordinary bank of the registers, but for the stack pointers. -/
def CPUARMState.bank (env : CPUARMState) :=
  (env.tpidrEl, env.vbarEl, env.bankedSpsr, env.elrEl, env.esrEl, env.farEl)

/-- What `GEXIT` leaves, when guarded code at EL1 uses its own stack pointer and the program state
that is restored is one of EL1. -/
structure Exited (cpu : ARMCPU) (env env' : CPUARMState) : Prop where
  /-- The program counter is the guarded `ELR`. -/
  pc : env'.pc = env.elrGl 1
  /-- The program state is that of the guarded `SPSR`. -/
  pstate : pstateRead env' =
    if armSinglestepActive cpu (pstateWrite env (gexitSpsr cpu env)) then gexitSpsr cpu env
    else gexitSpsr cpu env &&& ~~~pstateSs
  /-- The stack pointer is the one that the program state selects. -/
  sp : env'.sp = env.spEl (if (gexitSpsr cpu env).getLsbD 0 then 1 else 0)
  nonGuarded : armIsGuarded cpu env' = false
  bank : env'.bank = env.bank
  spEl : env'.spEl = env.spEl

/-- `GEXIT` of guarded code at EL1. -/
theorem gexit_exited (hguarded : armIsGuarded cpu env = true) (h64 : env.aarch64 = true)
    (hel : armCurrentEl env = 1) (hown : env.ownSp = true)
    (hspsr : (gexitSpsr cpu env).extractLsb' 2 2 = 1) : Exited cpu env (gexit cpu env) := by
  have hsave : aarch64SaveSp cpu env 1 =
      { env with spGl := update env.spGl 1 env.sp } := by
    unfold aarch64SaveSp
    rw [if_pos hown, if_pos hguarded]
  obtain ⟨p, hp⟩ := squashSs_eq cpu
    (pstateWrite { env with spGl := update env.spGl 1 env.sp } (gexitSpsr cpu env))
  have hread := pstateRead_squashSs cpu { env with spGl := update env.spGl 1 env.sp }
    (gexitSpsr cpu env)
  have hmode := written_mode cpu { env with spGl := update env.spGl 1 env.sp } (gexitSpsr cpu env)
  rw [hp] at hread hmode
  have hlevel : p.extractLsb' 2 2 = 1 := (extractLsb_eq_of_setWidth (by decide) hmode).trans hspsr
  have hsp : p.getLsbD 0 = (gexitSpsr cpu env).getLsbD 0 := by
    have hbit := congrArg (fun w => w.getLsbD 0) hmode
    simpa using hbit
  -- The level stays EL1, and its status bit is cleared before the stack pointer is restored.
  have hnon : ∀ env' : CPUARMState, env'.aarch64 = true → env'.pstate = p →
      env'.gxfStatusEl 1 = env.gxfStatusEl 1 &&& ~~~1 → armIsGuarded cpu env' = false := by
    intro env' haarch64 hpstate hstatus
    have hcur : armCurrentEl env' = 1 := by
      unfold armCurrentEl
      rw [if_pos haarch64, hpstate, hlevel]
    unfold armIsGuarded
    rw [hcur, hstatus]
    simp
  have hcleared : update env.gxfStatusEl 1 (env.gxfStatusEl 1 &&& ~~~1) 1 =
      env.gxfStatusEl 1 &&& ~~~1 := update_self _ _ _
  unfold gexit helperGexit
  rw [if_pos hguarded]
  dsimp only
  rw [hel, hsave, hp, aarch64RestoreSp_of_nonGuarded]
  · refine ⟨rfl, hread, ?_, hnon _ h64 rfl hcleared, rfl, rfl⟩
    show env.spEl (if p.getLsbD 0 then 1 else 0) = _
    rw [hsp]
  · exact hnon _ h64 rfl hcleared

/-! ## In between -/

/-- Guarded code that was entered from the state `env`. -/
structure Inside (cpu : ARMCPU) (env env' : CPUARMState) : Prop where
  guarded : armIsGuarded cpu env' = true
  aarch64 : env'.aarch64 = true
  el1 : armCurrentEl env' = 1
  ownSp : env'.ownSp = true
  masked : env'.daif.getLsbD 9 = true
  /-- The stack pointer of the interrupted code is in its slot. -/
  spEl : env'.spEl = update env.spEl env.spSlot env.sp
  bank : env'.bank = env.bank
  security : env'.scrEl3 = env.scrEl3 ∧ env'.hcrEl2 = env.hcrEl2
  /-- The control of debug exceptions is as it was. -/
  debug : env'.mdscrEl1 = env.mdscrEl1 ∧ env'.mdcrEl2 = env.mdcrEl2 ∧ env'.mdcrEl3 = env.mdcrEl3 ∧
    env'.oslsrEl1 = env.oslsrEl1 ∧ env'.osdlrEl1 = env.osdlrEl1

/-- The state after `GENTER`. -/
theorem inside_genter {cpu : GxfCpu} (s : Interrupted cpu) (syndrome : BitVec 32)
    (vaddress : BitVec 64) : Inside cpu.toARMCPU s.env
      (armCpuDoInterruptAarch64 cpu.toARMCPU s.env (genterException syndrome vaddress)) := by
  have hmode := newMode_el cpu.toARMCPU s.env (genterException syndrome vaddress) (pstateRead s.env)
  have hstatus := status_marked s.env.gxfStatusEl 1
  rw [genter_eq]
  refine ⟨armIsGuarded_of_status cpu.gxf_eq hmode (by decide : (0 : EL) < 1) hstatus, rfl, hmode,
    newMode_sp cpu.toARMCPU s.env _ _, newMode_d cpu.toARMCPU s.env _ _, rfl,
    rfl, ⟨rfl, rfl⟩, ⟨rfl, rfl, rfl, rfl, rfl⟩⟩

theorem Inside.onlyGuarded {a b : CPUARMState} (h : Inside cpu env a) (hab : OnlyGuarded a b) :
    Inside cpu env b := by
  obtain ⟨_, _, _, _, _, _, _, rfl⟩ := hab
  exact ⟨h.guarded, h.aarch64, h.el1, h.ownSp, h.masked, h.spEl, h.bank, h.security, h.debug⟩

/-! ## The round trip -/

/-- The program state after the round trip: the valid bits of the one before, with `PSTATE.SS` only
where single-stepping is active and debug exceptions are taken to EL1. -/
def returnedPstate (cpu : ARMCPU) (env : CPUARMState) : BitVec 32 :=
  if armDebugTargetEl cpu env = 1 ∧ armSinglestepActive cpu env = true then
    pstateRead env &&& cpu.pstateValidMask
  else pstateRead env &&& cpu.pstateValidMask &&& ~~~pstateSs

theorem armGenerateDebugExceptions_el1 (h64 : env.aarch64 = true) (hel : armCurrentEl env = 1) :
    armGenerateDebugExceptions cpu env = (!(env.oslsrEl1.getLsbD 0 || env.osdlrEl1.getLsbD 0) &&
        !(armSecuritySpaceBelowEl3 cpu env = .secure && env.mdcrEl3.getLsbD 16) &&
        (armDebugTargetEl cpu env ≠ 1 || env.mdscrEl1.getLsbD 13 && !env.daif.getLsbD 9)) := by
  have htarget : armDebugTargetEl cpu env = 1 ∨ armDebugTargetEl cpu env = 2 := by
    unfold armDebugTargetEl
    split_ifs
    · exact .inr rfl
    · exact .inl rfl
  unfold armGenerateDebugExceptions aa64GenerateDebugExceptions
  rw [if_pos h64, hel]
  rcases htarget with h | h <;> rw [h] <;>
    cases env.oslsrEl1.getLsbD 0 <;> cases env.osdlrEl1.getLsbD 0 <;> simp

theorem Inside.debugTargetEl (h : Inside cpu env env') :
    armDebugTargetEl cpu env' = armDebugTargetEl cpu env := by
  unfold armDebugTargetEl
  rw [armIsEl2Enabled_congr cpu h.security.1, h.security.2, h.debug.2.1]

/-- Guarded code has no debug exceptions to EL1, because they are masked. -/
theorem Inside.generateDebug (h : Inside cpu env env') (h64 : env.aarch64 = true)
    (hel : armCurrentEl env = 1) : armGenerateDebugExceptions cpu env' =
      (armGenerateDebugExceptions cpu env && armDebugTargetEl cpu env ≠ 1) := by
  obtain ⟨hmdscr, hmdcr2, hmdcr3, hosl, hosd⟩ := h.debug
  have hspace : armSecuritySpaceBelowEl3 cpu env' = armSecuritySpaceBelowEl3 cpu env := by
    unfold armSecuritySpaceBelowEl3
    rw [h.security.1]
  rw [armGenerateDebugExceptions_el1 h.aarch64 h.el1, armGenerateDebugExceptions_el1 h64 hel,
    h.debugTargetEl, h.masked, hspace, hmdcr3, hosl, hosd]
  by_cases htarget : armDebugTargetEl cpu env = 1
  · simp [htarget]
  · have hdecide : decide (armDebugTargetEl cpu env ≠ 1) = true := decide_eq_true htarget
    rw [hdecide]
    simp

/-- The bit of a word of the program state that debug exceptions are masked by. -/
theorem pstateRead_d (hpstate : env.pstate &&& cachedPstateBits = 0) :
    (pstateRead env).getLsbD 9 = env.daif.getLsbD 9 := by
  have hbit : env.pstate.getLsbD 9 = false := by
    have h := congrArg (fun w => w.getLsbD 9) hpstate
    simpa [cachedPstateBits] using h
  unfold pstateRead
  by_cases hz : env.zf = 0
  · rw [if_pos hz]
    simp only [getLsbD_or, hbit]
    simp
  · rw [if_neg hz]
    simp only [getLsbD_or, hbit]
    simp

/-- The mask of the program state has the bits that mask interrupts. -/
theorem gexitSpsr_d {spsr : BitVec 32} (h : (env.spsrGl (armCurrentEl env)).setWidth 32 = spsr) :
    (gexitSpsr cpu env).getLsbD 9 = spsr.getLsbD 9 := by
  have hmask : cpu.pstateValidMask.getLsbD 9 = true := by
    simp only [ARMCPU.pstateValidMask]
    simp [pstateDaif]
  unfold gexitSpsr
  rw [h, getLsbD_and, hmask, Bool.and_true]
  split_ifs
  · simp [pstateSs]
  · rfl

section

variable (h : Inside cpu env env') (h64 : env.aarch64 = true) (hel : armCurrentEl env = 1)

include h h64 hel

/-- Single-stepping is active in the program state that is restored where it was before. -/
theorem Inside.singlestepActive {val : BitVec 32}
    (hval : (val &&& ~~~cachedPstateBits).extractLsb' 2 2 = 1)
    (hd : val.getLsbD 9 = env.daif.getLsbD 9) :
    armSinglestepActive cpu (pstateWrite env' val) = armSinglestepActive cpu env := by
  obtain ⟨hmdscr, hmdcr2, hmdcr3, hosl, hosd⟩ := h.debug
  have hcur : armCurrentEl (pstateWrite env' val) = 1 := by
    unfold armCurrentEl
    rw [if_pos (show (pstateWrite env' val).aarch64 = true from h.aarch64)]
    exact hval
  have hspace : armSecuritySpaceBelowEl3 cpu (pstateWrite env' val) =
      armSecuritySpaceBelowEl3 cpu env := by
    unfold armSecuritySpaceBelowEl3
    rw [show (pstateWrite env' val).scrEl3 = env.scrEl3 from h.security.1]
  have htarget : armDebugTargetEl cpu (pstateWrite env' val) = armDebugTargetEl cpu env :=
    h.debugTargetEl
  have hmask : (pstateWrite env' val).daif.getLsbD 9 = env.daif.getLsbD 9 := by
    rw [← hd]
    show (val &&& pstateDaif).getLsbD 9 = _
    simp [pstateDaif]
  have h64' : (pstateWrite env' val).aarch64 = true := h.aarch64
  unfold armSinglestepActive
  rw [armGenerateDebugExceptions_el1 h64' hcur, armGenerateDebugExceptions_el1 h64 hel, htarget,
    hspace, hmask,
    armElIsAa64_congr cpu (show (pstateWrite env' val).scrEl3 = env.scrEl3 from h.security.1)
      (show (pstateWrite env' val).hcrEl2 = env.hcrEl2 from h.security.2)]
  show (env'.mdscrEl1.getLsbD 0 && _ && (!(env'.oslsrEl1.getLsbD 0 || env'.osdlrEl1.getLsbD 0) &&
    !(_ && env'.mdcrEl3.getLsbD 16) && (_ || env'.mdscrEl1.getLsbD 13 && _))) = _
  rw [hmdscr, hosl, hosd, hmdcr3]

/-- The program state that `GEXIT` leaves. -/
theorem Inside.pstate_eq (hspsr : gexitSpsr cpu env' =
      (if armGenerateDebugExceptions cpu env' then pstateRead env &&& ~~~pstateSs
        else pstateRead env) &&& cpu.pstateValidMask)
    (hactive : armSinglestepActive cpu (pstateWrite env' (gexitSpsr cpu env')) =
      armSinglestepActive cpu env) :
    (if armSinglestepActive cpu (pstateWrite env' (gexitSpsr cpu env')) then gexitSpsr cpu env'
      else gexitSpsr cpu env' &&& ~~~pstateSs) = returnedPstate cpu env := by
  have hcomm : pstateRead env &&& ~~~pstateSs &&& cpu.pstateValidMask =
      pstateRead env &&& cpu.pstateValidMask &&& ~~~pstateSs := by
    rw [BitVec.and_assoc, and_comm (~~~pstateSs), ← BitVec.and_assoc]
  rw [hactive, hspsr, h.generateDebug h64 hel]
  unfold returnedPstate
  by_cases htarget : armDebugTargetEl cpu env = 1
  · -- Debug exceptions to EL1 are masked in guarded code, so `SS` is kept if it is used.
    simp [htarget]
  · have hdecide : decide (armDebugTargetEl cpu env ≠ 1) = true := decide_eq_true htarget
    simp only [hdecide, htarget, false_and, Bool.and_true, if_false]
    by_cases hgen : armGenerateDebugExceptions cpu env = true
    · -- Debug exceptions to EL2 are possible in guarded code, so `SS` is dropped at once.
      rw [if_pos hgen, hcomm, and_assoc (_ &&& _), BitVec.and_self, ite_self]
    · have hinactive : armSinglestepActive cpu env = false := by
        unfold armSinglestepActive
        rw [Bool.eq_false_iff.mpr hgen, Bool.and_false]
      rw [if_neg hgen, hinactive]
      rfl

end

/-- What the interrupted code finds after the round trip. -/
structure RoundTrip (cpu : ARMCPU) (env env' : CPUARMState) : Prop where
  pc : env'.pc = env.pc
  /-- The valid bits of the program state. -/
  pstate : pstateRead env' = returnedPstate cpu env
  sp : env'.sp = env.sp
  nonGuarded : armIsGuarded cpu env' = false
  bank : env'.bank = env.bank
  /-- The banked stack pointers, where the slot of the one in use now holds its value. -/
  spEl : env'.spEl = update env.spEl env.spSlot env.sp

/-- `GEXIT` of guarded code with the return address and the program state of the interrupted code.
-/
theorem Inside.roundTrip {cpu : GxfCpu} (s : Interrupted cpu) (h : Inside cpu.toARMCPU s.env env')
    (hspsr : env'.spsrGl 1 = (pstateRead s.env).setWidth 64) (helr : env'.elrGl 1 = s.env.pc) :
    RoundTrip cpu.toARMCPU s.env (gexit cpu.toARMCPU env') := by
  have hwidth : (env'.spsrGl (armCurrentEl env')).setWidth 32 = pstateRead s.env := by
    rw [h.el1, hspsr, setWidth_setWidth_of_le _ (by decide), setWidth_eq]
  have hgexit : gexitSpsr cpu.toARMCPU env' =
      (if armGenerateDebugExceptions cpu.toARMCPU env' then pstateRead s.env &&& ~~~pstateSs
        else pstateRead s.env) &&& cpu.toARMCPU.pstateValidMask := by
    unfold gexitSpsr
    rw [hwidth]
  -- The mode that is restored is that of the interrupted code.
  have hmode : (gexitSpsr cpu.toARMCPU env').setWidth 4 = s.env.pstate.setWidth 4 := by
    rw [gexitSpsr_mode, h.el1, hspsr, ← pstateRead_mode s.daif,
      setWidth_setWidth_of_le _ (by decide)]
  have hel1 : s.env.pstate.extractLsb' 2 2 = 1 := by
    have h1 := s.el1
    unfold armCurrentEl at h1
    rwa [if_pos s.aarch64] at h1
  have hlevel : (gexitSpsr cpu.toARMCPU env').extractLsb' 2 2 = 1 :=
    (extractLsb_eq_of_setWidth (by decide) hmode).trans hel1
  have hselect : (gexitSpsr cpu.toARMCPU env').getLsbD 0 = s.env.ownSp := by
    have hbit := congrArg (fun w => w.getLsbD 0) hmode
    simpa [CPUARMState.ownSp] using hbit
  have huncached : (gexitSpsr cpu.toARMCPU env' &&& ~~~cachedPstateBits).extractLsb' 2 2 = 1 := by
    rw [← hlevel]
    exact extractLsb_eq_of_setWidth (by decide : 2 + 2 ≤ 4) (setWidth_and_of_allOnes (by decide))
  have hd : (gexitSpsr cpu.toARMCPU env').getLsbD 9 = s.env.daif.getLsbD 9 :=
    (gexitSpsr_d hwidth).trans (pstateRead_d s.uncached)
  have hactive := h.singlestepActive s.aarch64 s.el1 huncached hd
  have hexit := gexit_exited h.guarded h.aarch64 h.el1 h.ownSp hlevel
  exact
    { pc := hexit.pc.trans helr
      pstate := hexit.pstate.trans (h.pstate_eq s.aarch64 s.el1 hgexit hactive)
      sp := by
        rw [hexit.sp, hselect, h.spEl, CPUARMState.spSlot, s.el1, update_self]
      nonGuarded := hexit.nonGuarded
      bank := hexit.bank.trans h.bank
      spEl := hexit.spEl.trans h.spEl }

section

variable (cpu : GxfCpu) (s : Interrupted cpu) (syndrome : BitVec 32) (vaddress : BitVec 64)
  (accesses : List Access)

/-- The state after `GENTER`. -/
def genter : CPUARMState :=
  armCpuDoInterruptAarch64 cpu.toARMCPU s.env (genterException syndrome vaddress)

/-- Code at EL1 that is not guarded executes `GENTER`; guarded code accesses its registers and its
stack pointer in any way, but leaves `SPSR_GL1` and `ELR_GL1` in the end as they were; then it
executes `GEXIT`. The interrupted code finds what it had. -/
theorem gxf_round_trip
    (hspsr : (run (access cpu.toARMCPU) (genter cpu s syndrome vaddress) accesses).spsrGl 1 =
      (genter cpu s syndrome vaddress).spsrGl 1)
    (helr : (run (access cpu.toARMCPU) (genter cpu s syndrome vaddress) accesses).elrGl 1 =
      (genter cpu s syndrome vaddress).elrGl 1) : RoundTrip cpu.toARMCPU s.env
      (gexit cpu.toARMCPU
        (run (access cpu.toARMCPU) (genter cpu s syndrome vaddress) accesses)) := by
  have hentered := inside_genter s syndrome vaddress
  have hspsr' : (genter cpu s syndrome vaddress).spsrGl 1 = (pstateRead s.env).setWidth 64 := by
    rw [genter, genter_eq]
    show update s.env.spsrGl 1 ((pstateRead s.env).setWidth 64) 1 = _
    rw [update_self]
  have helr' : (genter cpu s syndrome vaddress).elrGl 1 = s.env.pc := by
    rw [genter, genter_eq]
    show update s.env.elrGl 1 s.env.pc 1 = _
    rw [update_self]
  have hinside := hentered.onlyGuarded (onlyGuarded_run hentered.guarded accesses)
  exact hinside.roundTrip s (hspsr.trans hspsr') (helr.trans helr')

end

/-- Code at EL1 of the A13 with a stack pointer and `PSTATE.SS` set. -/
def el1Code : Interrupted appleA13 where
  env := { CPUARMState.zeroAt 1 with sp := 0x1000, pstate := 0x200005 }
  aarch64 := rfl
  el1 := by decide
  nonGuarded := by decide
  daif := by decide
  uncached := by decide
  noNv := by
    intro exc
    simp [reportsEl2, armHcrEl2Eff, armIsEl2Enabled, appleA13]

/-- Guarded code that changes `TPIDR_EL1` and its stack pointer leaves those of the interrupted
code. -/
theorem gxf_round_trip_el1Code : RoundTrip appleA13.toARMCPU el1Code.env
      (gexit appleA13.toARMCPU (run (access appleA13.toARMCPU) (genter appleA13 el1Code 0 0)
        [.write .tpidr 5, .writeSp 7])) :=
  gxf_round_trip appleA13 el1Code 0 0 [.write .tpidr 5, .writeSp 7] (by decide +kernel)
    (by decide +kernel)

/-- A processor with EL2. -/
def withEl2 : GxfCpu := { appleA13 with el2 := true }

/-- Code at EL1 under nested virtualisation, with `HCR_EL2.NV` and `HCR_EL2.RW` set. -/
def nestedCode : CPUARMState := { CPUARMState.zeroAt 1 with hcrEl2 := 0x40080000000 }

/-- After `GENTER` and `GEXIT` alone, `sp_el[1]` is the stack pointer, which it was not before, and
`PSTATE.SS` is clear. Under nested virtualisation, the code is then at EL2. -/
theorem gxf_round_trip_changes :
    let cpu := appleA13.toARMCPU
    let back := gexit cpu (genter appleA13 el1Code 0 0)
    (el1Code.env.spEl 1 = 0 ∧ back.spEl 1 = 0x1000) ∧
      ((pstateRead el1Code.env &&& cpu.pstateValidMask).getLsbD 21 = true ∧
        (pstateRead back).getLsbD 21 = false) ∧
      (armCurrentEl nestedCode = 1 ∧ armIsGuarded withEl2.toARMCPU nestedCode = false ∧
        armCurrentEl (gexit withEl2.toARMCPU
          (armCpuDoInterruptAarch64 withEl2.toARMCPU nestedCode (genterException 0 0))) = 2) := by
  decide +kernel

end Inferno.Gxf
