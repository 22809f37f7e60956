import Inferno.Ptw.GxfAbort

/-!
# Writes of the SPRR registers

The system registers of `hw/arm/apple-silicon/a13_gxf.c` that hold the permission attributes
(`SPRR`) and the masks for them (`MPRR`). A write from EL1 or above replaces the whole register.
User code can write one of them, `SPRR_EL0BR0_EL1`, and there `sprr_perm_el0_write` lets it change
only what the mask exposes: it takes the sixteen attributes one after another, each with two bits of
the mask.

A round of that loop is described bit by bit (`getLsbD_sprrPermRound`): it changes the two lowest
bits of its own attribute and no other bit, so the rounds do not interfere
(`getLsbD_sprrPermRounds`). User code cannot write the masks, and what a mask does not expose stays
as it is however often user code writes (`sprr_perm_el0_write_confined`).
-/

namespace Inferno.Ptw

open Common Gxf BitVec Function

/-! ## Registers -/

/-- The registers of `apple_a13_gxf_cp_reginfo` that SPRR has. -/
inductive SprrReg where
  /-- `SPRR_CONFIG_EL0` and `SPRR_CONFIG_EL1`. -/
  | sprrConfig (el : Fin 2)
  /-- `SPRR_EL0BR0_EL1`, `SPRR_EL0BR1_EL1`, `SPRR_EL1BR0_EL1` and `SPRR_EL1BR1_EL1`. -/
  | sprr (el br : Fin 2)
  /-- `MPRR_EL0BR0_EL1`, `MPRR_EL0BR1_EL1`, `MPRR_EL1BR0_EL1` and `MPRR_EL1BR1_EL1`. -/
  | mprr (el br : Fin 2)
  deriving DecidableEq

/-- The processor state with the registers of SPRR. -/
structure SprrState extends CPUARMState where
  sprrRegs : SprrReg → BitVec 64

def pl1Rw : BitVec 8 := 0xFC

def pl0R : BitVec 8 := 0xAA

def pl0Rw : BitVec 8 := 0xFF

/-- The access rights of a register. -/
def SprrReg.access : SprrReg → BitVec 8
  | .sprr 0 0 => pl0Rw
  | .sprr 0 1 => pl1Rw ||| pl0R
  | _ => pl1Rw

def cpAccessOk (currentEl : EL) (ri : SprrReg) (isread : Bool) : Bool :=
  ri.access.getLsbD (currentEl.toNat * 2 + isread.toNat)

variable (env : SprrState) (ri : SprrReg)

def rawRead : BitVec 64 := env.sprrRegs ri

def rawWrite (value : BitVec 64) : SprrState :=
  { env with sprrRegs := update env.sprrRegs ri value }

/-! ## Writes -/

def aprrExtractIdxAttr (aprrValue : BitVec 64) (idx : ℕ) : BitVec 64 :=
  (aprrValue >>> (idx <<< 2)) &&& 7

/-- `SPRR_MASK_EXTRACT_IDX_ATTR`, of a mask of 32 bits. -/
def sprrMaskExtractIdxAttr (sprrMaskValue : BitVec 32) (idx : ℕ) : BitVec 64 :=
  (sprrMaskValue >>> (idx <<< 1)).setWidth 64 &&& 3

variable (mask : BitVec 32) (value perm : BitVec 64)

/-- The attribute that a round of the loop of `sprr_perm_el0_write` puts in place of the old one:
only bits that are set in the mask change. -/
def resultPerm (i : ℕ) : BitVec 64 :=
  let umask : BitVec 32 := (sprrMaskExtractIdxAttr mask i).setWidth 32
  let requestedPerm := aprrExtractIdxAttr value i
  let origPerm := aprrExtractIdxAttr perm i
  let changedPerm := (requestedPerm ^^^ origPerm) &&& umask.setWidth 64
  (origPerm &&& ~~~changedPerm) ||| (requestedPerm &&& changedPerm)

/-- A round of the loop: the register after it. -/
def sprrPermRound (i : ℕ) : BitVec 64 :=
  (perm &&& ~~~((7 : BitVec 64) <<< (i <<< 2))) ||| (resultPerm mask value perm i <<< (i <<< 2))

/-- The first `n` rounds of the loop. -/
def sprrPermRounds (n : ℕ) : BitVec 64 :=
  (List.range n).foldl (sprrPermRound mask value) perm

/-- `MPRR_EL0BR0_EL1`, the mask for what user code writes. -/
def SprrReg.userMask : SprrReg := .mprr ⟨0, Nat.two_pos⟩ ⟨0, Nat.two_pos⟩

variable (mask : BitVec 32) (value perm : BitVec 64)

@[simp]
theorem userMask_eq : SprrReg.userMask = .mprr 0 0 := rfl

def sprrPermEl0Write (value : BitVec 64) : SprrState :=
  let perm := rawRead env ri
  let mask : BitVec 32 := (env.sprrRegs .userMask).setWidth 32
  if armCurrentEl env.toCPUARMState ≠ 0 then rawWrite env ri value
  else rawWrite env ri (sprrPermRounds mask value perm 16)

/-- The write function of a register. -/
def SprrReg.writefn (value : BitVec 64) : SprrState :=
  match ri with
  | .sprr 0 0 => sprrPermEl0Write env ri value
  | _ => rawWrite env ri value

/-- `MSR` of a register at the current exception level. A write that the access rights do not allow
is an undefined instruction, which leaves the registers as they are. -/
def msr (write : SprrReg × BitVec 64) : SprrState :=
  if cpAccessOk (armCurrentEl env.toCPUARMState) write.1 false then write.1.writefn env write.2
  else env

/-! ## The loop -/

theorem getLsbD_aprrExtractIdxAttr (v : BitVec 64) (i k : ℕ) :
    (aprrExtractIdxAttr v i).getLsbD k = (v.getLsbD (4 * i + k) && decide (k < 3)) := by
  have hattr : aprrExtractIdxAttr v i = extract v (4 * i) 3 := by
    rw [aprrExtractIdxAttr, Nat.shiftLeft_eq, Nat.mul_comm i]
    rfl
  rw [hattr, getLsbD_extract _ _ _ _ (by decide)]

theorem getLsbD_sprrMaskExtractIdxAttr (i k : ℕ) :
    (sprrMaskExtractIdxAttr mask i).getLsbD k = (mask.getLsbD (2 * i + k) && decide (k < 2)) := by
  have hlow : (3 : BitVec 64) = lowMask 64 2 := rfl
  rw [sprrMaskExtractIdxAttr, hlow, getLsbD_and, getLsbD_lowMask _ _ (by decide),
    getLsbD_setWidth, Nat.shiftLeft_eq, Nat.mul_comm i]
  by_cases hk : k < 2
  · have hk64 : k < 64 := by omega
    simp [hk64]
  · simp [hk]

theorem getLsbD_resultPerm (i k : ℕ) : (resultPerm mask value perm i).getLsbD k =
      if k < 2 ∧ mask.getLsbD (2 * i + k) = true then value.getLsbD (4 * i + k)
      else (perm.getLsbD (4 * i + k) && decide (k < 3)) := by
  simp only [resultPerm, getLsbD_or, getLsbD_and, getLsbD_not, getLsbD_xor, getLsbD_setWidth,
    getLsbD_aprrExtractIdxAttr, getLsbD_sprrMaskExtractIdxAttr]
  by_cases hk : k < 2
  · have h3 : k < 3 := by omega
    have h32 : k < 32 := by omega
    have h64 : k < 64 := by omega
    simp only [hk, h3, h32, h64]
    cases mask.getLsbD (2 * i + k) <;> cases value.getLsbD (4 * i + k) <;>
      cases perm.getLsbD (4 * i + k) <;> rfl
  · by_cases h64 : k < 64 <;> simp [hk, h64]
    omega

/-- A round changes the bits of its own attribute that the mask exposes, and no others. -/
theorem getLsbD_sprrPermRound {i j : ℕ} (hj : j < 64) :
    (sprrPermRound mask value perm i).getLsbD j =
      if j / 4 = i ∧ j % 4 < 2 ∧ mask.getLsbD (2 * i + j % 4) = true then value.getLsbD j
      else perm.getLsbD j := by
  have hlow : (7 : BitVec 64) = lowMask 64 3 := rfl
  rw [sprrPermRound, Nat.shiftLeft_eq, Nat.mul_comm i, hlow]
  simp only [getLsbD_or, getLsbD_and, getLsbD_not, getLsbD_shiftLeft,
    getLsbD_lowMask _ _ (by decide : 3 ≤ 64), getLsbD_resultPerm, hj]
  by_cases hbelow : j < 4 * i
  · have hother : j / 4 ≠ i := by omega
    simp [hbelow, hother]
  · have hbit : 4 * i + (j - 4 * i) = j := by omega
    rw [hbit]
    by_cases hown : j / 4 = i
    · have hk : j - 4 * i = j % 4 := by omega
      rw [hk]
      by_cases h3 : j % 4 < 3
      · simp [hbelow, hown, h3]
      · have h2 : ¬ j % 4 < 2 := by omega
        simp [h2, h3]
    · have h3 : ¬ j - 4 * i < 3 := by omega
      have h2 : ¬ j - 4 * i < 2 := by omega
      simp [hown, h2, h3]

theorem getLsbD_sprrPermRounds (n : ℕ) {j : ℕ} (hj : j < 64) :
    (sprrPermRounds mask value perm n).getLsbD j =
      if j / 4 < n ∧ j % 4 < 2 ∧ mask.getLsbD (2 * (j / 4) + j % 4) = true then value.getLsbD j
      else perm.getLsbD j := by
  induction n with
  | zero => simp [sprrPermRounds]
  | succ n ih =>
    have hlast : sprrPermRounds mask value perm (n + 1) =
        sprrPermRound mask value (sprrPermRounds mask value perm n) n := by
      rw [sprrPermRounds, List.range_succ, List.foldl_append]
      rfl
    rw [hlast, getLsbD_sprrPermRound mask value _ hj, ih]
    -- The round `n` has the attribute that the rounds before it have not reached.
    by_cases hown : j / 4 = n
    · subst hown
      simp
    · have hlt : j / 4 < n + 1 ↔ j / 4 < n := by omega
      simp [hown, hlt]

/-! ## Writes from EL0 -/

/-- Whether the mask of user code exposes a bit of an attribute. -/
def SprrState.exposes (i b : ℕ) : Bool :=
  b < 2 && ((env.sprrRegs .userMask).setWidth 32).getLsbD (2 * i + b)

theorem cpAccessOk_el0_iff : cpAccessOk 0 ri false = true ↔ ri = .sprr 0 0 := by
  cases ri with
  | sprrConfig el => revert el; decide
  | sprr el br | mprr el br => revert el br; decide

/-- A write of user code: it changes the exposed bits of its own permission register, and nothing
else. -/
theorem msr_el0 {env : SprrState} (h : armCurrentEl env.toCPUARMState = 0)
    (write : SprrReg × BitVec 64) : (msr env write).toCPUARMState = env.toCPUARMState ∧
    (∀ ri ≠ .sprr 0 0, (msr env write).sprrRegs ri = env.sprrRegs ri) ∧
    ∀ i < 16, ∀ b < 4, ((msr env write).sprrRegs (.sprr 0 0)).getLsbD (4 * i + b) =
      if write.1 = .sprr 0 0 ∧ env.exposes i b = true then write.2.getLsbD (4 * i + b)
      else (env.sprrRegs (.sprr 0 0)).getLsbD (4 * i + b) := by
  obtain ⟨ri, value⟩ := write
  rw [msr, h]
  by_cases hri : ri = .sprr 0 0
  · subst hri
    have hwrite : SprrReg.writefn env (.sprr 0 0) value = rawWrite env (.sprr 0 0)
        (sprrPermRounds ((env.sprrRegs (.mprr 0 0)).setWidth 32) value
          (env.sprrRegs (.sprr 0 0)) 16) := by
      rw [SprrReg.writefn, sprrPermEl0Write, h]
      rfl
    rw [if_pos ((cpAccessOk_el0_iff _).mpr rfl)]
    rw [hwrite]
    refine ⟨rfl, fun ri hri => update_of_ne hri _ _, ?_⟩
    intro i hi b hb
    have hdiv : (4 * i + b) / 4 = i := by omega
    have hmod : (4 * i + b) % 4 = b := by omega
    rw [rawWrite]
    dsimp only
    rw [update_self, getLsbD_sprrPermRounds _ _ _ _ (by omega), hdiv, hmod]
    simp [SprrState.exposes, hi]
  · have hdenied : cpAccessOk 0 ri false ≠ true := fun hok => hri ((cpAccessOk_el0_iff ri).mp hok)
    rw [if_neg hdenied]
    refine ⟨rfl, fun _ _ => rfl, ?_⟩
    intro i _ b _
    simp [hri]

/-- A write from EL0 keeps the two high bits of every attribute, and sets each of the two low ones
to the requested bit if the mask exposes it and keeps it otherwise. However often user code writes,
and whichever registers, a bit that the mask does not expose stays as it is. -/
theorem sprr_perm_el0_write_confined (h : armCurrentEl env.toCPUARMState = 0) : (∀ value, ∀ i < 16,
      (∀ b < 2,
        ((sprrPermEl0Write env (.sprr 0 0) value).sprrRegs (.sprr 0 0)).getLsbD (4 * i + b) =
        if (env.sprrRegs (.mprr 0 0)).getLsbD (2 * i + b) = true then value.getLsbD (4 * i + b)
        else (env.sprrRegs (.sprr 0 0)).getLsbD (4 * i + b)) ∧
      (∀ b, 2 ≤ b → b < 4 →
        ((sprrPermEl0Write env (.sprr 0 0) value).sprrRegs (.sprr 0 0)).getLsbD (4 * i + b) =
          (env.sprrRegs (.sprr 0 0)).getLsbD (4 * i + b))) ∧
    ∀ writes, ∀ i < 16, ∀ b < 4, env.exposes i b = false →
      ((run msr env writes).sprrRegs (.sprr 0 0)).getLsbD (4 * i + b) =
        (env.sprrRegs (.sprr 0 0)).getLsbD (4 * i + b) := by
  have hwrite : ∀ value, sprrPermEl0Write env (.sprr 0 0) value = msr env (.sprr 0 0, value) := by
    intro value
    rw [msr, h, if_pos ((cpAccessOk_el0_iff _).mpr rfl)]
    rfl
  refine ⟨?_, ?_⟩
  · intro value i hi
    obtain ⟨-, -, hbits⟩ := msr_el0 h (.sprr 0 0, value)
    rw [hwrite]
    constructor
    · intro b hb
      have h32 : 2 * i + b < 32 := by omega
      rw [hbits i hi b (by omega)]
      simp [SprrState.exposes, hb, h32]
    · intro b hb hb4
      have h2 : ¬ b < 2 := by omega
      rw [hbits i hi b hb4]
      simp [SprrState.exposes, h2]
  · intro writes i hi b hb hexposed
    -- The level and the mask stay as well, so the next write is confined in the same way.
    have hinv : armCurrentEl (run msr env writes).toCPUARMState = 0 ∧
        (run msr env writes).exposes i b = false ∧
        ((run msr env writes).sprrRegs (.sprr 0 0)).getLsbD (4 * i + b) =
          (env.sprrRegs (.sprr 0 0)).getLsbD (4 * i + b) := by
      refine invariant_run (P := fun e : SprrState => armCurrentEl e.toCPUARMState = 0 ∧
        e.exposes i b = false ∧ (e.sprrRegs (.sprr 0 0)).getLsbD (4 * i + b) =
          (env.sprrRegs (.sprr 0 0)).getLsbD (4 * i + b)) ?_ ⟨h, hexposed, rfl⟩ writes
      rintro e write ⟨hel, hmask, hbit⟩
      obtain ⟨hcpu, hregs, hbits⟩ := msr_el0 hel write
      refine ⟨by rw [hcpu, hel], ?_, ?_⟩
      · rw [SprrState.exposes, hregs _ (by decide)]
        exact hmask
      · rw [hbits i hi b hb, hmask]
        simpa using hbit
    exact hinv.2.2

/-- The registers of a processor at EL0 whose mask exposes all of the low bits, while each attribute
has one of its high bits. -/
def userSprr : SprrState where
  toCPUARMState := .zeroAt 0
  sprrRegs
    | .sprr 0 0 => 0x4444444444444444
    | .mprr 0 0 => 0xFFFFFFFF
    | _ => 0

/-- There, a write of zeros and a write of ones leave the high bits of the first attribute. -/
theorem sprr_perm_el0_write_confined_user : armCurrentEl userSprr.toCPUARMState = 0 ∧
    ((run msr userSprr [(.sprr 0 0, 0), (.sprr 0 0, allOnes 64)]).sprrRegs
      (.sprr 0 0)).getLsbD 2 = true := by
  have hlevel : armCurrentEl userSprr.toCPUARMState = 0 := by decide
  have hkept := (sprr_perm_el0_write_confined userSprr hlevel).2
    [(.sprr 0 0, 0), (.sprr 0 0, allOnes 64)] 0 (by decide) 2 (by decide) rfl
  exact ⟨hlevel, hkept.trans rfl⟩

end Inferno.Ptw
