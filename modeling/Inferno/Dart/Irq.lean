import Inferno.Dart.Faults

/-!
# The interrupt line of the DART

The line is shared by the instances: it should be high exactly when one of them has an error
(`Coherent`). Register writes and translations keep it so. A reset clears every status and leaves
the line as it is, so it keeps the line coherent exactly when it finds it low, and the runs in
which the line is coherent throughout are those whose resets all do (`coherent_throughout_iff`).
-/

namespace Inferno.Dart

open Common List

def HasError (instances : List Instance) : Prop :=
  ∃ regs, .dart regs ∈ instances ∧ regs.error_status ≠ 0

variable (dart : AppleDARTState)

/-- The line is high when one of the instances has an error. -/
def Coherent : Prop := dart.irq = true ↔ HasError dart.instances

/-- A reset finds the line low. -/
def ResetsLow : Op → Prop
  | .reset => dart.irq = false
  | _ => True

variable {instances : List Instance} (cfg : Config)

/-- The loop of `apple_dart_update_irq` finds an error when there is one. -/
theorem findError_iff : findError instances = true ↔ HasError instances := by
  induction instances with
  | nil => simp [findError, HasError]
  | cons inst rest ih =>
    -- Only instances of the type `DART_DART` are looked at.
    have hcons : HasError (inst :: rest) ↔
        (∃ regs, inst = .dart regs ∧ regs.error_status ≠ 0) ∨ HasError rest := by
      constructor
      · rintro ⟨regs, hmem, hne⟩
        rcases mem_cons.mp hmem with h | h
        · exact .inl ⟨regs, h.symm, hne⟩
        · exact .inr ⟨regs, h, hne⟩
      · rintro (⟨regs, rfl, hne⟩ | ⟨regs, h, hne⟩)
        · exact ⟨regs, mem_cons_self, hne⟩
        · exact ⟨regs, mem_cons_of_mem _ h, hne⟩
    rw [hcons, ← ih]
    cases inst with
    | dart regs =>
      by_cases h : regs.error_status = 0
      · simp [findError]
      · rw [findError, if_neg h]
        exact iff_of_true rfl (.inl ⟨regs, rfl, h⟩)
    | _ => simp [findError]

/-- What `apple_dart_update_irq` leaves is coherent. -/
theorem coherent_updateIrq : Coherent dart.updateIrq :=
  findError_iff

/-- The registers of one instance are replaced by others with the same status: no error comes or
goes. -/
theorem hasError_set {instances : List Instance} {i : ℕ} {regs regs' : Regs}
    (hi : instances[i]? = some (.dart regs)) (h : regs'.error_status = regs.error_status) :
    HasError (instances.set i (.dart regs')) ↔ HasError instances := by
  have hlt : i < instances.length := (List.getElem?_eq_some_iff.mp hi).1
  constructor
  · rintro ⟨r, hmem, hne⟩
    rcases mem_or_eq_of_mem_set hmem with hr | hr
    · exact ⟨r, hr, hne⟩
    · obtain rfl := Instance.dart.inj hr
      rw [h] at hne
      exact ⟨regs, mem_of_getElem? hi, hne⟩
  · rintro ⟨r, hmem, hne⟩
    obtain ⟨j, hj⟩ := mem_iff_getElem?.mp hmem
    by_cases hij : i = j
    · subst hij
      rw [hi, Option.some.injEq, Instance.dart.injEq] at hj
      subst hj
      rw [← h] at hne
      exact ⟨regs', mem_set hlt _, hne⟩
    · refine ⟨r, mem_of_getElem? (i := j) ?_, hne⟩
      rw [getElem?_set_ne hij, hj]

theorem error_status_regWrite {regs : Regs} {addr : ℕ} (val : BitVec 32)
    (h : .updateIrq ∉ (regWrite cfg regs addr val).2) :
    (regWrite cfg regs addr val).1.error_status = regs.error_status := by
  unfold regWrite at h ⊢
  cases hl : label (addr / 4) with
  | errorStatus =>
    rw [hl] at h
    exact absurd (mem_singleton.mpr rfl) h
  | tlbOp =>
    dsimp only [tlbOp]
    split <;> rfl
  | tlbOpSetLow | tlbOpSetHigh =>
    dsimp only
    split <;> rfl
  | _ => rfl

/-- A translation that raises the line leaves an error, and one that does not leaves the status as
it is. -/
theorem error_status_translate (regs : Regs) (mem : Memory) (stream : ℕ) (addr : BitVec 64)
    (flag : IOMMUAccessFlags) : if (translate cfg regs mem stream addr flag).raised then
      (translate cfg regs mem stream addr flag).regs.error_status ≠ 0
    else (translate cfg regs mem stream addr flag).regs.error_status = regs.error_status := by
  -- Every report sets `FLAG`.
  have hflag : ∀ status bits, reported status bits stream ≠ 0 := by
    intro status bits hzero
    have hbit := getLsbD_reported status bits stream 31 (by norm_num)
    rw [hzero] at hbit
    simp at hbit
  by_cases hwalk : ¬ regs.busy ∧ regs.Translates stream
  · obtain ⟨hb, ht⟩ := hwalk
    cases hw : walkOf cfg regs mem stream addr with
    | error f =>
      rw [translate_eq cfg regs mem stream addr flag hb ht, hw]
      exact hflag _ _
    | ok pte =>
      have hraised : (translate cfg regs mem stream addr flag).raised =
          (writeFault flag pte || readFault flag pte) := by
        rw [translate_eq cfg regs mem stream addr flag hb ht, hw]
      rw [error_status_of_ok cfg regs mem stream addr flag hb ht hw, hraised]
      split_ifs
      · exact hflag _ _
      · rfl
  · obtain ⟨accesses, h⟩ := translate_of_not cfg regs mem stream addr flag hwalk
    rw [h]
    rfl

theorem not_hasError_reset (dart : AppleDARTState) : ¬ HasError (dart.reset cfg).instances := by
  rintro ⟨regs, hmem, hne⟩
  obtain ⟨inst, -, hinst⟩ := mem_map.mp hmem
  cases inst with
  | dart old =>
    obtain rfl := Instance.dart.inj hinst
    exact hne (reset_cleared cfg old).2
  | _ => exact absurd hinst (by simp)

/-- A step keeps the line coherent exactly when it is not a reset that finds it high. -/
theorem coherent_step_iff (dart : AppleDARTState) (op : Op) (h : Coherent dart) :
    Coherent (step cfg dart op) ↔ ResetsLow dart op := by
  cases op with
  | regWrite i addr val =>
    refine iff_of_true ?_ trivial
    dsimp only [step]
    split
    · rename_i regs hi
      -- The line is evaluated anew, or the status is the old one.
      split_ifs with hev
      · exact coherent_updateIrq _
      · have hstatus := error_status_regWrite cfg val hev
        exact h.trans (hasError_set hi hstatus).symm
    · exact h
  | translate i stream addr flag mem =>
    refine iff_of_true ?_ trivial
    dsimp only [step]
    split
    · rename_i regs hi
      have hstatus := error_status_translate cfg regs mem stream addr flag
      split_ifs at hstatus with hraised
      · -- The line goes high for the error that was just reported.
        rw [hraised, Bool.or_true]
        have hlt : i < dart.instances.length := (List.getElem?_eq_some_iff.mp hi).1
        exact iff_of_true rfl ⟨_, mem_set hlt _, hstatus⟩
      · rw [Bool.not_eq_true] at hraised
        rw [hraised, Bool.or_false]
        exact h.trans (hasError_set hi hstatus).symm
    · exact h
  | reset =>
    -- `apple_dart_reset` does not call `apple_dart_update_irq`.
    have hnone := not_hasError_reset cfg dart
    show (dart.irq = true ↔ HasError (dart.reset cfg).instances) ↔ dart.irq = false
    simp [hnone]

theorem coherent_fresh : Coherent (AppleDARTState.fresh instances) := by
  refine iff_of_false Bool.false_ne_true ?_
  rintro ⟨regs, hmem, hne⟩
  obtain ⟨inst, -, hinst⟩ := mem_map.mp hmem
  cases inst with
  | dart old =>
    obtain rfl := Instance.dart.inj hinst
    exact hne rfl
  | _ => exact absurd hinst (by simp)

/-- In a run from a fresh device the line is coherent in every state exactly when every reset
finds it low. -/
theorem coherent_throughout_iff (cfg : Config) (instances : List Instance) (ops : List Op) :
    Throughout (step cfg) Coherent (AppleDARTState.fresh instances) ops ↔
      Guarded (step cfg) ResetsLow (AppleDARTState.fresh instances) ops :=
  throughout_iff_guarded (coherent_step_iff cfg) coherent_fresh

/-- A translation without a table raises the line, and the reset that follows leaves it high
without an error. -/
theorem not_coherent_reset :
    ¬ Throughout (step sampleConfig) Coherent (AppleDARTState.fresh [.dart Regs.blank])
      [.regWrite 0 0x100 0x80, .translate 0 0 0 .ro (fun _ => none), .reset] := by
  intro h
  have hlast := throughout_iff_prefix.mp h _ prefix_rfl
  -- The line is still high.
  exact not_hasError_reset _ _ (hlast.mp (by decide))

end Inferno.Dart
