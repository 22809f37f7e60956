import Mathlib.Data.List.Basic

/-!
# Runs of a step function

A system that takes one operation after another is a step function on its states, and a run is the
fold of a list of operations. An invariant that every step preserves holds after every run
(`invariant_run`).

Where only some steps preserve it, `Guarded` says that each step of a run meets a condition on the
state it starts from, and `Throughout` that a property holds in every state that the run passes. If
the condition is exactly what a step needs in order to keep the property, the two are the same
(`throughout_iff_guarded`).

A view of the states simulates another system when each step shows as a step of that system; a run
then shows as the run of the operations that its steps show as (`run_trace`), with the same outputs
(`outputs_trace`).

Where a step can fail, a run goes on `Safely` as long as none does. When a view of the states tells
whether the next step fails, and shows the step as one of a system that does not fail, the runs that
go on safely are those whose operations meet a condition in that system (`safely_iff_guarded`).
-/

namespace Inferno.Common

open List Option

variable {σ ι : Type*} (step : σ → ι → σ)

/-- The state after a list of operations. -/
def run (s : σ) (ops : List ι) : σ := ops.foldl step s

variable {P : σ → Prop} {s : σ} {I : σ → Prop} {C G : σ → ι → Prop}

/-- No operation leaves the state as it is. -/
@[simp]
theorem run_nil (s : σ) : run step s [] = s := rfl

/-- The first operation is performed first. -/
@[simp]
theorem run_cons (s : σ) (i : ι) (ops : List ι) : run step s (i :: ops) = run step (step s i) ops :=
  rfl

/-- Two lists of operations are performed one after the other. -/
theorem run_append (s : σ) (ops ops' : List ι) :
    run step s (ops ++ ops') = run step (run step s ops) ops' :=
  foldl_append

variable {step}

/-- What holds after a step exactly if it holds before and the operation meets a condition holds
after a run exactly if it holds before and all operations meet the condition. -/
theorem run_iff_forall {C : ι → Prop} (hstep : ∀ s i, P (step s i) ↔ P s ∧ C i) (s : σ)
    (ops : List ι) : P (run step s ops) ↔ P s ∧ ∀ i ∈ ops, C i := by
  induction ops generalizing s with
  | nil => simp
  | cons i ops ih => rw [run_cons, ih, hstep, forall_mem_cons, and_assoc]

/-- What every step preserves holds after every run. -/
theorem invariant_run (hstep : ∀ s i, P s → P (step s i)) (h : P s) (ops : List ι) :
    P (run step s ops) := by
  induction ops generalizing s with
  | nil => exact h
  | cons i ops ih => exact ih (hstep s i h)

variable (step)

/-- `P` holds in every state that the run passes, the first and the last included. -/
def Throughout (P : σ → Prop) : σ → List ι → Prop
  | s, [] => P s
  | s, i :: ops => P s ∧ Throughout P (step s i) ops

/-- Every operation of the run meets `C` in the state it is performed in. -/
def Guarded (C : σ → ι → Prop) : σ → List ι → Prop
  | _, [] => True
  | s, i :: ops => C s i ∧ Guarded C (step s i) ops

instance decidableGuarded (C : σ → ι → Prop) [∀ s i, Decidable (C s i)] :
    ∀ s ops, Decidable (Guarded step C s ops)
  | _, [] => .isTrue trivial
  | s, i :: ops =>
    have := decidableGuarded C (step s i) ops
    inferInstanceAs (Decidable (_ ∧ _))

variable {step}

/-- The property holds in the first state of a run. -/
theorem Throughout.first {ops : List ι} (h : Throughout step P s ops) : P s := by
  cases ops with
  | nil => exact h
  | cons i ops => exact h.1

/-- `P` holds in every state of a run when it holds after each of its prefixes. -/
theorem throughout_iff_prefix {ops : List ι} :
    Throughout step P s ops ↔ ∀ pre, pre <+: ops → P (run step s pre) := by
  induction ops generalizing s with
  | nil => simp [Throughout]
  | cons i ops ih =>
    rw [Throughout, ih]
    constructor
    · rintro ⟨h, hrest⟩ pre hpre
      cases pre with
      | nil => exact h
      | cons j pre =>
        obtain ⟨rfl, hpre'⟩ := cons_prefix_cons.mp hpre
        exact hrest pre hpre'
    · intro h
      refine ⟨h [] nil_prefix, ?_⟩
      intro pre hpre
      exact h (i :: pre) (cons_prefix_cons.mpr ⟨rfl, hpre⟩)

/-- When `C` is exactly what a step needs to keep `P` in the states that meet an invariant `I`, the
runs that keep `P` are those whose steps all meet `C`. -/
theorem throughout_iff_guarded_of_invariant (hinv : ∀ s i, I s → I (step s i))
    (hstep : ∀ s i, I s → P s → (P (step s i) ↔ C s i)) (hs : I s) (h : P s) {ops : List ι} :
    Throughout step P s ops ↔ Guarded step C s ops := by
  induction ops generalizing s with
  | nil => simpa [Throughout, Guarded] using h
  | cons i ops ih =>
    have hs' := hinv s i hs
    constructor
    · rintro ⟨-, hrest⟩
      -- That `P` holds in the next state is what `C` is read off from.
      have hnext := hrest.first
      exact ⟨(hstep s i hs h).mp hnext, (ih hs' hnext).mp hrest⟩
    · rintro ⟨hc, hrest⟩
      have hnext := (hstep s i hs h).mpr hc
      exact ⟨h, (ih hs' hnext).mpr hrest⟩

/-- The same when no invariant is needed. -/
theorem throughout_iff_guarded (hstep : ∀ s i, P s → (P (step s i) ↔ C s i)) (h : P s)
    {ops : List ι} : Throughout step P s ops ↔ Guarded step C s ops :=
  throughout_iff_guarded_of_invariant (I := fun _ => True) (fun _ _ _ => trivial)
    (fun s i _ => hstep s i) trivial h

/-- What an invariant gives holds in every state of a run. -/
theorem throughout_of_invariant (hinv : ∀ s i, I s → I (step s i)) (hP : ∀ s, I s → P s) (hs : I s)
    (ops : List ι) : Throughout step P s ops := by
  refine throughout_iff_prefix.mpr ?_
  intro pre _
  exact hP _ (invariant_run hinv hs pre)

/-- Two conditions that are the same in the states that meet an invariant are met by the same
runs. -/
theorem guarded_congr {D : σ → ι → Prop} (hinv : ∀ s i, I s → I (step s i))
    (hCD : ∀ s i, I s → (C s i ↔ D s i)) (hs : I s) (ops : List ι) :
    Guarded step C s ops ↔ Guarded step D s ops := by
  induction ops generalizing s with
  | nil => exact Iff.rfl
  | cons i ops ih => exact and_congr (hCD s i hs) (ih (hinv s i hs))

/-- The operations of a run in two parts meet a condition when those of both parts do. -/
theorem guarded_append {ops ops' : List ι} : Guarded step C s (ops ++ ops') ↔
      Guarded step C s ops ∧ Guarded step C (run step s ops) ops' := by
  induction ops generalizing s with
  | nil => exact (and_iff_right trivial).symm
  | cons i ops ih => rw [cons_append, Guarded, Guarded, ih, run_cons, and_assoc]

/-- What an invariant gives for every operation is met by every run. -/
theorem guarded_of_invariant (hinv : ∀ s i, I s → I (step s i)) (hC : ∀ s i, I s → C s i) (hs : I s)
    {ops : List ι} : Guarded step C s ops := by
  induction ops generalizing s with
  | nil => trivial
  | cons i ops ih => exact ⟨hC s i hs, ih (hinv s i hs)⟩

section

variable (hinv : ∀ s i, I s → G s i → I (step s i))

include hinv

/-- What the operations that meet `G` preserve holds after every run of such operations. -/
theorem Guarded.invariant_run {ops : List ι} (h : Guarded step G s ops) (hs : I s) :
    I (run step s ops) := by
  induction ops generalizing s with
  | nil => exact hs
  | cons i ops ih => exact ih h.2 (hinv s i hs h.1)

/-- What such an invariant gives for every operation that meets `G` is met by the run. -/
theorem Guarded.of_invariant (hC : ∀ s i, I s → G s i → C s i) {ops : List ι}
    (h : Guarded step G s ops) (hs : I s) : Guarded step C s ops := by
  induction ops generalizing s with
  | nil => trivial
  | cons i ops ih => exact ⟨hC s i hs h.1, ih h.2 (hinv s i hs h.1)⟩

end

/-! ## Simulation -/

section Simulation

variable {τ κ α β : Type*} (step)

/-- What the operations of a run show as, each in the state it is performed in. -/
def trace (f : σ → ι → κ) : σ → List ι → List κ
  | _, [] => []
  | s, i :: ops => f s i :: trace f (step s i) ops

/-- What the operations of a run put out, each in the state it is performed in. -/
def outputs (out : σ → ι → Option α) : σ → List ι → List α
  | _, [] => []
  | s, i :: ops => (out s i).toList ++ outputs out (step s i) ops

variable {step} {astep : τ → κ → τ} {f : σ → ι → κ}

variable {out : σ → ι → Option α}

/-- What all operations of a run show as, in whatever state, is all that its trace has. -/
theorem forall_mem_trace {P : κ → Prop} {ops : List ι} (h : ∀ i ∈ ops, ∀ s, P (f s i)) {s : σ} :
    ∀ k ∈ trace step f s ops, P k := by
  induction ops generalizing s with
  | nil => simp [trace]
  | cons i ops ih =>
    intro k hk
    rcases mem_cons.mp hk with rfl | hk
    · exact h i mem_cons_self s
    · exact ih (fun j hj => h j (mem_cons_of_mem _ hj)) k hk

/-- What single operations put out is all that a run puts out. -/
theorem forall_mem_outputs {P : α → Prop} (h : ∀ s i a, out s i = some a → P a) {s : σ}
    {ops : List ι} : ∀ a ∈ outputs step out s ops, P a := by
  induction ops generalizing s with
  | nil => exact nofun
  | cons i ops ih =>
    intro a ha
    rcases mem_append.mp ha with hi | hops
    · exact h s i a (mem_toList.mp hi)
    · exact ih a hops

/-- Where the parts that single operations show as come from what they put out, so does the whole
that a run shows as. -/
theorem flatten_trace {g : α → List β} {f : σ → ι → List β}
    (h : ∀ s i, f s i = (out s i).toList.flatMap g) (s : σ) (ops : List ι) :
    (trace step f s ops).flatten = (outputs step out s ops).flatMap g := by
  induction ops generalizing s with
  | nil => rfl
  | cons i ops ih => rw [trace, flatten_cons, outputs, flatMap_append, ih, h]

section

variable (view : σ → τ) (hstep : ∀ s i, view (step s i) = astep (view s) (f s i)) (s : σ)

include hstep

/-- A run shows as the run of its trace. -/
theorem run_trace (ops : List ι) :
    view (run step s ops) = run astep (view s) (trace step f s ops) := by
  induction ops generalizing s with
  | nil => rfl
  | cons i ops ih =>
    rw [run_cons, ih, hstep, trace, run_cons]

/-- Where single outputs agree up to `g`, those of a run and of its trace do. -/
theorem outputs_trace {aout : τ → κ → Option α} (g : α → β)
    (hout : ∀ s i, (out s i).map g = (aout (view s) (f s i)).map g) (s : σ) (ops : List ι) :
    (outputs step out s ops).map g = (outputs astep aout (view s) (trace step f s ops)).map g := by
  induction ops generalizing s with
  | nil => rfl
  | cons i ops ih =>
    rw [outputs, trace, outputs, map_append, map_append, ih, hstep,
      ← toList_map, ← toList_map, hout]

end

end Simulation

/-! ## Steps that can fail -/

section Fallible

variable {τ : Type*} (fstep : σ → ι → Option σ)

/-- No step of the run fails, and every operation meets `C` in the state it is performed in. -/
def Safely (C : σ → ι → Prop) : σ → List ι → Prop
  | _, [] => True
  | s, i :: ops => C s i ∧ ∃ s', fstep s i = some s' ∧ Safely C s' ops

variable {fstep}

variable {C : σ → ι → Prop} {ops : List ι}

/-- A run goes on safely when every one of its operations succeeds and meets `C` in every state. -/
theorem safely_of_forall (h : ∀ i ∈ ops, ∀ s, C s i ∧ ∃ s', fstep s i = some s') (s : σ) :
    Safely fstep C s ops := by
  induction ops generalizing s with
  | nil => trivial
  | cons i ops ih =>
    obtain ⟨hC, s', hs'⟩ := h i mem_cons_self s
    exact ⟨hC, s', hs', ih (fun j hj => h j (mem_cons_of_mem i hj)) s'⟩

/-- What every step that does not fail preserves holds after every run without a failure. -/
theorem invariant_foldlM {P : σ → Prop} (hstep : ∀ s i s', P s → fstep s i = some s' → P s')
    {s s' : σ} (h : P s) (hrun : ops.foldlM fstep s = some s') : P s' := by
  induction ops generalizing s with
  | nil => exact some.inj hrun ▸ h
  | cons i ops ih =>
    obtain ⟨s₁, hfirst, hrest⟩ := bind_eq_some_iff.mp hrun
    exact ih (hstep s i s₁ h hfirst) hrest

/-- What holds after a step exactly if it holds before and the operation meets a condition holds
after a run without a failure exactly if it holds before and all operations meet the condition. -/
theorem foldlM_iff_forall {P : σ → Prop} {C : ι → Prop}
    (hstep : ∀ s i s', fstep s i = some s' → (P s' ↔ P s ∧ C i)) {s s' : σ}
    (hrun : ops.foldlM fstep s = some s') : P s' ↔ P s ∧ ∀ i ∈ ops, C i := by
  induction ops generalizing s with
  | nil =>
    obtain rfl : s = s' := some.inj hrun
    simp
  | cons i ops ih =>
    obtain ⟨s₁, hfirst, hrest⟩ := bind_eq_some_iff.mp hrun
    rw [ih hrest, hstep s i s₁ hfirst, forall_mem_cons, and_assoc]

/-- When a view tells which steps fail or do not meet `C`, and follows the steps, a run goes on
safely exactly when its operations meet the condition on the views. -/
theorem safely_iff_guarded (view : σ → τ) {astep : τ → ι → τ} {D : τ → ι → Prop}
    (hview : ∀ s i s', fstep s i = some s' → view s' = astep (view s) i)
    (hsafe : ∀ s i, C s i ∧ (fstep s i).isSome = true ↔ D (view s) i) (s : σ) (ops : List ι) :
    Safely fstep C s ops ↔ Guarded astep D (view s) ops := by
  induction ops generalizing s with
  | nil => exact Iff.rfl
  | cons i ops ih =>
    rw [Guarded, ← hsafe s i]
    constructor
    · rintro ⟨hc, s', hs', hrest⟩
      have hnext := (ih s').mp hrest
      rw [hview s i s' hs'] at hnext
      exact ⟨⟨hc, isSome_of_mem hs'⟩, hnext⟩
    · rintro ⟨⟨hc, hsome⟩, hrest⟩
      obtain ⟨s', hs'⟩ := isSome_iff_exists.mp hsome
      rw [← hview s i s' hs'] at hrest
      exact ⟨hc, s', hs', (ih s').mpr hrest⟩

end Fallible

end Inferno.Common
