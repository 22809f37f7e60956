import Mathlib.Init

/-!
# Computations on a state that do not fail

A computation on a state may fail, and it changes the state. `ReturnsIn I x` says that from a state
with `I` it returns, in a state with `I`. Such computations compose (`ReturnsIn.bind`), and so do
the choices between them (`ReturnsIn.ite`), so that an invariant of single accesses holds throughout
a program made of them.
-/

namespace Inferno.Common

universe u

variable {σ α β : Type u} {I : σ → Prop}

/-- From every state with `I`, the computation returns, in a state with `I`. -/
def ReturnsIn (I : σ → Prop) (x : StateT σ Option α) : Prop :=
  ∀ s, I s → ∃ a s', x s = some (a, s') ∧ I s'

variable {x : StateT σ Option α} {f : α → StateT σ Option β}

/-- What returns has returned at every step. -/
theorem exists_of_bind_eq_some {s : σ} {p : β × σ} (h : (x >>= f) s = some p)
    : ∃ a s', x s = some (a, s') ∧ f a s' = some p := by
  obtain ⟨⟨a, s'⟩, hx, hf⟩ := Option.bind_eq_some_iff.mp h
  exact ⟨a, s', hx, hf⟩

/-- A value is returned and the state is left alone. -/
theorem ReturnsIn.pure (a : α) : ReturnsIn I (Pure.pure a) := by
  intro s hs
  exact ⟨a, s, rfl, hs⟩

/-- One computation after another. -/
theorem ReturnsIn.bind (hx : ReturnsIn I x) (hf : ∀ a, ReturnsIn I (f a))
    : ReturnsIn I (x >>= f) := by
  intro s hs
  obtain ⟨a, s', hreturns, hs'⟩ := hx s hs
  obtain ⟨b, s'', hreturns', hs''⟩ := hf a s' hs'
  refine ⟨b, s'', ?_, hs''⟩
  show (x s).bind (fun p => f p.1 p.2) = _
  rw [hreturns]
  exact hreturns'

/-- One of two computations. -/
theorem ReturnsIn.ite {p : Prop} [Decidable p] {x y : StateT σ Option α} (hx : p → ReturnsIn I x)
    (hy : ¬ p → ReturnsIn I y) : ReturnsIn I (if p then x else y) := by
  split
  · next h => exact hx h
  · next h => exact hy h

end Inferno.Common
