import Inferno.Common.Outcome

/-!
# Two runs of the same operations

Two systems that differ in a secret go through the same operations. A relation between their states
that every pair of steps keeps holds after every pair of runs (`related_replies`). When the steps of
the two systems do not differ at all in the states of an invariant, neither do their runs
(`replies_congr`).
-/

namespace Inferno.Common

variable {σ ι κ : Type*} {fstep gstep : σ → ι → Option (κ × σ)}

/-- What every pair of steps keeps between the states of two systems holds after the same
operations. -/
theorem related_replies {R : σ → σ → Prop}
    (hstep : ∀ s t i k s' l t', R s t → fstep s i = some (k, s') → gstep t i = some (l, t') →
      R s' t') {s t s' t' : σ} {ops : List ι} {ks ls : List κ} (hst : R s t)
    (hs : replies fstep s ops = some (ks, s')) (ht : replies gstep t ops = some (ls, t')) :
    R s' t' := by
  induction ops generalizing s t ks ls with
  | nil =>
    obtain ⟨-, rfl⟩ := Prod.mk.inj (Option.some.inj hs)
    obtain ⟨-, rfl⟩ := Prod.mk.inj (Option.some.inj ht)
    exact hst
  | cons i ops ih =>
    obtain ⟨k, s₁, ks', hfirst, hrest, -⟩ := replies_cons_eq_some.mp hs
    obtain ⟨l, t₁, ls', hfirst', hrest', -⟩ := replies_cons_eq_some.mp ht
    exact ih (hstep s t i k s₁ l t₁ hst hfirst hfirst') hrest hrest'

/-- Two systems with the same steps in the states of an invariant have the same runs from there. -/
theorem replies_congr {I : σ → Prop} (hinv : ∀ s i k s', I s → fstep s i = some (k, s') → I s')
    (heq : ∀ s, I s → ∀ i, fstep s i = gstep s i) {s : σ} (hs : I s) {ops : List ι} :
    replies fstep s ops = replies gstep s ops := by
  induction ops generalizing s with
  | nil => rfl
  | cons i ops ih =>
    rw [replies, replies, ← heq s hs i]
    refine Option.bind_congr fun p hp => ?_
    have hfirst : fstep s i = some (p.1, p.2) := hp
    rw [ih (hinv s i p.1 p.2 hs hfirst)]

end Inferno.Common
