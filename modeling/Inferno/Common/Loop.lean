import Mathlib.Logic.Function.Iterate
import Mathlib.Tactic.SplitIfs

/-!
# Loops

`loop cond body` repeats `body` while `cond` holds, for a bounded number of rounds. A loop whose
condition holds for its first rounds and then fails ends there (`loop_eq_iterate`), and one whose
condition always holds has no result whatever the bound (`loop_eq_none`). The bound does not matter
to the result (`loop_inj`).
-/

namespace Inferno.Common

variable {σ : Type*} (cond : σ → Bool) (body : σ → σ)

/-- The state in which the loop ends, if it does so within `fuel` tests of the condition. -/
def loop : ℕ → σ → Option σ
  | 0, _ => none
  | fuel + 1, s => if cond s then loop fuel (body s) else some s

variable {cond body}

/-- A loop that goes on for `n` rounds, and no more, ends with what they leave. -/
theorem loop_eq_iterate {n : ℕ} {s : σ} (h : ∀ k ≤ n, cond (body^[k] s) = decide (k < n)) :
    loop cond body (n + 1) s = some (body^[n] s) := by
  induction n generalizing s with
  | zero =>
    have hstop : cond s = false := h 0 (Nat.le_refl 0)
    rw [loop, hstop]
    rfl
  | succ n ih =>
    have hfirst : cond s = true := (h 0 (Nat.zero_le _)).trans (decide_eq_true (Nat.succ_pos n))
    rw [loop, if_pos hfirst]
    refine ih fun k hk => (h (k + 1) (Nat.succ_le_succ hk)).trans ?_
    exact decide_eq_decide.mpr Nat.succ_lt_succ_iff

/-- A loop does not end if its condition holds under an invariant of its body. -/
theorem loop_eq_none {I : σ → Prop} (hbody : ∀ s, I s → I (body s))
    (hcond : ∀ s, I s → cond s = true) (fuel : ℕ) {s : σ} (h : I s) :
    loop cond body fuel s = none := by
  induction fuel generalizing s with
  | zero => rfl
  | succ fuel ih =>
    rw [loop, if_pos (hcond s h)]
    exact ih (hbody s h)

/-- All bounds within which a loop ends give the same state. -/
theorem loop_inj {fuel fuel' : ℕ} {s t t' : σ} (h : loop cond body fuel s = some t)
    (h' : loop cond body fuel' s = some t') : t = t' := by
  induction fuel generalizing fuel' s with
  | zero => cases h
  | succ fuel ih =>
    cases fuel' with
    | zero => cases h'
    | succ fuel' =>
      rw [loop] at h h'
      split_ifs at h h'
      · exact ih h h'
      · exact (Option.some.inj h).symm.trans (Option.some.inj h')

end Inferno.Common
