import Inferno.Common.Run

/-!
# When a computation succeeds

`Exactly x ok P` says of a computation that can fail that it succeeds exactly when `ok` holds, and
that what it then returns meets `P`. It is put together along the computation: what comes first has
to succeed for what comes next, which may rely on what the first returned (`Exactly.bind`).

For a system whose steps can fail, such a specification of a single step over a view of the states
says which runs go on: those whose operations meet the condition on the views
(`safely_iff_guarded_of_exactly`).
-/

namespace Inferno.Common

open Option Prod

universe u

section

variable {ε α β : Type*} {x : Except ε α}

/-- A computation with an error that returns has returned at every step. -/
theorem exists_of_bind_eq_ok {f : α → Except ε β} {b : β} (h : x.bind f = .ok b) :
    ∃ a, x = .ok a ∧ f a = .ok b := by
  cases x with
  | error e => cases h
  | ok a => exact ⟨a, rfl, h⟩

/-- A computation with an error goes on with what has been returned. -/
theorem bind_of_eq_ok {a : α} (h : x = .ok a) {f : α → Except ε β} : x.bind f = f a := by
  rw [h]
  rfl

end

section Rules

variable {α β : Type u}

/-- So does one without an error. -/
theorem some_bind (a : α) (f : α → Option β) : (some a >>= f) = f a := rfl

/-- `x` succeeds exactly when `ok`, and what it returns meets `P`. -/
structure Exactly (x : Option α) (ok : Prop) (P : α → Prop) : Prop where
  /-- What it has returned shows that the condition holds. -/
  of_some : ∀ {a}, x = some a → ok ∧ P a
  /-- It fails only when the condition does not hold. -/
  of_none : x = none → ¬ ok

variable {x : Option α} {ok ok' : Prop} {P Q : α → Prop} {R : β → Prop} {a : α}

variable {f : α → Option β}

/-- What is returned without any doing. -/
theorem exactly_some (hok : ok) (h : P a) : Exactly (some a) ok P where
  of_some hx := some.inj hx ▸ ⟨hok, h⟩
  of_none := nofun

/-- What fails. -/
theorem exactly_none (h : ¬ ok) : Exactly (none : Option α) ok P where
  of_some := nofun
  of_none _ := h

/-- The condition may be put differently, and the result described more loosely. -/
theorem Exactly.imp (h : Exactly x ok P) (hok : ok ↔ ok') (himp : ok → ∀ a, P a → Q a) :
    Exactly x ok' Q where
  of_some hx := by
    obtain ⟨hx, hP⟩ := h.of_some hx
    exact ⟨hok.mp hx, himp hx _ hP⟩
  of_none hx hok' := h.of_none hx (hok.mpr hok')

/-- What always succeeds does so under a condition that holds. -/
theorem Exactly.of_true (h : Exactly x True P) (hok : ok) : Exactly x ok P :=
  h.imp (iff_of_true trivial hok) fun _ _ hP => hP

/-- One computation after another. -/
theorem Exactly.bind (h : Exactly x ok P) (hf : ∀ a, P a → Exactly (f a) ok' R) :
    Exactly (x >>= f) (ok ∧ ok') R := by
  cases x with
  | none => exact exactly_none fun hboth => h.of_none rfl hboth.1
  | some a =>
    obtain ⟨hok, hP⟩ := h.of_some rfl
    exact (hf a hP).imp (and_iff_right hok).symm fun _ _ hR => hR

/-- What comes next always succeeds. -/
theorem Exactly.bind_true (h : Exactly x ok P) (hf : ∀ a, P a → Exactly (f a) True R) :
    Exactly (x >>= f) ok R :=
  (h.bind hf).imp (iff_of_eq (and_true ok)) fun _ _ hR => hR

/-- What comes first always succeeds. -/
theorem Exactly.true_bind (h : Exactly x True P) (hf : ∀ a, P a → Exactly (f a) ok R) :
    Exactly (x >>= f) ok R :=
  (h.bind hf).imp (iff_of_eq (true_and ok)) fun _ _ hR => hR

/-- What is made of the result. -/
theorem Exactly.map {f : α → β} (h : Exactly x ok P) (hf : ∀ a, P a → R (f a)) :
    Exactly (x.map f) ok R := by
  cases x with
  | none => exact exactly_none (h.of_none rfl)
  | some a =>
    obtain ⟨hok, hP⟩ := h.of_some rfl
    exact exactly_some hok (hf a hP)

/-- It succeeds when the condition holds. -/
theorem Exactly.exists_some (h : Exactly x ok P) (hok : ok) : ∃ a, x = some a ∧ P a := by
  cases x with
  | none => exact absurd hok (h.of_none rfl)
  | some a => exact ⟨a, rfl, (h.of_some rfl).2⟩

end Rules

/-- When each step from a state that meets an invariant succeeds exactly when the view of the state
says so, keeps the invariant and follows the view, a run goes on safely exactly when its operations
meet the condition on the views. -/
theorem safely_iff_guarded_of_exactly {σ ι τ : Type*} {fstep : σ → ι → Option σ} {I : σ → Prop}
    {view : σ → τ} {astep : τ → ι → τ} {C : σ → ι → Prop} {D : τ → ι → Prop} (hstep : ∀ s i, I s →
      Exactly (fstep s i) (D (view s) i) fun s' => I s' ∧ view s' = astep (view s) i)
    (hC : ∀ s i, I s → C s i) {s : σ} (hs : I s) (ops : List ι) :
    Safely fstep C s ops ↔ Guarded astep D (view s) ops := by
  induction ops generalizing s with
  | nil => exact Iff.rfl
  | cons i ops ih =>
    constructor
    · rintro ⟨-, s', hs', hrest⟩
      obtain ⟨hD, hI, hview⟩ := (hstep s i hs).of_some hs'
      have hnext := (ih hI).mp hrest
      rw [hview] at hnext
      exact ⟨hD, hnext⟩
    · rintro ⟨hD, hrest⟩
      obtain ⟨s', hs', hI, hview⟩ := (hstep s i hs).exists_some hD
      rw [← hview] at hrest
      exact ⟨hC s i hs, s', hs', (ih hI).mpr hrest⟩

/-! ## Steps with replies -/

section Replies

variable {σ ι κ : Type*} (fstep : σ → ι → Option (κ × σ))

/-- The replies to a sequence of operations and the state after it, if no step fails. -/
def replies : σ → List ι → Option (List κ × σ)
  | s, [] => some ([], s)
  | s, i :: ops =>
    (fstep s i).bind fun p => (replies p.2 ops).map fun q => (p.1 :: q.1, q.2)

variable {fstep}

variable {s : σ} {I : σ → Prop}

/-- A sequence of operations has replies when its first operation has one, and the others have them
in the state after it. -/
theorem replies_cons_eq_some {i : ι} {ops : List ι} {ks : List κ} {s' : σ} :
    replies fstep s (i :: ops) = some (ks, s') ↔
      ∃ k s₁ ks', fstep s i = some (k, s₁) ∧ replies fstep s₁ ops = some (ks', s') ∧
        ks = k :: ks' := by
  rw [replies, bind_eq_some_iff]
  constructor
  · rintro ⟨⟨k, s₁⟩, hfirst, hrest⟩
    obtain ⟨⟨ks', s''⟩, hks, heq⟩ := map_eq_some_iff.mp hrest
    obtain ⟨rfl, rfl⟩ := mk.inj heq
    exact ⟨k, s₁, ks', hfirst, hks, rfl⟩
  · rintro ⟨k, s₁, ks', hfirst, hrest, rfl⟩
    exact ⟨(k, s₁), hfirst, map_eq_some_iff.mpr ⟨(ks', s'), hrest, rfl⟩⟩

/-- What every step preserves holds after every sequence of operations that has replies. -/
theorem invariant_replies (hstep : ∀ s i k s', I s → fstep s i = some (k, s') → I s') {s' : σ}
    {ops : List ι} {ks : List κ} (hs : I s) (h : replies fstep s ops = some (ks, s')) : I s' := by
  induction ops generalizing s ks with
  | nil =>
    obtain ⟨rfl, rfl⟩ := mk.inj (some.inj h)
    exact hs
  | cons i ops ih =>
    obtain ⟨k, s₁, ks', hfirst, hrest, rfl⟩ := replies_cons_eq_some.mp h
    exact ih (hstep s i k s₁ hs hfirst) hrest

/-- A view that follows every step, those that fail included, follows every run. -/
theorem replies_map {τ : Type*} {gstep : τ → ι → Option (κ × τ)} (view : σ → τ)
    (h : ∀ s i, (fstep s i).map (map id view) = gstep (view s) i) (s : σ) (ops : List ι) :
    (replies fstep s ops).map (map id view) = replies gstep (view s) ops := by
  induction ops generalizing s with
  | nil => rfl
  | cons i ops ih =>
    rw [replies, replies, ← h]
    cases fstep s i with
    | none => rfl
    | some p =>
      show Option.map _ (Option.map _ _) = Option.map _ (replies gstep (view p.2) ops)
      rw [← ih, Option.map_map, Option.map_map]
      rfl

/-- When each step succeeds exactly under a condition on the state, a sequence of operations has
replies exactly if every operation meets the condition in the state that those before it lead to. -/
theorem exists_replies_iff {C : σ → ι → Prop}
    (hstep : ∀ s i, I s → Exactly (fstep s i) (C s i) fun p => I p.2) (hs : I s) {ops : List ι} :
    (∃ ks s', replies fstep s ops = some (ks, s')) ↔
      ∀ pre i post, ops = pre ++ i :: post → ∀ ks s', replies fstep s pre = some (ks, s') →
        C s' i := by
  induction ops generalizing s with
  | nil => exact iff_of_true ⟨[], s, rfl⟩ (by simp)
  | cons i ops ih =>
    constructor
    · rintro ⟨ks, s', hreplies⟩ pre j post hsplit ks' s'' hpre
      obtain ⟨k, s₁, ks₁, hfirst, hrest, -⟩ := replies_cons_eq_some.mp hreplies
      obtain ⟨hC, hI⟩ := (hstep s i hs).of_some hfirst
      cases pre with
      | nil =>
        obtain ⟨rfl, -⟩ := List.cons.inj hsplit
        obtain ⟨-, rfl⟩ := mk.inj (some.inj hpre)
        exact hC
      | cons i' pre =>
        obtain ⟨rfl, htail⟩ := List.cons.inj hsplit
        obtain ⟨k', s₂, ks₂, hfirst', hpre', -⟩ := replies_cons_eq_some.mp hpre
        obtain ⟨-, rfl⟩ := mk.inj (some.inj (hfirst.symm.trans hfirst'))
        exact (ih hI).mp ⟨ks₁, s', hrest⟩ pre j post htail ks₂ s'' hpre'
    · intro h
      obtain ⟨⟨k, s₁⟩, hfirst, hI⟩ := (hstep s i hs).exists_some (h [] i ops rfl [] s rfl)
      have hrest := (ih hI).mpr fun pre j post hsplit ks s' hpre =>
        h (i :: pre) j post (by rw [hsplit, List.cons_append]) (k :: ks) s'
          (replies_cons_eq_some.mpr ⟨k, s₁, ks, hfirst, hpre, rfl⟩)
      obtain ⟨ks, s', hks⟩ := hrest
      exact ⟨k :: ks, s', replies_cons_eq_some.mpr ⟨k, s₁, ks, hfirst, hks, rfl⟩⟩

/-- When each step succeeds exactly for certain operations, a sequence of operations has replies
exactly if it consists of such. -/
theorem exists_replies_iff_forall {C : ι → Prop}
    (hstep : ∀ s i, I s → Exactly (fstep s i) (C i) fun p => I p.2) (hs : I s) (ops : List ι) :
    (∃ ks s', replies fstep s ops = some (ks, s')) ↔ ∀ i ∈ ops, C i := by
  induction ops generalizing s with
  | nil => exact iff_of_true ⟨[], s, rfl⟩ nofun
  | cons i ops ih =>
    rw [List.forall_mem_cons]
    constructor
    · rintro ⟨ks, s', hreplies⟩
      obtain ⟨k, s₁, ks', hfirst, hrest, -⟩ := replies_cons_eq_some.mp hreplies
      obtain ⟨hC, hI⟩ := (hstep s i hs).of_some hfirst
      exact ⟨hC, (ih hI).mp ⟨ks', s', hrest⟩⟩
    · rintro ⟨hC, hops⟩
      obtain ⟨⟨k, s₁⟩, hfirst, hI⟩ := (hstep s i hs).exists_some hC
      obtain ⟨ks, s', hrest⟩ := (ih hI).mpr hops
      exact ⟨k :: ks, s', replies_cons_eq_some.mpr ⟨k, s₁, ks, hfirst, hrest, rfl⟩⟩

end Replies

end Inferno.Common
