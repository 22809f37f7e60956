import Inferno.Patcher.Model

/-!
# Where the patcher looks

The loop over the offsets runs up to the end of the range, and not only up to the last offset at
which the pattern still fits. At the offsets behind that one it compares what is left of the range,
and if all of that agrees with the beginning of the pattern, it goes on with the bytes behind the
range (`compareAt_lt_iff`). The search stays in its range exactly when at each of these offsets that
it comes to, the rest of the range differs from the pattern (`scan_inRange_iff`). Then the matches
are in the range too, and what `ck_patcher_find_replace` overwrites is part of a match
(`ckPatcherFindReplace_frame`).
-/

namespace Inferno.Patcher

open Common List Nat

/-- What a search is to do: it examines only bytes of the range, and every match it hands out is at
a multiple of the alignment and in the range. -/
structure InRange {σ : Type} (range : CKPatcherRange) (len align : ℕ) (o : Outcome σ) : Prop where
  examined : ∀ a ∈ o.examined, range.ptr ≤ a ∧ a < range.ptr + range.length
  matched : ∀ b ∈ o.matched, ∃ i, b = range.ptr + i ∧ align ∣ i ∧ i + len ≤ range.length

/-- Among the bytes from `a` up to `hi` there is one that differs from the pattern. -/
def Differs (m : ℕ → UInt8) (tests : List (UInt8 → Bool)) (a hi : ℕ) : Prop :=
  ∃ j, ∃ h : j < tests.length, a + j < hi ∧ tests[j] (m (a + j)) = false

/-! ## One candidate -/

variable {m : ℕ → UInt8} {tests : List (UInt8 → Bool)} {a : ℕ} {range : CKPatcherRange} {align : ℕ}

theorem le_of_mem_compareAt {x : ℕ} (hx : x ∈ (compareAt m a tests).1) : a ≤ x := by
  induction tests generalizing a with
  | nil => simp [compareAt] at hx
  | cons test tests ih =>
    rw [compareAt] at hx
    split_ifs at hx with h
    · rcases mem_cons.mp hx with rfl | hx
      · exact le_rfl
      · exact le_of_succ_le (ih hx)
    · rw [mem_singleton.mp hx]

theorem differs_cons {test : UInt8 → Bool} {hi : ℕ} : Differs m (test :: tests) a hi ↔
      (a < hi ∧ test (m a) = false) ∨ Differs m tests (a + 1) hi := by
  constructor
  · rintro ⟨j, hj, hlt, hdiff⟩
    cases j with
    | zero => exact .inl ⟨hlt, hdiff⟩
    | succ j =>
      refine .inr ⟨j, lt_of_succ_lt_succ hj, by omega, ?_⟩
      rw [show a + 1 + j = a + (j + 1) by omega]
      exact hdiff
  · rintro (⟨hlt, hdiff⟩ | ⟨j, hj, hlt, hdiff⟩)
    · exact ⟨0, succ_pos _, hlt, hdiff⟩
    · refine ⟨j + 1, succ_lt_succ hj, by omega, ?_⟩
      rw [show a + (j + 1) = a + 1 + j by omega]
      exact hdiff

/-- The addresses compared are below `hi` exactly when the pattern ends there, or a difference is
found before. -/
theorem compareAt_lt_iff (m : ℕ → UInt8) (tests : List (UInt8 → Bool)) {hi : ℕ} (ha : a ≤ hi) :
    (∀ x ∈ (compareAt m a tests).1, x < hi) ↔ a + tests.length ≤ hi ∨ Differs m tests a hi := by
  induction tests generalizing a with
  | nil => simp [compareAt, ha]
  | cons test tests ih =>
    rw [compareAt, differs_cons, length_cons]
    rcases eq_or_lt_of_le ha with rfl | hlt
    · -- At the end of the range the first comparison is one too many.
      have hno : ¬ Differs m tests (a + 1) a := fun ⟨j, _, hj, _⟩ => by omega
      split_ifs <;> simp [hno]
    · split_ifs with htest
      · rw [forall_mem_cons, ih hlt]
        simp only [hlt, true_and, htest, Bool.true_eq_false, false_or]
        have hlen : a + 1 + tests.length = a + (tests.length + 1) := by omega
        rw [hlen]
      · simp [hlt, htest]

theorem compareAt_of_differs {hi : ℕ} (h : Differs m tests a hi) :
    (compareAt m a tests).2 = false := by
  induction tests generalizing a with
  | nil => exact absurd h (by rintro ⟨j, hj, -⟩; simp at hj)
  | cons test tests ih =>
    rw [compareAt]
    rcases differs_cons.mp h with ⟨-, hdiff⟩ | hrest
    · rw [if_neg (by rw [hdiff]; decide)]
    · split_ifs
      · exact ih hrest
      · rfl

/-! ## The loop -/

section Loop

variable {σ : Type} (mem : σ → ℕ → UInt8) (range : CKPatcherRange) (tests : List (UInt8 → Bool))
  (callback : σ → ℕ → σ × Bool)

/-- The offsets that the loop comes to, each with the state of the host at that point. -/
def visits : List ℕ → σ → List (ℕ × σ)
  | [], _ => []
  | i :: is, s =>
    (i, s) ::
      if (compareAt (mem s) (range.ptr + i) tests).2 then
        let c := callback s (range.ptr + i)
        if c.2 then [] else visits is c.1
      else visits is s

/-- At the offset the pattern fits the range, or what is left of the range differs from it. -/
def Settled (v : ℕ × σ) : Prop :=
  v.1 + tests.length ≤ range.length ∨
    Differs (mem v.2) tests (range.ptr + v.1) (range.ptr + range.length)

variable {mem range tests callback}

variable {align : ℕ}

theorem compareAt_within_iff {i : ℕ} {s : σ} (hi : i < range.length) :
    (∀ a ∈ (compareAt (mem s) (range.ptr + i) tests).1,
      range.ptr ≤ a ∧ a < range.ptr + range.length) ↔ Settled mem range tests (i, s) := by
  have hend := compareAt_lt_iff (mem s) tests
    (show range.ptr + i ≤ range.ptr + range.length by omega)
  rw [Settled, ← Nat.add_le_add_iff_left (n := range.ptr), ← add_assoc, ← hend]
  constructor
  · intro h a ha
    exact (h a ha).2
  · intro h a ha
    have hstart := le_of_mem_compareAt ha
    exact ⟨by omega, h a ha⟩

/-- At one offset with a match, the comparison and the match stay in the range exactly when the
offset is settled. -/
theorem match_within_iff {i : ℕ} {s : σ} (hi : i < range.length ∧ align ∣ i)
    (hfound : (compareAt (mem s) (range.ptr + i) tests).2 = true) :
    ((∀ a ∈ (compareAt (mem s) (range.ptr + i) tests).1,
        range.ptr ≤ a ∧ a < range.ptr + range.length) ∧
      ∃ j, range.ptr + i = range.ptr + j ∧ align ∣ j ∧ j + tests.length ≤ range.length) ↔
    Settled mem range tests (i, s) := by
  rw [compareAt_within_iff hi.1]
  refine ⟨And.left, fun h => ⟨h, i, rfl, hi.2, ?_⟩⟩
  rcases h with hfits | hdiff
  · exact hfits
  · rw [compareAt_of_differs hdiff] at hfound
    exact absurd hfound (by decide)

/-- What is examined and matched first stays in the range together with what comes after it. -/
theorem inRange_append {len : ℕ} (examined matched : List ℕ) (o : Outcome σ) {o' : Outcome σ}
    (hexamined : o'.examined = examined ++ o.examined)
    (hmatched : o'.matched = matched ++ o.matched) : InRange range len align o' ↔
      ((∀ a ∈ examined, range.ptr ≤ a ∧ a < range.ptr + range.length) ∧
        ∀ b ∈ matched, ∃ i, b = range.ptr + i ∧ align ∣ i ∧ i + len ≤ range.length) ∧
      InRange range len align o := by
  constructor
  · rintro ⟨he, hm⟩
    rw [hexamined, forall_mem_append] at he
    rw [hmatched, forall_mem_append] at hm
    exact ⟨⟨he.1, hm.1⟩, he.2, hm.2⟩
  · rintro ⟨⟨he, hm⟩, heo, hmo⟩
    refine ⟨?_, ?_⟩
    · rw [hexamined, forall_mem_append]
      exact ⟨he, heo⟩
    · rw [hmatched, forall_mem_append]
      exact ⟨hm, hmo⟩

theorem inRange_nil {len : ℕ} {o : Outcome σ} (he : o.examined = []) (hm : o.matched = []) :
    InRange range len align o := by
  refine ⟨?_, ?_⟩
  · simp [he]
  · simp [hm]

/-- A search stays in its range exactly when all offsets it comes to are settled. -/
theorem scan_inRange_iff {is : List ℕ} (his : ∀ i ∈ is, i < range.length ∧ align ∣ i) (s : σ) :
    InRange range tests.length align (scan mem range tests callback is s) ↔
      ∀ v ∈ visits mem range tests callback is s, Settled mem range tests v := by
  induction is generalizing s with
  | nil => exact ⟨fun _ v hv => absurd hv not_mem_nil, fun _ => inRange_nil rfl rfl⟩
  | cons i is ih =>
    have hi := his i mem_cons_self
    have hrest := ih fun j hj => his j (mem_cons_of_mem _ hj)
    rw [visits, forall_mem_cons, scan]
    dsimp only
    split_ifs with hfound hdone
    · -- The callback is satisfied, and the search ends here.
      refine (inRange_append _ _ ⟨s, true, .applied, [], []⟩ (append_nil _).symm
        (append_nil _).symm).trans ?_
      rw [forall_mem_singleton, match_within_iff hi hfound]
      simp [inRange_nil]
    · refine (inRange_append _ [range.ptr + i] (scan mem range tests callback is _) rfl
        rfl).trans ?_
      rw [forall_mem_singleton, match_within_iff hi hfound, hrest]
    · -- There is no match, and the comparison alone has to stay in the range.
      refine (inRange_append _ [] (scan mem range tests callback is s) rfl (by rfl)).trans ?_
      rw [compareAt_within_iff hi.1, hrest]
      simp

end Loop

/-! ## The functions -/

theorem mem_offsets {i : ℕ} (hi : i ∈ offsets range align) : i < range.length ∧ align ∣ i := by
  obtain ⟨k, hk, rfl⟩ := mem_map.mp hi
  refine ⟨?_, dvd_mul_left _ _⟩
  rw [mem_range] at hk
  rcases Nat.eq_zero_or_pos align with rfl | hpos
  · simp at hk
  · have hle := (le_div_iff_mul_le hpos).mp (succ_le_of_lt hk)
    rw [succ_mul] at hle
    omega

section

variable {σ : Type} (mem : σ → ℕ → UInt8) (range : CKPatcherRange) (p : Pattern) (align : ℕ)
  (callback : σ → ℕ → σ × Bool) (s : σ)

theorem tests_length : p.tests.length = p.len := by
  unfold Pattern.tests Pattern.len
  cases hmask : p.mask with
  | none => simp
  | some mask =>
    have hlen := p.mask_length mask hmask
    simp [hlen]

/-- The offsets that a call of `ck_patcher_find_callback_ctx` comes to, with the states there; none
if it ends before the loop. -/
def visitsOf : List (ℕ × σ) :=
  if (align ≠ 0 ∧ p.len % align ≠ 0) ∨ range.length < p.len ∨ ¬ p.masked then []
  else visits mem range p.tests callback (offsets range (effectiveAlign align)) s

/-- A call of `ck_patcher_find_callback_ctx` that returns stays in its range exactly when all
offsets it comes to are settled. -/
theorem find_inRange_iff : (∀ o, ckPatcherFindCallbackCtx mem range p align callback s = some o →
        InRange range p.len (effectiveAlign align) o) ↔
      ∀ v ∈ visitsOf mem range p align callback s, Settled mem range p.tests v := by
  unfold ckPatcherFindCallbackCtx visitsOf
  by_cases halign : align ≠ 0 ∧ p.len % align ≠ 0
  · simp [halign]
  by_cases hbig : range.length < p.len
  · rw [if_neg halign, if_pos hbig, if_pos (.inr (.inl hbig))]
    refine ⟨fun _ v hv => absurd hv not_mem_nil, ?_⟩
    rintro - o ho
    cases ho
    exact inRange_nil rfl rfl
  by_cases hmasked : p.masked = true
  · rw [if_neg halign, if_neg hbig, if_neg (not_not.mpr hmasked),
      if_neg (by simp [halign, hbig, hmasked])]
    rw [← scan_inRange_iff (fun i hi => mem_offsets hi), tests_length]
    exact ⟨fun h => h _ rfl, fun h o ho => Option.some.inj ho ▸ h⟩
  · simp [hbig, hmasked]

end

/-! ## Replacing -/

/-- The callback of `ck_patcher_find_replace` changes only bytes of the part of the match that it
replaces. -/
theorem replaceCallback_frame (r : Replacement) (m : ℕ → UInt8) {buffer : ℕ}
    (ha : a < buffer + r.offset ∨ buffer + r.offset + r.replacement.length ≤ a) :
    (ckPatcherFindReplaceCallback r m buffer).1 a = m a := by
  apply Store.apply_of_not_mem
  rcases ha with ha | ha
  · exact .inl ha
  · right
    unfold Store.stop
    cases hmask : r.mask with
    | none => exact ha
    | some mask =>
      have hlen := r.mask_length mask hmask
      simpa [hlen] using ha

/-- A search that stays in its range, with the callback of `ck_patcher_find_replace` and a
replacement that fits the pattern, changes no byte outside of the range. -/
theorem scan_frame {r : Replacement} (hr : r.offset + r.replacement.length ≤ tests.length)
    {is : List ℕ} (h : InRange range tests.length align
      (scan id range tests (ckPatcherFindReplaceCallback r) is m))
    (ha : a < range.ptr ∨ range.ptr + range.length ≤ a) :
    (scan id range tests (ckPatcherFindReplaceCallback r) is m).state a = m a := by
  induction is with
  | nil => rfl
  | cons i is ih =>
    rw [scan] at h ⊢
    dsimp only at ⊢
    split_ifs at h ⊢ with hfound hdone
    · -- The first match is replaced, and the search ends.
      obtain ⟨j, hj, -, hfits⟩ := h.matched _ mem_cons_self
      apply replaceCallback_frame
      omega
    · exact absurd rfl hdone
    · exact ih ⟨fun x hx => h.examined x (mem_append_right _ hx), h.matched⟩

/-- A call of `ck_patcher_find_replace` whose search comes to settled offsets only, and whose
replacement ends at a `size_t`, changes no byte outside of the range. -/
theorem ckPatcherFindReplace_frame {p : Pattern} {r : Replacement} {o : Outcome (ℕ → UInt8)}
    (hwrap : r.offset + r.replacement.length < 2^64)
    (hrun : ckPatcherFindReplace range p align r m = some o)
    (hsettled : ∀ v ∈ visitsOf id range p align (ckPatcherFindReplaceCallback r) m,
      Settled id range p.tests v)
    (ha : a < range.ptr ∨ range.ptr + range.length ≤ a) : o.state a = m a := by
  unfold ckPatcherFindReplace at hrun
  -- The assertion on the replacement is made in the arithmetic of `size_t`.
  split_ifs at hrun with hfits
  have hrange := (find_inRange_iff _ _ _ _ _ _).mpr hsettled o hrun
  rw [mod_eq_of_lt hwrap, ← tests_length] at hfits
  unfold ckPatcherFindCallbackCtx at hrun
  split_ifs at hrun
  · cases hrun
    rfl
  · cases hrun
    rw [← tests_length] at hrange
    exact scan_frame hfits hrange ha

/-- For every range, pattern and alignment: with every callback, the search examines only bytes of
the range and hands out only matches in it exactly when at each offset it comes to, the pattern fits
the range or the rest of the range differs from it. A replacing search for which that holds changes
no byte outside of the range. -/
theorem patcher_inRange_iff (range : CKPatcherRange) (p : Pattern) (align : ℕ) :
    (∀ (σ : Type) (mem : σ → ℕ → UInt8) (callback : σ → ℕ → σ × Bool) (s : σ),
      (∀ o, ckPatcherFindCallbackCtx mem range p align callback s = some o →
          InRange range p.len (effectiveAlign align) o) ↔
        ∀ v ∈ visitsOf mem range p align callback s, Settled mem range p.tests v) ∧
    ∀ (r : Replacement) (m : ℕ → UInt8) (o : Outcome (ℕ → UInt8)),
      r.offset + r.replacement.length < 2^64 →
      ckPatcherFindReplace range p align r m = some o →
      (∀ v ∈ visitsOf id range p align (ckPatcherFindReplaceCallback r) m,
        Settled id range p.tests v) →
      ∀ a, a < range.ptr ∨ range.ptr + range.length ≤ a → o.state a = m a := by
  refine ⟨fun σ mem callback s => find_inRange_iff mem range p align callback s, ?_⟩
  intro r m o hwrap hrun hsettled a ha
  exact ckPatcherFindReplace_frame hwrap hrun hsettled ha

/-- Memory with the bytes `00 AA BB` at the address 0, of which the first two are the range below.
-/
def threeBytes : ℕ → UInt8 := fun a => [0x00, 0xAA, 0xBB].getD a 0

/-- Looking for `AA BB` in the two bytes `00 AA`, followed by a byte `BB` that is not in the range,
finds a match that begins with the last byte of the range, and replacing it by `CC DD` overwrites
the byte behind the range. -/
theorem patcher_overruns : ∃ o, ckPatcherFindReplace ⟨2, 0⟩ ⟨[0xAA, 0xBB], none, by simp⟩ 0
        ⟨[0xCC, 0xDD], none, 0, by simp⟩ threeBytes = some o ∧
      o.matched = [1] ∧ o.examined = [0, 1, 2] ∧ o.state 2 = 0xDD ∧ threeBytes 2 = 0xBB ∧
      ¬ InRange ⟨2, 0⟩ 2 1 o := by
  refine ⟨_, rfl, by decide, by decide, by decide, by decide, ?_⟩
  intro h
  have hlast := (h.examined 2 (by decide)).2
  exact absurd hlast (by decide)

/-! ## What is replaced -/

section

variable (m : ℕ → UInt8) (tests : List (UInt8 → Bool)) (r : Replacement) (range : CKPatcherRange)
  (p : Pattern) (align : ℕ)

/-- The bytes from an address on pass the tests. -/
def Matches (a : ℕ) : Prop := ∀ j, ∀ h : j < tests.length, tests[j] (m (a + j)) = true

/-- What becomes of a byte of the window that is replaced. -/
def Replacement.byte (k : ℕ) (old : UInt8) : UInt8 :=
  match r.mask with
  | none => r.replacement.getD k 0
  | some mask => (old &&& mask.getD k 0) ||| r.replacement.getD k 0

/-- The images differ in the window of a match only, and there as the replacement says. -/
structure Replaced (m' : ℕ → UInt8) (buffer : ℕ) : Prop where
  window : ∀ k < r.replacement.length,
    m' (buffer + r.offset + k) = r.byte k (m (buffer + r.offset + k))
  frame : ∀ a, a < buffer + r.offset ∨ buffer + r.offset + r.replacement.length ≤ a → m' a = m a

/-- An aligned offset whose whole window lies in the range matches. -/
def Candidate (i : ℕ) : Prop :=
  i < range.length ∧ effectiveAlign align ∣ i ∧ i + p.len ≤ range.length ∧
    Matches m p.tests (range.ptr + i)

theorem compareAt_iff_matches (a : ℕ) : (compareAt m a tests).2 = true ↔ Matches m tests a := by
  constructor
  · intro h j hj
    by_contra hne
    rw [Bool.not_eq_true] at hne
    rw [compareAt_of_differs ⟨j, hj, lt_succ_self _, hne⟩] at h
    exact Bool.false_ne_true h
  · intro h
    induction tests generalizing a with
    | nil => rfl
    | cons test tests ih =>
      have hfirst : test (m a) = true := h 0 (succ_pos _)
      rw [compareAt, if_pos hfirst]
      refine ih _ fun j hj => ?_
      rw [add_assoc, add_comm 1]
      exact h (j + 1) (succ_lt_succ hj)

theorem replaced_callback (buffer : ℕ) :
    Replaced m r (ckPatcherFindReplaceCallback r m buffer).1 buffer := by
  refine ⟨fun k hk => ?_, fun a ha => replaceCallback_frame r m ha⟩
  unfold ckPatcherFindReplaceCallback Replacement.byte
  cases hmask : r.mask with
  | none => simp [Store.apply, hk]
  | some mask => simp [Store.apply, load, hk, r.mask_length mask hmask]

/-- The loop ends at the first offset that matches. -/
theorem scan_replace (is : List ℕ) :
    let o := scan id range tests (ckPatcherFindReplaceCallback r) is m
    match is.find? fun i => (compareAt m (range.ptr + i) tests).2 with
    | none => o.result = false ∧ o.state = m
    | some i =>
      o.result = true ∧ o.state = (ckPatcherFindReplaceCallback r m (range.ptr + i)).1 := by
  induction is with
  | nil => exact ⟨rfl, rfl⟩
  | cons i is ih =>
    rw [scan]
    cases hi : (compareAt m (range.ptr + i) tests).2 with
    | true => simp [hi, ckPatcherFindReplaceCallback]
    | false => simpa [hi] using ih

/-- `ck_patcher_find_replace` stops at an assertion, or returns whether there is a match and
replaces the window of the lowest one. -/
theorem ckPatcherFindReplace_exact (hr : r.offset + r.replacement.length ≤ p.len)
    (hend : ∀ i < range.length, range.length < i + p.len → ¬ Matches m p.tests (range.ptr + i)) :
    match ckPatcherFindReplace range p align r m with
    | none => (align ≠ 0 ∧ p.len % align ≠ 0) ∨ p.len ≤ range.length ∧ ¬ p.masked
    | some o =>
      (o.result = true ∧ ∃ i, IsLeast {i | Candidate m range p align i} i ∧
        Replaced m r o.state (range.ptr + i)) ∨
      (o.result = false ∧ (∀ i, ¬ Candidate m range p align i) ∧ o.state = m) := by
  have hlt : ∀ k, k < (range.length + effectiveAlign align - 1) / effectiveAlign align ↔
      k * effectiveAlign align < range.length := by
    intro k
    have hpos : 0 < effectiveAlign align := by
      unfold effectiveAlign
      split <;> omega
    rw [← succ_le_iff, le_div_iff_mul_le hpos, succ_mul]
    omega
  have hscan := scan_replace m p.tests r range (offsets range (effectiveAlign align))
  unfold ckPatcherFindReplace ckPatcherFindCallbackCtx
  rw [if_neg (not_not.mpr ((mod_le _ _).trans hr))]
  split_ifs with h1 h2 h3
  · exact .inl h1
  · exact .inr ⟨rfl, fun i hi => absurd hi.2.2.1 (by omega), rfl⟩
  · rw [offsets, find?_map] at hscan
    revert hscan
    cases hfind : (List.range _).find? _ with
    | none =>
      rintro ⟨hres, hstate⟩
      refine .inr ⟨hres, ?_, hstate⟩
      rintro i ⟨hi, ⟨k, rfl⟩, -, hmatch⟩
      rw [mul_comm] at hi hmatch
      have hno := find?_range_eq_none.mp hfind k ((hlt k).mpr hi)
      simp [(compareAt_iff_matches _ _ _).mpr hmatch] at hno
    | some k =>
      rintro ⟨hres, hstate⟩
      obtain ⟨hk, hmem, hfirst⟩ := find?_range_eq_some.mp hfind
      have hi := (hlt k).mp (mem_range.mp hmem)
      have hmatch := (compareAt_iff_matches _ _ _).mp hk
      have hin := not_lt.mp fun hout => hend _ hi hout hmatch
      refine .inl ⟨hres, _, ⟨⟨hi, dvd_mul_left _ _, hin, hmatch⟩, ?_⟩,
        hstate ▸ replaced_callback _ _ _⟩
      rintro i ⟨-, ⟨j, rfl⟩, -, hj⟩
      rw [mul_comm] at hj ⊢
      refine mul_le_mul_left _ (not_lt.mp fun hjk => ?_)
      have hno := hfirst j hjk
      simp [(compareAt_iff_matches _ _ _).mpr hj] at hno
  · exact .inr ⟨not_lt.mp h2, h3⟩

end

/-- `AA BB` is found in `00 AA BB`, and no match begins with the last byte. -/
theorem ckPatcherFindReplace_threeBytes :
    ∃ i, IsLeast {i | Candidate threeBytes ⟨3, 0⟩ ⟨[0xAA, 0xBB], none, by simp⟩ 0 i} i := by
  obtain ⟨-, i, hi, -⟩ | ⟨hno, -⟩ := ckPatcherFindReplace_exact threeBytes
    ⟨[0xCC], none, 0, by simp⟩ ⟨3, 0⟩ ⟨[0xAA, 0xBB], none, by simp⟩ 0 (by decide) fun i hi hlt => by
      have hlt : 3 < i + 2 := hlt
      have hi : i < 3 := hi
      obtain rfl : i = 2 := by omega
      exact fun hmatch => absurd (hmatch 0 (by decide)) (by decide)
  · exact ⟨i, hi⟩
  · exact absurd hno (by decide)

/-- With the alignment 2 the call is stopped. -/
theorem not_ckPatcherFindReplace_exact : Candidate threeBytes ⟨3, 0⟩ ⟨[0xBB], none, by simp⟩ 2 2 ∧
      ckPatcherFindReplace ⟨3, 0⟩ ⟨[0xBB], none, by simp⟩ 2 ⟨[0xCC], none, 0, by simp⟩
        threeBytes = none := by
  refine ⟨⟨by decide, by decide, by decide, fun j hj => ?_⟩, rfl⟩
  obtain rfl : j = 0 := lt_one_iff.mp hj
  rfl

end Inferno.Patcher
