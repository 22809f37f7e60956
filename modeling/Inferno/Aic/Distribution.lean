import Mathlib.Data.List.Sort
import Inferno.Common.Bits
import Inferno.Aic.Model

/-!
# The distribution of interrupts

`apple_aic_update` goes through the pending interrupts in order and collects in `intr` the CPUs to
interrupt. An interrupt is left alone when one of its CPUs is in `intr` already; otherwise the first
of its CPUs is added.

When none of the CPUs that it names exists, that search returns `numCPU`, and the bit `numCPU` is
set in `intr` for no CPU. A later interrupt that names this bit besides a CPU that exists is then
taken for served. The invariant of the loop (`Served`) says where the bit comes from; without such
a pair of interrupts none is lost, and with one the update loses the second of them when the two
are all that is pending (`noLostInterrupt_iff`).
-/

namespace Inferno.Aic

open Common Bitops List BitVec Nat Bool

variable (cfg : Config) (s : AppleAICState)

/-! ## The property -/

variable (k : ℕ)

/-- The CPU is owed an IPI that is not masked. -/
def Owed : Prop := (s.cpus k).owesSelf ∨ (s.cpus k).owesNormal cfg

/-- The line of the CPU is up after `apple_aic_update`. -/
def Raised : Prop := k < cfg.numCPU ∧ ((update cfg s).cpus k).irq = true

/-- The update raises the lines in `intr` and leaves the others as they are. -/
theorem raised_iff : Raised cfg s k ↔ k < cfg.numCPU ∧
    ((s.cpus k).irq = true ∨ (intrOf cfg (undefer cfg s)).getLsbD k = true) := by
  refine and_congr_right fun hk => ?_
  rw [update, ← Bool.or_eq_true]
  dsimp only
  rw [if_pos hk]
  simp only [undefer, if_pos hk]

/-- The interrupt is pending and not masked. -/
def Live (i : ℕ) : Prop := testBit32 s.eir_state i = true ∧ testBit32 s.eir_mask i = false

/-- The interrupt names a CPU that exists. -/
def NamesCpu (i : ℕ) : Prop := ∃ k < cfg.numCPU, (s.eir_dest i).getLsbD k = true

/-- No interrupt is lost by an update. -/
structure NoLostInterrupt : Prop where
  /-- An external interrupt that a CPU may take interrupts one of its CPUs, or one of them is owed
  an IPI. -/
  external : ∀ i < cfg.numIRQ, Live s i → NamesCpu cfg s i →
    ∃ k < cfg.numCPU, (s.eir_dest i).getLsbD k = true ∧
      (Raised cfg s k ∨ Owed cfg (undefer cfg s) k)
  /-- A CPU that is owed an IPI, deferred ones included, is interrupted. -/
  ipi : ∀ k < cfg.numCPU, Owed cfg (undefer cfg s) k → Raised cfg s k

/-- The interrupt names CPUs, none of which exists. -/
def Phantom (j : ℕ) : Prop := s.eir_dest j ≠ 0 ∧ ¬ NamesCpu cfg s j

/-- Two interrupts that can be pending at once: the first names no CPU that exists, and the second
names one and, besides, the CPU `numCPU`. -/
def PhantomPair : Prop :=
  ∃ j i, j < i ∧ i < cfg.numIRQ ∧ Live s j ∧ Live s i ∧ Phantom cfg s j ∧ NamesCpu cfg s i ∧
    (s.eir_dest i).getLsbD cfg.numCPU = true

/-! ## One round of the loop -/

variable {i : ℕ} {done : List ℕ} {intr : BitVec 32}

theorem getLsbD_or_bit (v : BitVec 32) (k b : ℕ) (hk : k < 32) :
    (v ||| bit k).getLsbD b = (v.getLsbD b || decide (b = k)) := by
  have hiff : k = b ↔ b = k := eq_comm
  rw [bit]
  simp [hk, hiff]

theorem and_ne_zero_iff {v v' : BitVec 32} :
    v &&& v' ≠ 0 ↔ ∃ b, v.getLsbD b = true ∧ v'.getLsbD b = true := by
  rw [ne_zero_iff_exists_bit]
  simp

theorem findFirst_of_namesCpu (h : NamesCpu cfg s i) :
    findFirstBit32 (fun k => s.eir_dest (i + k)) cfg.numCPU < cfg.numCPU ∧
      (s.eir_dest i).getLsbD (findFirstBit32 (fun k => s.eir_dest (i + k)) cfg.numCPU) = true := by
  obtain ⟨k, hk, hset⟩ := h
  have hne : s.eir_dest i ≠ 0 := ne_zero_iff_exists_bit.mpr ⟨k, hset⟩
  obtain ⟨-, hctz, hbelow⟩ := ctz32_spec hne
  -- The lowest bit is at most that of the CPU, so the search stops before `numCPU`.
  have hle : ctz32 (s.eir_dest i) ≤ k := by
    by_contra hcon
    rw [hbelow k (by omega)] at hset
    exact false_ne_true hset
  rw [findFirstBit32_word _ _ cfg.numCPU_pos (by rw [add_zero]; exact hne), add_zero,
    min_eq_left (by omega)]
  exact ⟨by omega, hctz⟩

/-- The search for the first CPU of an interrupt that names none that exists. -/
theorem findFirst_of_phantom (h : Phantom cfg s i) :
    findFirstBit32 (fun k => s.eir_dest (i + k)) cfg.numCPU = cfg.numCPU := by
  obtain ⟨hne, hnone⟩ := h
  obtain ⟨-, hctz, -⟩ := ctz32_spec hne
  rw [findFirstBit32_word _ _ cfg.numCPU_pos (by rw [add_zero]; exact hne)]
  refine min_eq_right (Nat.le_of_not_lt ?_)
  intro hlt
  exact hnone ⟨_, hlt, hctz⟩

/-- What a round does to `intr`: nothing, because the interrupt is masked, names nothing or is
served; or it adds the first CPU that the interrupt names, when `intr` has none of them; or it adds
a CPU that exists for an earlier interrupt. -/
theorem distribute_cases (acc : BitVec 32 × BitVec 32) (i : ℕ) :
    (distribute cfg s acc i).1 = acc.1 ∧
        (testBit32 s.eir_mask i = true ∨ s.eir_dest i = 0 ∨ acc.1 &&& s.eir_dest i ≠ 0) ∨
      (distribute cfg s acc i).1 =
          acc.1 ||| bit (findFirstBit32 (fun k => s.eir_dest (i + k)) cfg.numCPU) ∧
        testBit32 s.eir_mask i = false ∧ s.eir_dest i ≠ 0 ∨
      (∃ k < cfg.numCPU, (distribute cfg s acc i).1 = acc.1 ||| bit k) ∧
        acc.1 &&& s.eir_dest i ≠ 0 := by
  obtain ⟨intr, potential⟩ := acc
  unfold distribute
  dsimp only
  split_ifs with hlive hand
  · exact .inr (.inl ⟨rfl, hlive⟩)
  · cases hk : (range cfg.numCPU).find? fun k =>
        !intr.getLsbD k && potential.getLsbD k with
    | none => exact .inl ⟨rfl, .inr (.inr hand)⟩
    | some k =>
      have hlt := mem_range.mp (mem_of_find?_eq_some hk)
      exact .inr (.inr ⟨⟨k, hlt, rfl⟩, hand⟩)
  · refine .inl ⟨rfl, ?_⟩
    by_cases hmask : testBit32 s.eir_mask i = true
    · exact .inl hmask
    · rw [not_eq_true] at hmask
      exact .inr (.inl (not_not.mp fun hne => hlive ⟨hmask, hne⟩))

/-! ## The invariant of the loop -/

/-- What holds of `intr` when the interrupts in `done` have been visited. -/
structure Served (done : List ℕ) (intr : BitVec 32) : Prop where
  /-- There is no bit above `numCPU`. -/
  le : ∀ b, intr.getLsbD b = true → b ≤ cfg.numCPU
  /-- The bit `numCPU` comes from an interrupt that names no CPU that exists. -/
  phantom : intr.getLsbD cfg.numCPU = true →
    ∃ j ∈ done, testBit32 s.eir_mask j = false ∧ Phantom cfg s j
  /-- The interrupts visited that name a CPU that exists have such a CPU in `intr`. -/
  served : ∀ i ∈ done, testBit32 s.eir_mask i = false → NamesCpu cfg s i →
    ∃ k < cfg.numCPU, (s.eir_dest i).getLsbD k = true ∧ intr.getLsbD k = true

/-- The second interrupt is mistaken for served because of the first. -/
def Clash (j i : ℕ) : Prop :=
  (testBit32 s.eir_mask j = false ∧ Phantom cfg s j) ∧ testBit32 s.eir_mask i = false ∧
    NamesCpu cfg s i ∧ (s.eir_dest i).getLsbD cfg.numCPU = true

variable {cfg s}

section

variable {intr' : BitVec 32} (h : Served cfg s done intr)

include h

/-- An interrupt that meets `intr` meets it in a CPU that exists, unless it clashes with one
visited before. -/
theorem Served.meets (hno : ∀ j ∈ done, ¬ Clash cfg s j i) (hmask : testBit32 s.eir_mask i = false)
    (hnames : NamesCpu cfg s i) (hand : intr &&& s.eir_dest i ≠ 0) :
    ∃ k < cfg.numCPU, (s.eir_dest i).getLsbD k = true ∧ intr.getLsbD k = true := by
  obtain ⟨b, hintr, hdest⟩ := and_ne_zero_iff.mp hand
  rcases lt_or_eq_of_le (h.le b hintr) with hlt | rfl
  · exact ⟨b, hlt, hdest, hintr⟩
  · obtain ⟨j, hj, hph⟩ := h.phantom hintr
    exact absurd ⟨hph, hmask, hnames, hdest⟩ (hno j hj)

/-- One more interrupt is visited, and `intr` grows by at most one CPU that exists. -/
theorem Served.visit (hgrow : ∀ b, intr.getLsbD b = true → intr'.getLsbD b = true)
    (hnew : ∀ b, intr'.getLsbD b = true → intr.getLsbD b = true ∨ b < cfg.numCPU)
    (hi : testBit32 s.eir_mask i = false → NamesCpu cfg s i →
      ∃ k < cfg.numCPU, (s.eir_dest i).getLsbD k = true ∧ intr'.getLsbD k = true) :
    Served cfg s (done ++ [i]) intr' := by
  refine ⟨?_, ?_, ?_⟩
  · intro b hb
    rcases hnew b hb with hold | hlt
    · exact h.le b hold
    · exact hlt.le
  · intro hb
    obtain ⟨j, hj, hph⟩ := h.phantom ((hnew _ hb).resolve_right (lt_irrefl _))
    exact ⟨j, mem_append_left _ hj, hph⟩
  · intro i' hi' hmask hnames
    rcases mem_append.mp hi' with hdone | hlast
    · obtain ⟨k, hk, hdest, hintr⟩ := h.served i' hdone hmask hnames
      exact ⟨k, hk, hdest, hgrow k hintr⟩
    · obtain rfl := mem_singleton.mp hlast
      exact hi hmask hnames

theorem Served.visit_bit {k : ℕ} (hk : k < cfg.numCPU)
    (hi : testBit32 s.eir_mask i = false → NamesCpu cfg s i →
      ∃ k' < cfg.numCPU, (s.eir_dest i).getLsbD k' = true ∧ (intr ||| bit k).getLsbD k' = true) :
    Served cfg s (done ++ [i]) (intr ||| bit k) := by
  have hn := cfg.numCPU_le
  have hbits := fun b => getLsbD_or_bit intr k b (by omega)
  refine h.visit ?_ ?_ hi
  · intro b hb
    rw [hbits, hb, Bool.true_or]
  · intro b hb
    rw [hbits, or_eq_true, decide_eq_true_iff] at hb
    rcases hb with hold | rfl
    · exact .inl hold
    · exact .inr hk

/-- One more interrupt is visited that names no CPU that exists, and the bit `numCPU` is added: this
interrupt is to blame for it. -/
theorem Served.visit_phantom (hmask : testBit32 s.eir_mask i = false) (hph : Phantom cfg s i) :
    Served cfg s (done ++ [i]) (intr ||| bit cfg.numCPU) := by
  have hn := cfg.numCPU_le
  have hbits := fun b => getLsbD_or_bit intr cfg.numCPU b (by omega)
  refine ⟨?_, ?_, ?_⟩
  · intro b hb
    rw [hbits, or_eq_true, decide_eq_true_iff] at hb
    rcases hb with hold | rfl
    · exact h.le b hold
    · exact le_rfl
  · intro _
    exact ⟨i, mem_append_right _ (mem_singleton.mpr rfl), hmask, hph⟩
  · intro i' hi' hmask' hnames'
    rcases mem_append.mp hi' with hdone | hlast
    · obtain ⟨k, hk, hdest, hintr⟩ := h.served i' hdone hmask' hnames'
      exact ⟨k, hk, hdest, by rw [hbits, hintr, Bool.true_or]⟩
    · rw [mem_singleton.mp hlast] at hnames'
      exact absurd hnames' hph.2

end

section

variable {rest : List ℕ} {acc : BitVec 32 × BitVec 32} (h : Served cfg s done acc.1)

include h

/-- A round keeps the invariant when its interrupt clashes with none visited before. -/
theorem Served.distribute (hno : ∀ j ∈ done, ¬ Clash cfg s j i) :
    Served cfg s (done ++ [i]) (distribute cfg s acc i).1 := by
  have hn := cfg.numCPU_le
  rcases distribute_cases cfg s acc i with ⟨heq, hwhy⟩ | ⟨heq, hmask, hne⟩ | ⟨⟨k, hk, heq⟩, hand⟩
  -- Nothing is added: if the interrupt counts at all, it meets `intr`.
  · rw [heq]
    refine h.visit (fun b hb => hb) (fun b hb => .inl hb) ?_
    intro hmask hnames
    refine h.meets hno hmask hnames ?_
    rcases hwhy with hmasked | hzero | hand
    · rw [hmask] at hmasked
      exact absurd hmasked false_ne_true
    · obtain ⟨k, -, hset⟩ := hnames
      exact absurd hzero (ne_zero_iff_exists_bit.mpr ⟨k, hset⟩)
    · exact hand
  -- The result of the search is added.
  · rw [heq]
    by_cases hnames : NamesCpu cfg s i
    · obtain ⟨hlt, hset⟩ := findFirst_of_namesCpu cfg s hnames
      generalize findFirstBit32 (fun k => s.eir_dest (i + k)) cfg.numCPU = cpu at hlt hset
      refine h.visit_bit hlt ?_
      intro _ _
      refine ⟨cpu, hlt, hset, ?_⟩
      rw [getLsbD_or_bit _ _ _ (by omega), decide_eq_true rfl, Bool.or_true]
    · -- The search ends at `numCPU`.
      have hph : Phantom cfg s i := ⟨hne, hnames⟩
      rw [findFirst_of_phantom cfg s hph]
      exact h.visit_phantom hmask hph
  -- A CPU is added for an earlier interrupt, and this one meets `intr`.
  · rw [heq]
    refine h.visit_bit hk ?_
    intro hmask hnames
    obtain ⟨k', hk', hdest, hintr⟩ := h.meets hno hmask hnames hand
    exact ⟨k', hk', hdest, by rw [getLsbD_or, hintr, Bool.true_or]⟩

/-- The whole loop keeps the invariant when no two of the interrupts clash. -/
theorem Served.foldl (hno : (done ++ rest).Pairwise fun j i => ¬ Clash cfg s j i) :
    Served cfg s (done ++ rest) (rest.foldl (Aic.distribute cfg s) acc).1 := by
  induction rest generalizing done acc with
  | nil =>
    rw [append_nil]
    exact h
  | cons i rest ih =>
    -- The round sees the clashes of `i` with what is before it, the induction those behind it.
    have hcross := (pairwise_append.mp hno).2.2
    have hstep := h.distribute fun j hj => hcross j hj i mem_cons_self
    rw [append_cons] at hno ⊢
    exact ih hstep hno

end

/-! ## Interprocessor interrupts -/

theorem getLsbD_ipiRound (k b : ℕ) (hk : k < 32) (intr : BitVec 32) :
    (let intr := if (s.cpus k).owesSelf then intr ||| bit k else intr
      if (s.cpus k).owesNormal cfg then intr ||| bit k else intr).getLsbD b = true ↔
      intr.getLsbD b = true ∨ b = k ∧ Owed cfg s k := by
  unfold Owed
  split_ifs with hnormal hself hself
  all_goals simp only [getLsbD_or_bit _ _ _ hk, or_eq_true, decide_eq_true_iff]
  all_goals tauto

theorem getLsbD_ipiIntr (b : ℕ) :
    (ipiIntr cfg s).getLsbD b = true ↔ b < cfg.numCPU ∧ Owed cfg s b := by
  have hn := cfg.numCPU_le
  -- After `n` rounds, the CPUs below `n` have been looked at.
  have hloop : ∀ n ≤ 31, ((range n).foldl (fun intr i =>
      let intr := if (s.cpus i).owesSelf then intr ||| bit i else intr
      if (s.cpus i).owesNormal cfg then intr ||| bit i else intr) 0).getLsbD b = true ↔
        b < n ∧ Owed cfg s b := by
    intro n hle
    induction n with
    | zero => simp
    | succ n ih =>
      rw [range_succ, foldl_append, foldl_cons, foldl_nil,
        getLsbD_ipiRound n b (by omega), ih (by omega)]
      constructor
      · rintro (⟨hlt, h⟩ | ⟨rfl, h⟩)
        · exact ⟨by omega, h⟩
        · exact ⟨by omega, h⟩
      · rintro ⟨hlt, h⟩
        rcases Nat.lt_succ_iff_lt_or_eq.mp hlt with hlt | rfl
        · exact .inl ⟨hlt, h⟩
        · exact .inr ⟨rfl, h⟩
  exact hloop cfg.numCPU hn

/-- A round does not take a CPU out of `intr`. -/
theorem distribute_mono (acc : BitVec 32 × BitVec 32) (i b : ℕ) (h : acc.1.getLsbD b = true) :
    (Aic.distribute cfg s acc i).1.getLsbD b = true := by
  rcases distribute_cases cfg s acc i with ⟨heq, -⟩ | ⟨heq, -⟩ | ⟨⟨k, -, heq⟩, -⟩
  · rw [heq, h]
  · rw [heq, getLsbD_or, h, Bool.true_or]
  · rw [heq, getLsbD_or, h, Bool.true_or]

/-- The loop does not take a CPU out of `intr`. -/
theorem foldl_distribute_mono (is : List ℕ) (acc : BitVec 32 × BitVec 32) (b : ℕ)
    (h : acc.1.getLsbD b = true) : (is.foldl (Aic.distribute cfg s) acc).1.getLsbD b = true := by
  induction is generalizing acc with
  | nil => exact h
  | cons i is ih => exact ih _ (distribute_mono acc i b h)

theorem raised_of_owed (hk : k < cfg.numCPU) (h : Owed cfg (undefer cfg s) k) : Raised cfg s k :=
  (raised_iff cfg s k).mpr
    ⟨hk, .inr (foldl_distribute_mono _ _ k (getLsbD_ipiIntr k |>.mpr ⟨hk, h⟩))⟩

/-! ## No interrupt is lost without a pair -/

theorem mem_visited {i : ℕ} :
    i ∈ setBits s.eir_state cfg.numIRQ ↔ i < cfg.numIRQ ∧ testBit32 s.eir_state i = true := by
  rw [Config.numIRQ, setBits_eq, mem_filter, mem_range]

theorem pairwise_visited : (setBits s.eir_state cfg.numIRQ).Pairwise (· < ·) := by
  rw [Config.numIRQ, setBits_eq]
  exact pairwise_lt_range.filter _

theorem pairwise_not_clash (h : ¬ PhantomPair cfg s) :
    (setBits s.eir_state cfg.numIRQ).Pairwise fun j i => ¬ Clash cfg s j i := by
  refine pairwise_visited.imp_of_mem ?_
  rintro j i hj hi hlt ⟨⟨hmaskj, hph⟩, hmaski, hnames, hset⟩
  obtain ⟨-, hpendj⟩ := mem_visited.mp hj
  obtain ⟨hlti, hpendi⟩ := mem_visited.mp hi
  exact h ⟨j, i, hlt, hlti, ⟨hpendj, hmaskj⟩, ⟨hpendi, hmaski⟩, hph, hnames, hset⟩

theorem noLostInterrupt_of_not_pair (h : ¬ PhantomPair cfg s) : NoLostInterrupt cfg s := by
  have hserved : Served cfg (undefer cfg s) (setBits s.eir_state cfg.numIRQ)
      (intrOf cfg (undefer cfg s)) := by
    -- Before the loop there are only the CPUs of the IPIs in `intr`, all of which exist.
    have hstart : Served cfg (undefer cfg s) [] (ipiIntr cfg (undefer cfg s)) := by
      refine ⟨?_, ?_, ?_⟩
      · intro b hb
        exact ((getLsbD_ipiIntr b).mp hb).1.le
      · intro hb
        exact absurd ((getLsbD_ipiIntr _).mp hb).1 (lt_irrefl _)
      · intro i hi
        exact absurd hi not_mem_nil
    exact @Served.foldl cfg (undefer cfg s) [] _ (_, 0) hstart
      (pairwise_not_clash (s := undefer cfg s) h)
  refine ⟨?_, fun k hk howed => raised_of_owed k hk howed⟩
  intro i hi hlive hnames
  have hvisited := mem_visited.mpr ⟨hi, hlive.1⟩
  obtain ⟨k, hk, hdest, hintr⟩ := hserved.served i hvisited hlive.2 hnames
  exact ⟨k, hk, hdest, .inl ((raised_iff cfg s k).mpr ⟨hk, .inr hintr⟩)⟩

/-! ## With a pair an interrupt can be lost -/

variable (s)

/-- The state with only two interrupts pending, and no IPIs. -/
def withOnly (j i : ℕ) : AppleAICState :=
  { s with
    eir_state := setBit32 (setBit32 (fun _ => 0) j) i
    cpus := fun _ => ⟨0, 0, 0, false⟩ }

theorem testBit32_withOnly (j i k : ℕ) :
    testBit32 (withOnly s j i).eir_state k = true ↔ k = j ∨ k = i := by
  have hzero : testBit32 (fun _ => 0) k = false := by simp [testBit32]
  simp only [withOnly, testBit32_setBit32, hzero, Bool.false_or, or_eq_true,
    decide_eq_true_iff]

theorem visited_withOnly {j : ℕ} (hji : j < i) (hi : i < cfg.numIRQ) :
    setBits (withOnly s j i).eir_state cfg.numIRQ = [j, i] := by
  have hsorted : (setBits (withOnly s j i).eir_state cfg.numIRQ).Pairwise (· < ·) :=
    pairwise_visited
  have hpair : [j, i].Pairwise (· < ·) := by simpa using hji
  -- Two increasing lists with the same members.
  have hperm : (setBits (withOnly s j i).eir_state cfg.numIRQ).Perm [j, i] := by
    rw [perm_ext_iff_of_nodup (hsorted.imp ne_of_lt) (hpair.imp ne_of_lt)]
    intro k
    rw [mem_visited, testBit32_withOnly, mem_pair]
    constructor
    · exact fun h => h.2
    · rintro (rfl | rfl)
      · exact ⟨by omega, .inl rfl⟩
      · exact ⟨hi, .inr rfl⟩
  exact hperm.eq_of_pairwise' hsorted hpair

theorem not_owed_withOnly {j i k : ℕ} : ¬ Owed cfg (undefer cfg (withOnly s j i)) k := by
  have hpending : ((undefer cfg (withOnly s j i)).cpus k).pendingIPI = 0 := by
    unfold undefer withOnly
    dsimp only
    split_ifs <;> rfl
  unfold Owed AppleAICCPU.owesSelf AppleAICCPU.owesNormal
  rw [hpending]
  simp

section

variable {j : ℕ} (hji : j < i) (hi : i < cfg.numIRQ) (hmaskj : testBit32 s.eir_mask j = false)

include hji hi hmaskj

/-- The first interrupt of a pair sets the bit `numCPU`, and the second one is taken for served. -/
theorem intrOf_withOnly (hph : Phantom cfg s j) (hset : (s.eir_dest i).getLsbD cfg.numCPU = true) :
    intrOf cfg (undefer cfg (withOnly s j i)) = bit cfg.numCPU := by
  have hn := cfg.numCPU_le
  have hself : (bit cfg.numCPU).getLsbD cfg.numCPU = true := by
    simp [bit]
    omega
  have hipi : ipiIntr cfg (undefer cfg (withOnly s j i)) = 0 := by
    apply eq_of_getLsbD_eq
    intro b _
    have hb := mt (@getLsbD_ipiIntr cfg (undefer cfg (withOnly s j i)) b).mp
      fun h => not_owed_withOnly s h.2
    simpa using hb
  -- The rounds read the masks and the destinations only.
  have hround : distribute cfg (undefer cfg (withOnly s j i)) = distribute cfg s := rfl
  -- The search for the first one's CPU falls through to `numCPU`.
  have hfirst : distribute cfg s (0, 0) j = (bit cfg.numCPU, s.eir_dest j) := by
    have hlive : testBit32 s.eir_mask j = false ∧ s.eir_dest j ≠ 0 := ⟨hmaskj, hph.1⟩
    have hand : 0 &&& s.eir_dest j = 0 := zero_and
    rw [distribute, if_pos hlive, if_pos hand, findFirst_of_phantom cfg s hph]
    exact congrArg₂ Prod.mk zero_or zero_or
  -- The second one meets that bit, and no CPU that exists is in `potential`.
  have hsecond : distribute cfg s (bit cfg.numCPU, s.eir_dest j) i =
      (bit cfg.numCPU, s.eir_dest j) := by
    have hand : bit cfg.numCPU &&& s.eir_dest i ≠ 0 :=
      and_ne_zero_iff.mpr ⟨_, hself, hset⟩
    have hnone : ((range cfg.numCPU).find? fun k =>
        !(bit cfg.numCPU).getLsbD k && (s.eir_dest j).getLsbD k) = none := by
      rw [find?_eq_none]
      intro k hk hfound
      rw [and_eq_true] at hfound
      exact hph.2 ⟨k, mem_range.mp hk, hfound.2⟩
    rw [distribute, if_neg hand, hnone]
    exact ite_self _
  have hvisited : setBits (undefer cfg (withOnly s j i)).eir_state cfg.numIRQ = [j, i] :=
    visited_withOnly s hji hi
  rw [intrOf, hvisited, hipi, hround, foldl_cons, hfirst, foldl_cons, hsecond]
  rfl

/-- With a pair, the second interrupt is lost when the two are all that is pending. -/
theorem not_noLostInterrupt_withOnly (hmaski : testBit32 s.eir_mask i = false)
    (hph : Phantom cfg s j) (hnames : NamesCpu cfg s i)
    (hset : (s.eir_dest i).getLsbD cfg.numCPU = true) : ¬ NoLostInterrupt cfg (withOnly s j i) := by
  intro h
  have hpend := (testBit32_withOnly s j i i).mpr (.inr rfl)
  obtain ⟨k, hk, -, hraised | howed⟩ := h.external i hi ⟨hpend, hmaski⟩ hnames
  · have hbit := ((raised_iff _ _ k).mp hraised).2.resolve_left Bool.false_ne_true
    rw [intrOf_withOnly s hji hi hmaskj hph hset, bit, getLsbD_twoPow, and_eq_true,
      decide_eq_true_iff, decide_eq_true_iff] at hbit
    omega
  · exact not_owed_withOnly s howed

end

variable (cfg)

/-- No interrupt is lost, with whichever of the pending interrupts and with whatever IPIs, exactly
when no pair is pending. -/
theorem noLostInterrupt_iff :
    (∀ eir_state cpus, (∀ i, testBit32 eir_state i = true → testBit32 s.eir_state i = true) →
        NoLostInterrupt cfg { s with eir_state := eir_state, cpus := cpus }) ↔
      ¬ PhantomPair cfg s := by
  constructor
  · rintro h ⟨j, i, hji, hi, hlivej, hlivei, hph, hnames, hset⟩
    refine not_noLostInterrupt_withOnly s hji hi hlivej.2 hlivei.2 hph hnames hset (h _ _ ?_)
    intro k hk
    rcases (testBit32_withOnly s j i k).mp hk with rfl | rfl
    · exact hlivej.1
    · exact hlivei.1
  · intro h eir_state cpus hsub
    apply noLostInterrupt_of_not_pair
    rintro ⟨j, i, hji, hi, hlivej, hlivei, hrest⟩
    exact h ⟨j, i, hji, hi, ⟨hsub j hlivej.1, hlivej.2⟩, ⟨hsub i hlivei.1, hlivei.2⟩, hrest⟩

/-- One CPU and one word of interrupts. -/
def oneCpu : Config := ⟨1, 1, 0, by decide, by decide⟩

/-- Interrupt 0 names only a CPU 1, interrupt 1 names the CPUs 0 and 1; both are pending, and no
interrupt is masked. -/
def phantomState : AppleAICState :=
  withOnly { realized with eir_dest := fun i => if i = 0 then 2 else 3 } 0 1

/-- Interrupt 1 may be taken by CPU 0, the only one there is, and its line is not raised. -/
theorem not_noLostInterrupt_phantom :
    ¬ NoLostInterrupt oneCpu phantomState ∧ NamesCpu oneCpu phantomState 1 ∧
      ¬ Raised oneCpu phantomState 0 := by
  have hph : Phantom oneCpu { realized with eir_dest := fun i => if i = 0 then 2 else 3 } 0 := by
    refine ⟨by decide, ?_⟩
    rintro ⟨k, hk, hset⟩
    rw [lt_one_iff.mp hk] at hset
    exact absurd hset (by decide)
  have hnames : NamesCpu oneCpu { realized with eir_dest := fun i => if i = 0 then 2 else 3 } 1 :=
    ⟨0, by decide, by decide⟩
  refine ⟨?_, hnames, ?_⟩
  · exact not_noLostInterrupt_withOnly _ (by decide) (by decide) (by decide) (by decide) hph hnames
      (by decide)
  · intro hraised
    have hbit := ((raised_iff _ _ 0).mp hraised).2.resolve_left Bool.false_ne_true
    rw [phantomState, intrOf_withOnly _ (by decide) (by decide) (by decide) hph (by decide)] at hbit
    exact absurd hbit (by decide)

end Inferno.Aic
