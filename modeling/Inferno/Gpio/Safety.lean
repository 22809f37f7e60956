import Inferno.Common.Run
import Inferno.Gpio.Model

/-!
# Indices of the GPIO controller

Three bits of a pin's configuration select a group and are not checked against the number of groups,
and the window of a group has sixteen words whatever the number of pins. So a controller is safe
for every sequence of accesses when it has the seven groups that can be selected and the sixteen
pins that fill a window, or no pin and no group at all (`Indexable`).

A single invariant carries the proof, that the words accessed so far are of a given kind
(`Touched`); an access keeps it when its index is in the array and of that kind, and all functions
are made of accesses.
-/

namespace Inferno.Gpio

open Common Bitops BitVec Nat Option Prod

variable {c : Counts} {W : Block → ℕ → Prop}

/-! ## Accesses -/

/-- All words accessed so far are of a kind. -/
def Touched (W : Block → ℕ → Prop) (s : AppleGPIOState c) : Prop :=
  ∀ e ∈ s.touched, W e.1 e.2

variable {b : Block} {group : ℕ} {op : Op}

theorem returnsIn_load {i : ℕ} (hlt : i < c.len b) (hW : W b i) :
    ReturnsIn (Touched W) (load b i : GpioM c _) := by
  intro s hs
  exact ⟨_, _, if_pos hlt, List.forall_mem_cons.mpr ⟨hW, hs⟩⟩

theorem returnsIn_store {i : ℕ} (hlt : i < c.len b) (hW : W b i) {v : BitVec 32} :
    ReturnsIn (Touched W) (store b i v : GpioM c _) := by
  intro s hs
  exact ⟨_, _, if_pos hlt, List.forall_mem_cons.mpr ⟨hW, hs⟩⟩

theorem returnsIn_setIrq (h : group < c.irqGroupCount.toNat) (level : Bool) :
    ReturnsIn (Touched W) (setIrq group level : GpioM c _) := by
  intro s hs
  exact ⟨_, _, if_pos h, hs⟩

theorem returnsIn_setOut {pin : ℕ} (h : pin < c.pinCount.toNat) {level : Bool} :
    ReturnsIn (Touched W) (setOut pin level : GpioM c _) := by
  intro s hs
  exact ⟨_, _, if_pos h, hs⟩

section Bits

variable {b : Block} {base nr : ℕ}

section

variable (hlt : base + nr / 32 < c.len b) (hW : W b (base + nr / 32))

include hlt hW

theorem returnsIn_setBit : ReturnsIn (Touched W) (setBit b base nr : GpioM c _) :=
  (returnsIn_load hlt hW).bind fun _ => returnsIn_store hlt hW

theorem returnsIn_clearBit : ReturnsIn (Touched W) (clearBit b base nr : GpioM c _) :=
  (returnsIn_load hlt hW).bind fun _ => returnsIn_store hlt hW

theorem returnsIn_testBit : ReturnsIn (Touched W) (testBit b base nr : GpioM c _) :=
  (returnsIn_load hlt hW).bind fun _ => ReturnsIn.pure _

end

end Bits

theorem returnsIn_firstLoop {base size : ℕ}
    (hrow : ∀ k < (size + 31) / 32, base + k < c.len .intConfig ∧ W .intConfig (base + k))
    (fuel result : ℕ) : ReturnsIn (Touched W) (firstLoop base size fuel result : GpioM c _) := by
  induction fuel generalizing result with
  | zero => exact ReturnsIn.pure _
  | succ fuel ih =>
    refine ReturnsIn.ite (fun hlt => ?_) fun _ => ReturnsIn.pure _
    obtain ⟨hin, hW⟩ := hrow (result / 32) (by omega)
    refine (returnsIn_load hin hW).bind fun tmp => ?_
    exact ReturnsIn.ite (fun _ => ReturnsIn.pure _) fun _ => ih _

/-! ## Pins -/

/-- What a controller needs for a pin that selects a group: the line of the group is there and its
row is in `int_config`, for every group that three bits other than `INT_MASKED` can select. -/
structure Selectable (c : Counts) : Prop where
  irqs : ∀ irqgrp < 7, irqgrp < c.irqGroupCount.toNat
  rows : ∀ irqgrp < 7, ∀ k < (c.pinCount.toNat + 31) / 32,
    irqgrp * c.pinCount.toNat + k < c.len .intConfig

/-- The group that is selected by an unmasked configuration. -/
theorem irqgrp_lt {cfg : BitVec 32} (h : cfg &&& intMasked ≠ intMasked) :
    ((cfg &&& intMasked) >>> 16).toNat < 7 := by
  have hfield : cfg &&& intMasked = (cfg.extractLsb' 16 3).setWidth 32 <<< 16 := by
    apply eq_of_getElem_eq
    intro i hi
    have hmask : ∀ i : Fin 32, intMasked.getLsbD i = decide (16 ≤ i.val ∧ i.val < 19) := by decide
    have hbit := hmask ⟨i, hi⟩
    grind
  -- What is left is about the three bits of the field.
  rw [hfield] at h ⊢
  revert h
  generalize cfg.extractLsb' 16 3 = g
  revert g
  decide

theorem toNat_inLen (c : Counts) :
    ((c.pinCount + 31) / 32).toNat = (c.pinCount.toNat + 31) / 32 := by
  have hlt := c.pinCount_lt
  show (c.pinCount.toNat + 31) % 2^32 / 32 = _
  rw [mod_eq_of_lt (by omega)]

theorem word_lt {pin : ℕ} (hpin : pin < c.pinCount.toNat) (hb : b = .input ∨ b = .inOld) :
    pin / 32 < c.len b := by
  have hlen : c.len b = (c.pinCount.toNat + 31) / 32 := by
    rcases hb with rfl | rfl <;> exact toNat_inLen c
  omega

variable {α : Type}

/-- What a controller does with a pin may access any word that there is. -/
abbrev Safe (x : GpioM c α) : Prop := ReturnsIn (Touched fun _ _ => True) x

section Pin

variable {pin irqgrp : ℕ}

theorem safe_testBit (hpin : pin < c.pinCount.toNat) {b : Block}
    (hb : b = .input ∨ b = .inOld) : Safe (testBit b 0 pin : GpioM c _) :=
  returnsIn_testBit (by rw [zero_add]; exact word_lt hpin hb) trivial

theorem safe_whenGroup {cfg : BitVec 32} {f : ℕ → GpioM c Unit}
    (hf : ∀ irqgrp < 7, Safe (f irqgrp)) : Safe (whenGroup cfg f) :=
  ReturnsIn.ite (fun h => hf _ (irqgrp_lt h)) fun _ => ReturnsIn.pure _

theorem safe_raise (hc : Selectable c) (hpin : pin < c.pinCount.toNat) (hgrp : irqgrp < 7) :
    Safe (raise pin irqgrp : GpioM c _) :=
  returnsIn_setBit (hc.rows irqgrp hgrp _ (by omega)) trivial

theorem safe_updateIrq (hc : Selectable c) (hgrp : irqgrp < 7) :
    Safe (updateIrq irqgrp : GpioM c _) := by
  refine (returnsIn_firstLoop (fun k hk => ⟨hc.rows irqgrp hgrp k hk, trivial⟩) _ _).bind ?_
  intro first
  exact returnsIn_setIrq (hc.irqs irqgrp hgrp) _

theorem safe_configureGroup (hc : Selectable c) (hpin : pin < c.pinCount.toNat)
    (hgrp : irqgrp < 7) {value : BitVec 32} :
    Safe (configureGroup pin value irqgrp : GpioM c _) := by
  have hraise := safe_raise hc hpin hgrp
  have hclear : Safe (clearBit .intConfig (irqgrp * c.pinCount.toNat) pin : GpioM c _) :=
    returnsIn_clearBit (hc.rows irqgrp hgrp _ (by omega)) trivial
  have hlevel : Safe (raiseOnLevel pin value irqgrp : GpioM c _) := by
    refine ReturnsIn.ite (fun _ => ?_) fun _ => ReturnsIn.ite (fun _ => ?_) fun _ => .pure _
    · exact (safe_testBit hpin (.inl rfl)).bind fun level =>
        ReturnsIn.ite (fun _ => hraise) fun _ => .pure _
    · exact (safe_testBit hpin (.inl rfl)).bind fun level =>
        ReturnsIn.ite (fun _ => .pure _) fun _ => hraise
  exact hclear.bind fun _ => hlevel.bind fun _ => safe_updateIrq hc hgrp

theorem safe_drive (hpin : pin < c.pinCount.toNat) {value : BitVec 32} :
    Safe (drive pin value : GpioM c _) := by
  refine ReturnsIn.ite (fun _ => ?_) fun _ => ?_
  · refine ReturnsIn.ite (fun _ => ?_) fun _ => .pure _
    refine ReturnsIn.ite (fun _ => .pure _) fun _ => ?_
    refine (returnsIn_load hpin trivial).bind fun cfg => ?_
    exact (returnsIn_store hpin trivial).bind fun _ => returnsIn_setOut hpin
  · exact ReturnsIn.ite (fun _ => returnsIn_setOut hpin) fun _ => returnsIn_setOut hpin

section

variable (hc : Selectable c) (hpin : pin < c.pinCount.toNat) {value : BitVec 32}

include hc hpin

theorem safe_appleGpioUpdatePincfg : Safe (appleGpioUpdatePincfg pin value : GpioM c _) := by
  have hgroup : Safe (whenGroup value (configureGroup pin value) : GpioM c _) :=
    safe_whenGroup fun irqgrp hgrp => safe_configureGroup hc hpin hgrp
  refine hgroup.bind fun _ => ?_
  exact (returnsIn_store hpin trivial).bind fun _ => safe_drive hpin

theorem safe_latch (hgrp : irqgrp < 7) (cfg : BitVec 32) {level : Bool} :
    Safe (latch pin cfg level irqgrp : GpioM c _) := by
  have hraise := safe_raise hc hpin hgrp
  have hedge : ∀ p : Bool → Prop, ∀ _ : DecidablePred p, Safe (testBit .inOld 0 pin >>= fun old =>
        if p old then raise pin irqgrp else pure () : GpioM c _) := by
    intro p _
    exact (safe_testBit hpin (.inr rfl)).bind fun old =>
      ReturnsIn.ite (fun _ => hraise) fun _ => .pure _
  refine ReturnsIn.ite (fun _ => ReturnsIn.ite (fun _ => hraise) fun _ => .pure _) fun _ => ?_
  refine ReturnsIn.ite (fun _ => ReturnsIn.ite (fun _ => .pure _) fun _ => hraise) fun _ => ?_
  refine ReturnsIn.ite (fun _ => hedge _ _) fun _ => ?_
  refine ReturnsIn.ite (fun _ => hedge _ _) fun _ => ?_
  exact ReturnsIn.ite (fun _ => hedge _ _) fun _ => .pure _

/-- `apple_gpio_set` is safe. -/
theorem safe_setPin (level : Bool) : Safe (setPin pin level : GpioM c _) := by
  have hinput : 0 + pin / 32 < c.len .input := by
    rw [zero_add]
    exact word_lt hpin (.inl rfl)
  have hlevel : Safe (storeLevel pin level : GpioM c _) :=
    ReturnsIn.ite (fun _ => returnsIn_setBit hinput trivial) fun _ =>
      returnsIn_clearBit hinput trivial
  refine hlevel.bind fun _ => (returnsIn_load hpin trivial).bind fun cfg => ?_
  refine (safe_whenGroup fun irqgrp hgrp => safe_latch hc hpin hgrp cfg).bind fun _ => ?_
  refine (returnsIn_load (word_lt hpin (.inl rfl)) trivial).bind fun now => ?_
  refine (returnsIn_store (word_lt hpin (.inr rfl)) trivial).bind fun _ => ?_
  exact safe_whenGroup fun irqgrp hgrp => safe_updateIrq hc hgrp

end

theorem safe_appleGpioCfgRead (pin : ℕ) : Safe (appleGpioCfgRead pin : GpioM c _) := by
  refine ReturnsIn.ite (fun _ => .pure _) fun hge => ?_
  have hpin : pin < c.pinCount.toNat := Nat.lt_of_not_le hge
  have htest : Safe (testBit .input 0 pin : GpioM c _) := safe_testBit hpin (.inl rfl)
  refine (returnsIn_load hpin trivial).bind fun cfg => ?_
  have hlevel : Safe (insertLevel pin cfg : GpioM c _) :=
    ReturnsIn.ite (fun _ => htest.bind fun _ => .pure _) fun _ => .pure _
  refine hlevel.bind fun val => ?_
  exact ReturnsIn.ite (fun _ => htest.bind fun _ => .pure _) fun _ => .pure _

end Pin

/-! ## Windows -/

/-- The words that belong to a group. -/
def InGroup (c : Counts) (group : ℕ) (b : Block) (i : ℕ) : Prop :=
  b = .intConfig ∧ group * c.pinCount.toNat ≤ i ∧ i < (group + 1) * c.pinCount.toNat

/-- What a controller needs for its windows: they are not larger than the rows, and the rows are in
`int_config`. The last group has only the first word of its window. -/
structure Windowed (c : Counts) : Prop where
  /-- A window fits in a row. -/
  pins : 0 < c.irqGroupCount.toNat → 16 ≤ c.pinCount.toNat
  /-- The windows are in `int_config`. -/
  windows : ∀ group < c.irqGroupCount.toNat, group ≤ 7 →
    group * c.pinCount.toNat + 16 ≤ c.len .intConfig
  /-- So are the bits of the pins in the rows. -/
  rows : ∀ group < c.irqGroupCount.toNat, group ≤ 8 →
    group * c.pinCount.toNat + (c.pinCount.toNat + 31) / 32 ≤ c.len .intConfig

theorem windowGroup_bounds {addr : ℕ} (h : windowGroup addr = some group) :
    (group ≤ 7 ∧ (addr - regGpioint group) / 4 < 16) ∨
      (group = 8 ∧ (addr - regGpioint group) / 4 = 0) := by
  rw [windowGroup] at h
  split_ifs at h with hwin
  · have hgroup : (addr - 0x800) / 2^6 = group := some.inj h
    rw [regGpioint]
    omega

section Window

variable {addr group : ℕ}

section

variable (hc : Windowed c)

include hc

theorem windowWord_spec (hgroup : group < c.irqGroupCount.toNat) (h : windowGroup addr = some group)
    : windowWord c group addr < c.len .intConfig ∧
      InGroup c group .intConfig (windowWord c group addr) := by
  have hpins := hc.pins (zero_lt_of_lt hgroup)
  have hsucc : (group + 1) * c.pinCount.toNat = group * c.pinCount.toNat + c.pinCount.toNat :=
    succ_mul _ _
  rw [windowWord]
  rcases windowGroup_bounds h with ⟨hle, hoffset⟩ | ⟨height, hoffset⟩
  · have hwindow := hc.windows group hgroup hle
    exact ⟨by omega, rfl, by omega, by omega⟩
  · have hrow := hc.rows group hgroup (le_of_eq height)
    exact ⟨by omega, rfl, by omega, by omega⟩

theorem returnsIn_findFirstBit (hgroup : group < c.irqGroupCount.toNat) (hle : group ≤ 8) :
    ReturnsIn (Touched (InGroup c group))
      (findFirstBit (group * c.pinCount.toNat) c.pinCount.toNat : GpioM c _) := by
  have hrow := hc.rows group hgroup hle
  have hsucc : (group + 1) * c.pinCount.toNat = group * c.pinCount.toNat + c.pinCount.toNat :=
    succ_mul _ _
  refine returnsIn_firstLoop (fun k hk => ⟨by omega, rfl, by omega, ?_⟩) _ _
  omega

theorem returnsIn_appleGpioIntWrite (h : windowGroup addr = some group) {value : BitVec 32} :
    ReturnsIn (Touched (InGroup c group)) (appleGpioIntWrite group addr value : GpioM c _) := by
  refine ReturnsIn.ite (fun _ => .pure _) fun hge => ?_
  have hgroup : group < c.irqGroupCount.toNat := Nat.lt_of_not_le hge
  obtain ⟨hlt, hin⟩ := windowWord_spec hc hgroup h
  have hle : group ≤ 8 := by
    rcases windowGroup_bounds h with ⟨hle, -⟩ | ⟨height, -⟩ <;> omega
  refine (returnsIn_load hlt hin).bind fun row => ?_
  refine (returnsIn_store hlt hin).bind fun _ => ?_
  refine (returnsIn_findFirstBit hc hgroup hle).bind fun first => ?_
  exact ReturnsIn.ite (fun _ => returnsIn_setIrq hgroup _) fun _ => .pure _

theorem returnsIn_appleGpioIntRead (h : windowGroup addr = some group) :
    ReturnsIn (Touched (InGroup c group)) (appleGpioIntRead group addr : GpioM c _) := by
  refine ReturnsIn.ite (fun _ => .pure _) fun hge => ?_
  obtain ⟨hlt, hin⟩ := windowWord_spec hc (Nat.lt_of_not_le hge) h
  exact returnsIn_load hlt hin

end

end Window

/-! ## Operations -/

/-- The words that an operation may access: those of the group whose window it accesses, if it does,
and any otherwise. -/
def Op.May (c : Counts) (op : Op) (b : Block) (i : ℕ) : Prop :=
  ∀ group, op.window = some group → InGroup c group b i

variable (s : AppleGPIOState c)

/-- An access to the window of a group touches only words of the group. -/
def Confined (op : Op) : Prop :=
  ∀ s', step s op = some s' → Touched (op.May c) s'

theorem returnsIn_may_of_none {x : GpioM c α} (hop : op.window = none) (h : Safe x) :
    ReturnsIn (Touched (op.May c)) x := by
  have hmay : op.May c = fun _ _ => True := by
    funext b i
    simp [Op.May, hop]
  rwa [hmay]

theorem returnsIn_may_of_some {x : GpioM c α} (hop : op.window = some group)
    (h : ReturnsIn (Touched (InGroup c group)) x) : ReturnsIn (Touched (op.May c)) x := by
  have hmay : op.May c = InGroup c group := by
    funext b i
    simp [Op.May, hop]
  rwa [hmay]

theorem windowGroup_eq_none {addr : ℕ} (h : addr ≤ 0x7FC) : windowGroup addr = none :=
  if_neg (by omega)

/-- In a controller that has what pins and windows need, every operation other than a reset returns
and touches what it may. -/
theorem returnsIn_exec (hpins : 0 < c.pinCount.toNat → Selectable c) (hwindows : Windowed c)
    (hop : op ≠ .reset) : ReturnsIn (Touched (op.May c)) (exec op : GpioM c _) := by
  cases op with
  | write addr value =>
    refine ReturnsIn.ite (fun hcfg => ?_) fun _ => ?_
    · refine returnsIn_may_of_none (windowGroup_eq_none hcfg) ?_
      refine ReturnsIn.ite (fun _ => .pure _) fun hge => ?_
      exact safe_appleGpioUpdatePincfg (hpins (by omega)) (Nat.lt_of_not_le hge)
    · cases hgroup : windowGroup addr.toNat with
      | some group =>
        exact returnsIn_may_of_some hgroup (returnsIn_appleGpioIntWrite hwindows hgroup)
      | none =>
        refine returnsIn_may_of_none hgroup (ReturnsIn.ite (fun _ => ?_) fun _ => .pure _)
        intro s hs
        exact ⟨_, _, rfl, hs⟩
  | read addr =>
    suffices hread : ReturnsIn (Touched (Op.May c (.read addr))) (appleGpioRegRead addr.toNat) from
      hread.bind fun _ => .pure _
    refine ReturnsIn.ite (fun hcfg => ?_) fun _ => ?_
    · exact returnsIn_may_of_none (windowGroup_eq_none hcfg) (safe_appleGpioCfgRead _)
    · cases hgroup : windowGroup addr.toNat with
      | some group =>
        exact returnsIn_may_of_some hgroup (returnsIn_appleGpioIntRead hwindows hgroup)
      | none =>
        refine returnsIn_may_of_none hgroup (ReturnsIn.ite (fun _ => ?_) fun _ => ?_)
        · intro s hs
          exact ⟨_, _, rfl, hs⟩
        · exact ReturnsIn.ite (fun _ => .pure _) fun _ => .pure _
  | set pin level =>
    refine returnsIn_may_of_none rfl (ReturnsIn.ite (fun _ => .pure _) fun hge => ?_)
    exact safe_setPin (hpins (by omega)) (Nat.lt_of_not_le hge) _
  | reset => exact absurd rfl hop

theorem step_of_returnsIn (h : ReturnsIn (Touched (op.May c)) (exec op : GpioM c _))
    (s : AppleGPIOState c) : Confined s op ∧ ∃ s', step s op = some s' := by
  obtain ⟨a, s', hreturns, htouched⟩ := h { s with touched := [] } nofun
  have hstep : step s op = some s' := by
    rw [step, hreturns]
    rfl
  refine ⟨?_, s', hstep⟩
  intro s'' hs''
  rw [hstep] at hs''
  exact some.inj hs'' ▸ htouched

/-! ## Numbers of pins and groups -/

/-- The number of pins and groups for which a controller is safe: none of both, or the sixteen pins
of a window or more and the seven groups that can be selected or more, with a length of `int_config`
that has not wrapped or has wrapped to one that holds what can be accessed. -/
def Indexable (c : Counts) : Prop :=
  (c.pinCount.toNat = 0 ∧ c.irqGroupCount.toNat = 0) ∨
    (16 ≤ c.pinCount.toNat ∧ 7 ≤ c.irqGroupCount.toNat ∧
      (c.irqGroupCount.toNat * c.pinCount.toNat < 2^32 ∨
        8 * c.pinCount.toNat + (c.pinCount.toNat + 31) / 32 ≤
          c.irqGroupCount.toNat * c.pinCount.toNat % 2^32))

theorem len_intConfig (c : Counts) :
    c.len .intConfig = c.irqGroupCount.toNat * c.pinCount.toNat % 2^32 :=
  toNat_mul _ _

/-- A controller with such numbers has what windows need. -/
theorem Indexable.windowed (h : Indexable c) : Windowed c := by
  have hlen := len_intConfig c
  -- The rows of groups that exist are in front of the end of an `int_config` that has not wrapped.
  have hrow : ∀ group < c.irqGroupCount.toNat, group * c.pinCount.toNat + c.pinCount.toNat ≤
        c.irqGroupCount.toNat * c.pinCount.toNat := by
    intro group hgroup
    rw [← Nat.succ_mul]
    exact mul_le_mul_right _ hgroup
  rcases h with ⟨-, hzero⟩ | ⟨hpins, -, hroom⟩
  · exact ⟨by omega, fun group hgroup => by omega, fun group hgroup => by omega⟩
  · refine ⟨fun _ => hpins, fun group hgroup hle => ?_, fun group hgroup hle => ?_⟩
    · have hgroup' := hrow group hgroup
      have hmul : group * c.pinCount.toNat ≤ 7 * c.pinCount.toNat := mul_le_mul_right _ hle
      rcases hroom with hroom | hroom
      · omega
      · omega
    · have hgroup' := hrow group hgroup
      have hmul : group * c.pinCount.toNat ≤ 8 * c.pinCount.toNat := mul_le_mul_right _ hle
      rcases hroom with hroom | hroom
      · omega
      · omega

theorem Indexable.selectable (h : Indexable c) (hpos : 0 < c.pinCount.toNat) : Selectable c := by
  have hgroups : 7 ≤ c.irqGroupCount.toNat := by
    rcases h with ⟨hzero, -⟩ | ⟨-, hgroups, -⟩ <;> omega
  refine ⟨fun irqgrp hgrp => by omega, fun irqgrp hgrp k hk => ?_⟩
  have hrow := h.windowed.rows irqgrp (by omega) (by omega)
  omega

/-! ## Controllers with other numbers -/

theorem of_load_eq_some {i : ℕ} {s : AppleGPIOState c} {p : BitVec 32 × AppleGPIOState c}
    (h : load b i s = some p) :
    i < c.len b ∧ p = (s.words b i, { s with touched := (b, i) :: s.touched }) := by
  rw [load] at h
  split_ifs at h with hlt
  exact ⟨hlt, (some.inj h).symm⟩

/-- A search in a row without a set bit reads all words of it. -/
theorem row_of_firstLoop {base size fuel j : ℕ} {s : AppleGPIOState c} {p : ℕ × AppleGPIOState c}
    (hzero : ∀ i, s.words .intConfig i = 0) (hfuel : size ≤ 32 * (j + fuel))
    (h : firstLoop base size fuel (32 * j) s = some p) {k : ℕ} (hj : j ≤ k) (hk : 32 * k < size) :
    base + k < c.len .intConfig := by
  induction fuel generalizing j s with
  | zero => omega
  | succ fuel ih =>
    rw [firstLoop, if_pos (by omega)] at h
    obtain ⟨tmp, s', hload, hrest⟩ := exists_of_bind_eq_some h
    obtain ⟨hlt, hp⟩ := of_load_eq_some hload
    obtain ⟨rfl, rfl⟩ := mk.inj hp
    have hword : 32 * j / 32 = j := by omega
    rw [hword] at hlt
    rcases eq_or_lt_of_le hj with rfl | hnext
    · exact hlt
    · rw [hzero] at hrest
      have hzero' : ∀ i, ({ s with touched := (.intConfig, base + 32 * j / 32) :: s.touched } :
          AppleGPIOState c).words .intConfig i = 0 := hzero
      exact ih (j := j + 1) hzero' (by omega) hrest hnext

theorem pins_of_safely (h : Safely step Confined (appleGpioNew c) [.read 0x83C])
    (hgroups : 0 < c.irqGroupCount.toNat) : 16 ≤ c.pinCount.toNat := by
  obtain ⟨hconfined, s', hstep, -⟩ := h
  have htouched : (Block.intConfig, 15) ∈ s'.touched := by
    obtain ⟨p, hexec, rfl⟩ := map_eq_some_iff.mp hstep
    obtain ⟨a, s₁, hread, hpure⟩ := exists_of_bind_eq_some hexec
    have hread' : appleGpioIntRead 0 0x83C { appleGpioNew c with touched := [] } = some (a, s₁) :=
      hread
    rw [appleGpioIntRead, if_neg (by omega)] at hread'
    obtain ⟨hlt, hp⟩ := of_load_eq_some hread'
    have hword : windowWord c 0 0x83C = 15 := by
      rw [windowWord, Nat.zero_mul]
      rfl
    obtain rfl : ((), s₁) = p := some.inj hpure
    rw [(mk.inj hp).2, hword]
    exact List.mem_cons_self
  obtain ⟨-, -, hlt⟩ := hconfined s' hstep _ htouched 0 rfl
  omega

theorem groups_of_safely (h : Safely step Confined (appleGpioNew c) [.write 0 (6 <<< 16)])
    (hpins : 0 < c.pinCount.toNat) : 7 ≤ c.irqGroupCount.toNat := by
  obtain ⟨-, s', hstep, -⟩ := h
  obtain ⟨p, hexec, -⟩ := map_eq_some_iff.mp hstep
  have hwrite : appleGpioCfgWrite 0 (6 <<< 16) { appleGpioNew c with touched := [] } = some p :=
    hexec
  rw [appleGpioCfgWrite, if_neg (by omega)] at hwrite
  obtain ⟨_, s₁, hgroup, -⟩ := exists_of_bind_eq_some hwrite
  obtain ⟨_, s₂, hclear, -⟩ := exists_of_bind_eq_some hgroup
  obtain ⟨_, s₃, hload, -⟩ := exists_of_bind_eq_some hclear
  obtain ⟨hlt, -⟩ := of_load_eq_some hload
  have hselect : ((6 <<< 16 &&& intMasked) >>> 16 : BitVec 32).toNat = 6 := by decide
  rw [len_intConfig, hselect] at hlt
  -- With less groups, `int_config` ends in front of the row of this one.
  by_contra hfew
  have hmul : c.irqGroupCount.toNat * c.pinCount.toNat ≤ 6 * c.pinCount.toNat :=
    mul_le_mul_right _ (by omega)
  omega

theorem row_of_safely (h : Safely step Confined (appleGpioNew c) [.write 0xA00 0])
    (hgroups : 8 < c.irqGroupCount.toNat) (hpins : 0 < c.pinCount.toNat) :
    8 * c.pinCount.toNat + (c.pinCount.toNat + 31) / 32 ≤ c.len .intConfig := by
  obtain ⟨-, s', hstep, -⟩ := h
  obtain ⟨p, hexec, -⟩ := map_eq_some_iff.mp hstep
  have hwrite : appleGpioIntWrite 8 0xA00 0 { appleGpioNew c with touched := [] } = some p := hexec
  rw [appleGpioIntWrite, if_neg (by omega)] at hwrite
  obtain ⟨row, s₁, hload, hwrite⟩ := exists_of_bind_eq_some hwrite
  obtain ⟨_, s₂, hstore, hwrite⟩ := exists_of_bind_eq_some hwrite
  obtain ⟨first, s₃, hfind, -⟩ := exists_of_bind_eq_some hwrite
  obtain ⟨-, hp⟩ := of_load_eq_some hload
  obtain ⟨rfl, rfl⟩ := mk.inj hp
  have hzero : ∀ i, s₂.words .intConfig i = 0 := by
    unfold store at hstore
    split_ifs at hstore
    obtain ⟨-, rfl⟩ := mk.inj (some.inj hstore)
    intro i
    simp [appleGpioNew]
  have hlast := row_of_firstLoop (j := 0) hzero (by omega) hfind
    (k := (c.pinCount.toNat + 31) / 32 - 1) (zero_le _) (by omega)
  omega

/-- These three operations go well only if the numbers of pins and groups are such. -/
theorem indexable_of_safely (hread : Safely step Confined (appleGpioNew c) [.read 0x83C])
    (hselect : Safely step Confined (appleGpioNew c) [.write 0 (6 <<< 16)])
    (hlast : Safely step Confined (appleGpioNew c) [.write 0xA00 0]) : Indexable c := by
  have hpc := c.pinCount_lt
  rcases Nat.eq_zero_or_pos c.pinCount.toNat with hzero | hpos
  · have hnone : ¬ 0 < c.irqGroupCount.toNat := by
      intro hgroups
      have hpins := pins_of_safely hread hgroups
      omega
    exact .inl ⟨hzero, by omega⟩
  · have hgroups := groups_of_safely hselect hpos
    refine .inr ⟨pins_of_safely hread (by omega), hgroups, ?_⟩
    rw [or_iff_not_imp_left]
    intro hwraps
    -- Eight rows of less than 512 words have not wrapped.
    have hmany : 8 < c.irqGroupCount.toNat := by
      by_contra hfew
      have hmul : c.irqGroupCount.toNat * c.pinCount.toNat ≤ 8 * c.pinCount.toNat :=
        mul_le_mul_right _ (by omega)
      omega
    exact row_of_safely hlast hmany hpos

/-! ## All sequences of operations -/

theorem Indexable.step (h : Indexable c) (hop : op ≠ .reset) (s : AppleGPIOState c) :
    Confined s op ∧ ∃ s', Gpio.step s op = some s' :=
  step_of_returnsIn (returnsIn_exec h.selectable h.windowed hop) s

/-- A reset computes the size of `int_config` in 64 bits, so it is a step exactly if the length has
not wrapped. -/
theorem step_reset_iff : (∃ s', step s .reset = some s')
    ↔ c.irqGroupCount.toNat * c.pinCount.toNat < 2^32 := by
  have hlen := len_intConfig c
  have hcomm := mul_comm c.pinCount.toNat c.irqGroupCount.toNat
  constructor
  · rintro ⟨s', hstep⟩
    obtain ⟨p, hexec, -⟩ := map_eq_some_iff.mp hstep
    obtain ⟨_, s₁, -, hrest⟩ := exists_of_bind_eq_some hexec
    obtain ⟨_, s₂, hfill, -⟩ := exists_of_bind_eq_some hrest
    unfold fill at hfill
    split_ifs at hfill with hfits
    omega
  · intro hlt
    have hfits : c.pinCount.toNat * c.irqGroupCount.toNat ≤ c.len .intConfig := by
      rw [hlen, mod_eq_of_lt hlt, hcomm]
    have hfill : ∀ (b : Block) (n : ℕ) (v : BitVec 32), n ≤ c.len b →
        ReturnsIn (fun _ => True) (fill b n v : GpioM c _) := fun b n v hn s _ =>
      ⟨_, _, if_pos hn, trivial⟩
    have hreset : ReturnsIn (fun _ => True) (appleGpioReset : GpioM c _) := by
      refine (hfill .gpioCfg _ _ (le_refl _)).bind fun _ => ?_
      refine (hfill .intConfig _ _ hfits).bind fun _ => ?_
      exact (hfill .inOld _ _ (le_refl _)).bind fun _ => hfill .input _ _ (le_refl _)
    obtain ⟨_, s', hreturns, -⟩ := hreset { s with touched := [] } trivial
    exact ⟨s', map_eq_some_iff.mpr ⟨_, hreturns, rfl⟩⟩

/-- Every sequence of register accesses and pin level changes stays inside of the arrays, and in the
windows inside of their groups, exactly if the numbers of pins and groups are such. -/
theorem gpio_indexing_iff (c : Counts) :
    (∀ ops : List Op, .reset ∉ ops → Safely step Confined (appleGpioNew c) ops) ↔ Indexable c := by
  constructor
  · intro h
    exact indexable_of_safely (h _ (by simp)) (h _ (by simp)) (h _ (by simp))
  · intro h ops hops
    exact safely_of_forall (fun op hop s => h.step (ne_of_mem_of_not_mem hop hops) s) _

/-- One pin and one group. -/
def onePin : Counts := ⟨1, 1, by decide⟩

/-- One pin and one group are accepted. A configuration of the pin that selects group 6 accesses a
word outside of `int_config`, and so does a write to the last word of the window of the group. -/
theorem gpio_indexing_one_pin : step (appleGpioNew onePin) (.write 0 (6 <<< 16)) = none ∧
      step (appleGpioNew onePin) (.write 0x83C 0) = none :=
  ⟨rfl, rfl⟩

end Inferno.Gpio
