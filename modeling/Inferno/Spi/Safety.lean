import Inferno.Spi.Model

/-!
# The queues and staging buffers of the SPI controller

A run of the controller never fails an assertion of its queues: it takes words only from a queue
that is not empty and puts them only into one that is not full, and a transfer moves no more words
than there are, or than there is room for (`Inv`). What fails is the word size: a configuration with
the fourth value of the field stops the emulator.

A staging buffer has the bytes that the channel has left when these are less than what the
controller could transfer, and the loops over it go in steps of a word. So its accesses are inside
exactly if that number is then a multiple of the word size (`accesses_inside_iff`).
-/

namespace Inferno.Spi

open Common Fifo32 BitVec List Option Nat

variable {ε : Type} {io : Env ε} {s : AppleSPIState ε}

/-! ## Staging buffers -/

variable (t : Transfer)

/-- The accesses to the staging buffer of a transfer. -/
def Transfer.accesses : List Staged :=
  (offsets t.width t.len).map fun i => ⟨i, t.width, t.len⟩

/-- The controller transfers whole words. -/
structure Transfer.Whole (t : Transfer) : Prop where
  pos : 0 < t.width
  /-- What could be transferred is a number of words. -/
  dvd : t.width ∣ t.wanted

/-- The steps through a buffer stay inside of it exactly if it holds a number of words. -/
theorem offsets_inside_iff {width len : ℕ} (h : 0 < width) :
    (∀ i ∈ offsets width len, i + width ≤ len) ↔ width ∣ len := by
  have hdiv := div_add_mod len width
  have hmod := mod_lt len h
  constructor
  · intro hinside
    by_contra hnot
    -- The last step starts at the last multiple of the word size.
    have hlast : len / width < (len + width - 1) / width := by
      rw [lt_div_iff_mul_lt h, mul_comm]
      omega
    have hin := hinside (width * (len / width))
      (mem_map.mpr ⟨len / width, mem_range.mpr hlast, rfl⟩)
    omega
  · rintro ⟨n, rfl⟩ i hi
    obtain ⟨k, hk, rfl⟩ := mem_map.mp hi
    have hlt : k < (width * n + width - 1) / width := mem_range.mp hk
    have hle : k + 1 ≤ n := by
      rw [lt_div_iff_mul_lt h] at hlt
      by_contra hcon
      have hmul : width * n ≤ width * k := mul_le_mul_left _ (by omega)
      rw [mul_comm] at hlt
      omega
    calc width * k + width = width * (k + 1) := (mul_succ width k).symm
      _ ≤ width * n := mul_le_mul_left _ hle

/-- The accesses of a transfer are inside exactly if the channel, when it has less left than could
be transferred, has a number of words left. -/
theorem accesses_inside_iff {t : Transfer} (h : t.Whole) :
    (∀ a ∈ t.accesses, a.offset + a.width ≤ a.len) ↔
      (t.remaining < t.wanted → t.width ∣ t.remaining) := by
  have hoffsets : (∀ a ∈ t.accesses, a.offset + a.width ≤ a.len) ↔
      ∀ i ∈ offsets t.width t.len, i + t.width ≤ t.len := by
    simp [Transfer.accesses]
  rw [hoffsets, offsets_inside_iff h.pos, Transfer.len]
  by_cases hless : t.remaining < t.wanted
  · rw [min_eq_right (le_of_lt hless)]
    exact ⟨fun hdvd _ => hdvd, fun hdvd => hdvd hless⟩
  · rw [min_eq_left (Nat.le_of_not_lt hless)]
    exact iff_of_true h.dvd fun hcon => absurd hcon hless

theorem length_offsets_le {width len n : ℕ} (h : 0 < width) (hlen : len ≤ n * width) :
    (offsets width len).length ≤ n := by
  rw [offsets, length_map, length_range, ← Nat.lt_succ_iff, div_lt_iff_lt_mul h, Nat.succ_mul]
  omega

/-! ## Invariant -/

/-- What holds between operations: the queues hold whole words, the word size is one of the three,
and the accesses to staging buffers are those of the transfers. -/
structure Inv (s : AppleSPIState ε) : Prop where
  tx : ∃ n, Words 16 n s.txFifo
  rx : ∃ n, Words 16 n s.rxFifo
  cfg : regCfgWordSize (s.regs regCfg) ≠ 3
  whole : ∀ t ∈ s.transfers, t.Whole
  staged : s.staged = s.transfers.flatMap Transfer.accesses

/-- Only the status register may have changed. -/
def Frame (s s' : AppleSPIState ε) : Prop := ∀ a, a ≠ regStatus → s'.regs a = s.regs a

theorem setReg_self (s : AppleSPIState ε) {a : ℕ} (v : BitVec 32) :
    (Spi.setReg s a v).regs a = v := by
  simp [Spi.setReg]

theorem setReg_of_ne {s : AppleSPIState ε} {a b : ℕ} (h : b ≠ a) {v : BitVec 32} :
    (Spi.setReg s a v).regs b = s.regs b := by
  simp [Spi.setReg, h]

theorem Inv.setReg (h : Inv s) {a : ℕ} (ha : a ≠ regCfg) (v : BitVec 32) :
    Inv (Spi.setReg s a v) := by
  refine ⟨h.tx, h.rx, ?_, h.whole, h.staged⟩
  rw [setReg_of_ne (Ne.symm ha)]
  exact h.cfg

theorem Inv.setStatus (h : Inv s) (bits : BitVec 32) :
    Inv (Spi.setStatus s bits) ∧ Frame s (Spi.setStatus s bits) :=
  ⟨h.setReg (by decide) _, fun _ ha => setReg_of_ne ha⟩

theorem Inv.env (h : Inv s) {env : ε} : Inv { s with env := env } :=
  ⟨h.tx, h.rx, h.cfg, h.whole, h.staged⟩

theorem regCfgWordSize_cases (x : BitVec 32) :
    regCfgWordSize x = 0 ∨ regCfgWordSize x = 1 ∨ regCfgWordSize x = 2 ∨ regCfgWordSize x = 3 := by
  have hlt : (regCfgWordSize x).toNat < 4 := by
    have hand : (regCfgWordSize x).toNat = (x >>> 15).toNat % 2^2 := by
      exact and_two_pow_sub_one_eq_mod _ 2
    rw [hand]
    exact mod_lt _ (by decide)
  generalize regCfgWordSize x = field at hlt
  have hcases : field.toNat = 0 ∨ field.toNat = 1 ∨ field.toNat = 2 ∨ field.toNat = 3 := by omega
  rcases hcases with h | h | h | h
  · exact .inl (eq_of_toNat_eq h)
  · exact .inr (.inl (eq_of_toNat_eq h))
  · exact .inr (.inr (.inl (eq_of_toNat_eq h)))
  · exact .inr (.inr (.inr (eq_of_toNat_eq h)))

/-- There is a word size exactly if the field does not have the last value, and it divides the
number of 32-bit words. -/
theorem appleSpiWordSize_exactly {s : AppleSPIState ε} :
    Exactly (appleSpiWordSize s) (regCfgWordSize (s.regs regCfg) ≠ 3) fun w =>
      0 < w ∧ w ∣ 2^32 := by
  unfold appleSpiWordSize
  rcases regCfgWordSize_cases (s.regs regCfg) with h | h | h | h
  · rw [h]
    exact exactly_some (by decide) ⟨by decide, by decide⟩
  · rw [h]
    exact exactly_some (by decide) ⟨by decide, by decide⟩
  · rw [h]
    exact exactly_some (by decide) ⟨by decide, by decide⟩
  · rw [h]
    exact exactly_none fun hne => hne rfl

theorem Inv.wordSize (h : Inv s) : Exactly (appleSpiWordSize s) True fun w => 0 < w ∧ w ∣ 2^32 :=
  appleSpiWordSize_exactly.imp (iff_true_intro h.cfg) fun _ _ hw => hw

/-! ## Refilling and flushing -/

variable (buffer : ℕ → UInt8)

section

variable {n : ℕ} {s : AppleSPIState ε}

theorem foldlM_pushStaged (hs : Words 16 n s.txFifo) (is : List ℕ) (hroom : n + is.length ≤ 16) :
    ∃ f, is.foldlM (pushStaged t buffer) s = some { s with
          txFifo := f, staged := s.staged ++ is.map fun i => ⟨i, t.width, t.len⟩ } ∧
      Words 16 (n + is.length) f := by
  induction is generalizing n s with
  | nil => exact ⟨s.txFifo, by simp, hs⟩
  | cons i is ih =>
    rw [length_cons] at hroom
    obtain ⟨f, hpush, hf⟩ :=
      (fifo32Push_exactly hs).exists_some (by omega)
    have hfirst : pushStaged t buffer s i = some (stage { s with txFifo := f } t i) := by
      rw [pushStaged, hpush, map_some]
    obtain ⟨f', hrest, hf'⟩ := ih (s := stage { s with txFifo := f } t i) hf (by omega)
    refine ⟨f', ?_, by rwa [add_right_comm] at hf'⟩
    rw [foldlM_cons, hfirst]
    refine hrest.trans ?_
    simp [stage]

theorem foldlM_popStaged (hs : Words 16 n s.rxFifo) {is : List ℕ} (hwords : is.length ≤ n) :
    ∃ f buffer', is.foldlM (popStaged t) (s, buffer) = some ({ s with
          rxFifo := f, staged := s.staged ++ is.map fun i => ⟨i, t.width, t.len⟩ }, buffer') ∧
      Words 16 (n - is.length) f := by
  induction is generalizing n s buffer with
  | nil => exact ⟨s.rxFifo, buffer, by simp, hs⟩
  | cons i is ih =>
    rw [length_cons] at hwords ⊢
    obtain ⟨m, rfl⟩ : ∃ m, n = m + 1 := ⟨n - 1, by omega⟩
    obtain ⟨w, f, hpop, hf⟩ := fifo32Pop_words hs
    have hfirst : popStaged t (s, buffer) i =
        some (stage { s with rxFifo := f } t i, storeWord buffer t.width i w) := by
      rw [popStaged, hpop, map_some]
    obtain ⟨f', buffer', hrest, hf'⟩ := ih (storeWord buffer t.width i w)
      (s := stage { s with rxFifo := f } t i) hf (by omega)
    refine ⟨f', buffer', ?_, by rwa [Nat.add_sub_add_right]⟩
    rw [foldlM_cons, hfirst]
    refine hrest.trans ?_
    simp [stage]

end

theorem Inv.transfer (h : Inv s) {t : Transfer} (ht : t.Whole) {tx rx : Fifo8}
    (htx : ∃ n, Words 16 n tx) (hrx : ∃ n, Words 16 n rx) (env : ε) : Inv { s with
      env := env, txFifo := tx, rxFifo := rx, transfers := s.transfers ++ [t],
      staged := s.staged ++ t.accesses } := by
  refine ⟨htx, hrx, h.cfg, ?_, ?_⟩
  · intro t' ht'
    rcases mem_append.mp ht' with hold | hnew
    · exact h.whole t' hold
    · rwa [mem_singleton.mp hnew]
  · rw [flatMap_append, flatMap_singleton, h.staged]

theorem refillTx_exactly (h : Inv s) (hempty : Words 16 0 s.txFifo) (remaining : ℕ) {width : ℕ}
    (hpos : 0 < width) (hdvd : width ∣ 2^32) :
    Exactly (refillTx io s remaining width) True fun s' => Inv s' ∧ Frame s s' := by
  unfold refillTx
  dsimp only
  rw [fifo32NumFree_words hempty]
  split_ifs
  · exact exactly_some trivial (h.setStatus _)
  · exact exactly_some trivial ⟨h, fun _ _ => rfl⟩
  · generalize htxcnt : (s.regs regTxcnt * BitVec.ofNat 32 width).toNat = dmaLen
    generalize ht : (⟨width, min dmaLen ((16 - 0) * width), remaining⟩ : Transfer) = t
    have hwhole : t.Whole := by
      subst ht
      refine ⟨hpos, ?_⟩
      -- A multiple of the word size stays one modulo a power of two that it divides.
      have hdma : width ∣ dmaLen := by
        rw [← htxcnt, toNat_mul, toNat_ofNat, mul_mod_mod]
        exact (dvd_mod_iff hdvd).mpr (dvd_mul_left _ _)
      rw [min_def]
      split_ifs
      · exact hdma
      · exact dvd_mul_left _ _
    have hlen : (offsets t.width t.len).length ≤ 16 := by
      subst ht
      exact length_offsets_le hpos ((min_le_left _ _).trans (min_le_right _ _))
    obtain ⟨f, hfold, hf⟩ := foldlM_pushStaged t (io.dmaRead s.env t.len).1 hempty
      (s := { s with env := (io.dmaRead s.env t.len).2, transfers := s.transfers ++ [t] })
      (offsets t.width t.len) (by omega)
    have hrefill : refill io s t = some _ := hfold
    rw [hrefill]
    exact exactly_some trivial ⟨h.transfer hwhole ⟨_, hf⟩ h.rx _, fun _ _ => rfl⟩

/-- `apple_spi_update_xfer_tx` returns. -/
theorem appleSpiUpdateXferTx_exactly (h : Inv s) :
    Exactly (appleSpiUpdateXferTx io s) True fun s' => Inv s' ∧ Frame s s' := by
  obtain ⟨n, hn⟩ := h.tx
  unfold appleSpiUpdateXferTx
  by_cases hempty : fifo32IsEmpty s.txFifo = true
  · obtain rfl : n = 0 := (fifo32IsEmpty_iff hn).mp hempty
    rw [if_neg (not_not.mpr hempty)]
    by_cases hmode : inDmaMode s
    · split_ifs
      · exact exactly_some trivial (h.setStatus _)
      · exact h.wordSize.bind_true fun w hw => refillTx_exactly h hn _ hw.1 hw.2
    · rw [if_pos hmode]
      exact exactly_some trivial (h.setStatus _)
  · rw [if_pos hempty]
    exact exactly_some trivial ⟨h, fun _ _ => rfl⟩

/-- `apple_spi_flush_rx` returns. -/
theorem appleSpiFlushRx_exactly (h : Inv s) :
    Exactly (appleSpiFlushRx io s) True fun s' => Inv s' ∧ Frame s s' := by
  obtain ⟨n, hn⟩ := h.rx
  unfold appleSpiFlushRx
  by_cases hmode : inDmaMode s
  swap
  · rw [if_pos hmode]
    exact exactly_some trivial ⟨h, fun _ _ => rfl⟩
  split_ifs
  · exact exactly_some trivial ⟨h, fun _ _ => rfl⟩
  · refine h.wordSize.bind_true fun w hw => ?_
    unfold flushRx
    dsimp only
    rw [fifo32NumUsed_words hn]
    split_ifs
    · exact exactly_some trivial ⟨h, fun _ _ => rfl⟩
    · generalize ht : (⟨w, n * w, (io.rxRemaining s.env).toNat⟩ : Transfer) = t
      have hwhole : t.Whole := by
        subst ht
        exact ⟨hw.1, dvd_mul_left _ _⟩
      have hlen : (offsets t.width t.len).length ≤ n := by
        subst ht
        exact length_offsets_le hw.1 (min_le_left _ _)
      obtain ⟨f, buffer, hfold, hf⟩ := foldlM_popStaged t (fun _ => 0) hn
        (s := { s with transfers := s.transfers ++ [t] }) hlen
      rw [flush, hfold]
      exact exactly_some trivial ⟨h.transfer hwhole h.tx ⟨_, hf⟩ _, fun _ _ => rfl⟩

theorem flushFull_exactly (h : Inv s) :
    Exactly (flushFull io s) True fun s' => Inv s' ∧ Frame s s' := by
  unfold flushFull
  split_ifs
  · exact appleSpiFlushRx_exactly h
  · exact exactly_some trivial ⟨h, fun _ _ => rfl⟩

/-! ## Rounds of the loops -/

theorem exchange_spec (io : Env ε) (s : AppleSPIState ε) (bytes : List (BitVec 32)) :
    ∃ env, (exchange io s bytes).2 = { s with env := env } := by
  refine invariant_run (P := fun p : BitVec 32 × AppleSPIState ε =>
    ∃ env, p.2 = { s with env := env }) ?_ ⟨s.env, rfl⟩ bytes
  rintro ⟨rx, _⟩ b ⟨env, rfl⟩
  exact ⟨_, rfl⟩

/-- `apple_spi_update_xfer_rx` changes the status only. -/
theorem appleSpiUpdateXferRx_spec (h : Inv s) :
    Inv (appleSpiUpdateXferRx s) ∧ Frame s (appleSpiUpdateXferRx s) := by
  unfold appleSpiUpdateXferRx
  split_ifs
  · exact ⟨h.setReg (by decide) _, fun _ ha => setReg_of_ne ha⟩
  · exact h.setStatus _

/-- A word is received, or the loop ends: either way the configuration and the number of words to
send are the same, and the number of words to receive is one less when the loop goes on. -/
theorem receiveWord_exactly (h : Inv s) (rx : BitVec 32) :
    Exactly (receiveWord io s rx) True fun p =>
      Inv p.2 ∧ p.2.regs regTxcnt = s.regs regTxcnt ∧
        (p.1 = true → p.2.regs regRxcnt = s.regs regRxcnt - 1) := by
  refine (flushFull_exactly h).bind_true fun s₁ hs₁ => ?_
  obtain ⟨hinv, hframe⟩ := hs₁
  have htxcnt := hframe regTxcnt (by decide)
  have hrxcnt := hframe regRxcnt (by decide)
  obtain ⟨n, hn⟩ := hinv.rx
  split_ifs with hfull
  · obtain ⟨hinv', hframe'⟩ := hinv.setStatus regStatusRxoverflow
    exact exactly_some trivial ⟨hinv', (hframe' _ (by decide)).trans htxcnt, nofun⟩
  · have hroom : n + 1 ≤ 16 := by
      have hle := hn.le
      have hne : n ≠ 16 := fun hcon => hfull ((fifo32IsFull_iff hn).mpr hcon)
      omega
    obtain ⟨f, hpush, hf⟩ := (fifo32Push_exactly hn).exists_some hroom
    rw [hpush]
    have hpushed : Inv { s₁ with rxFifo := f } :=
      ⟨hinv.tx, ⟨_, hf⟩, hinv.cfg, hinv.whole, hinv.staged⟩
    have hcounted := hpushed.setReg (a := regRxcnt) (by decide) (s₁.regs regRxcnt - 1)
    obtain ⟨hinv', hframe'⟩ := appleSpiUpdateXferRx_spec hcounted
    refine exactly_some trivial ⟨hinv', ?_, fun _ => ?_⟩
    · rw [hframe' regTxcnt (by decide), ← htxcnt]
      exact setReg_of_ne (show regTxcnt ≠ regRxcnt by decide)
    · rw [hframe' regRxcnt (by decide), ← hrxcnt]
      exact setReg_self _ _

/-- A word is sent from a queue that is not empty, and the number of words to send is one less. -/
theorem txRound_exactly (h : Inv s) (hempty : fifo32IsEmpty s.txFifo = false) {width : ℕ} :
    Exactly (txRound io width s) True fun p =>
      Inv p.2 ∧ p.2.regs regTxcnt = s.regs regTxcnt - 1 := by
  obtain ⟨n, hn⟩ := h.tx
  have hpos : n ≠ 0 := by
    intro hzero
    rw [(fifo32IsEmpty_iff hn).mpr hzero] at hempty
    cases hempty
  obtain ⟨m, rfl⟩ := exists_eq_succ_of_ne_zero hpos
  obtain ⟨w, f, hpop, hf⟩ := fifo32Pop_words hn
  unfold txRound
  rw [hpop, bind_some]
  dsimp only
  generalize hbytes : (range width).map (fun i => (w >>> (8 * i)) &&& 0xFF) = bytes
  obtain ⟨env, hexchange⟩ := exchange_spec io { s with txFifo := f } bytes
  rw [hexchange]
  have hpopped : Inv { s with txFifo := f, env := env } :=
    ⟨⟨_, hf⟩, h.rx, h.cfg, h.whole, h.staged⟩
  have hcounted := hpopped.setReg (a := regTxcnt) (by decide) (s.regs regTxcnt - 1)
  refine (appleSpiUpdateXferTx_exactly hcounted).bind_true fun s₁ hs₁ => ?_
  obtain ⟨hinv, hframe⟩ := hs₁
  have htxcnt : s₁.regs regTxcnt = s.regs regTxcnt - 1 := by
    rw [hframe regTxcnt (by decide)]
    exact setReg_self _ _
  split_ifs
  · refine (receiveWord_exactly hinv _).imp Iff.rfl fun _ p hp => ?_
    exact ⟨hp.1, hp.2.1.trans htxcnt⟩
  · exact exactly_some trivial ⟨hinv, htxcnt⟩

theorem toNat_sub_one_lt {v : BitVec 32} (h : v ≠ 0) : (v - 1).toNat < v.toNat := by
  have hpos : v.toNat ≠ 0 := fun hzero => h (eq_of_toNat_eq hzero)
  have hle : (1 : BitVec 32) ≤ v := one_le_iff_ne_zero.mpr hpos
  rw [toNat_sub_of_le hle]
  exact sub_lt (pos_of_ne_zero hpos) (by decide)

section

variable {width : ℕ} {fuel : ℕ} {s : AppleSPIState ε} (h : Inv s)

include h

theorem txLoop_exactly (hfuel : (s.regs regTxcnt).toNat < fuel) :
    Exactly (txLoop io width fuel s) True Inv := by
  induction fuel generalizing s with
  | zero => exact absurd hfuel (not_lt_zero _)
  | succ fuel ih =>
    unfold txLoop
    split_ifs with hcond
    · refine (txRound_exactly h (Bool.not_eq_true _ ▸ hcond.2)).bind_true fun p hp => ?_
      obtain ⟨hinv, htxcnt⟩ := hp
      have hless := toNat_sub_one_lt hcond.1
      split_ifs
      · refine ih hinv ?_
        rw [htxcnt]
        exact lt_of_lt_of_le hless (le_of_lt_succ hfuel)
      · exact exactly_some trivial hinv
    · exact exactly_some trivial h

/-- The loop over the words to receive ends. -/
theorem rxLoop_exactly (hfuel : (s.regs regRxcnt).toNat < fuel) :
    Exactly (rxLoop io width fuel s) True Inv := by
  induction fuel generalizing s with
  | zero => exact absurd hfuel (not_lt_zero _)
  | succ fuel ih =>
    unfold rxLoop
    split_ifs with hcond
    · unfold rxRound
      dsimp only
      obtain ⟨env, hexchange⟩ := exchange_spec io s (replicate width 0xFF)
      rw [hexchange]
      refine (receiveWord_exactly (h.env) _).bind_true fun p hp => ?_
      obtain ⟨hinv, -, hrxcnt⟩ := hp
      split_ifs with hgoes
      · refine ih hinv ?_
        have hne : s.regs regRxcnt ≠ 0 := by
          intro hzero
          have hpos := hcond.2.1
          rw [hzero] at hpos
          exact absurd hpos (by decide)
        have hless := toNat_sub_one_lt hne
        rw [hrxcnt hgoes]
        exact lt_of_lt_of_le hless (le_of_lt_succ hfuel)
      · exact exactly_some trivial hinv
    · exact exactly_some trivial h

/-! ## Running -/

theorem complete_inv : Inv (complete s) := by
  unfold complete
  split_ifs
  · exact (h.setStatus _).1
  · exact h

theorem transferWords_exactly {width : ℕ} : Exactly (transferWords io width s) True Inv := by
  refine (appleSpiUpdateXferTx_exactly h).bind_true fun s₁ h₁ => ?_
  refine (txLoop_exactly h₁.1 (lt_succ_self _)).bind_true fun s₂ h₂ => ?_
  refine (flushFull_exactly h₂).bind_true fun s₃ h₃ => ?_
  refine (rxLoop_exactly h₃.1 (lt_succ_self _)).bind_true fun s₄ h₄ => ?_
  refine (appleSpiFlushRx_exactly h₄).bind_true fun s₅ h₅ => ?_
  exact exactly_some trivial (complete_inv h₅.1)

end

/-- What holds apart from the word size, which a write to the configuration may spoil. -/
theorem appleSpiRun_exactly (io : Env ε) (htx : ∃ n, Words 16 n s.txFifo)
    (hrx : ∃ n, Words 16 n s.rxFifo) (hwhole : ∀ t ∈ s.transfers, t.Whole)
    (hstaged : s.staged = s.transfers.flatMap Transfer.accesses) :
    Exactly (appleSpiRun io s) (regCfgWordSize (s.regs regCfg) ≠ 3) Inv := by
  by_cases hcfg : regCfgWordSize (s.regs regCfg) = 3
  · have hnone : appleSpiWordSize s = none := by
      cases hsize : appleSpiWordSize s with
      | none => rfl
      | some w => exact absurd hcfg (appleSpiWordSize_exactly.of_some hsize).1
    rw [appleSpiRun, hnone]
    exact exactly_none fun hne => hne hcfg
  · have h : Inv s := ⟨htx, hrx, hcfg, hwhole, hstaged⟩
    refine appleSpiWordSize_exactly.bind_true fun width _ => ?_
    split_ifs
    · exact exactly_some trivial h
    · exact exactly_some trivial h
    · exact transferWords_exactly h

theorem Inv.run (h : Inv s) : Exactly (appleSpiRun io s) True Inv :=
  (appleSpiRun_exactly io h.tx h.rx h.whole h.staged).imp (iff_true_intro h.cfg) fun _ _ hs' => hs'

/-! ## Operations -/

theorem Inv.updateIrq (h : Inv s) : Inv (appleSpiUpdateIrq s) :=
  ⟨h.tx, h.rx, h.cfg, h.whole, h.staged⟩

theorem Inv.resetFifos (h : Inv s) {value : BitVec 32} : Inv (Spi.resetFifos s value) := by
  obtain ⟨n, hn⟩ := h.tx
  obtain ⟨m, hm⟩ := h.rx
  unfold Spi.resetFifos
  dsimp only
  split_ifs
  · exact ⟨⟨0, fifo32Reset_words hn⟩, ⟨0, fifo32Reset_words hm⟩, h.cfg, h.whole, h.staged⟩
  · exact ⟨h.tx, ⟨0, fifo32Reset_words hm⟩, h.cfg, h.whole, h.staged⟩
  · exact ⟨⟨0, fifo32Reset_words hn⟩, h.rx, h.cfg, h.whole, h.staged⟩
  · exact h

/-- A word is pushed to a transmit queue that is not full. -/
theorem writeTxdata_exactly (h : Inv s) {value : BitVec 32} :
    Exactly (writeTxdata io s value) True Inv := by
  obtain ⟨n, hn⟩ := h.tx
  unfold writeTxdata
  split_ifs with hfull
  · exact exactly_some trivial (h.setReg (by decide) 0)
  · have hroom : n + 1 ≤ 16 := by
      have hle := hn.le
      have hne : n ≠ 16 := fun hcon => hfull ((fifo32IsFull_iff hn).mpr hcon)
      omega
    refine h.wordSize.bind_true fun width _ => ?_
    refine ((fifo32Push_exactly hn).imp (iff_true_intro hroom) fun _ _ hf => hf).bind_true
      fun f hf => ?_
    have hpushed : Inv { s with txFifo := f } := ⟨⟨_, hf⟩, h.rx, h.cfg, h.whole, h.staged⟩
    exact (hpushed.setReg (by decide) value).run

/-- The condition on a write to the configuration, that it has a word size. -/
def WordSizeOk (addr : ℕ) (value : BitVec 32) : Prop := addr = regCfg → regCfgWordSize value ≠ 3

/-- A write to a register returns exactly if it does not configure the missing word size. -/
theorem writeReg_exactly (h : Inv s) (addr : ℕ) {value : BitVec 32} :
    Exactly (writeReg io s addr value) (WordSizeOk addr value) Inv := by
  by_cases hcfg : addr = regCfg
  · subst hcfg
    have hrun := appleSpiRun_exactly io (s := setReg s regCfg value) h.tx h.rx h.whole h.staged
    exact hrun.imp ⟨fun hne _ => hne, fun hok => hok rfl⟩ fun _ _ hs' => hs'
  · -- The other registers leave the word size alone.
    suffices hreturns : Exactly (writeReg io s addr value) True Inv from
      hreturns.imp (iff_of_true trivial fun hcon => absurd hcon hcfg) fun _ _ hs' => hs'
    unfold writeReg
    split_ifs with hctrl hrun hstatus hpin htxdata hcount
    · exact ((h.resetFifos).setReg (by decide) _).run
    · exact exactly_some trivial ((h.resetFifos).setReg (by decide) _)
    · exact exactly_some trivial (h.setReg (by decide) _)
    · exact exactly_some trivial ((h.setReg (by decide) value).env)
    · exact writeTxdata_exactly h
    · exact (h.setReg hcfg value).run
    · exact exactly_some trivial (h.setReg hcfg value)

theorem readRxdata_exactly (h : Inv s) : Exactly (readRxdata io s) True fun p => Inv p.2 := by
  obtain ⟨n, hn⟩ := h.rx
  unfold readRxdata
  split_ifs with hempty
  · exact exactly_some trivial h
  · have hpos : n ≠ 0 := fun hzero => hempty ((fifo32IsEmpty_iff hn).mpr hzero)
    obtain ⟨m, rfl⟩ := exists_eq_succ_of_ne_zero hpos
    obtain ⟨w, f, hpop, hf⟩ := fifo32Pop_words hn
    rw [hpop, bind_some]
    have hpopped : Inv { s with rxFifo := f } := ⟨h.tx, ⟨_, hf⟩, h.cfg, h.whole, h.staged⟩
    dsimp only
    split_ifs
    · exact hpopped.run.map fun _ hs' => hs'
    · exact exactly_some trivial hpopped

theorem appleSpiRegRead_exactly (h : Inv s) (addr : ℕ) :
    Exactly (appleSpiRegRead io s addr) True fun p => Inv p.2 := by
  unfold appleSpiRegRead
  split_ifs
  · exact exactly_some trivial h
  · exact (readRxdata_exactly h).map fun _ hp => hp.updateIrq
  · exact exactly_some trivial h.updateIrq
  · exact exactly_some trivial h.updateIrq

theorem regCfgWordSize_zero : regCfgWordSize 0 ≠ 3 := by decide

/-- The condition on an operation. -/
def Op.WordSizeOk : Op → Prop
  | .write word value => Spi.WordSizeOk (4 * word) value
  | .read _ | .cs _ | .reset => True

/-- An operation returns exactly if it does not configure the missing word size. -/
theorem step_exactly (io : Env ε) (h : Inv s) (op : Op) :
    Exactly (step io s op) op.WordSizeOk fun p => Inv p.2 := by
  cases op with
  | write word value =>
    rw [step, appleSpiRegWrite]
    split_ifs with hmax
    · have hne : 4 * word ≠ regCfg := by
        intro hcon
        rw [hcon] at hmax
        exact absurd hmax (by decide)
      exact exactly_some (fun hcon => absurd hcon hne) h
    · rw [Option.map_map]
      exact (writeReg_exactly h _).map fun _ hs' => hs'.updateIrq
  | read word => exact appleSpiRegRead_exactly h _
  | cs level => exact exactly_some trivial ((h.setReg (by decide) _).env)
  | reset =>
    obtain ⟨n, hn⟩ := h.tx
    obtain ⟨m, hm⟩ := h.rx
    exact exactly_some trivial
      ⟨⟨0, fifo32Reset_words hn⟩, ⟨0, fifo32Reset_words hm⟩, regCfgWordSize_zero, h.whole, h.staged⟩

/-- The invariant holds at first. -/
theorem inv_appleSpiInit (env : ε) (dmaCapable : Bool) : Inv (appleSpiInit env dmaCapable) :=
  ⟨⟨0, rfl, rfl, by decide⟩, ⟨0, rfl, rfl, by decide⟩, regCfgWordSize_zero, nofun, rfl⟩

/-! ## All sequences of operations -/

/-- A sequence of operations ends without a failed assertion, and with all accesses to staging
buffers inside of them, exactly if it does not configure the missing word size and every channel
that had less left than could be transferred had a number of words left. -/
theorem spi_transfer_iff (io : Env ε) (env : ε) (dmaCapable : Bool) (ops : List Op) :
    (∃ values s, replies (step io) (appleSpiInit env dmaCapable) ops = some (values, s) ∧
      ∀ a ∈ s.staged, a.offset + a.width ≤ a.len) ↔ (∀ op ∈ ops, op.WordSizeOk) ∧
      ∀ values s, replies (step io) (appleSpiInit env dmaCapable) ops = some (values, s) →
        ∀ t ∈ s.transfers, t.remaining < t.wanted → t.width ∣ t.remaining := by
  have hinit := inv_appleSpiInit env dmaCapable
  have hreturns := exists_replies_iff_forall (I := Inv)
    (fun s op hs => step_exactly io hs op) hinit ops
  have hinside : ∀ values s,
      replies (step io) (appleSpiInit env dmaCapable) ops = some (values, s) →
      ((∀ a ∈ s.staged, a.offset + a.width ≤ a.len) ↔
        ∀ t ∈ s.transfers, t.remaining < t.wanted → t.width ∣ t.remaining) := by
    intro values s hs
    have hinv : Inv s := invariant_replies (I := Inv)
      (fun s op k s' hs hstep => ((step_exactly io hs op).of_some hstep).2) hinit hs
    rw [hinv.staged, forall_mem_flatMap]
    exact forall₂_congr fun t ht => accesses_inside_iff (hinv.whole t ht)
  constructor
  · rintro ⟨values, s, hs, hstaged⟩
    refine ⟨hreturns.mp ⟨values, s, hs⟩, fun values' s' hs' => ?_⟩
    obtain ⟨-, rfl⟩ := Prod.mk.inj (some.inj (hs.symm.trans hs'))
    exact (hinside values s hs).mp hstaged
  · rintro ⟨hops, htransfers⟩
    obtain ⟨values, s, hs⟩ := hreturns.mpr hops
    exact ⟨values, s, hs, (hinside values s hs).mpr (htransfers values s hs)⟩

/-- Surroundings in which the channel to the device has three bytes left, for ever. -/
def threeBytes : Env Unit where
  ssiTransfer _ _ := (0, ())
  txRemaining _ := 3
  rxRemaining _ := 0
  dmaRead _ _ := (fun _ => 0, ())
  dmaWrite _ _ := ()
  updateCs _ _ := ()

/-- A configuration with all bits of the word size set stops the emulator. In DMA mode with words of
two bytes and three bytes left in the channel, the second word is read at offset 2 of a buffer of
three bytes. -/
theorem spi_transfer_overruns :
    (replies (step threeBytes) (appleSpiInit () true) [.write 1 0x18000]).isNone = true ∧
    (replies (step threeBytes) (appleSpiInit () true)
      [.write 1 0x8040, .write 0 1, .write 19 2]).map
        (fun p => p.2.staged.map fun a => (a.offset, a.width, a.len)) =
      some [(0, 2, 3), (2, 2, 3)] := by
  decide +kernel

end Inferno.Spi
