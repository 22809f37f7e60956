import Inferno.MtSpi.Handlers

/-!
# Which runs go on

Between two bytes the receive buffer is empty, or it holds the bytes of an unfinished frame and its
capacity is the length of the frame as far as they tell (`Inv`). With this invariant the next byte
finds the receive buffer as the handlers need it, and every operation succeeds exactly when the view
accepts it (`step_exactly`).

It follows which runs go on without an assertion that fails, with all buffers as they should be
after every transfer: those that the view accepts (`transfersSafely_iff`).
-/

namespace Inferno.MtSpi

open Common AppleMTSPIBuffer List

/-! ## Transfers -/

/-- The view of a state. -/
def view (s : AppleMTSPIState) : View :=
  ⟨s.rx.data, s.tx.len, s.tx.read_pos, s.pending_hbpp.len⟩

variable {s : AppleMTSPIState}

theorem Stands.view_eq {rx : AppleMTSPIBuffer} {v : View} {s : AppleMTSPIState}
    (h : Stands rx v s) (hrx : rx.data = v.rx) : view s = v := by
  unfold view
  rw [h.rx_eq, hrx, h.tx.len, h.tx.read_pos, h.pending.len]

/-- What holds between two operations. -/
structure Inv (s : AppleMTSPIState) : Prop where
  /-- The receive buffer is empty or holds a frame that is not complete. -/
  rx : s.rx = free ∨ ∃ rx, rx ≠ [] ∧ s.rx = ⟨rx, frameLen rx, 0⟩ ∧ rx.length < frameLen rx
  /-- The guest has not taken more than there is. -/
  read : s.tx.read_pos < s.tx.len ∨ s.tx.len = 0 ∧ s.tx.read_pos = 0
  /-- The buffers are what the view says. -/
  stands : Stands s.rx (view s) s

theorem Inv.push_rx (h : Inv s) (b : UInt8) :
    s.rx.push (.byte b) = some ⟨s.rx.data ++ [b], lenBefore (s.rx.data ++ [b]), 0⟩ ∧
      (s.rx.data ++ [b]).length ≤ lenBefore (s.rx.data ++ [b]) := by
  obtain hrx | ⟨rx, hne, hrx, hlt⟩ := h.rx
  · rw [hrx]
    exact ⟨rfl, le_rfl⟩
  · rw [hrx, lenBefore_append hne, length_append]
    exact ⟨push_byte_eq hlt, hlt⟩

/-- A frame ends when it is complete, and the guest takes a byte. -/
theorem finish_exactly {v : View} (hrx : v.rx ≠ []) (h : Stands ⟨v.rx, frameLen v.rx, 0⟩ v s)
    (hle : v.rx.length ≤ frameLen v.rx) (hread : v.read < v.tx ∨ v.tx = 0 ∧ v.read = 0) :
    Exactly (finish s) True fun p => Inv p.2 ∧ view p.2 = v.finish := by
  have hfull : (if s.rx.isFull then free else s.rx) =
      if v.rx.length = frameLen v.rx then free else ⟨v.rx, frameLen v.rx, 0⟩ := by
    rw [h.rx_eq]
    exact if_congr (isFull_iff hrx) rfl rfl
  unfold finish
  rw [hfull]
  refine (pop_holds h.tx hread).true_bind fun (ret, tx) htx => exactly_some trivial ?_
  have hstands : Stands (if v.rx.length = frameLen v.rx then free else ⟨v.rx, frameLen v.rx, 0⟩)
      v.finish { s with
        rx := if v.rx.length = frameLen v.rx then free else ⟨v.rx, frameLen v.rx, 0⟩, tx := tx
        irq := s.pending_hbpp.isEmpty && s.pending_fw.isEmpty } :=
    ⟨rfl, htx, h.pending, h.packets⟩
  have hview := hstands.view_eq (by
    unfold View.finish
    split_ifs <;> rfl)
  refine ⟨⟨?_, ?_, ?_⟩, hview⟩
  · by_cases hcomplete : v.rx.length = frameLen v.rx
    · exact .inl (if_pos hcomplete)
    · exact .inr ⟨v.rx, hrx, if_neg hcomplete, by omega⟩
  · rw [htx.read_pos, htx.len]
    split_ifs with hmore
    · exact .inl hmore
    · exact .inr ⟨rfl, rfl⟩
  · rw [hview]
    exact hstands

/-- A byte is transferred. -/
theorem transfer_exactly (h : Inv s) (val : BitVec 32) :
    Exactly (transfer s val) ((view s).Accepts (.transfer val)) fun p =>
      Inv p.2 ∧ view p.2 = (view s).step (.transfer val) := by
  obtain ⟨hpush, hle⟩ := h.push_rx (lowByte val)
  have hne : s.rx.data ++ [lowByte val] ≠ [] := append_ne_nil_of_right_ne_nil _ nofun
  have hs : Stands ⟨s.rx.data ++ [lowByte val], lenBefore (s.rx.data ++ [lowByte val]), 0⟩
      ((view s).push (lowByte val))
      { s with rx := ⟨s.rx.data ++ [lowByte val], lenBefore (s.rx.data ++ [lowByte val]), 0⟩ } :=
    ⟨rfl, h.stands.tx, h.stands.pending, h.stands.packets⟩
  obtain ⟨hrx, hread, htx⟩ := ((view s).push (lowByte val)).handle_keeps
  have hhandle := (handle_exactly (v := (view s).push (lowByte val)) hne hs hle).imp
    Iff.rfl fun hok s' hs' => And.intro hs' (View.length_le_frameLen hok.1 hle)
  unfold transfer
  rw [hpush]
  refine hhandle.bind_true fun s' ⟨hs', hlen⟩ => ?_
  rw [← hrx] at hs' hlen
  refine finish_exactly (hrx ▸ hne) hs' hlen ?_
  have hbefore : (view s).read < (view s).tx ∨ (view s).tx = 0 ∧ (view s).read = 0 := h.read
  have htx' : (view s).tx ≤ ((view s).push (lowByte val)).handle.tx := htx
  have hread' : ((view s).push (lowByte val)).handle.read = (view s).read := hread
  omega

/-! ## Touches -/

structure SameBuffers (s s' : AppleMTSPIState) : Prop where
  rx : s'.rx = s.rx
  tx : s'.tx = s.tx
  pending_hbpp : s'.pending_hbpp = s.pending_hbpp
  pending_fw : s'.pending_fw = s.pending_fw

theorem Inv.of_sameBuffers {s' : AppleMTSPIState} (h : Inv s) (hsame : SameBuffers s s') :
    Inv s' ∧ view s' = view s := by
  obtain ⟨hrx, htx, hpending, hfw⟩ := hsame
  have hview : view s' = view s := by rw [view, hrx, htx, hpending, view]
  refine ⟨⟨?_, ?_, ?_⟩, hview⟩
  · rw [hrx]
    exact h.rx
  · rw [htx]
    exact h.read
  · rw [hview]
    exact ⟨rfl, htx ▸ h.stands.tx, hpending ▸ h.stands.pending, hfw ▸ h.stands.packets⟩

variable {now : BitVec 64}

theorem sameBuffers_mouseEvent {dx dy buttons_state : BitVec 32} (s : AppleMTSPIState)
    : SameBuffers s (mouseEvent now dx dy buttons_state s) := by
  unfold mouseEvent
  dsimp only
  split_ifs
  all_goals exact ⟨rfl, rfl, rfl, rfl⟩

theorem sameBuffers_timerTick (s : AppleMTSPIState) : SameBuffers s (timerTick now s) := by
  unfold timerTick
  split_ifs
  all_goals exact ⟨rfl, rfl, rfl, rfl⟩

theorem sendPathUpdate_exactly (h : Inv s) (ts : BitVec 64) (path_stage : UInt8) :
    Exactly (sendPathUpdate s ts path_stage) True fun s' => Inv s' ∧ view s' = view s := by
  have hsize : ∀ ts_delta, sizes (pathUpdate s ts ts_delta path_stage) ≤ 47 := by
    intro ts_delta
    simp [sizes, pathUpdate, Datum.size]
  refine (reportPacket_short (by decide) _ (hsize _) LL_PACKET_LOSSLESS_OUTPUT).true_bind
    fun buf hbuf => exactly_some trivial ?_
  have hs := h.stands.packet hbuf
  exact ⟨⟨h.rx, h.read, ⟨rfl, hs.tx, hs.pending, hs.packets⟩⟩, rfl⟩

/-! ## Runs -/

theorem step_exactly (h : Inv s) {op : Op} :
    Exactly (step s op) ((view s).Accepts op) fun s' => Inv s' ∧ view s' = (view s).step op := by
  cases op with
  | transfer val => exact (transfer_exactly h val).map fun _ hp => hp
  | mouseEvent now dx dy buttons_state =>
    exact exactly_some trivial (h.of_sameBuffers (sameBuffers_mouseEvent s))
  | timerTick now => exact exactly_some trivial (h.of_sameBuffers (sameBuffers_timerTick s))
  | endTimerTick now => exact exactly_some trivial (h.of_sameBuffers ⟨rfl, rfl, rfl, rfl⟩)
  | touchUpdate k =>
    show Exactly (sendTouchUpdateBh s k) True _
    unfold sendTouchUpdateBh
    split
    · exact exactly_some trivial ⟨h, rfl⟩
    · have hsame : SameBuffers s { s with updates := s.updates.eraseIdx k } :=
        ⟨rfl, rfl, rfl, rfl⟩
      obtain ⟨hs, hview⟩ := h.of_sameBuffers hsame
      exact (sendPathUpdate_exactly hs _ _).imp Iff.rfl fun _ _ hs' => ⟨hs'.1, hs'.2.trans hview⟩
  | reset =>
    exact exactly_some trivial ⟨⟨.inl rfl, .inr ⟨rfl, rfl⟩,
      ⟨rfl, holds_free, holds_free, forall_mem_nil _⟩⟩, rfl⟩

variable (display_height : BitVec 32)

/-- The controller after its reset meets the invariant. -/
theorem inv_init : Inv (init display_height) :=
  ⟨.inl rfl, .inr ⟨rfl, rfl⟩, ⟨rfl, holds_free, holds_free, forall_mem_nil _⟩⟩

/-- A buffer is as it should be: there is memory for what it holds, and not more was taken. -/
def AppleMTSPIBuffer.WellFormed (buf : AppleMTSPIBuffer) : Prop :=
  buf.len ≤ buf.capacity ∧ (buf.read_pos < buf.len ∨ buf.len = 0)

/-- The buffers are well formed in every state that meets the invariant. -/
theorem Inv.wellFormed (h : Inv s) :
    s.rx.WellFormed ∧ s.tx.WellFormed ∧ s.pending_hbpp.WellFormed := by
  obtain ⟨hrx, hread, hstands⟩ := h
  refine ⟨?_, ⟨hstands.tx.fits, ?_⟩, ⟨hstands.pending.fits, ?_⟩⟩
  · obtain hrx | ⟨rx, hne, hrx, hlt⟩ := hrx
    · rw [hrx]
      exact ⟨le_rfl, .inr rfl⟩
    · rw [hrx]
      exact ⟨hlt.le, .inl (length_pos_iff.mpr hne)⟩
  · exact hread.imp_right And.left
  · rw [hstands.pending.read_pos]
    exact (Nat.eq_zero_or_pos _).symm

/-- The run goes on without an assertion that fails, and after every operation the buffers are well
formed. -/
def TransfersSafely (ops : List Op) : Prop :=
  Safely step (fun s op => ∀ s', step s op = some s' →
    s'.rx.WellFormed ∧ s'.tx.WellFormed ∧ s'.pending_hbpp.WellFormed) (init display_height) ops

theorem safely_step_iff (h : Inv s) {ops : List Op} :
    Safely step (fun s op => ∀ s', step s op = some s' →
      s'.rx.WellFormed ∧ s'.tx.WellFormed ∧ s'.pending_hbpp.WellFormed) s ops ↔
        Guarded View.step View.Accepts (view s) ops := by
  refine safely_iff_guarded_of_exactly (fun _ op hs => step_exactly hs) ?_ h ops
  intro s op hs s' hs'
  exact ((step_exactly hs).of_some hs').2.1.wellFormed

/-- The run goes on exactly when the view accepts every operation. -/
theorem transfersSafely_iff (display_height : BitVec 32) (ops : List Op) :
    TransfersSafely display_height ops ↔ Guarded View.step View.Accepts .idle ops :=
  safely_step_iff (inv_init display_height)

theorem step_reqCal (pending : ℕ) :
    View.step ⟨[], 0, 0, pending⟩ (.transfer 0x1F) = ⟨[0x1F], 0, 0, pending + 2⟩ := rfl

theorem step_reqCal_end (pending : ℕ) :
    View.step ⟨[0x1F], 0, 0, pending⟩ (.transfer 0) = ⟨[], 0, 0, pending⟩ := rfl

/-- Calibration requests that are never acknowledged make what is pending longer and longer. -/
theorem pending_lt_of_guarded {n : ℕ} (hn : n ≠ 0) {pending : ℕ}
    (h : Guarded View.step View.Accepts ⟨[], 0, 0, pending⟩
      (replicate n [Op.transfer 0x1F, Op.transfer 0]).flatten) : pending + 2 * n < 2 ^ 32 := by
  induction n generalizing pending with
  | zero => exact absurd rfl hn
  | succ n ih =>
    rw [replicate_succ, flatten_cons, cons_append, cons_append, Guarded, Guarded,
      step_reqCal, step_reqCal_end] at h
    obtain ⟨⟨-, hroom⟩, -, hrest⟩ := h
    have hfirst : pending + 2 < 2 ^ 32 := hroom.2
    rcases Nat.eq_zero_or_pos n with rfl | hpos
    · omega
    · have hmore := ih hpos.ne' hrest
      omega

/-- The header of a command with `0x3FFD` words of data aborts the emulator with its last byte, and
so do `2^31` calibration requests that are not acknowledged. -/
theorem not_transfersSafely :
    ¬ TransfersSafely 0 ([0x30, 0x00, 0x3F, 0xFD, 0, 0, 0, 0, 0, 0].map Op.transfer) ∧
    ¬ TransfersSafely 0 (replicate (2 ^ 31) [Op.transfer 0x1F, Op.transfer 0]).flatten := by
  constructor
  · rw [TransfersSafely, safely_step_iff (inv_init 0)]
    decide +kernel
  · intro h
    have hguarded := (safely_step_iff (inv_init 0)).mp h
    exact absurd (pending_lt_of_guarded (by decide) hguarded) (by decide)

end Inferno.MtSpi
