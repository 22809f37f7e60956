import Inferno.Common.Run
import Inferno.Sio.Transfer

/-!
# Buffers stay valid

Whatever messages the guest sends, whatever devices transfer and whether or not their calls map the
memory they need, all buffers of all endpoints are valid (`buffersValid_of_run`). Buffers come from
`OP_MAP`, which builds a valid one (`valid_newBuffer`), and change in the rounds of a transfer,
which advance a valid buffer by no more than is left of it (`buffersValid_transferBuf`).
-/

namespace Inferno.Sio

open Common AppleSIOState List Function Option

/-- All buffers of all endpoints are valid. -/
def BuffersValid (s : AppleSIOState) : Prop := ∀ i, ∀ buf ∈ (s.eps i).buffers, buf.Valid

variable {s : AppleSIOState} {buffers : List SIODMABuffer} {t : Transfer} {cfg : Config}
  {cfgs : ℕ → Config} {now : BitVec 64} {i : Fin SIO_NUM_EPS} {s' : AppleSIOState}

theorem buffersValid_init {protocol_version : BitVec 32} (mem : BitVec 64 → UInt8) :
    BuffersValid (init protocol_version mem) :=
  fun _ _ hbuf => absurd hbuf not_mem_nil

/-- The buffer that `OP_MAP` builds is valid if it can be allocated. -/
theorem valid_newBuffer (now : BitVec 64) (tag : BitVec 8) (segments : List SIODMASegment)
    {segment_count : BitVec 32} (hcount : segments.length = segment_count.toNat)
    (hfew : ¬ TooMany segment_count) : (newBuffer now tag segments segment_count).Valid where
  count := hcount
  few := hfew
  sgl := rfl
  iov := nofun
  completed := Nat.zero_le _

theorem BuffersValid.setBuffers (h : BuffersValid s) {i : Fin SIO_NUM_EPS}
    (hbuffers : ∀ buf ∈ buffers, buf.Valid) : BuffersValid (s.setBuffers i buffers) := by
  intro j
  by_cases hj : j = i
  · subst hj
    simpa [AppleSIOState.setBuffers] using hbuffers
  · simpa [AppleSIOState.setBuffers, update_of_ne hj] using h j

/-! ## Transfers -/

theorem buffersValid_transferBuf {client : Client} (now : BitVec 64) (i : Fin SIO_NUM_EPS)
    (len : BitVec 64) {buf : SIODMABuffer} (h : BuffersValid t.s) (hvalid : buf.Valid)
    (hmapped : buf.mapped = true) (hbuffers : ∀ buf ∈ buffers, buf.Valid) :
    BuffersValid (transferBuf client now i len buf buffers t).s := by
  rcases Nat.lt_or_ge (len - t.actual_len).toNat buf.chunk.length with hlt | hge
  · rw [transferBuf_of_lt client now i len buf buffers t hvalid hmapped hlt]
    exact BuffersValid.setBuffers (s := { t.s with mem := _ }) h
      (forall_mem_cons.mpr ⟨hvalid.advance hlt.le, hbuffers⟩)
  · rw [transferBuf_of_le client now i len buf buffers t hvalid hmapped hge]
    exact BuffersValid.setBuffers (s := { t.s with mem := _ }) h hbuffers

section

variable {client : Client} {len : BitVec 64} {fuel : ℕ}

theorem buffersValid_transferLoop {t' : Transfer} (h : BuffersValid t.s)
    (hloop : transferLoop cfgs client now i len fuel t = some t') : BuffersValid t'.s := by
  fun_induction transferLoop cfgs client now i len fuel t with
  | case1 fuel t hlt hnil | case6 fuel t hlt => exact some.inj hloop ▸ h
  | case2 t hlt fuel buf buffers hbuffers buf' hmap ih =>
    have hall := h i
    rw [hbuffers, forall_mem_cons] at hall
    obtain ⟨hvalid, hmapped, -⟩ := valid_of_mapBuf hall.1 hmap
    exact ih (buffersValid_transferBuf now i len h hvalid (hmapped rfl) hall.2) hloop
  | case3 t hlt fuel buf buffers hbuffers buf' hmap =>
    -- The buffer stays the first, without the memory that was mapped of it.
    have hall := h i
    rw [hbuffers, forall_mem_cons] at hall
    obtain ⟨hvalid, -⟩ := valid_of_mapBuf hall.1 hmap
    rw [← some.inj hloop]
    exact h.setBuffers (forall_mem_cons.mpr ⟨hvalid, hall.2⟩)
  | case4 | case5 => exact nomatch hloop

theorem buffersValid_dmaTransfer (h : BuffersValid s)
    (ht : dmaTransfer cfgs client now i len s = some t) : BuffersValid t.s := by
  unfold dmaTransfer at ht
  split_ifs at ht
  · exact some.inj ht ▸ h
  · exact buffersValid_transferLoop h ht

end

/-! ## Messages -/

/-- `OP_MAP` keeps the buffers valid. -/
theorem buffersValid_opMap {m : SIOMessage} (h : BuffersValid s)
    (hmap : opMap cfg now i m s = some s') : BuffersValid s' := by
  unfold opMap at hmap
  dsimp only at hmap
  split_ifs at hmap with _ _ _ hmany
  · exact some.inj hmap ▸ h
  · exact some.inj hmap ▸ h
  · have hnew := valid_newBuffer now m.tag
      ((range (ldlLe (segmentAddr m s + 0x3C) s).toNat).map fun k =>
        loadSegment (segmentAddr m s + 0x48 + BitVec.ofNat 64 (k * 12)) s)
      (by rw [length_map, length_range]) hmany
    rw [← some.inj hmap]
    exact h.setBuffers (forall_mem_append.mpr ⟨h i, forall_mem_singleton.mpr hnew⟩)

/-- `apple_sio_dma` keeps the buffers valid. -/
theorem buffersValid_dma {m : SIOMessage} (h : BuffersValid s)
    (hdma : dma cfg now i m s = some s') : BuffersValid s' := by
  unfold dma at hdma
  split_ifs at hdma
  · exact some.inj hdma ▸ h
  · rw [← some.inj hdma]
    intro j buf hbuf
    refine h j buf ?_
    by_cases hj : j = i
    · subst hj
      simpa [opConfigure, sendUserMsg] using hbuf
    · simpa [opConfigure, sendUserMsg, update_of_ne hj] using hbuf
  · exact buffersValid_opMap h hdma
  · rw [← some.inj hdma]
    unfold opQuery
    split_ifs <;> exact h
  · rw [← some.inj hdma]
    exact BuffersValid.setBuffers (s := s.sendUserMsg _) h (forall_mem_nil _)
  · exact some.inj hdma ▸ h

/-- `apple_sio_control` does not touch the endpoints. -/
theorem eps_control (m : SIOMessage) (s : AppleSIOState) : (control m s).eps = s.eps := by
  unfold control controlSetParam sendUserMsg
  split_ifs <;> rfl

/-! ## Runs -/

theorem buffersValid_step {op : Op} (h : BuffersValid s) (hstep : step s op = some s') :
    BuffersValid s' := by
  cases op with
  | message cfg now raw =>
    unfold step handleEndpoint at hstep
    dsimp only at hstep
    split_ifs at hstep
    · obtain rfl := some.inj hstep
      unfold BuffersValid
      rw [eps_control]
      exact h
    · exact buffersValid_dma h hstep
    · exact some.inj hstep ▸ h
  | transfer cfg client now i len =>
    obtain ⟨t, ht, rfl⟩ := map_eq_some_iff.mp hstep
    exact buffersValid_dmaTransfer h ht
  | store addr bytes => exact some.inj hstep ▸ h
  | reset =>
    obtain rfl := some.inj hstep
    exact fun _ _ hbuf => absurd hbuf not_mem_nil

theorem buffersValid_of_run {protocol_version : BitVec 32} {mem : BitVec 64 → UInt8} {ops : List Op}
    (hrun : ops.foldlM step (init protocol_version mem) = some s) : BuffersValid s :=
  invariant_foldlM (fun _ _ _ => buffersValid_step) (buffersValid_init mem) hrun

/-- A memory of which nothing can be mapped. -/
def unmappedConfig : Config where
  readOk := fun _ _ => true
  dmaMemoryMap := fun _ _ _ _ => none
  dmaMemoryMap_le := nofun

/-- The fifth endpoint, from which devices read. -/
def sampleEp : Fin SIO_NUM_EPS := ⟨4, by decide⟩

/-- The guest maps a buffer of the segments `0x2000 .. 0x2002` and `0x3000 .. 0x3001`, and a device
reads four bytes, first when the memory cannot be mapped and then when it can. -/
def mapOps : List Op :=
  [.store 0x3C [2, 0, 0, 0],
    .store 0x48 [0, 0x20, 0, 0, 0, 0, 0, 0, 3, 0, 0, 0, 0, 0x30, 0, 0, 0, 0, 0, 0, 2, 0, 0, 0],
    .message sampleConfig 0 0x060104,
    .transfer (fun _ => unmappedConfig) .read 0 sampleEp 4,
    .transfer (fun _ => sampleConfig) .read 0 sampleEp 4]

/-- It gets nothing the first time, and four bytes of the buffer the second time. -/
theorem buffersValid_of_run_map : ∃ s, mapOps.foldlM step (init 9 fun _ => 0) = some s ∧
    (s.eps sampleEp).buffers.map (fun buf => (buf.segments, buf.iov, buf.completed)) =
      [([⟨0x2000, 3⟩, ⟨0x3000, 2⟩], [⟨0x2000, 3⟩, ⟨0x3000, 2⟩], 4)] ∧
    BuffersValid s := by
  have hall : (mapOps.foldlM step (init 9 fun _ => 0)).map (fun s =>
        (s.eps sampleEp).buffers.map fun buf => (buf.segments, buf.iov, buf.completed)) =
      some [([⟨0x2000, 3⟩, ⟨0x3000, 2⟩], [⟨0x2000, 3⟩, ⟨0x3000, 2⟩], 4)] := by
    decide +kernel
  obtain ⟨s, hrun, hbuffers⟩ := map_eq_some_iff.mp hall
  exact ⟨s, hrun, hbuffers, buffersValid_of_run hrun⟩

end Inferno.Sio
