import Inferno.Sio.Model

/-!
# What is mapped and what is unmapped

`apple_sio_dma_map_buf` maps the segments of a buffer piece by piece and may fail at any piece; the
vector of the pieces is then destroyed, and nothing is unmapped. What a buffer is left with when it
is destroyed is unmapped by `apple_sio_dma_destroy_buffer`. Over the life of a buffer, in which the
calls may fail any number of times before one succeeds, what is mapped is unmapped exactly if no
call failed after its first piece (`mappings_balanced_iff`).
-/

namespace Inferno.Sio

/-- The pieces that the loop over one segment obtains from `dma_memory_map`, and whether it ends
without a failure. A piece without bytes is a failure, too. -/
def obtainSegment (cfg : Config) (dir : DMADirection) :
    ℕ → ℕ → BitVec 64 → BitVec 64 → List IOVec × Bool
  | fuel, k, base, len =>
    if len = 0 then ([], true)
    else
      match fuel, cfg.dmaMemoryMap k base len dir with
      | fuel + 1, some xlen =>
        if xlen = 0 then ([⟨base, 0⟩], false)
        else
          let rest := obtainSegment cfg dir fuel (k + 1) (base + xlen) (len - xlen)
          (⟨base, xlen⟩ :: rest.1, rest.2)
      | _, _ => ([], false)

/-- The same of the loop over the segments, which ends at a failure. -/
def obtainSegments (cfg : Config) (dir : DMADirection) :
    ℕ → List ScatterGatherEntry → List IOVec × Bool
  | _, [] => ([], true)
  | k, e :: es =>
    let first := obtainSegment cfg dir e.len.toNat k e.base e.len
    let rest := obtainSegments cfg dir (k + first.1.length) es
    if first.2 then (first.1 ++ rest.1, rest.2) else first

/-- What a call of `apple_sio_dma_map_buf` on a buffer that is not mapped obtains. -/
def attempt (cfg : Config) (dir : DMADirection) (buf : SIODMABuffer) : List IOVec × Bool :=
  obtainSegments cfg dir 0 (buf.sgl.take buf.segment_count.toNat)

/-- The calls of `dma_memory_map` that gave memory, and those of `dma_memory_unmap`. -/
structure Ledger where
  obtained : List IOVec
  released : List IOVec
  deriving DecidableEq

/-- What is obtained is released once. -/
def Ledger.Balanced (l : Ledger) : Prop := l.released.Perm l.obtained

/-- The ledger of a call of `apple_sio_dma_map_buf`. -/
def mapBufLedger (cfg : Config) (dir : DMADirection) (buf : SIODMABuffer) : Ledger where
  obtained := if buf.mapped then [] else (attempt cfg dir buf).1
  -- The failure path has `qemu_iovec_destroy` only.
  released := []

/-- The ledger of `apple_sio_dma_destroy_buffer`. -/
def destroyBufferLedger (buf : SIODMABuffer) : Ledger where
  obtained := []
  released := if buf.mapped then buf.iov else []

/-- The ledger of the rest of the life of a buffer. Each call maps as the memory allows at its time,
and bytes are transferred between the calls; `none` when an allocation fails. -/
def life (dir : DMADirection) : List (Config × BitVec 64) → SIODMABuffer → Option Ledger
  | [], buf => some (destroyBufferLedger buf)
  | (cfg, completed) :: calls, buf => do
    let (_, mapped) ← mapBuf cfg dir buf
    let rest ← life dir calls { mapped with completed := completed }
    let call := mapBufLedger cfg dir buf
    pure ⟨call.obtained ++ rest.obtained, call.released ++ rest.released⟩

variable {cfg : Config} {dir : DMADirection} {buf : SIODMABuffer}

theorem mapSegment_eq (fuel k : ℕ) (base len : BitVec 64) : mapSegment cfg dir fuel k base len =
      if (obtainSegment cfg dir fuel k base len).2 then
        some (obtainSegment cfg dir fuel k base len).1
      else none := by
  induction fuel generalizing k base len with
  | zero =>
    unfold mapSegment obtainSegment
    split_ifs <;> simp_all
  | succ fuel ih =>
    unfold mapSegment obtainSegment
    by_cases hlen : len = 0
    · simp [hlen]
    · rw [if_neg hlen, if_neg hlen]
      cases cfg.dmaMemoryMap k base len dir with
      | none => rfl
      | some xlen =>
        by_cases hzero : xlen = 0
        · simp [hzero]
        · simp only [ih]
          split_ifs <;> rfl

theorem mapSegments_eq (k : ℕ) (es : List ScatterGatherEntry) : mapSegments cfg dir k es =
      if (obtainSegments cfg dir k es).2 then some (obtainSegments cfg dir k es).1 else none := by
  induction es generalizing k with
  | nil => rfl
  | cons e es ih =>
    rw [mapSegments, mapSegment_eq, obtainSegments]
    by_cases hfirst : (obtainSegment cfg dir e.len.toNat k e.base e.len).2 = true
    · rw [if_pos hfirst, Option.bind_eq_bind, Option.bind_some, ih]
      split_ifs <;> simp_all
    · simp [hfirst]

theorem mapBuf_of_not_mapped (hnew : buf.mapped = false) (hfew : ¬ TooMany buf.segment_count) :
    mapBuf cfg dir buf = some ((attempt cfg dir buf).2,
      if (attempt cfg dir buf).2 then { buf with iov := (attempt cfg dir buf).1, mapped := true }
      else { buf with iov := [] }) := by
  rw [mapBuf, hnew, if_neg hfew, mapSegments_eq, attempt]
  cases (obtainSegments cfg dir 0 (buf.sgl.take buf.segment_count.toNat)).2 <;> rfl

theorem life_of_mapped (hmapped : buf.mapped = true) (calls : List (Config × BitVec 64)) :
    life dir calls buf = some ⟨[], buf.iov⟩ := by
  induction calls generalizing buf with
  | nil => simp [life, destroyBufferLedger, hmapped]
  | cons call calls ih => simp [life, mapBuf, mapBufLedger, hmapped, ih]

/-- The calls that fail, before one succeeds. -/
def failures (dir : DMADirection) (buf : SIODMABuffer) (calls : List (Config × BitVec 64)) :
    List (Config × BitVec 64) :=
  calls.takeWhile fun call => !(attempt call.1 dir buf).2

/-- What is released in the life of a buffer is what the last call obtained; the calls that failed
obtained the rest. -/
theorem life_eq (hnew : buf.mapped = false) (hfew : ¬ TooMany buf.segment_count)
    (calls : List (Config × BitVec 64)) : ∃ kept, life dir calls buf =
      some ⟨(failures dir buf calls).flatMap (fun call => (attempt call.1 dir buf).1) ++ kept,
        kept⟩ := by
  induction calls generalizing buf with
  | nil => exact ⟨[], by simp [life, failures, destroyBufferLedger, hnew]⟩
  | cons call calls ih =>
    obtain ⟨cfg, completed⟩ := call
    rw [life, mapBuf_of_not_mapped hnew hfew, failures, List.takeWhile_cons]
    cases hok : (attempt cfg dir buf).2 with
    | true =>
      refine ⟨(attempt cfg dir buf).1, ?_⟩
      simp [life_of_mapped, mapBufLedger, hnew]
    | false =>
      -- The buffer is as it was but for the bytes transferred, and the next calls are alike.
      obtain ⟨kept, hlife⟩ := @ih { buf with iov := [], completed := completed } hnew hfew
      refine ⟨kept, Option.bind_eq_some_iff.mpr ⟨_, rfl, ?_⟩⟩
      refine Option.bind_eq_some_iff.mpr ⟨_, hlife, ?_⟩
      simp [mapBufLedger, hnew, failures, attempt]

/-- Over the life of a buffer, and in each of its calls that fail, what is mapped is unmapped once
exactly if the calls that fail obtain nothing. -/
theorem mappings_balanced_iff (dir : DMADirection) (calls : List (Config × BitVec 64))
    (hnew : buf.mapped = false) (hfew : ¬ TooMany buf.segment_count) :
    ∃ l, life dir calls buf = some l ∧
      ((l.Balanced ∧ ∀ call ∈ failures dir buf calls, (mapBufLedger call.1 dir buf).Balanced) ↔
        ∀ call ∈ failures dir buf calls, (attempt call.1 dir buf).1 = []) := by
  obtain ⟨kept, hlife⟩ := life_eq hnew hfew calls
  refine ⟨_, hlife, ?_⟩
  constructor
  · rintro ⟨-, hcalls⟩ call hcall
    have hperm := hcalls call hcall
    rw [mapBufLedger, hnew] at hperm
    exact List.nil_perm.mp hperm
  · intro hnone
    refine ⟨?_, fun call hcall => ?_⟩
    · rw [Ledger.Balanced, List.flatMap_eq_nil_iff.mpr hnone, List.nil_append]
    · rw [mapBufLedger, hnew, hnone call hcall]
      exact List.Perm.nil

/-- A memory of which only the first page can be mapped. -/
def firstPageConfig : Config where
  readOk := fun _ _ => true
  dmaMemoryMap := fun _ base len _ => if base < 0x1000 then some len else none
  dmaMemoryMap_le := by
    intro k base len dir xlen h
    split_ifs at h
    rw [← Option.some.inj h]
    exact BitVec.le_refl len

theorem mappings_balanced_sample : ∃ l, life .toDevice [(firstPageConfig, 0), (sampleConfig, 4)]
        (newBuffer 0 1 [⟨0x1000, 4⟩] 1) = some l ∧ l.Balanced := by
  obtain ⟨l, hlife, hiff⟩ := @mappings_balanced_iff (newBuffer 0 1 [⟨0x1000, 4⟩] 1) .toDevice
    [(firstPageConfig, 0), (sampleConfig, 4)] rfl (by decide)
  exact ⟨l, hlife, (hiff.mpr (by decide +kernel)).1⟩

/-- The first of two segments is mapped when the call fails at the second; it is never unmapped. -/
theorem not_mappings_balanced :
    mapBuf firstPageConfig .toDevice (newBuffer 0 1 [⟨0, 4⟩, ⟨0x1000, 4⟩] 2) =
        some (false, newBuffer 0 1 [⟨0, 4⟩, ⟨0x1000, 4⟩] 2) ∧
      life .toDevice [(firstPageConfig, 0)] (newBuffer 0 1 [⟨0, 4⟩, ⟨0x1000, 4⟩] 2) =
        some ⟨[⟨0, 4⟩], []⟩ := by
  decide +kernel

end Inferno.Sio
