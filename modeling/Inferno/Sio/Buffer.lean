import Inferno.Sio.Model

/-!
# The bytes of a buffer

A buffer is a list of segments, and `addrs` are the addresses of its bytes in order. Three things
are said about them. The copy of `iov_to_buf_full` and `iov_from_buf_full` takes the addresses from
an offset on, as many as are wanted (`iovCells_eq`). `apple_sio_dma_map_buf` maps them all and in
order, into however many pieces `dma_memory_map` cuts them (`valid_of_mapBuf`). The sizes of the
scatter list and of the mapped memory, which are sums of machine words, are their number, since
there are less than `2^63` of them (`Valid.length_lt`).
-/

namespace Inferno.Sio

open List BitVec Nat Function
open Option (isSome_iff_exists some)

/-! ## Addresses -/

variable {addr : BitVec 64} (segments : List SIODMASegment) {buf : SIODMABuffer} {k : ℕ}
  {cfg : Config}

/-- There are `n` addresses. -/
@[simp]
theorem length_cells (n : ℕ) : (cells addr n).length = n := by simp [cells]

theorem cells_add (m n : ℕ) :
    cells addr (m + n) = cells addr m ++ cells (addr + BitVec.ofNat 64 m) n := by
  unfold cells
  rw [range_add, map_append, map_map]
  congr 1
  apply map_congr_left
  intro k _
  rw [comp_apply, ofNat_add, add_assoc]

theorem take_cells (m n : ℕ) : (cells addr n).take m = cells addr (min n m) := by
  rcases le_total n m with h | h
  · rw [min_eq_left h, take_of_length_le (by rwa [length_cells])]
  · obtain ⟨k, rfl⟩ := Nat.exists_eq_add_of_le h
    rw [min_eq_right h, cells_add, take_left' (length_cells _)]

theorem drop_cells {m n : ℕ} (h : m ≤ n) :
    (cells addr n).drop m = cells (addr + BitVec.ofNat 64 m) (n - m) := by
  obtain ⟨k, rfl⟩ := Nat.exists_eq_add_of_le h
  rw [Nat.add_sub_cancel_left, cells_add, drop_left' (length_cells _)]

variable (iov : List IOVec)

/-- The addresses of the memory that is mapped. -/
def iovAddrs : List (BitVec 64) :=
  iov.flatMap fun v => cells v.iov_base v.iov_len.toNat

/-- The copy starts at the offset and takes as many bytes as are wanted, or all there are. -/
theorem iovCells_eq (offset bytes : ℕ) :
    iovCells iov offset bytes = ((iovAddrs iov).drop offset).take bytes := by
  induction iov generalizing offset bytes with
  | nil => simp [iovCells, iovAddrs]
  | cons v iov ih =>
    have hcons : iovAddrs (v :: iov) = cells v.iov_base v.iov_len.toNat ++ iovAddrs iov :=
      flatMap_cons
    rw [iovCells, hcons]
    by_cases hnone : offset = 0 ∧ bytes = 0
    · rw [if_pos hnone, hnone.2, take_zero]
    rw [if_neg hnone]
    by_cases hin : offset < v.iov_len.toNat
    · -- The copy begins in this element and goes on at the start of the next.
      have hfront : offset ≤ (cells v.iov_base v.iov_len.toNat).length := by
        rw [length_cells]
        exact hin.le
      rw [if_pos hin]
      dsimp only
      rw [ih, drop_append_of_le_length hfront, drop_cells hin.le,
        take_append, take_cells, length_cells]
      congr 2
      omega
    · have hpast : (cells v.iov_base v.iov_len.toNat).drop offset = [] :=
        drop_of_length_le (by rw [length_cells]; omega)
      rw [if_neg hin, ih, drop_append, hpast, nil_append, length_cells]

/-! ## Sums -/

/-- A sum of words is the sum of their values modulo `2^64`. -/
theorem toNat_sum (ws : List (BitVec 64)) : ws.sum.toNat = (ws.map (·.toNat)).sum % 2 ^ 64 := by
  induction ws with
  | nil => rfl
  | cons w ws ih =>
    rw [sum_cons, toNat_add, ih, map_cons, sum_cons, add_mod_mod]

theorem length_iovAddrs : (iovAddrs iov).length = ((iov.map (·.iov_len)).map (·.toNat)).sum := by
  rw [iovAddrs]
  simp [comp_def]

/-! ## Buffers -/

/-- The addresses of the bytes of a buffer. -/
def SIODMABuffer.addrs (buf : SIODMABuffer) : List (BitVec 64) :=
  buf.segments.flatMap fun g => cells g.addr g.len.toNat

/-- A buffer as `OP_MAP` builds it and the transfers leave it. -/
structure SIODMABuffer.Valid (buf : SIODMABuffer) : Prop where
  count : buf.segments.length = buf.segment_count.toNat
  /-- It could be allocated. -/
  few : ¬ TooMany buf.segment_count
  sgl : buf.sgl = sglOf buf.segments
  /-- The memory that is mapped is that of the segments. -/
  iov : buf.mapped = true → iovAddrs buf.iov = buf.addrs
  /-- No more than all is transferred. -/
  completed : buf.completed.toNat ≤ buf.addrs.length

/-- The bytes of a buffer that are not transferred. -/
def SIODMABuffer.chunk (buf : SIODMABuffer) : List (BitVec 64) :=
  buf.addrs.drop buf.completed.toNat

theorem SIODMABuffer.length_addrs (buf : SIODMABuffer) :
    buf.addrs.length = (buf.segments.map (·.len.toNat)).sum := by
  rw [addrs]
  simp

/-- A segment has less than `2^32` bytes. -/
theorem sum_len_le : (segments.map (·.len.toNat)).sum ≤ segments.length * (2 ^ 32 - 1) := by
  induction segments with
  | nil => exact le_refl 0
  | cons g segments ih =>
    rw [map_cons, sum_cons, length_cons]
    omega

/-- A buffer that could be allocated has less than `2^63` bytes. -/
theorem SIODMABuffer.Valid.length_lt (h : buf.Valid) : buf.addrs.length < 2 ^ 63 := by
  have hcount : buf.segments.length < 2 ^ 31 := by
    have hfew := h.few
    unfold TooMany at hfew
    rw [toInt_eq_toNat_cond] at hfew
    rw [h.count]
    split_ifs at hfew <;> omega
  have hsum := sum_len_le buf.segments
  rw [buf.length_addrs]
  omega

theorem flatMap_sglOf : (sglOf segments).flatMap (fun e => cells e.base e.len.toNat) =
      segments.flatMap fun g => cells g.addr g.len.toNat := by
  have hlen : ∀ g : SIODMASegment, (g.len.setWidth 64).toNat = g.len.toNat := fun g => by
    rw [toNat_setWidth, mod_eq_of_lt (by omega)]
  rw [sglOf, flatMap_map]
  simp [hlen]

theorem SIODMABuffer.Valid.toNat_sglSize (h : buf.Valid) :
    buf.sglSize.toNat = buf.addrs.length := by
  have hlt := h.length_lt
  have hlen : buf.addrs.length = ((buf.sgl.map (·.len)).map (·.toNat)).sum := by
    rw [addrs, ← flatMap_sglOf, ← h.sgl]
    simp [comp_def]
  rw [sglSize, toNat_sum, ← hlen, mod_eq_of_lt (by omega)]

theorem SIODMABuffer.Valid.toNat_iovSize (h : buf.Valid) (hmapped : buf.mapped = true) :
    buf.iovSize.toNat = buf.addrs.length := by
  have hlt := h.length_lt
  have hlen := length_iovAddrs buf.iov
  rw [h.iov hmapped] at hlen
  rw [iovSize, toNat_sum, ← hlen, mod_eq_of_lt (by omega)]

/-! ## Progress -/

/-- The buffer with some more of it transferred. -/
def SIODMABuffer.advance (buf : SIODMABuffer) (k : ℕ) : SIODMABuffer :=
  { buf with completed := buf.completed + BitVec.ofNat 64 k }

theorem SIODMABuffer.Valid.length_chunk (h : buf.Valid) :
    buf.completed.toNat + buf.chunk.length = buf.addrs.length := by
  have hle := h.completed
  rw [chunk, length_drop]
  omega

theorem SIODMABuffer.Valid.toNat_completed_advance (h : buf.Valid) (hk : k ≤ buf.chunk.length) :
    (buf.advance k).completed.toNat = buf.completed.toNat + k := by
  have hlt := h.length_lt
  have hlen := h.length_chunk
  show (buf.completed + BitVec.ofNat 64 k).toNat = _
  rw [toNat_add, toNat_ofNat, add_mod_mod, mod_eq_of_lt (by omega)]

theorem SIODMABuffer.Valid.advance (h : buf.Valid) (hk : k ≤ buf.chunk.length) :
    (buf.advance k).Valid := by
  have hlen := h.length_chunk
  refine ⟨h.count, h.few, h.sgl, h.iov, ?_⟩
  rw [h.toNat_completed_advance hk]
  show buf.completed.toNat + k ≤ buf.addrs.length
  omega

theorem SIODMABuffer.Valid.chunk_advance (h : buf.Valid) (hk : k ≤ buf.chunk.length) :
    (buf.advance k).chunk = buf.chunk.drop k := by
  rw [chunk, h.toNat_completed_advance hk, chunk, drop_drop]
  rfl

theorem SIODMABuffer.Valid.iovSize_le_iff (h : buf.Valid) (hmapped : buf.mapped = true)
    (hk : k ≤ buf.chunk.length) :
    (buf.advance k).iovSize ≤ (buf.advance k).completed ↔ k = buf.chunk.length := by
  have hlen := h.length_chunk
  have hsize : (buf.advance k).iovSize.toNat = buf.addrs.length := h.toNat_iovSize hmapped
  rw [le_def, h.toNat_completed_advance hk]
  omega

/-! ## Mapping -/

variable {dir : DMADirection}

/-- What is mapped of a segment is all of it, from its first byte to its last. -/
theorem iovAddrs_of_mapSegment {fuel k : ℕ} {base len : BitVec 64} {iov : List IOVec}
    (h : mapSegment cfg dir fuel k base len = some iov) : iovAddrs iov = cells base len.toNat := by
  induction fuel generalizing k base len iov with
  | zero =>
    unfold mapSegment at h
    split_ifs at h with hlen
    subst hlen
    obtain rfl := some.inj h
    rfl
  | succ fuel ih =>
    unfold mapSegment at h
    split_ifs at h with hlen
    · subst hlen
      obtain rfl := some.inj h
      rfl
    · cases hmap : cfg.dmaMemoryMap k base len dir with
      | none =>
        rw [hmap] at h
        exact nomatch h
      | some xlen =>
        rw [hmap] at h
        dsimp only at h
        split_ifs at h
        obtain ⟨more, hmore, rfl⟩ := Option.map_eq_some_iff.mp h
        have hle : xlen.toNat ≤ len.toNat := cfg.dmaMemoryMap_le k base len dir xlen hmap
        have hsum : len.toNat = xlen.toNat + (len - xlen).toNat := by
          rw [toNat_sub_of_le hle]
          omega
        rw [hsum, cells_add, ofNat_toNat, setWidth_eq, ← ih hmore]
        rfl

theorem iovAddrs_of_mapSegments {es : List ScatterGatherEntry} {iov : List IOVec}
    (h : mapSegments cfg dir k es = some iov) :
    iovAddrs iov = es.flatMap fun e => cells e.base e.len.toNat := by
  induction es generalizing k iov with
  | nil =>
    obtain rfl := some.inj h
    rfl
  | cons e es ih =>
    obtain ⟨first, hfirst, h⟩ := Option.bind_eq_some_iff.mp h
    obtain ⟨more, hmore, h⟩ := Option.bind_eq_some_iff.mp h
    obtain rfl := some.inj h
    rw [flatMap_cons, ← iovAddrs_of_mapSegment hfirst, ← ih hmore]
    exact flatMap_append

/-- A valid buffer stays valid when it is mapped, or when that fails, and nothing else of it
changes. -/
theorem valid_of_mapBuf {buf' : SIODMABuffer} {ok : Bool} (hvalid : buf.Valid)
    (h : mapBuf cfg dir buf = some (ok, buf')) : buf'.Valid ∧ (ok = true → buf'.mapped = true) ∧
      ∃ iov, buf' = { buf with iov := iov, mapped := ok } := by
  unfold mapBuf at h
  split_ifs at h with hmapped
  · obtain ⟨rfl, rfl⟩ := Prod.mk.inj (some.inj h)
    exact ⟨hvalid, fun _ => hmapped, buf.iov, by rw [← hmapped]⟩
  · obtain ⟨hcount, hfew, hsgl, -, hcompleted⟩ := hvalid
    have htake : buf.sgl.take buf.segment_count.toNat = buf.sgl := by
      apply take_of_length_le
      rw [hsgl, sglOf, length_map, hcount]
    cases hmap : mapSegments cfg dir 0 (buf.sgl.take buf.segment_count.toNat) with
    | none =>
      rw [hmap] at h
      obtain ⟨rfl, rfl⟩ := Prod.mk.inj (some.inj h)
      refine ⟨⟨hcount, hfew, hsgl, fun hm => absurd hm hmapped, hcompleted⟩, nofun, [], ?_⟩
      rw [Bool.eq_false_iff.mpr hmapped]
    | some iov =>
      rw [hmap] at h
      obtain ⟨rfl, rfl⟩ := Prod.mk.inj (some.inj h)
      refine ⟨⟨hcount, hfew, hsgl, fun _ => ?_, hcompleted⟩, fun _ => rfl, iov, rfl⟩
      rw [iovAddrs_of_mapSegments hmap, htake, hsgl, flatMap_sglOf]
      rfl

/-- `dma_memory_map` succeeds. -/
def Config.Maps (cfg : Config) : Prop :=
  ∀ k base len dir, len ≠ 0 → ∃ xlen, cfg.dmaMemoryMap k base len dir = some xlen ∧ xlen ≠ 0

section

variable (hmaps : cfg.Maps) (dir : DMADirection) {es : List ScatterGatherEntry}

include hmaps

theorem isSome_mapSegment {fuel : ℕ} (base len : BitVec 64) (hfuel : len.toNat ≤ fuel) :
    (mapSegment cfg dir fuel k base len).isSome := by
  induction fuel generalizing k base len with
  | zero =>
    obtain rfl : len = 0 := eq_of_toNat_eq (le_zero.mp hfuel)
    rfl
  | succ fuel ih =>
    unfold mapSegment
    by_cases hlen : len = 0
    · rw [if_pos hlen]
      rfl
    · obtain ⟨xlen, hmap, hxlen⟩ := hmaps k base len dir hlen
      have hle : xlen.toNat ≤ len.toNat := cfg.dmaMemoryMap_le k base len dir xlen hmap
      have hpos : xlen.toNat ≠ 0 := fun h => hxlen (eq_of_toNat_eq h)
      have hsub : (len - xlen).toNat = len.toNat - xlen.toNat := toNat_sub_of_le hle
      rw [if_neg hlen, hmap]
      dsimp only
      rw [if_neg hxlen, Option.isSome_map]
      exact ih (base + xlen) (len - xlen) (by omega)

theorem isSome_mapSegments : (mapSegments cfg dir k es).isSome := by
  induction es generalizing k with
  | nil => rfl
  | cons e es ih =>
    obtain ⟨iov, hiov⟩ := isSome_iff_exists.mp (isSome_mapSegment hmaps dir e.base e.len le_rfl)
    obtain ⟨more, hmore⟩ := isSome_iff_exists.mp (ih (k := k + iov.length))
    rw [mapSegments, hiov, Option.bind_eq_bind, Option.bind_some, hmore]
    rfl

theorem exists_mapBuf (hvalid : buf.Valid) : ∃ buf', mapBuf cfg dir buf = some (true, buf') := by
  unfold mapBuf
  by_cases hmapped : buf.mapped = true
  · exact ⟨buf, if_pos hmapped⟩
  · obtain ⟨iov, hmap⟩ := isSome_iff_exists.mp (isSome_mapSegments hmaps dir)
    rw [if_neg hmapped, if_neg hvalid.few, hmap]
    exact ⟨_, rfl⟩

end

end Inferno.Sio
