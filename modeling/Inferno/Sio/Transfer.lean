import Inferno.Common.Drain
import Inferno.Sio.Buffer

/-!
# One transfer

The buffers of an endpoint are a queue of chunks of addresses: of each buffer those of its bytes
that are not transferred. A call of `apple_sio_dma_read` or `apple_sio_dma_write` is one demand on
that queue, `Common.drain` (`dmaTransfer_eq`), provided that `dma_memory_map` succeeds: each round
takes from the first buffer what the demand and the buffer allow, and the round that takes the last
byte of a buffer sends its message and removes it.
-/

namespace Inferno.Sio

open Common AppleSIOState List Function Nat
open BitVec (le_of_lt ofNat toNat toNat_ofNat toNat_sub_of_le)
open Prod (fst snd)

/-! ## One round -/

/-- The message about a buffer that is done. -/
def doneMsg (id : BitVec 8) (buf : SIODMABuffer) : SIOMessage where
  ep := id
  tag := buf.tag
  op := OP_COMPLETE
  param := 0x80
  data := ofNat 32 buf.addrs.length

variable {buffers : List SIODMABuffer} {a : BitVec 64} {s : AppleSIOState} {R : BitVec 64 → Prop}

theorem Client.length_bytes (client : Client) (mem : BitVec 64 → UInt8) (done : ℕ)
    (addrs : List (BitVec 64)) : (client.bytes mem done addrs).length = addrs.length := by
  cases client <;> simp [Client.bytes]

section Round

variable (client : Client) (now : BitVec 64) (i : Fin SIO_NUM_EPS) (len : BitVec 64)
  (buf : SIODMABuffer) (buffers : List SIODMABuffer) (t : Transfer)

theorem map_fst_transferMoved_eq_cells :
    (transferMoved client len buf t).map fst = transferCells buf t.actual_len len := by
  unfold transferMoved
  rw [map_fst_zip (by rw [client.length_bytes])]

theorem map_fst_transferMoved (hvalid : buf.Valid) (hmapped : buf.mapped = true) :
    (transferMoved client len buf t).map fst = buf.chunk.take (len - t.actual_len).toNat := by
  rw [map_fst_transferMoved_eq_cells, transferCells, iovCells_eq, hvalid.iov hmapped]
  rfl

theorem length_transferMoved (hvalid : buf.Valid) (hmapped : buf.mapped = true) :
    (transferMoved client len buf t).length = min (len - t.actual_len).toNat buf.chunk.length := by
  rw [← length_map fst, map_fst_transferMoved client len buf t hvalid hmapped, length_take]

theorem length_transferMoved_le :
    (transferMoved client len buf t).length ≤ (len - t.actual_len).toNat := by
  rw [← length_map fst, map_fst_transferMoved_eq_cells, transferCells, iovCells_eq]
  exact length_take_le _ _

theorem actual_len_transferBuf (hle : t.actual_len ≤ len) :
    (transferBuf client now i len buf buffers t).actual_len.toNat =
      t.actual_len.toNat + (transferMoved client len buf t).length := by
  have hmoved := length_transferMoved_le client len buf t
  rw [toNat_sub_of_le hle] at hmoved
  show (t.actual_len + ofNat 64 (transferMoved client len buf t).length).toNat = _
  rw [BitVec.toNat_add, toNat_ofNat, add_mod_mod, mod_eq_of_lt (by omega)]

theorem actual_len_transferBuf_le (hle : t.actual_len ≤ len) :
    (transferBuf client now i len buf buffers t).actual_len ≤ len := by
  have hle' : t.actual_len.toNat ≤ len.toNat := hle
  have hmoved := length_transferMoved_le client len buf t
  rw [toNat_sub_of_le hle] at hmoved
  rw [BitVec.le_def, actual_len_transferBuf client now i len buf buffers t hle]
  omega

/-- The state after a round that takes the last byte of the buffer. -/
theorem transferBuf_of_le (hvalid : buf.Valid) (hmapped : buf.mapped = true)
    (hle : buf.chunk.length ≤ (len - t.actual_len).toNat) :
    (transferBuf client now i len buf buffers t).s =
      writeback now i (buf.advance buf.chunk.length) buffers
        { t.s with mem := client.copy t.s.mem (transferMoved client len buf t) } := by
  have hmoved : (transferMoved client len buf t).length = buf.chunk.length := by
    rw [length_transferMoved client len buf t hvalid hmapped, min_eq_right hle]
  have hdone : (buf.advance buf.chunk.length).iovSize ≤ (buf.advance buf.chunk.length).completed :=
    (hvalid.iovSize_le_iff hmapped le_rfl).mpr rfl
  unfold transferBuf
  dsimp only
  rw [hmoved]
  exact if_pos hdone

/-- The state after a round that stops in the buffer. -/
theorem transferBuf_of_lt (hvalid : buf.Valid) (hmapped : buf.mapped = true)
    (hlt : (len - t.actual_len).toNat < buf.chunk.length) :
    (transferBuf client now i len buf buffers t).s =
      setBuffers i (buf.advance (len - t.actual_len).toNat :: buffers)
        { t.s with mem := client.copy t.s.mem (transferMoved client len buf t) } := by
  have hmoved : (transferMoved client len buf t).length = (len - t.actual_len).toNat := by
    rw [length_transferMoved client len buf t hvalid hmapped, min_eq_left hlt.le]
  have hopen : ¬ (buf.advance (len - t.actual_len).toNat).iovSize ≤
      (buf.advance (len - t.actual_len).toNat).completed := by
    rw [hvalid.iovSize_le_iff hmapped hlt.le]
    exact hlt.ne
  unfold transferBuf
  dsimp only
  rw [hmoved]
  exact if_neg hopen

variable {buf}

/-- The message about a buffer whose last byte is transferred carries the number of its bytes. -/
theorem completeMsg_advance (hvalid : buf.Valid) (id : BitVec 8) :
    completeMsg id (buf.advance buf.chunk.length) = doneMsg id buf := by
  have hdata : (buf.advance buf.chunk.length).completed.setWidth 32 =
      ofNat 32 buf.addrs.length := by
    apply BitVec.eq_of_toNat_eq
    rw [BitVec.toNat_setWidth, hvalid.toNat_completed_advance le_rfl, hvalid.length_chunk,
      toNat_ofNat]
  rw [completeMsg, hdata]
  rfl

end Round

/-! ## One call -/

/-- The buffers are the same but for their progress. -/
structure Kin (buf buf' : SIODMABuffer) : Prop where
  tag : buf'.tag = buf.tag
  segments : buf'.segments = buf.segments
  segment_count : buf'.segment_count = buf.segment_count
  start_timestamp : buf'.start_timestamp = buf.start_timestamp

theorem Kin.refl {buf : SIODMABuffer} : Kin buf buf := ⟨rfl, rfl, rfl, rfl⟩

theorem Kin.trans {a b c : SIODMABuffer} (hab : Kin a b) (hbc : Kin b c) : Kin a c :=
  ⟨hbc.tag.trans hab.tag, hbc.segments.trans hab.segments,
    hbc.segment_count.trans hab.segment_count, hbc.start_timestamp.trans hab.start_timestamp⟩

theorem Kin.doneMsg_eq {buf buf' : SIODMABuffer} (h : Kin buf buf') (id : BitVec 8) :
    doneMsg id buf' = doneMsg id buf := by
  have haddrs : buf'.addrs = buf.addrs := by rw [SIODMABuffer.addrs, h.segments]; rfl
  rw [doneMsg, doneMsg, haddrs, h.tag]

/-- What a demand for `n` bytes on the buffers does between two points of a call, in which the bytes
`new` go over. -/
structure Served (i : Fin SIO_NUM_EPS) (buffers : List SIODMABuffer) (n : ℕ) (t t' : Transfer)
    (new : List (BitVec 64 × UInt8)) : Prop where
  moved : t'.moved = t.moved ++ new
  /-- They are those in front. -/
  taken : new.map fst = (drain (buffers.map (·.chunk)) n).taken
  actual_len : t'.actual_len.toNat = t.actual_len.toNat + new.length
  chunks : (t'.s.eps i).buffers.map (·.chunk) = (drain (buffers.map (·.chunk)) n).rest
  /-- There is a message about each buffer that is done. -/
  sent : t'.s.sent = t.s.sent ++
    (buffers.take (drain (buffers.map (·.chunk)) n).finished).map (doneMsg (t.s.eps i).id)
  /-- The other buffers are there. -/
  kin : List.Forall₂ Kin (buffers.drop (drain (buffers.map (·.chunk)) n).finished)
    (t'.s.eps i).buffers
  valid : ∀ buf ∈ (t'.s.eps i).buffers, buf.Valid
  endpoint : t'.s.eps = update t.s.eps i { t.s.eps i with buffers := (t'.s.eps i).buffers }

/-- Nothing happens without a demand or without a buffer. -/
theorem Served.refl {i : Fin SIO_NUM_EPS} {n : ℕ} {t : Transfer}
    (hbuffers : (t.s.eps i).buffers = buffers) (hvalid : ∀ buf ∈ buffers, buf.Valid)
    (hidle : n = 0 ∨ buffers = []) : Served i buffers n t t [] := by
  have hdrain : drain (buffers.map (·.chunk)) n = ⟨[], 0, buffers.map (·.chunk)⟩ := by
    rcases hidle with rfl | rfl
    · exact drain_zero _
    · rfl
  refine ⟨(append_nil _).symm, ?_, rfl, ?_, ?_, ?_, ?_, ?_⟩
  · rw [hdrain, map_nil]
  · rw [hdrain, hbuffers]
  · rw [hdrain, take_zero, map_nil, append_nil]
  · rw [hdrain, hbuffers]
    exact forall₂_same.mpr fun buf _ => Kin.refl
  · rw [hbuffers]
    exact hvalid
  · exact (update_eq_self i t.s.eps).symm

section Rounds

variable {client : Client} {now : BitVec 64} {i : Fin SIO_NUM_EPS} {len : BitVec 64}
  {buf buf' : SIODMABuffer} {buffers : List SIODMABuffer} {t t' : Transfer}
  {new : List (BitVec 64 × UInt8)}

theorem demand_ne_zero (hlt : t.actual_len < len) : (len - t.actual_len).toNat ≠ 0 := by
  have hlt' : t.actual_len.toNat < len.toNat := hlt
  rw [toNat_sub_of_le (le_of_lt hlt)]
  omega

theorem demand_transferBuf (hle : t.actual_len ≤ len) :
    (len - (transferBuf client now i len buf buffers t).actual_len).toNat =
      (len - t.actual_len).toNat - (transferMoved client len buf t).length := by
  have hle₁ := actual_len_transferBuf_le client now i len buf buffers t hle
  rw [toNat_sub_of_le hle₁, toNat_sub_of_le hle,
    actual_len_transferBuf client now i len buf buffers t hle]
  omega

section

variable (hlt : t.actual_len < len) (hvalid : buf'.Valid) (hmapped : buf'.mapped = true)
  (hkin : Kin buf buf') (hchunk : buf'.chunk = buf.chunk)

include hlt hvalid hmapped hkin hchunk

theorem Served.cons_of_le (hfull : buf.chunk.length ≤ (len - t.actual_len).toNat)
    (h : Served i buffers (len - (transferBuf client now i len buf' buffers t).actual_len).toNat
      (transferBuf client now i len buf' buffers t) t' new) :
    Served i (buf :: buffers) (len - t.actual_len).toNat t t'
      (transferMoved client len buf' t ++ new) := by
  have hle := le_of_lt hlt
  have hs := transferBuf_of_le client now i len buf' buffers t hvalid hmapped (by rwa [hchunk])
  have hfst : (transferMoved client len buf' t).map fst = buf.chunk := by
    rw [map_fst_transferMoved client len buf' t hvalid hmapped, hchunk, take_of_length_le hfull]
  have hlen : (transferMoved client len buf' t).length = buf.chunk.length := by
    rw [← hfst, length_map]
  have hactual := actual_len_transferBuf client now i len buf' buffers t hle
  have hmoved : (transferBuf client now i len buf' buffers t).moved =
      t.moved ++ transferMoved client len buf' t := rfl
  rw [demand_transferBuf hle, hlen] at h
  -- From here on only these facts about the state after the round are used.
  generalize transferBuf client now i len buf' buffers t = t₁ at hs hactual hmoved h
  have heps : t₁.s.eps = update t.s.eps i { t.s.eps i with buffers := buffers } := by
    rw [hs]
    rfl
  have hsent : t₁.s.sent = t.s.sent ++ [doneMsg (t.s.eps i).id buf] := by
    rw [hs]
    show t.s.sent ++ [completeMsg (t.s.eps i).id _] = _
    rw [completeMsg_advance hvalid, hkin.doneMsg_eq]
  have hid : (t₁.s.eps i).id = (t.s.eps i).id := by rw [heps, update_self]
  have hdrain := drain_cons_of_le (demand_ne_zero hlt) hfull (buffers.map (·.chunk))
  change drain ((buf :: buffers).map (·.chunk)) _ = _ at hdrain
  refine ⟨?_, ?_, ?_, ?_, ?_, ?_, h.valid, ?_⟩
  · rw [h.moved, hmoved, append_assoc]
  · rw [hdrain, map_append, hfst, h.taken]
  · rw [h.actual_len, hactual, length_append, add_assoc]
  · rw [hdrain, h.chunks]
  · rw [hdrain, h.sent, hsent, hid, append_assoc]
    rfl
  · rw [hdrain]
    exact h.kin
  · rw [h.endpoint, heps, update_idem, update_self, update_self]

theorem Served.cons_of_lt (hstop : (len - t.actual_len).toNat < buf.chunk.length)
    (hothers : ∀ b ∈ buffers, b.Valid) : Served i (buf :: buffers) (len - t.actual_len).toNat t
      (transferBuf client now i len buf' buffers t) (transferMoved client len buf' t) := by
  have hle := le_of_lt hlt
  have hs := transferBuf_of_lt client now i len buf' buffers t hvalid hmapped (by rwa [hchunk])
  have hactual := actual_len_transferBuf client now i len buf' buffers t hle
  have hless : (len - t.actual_len).toNat ≤ buf'.chunk.length := by
    rw [hchunk]
    exact hstop.le
  have hrest := hvalid.chunk_advance hless
  have hep : ((transferBuf client now i len buf' buffers t).s.eps i).buffers =
      buf'.advance (len - t.actual_len).toNat :: buffers := by
    rw [hs]
    show (update t.s.eps i _ i).buffers = _
    rw [update_self]
  have hdrain := drain_cons_of_lt (demand_ne_zero hlt) hstop (buffers.map (·.chunk))
  change drain ((buf :: buffers).map (·.chunk)) _ = _ at hdrain
  refine ⟨rfl, ?_, hactual, ?_, ?_, ?_, ?_, ?_⟩
  · rw [hdrain, map_fst_transferMoved client len buf' t hvalid hmapped, hchunk]
  · rw [hdrain, hep, map_cons, hrest, hchunk]
  · rw [hdrain, hs, take_zero, map_nil, append_nil]
    rfl
  · rw [hdrain, hep]
    exact .cons (hkin.trans ⟨rfl, rfl, rfl, rfl⟩) (forall₂_same.mpr fun b _ => Kin.refl)
  · rw [hep]
    intro b hb
    rcases mem_cons.mp hb with rfl | hb
    · exact hvalid.advance hless
    · exact hothers b hb
  · rw [hep, hs]
    rfl

end

theorem transferLoop_cons {cfg : ℕ → Config} {fuel : ℕ} (hlt : t.actual_len < len)
    (hbuffers : (t.s.eps i).buffers = buf :: buffers)
    (hmap : mapBuf (cfg fuel) (t.s.eps i).direction buf = some (true, buf')) :
    transferLoop cfg client now i len (fuel + 1) t =
      transferLoop cfg client now i len fuel (transferBuf client now i len buf' buffers t) := by
  conv_lhs => unfold transferLoop
  rw [if_pos hlt, hbuffers]
  dsimp only
  rw [hmap]

theorem transferLoop_of_not_lt {cfg : ℕ → Config} {fuel : ℕ} (hlt : ¬ t.actual_len < len) :
    transferLoop cfg client now i len fuel t = some t := by
  unfold transferLoop
  rw [if_neg hlt]

end Rounds

/-! ## The bytes -/

/-- The addresses of `n` bytes are those that are less than `n` behind the first. -/
theorem mem_cells {addr : BitVec 64} {n : ℕ} (h : (a - addr).toNat < n) : a ∈ cells addr n := by
  refine mem_map.mpr ⟨(a - addr).toNat, mem_range.mpr h, ?_⟩
  rw [BitVec.ofNat_toNat, BitVec.setWidth_eq, BitVec.add_comm, BitVec.sub_add_cancel]

theorem mem_store {addr : BitVec 64} {bytes : List UInt8} (h : a ∉ cells addr bytes.length) :
    (s.store addr bytes).mem a = s.mem a := by
  have hpast : bytes.length ≤ (a - addr).toNat := not_lt.mp fun hlt => h (mem_cells hlt)
  show (bytes[(a - addr).toNat]?).getD (s.mem a) = s.mem a
  rw [getElem?_eq_none hpast, Option.getD_none]

/-- The addresses of the timestamps of a buffer. -/
def respCells (s : AppleSIOState) (i : Fin SIO_NUM_EPS) (buf : SIODMABuffer) : List (BitVec 64) :=
  cells (s.resp_base + respOff (s.eps i).id buf.tag) 16

/-- What `apple_sio_dma_writeback` stores is at the addresses of the timestamps. -/
theorem mem_writeback {now : BitVec 64} {i : Fin SIO_NUM_EPS} {buf : SIODMABuffer}
    (h : a ∉ respCells s i buf) : (writeback now i buf buffers s).mem a = s.mem a := by
  have hcells : respCells s i buf = cells (s.resp_base + respOff (s.eps i).id buf.tag) 8 ++
      cells (s.resp_base + respOff (s.eps i).id buf.tag + 8) 8 := cells_add 8 8
  rw [hcells, mem_append, not_or] at h
  show ((s.stqLeDma _ _).stqLeDma _ now).mem a = s.mem a
  rw [stqLeDma, mem_store (by rw [leBytes_length]; exact h.2), stqLeDma,
    mem_store (by rw [leBytes_length]; exact h.1)]

/-- The bytes of a response record: when a buffer came and when it was done. -/
def stampsOf (now : BitVec 64) (buf : SIODMABuffer) : List UInt8 :=
  leBytes 8 buf.start_timestamp.toNat ++ leBytes 8 now.toNat

theorem map_cells_store {addr : BitVec 64} {bytes : List UInt8} (hlen : bytes.length < 2 ^ 64) :
    (cells addr bytes.length).map (s.store addr bytes).mem = bytes := by
  refine ext_getElem (by simp) fun k hk hk' => ?_
  have hoff : (addr + ofNat 64 k - addr).toNat = k := by
    rw [BitVec.add_comm, BitVec.add_sub_cancel, toNat_ofNat, mod_eq_of_lt (hk'.trans hlen)]
  have hcell : (cells addr bytes.length).get ⟨k, by simpa using hk'⟩ = addr + ofNat 64 k := by
    simp [cells]
  rw [getElem_map]
  show (bytes[((cells addr bytes.length).get ⟨k, _⟩ - addr).toNat]?).getD _ = bytes.get ⟨k, hk'⟩
  rw [hcell, hoff, getElem?_eq_getElem hk']
  rfl

/-- `apple_sio_dma_writeback` stores the record. -/
theorem map_mem_writeback (now : BitVec 64) (i : Fin SIO_NUM_EPS) (buf : SIODMABuffer)
    (buffers : List SIODMABuffer) (s : AppleSIOState) :
    (respCells s i buf).map (writeback now i buf buffers s).mem = stampsOf now buf := by
  have hcells : respCells s i buf = cells (s.resp_base + respOff (s.eps i).id buf.tag) 8 ++
      cells (s.resp_base + respOff (s.eps i).id buf.tag + 8) 8 := cells_add 8 8
  have hmem : (writeback now i buf buffers s).mem =
      ((s.stqLeDma (s.resp_base + respOff (s.eps i).id buf.tag) buf.start_timestamp).stqLeDma
        (s.resp_base + respOff (s.eps i).id buf.tag + 8) now).mem := rfl
  rw [hcells, hmem, map_append, stampsOf]
  generalize s.resp_base + respOff (s.eps i).id buf.tag = addr
  congr 1
  · -- The second timestamp is behind the first.
    have hfirst : (cells addr 8).map (s.stqLeDma addr buf.start_timestamp).mem =
        leBytes 8 buf.start_timestamp.toNat := map_cells_store (by rw [leBytes_length]; decide)
    rw [← hfirst]
    refine map_congr_left fun a ha => mem_store fun ha' => ?_
    obtain ⟨k, hk, rfl⟩ := mem_map.mp ha
    obtain ⟨k', hk', heq⟩ := mem_map.mp ha'
    rw [leBytes_length] at hk'
    have hk := mem_range.mp hk
    have hk' := mem_range.mp hk'
    rw [add_assoc, add_right_inj] at heq
    have hnat := congrArg toNat heq
    rw [BitVec.toNat_add, toNat_ofNat, toNat_ofNat] at hnat
    change (8 + k' % 2 ^ 64) % 2 ^ 64 = k % 2 ^ 64 at hnat
    omega
  · exact map_cells_store (by rw [leBytes_length]; decide)

/-- The bytes `new` are those of the client or of the memory, as it was between two points of a
call, outside of the addresses `R`. -/
structure Copied (client : Client) (R : BitVec 64 → Prop) (t t' : Transfer)
    (new : List (BitVec 64 × UInt8)) : Prop where
  mem : ∀ a, ¬ R a → t'.s.mem a = client.copy t.s.mem new a
  read : client = .read → ∀ c ∈ new, ¬ R c.1 → c.2 = t.s.mem c.1
  /-- A writer gives its bytes in order. -/
  write : ∀ buffer, client = .write buffer →
    new.map snd = (range' t.actual_len.toNat new.length).map buffer

section

variable (client : Client) (mem : BitVec 64 → UInt8)

theorem Copied.refl {R : BitVec 64 → Prop} {t : Transfer} : Copied client R t t [] where
  mem _ _ := by cases client <;> rfl
  read _ _ h := absurd h not_mem_nil
  write _ _ := rfl

/-- The memory after bytes depends only on the memory at the address and on the bytes. -/
theorem Client.copy_congr {mem mem' : BitVec 64 → UInt8} (h : mem a = mem' a)
    (moved : List (BitVec 64 × UInt8)) : client.copy mem moved a = client.copy mem' moved a := by
  cases client with
  | read => exact h
  | write buffer =>
    induction moved generalizing mem mem' with
    | nil => exact h
    | cons c moved ih =>
      refine ih ?_
      show update mem c.1 c.2 a = update mem' c.1 c.2 a
      rw [update_apply, update_apply, h]

theorem Client.copy_append (moved more : List (BitVec 64 × UInt8)) :
    client.copy mem (moved ++ more) = client.copy (client.copy mem moved) more := by
  cases client with
  | read => rfl
  | write buffer => exact foldl_append

theorem Copied.trans {client : Client} {t t₁ t' : Transfer} {new more : List (BitVec 64 × UInt8)}
    (h : Copied client R t t₁ new) (h' : Copied client R t₁ t' more)
    (hactual : t₁.actual_len.toNat = t.actual_len.toNat + new.length) :
    Copied client R t t' (new ++ more) where
  mem a ha := by
    rw [h'.mem a ha, client.copy_congr (h.mem a ha), client.copy_append]
  read hread c hc hR := by
    rcases mem_append.mp hc with hc | hc
    · exact h.read hread c hc hR
    · rw [h'.read hread c hc hR, h.mem c.1 hR, hread]
      rfl
  write buffer hwrite := by
    rw [map_append, h.write buffer hwrite, h'.write buffer hwrite, hactual, ← map_append,
      range'_append_1, length_append]

theorem copied_transferBuf (now : BitVec 64) (i : Fin SIO_NUM_EPS) (len : BitVec 64)
    {buf : SIODMABuffer} (buffers : List SIODMABuffer) (t : Transfer)
    (hR : ∀ a ∈ respCells t.s i buf, R a) :
    Copied client R t (transferBuf client now i len buf buffers t)
      (transferMoved client len buf t) where
  mem a ha := by
    unfold transferBuf
    dsimp only
    split_ifs
    · exact mem_writeback fun h => ha (hR a h)
    · rfl
  read hread c hc _ := by
    subst hread
    have hzip := zip_map' (f := id) (g := t.s.mem) (l := transferCells buf t.actual_len len)
    rw [map_id] at hzip
    change c ∈ (transferCells buf t.actual_len len).zip _ at hc
    rw [Client.bytes, hzip] at hc
    obtain ⟨a, -, rfl⟩ := mem_map.mp hc
    rfl
  write buffer hwrite := by
    have hlen := client.length_bytes t.s.mem t.actual_len.toNat (transferCells buf t.actual_len len)
    have hmoved : (transferMoved client len buf t).length =
        (transferCells buf t.actual_len len).length := by
      rw [← map_fst_transferMoved_eq_cells client len buf t, length_map]
    rw [hmoved]
    unfold transferMoved
    rw [map_snd_zip hlen.le, hwrite, range'_eq_map_range, map_map]
    rfl

end

/-! ## The loop -/

theorem Client.copy_of_not_mem (client : Client) (mem : BitVec 64 → UInt8)
    {moved : List (BitVec 64 × UInt8)} (h : client = .read ∨ ∀ c ∈ moved, c.1 ≠ a) :
    client.copy mem moved a = mem a := by
  cases client with
  | read => rfl
  | write buffer =>
    rcases h with h | h
    · cases h
    induction moved generalizing mem with
    | nil => rfl
    | cons c moved ih =>
      obtain ⟨hc, hmoved⟩ := forall_mem_cons.mp h
      exact (ih (update mem c.1 c.2) hmoved).trans (update_of_ne hc.symm _ _)

/-- The records of the first `k` of the buffers are there in the end, each unless a later record or
the bytes `new` of a writer go over it. -/
def Recorded (client : Client) (now : BitVec 64) (i : Fin SIO_NUM_EPS) (buffers : List SIODMABuffer)
    (k : ℕ) (s s' : AppleSIOState) (new : List (BitVec 64 × UInt8)) : Prop :=
  ∀ pre buf post, buffers = pre ++ buf :: post → pre.length < k →
    (∀ b ∈ post, (respCells s i buf).Disjoint (respCells s i b)) →
    (client = .read ∨ ∀ c ∈ new, c.1 ∉ respCells s i buf) →
    (respCells s i buf).map s'.mem = stampsOf now buf

section

variable {cfg : ℕ → Config} (hmaps : ∀ k, (cfg k).Maps) (client : Client) (now : BitVec 64)
  {i : Fin SIO_NUM_EPS} {len : BitVec 64} {fuel : ℕ} {t : Transfer} {buf buf' : SIODMABuffer}

theorem recorded_zero {s s' : AppleSIOState} {new : List (BitVec 64 × UInt8)} :
    Recorded client now i buffers 0 s s' new :=
  fun _ _ _ _ hdone => absurd hdone (not_lt_zero _)

include hmaps

/-- A round of the loop: the first buffer is mapped, and what is transferred is of it. -/
theorem exists_round (fuel : ℕ) (hlt : t.actual_len < len)
    (hbuffers : (t.s.eps i).buffers = buf :: buffers) (hbuf : buf.Valid) :
    ∃ buf', buf'.Valid ∧ buf'.mapped = true ∧ Kin buf buf' ∧ buf'.chunk = buf.chunk ∧
      transferLoop cfg client now i len (fuel + 1) t =
        transferLoop cfg client now i len fuel (transferBuf client now i len buf' buffers t) := by
  obtain ⟨buf', hmap⟩ := exists_mapBuf (hmaps fuel) (t.s.eps i).direction hbuf
  obtain ⟨hvalid', hok, iov, hbuf'⟩ := valid_of_mapBuf hbuf hmap
  refine ⟨buf', hvalid', hok rfl, ?_, ?_, transferLoop_cons hlt hbuffers hmap⟩
  · rw [hbuf']
    exact ⟨rfl, rfl, rfl, rfl⟩
  · rw [hbuf']
    rfl

section

variable (buffers : List SIODMABuffer) (hvalid : buf.Valid) (hmapped : buf.mapped = true)
  (hfull : buf.chunk.length ≤ (len - t.actual_len).toNat)

omit hmaps

include hvalid hmapped hfull

/-- The endpoint and the records after a round that takes the last byte of the first buffer. -/
theorem eps_transferBuf_of_le :
    (transferBuf client now i len buf buffers t).s.eps i = { t.s.eps i with buffers := buffers } ∧
    ∀ b, respCells (transferBuf client now i len buf buffers t).s i b = respCells t.s i b := by
  have hs := transferBuf_of_le client now i len buf buffers t hvalid hmapped hfull
  have hep : (transferBuf client now i len buf buffers t).s.eps i =
      { t.s.eps i with buffers := buffers } := by
    rw [hs]
    exact update_self _ _ _
  refine ⟨hep, fun b => ?_⟩
  rw [respCells, hep, hs]
  rfl

theorem record_transferBuf (i : Fin SIO_NUM_EPS) : (respCells t.s i buf).map
    (transferBuf client now i len buf buffers t).s.mem = stampsOf now buf := by
  rw [transferBuf_of_le client now i len buf buffers t hvalid hmapped hfull]
  exact map_mem_writeback now i (buf.advance buf.chunk.length) buffers
    { t.s with mem := client.copy t.s.mem (transferMoved client len buf t) }

end

omit hmaps in
/-- The record of a round stays, where what is stored behind it does not touch it. -/
theorem Recorded.cons {s s₁ s' : AppleSIOState} {k : ℕ} {moved new : List (BitVec 64 × UInt8)}
    (hrecord : (respCells s i buf).map s₁.mem = stampsOf now buf)
    (hresp : ∀ b, respCells s₁ i b = respCells s i b)
    (hmem : ∀ a, (¬ ∃ b ∈ buffers, a ∈ respCells s i b) → s'.mem a = client.copy s₁.mem new a)
    (h : Recorded client now i buffers k s₁ s' new) :
    Recorded client now i (buf :: buffers) (k + 1) s s' (moved ++ new) := by
  intro pre b post hsplit hdone hapart hclient
  have hclient := hclient.imp_right fun hmoved c hc => hmoved c (mem_append_right moved hc)
  cases pre with
  | nil =>
    obtain ⟨rfl, rfl⟩ := cons.inj hsplit
    rw [← hrecord]
    refine map_congr_left fun a ha => ?_
    rw [hmem a fun ⟨b, hb, hab⟩ => hapart b hb ha hab]
    exact client.copy_of_not_mem _ (hclient.imp_right fun hmoved c hc hca => hmoved c hc (hca ▸ ha))
  | cons first pre =>
    obtain ⟨rfl, rfl⟩ := cons.inj hsplit
    rw [← hresp]
    refine h pre b post rfl (lt_of_succ_lt_succ hdone) ?_ ?_
    · simpa only [hresp] using hapart
    · simpa only [hresp] using hclient

theorem transferLoop_eq (i : Fin SIO_NUM_EPS) (len : BitVec 64) {fuel : ℕ} {t : Transfer}
    (hbuffers : (t.s.eps i).buffers = buffers) (hvalid : ∀ buf ∈ buffers, buf.Valid)
    (hle : t.actual_len ≤ len) (hfuel : buffers.length < fuel) :
    ∃ t' new, transferLoop cfg client now i len fuel t = some t' ∧
      Served i buffers (len - t.actual_len).toNat t t' new ∧
      (∀ R, (∀ buf ∈ buffers, ∀ a ∈ respCells t.s i buf, R a) → Copied client R t t' new) ∧
      Recorded client now i buffers
        (drain (buffers.map (·.chunk)) (len - t.actual_len).toNat).finished t.s t'.s new := by
  -- The induction is on the bound of the rounds; each round but the last takes away a buffer.
  induction fuel generalizing buffers t with
  | zero => exact absurd hfuel (not_lt_zero _)
  | succ fuel ih =>
    by_cases hlt : t.actual_len < len
    swap
    · have hge : len.toNat ≤ t.actual_len.toNat := not_lt.mp hlt
      have hzero : (len - t.actual_len).toNat = 0 := by
        rw [toNat_sub_of_le hle]
        omega
      refine ⟨t, [], transferLoop_of_not_lt hlt, .refl hbuffers hvalid (.inl hzero),
        fun _ _ => .refl _, ?_⟩
      rw [hzero, drain_zero]
      exact recorded_zero client now
    cases buffers with
    | nil =>
      refine ⟨t, [], ?_, .refl hbuffers hvalid (.inr rfl), fun _ _ => .refl _,
        recorded_zero client now⟩
      unfold transferLoop
      rw [if_pos hlt, hbuffers]
    | cons buf buffers =>
      have hothers := fun b hb => hvalid b (mem_cons_of_mem _ hb)
      obtain ⟨buf', hvalid', hmapped, hkin, hchunk, hround⟩ := exists_round hmaps client now
        fuel hlt hbuffers (hvalid buf mem_cons_self)
      have hsame : respCells t.s i buf' = respCells t.s i buf := by rw [respCells, hkin.tag]; rfl
      have hcopied := fun R (hR : ∀ b ∈ buf :: buffers, ∀ a ∈ respCells t.s i b, R a) =>
        copied_transferBuf client now i len buffers t (R := R) fun a ha =>
          hR buf mem_cons_self a (by rwa [hsame] at ha)
      have hactual := actual_len_transferBuf client now i len buf' buffers t hle
      rw [hround]
      by_cases hfull : buf.chunk.length ≤ (len - t.actual_len).toNat
      · -- The buffer is done, and the loop goes on with the others.
        obtain ⟨hep, hresp⟩ := eps_transferBuf_of_le client now buffers hvalid' hmapped
          (by rwa [hchunk])
        have hrecord := record_transferBuf client now buffers hvalid' hmapped
          (by rwa [hchunk]) i
        obtain ⟨t', new, hloop, hserved, hmore, hrecorded⟩ := ih (by rw [hep]) hothers
          (actual_len_transferBuf_le client now i len buf' buffers t hle)
          (lt_of_succ_lt_succ hfuel)
        refine ⟨t', _, hloop, hserved.cons_of_le hlt hvalid' hmapped hkin hchunk hfull,
          fun R hR => (hcopied R hR).trans (hmore R fun b hb => ?_) hactual, ?_⟩
        · rw [hresp]
          exact hR b (mem_cons_of_mem _ hb)
        · rw [demand_transferBuf hle, length_transferMoved client len buf' t hvalid' hmapped,
            hchunk, min_eq_right hfull] at hrecorded
          rw [map_cons, drain_cons_of_le (demand_ne_zero hlt) hfull]
          rw [hsame, stampsOf, hkin.start_timestamp] at hrecord
          exact .cons client now hrecord hresp
            (hmore _ fun b hb a ha => ⟨b, hb, by rwa [hresp] at ha⟩).mem hrecorded
      · -- The client has what it wants, and the loop ends.
        have hstop := not_le.mp hfull
        have hlen := length_transferMoved client len buf' t hvalid' hmapped
        have hend : ¬ (transferBuf client now i len buf' buffers t).actual_len < len := by
          rw [BitVec.lt_def, hactual, hlen, hchunk, min_eq_left hstop.le, toNat_sub_of_le hle]
          omega
        refine ⟨_, _, transferLoop_of_not_lt hend,
          .cons_of_lt hlt hvalid' hmapped hkin hchunk hstop hothers, hcopied, ?_⟩
        rw [map_cons, drain_cons_of_lt (demand_ne_zero hlt) hstop]
        exact recorded_zero client now

theorem dmaTransfer_eq {i : Fin SIO_NUM_EPS} (len : BitVec 64)
    (hdir : (s.eps i).direction = client.direction)
    (hvalid : ∀ buf ∈ (s.eps i).buffers, buf.Valid) :
    ∃ t, dmaTransfer cfg client now i len s = some t ∧
      Served i (s.eps i).buffers len.toNat ⟨s, 0, []⟩ t t.moved ∧
      Copied client (fun a => ∃ buf ∈ (s.eps i).buffers, a ∈ respCells s i buf) ⟨s, 0, []⟩ t
        t.moved ∧
      Recorded client now i (s.eps i).buffers
        (drain ((s.eps i).buffers.map (·.chunk)) len.toNat).finished s t.s t.moved := by
  unfold dmaTransfer
  rw [if_neg (not_not.mpr hdir)]
  by_cases hlen : len = 0
  · rw [hlen]
    refine ⟨_, rfl, .refl rfl hvalid (.inl rfl), .refl _, ?_⟩
    have hnone : drain ((s.eps i).buffers.map (·.chunk)) (0 : BitVec 64).toNat = _ := drain_zero _
    rw [hnone]
    exact recorded_zero client now
  · rw [if_neg hlen]
    obtain ⟨t, new, hloop, hserved, hcopied, hrecorded⟩ := transferLoop_eq hmaps client now i len
      (t := ⟨s, 0, []⟩) rfl hvalid (zero_le len.toNat) (lt_succ_self _)
    have hdemand : (len - 0).toNat = len.toNat := congrArg toNat (BitVec.sub_zero len)
    obtain rfl : t.moved = new := hserved.moved
    rw [hdemand] at hserved hrecorded
    exact ⟨t, hloop, hserved, hcopied _ fun buf hbuf a ha => ⟨buf, hbuf, ha⟩, hrecorded⟩

end

end Inferno.Sio
