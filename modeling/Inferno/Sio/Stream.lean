import Inferno.Sio.Reachable

/-!
# What goes over an endpoint

A sequence of calls on an endpoint is a sequence of demands on its buffers, `Common.Drained`, which
gives what `stream_conservation` says about it. Two numbers of the source are shorter than what they
count: the data of the message has 32 bits, and `apple_sio_dma_remaining` has 64. A buffer without
bytes is done when a call that wants more reaches it, not when the byte before it is transferred.
The record of a buffer that is done holds its timestamps, unless the call stores something over it.
-/

namespace Inferno.Sio

open Common AppleSIOState List Function
open BitVec (ofNat toNat_ofNat)
open Prod (fst snd)

/-! ## Any number of calls -/

/-- The bytes that the endpoint still has to transfer. -/
def AppleSIODMAEndpoint.pending (ep : AppleSIODMAEndpoint) : List (BitVec 64) :=
  (ep.buffers.map (·.chunk)).flatten

/-- A call of a device, with what the memory answers in its rounds. -/
structure Call where
  cfg : ℕ → Config
  client : Client
  now : BitVec 64
  len : BitVec 64

/-- `dma_memory_map` succeeds in all rounds of a call. -/
def Call.Maps (c : Call) : Prop := ∀ k, (c.cfg k).Maps

/-- The calls one after the other, and all bytes that they transfer. -/
def transfers (i : Fin SIO_NUM_EPS) :
    List Call → AppleSIOState → Option (AppleSIOState × List (BitVec 64 × UInt8))
  | [], s => some (s, [])
  | c :: calls, s => do
    let t ← dmaTransfer c.cfg c.client c.now i c.len s
    let (s, moved) ← transfers i calls t.s
    pure (s, t.moved ++ moved)

variable {a b : List SIODMABuffer} {i : Fin SIO_NUM_EPS} {s : AppleSIOState}

theorem forall₂_kin_trans {c : List SIODMABuffer} (hab : List.Forall₂ Kin a b)
    (hbc : List.Forall₂ Kin b c) : List.Forall₂ Kin a c := by
  induction hab generalizing c with
  | nil => exact hbc
  | cons hxy _ ih =>
    obtain ⟨z, zs, hyz, hrest, rfl⟩ := forall₂_cons_left_iff.mp hbc
    exact .cons (hxy.trans hyz) (ih hrest)

theorem map_doneMsg_of_kin (h : List.Forall₂ Kin a b) (id : BitVec 8) :
    b.map (doneMsg id) = a.map (doneMsg id) := by
  induction h with
  | nil => rfl
  | cons hxy _ ih =>
    rw [map_cons, map_cons, ih, hxy.doneMsg_eq]

/-- What calls on the endpoint have done in all: they have transferred the bytes `moved`, and the
first `k` buffers are done. -/
structure Streamed (i : Fin SIO_NUM_EPS) (s : AppleSIOState) (moved : List (BitVec 64)) (k : ℕ)
    (s' : AppleSIOState) : Prop where
  /-- The bytes are those in front. -/
  drained : Drained ((s.eps i).buffers.map (·.chunk)) moved k ((s'.eps i).buffers.map (·.chunk))
  /-- There is one message about each buffer that is done, in order. -/
  sent : s'.sent = s.sent ++ ((s.eps i).buffers.take k).map (doneMsg (s.eps i).id)
  /-- The other buffers are there, in order. -/
  kin : List.Forall₂ Kin ((s.eps i).buffers.drop k) (s'.eps i).buffers
  valid : ∀ buf ∈ (s'.eps i).buffers, buf.Valid
  /-- The rest of the endpoint is the same. -/
  endpoint : s'.eps = Function.update s.eps i { s.eps i with buffers := (s'.eps i).buffers }

theorem Streamed.refl (hvalid : ∀ buf ∈ (s.eps i).buffers, buf.Valid) : Streamed i s [] 0 s where
  drained := .refl _
  sent := (append_nil _).symm
  kin := forall₂_same.mpr fun _ _ => Kin.refl
  valid := hvalid
  endpoint := (update_eq_self i s.eps).symm

theorem Served.streamed {n : ℕ} {t : Transfer}
    (h : Served i (s.eps i).buffers n ⟨s, 0, []⟩ t t.moved) :
    ∃ k, Streamed i s (t.moved.map fst) k t.s := by
  have hdrained := drained_drain ((s.eps i).buffers.map (·.chunk)) n
  rw [← h.taken, ← h.chunks] at hdrained
  exact ⟨_, hdrained, h.sent, h.kin, h.valid, h.endpoint⟩

theorem Streamed.trans {s₁ s' : AppleSIOState} {moved moved' : List (BitVec 64)} {k k' : ℕ}
    (h : Streamed i s moved k s₁) (h' : Streamed i s₁ moved' k' s') :
    Streamed i s (moved ++ moved') (k + k') s' := by
  have hep : s₁.eps i = { s.eps i with buffers := (s₁.eps i).buffers } := by
    have hat := congrFun h.endpoint i
    rwa [update_self] at hat
  have hid : (s₁.eps i).id = (s.eps i).id := by rw [hep]
  have hmsgs := map_doneMsg_of_kin (forall₂_take k' h.kin) (s.eps i).id
  refine ⟨h.drained.trans h'.drained, ?_, ?_, h'.valid, ?_⟩
  · rw [h'.sent, h.sent, hid, hmsgs, append_assoc, ← map_append, ← take_add]
  · have hdrop := forall₂_drop k' h.kin
    rw [drop_drop] at hdrop
    exact forall₂_kin_trans hdrop h'.kin
  · rw [h'.endpoint, h.endpoint, update_idem, update_self, update_self]

theorem transfers_eq {calls : List Call} (hmaps : ∀ c ∈ calls, c.Maps)
    (hdir : ∀ c ∈ calls, (s.eps i).direction = c.client.direction)
    (hvalid : ∀ buf ∈ (s.eps i).buffers, buf.Valid) :
    ∃ s' moved k, transfers i calls s = some (s', moved) ∧
      Streamed i s (moved.map fst) k s' := by
  induction calls generalizing s with
  | nil => exact ⟨s, [], 0, rfl, .refl hvalid⟩
  | cons c calls ih =>
    obtain ⟨t, ht, hserved, -⟩ := dmaTransfer_eq (hmaps c mem_cons_self) c.client c.now c.len
      (hdir c mem_cons_self) hvalid
    obtain ⟨k, hfirst⟩ := hserved.streamed
    have hsame : (t.s.eps i).direction = (s.eps i).direction := by
      rw [hfirst.endpoint, update_self]
    obtain ⟨s', moved, k', hothers, hstream⟩ := ih (fun c' hc' => hmaps c' (mem_cons_of_mem _ hc'))
      (fun c' hc' => hsame.trans (hdir c' (mem_cons_of_mem _ hc'))) hfirst.valid
    refine ⟨s', t.moved ++ moved, k + k', ?_, ?_⟩
    · rw [transfers, ht]
      show (transfers i calls t.s).bind _ = _
      rw [hothers]
      rfl
    · rw [map_append]
      exact hfirst.trans hstream

/-- `apple_sio_dma_remaining` is the number of the bytes to transfer modulo `2^64`. -/
theorem dmaRemaining_eq {ep : AppleSIODMAEndpoint} (hvalid : ∀ buf ∈ ep.buffers, buf.Valid) :
    dmaRemaining ep = ofNat 64 ep.pending.length := by
  unfold dmaRemaining AppleSIODMAEndpoint.pending
  generalize ep.buffers = buffers at hvalid
  induction buffers with
  | nil => rfl
  | cons buf buffers ih =>
    have hbuf := hvalid buf mem_cons_self
    have hothers := ih fun b hb => hvalid b (mem_cons_of_mem _ hb)
    have hlen := hbuf.length_chunk
    have hsize := hbuf.toNat_sglSize
    have hfirst : buf.sglSize - buf.completed = ofNat 64 buf.chunk.length := by
      apply BitVec.eq_of_toNat_eq
      rw [BitVec.toNat_sub_of_le (by rw [BitVec.le_def]; omega), toNat_ofNat]
      omega
    rw [map_cons, sum_cons, hothers, hfirst, map_cons, flatten_cons,
      length_append, BitVec.ofNat_add]

/-- The number of bytes that the first `j` buffers of the endpoint still have to transfer. -/
def AppleSIODMAEndpoint.before (ep : AppleSIODMAEndpoint) (j : ℕ) : ℕ :=
  ((ep.buffers.map (·.chunk)).take j).flatten.length

/-- The first `k` buffers are done in a call: there is a message about each of them, the others are
left, and each record holds the timestamps, unless another buffer has the record, too, or a writer's
bytes go there. -/
structure Call.Completes (c : Call) (i : Fin SIO_NUM_EPS) (s : AppleSIOState) (t : Transfer)
    (k : ℕ) : Prop where
  sent : t.s.sent = s.sent ++ ((s.eps i).buffers.take k).map (doneMsg (s.eps i).id)
  left : List.Forall₂ Kin ((s.eps i).buffers.drop k) (t.s.eps i).buffers
  record : Recorded c.client c.now i (s.eps i).buffers k s t.s t.moved

/-- What a call does on an endpoint in the state `s`. -/
structure Call.Conserves (c : Call) (i : Fin SIO_NUM_EPS) (s : AppleSIOState) (t : Transfer) :
    Prop where
  /-- It returns what the client wants, or all there is. -/
  actual_len : t.actual_len.toNat = min c.len.toNat (s.eps i).pending.length
  length : t.moved.length = t.actual_len.toNat
  /-- There are as many less to transfer. -/
  pending : t.actual_len.toNat + (t.s.eps i).pending.length = (s.eps i).pending.length
  /-- A buffer is done exactly if the call reaches it with bytes still wanted and wants all of it.
  -/
  completes : ∃ k, c.Completes i s t k ∧ ∀ j, j < k ↔ j < (s.eps i).buffers.length ∧
    (s.eps i).before j < c.len.toNat ∧ (s.eps i).before (j + 1) ≤ c.len.toNat
  /-- `apple_sio_dma_remaining` after the call. -/
  remaining : dmaRemaining (t.s.eps i) = ofNat 64 (t.s.eps i).pending.length
  /-- A reader gets what the memory held, but where timestamps were stored. -/
  read : c.client = .read → ∀ b ∈ t.moved,
    (¬ ∃ buf ∈ (s.eps i).buffers, b.1 ∈ respCells s i buf) → b.2 = s.mem b.1
  /-- A writer gives its bytes in order. -/
  write : ∀ buffer, c.client = .write buffer → t.moved.map snd = (range t.moved.length).map buffer
  /-- The memory holds them, but where timestamps were stored. -/
  mem : ∀ a, (¬ ∃ buf ∈ (s.eps i).buffers, a ∈ respCells s i buf) →
    t.s.mem a = c.client.copy s.mem t.moved a

theorem Call.conserves {c : Call} (hmaps : c.Maps)
    (hdir : (s.eps i).direction = c.client.direction)
    (hvalid : ∀ buf ∈ (s.eps i).buffers, buf.Valid) :
    ∃ t, dmaTransfer c.cfg c.client c.now i c.len s = some t ∧ c.Conserves i s t := by
  obtain ⟨t, ht, hserved, hcopied, hrecord⟩ := dmaTransfer_eq hmaps c.client c.now c.len hdir hvalid
  have hlen : t.moved.length = t.actual_len.toNat := by
    rw [hserved.actual_len]
    exact (Nat.zero_add _).symm
  have htaken : t.actual_len.toNat =
      (drain ((s.eps i).buffers.map (·.chunk)) c.len.toNat).taken.length := by
    rw [← hserved.taken, length_map, hlen]
  have hall := (drained_drain ((s.eps i).buffers.map (·.chunk)) c.len.toNat).length
  rw [← hserved.chunks, ← htaken] at hall
  refine ⟨t, ht, ?_, hlen, hall, ?_, dmaRemaining_eq hserved.valid, hcopied.read, ?_, hcopied.mem⟩
  · rw [htaken, length_taken_drain]
    rfl
  · refine ⟨_, ⟨hserved.sent, hserved.kin, hrecord⟩, fun j => ?_⟩
    rw [lt_finished_drain_iff, length_map]
    rfl
  · intro buffer hwrite
    rw [hcopied.write buffer hwrite, range_eq_range']
    rfl

/-- The bytes that are transferred are those of the buffers in order, each call transfers what its
client wants or all there is, and a buffer is done when the last of its bytes is transferred and
only then; one without bytes is done by the next call that reaches it with bytes still wanted. The
message about a buffer carries the number of its bytes modulo `2^32`, its record holds its
timestamps, and `apple_sio_dma_remaining` returns the number of the bytes to transfer modulo `2^64`.
-/
theorem stream_conservation (i : Fin SIO_NUM_EPS) (s : AppleSIOState)
    (hvalid : ∀ buf ∈ (s.eps i).buffers, buf.Valid) (calls : List Call)
    (hmaps : ∀ c ∈ calls, c.Maps)
    (hdir : ∀ c ∈ calls, (s.eps i).direction = c.client.direction) :
    ∃ s' moved k, transfers i calls s = some (s', moved) ∧
      moved.map fst ++ (s'.eps i).pending = (s.eps i).pending ∧
      s'.sent = s.sent ++ ((s.eps i).buffers.take k).map (doneMsg (s.eps i).id) ∧
      List.Forall₂ Kin ((s.eps i).buffers.drop k) (s'.eps i).buffers ∧
      (∀ j < k, (s.eps i).before (j + 1) ≤ moved.length) ∧
      (∀ j buf, k ≤ j → (s.eps i).buffers[j]? = some buf → buf.chunk ≠ [] →
        moved.length < (s.eps i).before (j + 1)) ∧
      dmaRemaining (s'.eps i) = ofNat 64 (s'.eps i).pending.length ∧
      ∀ c : Call, c.Maps → (s.eps i).direction = c.client.direction →
        ∃ t, dmaTransfer c.cfg c.client c.now i c.len s' = some t ∧ c.Conserves i s' t := by
  obtain ⟨s', moved, k, hcalls, hstream⟩ := transfers_eq hmaps hdir hvalid
  have hmoved : (moved.map fst).length = moved.length := length_map _
  refine ⟨s', moved, k, hcalls, hstream.drained.append, hstream.sent, hstream.kin, ?_, ?_,
    dmaRemaining_eq hstream.valid, ?_⟩
  · intro j hj
    rw [← hmoved]
    exact hstream.drained.length_take_le hj
  · intro j buf hj hbuf hchunk
    rw [← hmoved]
    exact hstream.drained.lt_length_take hj (by rw [getElem?_map, hbuf]; rfl) hchunk
  · intro c hc hdirection
    have hsame : (s'.eps i).direction = (s.eps i).direction := by
      rw [hstream.endpoint, update_self]
    exact c.conserves hc (hsame.trans hdirection) hstream.valid

/-- `dma_memory_map` succeeds in a memory that can be mapped everywhere. -/
theorem sampleConfig_maps : sampleConfig.Maps := fun _ _ len _ hlen => ⟨len, rfl, hlen⟩

/-- A call to read in such a memory. -/
def readCall (now len : BitVec 64) : Call := ⟨fun _ => sampleConfig, .read, now, len⟩

theorem readCall_maps (now len : BitVec 64) : (readCall now len).Maps := fun _ => sampleConfig_maps

variable (buffers : List (List SIODMASegment))

/-- The endpoint with the given buffers, of which none is begun. -/
def sampleState : AppleSIOState :=
  (init 9 fun a => UInt8.ofNat a.toNat).setBuffers sampleEp
    (buffers.map fun segments => newBuffer 0 1 segments (ofNat 32 segments.length))

theorem valid_sampleState (hshort : ∀ segments ∈ buffers, segments.length < 2 ^ 31) :
    ∀ buf ∈ ((sampleState buffers).eps sampleEp).buffers, buf.Valid := by
  have hbuffers : ((sampleState buffers).eps sampleEp).buffers = buffers.map fun segments =>
      newBuffer 0 1 segments (ofNat 32 segments.length) := rfl
  rw [hbuffers, forall_mem_map]
  intro segments hmem
  have hlt := hshort segments hmem
  have hcount : (ofNat 32 segments.length).toNat = segments.length := by
    rw [toNat_ofNat, Nat.mod_eq_of_lt (by omega)]
  refine valid_newBuffer 0 1 segments hcount.symm ?_
  rw [TooMany, BitVec.toInt_eq_toNat_of_lt (by omega)]
  omega

/-- A buffer with an empty segment, an empty buffer and a third one, read by two calls that do not
end where they do. -/
theorem stream_conservation_sample :
    ∃ s' moved k, transfers sampleEp [readCall 0 4, readCall 1 3]
        (sampleState [[⟨0x1000, 3⟩, ⟨0x2000, 0⟩, ⟨0x3000, 2⟩], [], [⟨0x4000, 4⟩]]) =
          some (s', moved) ∧
      moved.map fst ++ (s'.eps sampleEp).pending =
        [0x1000, 0x1001, 0x1002, 0x3000, 0x3001, 0x4000, 0x4001, 0x4002, 0x4003] ∧
      s'.sent = ([⟨4, 1, OP_COMPLETE, 0x80, 5⟩, ⟨4, 1, OP_COMPLETE, 0x80, 0⟩,
        ⟨4, 1, OP_COMPLETE, 0x80, 4⟩] : List SIOMessage).take k := by
  obtain ⟨s', moved, k, hcalls, hbytes, hsent, -⟩ := stream_conservation sampleEp
    (sampleState [[⟨0x1000, 3⟩, ⟨0x2000, 0⟩, ⟨0x3000, 2⟩], [], [⟨0x4000, 4⟩]])
    (valid_sampleState _ (by decide)) [readCall 0 4, readCall 1 3]
    (forall_mem_cons.mpr ⟨readCall_maps 0 4, forall_mem_singleton.mpr (readCall_maps 1 3)⟩)
    (forall_mem_cons.mpr ⟨rfl, forall_mem_singleton.mpr rfl⟩)
  refine ⟨s', moved, k, hcalls, hbytes.trans (by decide +kernel), ?_⟩
  rw [hsent, map_take]
  rfl

theorem Served.of_singleton {buf : SIODMABuffer} {t : Transfer}
    (h : Served i [buf] buf.chunk.length ⟨s, 0, []⟩ t t.moved) (hchunk : buf.chunk.length ≠ 0) :
    t.moved.length = buf.chunk.length ∧ t.s.sent = s.sent ++ [doneMsg (s.eps i).id buf] := by
  have hdrain : drain ([buf].map (·.chunk)) buf.chunk.length = ⟨buf.chunk ++ [], 1, []⟩ :=
    drain_cons_of_le hchunk le_rfl []
  constructor
  · rw [← length_map fst, h.taken, hdrain, append_nil]
  · have hsent := h.sent
    rw [hdrain] at hsent
    exact hsent

/-- A buffer of two segments of 2 GiB that is read at once: the message about it carries no length.
And a buffer without bytes: it is left when the byte before it is read. -/
theorem not_stream_conservation :
    (∃ s' moved, transfers sampleEp [readCall 0 0x100000000]
        (sampleState [[⟨0, 0x80000000⟩, ⟨0x80000000, 0x80000000⟩]]) = some (s', moved) ∧
      moved.length = 2 ^ 32 ∧ s'.sent = [⟨4, 1, OP_COMPLETE, 0x80, 0⟩]) ∧
    ∃ s' moved, transfers sampleEp [readCall 0 1] (sampleState [[⟨0x1000, 1⟩], []]) =
        some (s', moved) ∧ (s'.eps sampleEp).pending = [] ∧
      (s'.eps sampleEp).buffers.length = 1 := by
  constructor
  · let buf := newBuffer 0 1 [⟨0, 0x80000000⟩, ⟨0x80000000, 0x80000000⟩] 2
    obtain ⟨t, ht, hserved, -⟩ := dmaTransfer_eq (i := sampleEp)
      (readCall_maps 0 0x100000000) .read 0 0x100000000 rfl
      (valid_sampleState [[⟨0, 0x80000000⟩, ⟨0x80000000, 0x80000000⟩]] (by decide))
    have haddrs : buf.addrs.length = 2 ^ 32 := by
      rw [buf.length_addrs]
      decide
    have hchunk : buf.chunk.length = 2 ^ 32 := haddrs
    have hserved' : Served sampleEp [buf] buf.chunk.length
        ⟨sampleState [[⟨0, 0x80000000⟩, ⟨0x80000000, 0x80000000⟩]], 0, []⟩ t t.moved := by
      rw [hchunk]
      exact hserved
    obtain ⟨hmoved, hsent⟩ := hserved'.of_singleton (by rw [hchunk]; decide)
    refine ⟨t.s, t.moved ++ [], ?_, ?_, ?_⟩
    · dsimp only [transfers, readCall] at ht ⊢
      rw [ht]
      rfl
    · rw [append_nil, hmoved, hchunk]
    · rw [hsent, doneMsg, haddrs]
      rfl
  · exact ⟨_, _, rfl, rfl, rfl⟩

end Inferno.Sio
