import Inferno.Sio.Reachable

/-!
# Where descriptors are read and responses are written

The guest sets the bases of two regions by their page numbers. A request names its descriptor by an
index in the segment region; the response to a buffer goes to a slot of the response region, after
the number of the endpoint and the tag of the buffer. Nothing but a later message or a reset changes
a base, and nothing the number of an endpoint (`bases_dma`, `bases_dmaTransfer`).

Page numbers and indices are scaled in 32 bits, so that the addresses are those meant exactly if
nothing is lost there (`descriptor_address_iff`). Every tag is accepted, while an endpoint has slots
for the tags from 1 to 32 only: the slots are apart and in their windows exactly if no buffer has
another tag (`response_slots_iff`).
-/

namespace Inferno.Sio

open Common AppleSIOState BitVec List Function Option
open BitVec (ofNat toNat)

variable {s s' : AppleSIOState} {cfg : Config} {cfgs : ℕ → Config} {now : BitVec 64}
  {i : Fin SIO_NUM_EPS}

/-! ## Frames -/

/-- The numbers of the endpoints and the bases of the regions. -/
def bases (s : AppleSIOState) : (Fin SIO_NUM_EPS → BitVec 8) × BitVec 64 × BitVec 64 :=
  (fun i => (s.eps i).id, s.segment_base, s.resp_base)

/-- An endpoint with the number that it had. -/
theorem bases_update {ep : AppleSIODMAEndpoint} (h : ep.id = (s.eps i).id) :
    bases { s with eps := Function.update s.eps i ep } = bases s := by
  refine congrArg (·, s.segment_base, s.resp_base) (funext fun j => ?_)
  dsimp only
  by_cases hj : j = i
  · rw [hj, update_self, h]
  · rw [update_of_ne hj]

/-- A round of a transfer changes none of them. -/
theorem bases_transferBuf {client : Client} (len : BitVec 64) {buf : SIODMABuffer}
    {buffers : List SIODMABuffer} (t : Transfer) :
    bases (transferBuf client now i len buf buffers t).s = bases t.s := by
  unfold transferBuf
  dsimp only
  split_ifs
  · exact bases_update rfl
  · exact bases_update rfl

variable {client : Client} {len : BitVec 64}

/-- Nor do all rounds. -/
theorem bases_transferLoop {fuel : ℕ} {t t' : Transfer}
    (h : transferLoop cfgs client now i len fuel t = some t') : bases t'.s = bases t.s := by
  fun_induction transferLoop cfgs client now i len fuel t with
  | case1 | case6 => exact some.inj h ▸ rfl
  | case2 t _ fuel buf buffers _ buf' _ ih =>
    exact (ih h).trans (bases_transferBuf len t)
  | case3 => exact some.inj h ▸ bases_update rfl
  | case4 | case5 => cases h

theorem bases_dmaTransfer {t : Transfer} (h : dmaTransfer cfgs client now i len s = some t) :
    bases t.s = bases s := by
  unfold dmaTransfer at h
  split_ifs at h
  · exact some.inj h ▸ rfl
  · exact bases_transferLoop h

theorem bases_dma {m : SIOMessage} (h : dma cfg now i m s = some s') : bases s' = bases s := by
  unfold dma at h
  split_ifs at h
  · exact some.inj h ▸ rfl
  · exact some.inj h ▸ bases_update rfl
  · unfold opMap at h
    dsimp only at h
    split_ifs at h
    · exact some.inj h ▸ rfl
    · exact some.inj h ▸ rfl
    · exact some.inj h ▸ bases_update rfl
  · rw [← some.inj h]
    unfold opQuery
    split_ifs <;> rfl
  · exact some.inj h ▸ bases_update rfl
  · exact some.inj h ▸ rfl

/-! ## Descriptors -/

variable (param : BitVec 8)

/-- The value that an operation sets a parameter to, if it does. -/
def Op.sets : Op → Option (BitVec 32)
  | .message _ _ raw =>
    let m := SIOMessage.ofRaw raw
    if (m.ep = 0 ∨ m.ep = 3) ∧ m.op = 3 ∧ m.param = param then some m.data else none
  | _ => none

/-- A step is a message to the control endpoint or a reset, or it changes none of the bases and sets
no parameter. -/
theorem step_cases {op : Op} (h : step s op = some s') :
    (bases s' = bases s ∧ ∀ param, op.sets param = none) ∨ (∃ cfg now raw,
        op = .message cfg now raw ∧
        ((SIOMessage.ofRaw raw).ep = 0 ∨ (SIOMessage.ofRaw raw).ep = 3) ∧
        s' = control (SIOMessage.ofRaw raw) s) ∨
      op = .reset ∧ s' = resetHold s := by
  cases op with
  | message cfg now raw =>
    unfold step handleEndpoint at h
    dsimp only at h
    split_ifs at h with hep
    · exact .inr (.inl ⟨cfg, now, raw, rfl, hep, (some.inj h).symm⟩)
    · exact .inl ⟨bases_dma h, fun _ => if_neg fun hall => hep hall.1⟩
    · exact .inl ⟨some.inj h ▸ rfl, fun _ => if_neg fun hall => hep hall.1⟩
  | transfer cfg client now i len =>
    obtain ⟨t, ht, rfl⟩ := map_eq_some_iff.mp h
    exact .inl ⟨bases_dmaTransfer ht, fun _ => rfl⟩
  | store addr bytes =>
    obtain rfl := some.inj h
    exact .inl ⟨rfl, fun _ => rfl⟩
  | reset => exact .inr (.inr ⟨rfl, (some.inj h).symm⟩)

/-- The base that a parameter sets: `PARAM_SEGMENT_BASE` or `PARAM_RESPONSE_BASE`. -/
def base (s : AppleSIOState) (param : BitVec 8) : BitVec 64 :=
  if param = 1 then s.segment_base else s.resp_base

theorem base_step {param : BitVec 8} (hparam : param = 1 ∨ param = 11) {op : Op}
    (hop : op ≠ .reset) (h : step s op = some s') :
    base s' param = ((op.sets param).map fun v : BitVec 32 => (v <<< 12).setWidth 64).getD
      (base s param) := by
  rcases step_cases h with ⟨hbases, hsets⟩ | ⟨cfg, now, raw, rfl, hep, rfl⟩ | ⟨hreset, -⟩
  · obtain ⟨-, hsegment, hresp⟩ := (Prod.mk.inj hbases).imp_right Prod.mk.inj
    rw [hsets, base, hsegment, hresp]
    rfl
  · dsimp only [Op.sets]
    by_cases hset : (SIOMessage.ofRaw raw).op = 3
    · rw [control, if_neg (by rw [hset]; decide), if_pos hset]
      by_cases hp : (SIOMessage.ofRaw raw).param = param
      · rw [if_pos ⟨hep, hset, hp⟩]
        rcases hparam with rfl | rfl <;> simp +decide [hp, controlSetParam, base, sendUserMsg]
      · rw [if_neg fun hall => hp hall.2.2]
        unfold controlSetParam
        rcases hparam with rfl | rfl <;> split_ifs <;> rfl
    · rw [if_neg fun hall => hset hall.2.1, control]
      split_ifs <;> rfl
  · exact absurd hreset hop

/-- A state in which the value that a parameter was set to last is `v`. -/
def LastSet (param : BitVec 8) (v : BitVec 32) (s' : AppleSIOState) : Prop :=
  ∃ s op later, op.sets param = some v ∧ (∀ op ∈ later, op.sets param = none ∧ op ≠ .reset) ∧
    (op :: later).foldlM step s = some s'

theorem LastSet.base_eq {param : BitVec 8} {v : BitVec 32} (h : LastSet param v s')
    (hparam : param = 1 ∨ param = 11) : base s' param = (v <<< 12).setWidth 64 := by
  obtain ⟨s, op, later, hset, hlater, hrun⟩ := h
  obtain ⟨s₁, hfirst, hrest⟩ := bind_eq_some_iff.mp hrun
  have hop : op ≠ .reset := by
    rintro rfl
    cases hset
  have hbase := base_step hparam hop hfirst
  rw [hset] at hbase
  refine Eq.trans ?_ hbase
  -- None of the later steps sets it.
  clear hfirst hbase hrun
  induction later generalizing s₁ with
  | nil => exact some.inj hrest ▸ rfl
  | cons next later ih =>
    obtain ⟨s₂, hnext, hrest⟩ := bind_eq_some_iff.mp hrest
    obtain ⟨⟨hnone, hne⟩, hlater⟩ := forall_mem_cons.mp hlater
    have hkeep := base_step hparam hne hnext
    rw [hnone] at hkeep
    exact (ih hlater s₂ hrest).trans hkeep

theorem ofRaw_surjective : Function.Surjective SIOMessage.ofRaw := by
  rintro ⟨ep, tag, op, param, data⟩
  let raw := data ++ (param ++ (op ++ (tag ++ ep)))
  have hep : raw.extractLsb' 0 8 = ep := by grind
  have htag : raw.extractLsb' 8 8 = tag := by grind
  have hop : raw.extractLsb' 16 8 = op := by grind
  have hparam : raw.extractLsb' 24 8 = param := by grind
  have hdata : raw.extractLsb' 32 32 = data := by grind
  exact ⟨raw, SIOMessage.mk.injEq .. ▸ ⟨hep, htag, hop, hparam, hdata⟩⟩

theorem exists_lastSet (v : BitVec 32) : ∃ s', LastSet param v s' ∧ s'.mem = fun _ => 0 := by
  obtain ⟨raw, hraw⟩ := ofRaw_surjective ⟨0, 0, 3, param, v⟩
  refine ⟨control (SIOMessage.ofRaw raw) (init 0 fun _ => 0), ⟨init 0 fun _ => 0,
    .message sampleConfig 0 raw, [], ?_, forall_mem_nil _, ?_⟩, ?_⟩
  · rw [Op.sets, hraw]
    exact if_pos ⟨.inl rfl, rfl, rfl⟩
  · refine congrArg (bind · some) (if_pos ?_)
    rw [hraw]
    exact .inl rfl
  · unfold control controlSetParam
    split_ifs <;> rfl

/-- What is shifted by a page in 32 bits. -/
theorem toNat_page (v : BitVec 32) : ((v <<< 12).setWidth 64).toNat = v.toNat * 4096 % 2 ^ 32 := by
  rw [toNat_setWidth, toNat_shiftLeft]
  omega

/-- `OP_CONFIGURE` reads its descriptor at `addr`: the endpoint gets what is there, and the reply
says whether it could be read. -/
structure ConfiguresFrom (cfg : Config) (i : Fin SIO_NUM_EPS) (m : SIOMessage) (s : AppleSIOState)
    (addr : BitVec 64) : Prop where
  config : ((opConfigure cfg i m s).eps i).config = loadConfig addr s
  reply : (opConfigure cfg i m s).sent = s.sent ++
    [replyTo m (if cfg.readOk addr 28 then OP_ACK else OP_SYNC_ERROR) 0]

/-- `OP_MAP` reads the number of the segments at `addr + 0x3C` and the segments from `addr + 0x48`
on: the endpoint gets a buffer of them, or an error is sent if one of the two cannot be read. -/
def MapsFrom (cfg : Config) (now : BitVec 64) (i : Fin SIO_NUM_EPS) (m : SIOMessage)
    (s : AppleSIOState) (addr : BitVec 64) : Prop :=
  ∀ count, count = ldlLe (addr + 0x3C) s → ¬ TooMany count → m.param = 0 →
    ∃ s', opMap cfg now i m s = some s' ∧
      if cfg.readOk (addr + 0x3C) 4 ∧ cfg.readOk (addr + 0x48) (count.toNat * 12) then
        (s'.eps i).buffers = (s.eps i).buffers ++ [newBuffer now m.tag
          ((range count.toNat).map fun k => loadSegment (addr + 0x48 + ofNat 64 (k * 12)) s) count]
      else s' = s.sendUserMsg (replyTo m OP_SYNC_ERROR 0)

theorem configuresFrom_segmentAddr (cfg : Config) (i : Fin SIO_NUM_EPS) (m : SIOMessage)
    (s : AppleSIOState) : ConfiguresFrom cfg i m s (segmentAddr m s) := by
  refine ⟨?_, rfl⟩
  show (Function.update s.eps i _ i).config = _
  rw [update_self]

theorem mapsFrom_segmentAddr (cfg : Config) (now : BitVec 64) (i : Fin SIO_NUM_EPS) (m : SIOMessage)
    (s : AppleSIOState) : MapsFrom cfg now i m s (segmentAddr m s) := by
  rintro count rfl hfew hparam
  unfold opMap
  dsimp only
  rw [if_neg (not_not.mpr hparam)]
  cases hcount : cfg.readOk (segmentAddr m s + 0x3C) 4 with
  | false => exact ⟨_, rfl, by simp⟩
  | true =>
    rw [if_neg (by decide)]
    split_ifs with hsegments hread
    · exact absurd (hread.2.symm.trans hsegments) (by decide)
    · exact ⟨_, rfl, rfl⟩
    · refine ⟨_, rfl, ?_⟩
      show (Function.update s.eps i _ i).buffers = _
      rw [update_self]
    · rename_i hread
      exact absurd ⟨rfl, Bool.not_eq_false _ ▸ hsegments⟩ hread

/-- A memory that can be read only at one address. -/
def onlyAt (addr : BitVec 64) : Config := { sampleConfig with readOk := fun a _ => a = addr }

theorem eq_of_configuresFrom {m : SIOMessage} {addr : BitVec 64}
    (h : ConfiguresFrom (onlyAt addr) i m s addr) : segmentAddr m s = addr := by
  have hreply := h.reply.symm.trans (configuresFrom_segmentAddr (onlyAt addr) i m s).reply
  have hop := congrArg (·.op) (singleton_inj.mp (append_cancel_left hreply))
  by_contra hne
  simp [onlyAt, replyTo, hne, OP_ACK, OP_SYNC_ERROR] at hop

/-- The byte of a record with the timestamps 1 and 0 is 1 only at the address of the record. -/
theorem mem_record (hmem : s.mem = fun _ => 0) (addr a : BitVec 64) :
    ((s.stqLeDma addr 1).stqLeDma (addr + 8) 0).mem a = if a = addr then 1 else 0 := by
  have hzero : ∀ n k : ℕ, ((replicate n (0 : UInt8))[k]?).getD 0 = 0 := by
    intro n k
    rw [getElem?_replicate]
    split_ifs <;> rfl
  show ((replicate 8 (0 : UInt8))[(a - (addr + 8)).toNat]?).getD
    (((1 :: replicate 7 (0 : UInt8))[(a - addr).toNat]?).getD (s.mem a)) = _
  rw [hmem]
  split_ifs with ha
  · have hback : (a - (addr + 8)).toNat = 2 ^ 64 - 8 := by
      rw [ha]
      bv_omega
    have hhere : (a - addr).toNat = 0 := by rw [ha, BitVec.sub_self]; rfl
    rw [hback, hhere]
    rfl
  · obtain ⟨k, hk⟩ := Nat.exists_eq_succ_of_ne_zero (by bv_omega : (a - addr).toNat ≠ 0)
    rw [hk, getElem?_cons_succ, hzero, hzero]

/-- The records in a memory of zeroes tell where they are. -/
theorem eq_of_records {addr addr' : BitVec 64} (hmem : s.mem = fun _ => 0)
    (h : ((s.stqLeDma addr 1).stqLeDma (addr + 8) 0).mem =
      ((s.stqLeDma addr' 1).stqLeDma (addr' + 8) 0).mem) : addr = addr' := by
  have hat := congrFun h addr
  rw [mem_record hmem, mem_record hmem, if_pos rfl] at hat
  by_contra hne
  rw [if_neg hne] at hat
  exact absurd hat (by decide)

/-- After the base of the segment region was set to the page `v`, requests with the index `d` read
their descriptor from where it is exactly if neither is too large for 32 bits. After the base of the
response region was set, the timestamps of buffers are stored from where it is exactly if the page
is not. -/
theorem descriptor_address_iff (v d : BitVec 32) :
    ((∀ cfg now i m s, LastSet 1 v s → m.data = d →
        ConfiguresFrom cfg i m s (ofNat 64 (v.toNat * 4096 + d.toNat * 12)) ∧
        MapsFrom cfg now i m s (ofNat 64 (v.toNat * 4096 + d.toNat * 12))) ↔
      v.toNat < 2 ^ 20 ∧ d.toNat * 12 < 2 ^ 32) ∧
    ((∀ now i buf buffers s, LastSet 11 v s → (writeback now i buf buffers s).mem =
        ((s.stqLeDma (ofNat 64 (v.toNat * 4096) + respOff (s.eps i).id buf.tag)
          buf.start_timestamp).stqLeDma
          (ofNat 64 (v.toNat * 4096) + respOff (s.eps i).id buf.tag + 8) now).mem) ↔
      v.toNat < 2 ^ 20) := by
  have hpage := toNat_page v
  have hwide : ∀ n, n < 2 ^ 64 → (ofNat 64 n).toNat = n :=
    fun n hn => (toNat_ofNat n 64).trans (Nat.mod_eq_of_lt hn)
  have hfits : ∀ {n}, n % 2 ^ 32 = n ↔ n < 2 ^ 32 := Nat.mod_eq_iff_lt (by decide)
  constructor
  · have haddr : ∀ s (m : SIOMessage), LastSet 1 v s → m.data = d →
        (segmentAddr m s).toNat = v.toNat * 4096 % 2 ^ 32 + d.toNat * 12 % 2 ^ 32 := by
      intro s m hset hm
      have hbase : s.segment_base = (v <<< 12).setWidth 64 := hset.base_eq (.inl rfl)
      have hindex : ((d * 0xC).setWidth 64).toNat = d.toNat * 12 % 2 ^ 32 := by
        rw [toNat_setWidth]
        exact Nat.mod_eq_of_lt (by omega)
      rw [segmentAddr, hbase, hm, toNat_add]
      omega
    constructor
    · intro h
      obtain ⟨s, hset, -⟩ := exists_lastSet 1 v
      have hread := h (onlyAt (ofNat 64 (v.toNat * 4096 + d.toNat * 12))) 0 ⟨0, by decide⟩
        ⟨0, 0, 0, 0, d⟩ s hset rfl
      have heq := congrArg toNat (eq_of_configuresFrom hread.1)
      rw [haddr s _ hset rfl, hwide _ (by omega)] at heq
      omega
    · rintro ⟨hv, hd⟩ cfg now i m s hset hm
      have heq : segmentAddr m s = ofNat 64 (v.toNat * 4096 + d.toNat * 12) := by
        apply eq_of_toNat_eq
        rw [haddr s m hset hm, hwide _ (by omega), hfits.mpr (by omega), hfits.mpr hd]
      rw [← heq]
      exact ⟨configuresFrom_segmentAddr cfg i m s, mapsFrom_segmentAddr cfg now i m s⟩
  · have hbase : ∀ {s}, LastSet 11 v s → s.resp_base = (v <<< 12).setWidth 64 :=
      fun hset => hset.base_eq (.inr rfl)
    constructor
    · intro h
      obtain ⟨s, hset, hmem⟩ := exists_lastSet 11 v
      have hrecord := h 0 ⟨0, by decide⟩ (newBuffer 1 1 [] 0) [] s hset
      have heq := congrArg toNat ((add_left_inj _).mp (eq_of_records hmem hrecord))
      rw [hbase hset, hwide _ (by omega)] at heq
      omega
    · intro hlt now i buf buffers s hset
      have heq : s.resp_base = ofNat 64 (v.toNat * 4096) := by
        apply eq_of_toNat_eq
        rw [hbase hset, hwide _ (by omega)]
        omega
      rw [← heq]
      rfl

/-- The page `2^20`, which the region begins with at 4 GiB: the descriptor is read from address 0,
and the responses go there. -/
theorem not_descriptor_address :
    ∃ s, LastSet 1 0x100000 s ∧ segmentAddr ⟨0, 0, 0, 0, 0⟩ s = 0 ∧
      (∀ i, ConfiguresFrom (onlyAt 0) i ⟨0, 0, 0, 0, 0⟩ s 0 ∧
        ¬ ConfiguresFrom (onlyAt 0x100000000) i ⟨0, 0, 0, 0, 0⟩ s 0x100000000) ∧
      ∃ s', LastSet 11 0x100000 s' ∧ s'.resp_base = 0 := by
  obtain ⟨s, hset, -⟩ := exists_lastSet 1 0x100000
  obtain ⟨s', hset', -⟩ := exists_lastSet 11 0x100000
  have hbase : s.segment_base = 0 := hset.base_eq (.inl rfl)
  have haddr : segmentAddr ⟨0, 0, 0, 0, 0⟩ s = 0 := by
    rw [segmentAddr, hbase]
    rfl
  refine ⟨s, hset, haddr, fun i => ⟨?_, fun h => ?_⟩, s', hset', hset'.base_eq (.inr rfl)⟩
  · have hreads := configuresFrom_segmentAddr (onlyAt 0) i ⟨0, 0, 0, 0, 0⟩ s
    rwa [haddr] at hreads
  · exact absurd (haddr.symm.trans (eq_of_configuresFrom h)) (by decide)

/-! ## Responses -/

theorem id_step {op : Op} (h : step s op = some s') (i : Fin SIO_NUM_EPS) :
    (s'.eps i).id = (s.eps i).id := by
  rcases step_cases h with ⟨hbases, -⟩ | ⟨cfg, now, raw, -, -, rfl⟩ | ⟨-, rfl⟩
  · exact congrFun (Prod.mk.inj hbases).1 i
  · rw [eps_control]
  · rfl

variable {protocol_version : BitVec 32} {mem : BitVec 64 → UInt8}

/-- The endpoints have their numbers in every state that the controller can reach. -/
theorem id_of_run {ops : List Op}
    (hrun : ops.foldlM step (init protocol_version mem) = some s) {i : Fin SIO_NUM_EPS} :
    (s.eps i).id.toNat = i.val := by
  have hid : (s.eps i).id = ofNat 8 i.val :=
    invariant_foldlM (P := fun s => (s.eps i).id = ofNat 8 i.val)
      (fun _ _ _ h hstep => (id_step hstep i).trans h) rfl hrun
  have hi : i.val < 0xDC := i.isLt
  rw [hid, toNat_ofNat]
  omega

/-- The 32 slots of an endpoint. -/
def window (s : AppleSIOState) (i : Fin SIO_NUM_EPS) : List (BitVec 64) :=
  cells (s.resp_base + ofNat 64 (i.val * 0x200)) 0x200

/-- The responses to the buffers of a state are in the windows of their endpoints, and apart. -/
structure SlotsApart (s : AppleSIOState) : Prop where
  inside : ∀ i, ∀ buf ∈ (s.eps i).buffers, ∀ a ∈ respCells s i buf, a ∈ window s i
  apart : ∀ i j, ∀ buf ∈ (s.eps i).buffers, ∀ buf' ∈ (s.eps j).buffers,
    (i, buf.tag) ≠ (j, buf'.tag) → (respCells s i buf).Disjoint (respCells s j buf')

variable {buf : SIODMABuffer}

theorem exists_of_mem_respCells {a : BitVec 64} (hid : (s.eps i).id.toNat = i.val)
    (htag : 1 ≤ buf.tag.toNat) (ha : a ∈ respCells s i buf) : ∃ k < 16, a = s.resp_base +
      ofNat 64 (i.val * 0x200 + ((buf.tag.toNat - 1) * 16 + k)) := by
  obtain ⟨k, hk, rfl⟩ := mem_map.mp ha
  refine ⟨k, mem_range.mp hk, ?_⟩
  have hoff : respOff (s.eps i).id buf.tag =
      ofNat 64 (i.val * 0x200 + (buf.tag.toNat - 1) * 16) := by
    rw [respOff, ← ofInt_natCast]
    congr 1
    omega
  rw [hoff, add_assoc, ← ofNat_add, Nat.add_assoc]

theorem tag_of_inside (hid : (s.eps i).id.toNat = i.val)
    (h : ∀ a ∈ respCells s i buf, a ∈ window s i) : 1 ≤ buf.tag.toNat ∧ buf.tag.toNat ≤ 0x20 := by
  obtain ⟨k, hk, heq⟩ := List.mem_map.mp
    (h _ (mem_map.mpr ⟨0, mem_range.mpr (by decide), rfl⟩))
  have hk : k < 0x200 := mem_range.mp hk
  rw [add_assoc, add_assoc, add_right_inj, ← ofNat_add, respOff, BitVec.add_zero] at heq
  have hint := congrArg toNat heq
  rw [toNat_ofNat, toNat_ofInt] at hint
  omega

/-- In every state that the controller can reach the responses are in their windows and apart
exactly if the tags of all buffers are between 1 and 32. -/
theorem response_slots_iff {ops : List Op}
    (hrun : ops.foldlM step (init protocol_version mem) = some s) :
    SlotsApart s ↔ ∀ i, ∀ buf ∈ (s.eps i).buffers, 1 ≤ buf.tag.toNat ∧ buf.tag.toNat ≤ 0x20 := by
  constructor
  · intro h i buf hbuf
    exact tag_of_inside (id_of_run hrun) (h.inside i buf hbuf)
  · intro htags
    refine ⟨?_, ?_⟩
    · intro i buf hbuf a ha
      obtain ⟨hpos, hle⟩ := htags i buf hbuf
      obtain ⟨k, hk, rfl⟩ := exists_of_mem_respCells (id_of_run hrun) hpos ha
      refine List.mem_map.mpr ⟨(buf.tag.toNat - 1) * 16 + k, mem_range.mpr (by omega), ?_⟩
      rw [ofNat_add (i.val * 0x200), add_assoc]
    · intro i j buf hbuf buf' hbuf' hne a ha ha'
      obtain ⟨hpos, hle⟩ := htags i buf hbuf
      obtain ⟨hpos', hle'⟩ := htags j buf' hbuf'
      obtain ⟨k, hk, rfl⟩ := exists_of_mem_respCells (id_of_run hrun) hpos ha
      obtain ⟨k', hk', heq⟩ := exists_of_mem_respCells (id_of_run hrun) hpos' ha'
      have hi : i.val < 0xDC := i.isLt
      have hj : j.val < 0xDC := j.isLt
      have hoff := congrArg toNat ((add_right_inj _).mp heq)
      rw [toNat_ofNat, toNat_ofNat] at hoff
      have hij : i.val = j.val := by omega
      have htag : buf.tag.toNat = buf'.tag.toNat := by omega
      exact hne (Prod.ext (Fin.ext hij) (eq_of_toNat_eq htag))

theorem exists_of_any {o : Option AppleSIOState} {P : AppleSIOState → Prop} [DecidablePred P]
    (h : o.any (fun s => decide (P s)) = true) : ∃ s, o = some s ∧ P s := by
  obtain ⟨s, hs, hp⟩ := (any_eq_true _ _).mp h
  exact ⟨s, hs, of_decide_eq_true hp⟩

/-- Buffers that are mapped to two endpoints with the tags 1 and 32. -/
theorem response_slots_sample :
    ∃ s, [.message sampleConfig 0 0x060104, .message sampleConfig 0 0x062005].foldlM step
        (init 9 fun _ => 0) = some s ∧
      SlotsApart s ∧ (s.eps ⟨4, by decide⟩).buffers.length = 1 := by
  have hall : ∃ s, [.message sampleConfig 0 0x060104, .message sampleConfig 0 0x062005].foldlM step
      (init 9 fun _ => 0) = some s ∧ (s.eps ⟨4, by decide⟩).buffers.length = 1 ∧
        ∀ i, ∀ buf ∈ (s.eps i).buffers, 1 ≤ buf.tag.toNat ∧ buf.tag.toNat ≤ 0x20 :=
    exists_of_any (by decide +kernel)
  obtain ⟨s, hrun, hlen, htags⟩ := hall
  exact ⟨s, hrun, (response_slots_iff hrun).mpr htags, hlen⟩

/-- The tag 33 of an endpoint and the tag 1 of the next have the same slot. -/
theorem not_response_slots :
    ∃ s, [.message sampleConfig 0 0x062104, .message sampleConfig 0 0x060105].foldlM step
        (init 9 fun _ => 0) = some s ∧
      ∃ buf ∈ (s.eps ⟨4, by decide⟩).buffers, ∃ buf' ∈ (s.eps ⟨5, by decide⟩).buffers,
        respCells s ⟨4, by decide⟩ buf = respCells s ⟨5, by decide⟩ buf' :=
  exists_of_any (by decide +kernel)

end Inferno.Sio
