import Inferno.Sio.Model
import Inferno.Vmstate.Transfer

/-!
# The buffers of an endpoint over a migration

In `vmstate_sio_dma_map_buf` the segments stand before their number. When a buffer is loaded, the
interpreter takes the number from the element that `get_qtailq` has just allocated and not
initialised, reads that many segments, and only then reads the number that was saved.
`endpoint_roundTrip_iff` says that an endpoint survives exactly when it has no buffer: for every
other there is a content of the new memory with which the segments are lost
(`segments_of_loadState`).
-/

namespace Inferno.Sio

open Common Vmstate List Option

/-! ## The descriptions -/

/-- The value of a `DMADirection`. -/
def DMADirection.code : DMADirection → BitVec 32
  | .toDevice => 0
  | .fromDevice => 1

/-- The `DMADirection` with a value. -/
def DMADirection.ofCode (v : BitVec 32) : DMADirection := if v = 0 then .toDevice else .fromDevice

def vmstateSioDmaConfig : VMStateDescription SIODMAConfig where
  name := "SIODMAConfig"
  version_id := 0
  minimum_version_id := 0
  fields :=
    [vmstateSingle "xfer" 0 vmstateInfoUint32 (·.xfer) fun v c => { c with xfer := v },
      vmstateSingle "timeout" 0 vmstateInfoUint32 (·.timeout) fun v c => { c with timeout := v },
      vmstateSingle "fifo" 0 vmstateInfoUint32 (·.fifo) fun v c => { c with fifo := v },
      vmstateSingle "trigger" 0 vmstateInfoUint32 (·.trigger) fun v c => { c with trigger := v },
      vmstateSingle "limit" 0 vmstateInfoUint32 (·.limit) fun v c => { c with limit := v },
      vmstateSingle "field_14" 0 vmstateInfoUint32 (·.field_14) fun v c => { c with field_14 := v },
      vmstateSingle "field_18" 0 vmstateInfoUint32 (·.field_18) fun v c => { c with field_18 := v }]

def vmstateSioDmaSegment : VMStateDescription SIODMASegment where
  name := "SIODMASegment"
  version_id := 0
  minimum_version_id := 0
  fields :=
    [vmstateSingle "addr" 0 vmstateInfoUint64 (·.addr) fun v g => { g with addr := v },
      vmstateSingle "len" 0 vmstateInfoUint32 (·.len) fun v g => { g with len := v }]

/-- `vmstate_sio_dma_map_buf`. Every part of a new segment is loaded, so that its memory may be
taken to be zero. -/
def vmstateSioDmaMapBuf : VMStateDescription SIODMABuffer where
  name := "SIODMABuffer"
  version_id := 0
  minimum_version_id := 0
  fields :=
    [vmstateVarrayUint32Alloc "segments" 0 vmstateSioDmaSegment.info (·.segment_count)
        (fun _ => ⟨0, 0⟩) (·.segments) fun v b => { b with segments := v },
      vmstateSingle "segment_count" 0 vmstateInfoUint32 (·.segment_count) fun v b =>
        { b with segment_count := v },
      vmstateSingle "completed" 0 vmstateInfoUint64 (·.completed) fun v b =>
        { b with completed := v },
      vmstateSingle "start_timestamp" 0 vmstateInfoUint64 (·.start_timestamp) fun v b =>
        { b with start_timestamp := v },
      vmstateSingle "tag" 0 vmstateInfoUint8 (·.tag) fun v b => { b with tag := v },
      vmstateSingle "mapped" 0 vmstateInfoBool (·.mapped) fun v b => { b with mapped := v }]

variable (cfg : Config)

/-- What `vmstate_apple_sio_dma_endpoint_post_load` does to a buffer. It is `none` where the scatter
list cannot be allocated, and where segments are read that are not there. -/
def postLoadBuffer (dir : DMADirection) (buf : SIODMABuffer) : Option SIODMABuffer :=
  if TooMany buf.segment_count ∨ buf.segments.length < buf.segment_count.toNat then none
  else
    let buf := { buf with sgl := sglOf (buf.segments.take buf.segment_count.toNat) }
    if buf.mapped then
      (mapBuf cfg dir { buf with mapped := false }).map fun (_, b) =>
        { b with completed := buf.completed }
    else some buf

/-- `vmstate_apple_sio_dma_endpoint_post_load`. -/
def endpointPostLoad (ep : AppleSIODMAEndpoint) : Option AppleSIODMAEndpoint := do
  let buffers ← ep.buffers.mapM (postLoadBuffer cfg ep.direction)
  pure { ep with buffers := buffers }

/-- `vmstate_apple_sio_dma_endpoint`; `malloc` is what a new buffer holds before it is loaded. -/
def vmstateAppleSioDmaEndpoint (malloc : ℕ → SIODMABuffer) :
    VMStateDescription AppleSIODMAEndpoint where
  name := "AppleSIODMAEndpoint"
  version_id := 0
  minimum_version_id := 0
  pre_load := delBuffers
  post_load := endpointPostLoad cfg
  fields :=
    [vmstateSingle "config" 0 vmstateSioDmaConfig.info (·.config) fun v ep =>
        { ep with config := v },
      vmstateSingle "id" 0 vmstateInfoUint8 (·.id) fun v ep => { ep with id := v },
      vmstateSingle "direction" 0 vmstateInfoUint32 (·.direction.code) fun v ep =>
        { ep with direction := .ofCode v },
      vmstateQtailqV "buffers" 0 vmstateSioDmaMapBuf malloc (·.buffers) fun v ep =>
        { ep with buffers := v }]

/-! ## What is lost -/

variable {cfg : Config} {ep ep' : AppleSIODMAEndpoint}

/-- After a buffer is loaded it has as many segments as the new memory said there were, when that is
a number that can be allocated and the memory holds none itself. -/
theorem segments_of_loadState {k : ℕ} (hk : k < 2 ^ 31) {buf buf' : SIODMABuffer}
    (hcount : buf.segment_count = BitVec.ofNat 32 k) (hnone : buf.segments = [])
    {f rest : List UInt8} (h : loadState vmstateSioDmaMapBuf 0 buf f = some (buf', rest)) :
    buf'.segments.length = k := by
  obtain ⟨-, -, -, buf₁, hfields, hpost⟩ := loadState_eq_some_iff.mp h
  obtain rfl := some.inj hpost
  have hn : nElems buf.segment_count = k := by
    have htoNat : buf.segment_count.toNat = k := by
      rw [hcount, BitVec.toNat_ofNat, Nat.mod_eq_of_lt (by omega)]
    rw [nElems, BitVec.toInt_eq_toNat_of_lt (by omega), htoNat]
  -- The first field takes the number from the new memory, and no later one touches the segments.
  obtain ⟨buf₂, f₂, hfirst, hothers⟩ := exists_of_loadFields_cons le_rfl hfields
  have hlen : buf₂.segments.length = k := by
    obtain ⟨hzero, hsame⟩ | ⟨es, hes, rfl⟩ := varray_of_load hfirst
    · change nElems buf.segment_count = 0 at hzero
      rw [hsame]
      show buf.segments.length = k
      rw [hnone, length_nil]
      omega
    · show es.length = k
      change (es.length : ℤ) = nElems buf.segment_count at hes
      omega
  refine loadFields_preserves (I := fun b => b.segments.length = k) ?_ hothers hlen
  intro field hfield _
  simp only [mem_cons, not_mem_nil, or_false] at hfield
  rcases hfield with rfl | rfl | rfl | rfl | rfl
  all_goals exact preserves_single fun _ _ h => h

variable {dir : DMADirection}

/-- `post_load` leaves the segments of a buffer alone. -/
theorem segments_of_postLoadBuffer {buf buf' : SIODMABuffer}
    (h : postLoadBuffer cfg dir buf = some buf') : buf'.segments = buf.segments := by
  unfold postLoadBuffer at h
  dsimp only at h
  split_ifs at h
  · obtain ⟨⟨ok, b⟩, hmap, rfl⟩ := map_eq_some_iff.mp h
    unfold mapBuf at hmap
    rw [if_neg Bool.false_ne_true] at hmap
    split_ifs at hmap
    split at hmap
    all_goals
      obtain ⟨-, rfl⟩ := Prod.mk.inj (some.inj hmap)
      rfl
  · obtain rfl := some.inj h
    rfl

/-- The loop of `post_load` leaves the segments of the buffers alone. -/
theorem segments_of_mapM {bufs bufs' : List SIODMABuffer}
    (h : bufs.mapM (postLoadBuffer cfg dir) = some bufs') :
    bufs'.map (·.segments) = bufs.map (·.segments) := by
  induction bufs generalizing bufs' with
  | nil =>
    obtain rfl := some.inj h
    rfl
  | cons buf bufs ih =>
    rw [mapM_cons] at h
    obtain ⟨buf', hbuf, h⟩ := bind_eq_some_iff.mp h
    obtain ⟨more, hmore, h⟩ := bind_eq_some_iff.mp h
    obtain rfl := some.inj h
    rw [map_cons, map_cons, segments_of_postLoadBuffer hbuf, ih hmore]

/-- `post_load` leaves the segments of the buffers alone. -/
theorem segments_of_endpointPostLoad (h : endpointPostLoad cfg ep = some ep') :
    ep'.buffers.map (·.segments) = ep.buffers.map (·.segments) := by
  obtain ⟨buffers, hmap, heq⟩ := bind_eq_some_iff.mp h
  obtain rfl := some.inj heq
  exact segments_of_mapM hmap

/-! ## The round trip -/

/-- What is to survive of a buffer. -/
structure Survives (buf buf' : SIODMABuffer) : Prop where
  tag : buf'.tag = buf.tag
  segment_count : buf'.segment_count = buf.segment_count
  segments : buf'.segments = buf.segments
  completed : buf'.completed = buf.completed
  start_timestamp : buf'.start_timestamp = buf.start_timestamp

/-- The endpoint is saved, and a fresh one that loads it takes exactly the bytes that were saved and
has the same buffers in the same order, whatever `g_malloc` returns. -/
def RoundTrip (cfg : Config) (ep : AppleSIODMAEndpoint) : Prop :=
  ∀ (i : Fin SIO_NUM_EPS) (malloc : ℕ → SIODMABuffer), ∃ bytes ep',
    saveState (vmstateAppleSioDmaEndpoint cfg malloc) ep = some bytes ∧
      loadState (vmstateAppleSioDmaEndpoint cfg malloc) 0 (freshEndpoint i) bytes = some (ep', []) ∧
      List.Forall₂ Survives ep.buffers ep'.buffers

/-- New memory that says that there are `k` segments. -/
def junk (k : ℕ) : SIODMABuffer where
  segments := []
  sgl := []
  iov := []
  tag := 0
  mapped := false
  segment_count := BitVec.ofNat 32 k
  completed := 0
  start_timestamp := 0

/-- Whatever the stream holds, the buffers have as many segments as the new memory said. -/
theorem segments_of_loadState_endpoint {k : ℕ} (hk : k < 2 ^ 31) {f rest : List UInt8}
    (h : loadState (vmstateAppleSioDmaEndpoint cfg fun _ => junk k) 0 ep f = some (ep', rest)) :
    ∀ segments ∈ ep'.buffers.map (·.segments), segments.length = k := by
  obtain ⟨-, -, -, ep₁, hfields, hpost⟩ := loadState_eq_some_iff.mp h
  have hep₁ : ∀ buf ∈ ep₁.buffers, buf.segments.length = k := by
    refine loadFields_preserves (I := fun ep => ∀ buf ∈ ep.buffers, buf.segments.length = k) ?_
      hfields nofun
    intro field hfield _
    simp only [vmstateAppleSioDmaEndpoint, mem_cons, not_mem_nil, or_false] at hfield
    rcases hfield with rfl | rfl | rfl | rfl
    case inr.inr.inr =>
      refine preserves_qtailq (P := fun buf => buf.segments.length = k)
        (fun _ _ _ _ hload => segments_of_loadState hk rfl rfl hload) fun es ep hes hep => ?_
      intro buf hbuf
      rcases mem_append.mp hbuf with hbuf | hbuf
      · exact hep buf hbuf
      · exact hes buf hbuf
    all_goals exact preserves_single fun _ _ h => h
  rw [segments_of_endpointPostLoad hpost]
  intro segments hsegments
  obtain ⟨buf, hbuf, rfl⟩ := mem_map.mp hsegments
  exact hep₁ buf hbuf

theorem buffers_eq_nil_of_roundTrip (h : RoundTrip cfg ep) : ep.buffers = [] := by
  cases hbuffers : ep.buffers with
  | nil => rfl
  | cons buf buffers =>
    -- The new memory says one segment when the first buffer has none, and none when it has some.
    have hlost : ∀ k < 2 ^ 31, buf.segments.length = k := by
      intro k hk
      obtain ⟨bytes, ep', -, hload, hsame⟩ := h ⟨0, by decide⟩ fun _ => junk k
      have hlen := segments_of_loadState_endpoint hk hload
      rw [hbuffers] at hsame
      obtain ⟨buf', buffers', hbuf', -, hep'⟩ := forall₂_cons_left_iff.mp hsame
      rw [← hbuf'.segments]
      refine hlen _ (mem_map.mpr ⟨buf', ?_, rfl⟩)
      rw [hep']
      exact mem_cons_self
    have hzero := hlost 0 (by decide)
    have hone := hlost 1 (by decide)
    omega

/-- The configuration is written and read back, where nothing that looks like a subsection
follows. -/
theorem vmstateSioDmaConfig_roundTrip (config : SIODMAConfig) (rest : List UInt8)
    (hrest : ¬ NamesSubsection vmstateSioDmaConfig.name rest) :
    ∃ bytes, saveState vmstateSioDmaConfig config = some bytes ∧
      ∀ old, loadState vmstateSioDmaConfig 0 old (bytes ++ rest) = some (config, rest) := by
  have hword := infoUint_faithful 4
  have hcopy : ∃ bytes c, FieldsCopy 0 vmstateSioDmaConfig.fields config bytes rest c ∧
      ∀ old, c old = config :=
    ⟨_, _, .cons le_rfl hword.copies_single <| .cons le_rfl hword.copies_single <|
      .cons le_rfl hword.copies_single <| .cons le_rfl hword.copies_single <|
      .cons le_rfl hword.copies_single <| .cons le_rfl hword.copies_single <|
      .cons le_rfl hword.copies_single .nil, fun _ => rfl⟩
  obtain ⟨bytes, c, hcopy, hc⟩ := hcopy
  refine ⟨bytes, hcopy.saveState rfl, fun old => ?_⟩
  exact hcopy.loadState le_rfl hrest (congrArg some (hc old))

/-- Nothing that looks like a subsection begins with the number and the direction of an endpoint. -/
theorem not_namesSubsection_endpoint (name : String) (id : BitVec 8) (dir : DMADirection)
    (rest : List UInt8) :
    ¬ NamesSubsection name (putBe 1 id.toNat ++ (putBe 4 dir.code.toNat ++ rest)) := by
  cases dir
  all_goals
    rintro ⟨-, hlen, -⟩
    exact absurd hlen (Nat.not_lt_zero _)

theorem roundTrip_of_buffers_eq_nil (cfg : Config) (hbuffers : ep.buffers = []) :
    RoundTrip cfg ep := by
  intro i malloc
  have hword := infoUint_faithful 4
  have hbyte := infoUint_faithful 1
  obtain ⟨bytes, hput, hget⟩ := vmstateSioDmaConfig_roundTrip ep.config
    (putBe 1 ep.id.toNat ++ (putBe 4 ep.direction.code.toNat ++ ([0] ++ [])) ++ [])
    (by
      exact not_namesSubsection_endpoint _ _ _ _)
  have hcopy : ∃ bytes c,
      FieldsCopy 0 (vmstateAppleSioDmaEndpoint cfg malloc).fields ep bytes [] c ∧
        ∀ t, (c t).buffers = t.buffers :=
    ⟨_, _, .cons le_rfl (copies_single hput hget) <| .cons le_rfl hbyte.copies_single <|
      .cons le_rfl hword.copies_single <|
      .cons le_rfl (copies_qtailq_nil hbuffers le_rfl le_rfl) .nil, fun _ => rfl⟩
  obtain ⟨bytes, c, hcopy, hc⟩ := hcopy
  have hnone : (c (delBuffers (freshEndpoint i))).buffers = [] := hc _
  have hpost : endpointPostLoad cfg (c (delBuffers (freshEndpoint i))) =
      some { c (delBuffers (freshEndpoint i)) with buffers := [] } := by
    unfold endpointPostLoad
    rw [hnone]
    rfl
  have hload : loadState (vmstateAppleSioDmaEndpoint cfg malloc) 0 (freshEndpoint i)
      (bytes ++ []) = _ := hcopy.loadState le_rfl nofun hpost
  rw [append_nil] at hload
  refine ⟨bytes, _, hcopy.saveState rfl, hload, ?_⟩
  rw [hbuffers]
  exact .nil

/-- An endpoint survives a migration exactly when it has no buffer. -/
theorem endpoint_roundTrip_iff (cfg : Config) (ep : AppleSIODMAEndpoint) :
    RoundTrip cfg ep ↔ ep.buffers = [] :=
  ⟨buffers_eq_nil_of_roundTrip, roundTrip_of_buffers_eq_nil cfg⟩

/-- An endpoint with one buffer of one segment does not survive. -/
theorem not_endpoint_roundTrip : ¬ RoundTrip sampleConfig
      ⟨.zero, .toDevice, 4, [newBuffer 0 1 [⟨0x1000, 0x10⟩] 1]⟩ := by
  intro h
  exact absurd (buffers_eq_nil_of_roundTrip h) (cons_ne_nil _ _)

end Inferno.Sio
