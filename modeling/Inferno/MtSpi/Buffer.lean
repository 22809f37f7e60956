import Inferno.Common.Outcome
import Inferno.MtSpi.Model

/-!
# What the buffers hold

For safety only numbers matter: how many bytes a buffer holds and how many of them were taken
(`Holds`). Every operation that puts bytes into a buffer succeeds exactly when there are less than
`2^32` of them afterwards. Packets of the firmware are built in new buffers and are short, so that
their construction always succeeds: none has more than 58 bytes (`pushReport_holds`), and an answer
on the wire always has `0x200` (`fwAnswer_eq`, `length_packetAnswer`).
-/

namespace Inferno.MtSpi

open Common AppleMTSPIBuffer Nat

/-! ## Bytes in a buffer -/

/-- The buffer has memory for the `n` bytes that it holds, and `r` of them were taken. -/
structure Holds (n r : ℕ) (buf : AppleMTSPIBuffer) : Prop where
  len : buf.len = n
  read_pos : buf.read_pos = r
  fits : n ≤ buf.capacity
  small : buf.capacity < 2 ^ 32

theorem holds_free : Holds 0 0 free := ⟨rfl, rfl, le_refl 0, by decide⟩

theorem Datum.length_bytes (val : Datum) : val.bytes.length = val.size := by
  cases val with
  | byte val => rfl
  | word val => exact leBytes_length 2 val.toNat
  | dword val => exact leBytes_length 4 val.toNat

theorem Datum.size_le (val : Datum) : val.size ≤ 4 := by
  cases val <;> simp [size]

/-- The number of bytes of several things. -/
def sizes (vals : List Datum) : ℕ := (vals.map Datum.size).sum

section Growth

variable {buf : AppleMTSPIBuffer} {n r : ℕ}

section

variable (h : Holds n r buf) {vals : List Datum} {k : ℕ}

include h

section

variable (hk : k < 2 ^ 32) {bytes : List UInt8}

include hk

/-- Memory for more bytes can be had as long as there are less than `2^32`. -/
theorem ensureCapacity_exactly : Exactly (buf.ensureCapacity k) (n + k < 2 ^ 32)
      fun buf' => buf' = { buf with capacity := max buf.capacity (n + k) } := by
  obtain ⟨hlen, -, hfits, hsmall⟩ := h
  unfold ensureCapacity
  rw [hlen]
  dsimp only
  split_ifs with hmore hlost
  · exact exactly_none (by omega)
  · -- The sum has not lost its top bit.
    have hlt : n + k < 2 ^ 32 := by omega
    refine exactly_some hlt ?_
    rw [mod_eq_of_lt hlt, max_eq_right hmore.le]
  · refine exactly_some (by omega) ?_
    rw [max_eq_left (by omega)]

theorem ensureCapacity_holds : Exactly (buf.ensureCapacity k) (n + k < 2 ^ 32) (Holds n r) := by
  refine (ensureCapacity_exactly h hk).imp Iff.rfl ?_
  rintro hroom _ rfl
  exact ⟨h.len, h.read_pos, h.fits.trans (le_max_left _ _), max_lt h.small hroom⟩

/-- Memory is ensured and `k` bytes are stored in it. -/
theorem extend_exactly :
    Exactly (buf.ensureCapacity k >>= fun buf' => pure { buf' with data := buf.data ++ bytes })
      (n + k < 2 ^ 32)
      fun buf' => buf' = ⟨buf.data ++ bytes, max buf.capacity (n + k), buf.read_pos⟩ := by
  refine (ensureCapacity_exactly h hk).bind_true ?_
  rintro _ rfl
  exact exactly_some trivial rfl

theorem extend_holds (hbytes : bytes.length = k) :
    Exactly (buf.ensureCapacity k >>= fun buf' => pure { buf' with data := buf.data ++ bytes })
      (n + k < 2 ^ 32) (Holds (n + k) r) := by
  refine (extend_exactly h hk).imp Iff.rfl ?_
  rintro hroom _ rfl
  refine ⟨?_, h.read_pos, le_max_right _ _, max_lt h.small hroom⟩
  show (buf.data ++ bytes).length = _
  rw [List.length_append, hbytes, ← h.len]
  rfl

end

theorem push_holds (val : Datum) :
    Exactly (buf.push val) (n + val.size < 2 ^ 32) (Holds (n + val.size) r) :=
  extend_holds h (by have := val.size_le; omega) val.length_bytes

theorem pushes_holds {vals : List Datum} :
    Exactly (buf.pushes vals) (n + sizes vals < 2 ^ 32) (Holds (n + sizes vals) r) := by
  induction vals generalizing buf n with
  | nil => exact exactly_some (lt_of_le_of_lt h.fits h.small) h
  | cons val vals ih =>
    have hsizes : n + sizes (val :: vals) = n + val.size + sizes vals := by
      rw [sizes, List.map_cons, List.sum_cons, ← add_assoc]
      rfl
    rw [hsizes]
    refine ((push_holds h val).bind fun _ hbuf => ih hbuf).imp ?_ fun _ _ hbuf => hbuf
    omega

theorem reserve_pushes_holds (hvals : sizes vals = k) (hk : k < 2 ^ 32) :
    Exactly (buf.ensureCapacity k >>= fun buf => buf.pushes vals) (n + k < 2 ^ 32)
      (Holds (n + k) r) := by
  subst hvals
  refine ((ensureCapacity_holds h hk).bind fun _ hbuf => pushes_holds hbuf).imp ?_
    fun _ _ hbuf => hbuf
  exact and_self_iff

theorem pushCrc16_holds (hn : n ≠ 0) :
    Exactly buf.pushCrc16 (n + 2 < 2 ^ 32) (Holds (n + 2) r) := by
  have hempty : ¬ buf.isEmpty = true := by
    rw [isEmpty, h.len, beq_iff_eq]
    exact hn
  unfold pushCrc16
  rw [if_neg hempty]
  exact push_holds h _

theorem append_holds {other : AppleMTSPIBuffer} {m r' : ℕ} (hother : Holds m r' other) :
    Exactly (buf.append other) (n + m < 2 ^ 32) (Holds (n + m) r) := by
  have hm := lt_of_le_of_lt hother.fits hother.small
  unfold append isEmpty
  rw [hother.len]
  split_ifs with hempty
  · obtain rfl := beq_iff_eq.mp hempty
    exact exactly_some (lt_of_le_of_lt h.fits h.small) h
  · exact extend_holds h hm hother.len

/-- A byte is taken if there is one, and the buffer is freed when it was the last. -/
theorem pop_holds (hr : r < n ∨ n = 0 ∧ r = 0) : Exactly buf.pop True fun p =>
      Holds (if r + 1 < n then n else 0) (if r + 1 < n then r + 1 else 0) p.2 := by
  unfold pop isEmpty readPosAtEnd
  rw [h.len, h.read_pos]
  rcases hr with hr | ⟨rfl, rfl⟩
  · have hzero : (n == 0) = false := beq_false_of_ne (by omega)
    have hcapacity : buf.capacity ≠ 0 := by
      have hfits := h.fits
      omega
    have hbound : r < buf.data.length := hr.trans_eq h.len.symm
    rw [hzero, if_neg hcapacity, List.getElem?_eq_getElem hbound,
      Bool.or_false]
    refine exactly_some trivial ?_
    rcases lt_or_ge (r + 1) n with hmore | hlast
    · have hend : ¬ (r + 1 == n) = true := by
        rw [beq_iff_eq]
        omega
      rw [if_pos hmore, if_pos hmore, if_neg hend]
      exact ⟨h.len, rfl, h.fits, h.small⟩
    · have hend : (r + 1 == n) = true := beq_iff_eq.mpr (by omega)
      rw [if_neg (by omega), if_neg (by omega), if_pos hend]
      exact holds_free
  · exact exactly_some trivial h

end

end Growth

/-! ## Packets -/

section Packets

variable {buf : AppleMTSPIBuffer} {n : ℕ}

section

variable (h : Holds n 0 buf) {type report_id packet_status frame_number : UInt8}

include h

theorem pushHidHdr_holds {length_requested payload_length : BitVec 16} :
    Exactly (pushHidHdr type report_id packet_status frame_number length_requested payload_length
      buf) (n + 8 < 2 ^ 32) (Holds (n + 8) 0) :=
  reserve_pushes_holds h rfl (by decide)

theorem pushReport_holds {payload_length : BitVec 16} {vals : List Datum} :
    Exactly (pushReport type report_id packet_status frame_number payload_length vals buf)
      (n + 9 + sizes vals < 2 ^ 32) (Holds (n + 9 + sizes vals) 0) := by
  have hhdr : Exactly (pushReportHdr type report_id packet_status frame_number payload_length buf)
      (n + 9 < 2 ^ 32) (Holds (n + 9) 0) := by
    refine ((ensureCapacity_holds h (by decide)).bind fun _ hbuf =>
      (pushHidHdr_holds hbuf).bind
        fun _ hbuf => push_holds hbuf (.byte report_id)).imp ?_ fun _ _ hbuf => hbuf
    show n + 9 < 2 ^ 32 ∧ n + 8 < 2 ^ 32 ∧ n + 8 + 1 < 2 ^ 32 ↔ _
    omega
  refine (hhdr.bind fun _ hbuf => pushes_holds hbuf).imp ?_ fun _ _ hbuf => hbuf
  omega

end

/-- A packet that is pending has few bytes. -/
def AppleMTSPILLPacket.Short (packet : AppleMTSPILLPacket) : Prop :=
  ∃ m, m ≤ 58 ∧ Holds m 0 packet.buf

theorem reportPacket_short {capacity : ℕ} (hcapacity : capacity ≤ 58)
    {type report_id packet_status frame_number : UInt8} (payload_length : BitVec 16)
    {vals : List Datum} (hvals : sizes vals ≤ 47) (ll : UInt8) : Exactly
      (reportPacket capacity type report_id packet_status frame_number payload_length vals) True
      fun buf => AppleMTSPILLPacket.Short ⟨buf, ll⟩ := by
  refine ((ensureCapacity_holds holds_free (by omega)).bind fun _ hbuf =>
    (pushReport_holds hbuf).bind
      fun _ hbuf => pushCrc16_holds hbuf (by omega)).imp (iff_true_intro ?_) ?_
  · omega
  · intro _ buf hbuf
    exact ⟨_, by omega, hbuf⟩

theorem featureReport_short (report_id : UInt8) :
    (featureReport report_id).1 ≤ 58 ∧ sizes (featureReport report_id).2.2 ≤ 47 := by
  unfold featureReport
  split_ifs
  all_goals exact ⟨by decide, by decide⟩

end Packets

/-! ## Packets on the wire -/

/-- The checksum of the bytes behind them. -/
def withCrc16 (bytes : List UInt8) : List UInt8 := bytes ++ leBytes 2 (crc16 0 bytes).toNat

/-- A packet of the link layer: its header and the payload, padded, and the checksum. -/
def llPacket (type : UInt8) (payload : List UInt8) : List UInt8 :=
  withCrc16 ([type, 0, 0, 0, 0, 0] ++ leBytes 2 (BitVec.ofNat 16 payload.length).toNat ++ payload ++
    List.replicate (0x1F6 - payload.length) 0)

/-- What answers a packet: the first that is pending, or that there is none. -/
def packetAnswer : List AppleMTSPILLPacket → List UInt8
  | [] => llPacket LL_PACKET_NO_DATA []
  | packet :: _ => llPacket packet.type packet.buf.data

/-- The packet leaves room for its header. -/
def AppleMTSPILLPacket.Sendable (packet : AppleMTSPILLPacket) : Prop := packet.buf.len ≤ 0x1F6

theorem AppleMTSPILLPacket.Short.sendable {packet : AppleMTSPILLPacket} (h : packet.Short) :
    packet.Sendable := by
  obtain ⟨m, hm, hholds⟩ := h
  exact hholds.len.trans_le (hm.trans (by decide))

theorem length_llPacket {payload : List UInt8} (h : payload.length ≤ 0x1F6) (type : UInt8) :
    (llPacket type payload).length = 0x200 := by
  simp only [llPacket, withCrc16, List.length_append, List.length_cons, List.length_nil,
    leBytes_length, List.length_replicate]
  omega

theorem length_packetAnswer {pending_fw : List AppleMTSPILLPacket}
    (h : ∀ packet ∈ pending_fw, packet.Sendable) : (packetAnswer pending_fw).length = 0x200 := by
  cases pending_fw with
  | nil => exact length_llPacket (zero_le _) _
  | cons packet _ => exact length_llPacket (List.forall_mem_cons.mp h).1 _

/-- The buffer holds these bytes, and has memory for them. -/
structure Built (data : List UInt8) (buf : AppleMTSPIBuffer) : Prop where
  data_eq : buf.data = data
  holds : Holds data.length 0 buf

section Built

variable {data : List UInt8} {buf : AppleMTSPIBuffer}

section

variable (h : Built data buf) {bytes : List UInt8} {k : ℕ}

include h

theorem Built.extend (hk : bytes.length = k) (hroom : data.length + k < 2 ^ 32) :
    ∃ buf', (buf.ensureCapacity k >>= fun buf' => pure { buf' with data := buf.data ++ bytes }) =
      some buf' ∧ Built (data ++ bytes) buf' := by
  obtain ⟨buf', hbuf, hheld⟩ := (extend_holds h.holds (by omega) hk).exists_some hroom
  have heq := ((extend_exactly h.holds (by omega)).of_some hbuf).2
  refine ⟨buf', hbuf, ?_, by rwa [List.length_append, hk]⟩
  rw [heq, h.data_eq]

/-- What is short is padded, and the checksum is put behind. -/
theorem Built.pad (hk : data.length + k = 0x1FE) :
    ∃ buf', (padLlPacket buf >>= pushCrc16) = some buf' ∧
      Built (withCrc16 (data ++ List.replicate k 0)) buf' := by
  have hlen : LL_PACKET_LEN - 4 - 2 = buf.len + k := h.holds.len ▸ hk.symm
  have hle : ¬ buf.len + k < buf.len := (le_add_right _ _).not_gt
  have hpadded : (data ++ List.replicate k (0 : UInt8)).length = 0x1FE := by
    rw [List.length_append, List.length_replicate, hk]
  obtain ⟨padded, hpad, hbuilt⟩ := h.extend List.length_replicate (hk.trans_lt (by decide))
  have hempty : ¬ padded.isEmpty = true := by
    rw [isEmpty, hbuilt.holds.len, hpadded]
    decide
  have hset : padLlPacket buf = some padded := by
    unfold padLlPacket setLen
    rw [hlen, if_neg hle, Nat.add_sub_cancel_left]
    exact hpad
  rw [hset]
  show ∃ buf', pushCrc16 padded = some buf' ∧ _
  unfold pushCrc16
  rw [if_neg hempty, hbuilt.data_eq]
  exact hbuilt.extend (leBytes_length 2 _) (hpadded ▸ show 0x1FE + 2 < 2 ^ 32 by decide)

theorem Built.append {other : AppleMTSPIBuffer} (hroom : data.length + other.len < 2 ^ 32) :
    ∃ buf', buf.append other = some buf' ∧ Built (data ++ other.data) buf' := by
  unfold AppleMTSPIBuffer.append
  split_ifs with hempty
  · have hnil : other.data = [] := List.length_eq_zero_iff.mp (beq_iff_eq.mp hempty)
    exact ⟨buf, rfl, by rwa [hnil, List.append_nil]⟩
  · exact h.extend rfl hroom

end

end Built

theorem pushLlHdr_built (type : UInt8) (payload_length : BitVec 16) :
    ∃ buf, pushLlHdr type 0 0 0 payload_length free = some buf ∧
      Built ([type, 0, 0, 0, 0, 0] ++ leBytes 2 payload_length.toNat) buf :=
  ⟨⟨_, 8, 0⟩, rfl, rfl, rfl, rfl, le_refl 8, show 8 < 2 ^ 32 by decide⟩

theorem fwAnswer_eq {pending_fw : List AppleMTSPILLPacket}
    (h : ∀ packet ∈ pending_fw, packet.Sendable) :
    ∃ buf, fwAnswer pending_fw = some (buf, pending_fw.tail) ∧
      Built (packetAnswer pending_fw) buf := by
  cases pending_fw with
  | nil =>
    obtain ⟨hdr, hhdr, hbuilt⟩ := pushLlHdr_built LL_PACKET_NO_DATA 0
    obtain ⟨buf, hpad, hbuilt⟩ := hbuilt.pad (show 8 + 0x1F6 = _ from rfl)
    refine ⟨buf, ?_, hbuilt⟩
    show (pushLlHdr _ 0 0 0 0 free >>= fun hdr => padLlPacket hdr >>= pushCrc16) >>= _ = _
    rw [hhdr]
    show (padLlPacket hdr >>= pushCrc16) >>= _ = _
    rw [hpad]
    rfl
  | cons packet pending_fw =>
    have hlen : packet.buf.data.length ≤ 0x1F6 := (List.forall_mem_cons.mp h).1
    obtain ⟨hdr, hhdr, hbuilt⟩ := pushLlHdr_built packet.type (BitVec.ofNat 16 packet.buf.len)
    obtain ⟨body, hbody, hbuilt⟩ := hbuilt.append (by
      show 8 + packet.buf.data.length < _
      omega)
    obtain ⟨buf, hpad, hbuilt⟩ := hbuilt.pad (show _ + (0x1F6 - packet.buf.data.length) = _ by
        rw [List.length_append]
        show 8 + _ + _ = _
        omega)
    refine ⟨buf, ?_, hbuilt⟩
    show (pushLlHdr _ 0 0 0 _ free >>= fun hdr => hdr.append packet.buf >>= _) = _
    rw [hhdr]
    show hdr.append packet.buf >>= _ = _
    rw [hbody]
    show (padLlPacket body >>= fun padded => padded.pushCrc16 >>= fun buf => some _) = _
    rw [← bind_assoc, hpad]
    rfl

end Inferno.MtSpi
