import Inferno.MtSpi.Buffer
import Inferno.MtSpi.Frames

/-!
# What the handlers do

Every handler of the controller succeeds exactly when the view of the state allows it, and does to
the view what `View.handle` says (`handle_exactly`). The handlers are taken one by one, from the
bytes that are pushed to the whole frame. `Stands` carries the receive buffer separately from the
view, since its capacity changes in the middle of a frame: it is the length of the frame as far as
the bytes before the last told (`lenBefore`), and afterwards as far as all of them tell. So
`set_capacity` never shrinks it, but for a command with data, whose length is computed in 16 bits.
-/

namespace Inferno.MtSpi

open Common AppleMTSPIBuffer

/-! ## States and their views -/

/-- The state has this receive buffer, and the other buffers hold what the view says. -/
structure Stands (rx : AppleMTSPIBuffer) (v : View) (s : AppleMTSPIState) : Prop where
  rx_eq : s.rx = rx
  tx : Holds v.tx v.read s.tx
  pending : Holds v.pending 0 s.pending_hbpp
  packets : ∀ packet ∈ s.pending_fw, packet.Short

section Handlers

variable {rx : AppleMTSPIBuffer} {v : View} {s : AppleMTSPIState}

theorem Stands.room (h : Stands rx v s) : v.Room :=
  ⟨lt_of_le_of_lt h.tx.fits h.tx.small, lt_of_le_of_lt h.pending.fits h.pending.small⟩

theorem Stands.exactly (h : Stands rx v s) : Exactly (some s) v.Room (Stands rx v) :=
  exactly_some h.room h

theorem exactly_ite {c : Prop} [Decidable c] {x y : Option AppleMTSPIState} {a b : View}
    (hx : Exactly x a.Room (Stands rx a)) (hy : Exactly y b.Room (Stands rx b)) :
    Exactly (if c then x else y) (if c then a else b).Room (Stands rx (if c then a else b)) := by
  by_cases hc : c
  · rwa [if_pos hc, if_pos hc]
  · rwa [if_neg hc, if_neg hc]

section

variable (h : Stands rx v s) {k : ℕ}

include h

theorem Stands.send {x : Option AppleMTSPIBuffer}
    (hx : Exactly x (v.tx + k < 2 ^ 32) (Holds (v.tx + k) v.read)) :
    Exactly (x >>= fun tx => pure { s with tx := tx }) (v.send k).Room (Stands rx (v.send k)) := by
  refine (hx.imp (and_iff_left h.room.2).symm fun _ _ htx => htx).bind_true fun tx htx => ?_
  exact exactly_some trivial ⟨h.rx_eq, htx, h.pending, h.packets⟩

theorem pushPendingHbpp_exactly {val : Datum} :
    Exactly (pushPendingHbpp s val) (v.pend val.size).Room (Stands rx (v.pend val.size)) := by
  have hpush := (push_holds h.pending val).imp (and_iff_right h.room.1).symm fun _ _ hbuf => hbuf
  refine hpush.bind_true fun pending hpending => ?_
  exact exactly_some trivial ⟨h.rx_eq, h.tx, hpending, h.packets⟩

/-- `HBPP_PACKET_INT_ACK`: all that is pending is to be transmitted. -/
theorem intAck_exactly : Exactly
      (s.tx.append s.pending_hbpp >>= fun tx => pure { s with tx := tx, pending_hbpp := free })
      ({ v.send v.pending with pending := 0 } : View).Room
      (Stands rx { v.send v.pending with pending := 0 }) := by
  have happend := (append_holds h.tx h.pending).imp
    (and_iff_left (by decide : 0 < 2 ^ 32)).symm fun _ _ htx => htx
  refine happend.bind_true fun tx htx => ?_
  exact exactly_some trivial ⟨h.rx_eq, htx, holds_free, h.packets⟩

/-- `HBPP_PACKET_MEM_READ`: an acknowledgement, a value and its checksum are pending. -/
theorem memRead_exactly : Exactly (s.pending_hbpp.ensureCapacity (2 + 4 + 2) >>= fun pending_hbpp =>
        pushPendingHbpp { s with pending_hbpp := pending_hbpp } (.word HBPP_PACKET_ACK_RD_REQ) >>=
          fun s => pushPendingHbpp s (.dword 0) >>= fun s => pushPendingHbpp s (.word 0))
      (v.pend 8).Room (Stands rx (v.pend 8)) := by
  have hpushes : ∀ pending, Holds v.pending 0 pending →
      Exactly (pushPendingHbpp { s with pending_hbpp := pending } (.word HBPP_PACKET_ACK_RD_REQ) >>=
        fun s => pushPendingHbpp s (.dword 0) >>= fun s => pushPendingHbpp s (.word 0))
        (v.pend 8).Room (Stands rx (v.pend 8)) := by
    intro pending hpending
    have hs : Stands rx v { s with pending_hbpp := pending } :=
      ⟨h.rx_eq, h.tx, hpending, h.packets⟩
    refine ((pushPendingHbpp_exactly hs).bind fun _ hs => (pushPendingHbpp_exactly hs).bind
      fun _ hs => pushPendingHbpp_exactly hs).imp ?_ fun _ _ hs => hs
    show (v.pend 2).Room ∧ ((v.pend 2).pend 4).Room ∧ (((v.pend 2).pend 4).pend 2).Room ↔ _
    unfold View.Room View.pend
    dsimp only
    omega
  refine ((ensureCapacity_holds h.pending (by decide)).bind hpushes).imp ?_ fun _ _ hs => hs
  exact and_iff_right_of_imp fun hroom => hroom.2

end

end Handlers

/-! ## The receive buffer -/

section Receive

variable {rx : List UInt8} (hrx : rx ≠ [])
include hrx

variable {capacity read_pos : ℕ}

theorem getPos_eq : getPos ⟨rx, capacity, read_pos⟩ = some (rx.length - 1) := by
  have hempty : ¬ isEmpty ⟨rx, capacity, read_pos⟩ = true := by
    rw [isEmpty, beq_iff_eq]
    exact (List.length_pos_iff.mpr hrx).ne'
  exact if_neg hempty

theorem posAtStart_eq : posAtStart ⟨rx, capacity, read_pos⟩ = some (decide (rx.length = 1)) := by
  have hpos := List.length_pos_iff.mpr hrx
  rw [posAtStart, getPos_eq hrx, Option.map_some]
  congr 1
  rw [Bool.eq_iff_iff, beq_iff_eq, decide_eq_true_iff]
  omega

theorem isFull_iff : isFull ⟨rx, capacity, read_pos⟩ = true ↔ rx.length = capacity := by
  have hpos := List.length_pos_iff.mpr hrx
  show (!(rx.length == 0) && rx.length == capacity) = true ↔ _
  rw [Bool.and_eq_true, Bool.not_eq_true', beq_eq_false_iff_ne, beq_iff_eq]
  exact and_iff_right hpos.ne'

omit hrx in
/-- There is memory for the next byte of a frame that is not complete. -/
theorem push_byte_eq {capacity : ℕ} (hlt : rx.length < capacity) {b : UInt8} :
    push ⟨rx, capacity, 0⟩ (.byte b) = some ⟨rx ++ [b], capacity, 0⟩ := by
  have hensure : ensureCapacity ⟨rx, capacity, 0⟩ 1 = some ⟨rx, capacity, 0⟩ :=
    if_neg (show ¬ capacity < rx.length + 1 by omega)
  show ensureCapacity _ 1 >>= _ = _
  rw [hensure]
  rfl

omit hrx in
theorem readWord_eq {capacity : ℕ} (hcapacity : capacity ≠ 0) (read_pos : ℕ)
    (hlen : 4 < rx.length) :
    readWord ⟨rx, capacity, read_pos⟩ 2 = some (BitVec.ofNat 16 (headerWord rx)) := by
  rw [readWord, if_neg hcapacity]
  exact if_pos hlen

omit hrx in
theorem headerWord_lt {rx : List UInt8} : headerWord rx < 2 ^ 16 := by
  have hhigh := (rx.getD 2 0).toNat_lt
  have hlow := (rx.getD 3 0).toNat_lt
  unfold headerWord
  omega

omit hrx in
theorem readByte_eq {capacity : ℕ} (hcapacity : capacity ≠ 0) {read_pos : ℕ} {off : ℕ}
    (hoff : off < rx.length) : readByte ⟨rx, capacity, read_pos⟩ off = some (rx.getD off 0) := by
  rw [readByte, if_neg hcapacity, List.getD_eq_getElem?_getD, List.getElem?_eq_getElem hoff]
  rfl

/-- The first byte of a command sets the capacity to the length of the header. -/
theorem beginHbpp_eq (hfw : rx.getD 0 0 ≠ lowByte LL_PACKET_PREAMBLE) :
    beginHbpp ⟨rx, lenBefore rx, 0⟩ (rx.getD 0 0) (decide (rx.length = 1)) =
      some ⟨rx, frameLenAt rx (max 1 (rx.length - 1)), 0⟩ := by
  unfold beginHbpp lenBefore
  by_cases hone : rx.length = 1
  · have hhdr : frameLenAt rx 1 = hbppPacketHdrLen (rx.getD 0 0) :=
      frameLenAt_hbpp hfw fun _ => by decide
    have hbounds := (hbppPacketHdrLen_bounds (rx.getD 0 0)).1
    rw [hone, if_pos rfl]
    show setCapacity _ _ = some ⟨rx, frameLenAt rx 1, 0⟩
    rw [hhdr]
    exact if_neg (by dsimp only; omega)
  · have hpos := List.length_pos_iff.mpr hrx
    have hmax : max 1 (rx.length - 1) = rx.length - 1 := by omega
    rw [if_neg (by rwa [decide_eq_true_iff]), if_neg hone, hmax]

end Receive

/-! ## The boot protocol -/

section Hbpp

variable {v : View} {s : AppleMTSPIState} (hrx : v.rx ≠ [])
include hrx

variable {capacity : ℕ}

theorem handleHbppPacket_exactly (h : Stands ⟨v.rx, frameLen v.rx, 0⟩ v s)
    (hdata : v.rx.getD 0 0 ≠ HBPP_PACKET_DATA) :
    Exactly (handleHbppPacket s (v.rx.getD 0 0) (decide (v.rx.length = 1))) v.handleHbpp.Room
      (Stands ⟨v.rx, frameLen v.rx, 0⟩ v.handleHbpp) := by
  have hfull : s.rx.isFull = decide (v.rx.length = frameLen v.rx) := by
    rw [h.rx_eq, Bool.eq_iff_iff, isFull_iff hrx, decide_eq_true_iff]
  have hempty : s.tx.isEmpty = decide (v.tx = 0) := by
    rw [isEmpty, h.tx.len]
    rfl
  unfold handleHbppPacket handleHbppMemRmw View.handleHbpp
  rw [hfull, hempty]
  simp only [decide_eq_true_iff, Bool.and_eq_true]
  refine exactly_ite (exactly_ite (pushPendingHbpp_exactly h) h.exactly) ?_
  refine exactly_ite (exactly_ite (h.send (push_holds h.tx _)) h.exactly) ?_
  refine exactly_ite (exactly_ite (intAck_exactly h) h.exactly) ?_
  refine exactly_ite (exactly_ite (memRead_exactly h) h.exactly) ?_
  refine exactly_ite (exactly_ite (pushPendingHbpp_exactly h) h.exactly) ?_
  refine exactly_ite (exactly_ite (pushPendingHbpp_exactly h) h.exactly) ?_
  rw [if_neg hdata, if_neg hdata]
  exact h.exactly

section

variable (h : Stands ⟨v.rx, capacity, 0⟩ v s)

include h

theorem handleHbppData_of_full (hfull : v.rx.length = capacity) (hlen : 10 ≤ v.rx.length) :
    handleHbppData s =
      if capacity = dataLen v.rx then pushPendingHbpp s (.word HBPP_PACKET_ACK_DATA)
      else
        setCapacity ⟨v.rx, capacity, 0⟩ (dataLen v.rx) >>= fun rx => pure { s with rx := rx } := by
  have hword : (BitVec.ofNat 16 (headerWord v.rx)).toNat = headerWord v.rx := by
    rw [BitVec.toNat_ofNat, Nat.mod_eq_of_lt headerWord_lt]
  unfold handleHbppData
  rw [h.rx_eq, if_pos ((isFull_iff hrx).mpr hfull), readWord_eq (by omega) 0 (by omega)]
  show (if capacity = (10 + (BitVec.ofNat 16 (headerWord v.rx)).toNat * 4 % 2 ^ 16 + 4) % 2 ^ 16
    then _ else _) = _
  rw [hword]
  rfl

theorem handleHbppData_of_not_full (hfull : ¬ v.rx.length = capacity) :
    handleHbppData s = some s := by
  have hopen : ¬ s.rx.isFull = true := by
    rwa [h.rx_eq, isFull_iff hrx]
  exact if_neg hopen

/-- A command with data: its header gives its length, and when it is complete a word is pending. -/
theorem handleHbppData_exactly (hdata : v.rx.getD 0 0 = HBPP_PACKET_DATA)
    (hcapacity : capacity = frameLenAt v.rx (max 1 (v.rx.length - 1))) : Exactly (handleHbppData s)
      (View.HeaderOk v.rx ∧ (if v.rx.length = frameLen v.rx then v.pend 2 else v).Room)
      (Stands ⟨v.rx, frameLen v.rx, 0⟩ (if v.rx.length = frameLen v.rx then v.pend 2 else v)) := by
  have hframe : frameLen v.rx = if 10 ≤ v.rx.length then dataLen v.rx else 10 :=
    frameLenAt_data hdata _
  rw [frameLenAt_data hdata] at hcapacity
  rcases Nat.lt_trichotomy v.rx.length 10 with hshort | hheader | hlong
  · -- The header is not complete.
    have hten : capacity = 10 := hcapacity.trans (if_neg (by omega))
    have hframe' : frameLen v.rx = 10 := hframe.trans (if_neg (by omega))
    have hopen : ¬ v.rx.length = frameLen v.rx := by omega
    rw [hten, ← hframe'] at h
    rw [handleHbppData_of_not_full hrx h hopen, if_neg hopen]
    refine exactly_some ⟨fun _ hheader => ?_, h.room⟩ h
    omega
  · -- The header is complete, and the length is taken from it.
    have hten : capacity = 10 := hcapacity.trans (if_neg (by omega))
    have hframe' : frameLen v.rx = dataLen v.rx := hframe.trans (if_pos (by omega))
    have hok : View.HeaderOk v.rx ↔ ¬ dataLen v.rx < 10 := by
      rw [dataLen_lt_iff, not_or]
      exact ⟨fun hok => hok hdata hheader, fun hok _ _ => hok⟩
    rw [handleHbppData_of_full hrx h (hheader.trans hten.symm) hheader.ge, hframe', hheader, hok]
    subst hten
    by_cases hcomplete : 10 = dataLen v.rx
    · rw [← hcomplete]
      refine (pushPendingHbpp_exactly h).imp ?_ fun _ _ hs => hs
      exact (and_iff_right (by omega)).symm
    · unfold setCapacity
      split_ifs with hlost
      · exact exactly_none fun hboth => hboth.1 hlost
      · exact exactly_some ⟨hlost, h.room⟩ ⟨rfl, h.tx, h.pending, h.packets⟩
  · -- The length is known.
    have hcap : capacity = dataLen v.rx := hcapacity.trans (if_pos (by omega))
    have hframe' : frameLen v.rx = dataLen v.rx := hframe.trans (if_pos hlong.le)
    have hok : View.HeaderOk v.rx := fun _ hheader => absurd hheader hlong.ne'
    rw [hframe', ← hcap]
    refine Exactly.imp ?_ (and_iff_right hok).symm fun _ _ hs => hs
    by_cases hcomplete : v.rx.length = capacity
    · rw [handleHbppData_of_full hrx h hcomplete hlong.le, if_pos hcap, if_pos hcomplete]
      exact pushPendingHbpp_exactly h
    · rw [handleHbppData_of_not_full hrx h hcomplete, if_neg hcomplete]
      exact h.exactly

end

theorem handleHbpp_exactly (h : Stands ⟨v.rx, lenBefore v.rx, 0⟩ v s)
    (hfw : v.rx.getD 0 0 ≠ lowByte LL_PACKET_PREAMBLE) (hle : v.rx.length ≤ lenBefore v.rx) :
    Exactly (handleHbpp s) (View.HeaderOk v.rx ∧ v.handleHbpp.Room)
      (Stands ⟨v.rx, frameLen v.rx, 0⟩ v.handleHbpp) := by
  have hpos := List.length_pos_iff.mpr hrx
  unfold handleHbpp
  rw [h.rx_eq, readByte_eq (by omega) hpos, posAtStart_eq hrx]
  show Exactly (beginHbpp _ _ _ >>= _) _ _
  rw [beginHbpp_eq hrx hfw]
  have hs : Stands ⟨v.rx, frameLenAt v.rx (max 1 (v.rx.length - 1)), 0⟩ v
      { s with rx := ⟨v.rx, frameLenAt v.rx (max 1 (v.rx.length - 1)), 0⟩ } :=
    ⟨rfl, h.tx, h.pending, h.packets⟩
  by_cases hdata : v.rx.getD 0 0 = HBPP_PACKET_DATA
  · have hview : v.handleHbpp = if v.rx.length = frameLen v.rx then v.pend 2 else v := by
      unfold View.handleHbpp
      rw [hdata]
      rfl
    rw [hdata, hview]
    exact handleHbppData_exactly hrx hs hdata rfl
  · have hlen : ∀ n, frameLenAt v.rx n = hbppPacketHdrLen (v.rx.getD 0 0) := fun _ =>
      frameLenAt_hbpp hfw fun hheader => absurd hheader hdata
    have hok : View.HeaderOk v.rx := fun hheader => absurd hheader hdata
    rw [hlen, ← hlen v.rx.length] at hs ⊢
    exact (handleHbppPacket_exactly hrx hs hdata).imp (and_iff_right hok).symm fun _ _ hs => hs

end Hbpp

/-! ## Packets of the firmware -/

section Firmware

variable {v : View} {s : AppleMTSPIState}

variable {rx : AppleMTSPIBuffer}

theorem Stands.packet (h : Stands rx v s) {packet : AppleMTSPILLPacket} (hshort : packet.Short) :
    Stands rx v { s with pending_fw := s.pending_fw ++ [packet] } :=
  ⟨h.rx_eq, h.tx, h.pending,
    List.forall_mem_append.mpr ⟨h.packets, List.forall_mem_singleton.mpr hshort⟩⟩

theorem llReadPayloadByte_exactly (hlen : rx.len = LL_PACKET_LEN) {off : ℕ} (hoff : off < 4) :
    Exactly (llReadPayloadByte rx off) True fun _ => True := by
  have hempty : ¬ rx.isEmpty = true := by
    rw [isEmpty, hlen]
    decide
  have hbound : 4 + 8 + off < rx.data.length := by
    have hdata : rx.data.length = 0x204 := hlen
    omega
  unfold llReadPayloadByte
  rw [if_neg hempty, List.getElem?_eq_getElem hbound]
  exact exactly_some trivial trivial

/-- At most one packet has become pending, a short one, and nothing else has changed. -/
def Appended (s s' : AppleMTSPIState) : Prop :=
  ∃ more, s' = { s with pending_fw := s.pending_fw ++ more } ∧ more.length ≤ 1 ∧
    ∀ packet ∈ more, packet.Short

theorem AppleMTSPILLPacket.Short.appended {packet : AppleMTSPILLPacket} (h : packet.Short) :
    Appended s { s with pending_fw := s.pending_fw ++ [packet] } :=
  ⟨[packet], rfl, le_rfl, List.forall_mem_singleton.mpr h⟩

theorem appended_self : Appended s s :=
  ⟨[], by rw [List.append_nil], Nat.zero_le 1, List.forall_mem_nil _⟩

theorem handleControl_appended (hlen : s.rx.len = LL_PACKET_LEN) :
    Exactly (handleControl s) True (Appended s) := by
  have hread : ∀ off < 4, Exactly (llReadPayloadByte s.rx off) True fun _ => True := fun off hoff =>
    llReadPayloadByte_exactly hlen hoff
  refine (hread 0 (by decide)).true_bind fun type _ => ?_
  split_ifs
  · refine (hread 1 (by decide)).true_bind fun report_id _ =>
      (hread 3 (by decide)).true_bind fun frame_number _ => ?_
    obtain ⟨hcapacity, hvals⟩ := featureReport_short report_id
    exact (reportPacket_short hcapacity _ hvals _).true_bind fun buf hbuf =>
      exactly_some trivial hbuf.appended
  · refine (hread 1 (by decide)).true_bind fun report_id _ =>
      (hread 3 (by decide)).true_bind fun frame_number _ => ?_
    refine ((pushHidHdr_holds holds_free).bind fun _ hbuf =>
        (pushCrc16_holds hbuf (by decide)).bind_true fun buf hbuf =>
          exactly_some trivial (AppleMTSPILLPacket.Short.appended ⟨0 + 8 + 2, by decide, hbuf⟩)).imp
            (iff_true_intro (by decide)) fun _ _ hs => hs
  · exact exactly_some trivial appended_self

theorem Stands.of_appended {s' : AppleMTSPIState} (h : Stands rx v s) (happended : Appended s s') :
    Stands rx v s' := by
  obtain ⟨more, rfl, -, hmore⟩ := happended
  exact ⟨h.rx_eq, h.tx, h.pending, List.forall_mem_append.mpr ⟨h.packets, hmore⟩⟩

section

variable {rx : List UInt8} {capacity : ℕ}

theorem answerFwPacket_exactly (h : Stands ⟨v.rx, capacity, 0⟩ v s)
    (hcapacity : capacity ≤ LL_PACKET_LEN) : Exactly (answerFwPacket s 4) (v.send 0x200).Room
      (Stands ⟨v.rx, LL_PACKET_LEN, 0⟩ (v.send 0x200)) := by
  have hset : s.rx.setCapacity LL_PACKET_LEN = some ⟨v.rx, LL_PACKET_LEN, 0⟩ := by
    rw [h.rx_eq]
    exact if_neg hcapacity.not_gt
  unfold answerFwPacket
  rw [hset]
  have hsendable : ∀ packet ∈ s.pending_fw, packet.Sendable := fun packet hmem =>
    (h.packets packet hmem).sendable
  obtain ⟨buf, hanswer, hbuilt⟩ := fwAnswer_eq hsendable
  have hs : Stands ⟨v.rx, LL_PACKET_LEN, 0⟩ v
      { s with rx := ⟨v.rx, LL_PACKET_LEN, 0⟩, pending_fw := s.pending_fw.tail } :=
    ⟨rfl, h.tx, h.pending, fun packet hmem => h.packets packet (List.mem_of_mem_tail hmem)⟩
  rw [hanswer]
  exact hs.send (append_holds h.tx (length_packetAnswer hsendable ▸ hbuilt.holds))

/-- A packet that is complete is performed, and the others wait. Only one that controls changes
anything. -/
theorem performFwPacket_appended (hs : s.rx = ⟨rx, LL_PACKET_LEN, 0⟩) (hlen : 5 ≤ rx.length) :
    Exactly (performFwPacket s) True fun s' => Appended s s' ∧
      (s' = s ∨ rx.length = LL_PACKET_LEN ∧ rx.getD 4 0 = LL_PACKET_CONTROL) := by
  have hrx : rx ≠ [] := List.ne_nil_of_length_pos (by omega)
  unfold performFwPacket
  by_cases hfull : rx.length = LL_PACKET_LEN
  · have hread : s.rx.readByte 4 = some (rx.getD 4 0) := by
      rw [hs]
      exact readByte_eq (by decide) hlen
    have hcomplete : s.rx.isFull = true := by
      rw [hs]
      exact (isFull_iff hrx).mpr hfull
    rw [if_pos hcomplete, hread]
    show Exactly (if rx.getD 4 0 = LL_PACKET_CONTROL then handleControl s else some s) _ _
    split_ifs with hcontrol
    · refine (handleControl_appended (hs ▸ hfull)).imp Iff.rfl fun _ _ hs' => ?_
      exact ⟨hs', .inr ⟨hfull, hcontrol⟩⟩
    · exact exactly_some trivial ⟨appended_self, .inl rfl⟩
  · rw [hs, if_neg (by rwa [isFull_iff hrx])]
    exact exactly_some trivial ⟨appended_self, .inl rfl⟩

/-- A packet of the firmware, once its first byte has been answered. -/
theorem continueFw_eq (hs : s.rx = ⟨rx, capacity, 0⟩) (hrx : rx ≠ []) (hcapacity : capacity ≠ 0) :
    continueFw s =
      if rx.length < 5 then some s
      else if IsStatus (rx.getD 4 0) then
        if rx.length = 5 then
          s.tx.push (.dword LL_PACKET_ACK) >>= fun tx => pure { s with tx := tx }
        else some s
      else answerFwPacket s (rx.length - 1) >>= performFwPacket := by
  have hpos : s.rx.getPos = some (rx.length - 1) := by
    rw [hs]
    exact getPos_eq hrx
  unfold continueFw handleFwPacket
  rw [hpos]
  show (if rx.length - 1 < 4 then some s else _) = _
  by_cases hshort : rx.length < 5
  · have hearly : rx.length - 1 < 4 := by omega
    rw [if_pos hshort, if_pos hearly]
  · have hlate : ¬ rx.length - 1 < 4 := by omega
    have hread : s.rx.readByte 4 = some (rx.getD 4 0) := by
      rw [hs]
      exact readByte_eq hcapacity (by omega)
    rw [if_neg hshort, if_neg hlate, hread]
    refine if_congr Iff.rfl (if_congr (by omega) rfl rfl) rfl

end

theorem handleFwPacket_exactly (hlen : 5 ≤ v.rx.length)
    (h : Stands ⟨v.rx, if v.rx.length = 5 then 8 else LL_PACKET_LEN, 0⟩ v s) :
    Exactly (answerFwPacket s (v.rx.length - 1) >>= performFwPacket)
      (if v.rx.length = 5 then v.send 0x200 else v).Room
      (Stands ⟨v.rx, LL_PACKET_LEN, 0⟩ (if v.rx.length = 5 then v.send 0x200 else v)) := by
  have hperform : ∀ {v' : View} {s' : AppleMTSPIState}, v'.rx = v.rx →
      Stands ⟨v.rx, LL_PACKET_LEN, 0⟩ v' s' →
        Exactly (performFwPacket s') True (Stands ⟨v.rx, LL_PACKET_LEN, 0⟩ v') := fun _ hs' =>
    (performFwPacket_appended hs'.rx_eq hlen).imp Iff.rfl fun _ _ h' => hs'.of_appended h'.1
  by_cases htype : v.rx.length = 5
  · rw [if_pos htype] at h
    rw [htype]
    exact (answerFwPacket_exactly h (by decide)).bind_true fun s' hs' => hperform rfl hs'
  · rw [if_neg htype] at h ⊢
    have hlater : ¬ v.rx.length - 1 = 4 := by omega
    unfold answerFwPacket
    rw [if_neg hlater]
    exact h.exactly.bind_true fun s' hs' => hperform rfl hs'

theorem continueFw_exactly (hrx : v.rx ≠ []) (hfw : v.rx.getD 0 0 = lowByte LL_PACKET_PREAMBLE)
    (h : Stands ⟨v.rx, frameLenAt v.rx (max 1 (v.rx.length - 1)), 0⟩ v s) :
    Exactly (continueFw s) v.answerFw.Room (Stands ⟨v.rx, frameLen v.rx, 0⟩ v.answerFw) := by
  have hlen := frameLenAt_fw hfw
  have hcapacity : frameLenAt v.rx (max 1 (v.rx.length - 1)) ≠ 0 := by
    rw [hlen]
    split_ifs <;> decide
  unfold View.answerFw
  rw [continueFw_eq h.rx_eq hrx hcapacity, frameLen]
  rcases Nat.lt_or_ge v.rx.length 5 with hshort | hlong
  · have htype : ¬ v.rx.length = 5 := by omega
    rw [frameLenAt_fw_of_lt hfw (by omega)] at h
    rw [frameLenAt_fw_of_lt hfw hshort, if_pos hshort, if_neg htype]
    exact h.exactly
  · rw [if_neg hlong.not_gt]
    by_cases hstatus : IsStatus (v.rx.getD 4 0)
    · -- A status has eight bytes, and the first of its type is answered.
      have height : ∀ n, frameLenAt v.rx n = 8 := fun n =>
        (hlen n).trans (if_neg fun hboth => hboth.2 hstatus)
      rw [height] at h ⊢
      rw [if_pos hstatus, if_pos hstatus]
      by_cases htype : v.rx.length = 5
      · rw [if_pos htype, if_pos htype]
        exact h.send (push_holds h.tx _)
      · rw [if_neg htype, if_neg htype]
        exact h.exactly
    · have hframe : frameLenAt v.rx v.rx.length = LL_PACKET_LEN :=
        (hlen _).trans (if_pos ⟨hlong, hstatus⟩)
      rw [if_neg hstatus, if_neg hstatus, hframe]
      refine handleFwPacket_exactly hlong ?_
      have hcapacity : frameLenAt v.rx (max 1 (v.rx.length - 1)) =
          if v.rx.length = 5 then 8 else LL_PACKET_LEN := by
        by_cases htype : v.rx.length = 5
        · rw [htype]
          exact frameLenAt_fw_of_lt hfw (by decide)
        · rw [hlen, if_neg htype]
          exact if_pos ⟨by omega, hstatus⟩
      rwa [hcapacity] at h

theorem handleFw_exactly (hrx : v.rx ≠ []) (h : Stands ⟨v.rx, lenBefore v.rx, 0⟩ v s)
    (hfw : v.rx.getD 0 0 = lowByte LL_PACKET_PREAMBLE) :
    Exactly (handleFw s) v.handleFw.Room (Stands ⟨v.rx, frameLen v.rx, 0⟩ v.handleFw) := by
  have hstart : s.rx.posAtStart = some (decide (v.rx.length = 1)) := by
    rw [h.rx_eq]
    exact posAtStart_eq hrx
  unfold handleFw View.handleFw
  rw [hstart]
  by_cases hone : v.rx.length = 1
  · have hbefore : lenBefore v.rx = 1 := if_pos hone
    have height : frameLenAt v.rx (max 1 (v.rx.length - 1)) = 8 := by
      rw [hone]
      exact frameLenAt_fw_of_lt hfw (by decide)
    have hbegin : Exactly (beginFw s true) (v.send 4).Room
        (Stands ⟨v.rx, frameLenAt v.rx (max 1 (v.rx.length - 1)), 0⟩ (v.send 4)) := by
      have hset : s.rx.setCapacity (4 * 2) = some ⟨v.rx, 8, 0⟩ := by
        rw [h.rx_eq, hbefore]
        rfl
      have hs : Stands ⟨v.rx, 8, 0⟩ v { s with rx := ⟨v.rx, 8, 0⟩ } :=
        ⟨rfl, h.tx, h.pending, h.packets⟩
      unfold beginFw
      rw [hset, height]
      exact hs.send (push_holds h.tx _)
    have hanswer : (v.send 4).answerFw = v.send 4 := if_neg (show ¬ v.rx.length = 5 by omega)
    rw [decide_eq_true hone, if_pos hone]
    refine (hbegin.bind fun s' hs' => continueFw_exactly (v := v.send 4) hrx hfw hs').imp ?_ ?_
    · rw [hanswer]
      exact and_self_iff
    · intro _ s' hs'
      rwa [hanswer] at hs'
  · have hpos := List.length_pos_iff.mpr hrx
    have hmax : v.rx.length - 1 = max 1 (v.rx.length - 1) := by omega
    rw [lenBefore, if_neg hone, hmax] at h
    rw [decide_eq_false hone, if_neg hone]
    exact continueFw_exactly hrx hfw h

end Firmware

/-! ## Frames -/

theorem handle_exactly {v : View} {s : AppleMTSPIState} (hrx : v.rx ≠ [])
    (h : Stands ⟨v.rx, lenBefore v.rx, 0⟩ v s) (hle : v.rx.length ≤ lenBefore v.rx) :
    Exactly (handle s) (View.HeaderOk v.rx ∧ v.handle.Room)
      (Stands ⟨v.rx, frameLen v.rx, 0⟩ v.handle) := by
  have hpos := List.length_pos_iff.mpr hrx
  have hread : s.rx.readByte 0 = some (v.rx.getD 0 0) := by
    rw [h.rx_eq]
    exact readByte_eq (by omega) hpos
  unfold handle View.handle
  rw [hread]
  show Exactly (if v.rx.getD 0 0 = lowByte LL_PACKET_PREAMBLE then handleFw s else handleHbpp s) _ _
  by_cases hfw : v.rx.getD 0 0 = lowByte LL_PACKET_PREAMBLE
  · have hok : View.HeaderOk v.rx := by
      intro hdata
      rw [hfw] at hdata
      exact absurd hdata (by decide)
    rw [if_pos hfw, if_pos hfw]
    exact (handleFw_exactly hrx h hfw).imp (and_iff_right hok).symm fun _ _ hs => hs
  · rw [if_neg hfw, if_neg hfw]
    exact handleHbpp_exactly hrx h hfw hle

end Inferno.MtSpi
