import Inferno.MtSpi.Handlers

/-!
# Exchanges in lockstep

The preamble is put into the transmit buffer with the first byte of an exchange and the answer with
the fifth, and the guest takes one byte with each that it sends. `Waits` is what the guest has not
taken. All bytes but the first, the fifth and the last are only stored (`shifts_early`,
`shifts_after`), and since an answer is as long as what the guest sends with it, both buffers are
empty at the end of every exchange (`lockstep_of_sendable`). A packet that is too long to be padded
is never sent: the assertion in the padding fails (`not_lockstep`). The controller builds none.
-/

namespace Inferno.MtSpi

open Common AppleMTSPIBuffer Nat
open List (cons_ne_nil getD_append length_append replicate)

variable (type : UInt8)

/-- What answers an exchange of this type, and the packets that stay: a status is acknowledged, and
a packet is answered by the first that is pending. -/
def answer (pending_fw : List AppleMTSPILLPacket) : List UInt8 × List AppleMTSPILLPacket :=
  if IsStatus type then (leBytes 4 LL_PACKET_ACK.toNat, pending_fw)
  else (packetAnswer pending_fw, pending_fw.tail)

def exchangeType (vals : List (BitVec 32)) : UInt8 := lowByte (vals.getD 4 0)

def exchangeLen : ℕ := if IsStatus type then 8 else LL_PACKET_LEN

theorem exchangeLen_bounds : 8 ≤ exchangeLen type ∧ exchangeLen type ≤ LL_PACKET_LEN := by
  unfold exchangeLen
  split_ifs <;> decide

/-- A complete exchange begins with the preamble. -/
structure IsExchange (vals : List (BitVec 32)) : Prop where
  preamble : lowByte (vals.getD 0 0) = lowByte LL_PACKET_PREAMBLE
  length : vals.length = exchangeLen (exchangeType vals)

/-- After an exchange nothing is in the buffers, and these packets are pending. What has become
pending, a packet at most and only if the exchange controls, is behind them. -/
structure Ends (type : UInt8) (pending_fw : List AppleMTSPILLPacket) (s : AppleMTSPIState) :
    Prop where
  rx : s.rx = free
  tx : s.tx = free
  pending : ∃ more, s.pending_fw = pending_fw ++ more ∧ (∀ packet ∈ more, packet.Short) ∧
    more.length ≤ if type = LL_PACKET_CONTROL then 1 else 0

/-- During every exchange the preamble is shifted out and then the answer. -/
def Lockstep (s : AppleMTSPIState) : List (List (BitVec 32)) → Prop
  | [] => True
  | vals :: rest => ∃ s', replies transfer s vals = some (leBytes 4 LL_PACKET_PREAMBLE.toNat ++
        (answer (exchangeType vals) s.pending_fw).1, s') ∧
      Ends (exchangeType vals) (answer (exchangeType vals) s.pending_fw).2 s' ∧ Lockstep s' rest

/-! ## The transmit buffer -/

/-- The guest has not taken these bytes. -/
inductive Waits : List UInt8 → AppleMTSPIBuffer → Prop
  | none : Waits [] free
  | some (taken : List UInt8) (b : UInt8) (bytes : List UInt8) {capacity : ℕ}
      (h : capacity ≠ 0) : Waits (b :: bytes) ⟨taken ++ b :: bytes, capacity, taken.length⟩

theorem Waits.eq_free {buf : AppleMTSPIBuffer} (h : Waits [] buf) : buf = free := by
  cases h
  rfl

theorem Built.waits {data : List UInt8} {buf : AppleMTSPIBuffer} (h : Built data buf)
    (hdata : data ≠ []) : Waits data buf := by
  obtain ⟨b, bytes, rfl⟩ := List.exists_cons_of_ne_nil hdata
  obtain ⟨data, capacity, read_pos⟩ := buf
  obtain ⟨rfl, -, rfl, hfits, -⟩ := h
  exact .some [] b bytes (ne_of_gt (lt_of_lt_of_le (succ_pos _) hfits))

/-- The guest takes a byte. -/
theorem Waits.pop {b : UInt8} {bytes : List UInt8} {buf : AppleMTSPIBuffer}
    (h : Waits (b :: bytes) buf) : ∃ buf', buf.pop = Option.some (b, buf') ∧ Waits bytes buf' := by
  cases h with
  | some taken _ _ hcapacity =>
    cases bytes with
    | nil =>
      refine ⟨free, ?_, .none⟩
      simp [AppleMTSPIBuffer.pop, isEmpty, readPosAtEnd, len, hcapacity]
    | cons c bytes =>
      refine ⟨_, ?_, .some (taken ++ [b]) c bytes hcapacity⟩
      simp [AppleMTSPIBuffer.pop, isEmpty, readPosAtEnd, len, hcapacity]

/-! ## Bytes -/

section Bytes

variable {s : AppleMTSPIState} {rx : List UInt8} {capacity : ℕ}

/-- These bytes come out for those that the guest sends, and this holds afterwards. -/
def Shifts (s : AppleMTSPIState) (vals : List (BitVec 32)) (out : List UInt8)
    (P : AppleMTSPIState → Prop) : Prop :=
  ∃ s', replies transfer s vals = some (out, s') ∧ P s'

variable {vals : List (BitVec 32)} {bytes out : List UInt8} {P : AppleMTSPIState → Prop}

/-- One byte, by what its handler does. -/
theorem shifts_cons {t : AppleMTSPIState} {val : BitVec 32} {capacity' : ℕ} {b : UInt8}
    (hpush : s.rx.push (.byte (lowByte val)) = some ⟨rx, capacity, 0⟩) (hrx : rx ≠ [])
    (hhandle : handle { s with rx := ⟨rx, capacity, 0⟩ } = some t)
    (ht : t.rx = ⟨rx, capacity', 0⟩) (htx : Waits (b :: bytes) t.tx)
    (hnext : ∀ s' : AppleMTSPIState,
      s'.rx = (if rx.length = capacity' then free else ⟨rx, capacity', 0⟩) → Waits bytes s'.tx →
        s'.pending_fw = t.pending_fw → Shifts s' vals out P) :
    Shifts s (val :: vals) (b :: out) P := by
  obtain ⟨tx, hpop, htx'⟩ := htx.pop
  obtain ⟨s₁, hfinish, hs₁, htx₁, hpending⟩ : ∃ s₁, finish t = some (b, s₁) ∧
      s₁.rx = (if rx.length = capacity' then free else ⟨rx, capacity', 0⟩) ∧
        Waits bytes s₁.tx ∧ s₁.pending_fw = t.pending_fw := by
    unfold finish
    rw [hpop, ht, if_congr (isFull_iff hrx) rfl rfl]
    exact ⟨_, rfl, rfl, htx', rfl⟩
  obtain ⟨s', hrest, hP⟩ := hnext s₁ hs₁ htx₁ hpending
  refine ⟨s', replies_cons_eq_some.mpr ⟨b, s₁, out, ?_, hrest, rfl⟩, hP⟩
  unfold transfer
  rw [hpush]
  show handle _ >>= finish = _
  rw [hhandle]
  exact hfinish

/-- The first byte is answered by the preamble. -/
theorem handle_first (hs : s.rx = ⟨[lowByte LL_PACKET_PREAMBLE], 1, 0⟩) (htx : s.tx = free) :
    handle s = some { s with
      rx := ⟨[lowByte LL_PACKET_PREAMBLE], 8, 0⟩
      tx := ⟨leBytes 4 LL_PACKET_PREAMBLE.toNat, 4, 0⟩ } := by
  cases s
  cases hs
  cases htx
  rfl

section Handle

variable (hs : s.rx = ⟨rx, capacity, 0⟩) (hfw : rx.getD 0 0 = lowByte LL_PACKET_PREAMBLE)
include hs hfw

theorem handle_eq_continueFw (hlen : 2 ≤ rx.length) (hcapacity : capacity ≠ 0) :
    handle s = continueFw s := by
  have hone : ¬ rx.length = 1 := by omega
  have hread : s.rx.readByte 0 = some (rx.getD 0 0) := by
    rw [hs]
    exact readByte_eq hcapacity (by omega)
  have hstart : s.rx.posAtStart = some (decide (rx.length = 1)) := by
    rw [hs]
    exact posAtStart_eq (List.ne_nil_of_length_pos (by omega))
  unfold handle
  rw [hread]
  show (if rx.getD 0 0 = lowByte LL_PACKET_PREAMBLE then handleFw s else handleHbpp s) = _
  rw [if_pos hfw, handleFw, hstart, decide_eq_false hone]
  rfl

/-- The fifth byte is answered. -/
theorem handle_fifth (hlen : rx.length = 5) (hcapacity : capacity = 8) (htx : s.tx = free)
    (hpending : ∀ packet ∈ s.pending_fw, packet.Sendable) :
    ∃ t, handle s = some t ∧ t.rx = ⟨rx, exchangeLen (rx.getD 4 0), 0⟩ ∧
      Waits (answer (rx.getD 4 0) s.pending_fw).1 t.tx ∧
      t.pending_fw = (answer (rx.getD 4 0) s.pending_fw).2 := by
  have hrx : rx ≠ [] := List.ne_nil_of_length_pos (by omega)
  have hlate : ¬ rx.length < 5 := by omega
  rw [handle_eq_continueFw hs hfw (by omega) (by omega), continueFw_eq hs hrx (by omega),
    if_neg hlate, if_pos hlen, hlen, answer, exchangeLen]
  split_ifs with hstatus
  · rw [htx]
    exact ⟨_, rfl, hcapacity ▸ hs, .some [] _ _ (show 4 ≠ 0 by decide), rfl⟩
  · obtain ⟨buf, hanswer, hbuilt⟩ := fwAnswer_eq hpending
    have hlength := length_packetAnswer hpending
    obtain ⟨tx, happend, htx'⟩ := (⟨rfl, holds_free⟩ : Built [] free).append (by
      rw [hbuilt.holds.len, hlength]
      decide)
    have hset : s.rx.setCapacity LL_PACKET_LEN = some ⟨rx, LL_PACKET_LEN, 0⟩ := by
      rw [hs, hcapacity]
      rfl
    rw [List.nil_append, hbuilt.data_eq] at htx'
    unfold answerFwPacket
    rw [hset, hanswer, htx]
    show ∃ t, (free.append buf >>= fun tx => some _) >>= performFwPacket = some t ∧ _
    rw [happend]
    obtain ⟨t, ht, -, rfl | hfull⟩ := (performFwPacket_appended (s := { s with
      rx := ⟨rx, LL_PACKET_LEN, 0⟩, tx := tx, pending_fw := s.pending_fw.tail }) rfl
        hlen.ge).exists_some trivial
    · exact ⟨_, ht, rfl, htx'.waits (List.ne_nil_of_length_pos (by omega)), rfl⟩
    · exact absurd (hlen.symm.trans hfull.1) (by decide)

/-- After the fifth byte nothing happens but that a control packet is performed at its end. -/
theorem handle_after (hlen : 5 < rx.length) (hcapacity : capacity = exchangeLen (rx.getD 4 0)) :
    ∃ more, handle s = some { s with pending_fw := s.pending_fw ++ more } ∧
      (∀ packet ∈ more, packet.Short) ∧ more.length ≤
        if rx.length = LL_PACKET_LEN ∧ rx.getD 4 0 = LL_PACKET_CONTROL then 1 else 0 := by
  have hrx : rx ≠ [] := List.ne_nil_of_length_pos (by omega)
  have hbounds := exchangeLen_bounds (rx.getD 4 0)
  have hpos : capacity ≠ 0 := by omega
  have hlate : ¬ rx.length < 5 := by omega
  rw [handle_eq_continueFw hs hfw (by omega) hpos, continueFw_eq hs hrx hpos, if_neg hlate,
    if_neg hlen.ne']
  by_cases hstatus : IsStatus (rx.getD 4 0)
  · rw [if_pos hstatus]
    exact ⟨[], by rw [List.append_nil], List.forall_mem_nil _, zero_le _⟩
  · have hlater : ¬ rx.length - 1 = 4 := by omega
    rw [hcapacity, exchangeLen, if_neg hstatus] at hs
    obtain ⟨_, hperform, ⟨more, rfl, hone, hshort⟩, hchange⟩ :=
      (performFwPacket_appended hs hlen.le).exists_some trivial
    refine ⟨more, ?_, hshort, ?_⟩
    · rw [if_neg hstatus, answerFwPacket, if_neg hlater]
      exact hperform
    · rcases hchange with hsame | hcontrol
      · have hnil := List.append_right_eq_self.mp (congrArg AppleMTSPIState.pending_fw hsame)
        rw [hnil]
        exact zero_le _
      · rwa [if_pos hcontrol]

end Handle

variable {val : BitVec 32}

/-- Bytes two to four. -/
theorem shifts_early {b : UInt8} (hs : s.rx = ⟨rx, 8, 0⟩)
    (hfw : rx.getD 0 0 = lowByte LL_PACKET_PREAMBLE) (hrx : rx ≠ []) (hlen : rx.length < 4)
    (htx : Waits (b :: bytes) s.tx)
    (hnext : ∀ s' : AppleMTSPIState, s'.rx = ⟨rx ++ [lowByte val], 8, 0⟩ → Waits bytes s'.tx →
      s'.pending_fw = s.pending_fw → Shifts s' vals out P) :
    Shifts s (val :: vals) (b :: out) P := by
  have hpos := List.length_pos_iff.mpr hrx
  have hlength : (rx ++ [lowByte val]).length = rx.length + 1 := length_append
  have hne : rx ++ [lowByte val] ≠ [] := List.append_ne_nil_of_left_ne_nil hrx _
  have hhandle : handle { s with rx := ⟨rx ++ [lowByte val], 8, 0⟩ } =
      some { s with rx := ⟨rx ++ [lowByte val], 8, 0⟩ } := by
    rw [← getD_append rx [lowByte val] _ _ hpos] at hfw
    rw [handle_eq_continueFw rfl hfw (by omega) (by decide), continueFw_eq rfl hne (by decide)]
    exact if_pos (by omega)
  refine shifts_cons (hs ▸ push_byte_eq (by omega)) hne hhandle rfl htx fun s' hs' => ?_
  rw [if_neg (by omega)] at hs'
  exact hnext s' hs'

/-- After the fifth byte the guest takes what waits, and the last byte ends the exchange. -/
theorem shifts_after {type : UInt8} (hs : s.rx = ⟨rx, exchangeLen type, 0⟩)
    (hfw : rx.getD 0 0 = lowByte LL_PACKET_PREAMBLE) (hlen : 5 ≤ rx.length)
    (htype : rx.getD 4 0 = type) (hvals : vals ≠ [])
    (hfits : rx.length + vals.length = exchangeLen type) (hout : out.length = vals.length)
    (htx : Waits out s.tx) : Shifts s vals out (Ends type s.pending_fw) := by
  induction vals generalizing s rx out with
  | nil => exact absurd rfl hvals
  | cons val vals ih =>
    obtain ⟨b, out, rfl⟩ := List.exists_cons_of_length_eq_add_one hout
    have hget : ∀ k < rx.length, (rx ++ [lowByte val]).getD k 0 = rx.getD k 0 := fun k hk =>
      getD_append _ _ _ _ hk
    have hlength : (rx ++ [lowByte val]).length = rx.length + 1 := length_append
    rw [← hget 0 (by omega)] at hfw
    rw [← hget 4 (by omega)] at htype
    rw [List.length_cons] at hfits
    obtain ⟨more, hmore, hshort, hone⟩ := handle_after (s := { s with
      rx := ⟨rx ++ [lowByte val], exchangeLen type, 0⟩ }) rfl hfw (by omega) (by rw [htype])
    refine shifts_cons (hs ▸ push_byte_eq (by omega)) (List.append_ne_nil_of_right_ne_nil _
      (cons_ne_nil _ _)) hmore rfl htx fun s' hs' htx' hpending => ?_
    by_cases hlast : vals = []
    · subst hlast
      obtain rfl := List.length_eq_zero_iff.mp (succ.inj hout)
      refine ⟨s', rfl, hs'.trans (if_pos (hlength.trans hfits)), htx'.eq_free, more, hpending,
        hshort, hone.trans ?_⟩
      rw [htype]
      split_ifs with hboth hcontrol
      · exact le_rfl
      · exact absurd hboth.2 hcontrol
      · exact zero_le 1
      · exact le_rfl
    · -- Only the last byte of a packet makes something pending.
      have hpos := List.length_pos_iff.mpr hlast
      have hle := (exchangeLen_bounds type).2
      rw [if_neg (by omega)] at hone hs'
      rw [List.length_eq_zero_iff.mp (le_zero.mp hone), List.append_nil] at hpending
      rw [show s.pending_fw = s'.pending_fw from hpending.symm]
      exact ih hs' hfw (by omega) htype hlast (by omega) (succ.inj hout) htx'

theorem length_answer (type : UInt8) {pending_fw : List AppleMTSPILLPacket}
    (h : ∀ packet ∈ pending_fw, packet.Sendable) :
    (answer type pending_fw).1.length + 4 = exchangeLen type := by
  unfold answer exchangeLen
  split_ifs
  · rfl
  · exact congrArg (· + 4) (length_packetAnswer h)

/-- The fifth byte tells how the exchange goes on. -/
theorem shifts_fifth (hs : s.rx = ⟨rx, 8, 0⟩) (hfw : rx.getD 0 0 = lowByte LL_PACKET_PREAMBLE)
    (hlen : rx.length = 4) (htx : s.tx = free) (hpending : ∀ packet ∈ s.pending_fw, packet.Sendable)
    (hvals : vals ≠ []) (hfits : vals.length + 5 = exchangeLen (lowByte val)) :
    Shifts s (val :: vals) (answer (lowByte val) s.pending_fw).1
      (Ends (lowByte val) (answer (lowByte val) s.pending_fw).2) := by
  have htype : (rx ++ [lowByte val]).getD 4 0 = lowByte val := by
    rw [List.getD_append_right _ _ _ _ hlen.le, hlen]
    rfl
  have hlength : (rx ++ [lowByte val]).length = 5 := by rw [length_append, hlen]; rfl
  rw [← getD_append rx [lowByte val] _ _ (by omega)] at hfw
  obtain ⟨t, ht, hrx, htx', hleft⟩ := handle_fifth (s := { s with
    rx := ⟨rx ++ [lowByte val], 8, 0⟩ }) rfl hfw hlength rfl htx hpending
  have hanswer := length_answer (lowByte val) hpending
  obtain ⟨b, out, hout⟩ := List.exists_cons_of_length_pos
    (show 0 < (answer (lowByte val) s.pending_fw).1.length by omega)
  rw [htype] at hrx htx' hleft
  rw [hout] at hanswer htx' ⊢
  refine shifts_cons (hs ▸ push_byte_eq (by omega)) (List.append_ne_nil_of_right_ne_nil _
    (cons_ne_nil _ _)) ht hrx htx' fun s' hs' htx'' hsame => ?_
  have hpos := List.length_pos_iff.mpr hvals
  have hmore : ¬ (rx ++ [lowByte val]).length = exchangeLen (lowByte val) := by omega
  rw [if_neg hmore] at hs'
  rw [← hleft, ← hsame]
  rw [List.length_cons] at hanswer
  exact shifts_after hs' hfw hlength.ge htype hvals (by omega) (by omega) htx''

/-- A complete exchange. -/
theorem shifts_exchange (hrx : s.rx = free) (htx : s.tx = free)
    (hpending : ∀ packet ∈ s.pending_fw, packet.Sendable) (h : IsExchange vals) :
    Shifts s vals (leBytes 4 LL_PACKET_PREAMBLE.toNat ++
      (answer (exchangeType vals) s.pending_fw).1)
      (Ends (exchangeType vals) (answer (exchangeType vals) s.pending_fw).2) := by
  obtain ⟨hfirst, hlength⟩ := h
  have hlong := (exchangeLen_bounds (exchangeType vals)).1
  rcases vals with _ | ⟨v₀, _ | ⟨v₁, _ | ⟨v₂, _ | ⟨v₃, _ | ⟨v₄, _ | ⟨v₅, rest⟩⟩⟩⟩⟩⟩
  iterate 6 exact absurd (hlong.trans hlength.ge) (by simp)
  have hpush : s.rx.push (.byte (lowByte v₀)) = some ⟨[lowByte LL_PACKET_PREAMBLE], 1, 0⟩ := by
    rw [hrx, ← hfirst]
    rfl
  refine shifts_cons hpush (cons_ne_nil _ _) (handle_first rfl htx) rfl
    (.some [] _ _ (show 4 ≠ 0 by decide)) fun s₁ hs₁ htx₁ hpending₁ => ?_
  refine shifts_early hs₁ rfl (cons_ne_nil _ _) (by simp) htx₁ fun s₂ hs₂ htx₂ hpending₂ => ?_
  refine shifts_early hs₂ rfl (cons_ne_nil _ _) (by simp) htx₂ fun s₃ hs₃ htx₃ hpending₃ => ?_
  refine shifts_early hs₃ rfl (cons_ne_nil _ _) (by simp) htx₃ fun s₄ hs₄ htx₄ hpending₄ => ?_
  have hsame : s₄.pending_fw = s.pending_fw :=
    hpending₄.trans (hpending₃.trans (hpending₂.trans hpending₁))
  rw [← hsame] at hpending ⊢
  exact shifts_fifth hs₄ rfl rfl htx₄.eq_free hpending (cons_ne_nil _ _) hlength

end Bytes

/-! ## Runs -/

/-- From empty buffers every sequence of complete exchanges is in lockstep, if all packets that are
pending can be sent. -/
theorem lockstep_of_sendable {s : AppleMTSPIState} (hrx : s.rx = free) (htx : s.tx = free)
    (hpending : ∀ packet ∈ s.pending_fw, packet.Sendable) {exchanges : List (List (BitVec 32))}
    (hexchanges : ∀ vals ∈ exchanges, IsExchange vals) : Lockstep s exchanges := by
  induction exchanges generalizing s with
  | nil => trivial
  | cons vals exchanges ih =>
    obtain ⟨hvals, hrest⟩ := List.forall_mem_cons.mp hexchanges
    obtain ⟨s', hreplies, hends⟩ := shifts_exchange hrx htx hpending hvals
    refine ⟨s', hreplies, hends, ih hends.rx hends.tx ?_ hrest⟩
    obtain ⟨more, hmore, hshort, -⟩ := hends.pending
    rw [hmore, List.forall_mem_append]
    refine ⟨fun packet hmem => hpending packet ?_, fun packet hmem => (hshort packet hmem).sendable⟩
    unfold answer at hmem
    split_ifs at hmem
    · exact hmem
    · exact List.mem_of_mem_tail hmem

/-- A controller with one packet that is pending. -/
def pendingState (payload : List UInt8) : AppleMTSPIState :=
  { init 0 with pending_fw := [⟨⟨payload, payload.length, 0⟩, LL_PACKET_LOSSLESS_OUTPUT⟩] }

/-- An acknowledgement and a packet, with a packet of `0x1F6` bytes pending. -/
theorem lockstep_of_sendable_sample : Lockstep (pendingState (replicate 0x1F6 0))
      [[0xEF, 0, 0, 0, 0xAC, 0, 0, 0], 0xEF :: replicate 0x203 0] := by
  have hpending : ∀ packet ∈ (pendingState (replicate 0x1F6 0)).pending_fw,
      packet.Sendable := List.forall_mem_singleton.mpr List.length_replicate.le
  have hpacket : IsExchange (0xEF :: replicate 0x203 0) :=
    ⟨(rfl : lowByte 0xEF = _), congrArg (· + 1) List.length_replicate⟩
  exact lockstep_of_sendable rfl rfl hpending
    (List.forall_mem_cons.mpr ⟨⟨rfl, rfl⟩, List.forall_mem_singleton.mpr hpacket⟩)

/-- A packet with one byte more makes the assertion in the padding fail. -/
theorem not_lockstep :
    ¬ Lockstep (pendingState (replicate 0x1F7 0)) [0xEF :: replicate 0x203 0] := by
  rintro ⟨s', hreplies, -⟩
  have hfails : (replies transfer (pendingState (replicate 0x1F7 0))
      (0xEF :: replicate 0x203 0)).isSome = false := by
    decide +kernel
  rw [hreplies] at hfails
  cases hfails

end Inferno.MtSpi
