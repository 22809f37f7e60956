import Inferno.MtSpi.Model

/-!
# Frames and byte counts

What the controller does with a byte depends on little: on the bytes of the frame so far, and on how
many bytes wait in the transmit buffer and in the pending words of the boot protocol. `View` is that
part of the state, and `View.step` what a byte does to it, without memory and without failure. The
length of a frame is a function of its bytes (`frameLen`).

`View.Accepts` is what the next operation has to meet for the controller to go on: the header of a
command with data is not one of those whose length does not fit 16 bits
(`dataLen_lt_iff`), and no buffer has to hold `2^32` bytes.
-/

namespace Inferno.MtSpi

/-! ## The length of a frame -/

variable (rx : List UInt8)

/-- The length in the header of a command with data. -/
def headerWord : ℕ := 256 * (rx.getD 2 0).toNat + (rx.getD 3 0).toNat

/-- The length of a command with data, in 16 bits. -/
def dataLen : ℕ := (10 + headerWord rx * 4 % 2 ^ 16 + 4) % 2 ^ 16

variable {rx : List UInt8}

section

variable (rx : List UInt8)

/-- A command with data would be shorter than its header exactly when its length has one of two
values in its lower 14 bits. -/
theorem dataLen_lt_iff :
    dataLen rx < 10 ↔ headerWord rx % 2 ^ 14 = 0x3FFD ∨ headerWord rx % 2 ^ 14 = 0x3FFE := by
  unfold dataLen
  omega

/-- The length of the frame that begins with `rx`, as far as `n` bytes of it tell. -/
def frameLenAt (n : ℕ) : ℕ :=
  if rx.getD 0 0 = lowByte LL_PACKET_PREAMBLE then
    if 5 ≤ n ∧ ¬ IsStatus (rx.getD 4 0) then LL_PACKET_LEN else 8
  else if rx.getD 0 0 = HBPP_PACKET_DATA ∧ 10 ≤ n then dataLen rx
  else hbppPacketHdrLen (rx.getD 0 0)

/-- The length of the frame that begins with `rx`, as far as these bytes tell. -/
def frameLen : ℕ := frameLenAt rx rx.length

end

theorem hbppPacketHdrLen_bounds (val : UInt8) :
    2 ≤ hbppPacketHdrLen val ∧ hbppPacketHdrLen val ≤ 16 := by
  unfold hbppPacketHdrLen
  split_ifs <;> decide

section

variable (hfw : rx.getD 0 0 = lowByte LL_PACKET_PREAMBLE) {n : ℕ}

include hfw

theorem frameLenAt_fw (n : ℕ) :
    frameLenAt rx n = if 5 ≤ n ∧ ¬ IsStatus (rx.getD 4 0) then LL_PACKET_LEN else 8 := if_pos hfw

theorem frameLenAt_fw_of_lt (hn : n < 5) : frameLenAt rx n = 8 :=
  (frameLenAt_fw hfw n).trans (if_neg fun hboth => absurd hboth.1 hn.not_ge)

end

theorem frameLenAt_data (hdata : rx.getD 0 0 = HBPP_PACKET_DATA) (n : ℕ) :
    frameLenAt rx n = if 10 ≤ n then dataLen rx else 10 := by
  have hfw : rx.getD 0 0 ≠ lowByte LL_PACKET_PREAMBLE := by
    rw [hdata]
    decide
  unfold frameLenAt
  rw [if_neg hfw, hdata]
  exact if_congr (and_iff_right rfl) rfl rfl

theorem frameLenAt_hbpp (hfw : rx.getD 0 0 ≠ lowByte LL_PACKET_PREAMBLE) {n : ℕ}
    (hdata : rx.getD 0 0 = HBPP_PACKET_DATA → n < 10) :
    frameLenAt rx n = hbppPacketHdrLen (rx.getD 0 0) := by
  unfold frameLenAt
  rw [if_neg hfw]
  exact if_neg fun hboth => absurd hboth.2 (hdata hboth.1).not_ge

theorem frameLenAt_append (hrx : rx ≠ []) (b : UInt8) :
    frameLenAt (rx ++ [b]) rx.length = frameLen rx := by
  have hpos := List.length_pos_iff.mpr hrx
  have hget : ∀ k < rx.length, (rx ++ [b]).getD k 0 = rx.getD k 0 := fun k hk =>
    List.getD_append _ _ _ _ hk
  unfold frameLen frameLenAt dataLen headerWord
  rw [hget 0 hpos]
  by_cases hfour : 5 ≤ rx.length
  · rw [hget 2 (by omega), hget 3 (by omega), hget 4 (by omega)]
  · simp only [hfour]
    have hten : ¬ 10 ≤ rx.length := by omega
    simp [hten]

/-- The length as far as the bytes before the last told, which the receive buffer has as its
capacity when the last byte comes. -/
def lenBefore (rx : List UInt8) : ℕ := if rx.length = 1 then 1 else frameLenAt rx (rx.length - 1)

theorem lenBefore_append (hrx : rx ≠ []) (b : UInt8) : lenBefore (rx ++ [b]) = frameLen rx := by
  have hpos := List.length_pos_iff.mpr hrx
  have hlen : (rx ++ [b]).length = rx.length + 1 := List.length_append
  have hone : ¬ (rx ++ [b]).length = 1 := by omega
  rw [lenBefore, if_neg hone, hlen, Nat.add_sub_cancel, frameLenAt_append hrx]

/-! ## The view -/

/-- What the controller goes by. -/
structure View where
  rx : List UInt8
  /-- How many bytes are in the transmit buffer. -/
  tx : ℕ
  /-- How many of them the guest has taken. -/
  read : ℕ
  /-- How many bytes are pending of the boot protocol. -/
  pending : ℕ

namespace View

/-- Nothing has come and nothing waits. -/
def idle : View := ⟨[], 0, 0, 0⟩

variable (v : View)

/-- The next byte of the frame. -/
def push (b : UInt8) : View := { v with rx := v.rx ++ [b] }

/-- So many bytes more are pending. -/
def pend (k : ℕ) : View := { v with pending := v.pending + k }

/-- So many bytes more are to be transmitted. -/
def send (k : ℕ) : View := { v with tx := v.tx + k }

/-- What the last byte of a frame of the boot protocol does. -/
def handleHbpp : View :=
  let first := v.rx.getD 0 0
  if first = HBPP_PACKET_RESET then if v.rx.length = frameLen v.rx then v.pend 2 else v
  else if first = HBPP_PACKET_NOP then if v.rx.length = 1 ∧ v.tx = 0 then v.send 2 else v
  else if first = HBPP_PACKET_INT_ACK then
    if v.rx.length = 1 then { v.send v.pending with pending := 0 } else v
  else if first = HBPP_PACKET_MEM_READ then if v.rx.length = 1 then v.pend 8 else v
  else if first = HBPP_PACKET_MEM_RMW then if v.rx.length = frameLen v.rx then v.pend 2 else v
  else if first = HBPP_PACKET_REQ_CAL then if v.rx.length = 1 then v.pend 2 else v
  else if first = HBPP_PACKET_DATA then if v.rx.length = frameLen v.rx then v.pend 2 else v
  else v

/-- What the fifth byte of a packet of the firmware does: it is answered by a status or by a
packet. -/
def answerFw : View :=
  if v.rx.length = 5 then if IsStatus (v.rx.getD 4 0) then v.send 4 else v.send 0x200 else v

/-- What the last byte of a packet of the firmware does: the first is answered by the preamble. -/
def handleFw : View := if v.rx.length = 1 then v.send 4 else v.answerFw

/-- What the last byte of a frame does. -/
def handle : View :=
  if v.rx.getD 0 0 = lowByte LL_PACKET_PREAMBLE then v.handleFw else v.handleHbpp

/-- A frame ends when it is complete, and the guest takes a byte. -/
def finish : View where
  rx := if v.rx.length = frameLen v.rx then [] else v.rx
  tx := if v.read + 1 < v.tx then v.tx else 0
  read := if v.read + 1 < v.tx then v.read + 1 else 0
  pending := v.pending

/-- What an operation does. Touches do not count. -/
def step : Op → View
  | .transfer val => (v.push (lowByte val)).handle.finish
  | .reset => idle
  | _ => v

/-- The buffers have less than `2^32` bytes. -/
def Room : Prop := v.tx < 2 ^ 32 ∧ v.pending < 2 ^ 32

/-- The bytes are not the header of a command with data that would be shorter than its header. -/
def HeaderOk (rx : List UInt8) : Prop :=
  rx.getD 0 0 = HBPP_PACKET_DATA → rx.length = 10 →
    headerWord rx % 2 ^ 14 ≠ 0x3FFD ∧ headerWord rx % 2 ^ 14 ≠ 0x3FFE

/-- What an operation has to meet. -/
def Accepts : Op → Prop
  | .transfer val => HeaderOk (v.push (lowByte val)).rx ∧ (v.push (lowByte val)).handle.Room
  | _ => True

theorem handle_keeps : v.handle.rx = v.rx ∧ v.handle.read = v.read ∧ v.tx ≤ v.handle.tx := by
  repeat' refine iteInduction (motive := fun w : View =>
    w.rx = v.rx ∧ w.read = v.read ∧ v.tx ≤ w.tx) (fun _ => ?_) fun _ => ?_
  all_goals first | exact ⟨rfl, rfl, le_rfl⟩ | exact ⟨rfl, rfl, Nat.le_add_right _ _⟩

theorem length_le_frameLen {rx : List UInt8} (hok : HeaderOk rx)
    (hle : rx.length ≤ lenBefore rx) : rx.length ≤ frameLen rx := by
  unfold lenBefore at hle
  unfold frameLen
  by_cases hfw : rx.getD 0 0 = lowByte LL_PACKET_PREAMBLE
  · have hlong : LL_PACKET_LEN = 0x204 := rfl
    rw [frameLenAt_fw hfw] at hle ⊢
    by_cases hstatus : IsStatus (rx.getD 4 0)
    · have hshort : ∀ n, ¬ (5 ≤ n ∧ ¬ IsStatus (rx.getD 4 0)) := fun _ hboth => hboth.2 hstatus
      rw [if_neg (hshort _)] at hle ⊢
      split_ifs at hle <;> omega
    · rw [if_congr (and_iff_left hstatus) rfl rfl] at ⊢
      split_ifs at hle ⊢ <;> omega
  by_cases hdata : rx.getD 0 0 = HBPP_PACKET_DATA
  · -- The header gives a length that is not below its own.
    have hten : rx.length = 10 → ¬ dataLen rx < 10 := by
      intro hheader hlt
      have hbad := (dataLen_lt_iff rx).mp hlt
      exact hbad.elim (hok hdata hheader).1 (hok hdata hheader).2
    rw [frameLenAt_data hdata] at hle ⊢
    split_ifs at hle ⊢ <;> omega
  · have hhdr := (hbppPacketHdrLen_bounds (rx.getD 0 0)).1
    have hlen : ∀ n, frameLenAt rx n = hbppPacketHdrLen (rx.getD 0 0) := fun _ =>
      frameLenAt_hbpp hfw fun hheader => absurd hheader hdata
    rw [hlen] at hle ⊢
    split_ifs at hle <;> omega

instance (v : View) : Decidable v.Room := inferInstanceAs (Decidable (_ ∧ _))

instance (rx : List UInt8) : Decidable (HeaderOk rx) :=
  inferInstanceAs (Decidable (_ → _ → _ ∧ _))

instance (v : View) : ∀ op, Decidable (v.Accepts op)
  | .transfer _ => inferInstanceAs (Decidable (_ ∧ _))
  | .mouseEvent _ _ _ _ | .timerTick _ | .endTimerTick _ | .touchUpdate _ | .reset =>
    .isTrue trivial

end View

end Inferno.MtSpi
