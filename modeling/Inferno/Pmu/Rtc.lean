import Inferno.Common.Bytes
import Inferno.Pmu.Burst

/-!
# Real-time clocks of the power management units

The clocks of the SPMI unit (`apple_rtc_ns_to_tick`) and of the D2255 on the I2C bus
(`rtc_get_tick`) count ticks, 32768 to a second. Both put the seconds above fifteen bits of ticks in
the second, and compute the two parts separately.

The SPMI unit rounds the ticks, so the last half tick of a second rounds up to 32768, which is cut
to zero without a carry to the seconds. The D2255 divides the whole time by a period that is rounded
down, so its ticks wrap every 999981056 nanoseconds and not with the second. So both run backwards
within some seconds (`nsToTick_lt_iff`, `d2255_clock_iff`), and that of the SPMI unit from one
second to the next where the beginning of the first is below its offset (`spmi_clock_iff`).

The registers hold the tick shifted left by one in six bytes. A burst that reads all of them reads
bytes of the same tick, and these encode it as long as it has no more than 47 bits
(`ofLe_rtcBytes`).
-/

namespace Inferno.Pmu

open Common BitVec List Nat

/-! ## The D2255 -/

inductive PMUOpState where
  | none | recv | send
  deriving DecidableEq

inductive PMUAddrState where
  | upper | lower | received
  deriving DecidableEq

def frqToPeriodNs (freqHz : BitVec 32) : BitVec 32 :=
  if 1000000000 > freqHz then 1000000000 / freqHz else 1

/-- `PMUD2255State`, as far as reads use it. -/
structure PMUD2255State where
  /-- The registers, of which there are `0x8800`. -/
  reg : ℕ → UInt8
  tickPeriod : BitVec 32
  /-- The time at which the clock was zero. -/
  rtcOffset : BitVec 64
  /-- What the transaction does. -/
  opState : PMUOpState
  /-- How much of the address has been sent. -/
  addressState : PMUAddrState
  address : BitVec 16
  /-- The length of a tick is that of 32768 ticks in a second. -/
  tickPeriod_eq : tickPeriod = frqToPeriodNs 32768

variable (s : PMUD2255State) (now : BitVec 64)

def rtcGetTick : BitVec 64 :=
  let now := now - s.rtcOffset
  ((now / 1000000000) <<< 15) ||| ((now / s.tickPeriod.setWidth 64) &&& 0x7FFF)

/-- `REG_RTC_SUB_SECOND_A`, the first of the six registers of the clock. -/
def regRtcSubSecondA : ℕ := 0x502

/-- The clock is refreshed when its first register is read. -/
def refreshD2255 : PMUD2255State :=
  if s.address.toNat = regRtcSubSecondA then
    { s with reg := fun i =>
        if regRtcSubSecondA ≤ i then
          (rtcBytes (rtcGetTick s now)).getD (i - regRtcSubSecondA) (s.reg i)
        else s.reg i }
  else s

/-- `pmu_d2255_rx`: the byte and the state after it. -/
def pmuD2255Rx : UInt8 × PMUD2255State :=
  if s.opState ≠ .recv then (0, s)
  else if s.addressState ≠ .received then (0, s)
  else if s.address.toNat ≥ 0x8800 then (0, s)
  else
    let s := refreshD2255 s now
    (s.reg s.address.toNat, { s with address := s.address + 1 })

/-- The state after `k` bytes of a read, which come at the times of `clock`. -/
def rxState (clock : ℕ → BitVec 64) (s : PMUD2255State) : ℕ → PMUD2255State
  | 0 => s
  | k + 1 => (pmuD2255Rx (rxState clock s k) (clock k)).2

variable (clock : ℕ → BitVec 64)

/-- The byte at an index of a read. -/
def rxByte (s : PMUD2255State) (k : ℕ) : UInt8 :=
  (pmuD2255Rx (rxState clock s k) (clock k)).1

/-! ## Ticks -/

variable {s : PMUD2255State} {t1 t2 : BitVec 64} {pmu : AppleSPMIPMUState} (tick : BitVec 64)

theorem toNat_secs_or_ticks {secs ticks : BitVec 64} (h : secs.toNat < 2^49) :
    ((secs <<< 15) ||| (ticks &&& 0x7FFF)).toNat = secs.toNat * 2^15 + ticks.toNat % 2^15 := by
  have hmask : (ticks &&& 0x7FFF).toNat = ticks.toNat % 2^15 := by
    exact and_two_pow_sub_one_eq_mod ticks.toNat 15
  have hshift : (secs <<< 15).toNat = secs.toNat <<< 15 := by
    rw [toNat_shiftLeft]
    omega
  have hlt : ticks.toNat % 2^15 < 2^15 := mod_lt _ (by decide)
  rw [toNat_or, hmask, hshift, ← shiftLeft_add_eq_or_of_lt hlt, Nat.shiftLeft_eq]

theorem toNat_secs_lt : (now / 1000000000).toNat < 2^49 := by
  show now.toNat / 1000000000 < 2^49
  omega

theorem toNat_nsToTick : (nsToTick now).toNat = now.toNat / 1000000000 * 2^15 +
      (now.toNat % 1000000000 * 32768 + 500000000) / 1000000000 % 2^15 := by
  have hfrac : (now % 1000000000).toNat = now.toNat % 1000000000 := toNat_umod
  have hround : (now % 1000000000 * 32768 + 1000000000 / 2).toNat =
      now.toNat % 1000000000 * 32768 + 500000000 := by
    have hhalf : ((1000000000 : BitVec 64) / 2).toNat = 500000000 := rfl
    have hfreq : (32768 : BitVec 64).toNat = 32768 := rfl
    rw [toNat_add, toNat_mul, hfrac, hhalf, hfreq, mod_eq_of_lt (by omega),
      mod_eq_of_lt (by omega)]
  rw [nsToTick, toNat_secs_or_ticks (toNat_secs_lt now), toNat_udiv, toNat_udiv, hround]
  rfl

theorem toNat_tickPeriod (s : PMUD2255State) : (s.tickPeriod.setWidth 64).toNat = 30517 := by
  rw [s.tickPeriod_eq]
  rfl

/-- The ticks of the D2255, by the time since its offset. -/
theorem toNat_rtcGetTick {now : BitVec 64} (h : s.rtcOffset ≤ now) :
    (rtcGetTick s now).toNat = (now.toNat - s.rtcOffset.toNat) / 1000000000 * 2^15 +
      (now.toNat - s.rtcOffset.toNat) / 30517 % 2^15 := by
  have hsub : (now - s.rtcOffset).toNat = now.toNat - s.rtcOffset.toNat :=
    toNat_sub_of_le h
  rw [rtcGetTick, toNat_secs_or_ticks (toNat_secs_lt _), toNat_udiv, toNat_udiv,
    toNat_tickPeriod, hsub]
  rfl

/-! ## Running backwards -/

/-- Between two times of a second, the first of them a tick or more into it, rounding has carried
the ticks past the end of the second. -/
structure RoundsOver (t1 t2 : ℕ) : Prop where
  /-- The times are in the same second. -/
  second : t1 / 1000000000 = t2 / 1000000000
  /-- The first one does not round to its beginning. -/
  started : 15259 ≤ t1 % 1000000000
  /-- It does not round to its end. -/
  notOver : t1 % 1000000000 < 999984742
  /-- The second one rounds to its end. -/
  rounded : 999984742 ≤ t2 % 1000000000

/-- The first of two times is in the last half tick of a second, whose beginning is before the
offset, and the other one is in a later second. -/
structure WrapsBelow (offset t1 t2 : ℕ) : Prop where
  /-- The first time rounds to the end of its second. -/
  rounded : 999984742 ≤ t1 % 1000000000
  /-- The offset is after the beginning of that second. -/
  below : t1 / 1000000000 * 2^15 < offset
  /-- The second time is in a later one. -/
  later : t1 / 1000000000 < t2 / 1000000000

theorem roundedTicks_mod {frac : ℕ} (h : frac < 1000000000) :
    (frac * 32768 + 500000000) / 1000000000 % 2^15 =
      if frac < 999984742 then (frac * 32768 + 500000000) / 1000000000 else 0 := by
  split_ifs with hover
  · have hlt : (frac * 32768 + 500000000) / 1000000000 < 2^15 := by omega
    exact mod_eq_of_lt hlt
  · have hfull : (frac * 32768 + 500000000) / 1000000000 = 2^15 := by omega
    rw [hfull, mod_self]

theorem nsToTick_lt_iff (h : t1 ≤ t2) :
    nsToTick t2 < nsToTick t1 ↔ RoundsOver t1.toNat t2.toNat := by
  have hle : t1.toNat ≤ t2.toNat := h
  have hmod1 : t1.toNat % 1000000000 < 1000000000 := mod_lt _ (by decide)
  have hmod2 : t2.toNat % 1000000000 < 1000000000 := mod_lt _ (by decide)
  rw [lt_def, toNat_nsToTick, toNat_nsToTick, roundedTicks_mod hmod1, roundedTicks_mod hmod2]
  constructor
  · intro hlt
    split_ifs at hlt with hover1
    · omega
    · omega
    · exact ⟨by omega, by omega, by omega, by omega⟩
    · omega
  · rintro ⟨hsecond, hstarted, hnot, hover⟩
    rw [if_neg (by omega), if_pos (by omega)]
    omega

/-- In the last half tick of a second the tick is that of its beginning. -/
theorem toNat_nsToTick_of_rounded {t : BitVec 64} (h : 999984742 ≤ t.toNat % 1000000000) :
    (nsToTick t).toNat = t.toNat / 1000000000 * 2^15 := by
  have hmod : t.toNat % 1000000000 < 1000000000 := mod_lt _ (by decide)
  rw [toNat_nsToTick, roundedTicks_mod hmod, if_neg (by omega), add_zero]

/-- The tick is at least an offset that is not after the time, but in the last half tick of a
second. -/
theorem le_nsToTick {t : BitVec 64} {offset : ℕ} (h : offset * 1000000000 ≤ t.toNat * 32768)
    (hnot : t.toNat % 1000000000 < 999984742) : offset ≤ (nsToTick t).toNat := by
  have hmod : t.toNat % 1000000000 < 1000000000 := mod_lt _ (by decide)
  rw [toNat_nsToTick, roundedTicks_mod hmod, if_pos hnot]
  omega

/-- From a time on that is not before the offset, the clock of the SPMI unit goes back exactly if
the ticks do, with an offset that is not after the beginning of the second, or if it has wrapped
below the offset. -/
theorem spmi_clock_iff (h : t1 ≤ t2)
    (hoffset : (appleSpmiPmuGetTickOffset pmu).toNat * 1000000000 ≤ t1.toNat * 32768) :
    appleRtcNsToTick pmu t1 ≤ appleRtcNsToTick pmu t2 ↔ ¬ (RoundsOver t1.toNat t2.toNat ∧
        (appleSpmiPmuGetTickOffset pmu).toNat ≤ t2.toNat / 1000000000 * 2^15) ∧
      ¬ WrapsBelow (appleSpmiPmuGetTickOffset pmu).toNat t1.toNat t2.toNat := by
  have hback := nsToTick_lt_iff h
  have hle : t1.toNat ≤ t2.toNat := h
  have hsub (t : BitVec 64) : (appleRtcNsToTick pmu t).toNat =
      (2^64 - (appleSpmiPmuGetTickOffset pmu).toNat + (nsToTick t).toNat) % 2^64 := toNat_sub _ _
  have hlt (t : BitVec 64) : (nsToTick t).toNat < 2^64 := isLt _
  rw [le_def, hsub, hsub]
  generalize (appleSpmiPmuGetTickOffset pmu).toNat = offset at hoffset
  by_cases hrounded : 999984742 ≤ t1.toNat % 1000000000
  · -- The first time has the tick of the beginning of its second.
    have htick1 := toNat_nsToTick_of_rounded hrounded
    have hnot : ¬ RoundsOver t1.toNat t2.toNat := fun hover => by
      have := hover.notOver
      omega
    have hmono : (nsToTick t1).toNat ≤ (nsToTick t2).toNat :=
      Nat.le_of_not_lt fun hgoes => hnot (hback.mp hgoes)
    have hwraps : WrapsBelow offset t1.toNat t2.toNat ↔
        (nsToTick t1).toNat < offset ∧
          t1.toNat / 1000000000 < t2.toNat / 1000000000 := by
      rw [htick1]
      exact ⟨fun hw => ⟨hw.below, hw.later⟩, fun hw => ⟨hrounded, hw.1, hw.2⟩⟩
    have hlater : t1.toNat / 1000000000 = t2.toNat / 1000000000 ∧
        (nsToTick t2).toNat = (nsToTick t1).toNat ∨ t1.toNat / 1000000000 < t2.toNat / 1000000000 ∧
          (nsToTick t1).toNat + 2^15 ≤ (nsToTick t2).toNat := by
      by_cases hsecond : t1.toNat / 1000000000 = t2.toNat / 1000000000
      · have htick2 := toNat_nsToTick_of_rounded (t := t2) (by omega)
        omega
      · have htick2 := toNat_nsToTick t2
        omega
    rw [hwraps, and_iff_right fun hboth => hnot hboth.1]
    omega
  · have hfirst := le_nsToTick hoffset (by omega)
    have hwraps : ¬ WrapsBelow offset t1.toNat t2.toNat :=
      fun hw => hrounded hw.rounded
    rw [and_iff_left hwraps]
    by_cases hover : RoundsOver t1.toNat t2.toNat
    · have hgoes : (nsToTick t2).toNat < (nsToTick t1).toNat := hback.mpr hover
      rw [and_iff_right hover, ← toNat_nsToTick_of_rounded hover.rounded]
      -- From a later offset the difference wraps, and is larger than any tick.
      omega
    · have hstays : ¬ (nsToTick t2).toNat < (nsToTick t1).toNat := fun hlt => hover (hback.mp hlt)
      refine iff_of_true ?_ fun hboth => hover hboth.1
      omega

/-- The clock of the D2255 goes on from one second to the next, and within a second as long as the
ticks modulo 32768 do. -/
theorem d2255_clock_iff (h : t1 ≤ t2) (hoffset : s.rtcOffset ≤ t1) :
    rtcGetTick s t1 ≤ rtcGetTick s t2 ↔
      ((t1.toNat - s.rtcOffset.toNat) / 1000000000 = (t2.toNat - s.rtcOffset.toNat) / 1000000000 →
        (t1.toNat - s.rtcOffset.toNat) / 30517 % 2^15 ≤
          (t2.toNat - s.rtcOffset.toNat) / 30517 % 2^15) := by
  have hle : t1.toNat ≤ t2.toNat := h
  rw [le_def, toNat_rtcGetTick hoffset, toNat_rtcGetTick (BitVec.le_trans hoffset h)]
  omega

/-! ## The registers of the clock -/

/-- Six bytes that encode a number. -/
structure Encodes (bytes : List UInt8) (n : ℕ) : Prop where
  length : bytes.length = 6
  value : ofLe bytes = n

/-- The bytes in the registers are the low 48 bits of the tick shifted left by one. -/
theorem ofLe_rtcBytes : ofLe (rtcBytes tick) = 2 * tick.toNat % 2^48 := by
  have hmask : ∀ w : BitVec 64, (UInt8.ofBitVec ((w &&& 0xFF).setWidth 8)).toNat =
      w.toNat % 256 := by
    intro w
    have hand : (w &&& 0xFF).toNat = w.toNat % 256 := by
      exact and_two_pow_sub_one_eq_mod w.toNat 8
    show ((w &&& 0xFF).setWidth 8).toNat = _
    rw [toNat_setWidth]
    omega
  simp only [rtcBytes, map_cons, map_nil, ofLe, hmask, toNat_shiftLeft,
    toNat_ushiftRight]
  omega

theorem encodes_rtcBytes_iff : Encodes (rtcBytes tick) (2 * tick.toNat) ↔ tick.toNat < 2^47 := by
  have hvalue := ofLe_rtcBytes tick
  constructor
  · rintro ⟨-, hencodes⟩
    omega
  · intro hlt
    exact ⟨rfl, by omega⟩

theorem setRtc_reg (pmu : AppleSPMIPMUState) {tick : BitVec 64} :
    (range 6).map (fun j => (setRtc pmu tick).reg (pmu.offsets.rtc + j)) = rtcBytes tick := by
  simp [setRtc, rtcBytes, AppleSPMIPMUState.setReg, range_succ]

/-- The six bytes of the clock in what a read burst has filled in. -/
def rtcOf (pmu : AppleSPMIPMUState) (st : RecvState) : List UInt8 :=
  ((st.fills.map Prod.snd).drop (pmu.offsets.rtc - pmu.addr.toNat)).take 6

section

variable {len : BitVec 8} {now : BitVec 64} (hfirst : pmu.addr.toNat ≤ pmu.offsets.rtc)
  (hlast : pmu.offsets.rtc + 6 ≤ pmu.addr.toNat + len.toNat)

include hfirst hlast

/-- The registers that a read burst without a wrap has filled in at the place of the clock. -/
theorem rtcOf_eq (hend : pmu.addr.toNat + len.toNat < 2^16) {fuel : ℕ} {st : RecvState}
    (h : appleSpmiPmuRecv fuel pmu now len = some (len.toNat, st)) :
    rtcOf pmu st = rtcBytes (appleRtcNsToTick pmu now) := by
  have hrefresh : refreshRtc pmu now len = setRtc pmu (appleRtcNsToTick pmu now) := by
    rw [refreshRtc, addr_add_len, toNat_addr_add hend, if_pos (by omega)]
  have hfills : st.fills = (range len.toNat).map fun k : ℕ =>
      ((k : ℤ), (refreshRtc pmu now len).reg (pmu.addr.toNat + k)) := by
    have hunique := recv_unique h (recv_eq now hend)
    rw [hunique]
  rw [rtcOf, hfills, hrefresh, ← setRtc_reg pmu]
  apply ext_getElem
  · simp
    omega
  · intro j h1 h2
    have hidx : pmu.addr.toNat + (pmu.offsets.rtc - pmu.addr.toNat + j) = pmu.offsets.rtc + j := by
      omega
    simp [hidx]

/-- A read burst over all registers of the clock encodes the tick exactly if the burst ends below
`2^16` and the tick has no more than 47 bits. -/
theorem spmi_burst_encodes_iff (now : BitVec 64) :
    (∃ fuel st, appleSpmiPmuRecv fuel pmu now len = some (len.toNat, st) ∧
      Encodes (rtcOf pmu st) (2 * (appleRtcNsToTick pmu now).toNat)) ↔
    pmu.addr.toNat + len.toNat < 2^16 ∧ (appleRtcNsToTick pmu now).toNat < 2^47 := by
  by_cases hend : pmu.addr.toNat + len.toNat < 2^16
  · rw [and_iff_right hend, ← encodes_rtcBytes_iff]
    constructor
    · rintro ⟨fuel, st, hrecv, hencodes⟩
      rwa [rtcOf_eq hfirst hlast hend hrecv] at hencodes
    · intro hencodes
      have hrecv := recv_eq now hend
      exact ⟨len.toNat + 1, _, hrecv, by rwa [rtcOf_eq hfirst hlast hend hrecv]⟩
  · refine iff_of_false ?_ fun hboth => hend hboth.1
    rintro ⟨fuel, st, hrecv, hencodes⟩
    -- Nothing was filled in.
    have hunique := recv_unique hrecv (recv_wraps now (Nat.le_of_not_lt hend) 0)
    rw [hunique] at hencodes
    have hlength := hencodes.length
    simp [rtcOf] at hlength

end

/-- A D2255 that is being read from a register on. -/
structure Reading (s : PMUD2255State) (a : ℕ) : Prop where
  op : s.opState = .recv
  received : s.addressState = .received
  address : s.address.toNat = a
  inside : a < 0x8800

theorem pmuD2255Rx_of_ne {a : ℕ} (h : Reading s a) (hne : a ≠ regRtcSubSecondA) (now : BitVec 64) :
    pmuD2255Rx s now = (s.reg a, { s with address := s.address + 1 }) := by
  have hinside := h.inside
  rw [pmuD2255Rx, if_neg (not_not.mpr h.op), if_neg (not_not.mpr h.received), h.address,
    if_neg (by omega), refreshD2255, h.address, if_neg hne]
  dsimp only
  rw [h.address]

theorem pmuD2255Rx_clock (h : Reading s regRtcSubSecondA) (now : BitVec 64) :
    pmuD2255Rx s now = ((refreshD2255 s now).reg regRtcSubSecondA,
      { refreshD2255 s now with address := s.address + 1 }) := by
  have haddr : (refreshD2255 s now).address = s.address := by
    rw [refreshD2255]
    split_ifs <;> rfl
  rw [pmuD2255Rx, if_neg (not_not.mpr h.op), if_neg (not_not.mpr h.received), h.address,
    if_neg (by decide)]
  dsimp only
  rw [haddr, h.address]

/-- As long as the registers of a read are not the first of the clock, the address moves on and
nothing else changes. -/
theorem rxState_of_ne {a : ℕ} (h : Reading s a) (clock : ℕ → BitVec 64) {k : ℕ}
    (hne : ∀ j < k, a + j ≠ regRtcSubSecondA) (hk : a + k < 0x8800) :
    rxState clock s k = { s with address := s.address + BitVec.ofNat 16 k } := by
  induction k with
  | zero => simp [rxState]
  | succ k ih =>
    have hstate := ih (fun j hj => hne j (lt_succ_of_lt hj)) (by omega)
    have hreading : Reading { s with address := s.address + BitVec.ofNat 16 k } (a + k) := by
      refine ⟨h.op, h.received, ?_, by omega⟩
      have haddr := h.address
      exact (toNat_addr_add (by omega)).trans (by rw [haddr])
    rw [rxState, hstate, pmuD2255Rx_of_ne hreading (hne k (lt_succ_self k))]
    rw [addr_add_succ]

/-- A read goes on from the state it has reached. -/
theorem rxState_add (clock : ℕ → BitVec 64) (s : PMUD2255State) (m n : ℕ) :
    rxState clock s (m + n) = rxState (fun i => clock (m + i)) (rxState clock s m) n := by
  induction n with
  | zero => rfl
  | succ n ih =>
    rw [← add_assoc, rxState, rxState, ih]

/-- The bytes of a read at the registers of the clock are those of one tick, that of the time at
which the first of them was read. -/
theorem rxByte_clock (h : Reading s regRtcSubSecondA) (clock : ℕ → BitVec 64) {j : ℕ} (hj : j < 6) :
    rxByte clock s j = (refreshD2255 s (clock 0)).reg (regRtcSubSecondA + j) := by
  cases j with
  | zero => rw [rxByte, rxState, pmuD2255Rx_clock h, add_zero]
  | succ j =>
    have haddr := h.address
    have hop : (refreshD2255 s (clock 0)).opState = .recv := by
      rw [refreshD2255, if_pos haddr]
      exact h.op
    have hreceived : (refreshD2255 s (clock 0)).addressState = .received := by
      rw [refreshD2255, if_pos haddr]
      exact h.received
    -- Behind the first register the clock is not refreshed again.
    have hreading : Reading { refreshD2255 s (clock 0) with address := s.address + 1 }
        (regRtcSubSecondA + 1) :=
      ⟨hop, hreceived, (toNat_addr_add (k := 1) (by rw [haddr]; decide)).trans (by rw [haddr]),
        by decide⟩
    have hfirst : rxState clock s 1 =
        { refreshD2255 s (clock 0) with address := s.address + 1 } := by
      rw [rxState, rxState, pmuD2255Rx_clock h]
    have hnext : Reading { refreshD2255 s (clock 0) with
        address := s.address + 1 + BitVec.ofNat 16 j } (regRtcSubSecondA + 1 + j) := by
      refine ⟨hop, hreceived, ?_, ?_⟩
      · have haddr' := hreading.address
        rw [toNat_addr_add (by rw [haddr', regRtcSubSecondA]; omega), haddr']
      · rw [regRtcSubSecondA]
        omega
    rw [rxByte, Nat.add_comm j 1, rxState_add, hfirst, rxState_of_ne hreading _
      (fun i _ => by omega) (by rw [regRtcSubSecondA]; omega), pmuD2255Rx_of_ne hnext (by omega),
      Nat.add_assoc]

/-- The six bytes of the clock in a read that starts at or before them. -/
def rxClock (s : PMUD2255State) : List UInt8 :=
  (range 6).map fun j => rxByte clock s (regRtcSubSecondA - s.address.toNat + j)

theorem rxClock_eq {a : ℕ} (h : Reading s a) (ha : a ≤ regRtcSubSecondA) (clock : ℕ → BitVec 64) :
    rxClock clock s = rtcBytes (rtcGetTick s (clock (regRtcSubSecondA - s.address.toNat))) := by
  have haddr := h.address
  have hsum : a + (regRtcSubSecondA - a) = regRtcSubSecondA := by omega
  have hstate := rxState_of_ne h clock (k := regRtcSubSecondA - a) (fun j hj => by omega)
    (by rw [hsum]; decide)
  have hreading : Reading (rxState clock s (regRtcSubSecondA - a)) regRtcSubSecondA := by
    rw [hstate]
    refine ⟨h.op, h.received, ?_, by decide⟩
    rw [toNat_addr_add (by rw [haddr, hsum]; decide), haddr, hsum]
  have hbyte : ∀ j < 6, rxByte clock s (regRtcSubSecondA - a + j) =
      (rtcBytes (rtcGetTick s (clock (regRtcSubSecondA - a)))).getD j 0 := by
    intro j hj
    have hlength : j < (rtcBytes (rtcGetTick s (clock (regRtcSubSecondA - a)))).length := hj
    have hrx := rxByte_clock hreading (fun i => clock (regRtcSubSecondA - a + i)) hj
    rw [rxByte, ← rxState_add] at hrx
    rw [rxByte, hrx, refreshD2255, if_pos hreading.address, hstate]
    dsimp only
    rw [if_pos (le_add_right _ _), Nat.add_sub_cancel_left]
    exact (getD_eq_getElem _ _ hlength).trans (getD_eq_getElem _ _ hlength).symm
  rw [rxClock, haddr]
  exact map_congr_left fun j hj => hbyte j (mem_range.mp hj)

/-! ## Both units -/

/-- From a time on that is not before the offset, the clock of the SPMI unit goes back exactly where
rounding has carried its ticks past the end of a second, unless the offset is in that second, and
where it leaves such a last half tick with the offset in that second; that of the D2255 goes back
exactly where its ticks wrap within a second. What a burst reads from the six
registers of a clock is the tick shifted left by one, exactly as long as that has 48 bits and the
burst of the SPMI unit ends in front of the last register. -/
theorem pmu_clocks_iff (pmu : AppleSPMIPMUState) (s : PMUD2255State) {t1 t2 : BitVec 64}
    (hle : t1 ≤ t2)
    (hpmu : (appleSpmiPmuGetTickOffset pmu).toNat * 1000000000 ≤ t1.toNat * 32768)
    (hs : s.rtcOffset ≤ t1) :
    (appleRtcNsToTick pmu t1 ≤ appleRtcNsToTick pmu t2 ↔ ¬ (RoundsOver t1.toNat t2.toNat ∧
        (appleSpmiPmuGetTickOffset pmu).toNat ≤ t2.toNat / 1000000000 * 2^15) ∧
      ¬ WrapsBelow (appleSpmiPmuGetTickOffset pmu).toNat t1.toNat t2.toNat) ∧
    (rtcGetTick s t1 ≤ rtcGetTick s t2 ↔
      ((t1.toNat - s.rtcOffset.toNat) / 1000000000 = (t2.toNat - s.rtcOffset.toNat) / 1000000000 →
        (t1.toNat - s.rtcOffset.toNat) / 30517 % 2^15 ≤
          (t2.toNat - s.rtcOffset.toNat) / 30517 % 2^15)) ∧
    (∀ (len : BitVec 8) (now : BitVec 64), pmu.addr.toNat ≤ pmu.offsets.rtc →
      pmu.offsets.rtc + 6 ≤ pmu.addr.toNat + len.toNat →
      ((∃ fuel st, appleSpmiPmuRecv fuel pmu now len = some (len.toNat, st) ∧
        Encodes (rtcOf pmu st) (2 * (appleRtcNsToTick pmu now).toNat)) ↔
      pmu.addr.toNat + len.toNat < 2^16 ∧ (appleRtcNsToTick pmu now).toNat < 2^47)) ∧
    ∀ (clock : ℕ → BitVec 64) (a : ℕ), Reading s a → a ≤ regRtcSubSecondA →
      (Encodes (rxClock clock s)
        (2 * (rtcGetTick s (clock (regRtcSubSecondA - s.address.toNat))).toNat) ↔
      (rtcGetTick s (clock (regRtcSubSecondA - s.address.toNat))).toNat < 2^47) := by
  refine ⟨spmi_clock_iff hle hpmu, d2255_clock_iff hle hs, ?_, ?_⟩
  · intro len now hfirst hlast
    exact spmi_burst_encodes_iff hfirst hlast now
  · intro clock a hreading ha
    rw [rxClock_eq hreading ha]
    exact encodes_rtcBytes_iff _

/-- A unit with cleared registers whose next burst starts at the clock. -/
def atClock : AppleSPMIPMUState :=
  { lastRegister with addr := 0x200 }

/-- A D2255 whose clock started at zero, about to be read from the clock on. -/
def d2255AtClock : PMUD2255State where
  reg _ := 0
  tickPeriod := frqToPeriodNs 32768
  rtcOffset := 0
  opState := .recv
  addressState := .received
  address := 0x502
  tickPeriod_eq := rfl

/-- From the first to the second half of the first second, neither of the clocks goes back, and both
are read in one burst. -/
theorem pmu_clocks_iff_halves : appleRtcNsToTick atClock 1 ≤ appleRtcNsToTick atClock 500000001 ∧
    rtcGetTick d2255AtClock 1 ≤ rtcGetTick d2255AtClock 500000001 ∧
    (∃ fuel st, appleSpmiPmuRecv fuel atClock 500000001 6 = some (6, st) ∧
      Encodes (rtcOf atClock st) (2 * (appleRtcNsToTick atClock 500000001).toNat)) ∧
    Encodes (rxClock (fun _ => 500000001) d2255AtClock)
      (2 * (rtcGetTick d2255AtClock 500000001).toNat) := by
  obtain ⟨hspmi, hd2255, hburst, hread⟩ := pmu_clocks_iff atClock d2255AtClock
    (show (1 : BitVec 64) ≤ 500000001 by decide) (by decide) (by decide)
  refine ⟨hspmi.mpr ?_, hd2255.mpr (fun _ => by decide), ?_, ?_⟩
  · refine ⟨?_, fun hwraps => absurd hwraps.rounded (by decide)⟩
    rintro ⟨hover, -⟩
    exact absurd hover.started (by decide)
  · exact (hburst 6 500000001 (by decide) (by decide)).mpr ⟨by decide, by decide⟩
  · exact (hread (fun _ => 500000001) 0x502 ⟨rfl, rfl, rfl, by decide⟩ (by decide)).mpr (by decide)

/-- Within the first second, one nanosecond takes the clock of the SPMI unit from 32767 ticks back
to none, and another one takes that of the D2255 there. -/
theorem pmu_clocks_go_back : (appleRtcNsToTick atClock 999984741).toNat = 32767 ∧
    (appleRtcNsToTick atClock 999984742).toNat = 0 ∧
    (rtcGetTick d2255AtClock 999981055).toNat = 32767 ∧
    (rtcGetTick d2255AtClock 999981056).toNat = 0 := by
  decide

end Inferno.Pmu
