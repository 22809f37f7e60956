import Mathlib.Algebra.Group.Nat.Defs
import Mathlib.Data.List.Basic
import Inferno.Common.Loop

/-!
# Bursts of the SPMI PMU

The registers of the power management unit of `hw/misc/apple-silicon/spmi-pmu.c`. A command sets an
address of sixteen bits, and the bursts that follow it write or read one register after another from
there (`appleSpmiPmuSend`, `appleSpmiPmuRecv`). A read that touches the real-time clock refreshes it
first, and a write to the alarm sets the timer.

The loop variable of both bursts has sixteen bits. A write compares it with a sum of more bits. When
that sum does not fit, the comparison holds forever and the burst does not end; it goes on writing
registers and reading bytes in front of the buffer. A read compares it with the sum cut to sixteen
bits, and ends at once. So a burst is right exactly if its end is below `2^16`
(`spmi_pmu_bursts_iff`).

The offsets of the special registers are those of a device tree that puts them inside the register
file. The time is an argument, since the clock of the host is read during a burst.
-/

namespace Inferno.Pmu

open Common List Function Nat
open BitVec (ofInt ofNat toNat_add)

/-! ## Registers -/

/-- The offsets of the special registers. -/
structure Offsets where
  /-- The scratch pad with the offset of the clock. -/
  legScrpad : ℕ
  rtc : ℕ
  rtcIrqMask : ℕ
  alarm : ℕ
  /-- The control register of the alarm. -/
  alarmCtrl : ℕ
  alarmEvent : ℕ
  /-- The scratch pad is inside the register file. -/
  legScrpad_le : legScrpad + 23 ≤ 0x10000
  rtc_le : rtc + 6 ≤ 0x10000
  rtcIrqMask_lt : rtcIrqMask < 0x10000
  alarm_le : alarm + 4 ≤ 0x10000
  alarmCtrl_lt : alarmCtrl < 0x10000
  alarmEvent_lt : alarmEvent < 0x10000

structure AppleSPMIPMUState where
  irq : Bool
  /-- When the timer expires, if it is set. -/
  timer : Option (BitVec 64)
  offsets : Offsets
  reg : ℕ → UInt8
  /-- The address that the next burst starts at. -/
  addr : BitVec 16

variable (pmu : AppleSPMIPMUState)

/-- A register as a word of 64 bits. -/
def AppleSPMIPMUState.byte (i : ℕ) : BitVec 64 :=
  (pmu.reg i).toBitVec.setWidth 64

/-- A register is written. -/
def AppleSPMIPMUState.setReg (i : ℕ) (b : UInt8) : AppleSPMIPMUState :=
  { pmu with reg := Function.update pmu.reg i b }

/-! ## The clock -/

def appleSpmiPmuGetTickOffset : BitVec 64 :=
  let secsReg := pmu.offsets.legScrpad + 4
  let ticksReg := pmu.offsets.legScrpad + 21
  (pmu.byte (secsReg + 3) <<< 39) ||| (pmu.byte (secsReg + 2) <<< 31) |||
    (pmu.byte (secsReg + 1) <<< 23) ||| (pmu.byte (secsReg + 0) <<< 15) |||
    ((pmu.byte (ticksReg + 1) &&& 0x7F) <<< 8) ||| pmu.byte (ticksReg + 0)

variable (now : BitVec 64)

/-- The ticks of a time, 32768 to a second, as `apple_rtc_ns_to_tick` computes them before it takes
the offset away. -/
def nsToTick : BitVec 64 :=
  let secs := now / 1000000000
  let fracNs := now % 1000000000
  let fracTicks := (fracNs * 32768 + 1000000000 / 2) / 1000000000
  (secs <<< 15) ||| (fracTicks &&& 0x7FFF)

def appleRtcNsToTick : BitVec 64 :=
  nsToTick now - appleSpmiPmuGetTickOffset pmu

/-! ## The alarm -/

def appleSpmiPmuUpdateIrq : AppleSPMIPMUState :=
  { pmu with
    irq := pmu.byte pmu.offsets.rtcIrqMask &&& pmu.byte pmu.offsets.alarmEvent ≠ 0 }

def appleSpmiPmuAlarm : AppleSPMIPMUState :=
  appleSpmiPmuUpdateIrq (pmu.setReg pmu.offsets.alarmEvent (pmu.reg pmu.offsets.alarmEvent ||| 1))

/-- The time of the alarm in seconds, which `ldl_le_p` reads as a signed word. -/
def alarmSeconds : ℤ :=
  (((pmu.byte pmu.offsets.alarm) ||| (pmu.byte (pmu.offsets.alarm + 1) <<< 8) |||
    (pmu.byte (pmu.offsets.alarm + 2) <<< 16) |||
    (pmu.byte (pmu.offsets.alarm + 3) <<< 24)).setWidth 32).toInt

def appleSpmiPmuSetAlarm : AppleSPMIPMUState :=
  let seconds := alarmSeconds pmu - (appleRtcNsToTick pmu now >>> 15).toInt
  if (pmu.byte pmu.offsets.alarmCtrl).getLsbD 6 then
    if seconds ≤ 0 then appleSpmiPmuAlarm { pmu with timer := none }
    else { pmu with timer := some (now + ofInt 64 (seconds * 1000000000)) }
  else { pmu with timer := none }

/-! ## Commands -/

/-- `apple_spmi_pmu_command`: 0 for the extended reads and writes, and 1 for all others. -/
def appleSpmiPmuCommand (opcode : BitVec 8) (addr : BitVec 16) : ℤ × AppleSPMIPMUState :=
  (match opcode with
    | 0x20 | 0x38 | 0x00 | 0x30 => 0
    | _ => 1, { pmu with addr := addr })

/-! ## Writes -/

/-- A write burst on its way. -/
structure SendState where
  pmu : AppleSPMIPMUState
  addr : BitVec 16
  /-- The indices at which the buffer was read. -/
  reads : List ℤ
  writes : List (ℕ × UInt8)

variable (len : BitVec 8)

section

variable (data : ℤ → UInt8) (clock : ℕ → BitVec 64) (st : SendState)

/-- The condition of the loop of `apple_spmi_pmu_send`. The sum is an `int`. -/
def sendCond : Bool :=
  st.addr.toNat < st.pmu.addr.toNat + len.toNat

/-- The register is one of the alarm. -/
def Offsets.isAlarm (offsets : Offsets) (addr : ℕ) : Bool :=
  addr = offsets.alarmCtrl || (offsets.alarm ≤ addr && addr < offsets.alarm + 4)

/-- A round of the loop. The buffer stands in memory, so there are bytes in front of it and behind
it; `clock` is the time in each round. -/
def sendRound : SendState :=
  let index : ℤ := (st.addr.toNat : ℤ) - st.pmu.addr.toNat
  let pmu := st.pmu.setReg st.addr.toNat (data index)
  { pmu :=
      if pmu.offsets.isAlarm st.addr.toNat then appleSpmiPmuSetAlarm pmu (clock st.reads.length)
      else pmu
    addr := st.addr + 1
    reads := st.reads ++ [index]
    writes := st.writes ++ [(st.addr.toNat, data index)] }

/-- The end of a write burst: the address is stored. -/
def SendState.finish : SendState :=
  { st with pmu := { st.pmu with addr := st.addr } }

end

section

variable (fuel : ℕ) (pmu : AppleSPMIPMUState) (now : BitVec 64) (len : BitVec 8)

section

variable (data : ℤ → UInt8) (clock : ℕ → BitVec 64) (len : BitVec 8)

/-- `apple_spmi_pmu_send` of `len` bytes, within `fuel` tests of the loop condition: what it
returns, and the state after it. -/
def appleSpmiPmuSend : Option (ℕ × SendState) :=
  (loop (sendCond len) (sendRound data clock) fuel ⟨pmu, pmu.addr, [], []⟩).map fun st =>
    (len.toNat, st.finish)

/-! ## Reads -/

/-- The six bytes of a tick value in the clock registers. -/
def rtcBytes : List UInt8 :=
  [now <<< 1, now >>> 7, now >>> 15, now >>> 23, now >>> 31, now >>> 39].map fun w =>
    ⟨(w &&& 0xFF).setWidth 8⟩

/-- The clock registers get a tick value. -/
def setRtc : AppleSPMIPMUState :=
  (rtcBytes now).zipIdx.foldl (fun pmu b => pmu.setReg (pmu.offsets.rtc + b.2) b.1) pmu

/-- A read burst on its way. -/
structure RecvState where
  pmu : AppleSPMIPMUState
  addr : BitVec 16
  /-- The indices at which the buffer was filled, with the bytes. -/
  fills : List (ℤ × UInt8)

section

variable (endAddr : BitVec 16) (st : RecvState)

/-- A round of the loop of `apple_spmi_pmu_recv`. -/
def recvRound : RecvState :=
  { st with
    addr := st.addr + 1
    fills := st.fills ++ [((st.addr.toNat : ℤ) - st.pmu.addr.toNat, st.pmu.reg st.addr.toNat)] }

/-- The condition of the loop. The end of the burst has sixteen bits. -/
def recvCond : Bool := st.addr.toNat < endAddr.toNat

/-- The end of a read burst: the address is stored. -/
def RecvState.finish : RecvState :=
  { st with pmu := { st.pmu with addr := st.addr } }

end

/-- The clock is refreshed if the burst touches it. -/
def refreshRtc : AppleSPMIPMUState :=
  let endAddr : BitVec 16 := pmu.addr + len.setWidth 16
  if endAddr.toNat > pmu.offsets.rtc ∧ pmu.addr.toNat < pmu.offsets.rtc + 6 then
    setRtc pmu (appleRtcNsToTick pmu now)
  else pmu

/-- `apple_spmi_pmu_recv` of `len` bytes, within `fuel` tests of the loop condition. -/
def appleSpmiPmuRecv : Option (ℕ × RecvState) :=
  let endAddr : BitVec 16 := pmu.addr + len.setWidth 16
  (loop (recvCond endAddr) recvRound fuel ⟨refreshRtc pmu now len, pmu.addr, []⟩).map fun st =>
    (len.toNat, st.finish)

/-! ## What a burst is to do -/

/-- A write burst of `len` bytes returns; it has read the buffer at its indices from first to last,
written the byte at each of them to the register that many behind the start, and moved the address
past them. The event register of the alarm apart, the registers have these bytes and are otherwise
as they were. -/
def SendsExactly : Prop :=
  ∃ fuel st, appleSpmiPmuSend fuel pmu data clock len = some (len.toNat, st) ∧
    st.reads = (range len.toNat).map (fun k : ℕ => (k : ℤ)) ∧
    st.writes = (range len.toNat).map (fun k : ℕ => ((pmu.addr.toNat + k) % 2^16, data k)) ∧
    st.pmu.addr = pmu.addr + len.setWidth 16 ∧
    ∀ i : ℕ, i ≠ pmu.offsets.alarmEvent → st.pmu.reg i =
      if pmu.addr.toNat ≤ i ∧ i < pmu.addr.toNat + len.toNat then data (i - pmu.addr.toNat)
      else pmu.reg i

end

end

/-- A read burst of `len` bytes returns; it has filled the buffer at its indices from first to last
with the registers from the start on, and moved the address past them. -/
def ReceivesExactly : Prop :=
  ∃ fuel st, appleSpmiPmuRecv fuel pmu now len = some (len.toNat, st) ∧
    st.fills = (range len.toNat).map (fun k : ℕ =>
      ((k : ℤ), (refreshRtc pmu now len).reg ((pmu.addr.toNat + k) % 2^16))) ∧
    st.pmu.addr = pmu.addr + len.setWidth 16

theorem toNat_addr_add {addr : BitVec 16} {k : ℕ} (h : addr.toNat + k < 2^16) :
    (addr + ofNat 16 k).toNat = addr.toNat + k := by
  have hk : k < 2^16 := by omega
  rw [toNat_add, BitVec.toNat_ofNat, mod_eq_of_lt hk, mod_eq_of_lt h]

variable (addr : BitVec 16)

section

variable (pmu : AppleSPMIPMUState) (data : ℤ → UInt8) (clock : ℕ → BitVec 64) (now : BitVec 64)
  (len : BitVec 8)

theorem addr_add_len : addr + len.setWidth 16 = addr + ofNat 16 len.toNat := by
  rw [BitVec.ofNat_toNat]

theorem addr_add_succ (k : ℕ) : addr + ofNat 16 k + 1 = addr + ofNat 16 (k + 1) := by
  rw [BitVec.add_assoc, BitVec.ofNat_add]
  rfl

/-! ## Writes -/

/-- Setting the alarm changes no register but the event register, and neither the address nor the
offsets. -/
theorem appleSpmiPmuSetAlarm_frame : (appleSpmiPmuSetAlarm pmu now).addr = pmu.addr ∧
    (appleSpmiPmuSetAlarm pmu now).offsets = pmu.offsets ∧
    ∀ i ≠ pmu.offsets.alarmEvent, (appleSpmiPmuSetAlarm pmu now).reg i = pmu.reg i := by
  unfold appleSpmiPmuSetAlarm
  dsimp only
  split_ifs
  · exact ⟨rfl, rfl, fun i hi => update_of_ne hi _ _⟩
  · exact ⟨rfl, rfl, fun _ _ => rfl⟩
  · exact ⟨rfl, rfl, fun _ _ => rfl⟩

theorem sendRound_frame (st : SendState) : (sendRound data clock st).pmu.addr = st.pmu.addr ∧
    (sendRound data clock st).pmu.offsets = st.pmu.offsets ∧
    ∀ i ≠ st.pmu.offsets.alarmEvent, (sendRound data clock st).pmu.reg i =
      if i = st.addr.toNat then data ((st.addr.toNat : ℤ) - st.pmu.addr.toNat)
      else st.pmu.reg i := by
  have hwritten := fun i => update_apply st.pmu.reg st.addr.toNat
    (data ((st.addr.toNat : ℤ) - st.pmu.addr.toNat)) i
  unfold sendRound
  dsimp only
  split_ifs
  · obtain ⟨haddr, hoffsets, hreg⟩ := appleSpmiPmuSetAlarm_frame (st.pmu.setReg st.addr.toNat
      (data ((st.addr.toNat : ℤ) - st.pmu.addr.toNat))) (clock st.reads.length)
    exact ⟨haddr, hoffsets, fun i hi => (hreg i hi).trans (hwritten i)⟩
  · exact ⟨rfl, rfl, fun i _ => hwritten i⟩

/-- A write burst after `k` rounds that have not wrapped the address. -/
structure Sent (pmu : AppleSPMIPMUState) (data : ℤ → UInt8) (k : ℕ) (st : SendState) : Prop where
  addr : st.addr = pmu.addr + ofNat 16 k
  start : st.pmu.addr = pmu.addr
  offsets : st.pmu.offsets = pmu.offsets
  reads : st.reads = (range k).map (fun j : ℕ => (j : ℤ))
  writes : st.writes = (range k).map (fun j : ℕ => (pmu.addr.toNat + j, data j))
  reg : ∀ i : ℕ, i ≠ pmu.offsets.alarmEvent → st.pmu.reg i =
    if pmu.addr.toNat ≤ i ∧ i < pmu.addr.toNat + k then data (i - pmu.addr.toNat) else pmu.reg i

theorem iterate_sendRound {k : ℕ} (hk : pmu.addr.toNat + k < 2^16) :
    Sent pmu data k ((sendRound data clock)^[k] ⟨pmu, pmu.addr, [], []⟩) := by
  induction k with
  | zero =>
    refine ⟨by simp, rfl, rfl, rfl, rfl, ?_⟩
    intro i _
    rw [if_neg (by omega)]
    rfl
  | succ k ih =>
    have hlt : pmu.addr.toNat + k < 2^16 := by omega
    obtain ⟨haddr, hstart, hoffsets, hreads, hwrites, hreg⟩ := ih hlt
    rw [iterate_succ_apply']
    generalize (sendRound data clock)^[k] ⟨pmu, pmu.addr, [], []⟩ = st at *
    obtain ⟨hframe, hoffsets', hwritten⟩ := sendRound_frame data clock st
    have hnat : st.addr.toNat = pmu.addr.toNat + k := by rw [haddr, toNat_addr_add hlt]
    have hindex : (st.addr.toNat : ℤ) - st.pmu.addr.toNat = k := by
      rw [hstart]
      omega
    refine ⟨?_, hframe.trans hstart, hoffsets'.trans hoffsets, ?_, ?_, ?_⟩
    · show st.addr + 1 = _
      rw [haddr, addr_add_succ]
    · show st.reads ++ [(st.addr.toNat : ℤ) - st.pmu.addr.toNat] = _
      rw [hindex, hreads, range_succ, map_append]
      rfl
    · show st.writes ++ [(st.addr.toNat, data ((st.addr.toNat : ℤ) - st.pmu.addr.toNat))] = _
      rw [hindex, hwrites, hnat, range_succ, map_append]
      rfl
    · intro i hi
      rw [hwritten i (by rw [hoffsets]; exact hi), hreg i hi, hindex, hnat]
      by_cases hnew : i = pmu.addr.toNat + k
      · have hlast : (i : ℤ) - pmu.addr.toNat = k := by omega
        rw [if_pos hnew, if_pos (by omega), hlast]
      · have hsame : (pmu.addr.toNat ≤ i ∧ i < pmu.addr.toNat + k) ↔
            (pmu.addr.toNat ≤ i ∧ i < pmu.addr.toNat + (k + 1)) := by omega
        rw [if_neg hnew]
        simp [hsame]

/-- A write burst whose end does not fit never ends. -/
theorem send_diverges {pmu : AppleSPMIPMUState} {len : BitVec 8}
    (h : 2^16 ≤ pmu.addr.toNat + len.toNat) {data : ℤ → UInt8} {clock : ℕ → BitVec 64}
    {fuel : ℕ} : appleSpmiPmuSend fuel pmu data clock len = none := by
  have hnone : loop (sendCond len) (sendRound data clock) fuel ⟨pmu, pmu.addr, [], []⟩ = none := by
    refine loop_eq_none (I := fun st => st.pmu.addr = pmu.addr) ?_ ?_ fuel rfl
    · intro st hst
      exact (sendRound_frame data clock st).1.trans hst
    · -- No value of the loop variable reaches the sum.
      intro st hst
      rw [sendCond, hst]
      exact decide_eq_true (by omega)
  rw [appleSpmiPmuSend, hnone]
  rfl

/-- A write burst whose end fits the address takes its rounds. -/
theorem send_eq (hend : pmu.addr.toNat + len.toNat < 2^16) :
    ∃ st, Sent pmu data len.toNat st ∧
      appleSpmiPmuSend (len.toNat + 1) pmu data clock len = some (len.toNat, st.finish) := by
  have hsent : ∀ k ≤ len.toNat, Sent pmu data k
      ((sendRound data clock)^[k] ⟨pmu, pmu.addr, [], []⟩) :=
    fun k hk => iterate_sendRound pmu data clock (by omega)
  have hcond : ∀ k ≤ len.toNat, sendCond len
      ((sendRound data clock)^[k] ⟨pmu, pmu.addr, [], []⟩) = decide (k < len.toNat) := by
    intro k hk
    obtain ⟨haddr, hstart, -⟩ := hsent k hk
    rw [sendCond, haddr, hstart, toNat_addr_add (by omega)]
    simp
  refine ⟨_, hsent len.toNat (Nat.le_refl _), ?_⟩
  rw [appleSpmiPmuSend, loop_eq_iterate hcond, Option.map_some]

/-- A write burst does what it is to do exactly if its end fits the address. -/
theorem send_iff : SendsExactly pmu data clock len ↔ pmu.addr.toNat + len.toNat < 2^16 := by
  constructor
  · rintro ⟨fuel, st, hsend, -⟩
    by_contra hend
    rw [send_diverges (Nat.le_of_not_lt hend)] at hsend
    cases hsend
  · intro hend
    obtain ⟨st, ⟨haddr, -, -, hreads, hwrites, hreg⟩, hsend⟩ := send_eq pmu data clock len hend
    refine ⟨len.toNat + 1, st.finish, hsend, hreads, hwrites.trans ?_, ?_, hreg⟩
    · refine map_congr_left ?_
      intro k hk
      have hlt := mem_range.mp hk
      rw [mod_eq_of_lt (by omega)]
    · rw [addr_add_len]
      exact haddr

end

/-! ## Reads -/

/-- A read burst after `k` rounds that have not wrapped the address. -/
theorem iterate_recvRound {k : ℕ} (hk : pmu.addr.toNat + k < 2^16) :
    recvRound^[k] ⟨pmu, pmu.addr, []⟩ = ⟨pmu, pmu.addr + ofNat 16 k,
        (range k).map fun j : ℕ => ((j : ℤ), pmu.reg (pmu.addr.toNat + j))⟩ := by
  induction k with
  | zero => simp
  | succ k ih =>
    have hlt : pmu.addr.toNat + k < 2^16 := by omega
    have hindex : ((pmu.addr.toNat + k : ℕ) : ℤ) - pmu.addr.toNat = k := by omega
    rw [iterate_succ_apply', ih hlt, recvRound]
    rw [toNat_addr_add hlt, hindex, range_succ, map_append, addr_add_succ]
    rfl

theorem refreshRtc_addr (pmu : AppleSPMIPMUState) (now : BitVec 64) (len : BitVec 8) :
    (refreshRtc pmu now len).addr = pmu.addr := by
  unfold refreshRtc
  dsimp only
  split_ifs <;> rfl

section

variable {pmu : AppleSPMIPMUState} {len : BitVec 8} (now : BitVec 64)

/-- A read burst whose end fits fills the buffer with the registers. -/
theorem recv_eq (h : pmu.addr.toNat + len.toNat < 2^16) :
    appleSpmiPmuRecv (len.toNat + 1) pmu now len =
      some (len.toNat, ⟨{ refreshRtc pmu now len with addr := pmu.addr + len.setWidth 16 },
        pmu.addr + len.setWidth 16, (range len.toNat).map fun k : ℕ =>
          ((k : ℤ), (refreshRtc pmu now len).reg (pmu.addr.toNat + k))⟩) := by
  have haddr := refreshRtc_addr pmu now len
  have hiter : ∀ k ≤ len.toNat, recvRound^[k] ⟨refreshRtc pmu now len, pmu.addr, []⟩ =
      ⟨refreshRtc pmu now len, pmu.addr + ofNat 16 k, (range k).map fun j : ℕ =>
        ((j : ℤ), (refreshRtc pmu now len).reg (pmu.addr.toNat + j))⟩ := by
    intro k hk
    have hlt : (refreshRtc pmu now len).addr.toNat + k < 2^16 := by
      rw [haddr]
      omega
    have hround := iterate_recvRound (refreshRtc pmu now len) hlt
    rwa [haddr] at hround
  have hcond : ∀ k ≤ len.toNat, recvCond (pmu.addr + len.setWidth 16)
      (recvRound^[k] ⟨refreshRtc pmu now len, pmu.addr, []⟩) = decide (k < len.toNat) := by
    intro k hk
    rw [hiter k hk, recvCond, addr_add_len]
    rw [toNat_addr_add (by omega), toNat_addr_add h]
    simp
  have hloop := loop_eq_iterate hcond
  rw [hiter _ (Nat.le_refl _), ← addr_add_len] at hloop
  rw [appleSpmiPmuRecv]
  rw [hloop]
  rfl

theorem recv_wraps (h : 2^16 ≤ pmu.addr.toNat + len.toNat) (fuel : ℕ) :
    appleSpmiPmuRecv (fuel + 1) pmu now len =
      some (len.toNat, ⟨refreshRtc pmu now len, pmu.addr, []⟩) := by
  have hcut : ¬ recvCond (pmu.addr + len.setWidth 16) ⟨refreshRtc pmu now len, pmu.addr, []⟩ := by
    simp only [recvCond, toNat_add, BitVec.toNat_setWidth, decide_eq_true_eq]
    omega
  have hstay : { refreshRtc pmu now len with addr := pmu.addr } = refreshRtc pmu now len := by
    rw [← refreshRtc_addr pmu now len]
  rw [appleSpmiPmuRecv, loop, if_neg hcut]
  exact congrArg (fun u => some (len.toNat, RecvState.mk u pmu.addr [])) hstay

theorem recv_unique {now : BitVec 64} {fuel fuel' : ℕ} {r r' : ℕ} {st st' : RecvState}
    (h : appleSpmiPmuRecv fuel pmu now len = some (r, st))
    (h' : appleSpmiPmuRecv fuel' pmu now len = some (r', st')) : st = st' := by
  obtain ⟨t, ht, heq⟩ := Option.map_eq_some_iff.mp h
  obtain ⟨t', ht', heq'⟩ := Option.map_eq_some_iff.mp h'
  obtain rfl := loop_inj ht ht'
  exact (Prod.mk.inj (heq.symm.trans heq')).2

end

/-- A read burst does what it is to do exactly if its end fits the address. -/
theorem recv_iff : ReceivesExactly pmu now len ↔ pmu.addr.toNat + len.toNat < 2^16 := by
  constructor
  · rintro ⟨fuel, st, hrecv, hfills, -⟩
    by_contra hend
    have hwrap := Nat.le_of_not_lt hend
    cases fuel with
    | zero => cases hrecv
    | succ fuel =>
      rw [recv_wraps now hwrap] at hrecv
      obtain ⟨-, rfl⟩ := Prod.mk.inj (Option.some.inj hrecv)
      -- Nothing was filled in, though the burst has bytes.
      have hzero : len.toNat = 0 := by simpa using (congrArg length hfills).symm
      omega
  · intro hend
    refine ⟨len.toNat + 1, _, recv_eq now hend, ?_, rfl⟩
    refine map_congr_left ?_
    intro k hk
    have hlt := mem_range.mp hk
    rw [mod_eq_of_lt (by omega)]

/-! ## Both -/

/-- The bursts from an address do what they are to do exactly if their end fits the address. -/
theorem spmi_pmu_bursts_iff (pmu : AppleSPMIPMUState) (data : ℤ → UInt8) (clock : ℕ → BitVec 64)
    (now : BitVec 64) (len : BitVec 8) :
    (SendsExactly pmu data clock len ∧ ReceivesExactly pmu now len) ↔
      pmu.addr.toNat + len.toNat < 2^16 := by
  rw [send_iff, recv_iff, and_self]

/-- A unit with cleared registers whose next burst starts at the last of them. -/
def lastRegister : AppleSPMIPMUState where
  irq := false
  timer := none
  offsets := {
    legScrpad := 0x100, rtc := 0x200, rtcIrqMask := 0x300, alarm := 0x400, alarmCtrl := 0x500,
    alarmEvent := 0x600, legScrpad_le := by decide, rtc_le := by decide,
    rtcIrqMask_lt := by decide, alarm_le := by decide, alarmCtrl_lt := by decide,
    alarmEvent_lt := by decide }
  reg _ := 0
  addr := 0xFFFF

/-- A write of one byte there never ends: the second round reads the buffer 65535 bytes in front of
it. A read of one byte fills in nothing and does not move the address. -/
theorem spmi_pmu_bursts_last :
    (∀ fuel data clock, appleSpmiPmuSend fuel lastRegister data clock 1 = none) ∧
    (∀ data clock, ((sendRound data clock)^[2] ⟨lastRegister, 0xFFFF, [], []⟩).reads =
      [0, -65535]) ∧
    ∀ fuel now, ∃ st, appleSpmiPmuRecv (fuel + 1) lastRegister now 1 = some (1, st) ∧
      st.fills = [] ∧ st.pmu.addr = 0xFFFF :=
  ⟨fun fuel data clock => send_diverges (by decide), fun _ _ => rfl,
    fun fuel now => ⟨_, recv_wraps now (by decide) fuel, rfl, refreshRtc_addr _ now 1⟩⟩

/-! ## Reading back -/

/-- A burst that is written, neither to the clock nor to the event register of the alarm, is read
back from its address as it was written. -/
theorem recv_of_send (pmu : AppleSPMIPMUState) {len : BitVec 8}
    (hend : pmu.addr.toNat + len.toNat < 2^16)
    (hrtc : pmu.addr.toNat + len.toNat ≤ pmu.offsets.rtc ∨ pmu.offsets.rtc + 6 ≤ pmu.addr.toNat)
    (hevent : ∀ k < len.toNat, pmu.addr.toNat + k ≠ pmu.offsets.alarmEvent) (data : ℤ → UInt8)
    (clock : ℕ → BitVec 64) (opcode : BitVec 8) (now : BitVec 64) : ∃ fuel st fuel' st',
      appleSpmiPmuSend fuel pmu data clock len = some (len.toNat, st) ∧
      appleSpmiPmuRecv fuel' (appleSpmiPmuCommand st.pmu opcode pmu.addr).2 now len =
        some (len.toNat, st') ∧
      st'.fills = (range len.toNat).map fun k : ℕ => ((k : ℤ), data k) := by
  obtain ⟨st, ⟨-, -, hoffsets, -, -, hreg⟩, hsend⟩ := send_eq pmu data clock len hend
  refine ⟨len.toNat + 1, st.finish, len.toNat + 1, _, hsend, recv_eq now hend,
    map_congr_left fun k hk => ?_⟩
  have hlt := mem_range.mp hk
  have hindex : ((pmu.addr.toNat + k : ℕ) : ℤ) - pmu.addr.toNat = k := by omega
  rw [refreshRtc, if_neg]
  · refine congrArg _ ((hreg _ (hevent k hlt)).trans ?_)
    rw [if_pos (by omega), hindex]
  · show ¬ ((pmu.addr + len.setWidth 16).toNat > st.pmu.offsets.rtc ∧
      pmu.addr.toNat < st.pmu.offsets.rtc + 6)
    rw [addr_add_len, toNat_addr_add hend, hoffsets]
    omega

/-- Three bytes are written from the first register on and read back. -/
theorem recv_of_send_first : ∃ fuel st fuel' st',
    appleSpmiPmuSend fuel { lastRegister with addr := 0 } (fun _ => 7) (fun _ => 0) 3 =
      some (3, st) ∧
    appleSpmiPmuRecv fuel' (appleSpmiPmuCommand st.pmu 0x20 0).2 0 3 = some (3, st') ∧
      st'.fills = [(0, 7), (1, 7), (2, 7)] :=
  recv_of_send { lastRegister with addr := 0 } (by decide) (by decide) (by decide) _ _ 0x20 0

end Inferno.Pmu
