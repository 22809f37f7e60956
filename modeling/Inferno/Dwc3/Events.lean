import Inferno.Common.Run
import Mathlib.Data.BitVec

/-!
# Event rings of the DWC3 device controller

An event goes to the ring of an interrupter, in the guest's memory: `head` counts the bytes written
since the reset, modulo `2^32`, and `count` those that the guest has not acknowledged. When two
bytes are left, an overflow event is to be raised, and when one is left, the event is dropped.

What the guest is promised is said in terms of its own writes: a `Ledger` beside each ring has the
events that found a free slot and the number of those that the guest has acknowledged, and reads
neither `head` nor `count`. The events of the ledger that are not acknowledged are in the memory of
the ring, each at the place with its number (`Kept`). An event that finds no free slot is dropped,
and the guest is never told, since two bytes are never left of a multiple of four (`Told`).

The memory of a ring is a function of the offset in it. The interrupt lines are not there.
-/

namespace Inferno.Dwc3.Events

open Common List Nat Option Function

/-! ## Model -/

/-- `DWC3EventRing`, with the memory of the ring. -/
structure DWC3EventRing where
  size : BitVec 32
  head : BitVec 32
  count : BitVec 32
  data : ℕ → BitVec 32

/-- The part of `DWC3State` that events use. -/
structure DWC3State where
  intrs : ℕ → DWC3EventRing
  numintrs : ℕ
  /-- `DCFG_INTRNUM_GET(dcfg)`. -/
  intrnum : ℕ
  devten : BitVec 32

/-- `dwc3_write_event`, on its ring. -/
def DWC3EventRing.write (r : DWC3EventRing) (event : BitVec 32) : DWC3EventRing :=
  { r with
    data := update r.data (r.head % r.size).toNat event
    head := r.head + 4
    count := r.count + 4 }

variable (s : DWC3State)

section

variable (report : DWC3State → DWC3State) (s : DWC3State) (event : BitVec 32) (v : ℕ)

/-- The state with a ring replaced. -/
def DWC3State.setRing (r : DWC3EventRing) : DWC3State :=
  { s with intrs := update s.intrs v r }

/-- The device event `DEVICE_EVENT_OVERFLOW`. -/
def overflow : BitVec 32 := 0xB01

/-- `dwc3_event`, with what it does when it reports an overflow. -/
def eventWith : DWC3State :=
  if s.numintrs ≤ v then s
  else if (s.intrs v).size ≤ (s.intrs v).count + 1 then s
  else if (s.intrs v).count + 2 = (s.intrs v).size then
    if event = overflow then s else report s
  else s.setRing v ((s.intrs v).write event)

/-- `dwc3_event`. The overflow event, which `dwc3_device_event` passes on when it is enabled, is not
reported again. -/
def dwc3Event : DWC3State :=
  eventWith (fun s => if s.devten.getLsbD 11 then eventWith id s overflow s.intrnum else s)
    s event v

/-- `GEVNTCOUNT` of `usb_dwc3_gevntreg_write`. -/
def gevntcountWrite (val : BitVec 32) : DWC3State :=
  let r := s.intrs v
  let dec := val &&& 0xFFFF
  s.setRing v { r with count := if r.count < dec then 0 else r.count - dec }

/-- What happens to a ring. -/
inductive Op
  | event (v : ℕ) (event : BitVec 32)
  | ack (v : ℕ) (val : BitVec 32)

def step : Op → DWC3State
  | .event v event => dwc3Event s event v
  | .ack v val => gevntcountWrite s v val

/-! ## What the guest is promised -/

/-- Acknowledgements are of whole events, and the overflow event is raised by the controller
only. -/
def Op.Whole : Op → Prop
  | .event _ event => event ≠ overflow
  | .ack _ val => 4 ∣ val.toNat

/-- The rings after they are configured, with sizes that are positive multiples of four. -/
def Fresh : Prop :=
  ∀ v, (s.intrs v).head = 0 ∧ (s.intrs v).count = 0 ∧ 4 ∣ (s.intrs v).size.toNat ∧
    0 < (s.intrs v).size.toNat

/-- What the guest can know of a ring: the events that found a free slot, in order, and how many of
them it has acknowledged. -/
structure Ledger where
  stored : List (BitVec 32)
  acked : ℕ
  deriving DecidableEq

/-- Every slot of the ring has an event that is not acknowledged. -/
abbrev Ledger.Full (l : Ledger) (slots : ℕ) : Prop := l.acked + slots ≤ l.stored.length

/-- A state of the controller with a ledger beside each ring. -/
abbrev Audited := DWC3State × (ℕ → Ledger)

variable (p : Audited)

/-- The number of events that a ring has place for. -/
def slots (v : ℕ) : ℕ := (p.1.intrs v).size.toNat / 4

/-- The ring of the event has no free slot. -/
def FindsFull : Op → Prop
  | .event v _ => v < p.1.numintrs ∧ (p.2 v).Full (slots p v)
  | .ack _ _ => False

instance : ∀ op, Decidable (FindsFull p op)
  | .event _ _ => inferInstanceAs (Decidable (_ ∧ _))
  | .ack _ _ => .isFalse id

/-- An event is entered where it finds a free slot. An acknowledgement is of as many of the oldest
events as the low 16 bits of the write have bytes for, and of no more than there are. -/
def enter (op : Op) : ℕ → Ledger :=
  match op with
  | .event v event =>
    if p.1.numintrs ≤ v ∨ FindsFull p op then p.2
    else update p.2 v ⟨(p.2 v).stored ++ [event], (p.2 v).acked⟩
  | .ack v val =>
    update p.2 v ⟨(p.2 v).stored,
      min ((p.2 v).acked + val.toNat % 2 ^ 16 / 4) (p.2 v).stored.length⟩

/-- A step of the controller and the entry it makes. -/
def audit (op : Op) : Audited := (step p.1 op, enter p op)

/-- The controller with empty ledgers. -/
def audited (s : DWC3State) : Audited := (s, fun _ => ⟨[], 0⟩)

/-- An event is in the slot with its number and not acknowledged. -/
def Waits (v : ℕ) (event : BitVec 32) (k : ℕ) : Prop :=
  (p.2 v).acked ≤ k ∧ (p.1.intrs v).data (4 * k % (p.1.intrs v).size.toNat) = event

instance (v : ℕ) (event : BitVec 32) (k : ℕ) : Decidable (Waits p v event k) :=
  inferInstanceAs (Decidable (_ ∧ _))

/-- Events are at consecutive places in their order, and none is overwritten before it is
acknowledged. -/
def Kept : Prop :=
  ∀ v k event, (p.2 v).stored[k]? = some event → (p.2 v).acked ≤ k → Waits p v event k

/-- When an event is dropped and the overflow event is enabled, that event waits in the ring of the
device events. -/
def Told (op : Op) : Prop :=
  FindsFull p op → p.1.devten.getLsbD 11 = true →
    ∃ k < (p.2 p.1.intrnum).stored.length, Waits p p.1.intrnum overflow k

instance (op : Op) : Decidable (Told p op) :=
  inferInstanceAs (Decidable (_ → _ → _))

end

/-! ## Rings -/

/-- The counter of bytes has not wrapped, or wraps together with the ring. -/
def Consecutive (r : DWC3EventRing) (l : Ledger) : Prop :=
  4 * l.stored.length ≤ 2 ^ 32 ∨ r.size.toNat ∣ 2 ^ 32

/-- A ring and its ledger agree. -/
structure Holds (r : DWC3EventRing) (l : Ledger) : Prop where
  size : 4 ∣ r.size.toNat
  pos : 0 < r.size.toNat
  acked : l.acked ≤ l.stored.length
  count : r.count.toNat = 4 * (l.stored.length - l.acked)
  fits : r.count.toNat ≤ r.size.toNat
  head : r.head = BitVec.ofNat 32 (4 * l.stored.length)
  data : Consecutive r l → ∀ k < l.stored.length, l.acked ≤ k →
    l.stored[k]? = some (r.data (4 * k % r.size.toNat))

variable {r : DWC3EventRing} {l : Ledger} {event : BitVec 32}

section

variable (h : Holds r l)

include h

/-- The two tests of `dwc3_event`: the first is for a full ring, the second is never met. -/
theorem Holds.room : (r.size ≤ r.count + 1 ↔ l.Full (r.size.toNat / 4)) ∧ r.count + 2 ≠ r.size := by
  obtain ⟨hsize, hpos, hacked, hcount, hfits, -, -⟩ := h
  have hfull : l.Full (r.size.toNat / 4) ↔ r.count.toNat = r.size.toNat := by
    unfold Ledger.Full
    omega
  rw [hfull]
  constructor <;> bv_omega

/-- An event that finds a free slot is entered. -/
theorem Holds.write (hroom : ¬ l.Full (r.size.toNat / 4)) :
    Holds (r.write event) ⟨l.stored ++ [event], l.acked⟩ := by
  have hsize := h.size
  have hacked := h.acked
  have hcount := h.count
  have hlt := r.size.isLt
  have hless : r.count.toNat + 4 ≤ r.size.toNat := by
    unfold Ledger.Full at hroom
    omega
  have hadd : (r.count + 4).toNat = r.count.toNat + 4 :=
    (BitVec.toNat_add _ _).trans (mod_eq_of_lt (hless.trans_lt hlt))
  have hlen : (l.stored ++ [event]).length = l.stored.length + 1 := length_append
  refine ⟨hsize, h.pos, ?_, ?_, ?_, ?_, ?_⟩
  · show l.acked ≤ (l.stored ++ [event]).length
    omega
  · show (r.count + 4).toNat = 4 * ((l.stored ++ [event]).length - l.acked)
    omega
  · show (r.count + 4).toNat ≤ r.size.toNat
    omega
  · show r.head + 4 = BitVec.ofNat 32 (4 * (l.stored ++ [event]).length)
    rw [hlen, mul_add, BitVec.ofNat_add, ← h.head]
    rfl
  · intro hwrap k hk hwaits
    have hwrap : 4 * (l.stored ++ [event]).length ≤ 2 ^ 32 ∨ r.size.toNat ∣ 2 ^ 32 := hwrap
    have hk : k < (l.stored ++ [event]).length := hk
    have hwaits : l.acked ≤ k := hwaits
    rw [hlen] at hwrap hk
    have hplace : (r.head % r.size).toNat = 4 * l.stored.length % r.size.toNat := by
      rw [BitVec.toNat_umod, h.head, BitVec.toNat_ofNat]
      rcases hwrap with hfew | hdvd
      · rw [mod_eq_of_lt (a := 4 * l.stored.length) (by omega)]
      · exact mod_mod_of_dvd _ hdvd
    show (l.stored ++ [event])[k]? =
      some (update r.data (r.head % r.size).toNat event (4 * k % r.size.toNat))
    rw [hplace]
    rcases Nat.lt_succ_iff_lt_or_eq.mp hk with hold | rfl
    · -- Fewer events wait than there are slots, so the new one has another place.
      have hne : 4 * k % r.size.toNat ≠ 4 * l.stored.length % r.size.toNat := by
        intro heq
        have hdvd := (modEq_iff_dvd' (by omega)).mp heq
        have hle := le_of_dvd (by omega) hdvd
        omega
      rw [update_of_ne hne, getElem?_append_left hold]
      exact h.data (hwrap.imp_left (by omega)) k hold hwaits
    · rw [update_self, getElem?_concat_length]

/-- An acknowledgement lowers the counter by the events that it is of. -/
theorem Holds.ack {val : BitVec 32} (hval : 4 ∣ val.toNat) :
    Holds
      { r with count := if r.count < val &&& 0xFFFF then 0 else r.count - (val &&& 0xFFFF) }
      ⟨l.stored, min (l.acked + val.toNat % 2 ^ 16 / 4) l.stored.length⟩ := by
  have hacked := h.acked
  have hcount := h.count
  have hdec : (val &&& 0xFFFF).toNat = val.toNat % 2 ^ 16 :=
    (BitVec.toNat_and _ _).trans (and_two_pow_sub_one_eq_mod _ 16)
  have hnew : (if r.count < val &&& 0xFFFF then 0 else r.count - (val &&& 0xFFFF)).toNat =
      4 * (l.stored.length - min (l.acked + val.toNat % 2 ^ 16 / 4) l.stored.length) := by
    split_ifs with hless
    · have hless : r.count.toNat < (val &&& 0xFFFF).toNat := hless
      show 0 = _
      omega
    · rw [BitVec.toNat_sub_of_le (BitVec.not_lt.mp hless)]
      omega
  refine ⟨h.size, h.pos, min_le_right _ _, hnew, ?_, h.head, ?_⟩
  · have hfits := h.fits
    show (if r.count < val &&& 0xFFFF then 0 else r.count - (val &&& 0xFFFF)).toNat ≤ r.size.toNat
    omega
  · intro hwrap k hk hwaits
    have hwaits : min (l.acked + val.toNat % 2 ^ 16 / 4) l.stored.length ≤ k := hwaits
    have hk : k < l.stored.length := hk
    exact h.data hwrap k hk (by omega)

end

/-! ## Runs -/

section Runs

variable {p : Audited} {v : ℕ}

/-- All rings agree with their ledgers, which never have the overflow event. -/
structure Sound (p : Audited) : Prop where
  holds : ∀ v, Holds (p.1.intrs v) (p.2 v)
  other : ∀ v, overflow ∉ (p.2 v).stored

/-- While a ring agrees with its ledger, an event is written if there is a free slot, and dropped if
not. -/
theorem dwc3Event_eq (h : Holds (p.1.intrs v) (p.2 v)) (event : BitVec 32) :
    dwc3Event p.1 event v =
      if p.1.numintrs ≤ v ∨ FindsFull p (.event v event) then p.1
      else p.1.setRing v ((p.1.intrs v).write event) := by
  obtain ⟨hfull, hlow⟩ := h.room
  unfold dwc3Event eventWith
  by_cases hv : p.1.numintrs ≤ v
  · rw [if_pos hv, if_pos (.inl hv)]
  · by_cases hroom : (p.2 v).Full (slots p v)
    · rw [if_neg hv, if_pos (hfull.mpr hroom), if_pos (.inr ⟨not_le.mp hv, hroom⟩)]
    · have hno : ¬ (p.1.numintrs ≤ v ∨ FindsFull p (.event v event)) :=
        fun hor => hor.elim hv fun hfinds => hroom hfinds.2
      rw [if_neg hv, if_neg fun hle => hroom (hfull.mp hle), if_neg hlow, if_neg hno]

/-- A ring that is replaced, and its ledger with it, agree when the new ones do. -/
theorem Sound.replace (h : Sound p) {r : DWC3EventRing} {l : Ledger} (hnew : Holds r l)
    (hother : overflow ∉ l.stored) (v : ℕ) : Sound (p.1.setRing v r, update p.2 v l) := by
  constructor
  · intro u
    rcases eq_or_ne u v with rfl | hu
    · simpa [DWC3State.setRing] using hnew
    · simpa [DWC3State.setRing, hu] using h.holds u
  · intro u
    rcases eq_or_ne u v with rfl | hu
    · simpa using hother
    · simpa [hu] using h.other u

/-- The rings agree with their ledgers after every step. -/
theorem Sound.next (h : Sound p) {op : Op} (hop : op.Whole) : Sound (audit p op) := by
  cases op with
  | event v event =>
    rw [audit, step, dwc3Event_eq (h.holds v), enter]
    split_ifs with hno
    · exact h
    · refine h.replace ((h.holds v).write fun hfull => hno ?_) ?_ v
      · exact (le_or_gt p.1.numintrs v).imp id fun hv => ⟨hv, hfull⟩
      · have hne : overflow ≠ event := fun heq => hop heq.symm
        simpa [hne] using h.other v
  | ack v val => exact h.replace ((h.holds v).ack hop) (h.other v) v

/-- The events that were stored stay in the ledger. -/
theorem stored_audit (p : Audited) (op : Op) (v : ℕ) :
    (p.2 v).stored.length ≤ ((audit p op).2 v).stored.length := by
  cases op with
  | event u event =>
    rw [audit, enter]
    split_ifs with hno
    · exact le_rfl
    · rcases eq_or_ne v u with rfl | hu <;> simp [*]
  | ack u val => rcases eq_or_ne v u with rfl | hu <;> simp [audit, enter, *]

/-- The sizes of the rings and the events that are enabled stay as they are. -/
theorem Sound.fixed (h : Sound p) (op : Op) :
    (∀ v, ((audit p op).1.intrs v).size = (p.1.intrs v).size) ∧
      (audit p op).1.devten = p.1.devten := by
  cases op with
  | event u event =>
    rw [audit, step, dwc3Event_eq (h.holds u)]
    split_ifs
    · exact ⟨fun _ => rfl, rfl⟩
    · refine ⟨fun v => ?_, rfl⟩
      rcases eq_or_ne v u with rfl | hu <;> simp [DWC3State.setRing, DWC3EventRing.write, *]
  | ack u val =>
    refine ⟨fun v => ?_, rfl⟩
    rcases eq_or_ne v u with rfl | hu <;>
      simp [audit, step, gevntcountWrite, DWC3State.setRing, *]

/-- In a state that agrees with its ledgers the events that wait are in their places, and an
overflow event is not among them. -/
theorem Sound.promises (h : Sound p) (hwrap : ∀ v, Consecutive (p.1.intrs v) (p.2 v)) :
    Kept p ∧ ∀ op, Told p op ↔ (FindsFull p op → p.1.devten.getLsbD 11 = false) := by
  have hkept : Kept p := by
    intro v k event hevent hwaits
    obtain ⟨hk, -⟩ := List.getElem?_eq_some_iff.mp hevent
    have hdata := (h.holds v).data (hwrap v) k hk hwaits
    exact ⟨hwaits, some.inj (hdata.symm.trans hevent)⟩
  refine ⟨hkept, fun op => ⟨fun htold hfinds => ?_, fun hoff hfinds hon => ?_⟩⟩
  · by_contra hon
    obtain ⟨k, hk, hwaits, hplace⟩ := htold hfinds (Bool.not_eq_false _ ▸ hon)
    have hdata := (h.holds _).data (hwrap _) k hk hwaits
    rw [hplace] at hdata
    exact h.other _ (List.mem_of_getElem? hdata)
  · rw [hoff hfinds] at hon
    exact absurd hon (by decide)

/-- From rings that agree with their ledgers, in every run in which the counters of bytes do not
wrap apart from their rings. -/
theorem Sound.promises_run {ops : List Op} (h : Sound p) (hops : ∀ op ∈ ops, op.Whole)
    (hwrap : ∀ v, Consecutive (p.1.intrs v) ((run audit p ops).2 v)) :
    Throughout audit Kept p ops ∧ (Guarded audit Told p ops ↔
      (p.1.devten.getLsbD 11 = true → Guarded audit (fun p op => ¬ FindsFull p op) p ops)) := by
  induction ops generalizing p with
  | nil => exact ⟨(h.promises hwrap).1, by simp [Guarded]⟩
  | cons op ops ih =>
    obtain ⟨hop, hops⟩ := forall_mem_cons.mp hops
    obtain ⟨hsize, hdevten⟩ := h.fixed op
    have hgrows : ∀ v, (p.2 v).stored.length ≤
        ((run audit p (op :: ops)).2 v).stored.length := fun v =>
      invariant_run (P := fun q : Audited => (p.2 v).stored.length ≤ (q.2 v).stored.length)
        (fun q i hle => hle.trans (stored_audit q i v)) le_rfl _
    have hnow := h.promises fun v => (hwrap v).imp_left ((Nat.mul_le_mul_left 4 (hgrows v)).trans)
    have hrest := ih (h.next hop) hops fun v => by
      rw [Consecutive, hsize v]
      exact hwrap v
    rw [hdevten] at hrest
    refine ⟨⟨hnow.1, hrest.1⟩, ?_⟩
    rw [Guarded, Guarded, hrest.2, hnow.2 op]
    cases p.1.devten.getLsbD 11 <;> simp

/-- From fresh rings, in every run of events and acknowledgements of whole events in which no
counter of bytes wraps apart from its ring: at all times the events that the guest has not
acknowledged are in the ring, each at the place with its number, and the guest is told of every
event that is dropped exactly if the overflow event is disabled or no event finds its ring full. -/
theorem event_ring {s : DWC3State} (hfresh : Fresh s) {ops : List Op} (hops : ∀ op ∈ ops, op.Whole)
    (hwrap : ∀ v, Consecutive (s.intrs v) ((run audit (audited s) ops).2 v)) :
    Throughout audit Kept (audited s) ops ∧ (Guarded audit Told (audited s) ops ↔
      (s.devten.getLsbD 11 = true →
        Guarded audit (fun p op => ¬ FindsFull p op) (audited s) ops)) := by
  have hstart : Sound (audited s) := by
    refine ⟨fun v => ?_, fun v => not_mem_nil⟩
    obtain ⟨hhead, hcount, hsize, hpos⟩ := hfresh v
    exact ⟨hsize, hpos, le_rfl, congrArg BitVec.toNat hcount, by simp [audited, hcount], hhead,
      fun _ k hk => absurd hk (Nat.not_lt_zero k)⟩
  exact hstart.promises_run hops hwrap

end Runs

/-- A ring of two slots, with the overflow event enabled. -/
def sampleState : DWC3State := ⟨fun _ => ⟨8, 0, 0, fun _ => 0⟩, 1, 0, 0xFFFFFFFF⟩

/-- Two events, of which the first is acknowledged, and a third one. -/
def ackedOps : List Op := [.event 0 1, .event 0 2, .ack 0 4, .event 0 3]

/-- The third event takes the place of the first, and the guest misses none. -/
theorem event_ring_sample : (∀ op ∈ ackedOps, op.Whole) ∧
    Guarded audit Told (audited sampleState) ackedOps ∧
    Waits (run audit (audited sampleState) ackedOps) 0 3 2 := by
  have hops : ∀ op ∈ ackedOps, op.Whole := by
    simp [ackedOps, Op.Whole, overflow]
  have hfresh : Fresh sampleState :=
    fun _ => ⟨rfl, rfl, (by decide : 4 ∣ 8), (by decide : 0 < 8)⟩
  obtain ⟨hkept, htold⟩ := event_ring hfresh hops fun _ => .inr (by decide : 8 ∣ 2 ^ 32)
  refine ⟨hops, htold.mpr fun _ => by decide, ?_⟩
  exact throughout_iff_prefix.mp hkept _ (List.prefix_rfl) 0 2 3 (by decide) (by decide)

/-- The third event finds a full ring: it is dropped, and the overflow event, which is enabled, is
not there. -/
theorem not_event_ring : sampleState.devten.getLsbD 11 = true ∧
    ¬ Guarded audit Told (audited sampleState) [.event 0 1, .event 0 2, .event 0 3] := by
  decide

end Inferno.Dwc3.Events
