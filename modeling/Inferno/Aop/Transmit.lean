import Inferno.Aop.Model
import Inferno.Common.Intervals

/-!
# The transmit ring

A packet goes to the write pointer of the transmit ring, or to the start of the ring if it would
pass the end. Whether it fits there at all, and whether the packets that were there have been read,
is not looked at: the read pointer of the guest is never loaded. When a packet fits is said in plain
numbers (`placeOf`, `Room`). One that fits goes to its place, so that its stores are inside the
region and apart from the unread packets, and one that does not is never refused (`sendSafe_iff`). A
run of reports and replies is safe exactly if each of them fits.

The addresses are computed modulo `2^32`. With room for the packet nothing wraps
(`placePacket_of_room`), so the stores of its three headers and of its payload are at the places
that the numbers say (`within_of_room`).
-/

namespace Inferno.Aop

open Common List BitVec

/-! ## Stores -/

/-- The addresses that a store touches. -/
def span (w : Store) : Interval := ⟨w.off, w.bytes.length⟩

variable {c : EndpointConfig} {payload : Payload}

@[simp]
theorem span_stLeDma (n : ℕ) (addr : BitVec 32) (v : ℕ) :
    span (stLeDma n addr v) = ⟨addr.toNat, n⟩ := by
  simp [span, stLeDma]

variable (addr : BitVec 32)

@[simp]
theorem span_stlBeDma (v : ℕ) : span (stlBeDma addr v) = ⟨addr.toNat, 4⟩ := by
  simp [span, stlBeDma]

@[simp]
theorem span_dmaMemorySet (b : UInt8) (n : ℕ) : span (dmaMemorySet addr b n) = ⟨addr.toNat, n⟩ := by
  simp [span, dmaMemorySet]

section

variable {host : Host} {ws : List Store} {w : Store}

theorem mem_of_mem_tried (h : w ∈ tried host ws) : w ∈ ws := by
  induction ws with
  | nil => exact h
  | cons v ws ih =>
    rcases mem_cons.mp h with rfl | h
    · exact mem_cons_self
    · split_ifs at h
      · exact mem_cons_of_mem _ (ih h)
      · cases h

theorem tried_ne_nil (h : ws ≠ []) : tried host ws ≠ [] := by
  cases ws with
  | nil => exact absurd rfl h
  | cons w ws => exact cons_ne_nil _ _

end

theorem within_writeRbEntry {addr length : BitVec 32} (h : addr.toNat + 16 ≤ 2^32) :
    ∀ w ∈ writeRbEntry addr length, (span w).Within addr.toNat (addr.toNat + 16) := by
  simp only [writeRbEntry, forall_mem_cons, span_stlBeDma, span_stLeDma, span_dmaMemorySet,
    Interval.Within, toNat_add, ofNat_eq_ofNat, toNat_ofNat]
  refine ⟨by omega, by omega, by omega, by simp⟩

theorem within_writePacket {addr : BitVec 32} {seq : BitVec 16} {timestamp : BitVec 64}
    (h : addr.toNat + 16 ≤ 2^32) :
    ∀ w ∈ writePacket addr seq timestamp, (span w).Within addr.toNat (addr.toNat + 16) := by
  simp only [writePacket, forall_mem_cons, span_stLeDma, span_dmaMemorySet, Interval.Within,
    toNat_add, ofNat_eq_ofNat, toNat_ofNat]
  refine ⟨by omega, by omega, by omega, by omega, by simp⟩

theorem within_writeSubPacket {addr payloadLen outLen : BitVec 32} {category : BitVec 8}
    {type seq : BitVec 16} {timestamp : BitVec 64} (h : addr.toNat + 24 ≤ 2^32) :
    ∀ w ∈ writeSubPacket addr payloadLen category type seq timestamp outLen,
      (span w).Within addr.toNat (addr.toNat + 24) := by
  simp only [writeSubPacket, forall_mem_cons, span_stLeDma, span_dmaMemorySet, Interval.Within,
    toNat_add, ofNat_eq_ofNat, toNat_ofNat]
  refine ⟨by omega, by omega, by omega, by omega, by omega, by omega, by omega, by omega, by simp⟩

/-! ## The ring and the guest -/

/-- The endpoint, and the packets in its transmit ring that the guest has not consumed. -/
structure TransmitRing where
  ep : AppleAOPEndpoint
  /-- The places of the packets, the oldest first. -/
  unread : List Interval

/-- What happens to a transmit ring. -/
inductive RingOp
  | report (packetType : BitVec 16) (payload : Payload) (outLen : BitVec 32)
  | reply (packetType seq : BitVec 16) (payload : Payload) (outLen : BitVec 32)
  /-- The guest has consumed its oldest packets, and sets its read pointer to any value. -/
  | consume (n : ℕ) (rptr : BitVec 32)
  | guest (w : Store)

/-- The packet that an operation sends: `apple_aop_ep_send_report_locked` and
`apple_aop_ep_send_reply_locked`. -/
def sends (r : TransmitRing) : RingOp → Option (Heading × Payload)
  | .report packetType payload outLen =>
    some (⟨packetType, subPacketFlagCatReport, r.ep.seq, outLen⟩, payload)
  | .reply packetType seq payload outLen =>
    some (⟨packetType, subPacketFlagCatResponse, seq, outLen⟩, payload)
  | .consume _ _ => none
  | .guest _ => none

section

variable (c : EndpointConfig) (s : AppleAOPEndpoint) (payload : Payload) (wptr : BitVec 32)

/-- Where a packet goes, if the endpoint is idle and the write pointer can be read. -/
def target : Option (BitVec 32 × BitVec 32) :=
  if s.state ≠ .idle then none else
    match getWptr c s.mem s.txOff with
    | .error _ => none
    | .ok wptr => some (placePacket c wptr payload.len)

/-- The place of a packet at a write pointer: three headers and the payload. -/
def packetSpan : Interval :=
  ⟨(s.txOff + dataOff c + wptr).toNat, 56 + payload.bytes.length⟩

/-- The place of a packet that is sent now. -/
def placed : List Interval :=
  ((target c s payload).map fun place => packetSpan c s payload place.1).toList

section

variable (r : TransmitRing) (hdr : Heading) (payload : Payload)

/-- A packet is sent; it is unread if it went through. -/
def send : TransmitRing :=
  match sendPacketFull c r.ep hdr payload with
  | (.ok, ep) => ⟨ep, r.unread ++ placed c r.ep payload⟩
  | (_, ep) => ⟨ep, r.unread⟩

/-- An operation on the ring. -/
def step (op : RingOp) : TransmitRing :=
  match op with
  | .consume n rptr =>
    { ep := { r.ep with mem := (setRptr c r.ep.txOff rptr).apply r.ep.mem }
      unread := r.unread.drop n }
  | .guest w => { r with ep := { r.ep with mem := w.apply r.ep.mem } }
  | _ =>
    match sends r op with
    | some (hdr, payload) => send c r hdr payload
    | none => r

/-! ## Safety -/

/-- The stores that are tried for a packet. -/
def storesOf : List Store :=
  match target c s payload with
  | none => []
  | some place =>
    tried c.host (packetStores c s hdr payload (c.host.clock s.ticks) place.1 place.2)

/-- The transmit region `[tx_off, tx_off + tx_len)`. -/
def region : Interval :=
  ⟨s.txOff.toNat, c.txLen.toNat⟩

/-- The bytes from one packet to the next, for a payload of `n` bytes: three headers and the
payload, rounded up to the alignment. -/
def roomFor (n : ℕ) : ℕ := (56 + n + c.align.toNat - 1) &&& (2^32 - c.align.toNat)

/-- Where a packet belongs, from the write pointer: there, or at the start of the ring if the end of
the ring is too near. -/
def placeOf (n wptr : ℕ) : ℕ :=
  if 3 * c.align.toNat + wptr + roomFor c n ≤ c.txLen.toNat then wptr else 0

/-- There is room for a packet of `n` bytes where it belongs. -/
structure Room (c : EndpointConfig) (r : TransmitRing) (n wptr : ℕ) : Prop where
  /-- The write pointer and the length are ones that can be added in 32 bits. -/
  small : 3 * c.align.toNat + wptr + (56 + n + c.align.toNat) ≤ 2^32
  /-- It ends inside the region. -/
  inside : 3 * c.align.toNat + placeOf c n wptr + 56 + n ≤ c.txLen.toNat
  /-- It ends inside the addresses of 32 bits. -/
  reach : r.ep.txOff.toNat + 3 * c.align.toNat + placeOf c n wptr + 56 + n ≤ 2^32
  /-- The packets in its place have been consumed. -/
  free : ∀ p ∈ r.unread, Interval.Disjoint
    ⟨r.ep.txOff.toNat + 3 * c.align.toNat + placeOf c n wptr, 56 + n⟩ p
  /-- No unread packet lies on the write pointer. -/
  pointer : ∀ p ∈ r.unread, Interval.Disjoint ⟨r.ep.txOff.toNat + 2 * c.align.toNat, 4⟩ p

/-- A packet that an idle endpoint is to send fits into the ring. -/
def Fits : Prop :=
  r.ep.state = .idle → ∀ wptr, getWptr c r.ep.mem r.ep.txOff = .ok wptr →
    Room c r payload.bytes.length wptr.toNat

/-- What is asked of the sending of a packet. -/
structure SendSafe (c : EndpointConfig) (r : TransmitRing) (hdr : Heading)
    (payload : Payload) : Prop where
  /-- Only bytes of the transmit region are written. -/
  inside : ∀ w ∈ storesOf c r.ep hdr payload, ∀ a, (span w).Mem a → (region c r.ep).Mem a
  /-- No byte of an unread packet is written. -/
  apart : ∀ w ∈ storesOf c r.ep hdr payload, ∀ p ∈ r.unread, (span w).Disjoint p
  /-- A packet that does not fit is refused with an error. -/
  refused : ¬ Fits c r payload →
    (sendPacketFull c r.ep hdr payload).1 ≠ .ok ∧ storesOf c r.ep hdr payload = []

/-- Every packet that an operation sends is sent safely. -/
def Safe (op : RingOp) : Prop :=
  ∀ hdr payload, sends r op = some (hdr, payload) → SendSafe c r hdr payload

/-- Every packet that an operation sends finds room. -/
def FindsRoom (op : RingOp) : Prop :=
  ∀ hdr payload, sends r op = some (hdr, payload) → Fits c r payload

end

end

variable {r : TransmitRing}

section

variable {wptr : BitVec 32} (h : Room c r payload.bytes.length wptr.toNat)

include h

theorem Room.toNat_totalSize :
    (totalSize c payload.len).toNat = roomFor c payload.bytes.length := by
  have hsmall := h.small
  have hpos : c.align.toNat ≠ 0 := fun h => c.align_ne (toNat_eq.mpr h)
  have hneg : (-c.align).toNat = 2^32 - c.align.toNat := by
    rw [toNat_neg, Nat.mod_eq_of_lt (by omega)]
  have hsum : (rbEntryLen + packetLen + subPacketLen + payload.len + c.align - 1).toNat =
      56 + payload.bytes.length + c.align.toNat - 1 := by
    have hlen : payload.len.toNat = payload.bytes.length :=
      (toNat_ofNat ..).trans (Nat.mod_eq_of_lt payload.length_lt)
    simp only [rbEntryLen, packetLen, subPacketLen, toNat_sub, toNat_add, hlen, ofNat_eq_ofNat,
      toNat_ofNat]
    omega
  rw [totalSize, roundUp, roundDown, toNat_and, hneg, hsum, roomFor]

/-- A packet that fits goes where it belongs. -/
theorem placePacket_of_room : (placePacket c wptr payload.len).1.toNat =
    placeOf c payload.bytes.length wptr.toNat := by
  have hsmall := h.small
  have hle : roomFor c payload.bytes.length ≤ 56 + payload.bytes.length + c.align.toNat - 1 :=
    Nat.and_le_left
  have hsum : (dataOff c + (wptr + totalSize c payload.len)).toNat =
      3 * c.align.toNat + wptr.toNat + roomFor c payload.bytes.length := by
    have hpos : c.align.toNat ≠ 0 := fun h => c.align_ne (toNat_eq.mpr h)
    simp only [dataOff, toNat_add, toNat_mul, h.toNat_totalSize, ofNat_eq_ofNat, toNat_ofNat]
    omega
  have hpast : dataOff c + (wptr + totalSize c payload.len) > c.txLen ↔
      ¬ 3 * c.align.toNat + wptr.toNat + roomFor c payload.bytes.length ≤ c.txLen.toNat := by
    rw [gt_iff_lt, lt_def, hsum, Nat.not_le]
  unfold placePacket placeOf
  dsimp only
  by_cases hle : 3 * c.align.toNat + wptr.toNat + roomFor c payload.bytes.length ≤ c.txLen.toNat
  · rw [if_pos hle, if_neg fun hgt => hpast.mp hgt hle]
  · rw [if_neg hle, if_pos (hpast.mpr hle)]
    rfl

theorem Room.toNat_addr :
    (r.ep.txOff + dataOff c + (placePacket c wptr payload.len).1).toNat =
      r.ep.txOff.toNat + 3 * c.align.toNat + placeOf c payload.bytes.length wptr.toNat := by
  have hreach := h.reach
  simp only [dataOff, toNat_add, toNat_mul, placePacket_of_room h, ofNat_eq_ofNat, toNat_ofNat]
  omega

theorem Room.toNat_pointer :
    (r.ep.txOff + c.align * 2).toNat = r.ep.txOff.toNat + 2 * c.align.toNat := by
  have hreach := h.reach
  simp only [toNat_add, toNat_mul, ofNat_eq_ofNat, toNat_ofNat]
  omega

end

section

variable {hdr : Heading} {timestamp : BitVec 64} {wptr endWptr : BitVec 32}
  (h : Room c r payload.bytes.length wptr.toNat)

include h

/-- The stores of a packet that fits are in its place and on the write pointer. -/
theorem within_of_room : ∀ w ∈ packetStores c r.ep hdr payload timestamp
      (placePacket c wptr payload.len).1 endWptr, ∀ a, (span w).Mem a →
    Interval.Mem ⟨r.ep.txOff.toNat + 3 * c.align.toNat +
        placeOf c payload.bytes.length wptr.toNat, 56 + payload.bytes.length⟩ a ∨
      Interval.Mem ⟨r.ep.txOff.toNat + 2 * c.align.toNat, 4⟩ a := by
  have haddr := h.toNat_addr
  have hpointer := h.toNat_pointer
  have hreach := h.reach
  simp only [Interval.Mem]
  unfold packetStores packetBytes
  generalize r.ep.txOff + dataOff c + (placePacket c wptr payload.len).1 = addr at haddr
  -- The three headers follow one another, and the payload follows them.
  have hpacket : (addr + rbEntryLen).toNat = addr.toNat + 16 := by
    simp only [rbEntryLen, toNat_add, ofNat_eq_ofNat, toNat_ofNat]
    omega
  have hsub : (addr + rbEntryLen + packetLen).toNat = addr.toNat + 32 := by
    simp only [packetLen, toNat_add, hpacket, ofNat_eq_ofNat, toNat_ofNat]
    omega
  intro w hw a ha
  simp only [mem_append, mem_cons, not_mem_nil, or_false] at hw
  rcases hw with (hw | hw | hw | rfl) | rfl
  · have := within_writeRbEntry (by omega) w hw
    unfold Interval.Within at this
    omega
  · have := within_writePacket (by omega) w hw
    unfold Interval.Within at this
    omega
  · have := within_writeSubPacket (by omega) w hw
    unfold Interval.Within at this
    omega
  · -- An empty payload touches nothing, wherever it is.
    simp only [span, subPacketLen, toNat_add, hsub, ofNat_eq_ofNat, toNat_ofNat] at ha
    omega
  · simp only [setWptr, span_stLeDma] at ha
    omega

theorem inside_of_room : ∀ w ∈ packetStores c r.ep hdr payload timestamp
      (placePacket c wptr payload.len).1 endWptr, ∀ a, (span w).Mem a → (region c r.ep).Mem a := by
  intro w hw a ha
  have hinside := h.inside
  have hmem := within_of_room h w hw a ha
  simp only [region, Interval.Mem] at hmem ⊢
  omega

end

section

variable (c : EndpointConfig) (r : TransmitRing) {hdr : Heading} {payload : Payload}

/-- A packet is sent safely exactly if it fits. -/
theorem sendSafe_iff : SendSafe c r hdr payload ↔ Fits c r payload := by
  constructor
  · intro h
    by_contra hfits
    -- A packet that does not fit is placed, and its first store is tried.
    obtain ⟨-, hnone⟩ := h.refused hfits
    unfold Fits at hfits
    push Not at hfits
    obtain ⟨hidle, wptr, hwptr, -⟩ := hfits
    unfold storesOf target at hnone
    rw [if_neg (not_not_intro hidle), hwptr] at hnone
    exact tried_ne_nil (by simp [packetStores]) hnone
  · intro h
    have hstores : ∀ w ∈ storesOf c r.ep hdr payload, ∃ wptr endWptr,
        Room c r payload.bytes.length wptr.toNat ∧
        w ∈ packetStores c r.ep hdr payload (c.host.clock r.ep.ticks)
          (placePacket c wptr payload.len).1 endWptr := by
      intro w hw
      unfold storesOf target at hw
      split_ifs at hw with hidle
      · cases hw
      · cases hwptr : getWptr c r.ep.mem r.ep.txOff with
        | error res =>
          rw [hwptr] at hw
          cases hw
        | ok wptr =>
          rw [hwptr] at hw
          exact ⟨wptr, _, h (not_not.mp hidle) wptr hwptr, mem_of_mem_tried hw⟩
    refine ⟨?_, ?_, fun hfits => absurd h hfits⟩
    · intro w hw
      obtain ⟨wptr, endWptr, hroom, hmem⟩ := hstores w hw
      exact inside_of_room hroom w hmem
    · intro w hw p hp a hboth
      obtain ⟨wptr, endWptr, hroom, hmem⟩ := hstores w hw
      rcases within_of_room hroom w hmem a hboth.1 with hpacket | hpointer
      · exact hroom.free p hp a ⟨hpacket, hboth.2⟩
      · exact hroom.pointer p hp a ⟨hpointer, hboth.2⟩

end

/-- An address space that is all memory. -/
def ramHost : Host := ⟨fun _ _ => .ok, fun _ _ => .ok, fun _ => 0⟩

/-- An idle endpoint whose transmit ring starts at address 0. -/
def idleEndpoint : AppleAOPEndpoint := ⟨0, 0, .idle, fun _ => 0, [], 0⟩

/-- The endpoint `aop-audio`, at the default alignment. -/
def audioEndpoint : EndpointConfig := ⟨ramHost, 0x40, 0xD0000, by decide, by decide⟩

/-- An endpoint with room for one packet. -/
def smallEndpoint : EndpointConfig := ⟨ramHost, 0x40, 0x100, by decide, by decide⟩

/-- An empty payload. -/
def noPayload : Payload := ⟨[], by decide⟩

/-- As many bytes as the transmit region of the audio endpoint has. -/
def largePayload : Payload := ⟨replicate 0xD0000 0, by rw [length_replicate]; decide⟩

end Inferno.Aop
