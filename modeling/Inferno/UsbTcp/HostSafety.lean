import Inferno.UsbTcp.Core

/-!
# What the host asserts about its peer

The host follows the fields of a message into the USB core, which asserts what the host has not
checked: the type of the message, the endpoint of a request or a cancellation, and of a request that
the device has been reset and may answer the way it does. So the host survives a stream exactly if
it accepts what it gets to read in the state that it is in then (`HostAccepts`). What is asserted
besides always holds: cancelled packets are in flight, control transfers copy no more than fits
(`usbProcessOne_isSome`), and a packet that is cleaned up is not in flight.
-/

namespace Inferno.UsbTcp

open Common Option List Prod
open Except (ok)

/-! ## The core of the host -/

section Core

variable {δ : Type} {b : Backend δ} {dev : USBDevice δ} {ref : EpRef} {p : CorePacket}

/-- The endpoint is there exactly if the assertions of `usb_ep_get` hold. -/
theorem usbEpRef_isSome {pid : UInt32} {ep : UInt8} :
    (usbEpRef pid ep).isSome = usbEpGet pid ep := by
  have hbound : ep ≠ 0 → (ep.toNat - 1 < 15 ↔ ep ≤ 15) := by
    intro hep
    show ep.toNat - 1 < 15 ↔ ep.toNat ≤ 15
    omega
  unfold usbEpRef usbEpGet
  by_cases hep : ep = 0
  · simp [hep]
  · by_cases hpid : pid = usbTokenIn ∨ pid = usbTokenOut
    · by_cases hle : ep ≤ 15
      · simp [hep, hpid, hle, (hbound hep).mpr hle]
      · have hnot : ¬ ep.toNat - 1 < 15 := fun h => hle ((hbound hep).mp h)
        simp [hep, hle, hnot]
    · simp [hep, hpid]

theorem corePacketCopy_isSome {buffer : List UInt8}
    (hroom : p.actualLength + buffer.length ≤ p.iov.length)
    (hpid : p.pid = usbTokenSetup ∨ p.pid = usbTokenIn ∨ p.pid = usbTokenOut) :
    (corePacketCopy p buffer).isSome = true := by
  unfold corePacketCopy
  rw [dif_pos hroom]
  split_ifs with hout hin
  · rfl
  · rfl
  · rcases hpid with h | h | h
    · exact absurd (.inl h) hout
    · exact absurd h hin
    · exact absurd (.inr h) hout

theorem dataLen_le (dev : USBDevice δ) {size : ℕ} : dev.dataLen size ≤ size := by
  unfold USBDevice.dataLen
  split_ifs
  · exact Nat.min_le_right _ _
  · exact Nat.le_refl _

theorem copyData_isSome {dev : USBDevice δ} (h : p.actualLength = 0)
    (hpid : p.pid = usbTokenSetup ∨ p.pid = usbTokenIn ∨ p.pid = usbTokenOut) : (corePacketCopy p
      (load dev.dataBuf dev.setupIndex (dev.dataLen p.iov.length))).isSome = true := by
  refine corePacketCopy_isSome ?_ hpid
  rw [h, load_length, Nat.zero_add]
  exact dataLen_le dev

/-- `do_token_setup` of a new packet. -/
theorem doTokenSetup_isSome (h : p.actualLength = 0) (hpid : p.pid = usbTokenSetup) :
    (doTokenSetup b dev p).isSome = true := by
  unfold doTokenSetup
  split_ifs
  · rw [isSome_map]
    refine corePacketCopy_isSome ?_ (.inl hpid)
    rw [h, length_replicate, Nat.zero_add]
  · rfl

/-- `do_token_in` of a new packet. -/
theorem doTokenIn_isSome (h : p.actualLength = 0) (hpid : p.pid = usbTokenIn) :
    (doTokenIn b dev .ctl p).isSome = true := by
  unfold doTokenIn
  rw [if_neg (fun hne => hne rfl)]
  split
  · dsimp only
    split_ifs <;> rfl
  · split_ifs
    · exact (isSome_map ..).trans (copyData_isSome h (.inr (.inl hpid)))
    · rfl
  · rfl

/-- `do_token_out` of a new packet. -/
theorem doTokenOut_isSome (h : p.actualLength = 0) (hpid : p.pid = usbTokenOut) :
    (doTokenOut dev .ctl p).isSome = true := by
  unfold doTokenOut
  rw [if_neg (fun hne => hne rfl)]
  split
  · rfl
  · split_ifs
    · rfl
    · exact (isSome_map ..).trans (copyData_isSome h (.inr (.inr hpid)))
  · rfl

theorem usbProcessOne_isSome (b : Backend δ) {dev : USBDevice δ} (ref : EpRef)
    (h : p.actualLength = 0) : (usbProcessOne b dev ref p).isSome = true := by
  unfold usbProcessOne
  dsimp only
  split_ifs with hall href hsetup hin hout
  · rfl
  · exact doTokenSetup_isSome h hsetup
  · exact href ▸ doTokenIn_isSome h hin
  · exact href ▸ doTokenOut_isSome h hout
  · rfl
  · rfl

/-- A device may answer a packet in this way. -/
structure AnswerOk (dev : USBDevice δ) (ref : EpRef) (p : CorePacket) : Prop where
  /-- Neither isochronous packets nor, but for a host device, interrupt packets are left for
  later. -/
  async : p.status = usbRetAsync →
    (dev.ep ref).type ≠ .isoc ∧ ((dev.ep ref).type ≠ .int ∨ dev.isHost = true)
  /-- A packet of a pipeline is not answered before others that wait. -/
  ordered : p.status ≠ usbRetAsync → p.status ≠ usbRetAddToQueue →
    p.stream ≠ 0 ∨ ¬ (dev.ep ref).pipeline = true ∨ (dev.ep ref).queue = []

theorem finishPacket_isSome_iff : (finishPacket dev ref p).isSome = true ↔ AnswerOk dev ref p := by
  unfold finishPacket
  by_cases hasync : p.status = usbRetAsync
  · rw [if_pos hasync]
    split_ifs with htype
    · exact iff_of_true rfl ⟨fun _ => htype, fun h => absurd hasync h⟩
    · exact iff_of_false Bool.false_ne_true fun h => htype (h.async hasync)
  · rw [if_neg hasync]
    by_cases hadd : p.status = usbRetAddToQueue
    · rw [if_pos hadd]
      exact iff_of_true rfl ⟨fun h => absurd h hasync, fun _ h => absurd hadd h⟩
    · rw [if_neg hadd, isSome_ite]
      exact ⟨fun h => ⟨fun hcon => absurd hcon hasync, fun _ _ => h⟩,
        fun h => h.ordered hasync hadd⟩

/-- A device takes a packet, and answers it in a way that it may. -/
structure PacketOk (b : Backend δ) (dev : USBDevice δ) (ref : EpRef) (p : CorePacket) : Prop where
  /-- The device has been reset. -/
  default : dev.state = .default
  /-- No packet waits on an endpoint that is halted. -/
  halted : (dev.ep ref).halted = true → (dev.ep ref).queue = []
  /-- A packet that is processed at once is answered as it may be. -/
  answer : Immediate (dev.ep ref) p → ∀ r, usbProcessOne b (clearHalt dev ref) ref p = some r →
    AnswerOk r.1 ref r.2

section

variable (b : Backend δ) (dev : USBDevice δ) (ref : EpRef)

/-- The assertions of `usb_handle_packet` about a new packet. -/
theorem usbHandlePacket_isSome_iff (hstate : p.state = .setup) (h : p.actualLength = 0) :
    (usbHandlePacket b dev ref p).isSome = true ↔ PacketOk b dev ref p := by
  unfold usbHandlePacket
  dsimp only
  split_ifs with hready hhalted himmediate
  · refine iff_of_false Bool.false_ne_true fun hok => ?_
    rcases hready with hdev | hpacket
    · exact hdev hok.default
    · exact hpacket hstate
  · exact iff_of_false Bool.false_ne_true fun hok => hhalted.2 (hok.halted hhalted.1)
  · obtain ⟨r, hr⟩ := isSome_iff_exists.mp (usbProcessOne_isSome b ref h)
    rw [hr, bind_some, finishPacket_isSome_iff]
    push Not at hready hhalted
    constructor
    · intro hanswer
      exact ⟨hready.1, hhalted, fun _ r' hr' => some.inj (hr.symm.trans hr') ▸ hanswer⟩
    · exact fun hok => hok.answer himmediate r hr
  · push Not at hready hhalted
    exact iff_of_true rfl ⟨hready.1, hhalted, fun h => absurd h himmediate⟩

theorem respondPacket_isSome (r : USBDevice δ × CorePacket) : (respondPacket r).isSome = true := by
  unfold respondPacket usbPacketCleanup
  split_ifs <;> rfl

theorem requestPacket_new (hdr : RequestHeader) (payload : List UInt8) :
    (requestPacket hdr payload).state = .setup ∧ (requestPacket hdr payload).actualLength = 0 := by
  unfold requestPacket
  split_ifs <;> exact ⟨rfl, rfl⟩

theorem usbCancelPacket_isSome (h : p ∈ (dev.ep ref).queue) :
    (usbCancelPacket b dev ref p).isSome = true := by
  unfold usbCancelPacket
  rw [if_pos ((dev.ep ref).inflight p h)]
  rfl

/-- What the host asserts about a message that it has read. -/
def MessageOk : Message → Prop
  | .request hdr payload =>
    ∀ ref, usbEpRef hdr.pid hdr.ep = some ref → PacketOk b dev ref (requestPacket hdr payload)
  | _ => True

/-- The endpoint that a message names, if any, is one that a device can have. -/
def Message.endpointOk : Message → Bool
  | .request hdr _ => usbEpGet hdr.pid hdr.ep
  | .cancel hdr => usbEpGet hdr.pid hdr.ep
  | .reset => true

/-- The assertions about a message that names an endpoint as it should. -/
theorem handleHostMessage_isSome_iff {m : Message} (h : m.endpointOk = true) :
    (handleHostMessage b dev m).isSome = true ↔ MessageOk b dev m := by
  cases m with
  | request hdr payload =>
    obtain ⟨ref, href⟩ := isSome_iff_exists.mp (usbEpRef_isSome.trans h)
    obtain ⟨hstate, hactual⟩ := requestPacket_new hdr payload
    have hhandle := usbHandlePacket_isSome_iff b dev ref hstate hactual
    rw [handleHostMessage, href, bind_some]
    constructor
    · intro hsome ref' href'
      obtain rfl : ref = ref' := some.inj (href.symm.trans href')
      exact hhandle.mp (isSome_of_isSome_bind hsome)
    · intro hok
      obtain ⟨r, hr⟩ := isSome_iff_exists.mp (hhandle.mpr (hok ref href))
      rw [hr]
      exact respondPacket_isSome r
  | cancel hdr =>
    obtain ⟨ref, href⟩ := isSome_iff_exists.mp (usbEpRef_isSome.trans h)
    refine iff_of_true ?_ trivial
    rw [handleHostMessage, href, bind_some]
    split
    case h_1 p hp =>
      obtain ⟨r, hr⟩ := isSome_iff_exists.mp
        (usbCancelPacket_isSome b dev ref (mem_of_find?_eq_some hp))
      rw [hr]
      exact respondPacket_isSome r
    case h_2 => rfl
  | reset => exact iff_of_true rfl trivial

end

end Core

/-! ## What is read -/

section Front

variable {α : Type} {ofBytes : List UInt8 → Option α}

section

variable (type : UInt8) (n : ℕ) (ofBytes : List UInt8 → Option α)

/-- The header of some size in front of a stream, and what follows it. -/
def header (bs : List UInt8) : Option (α × List UInt8) :=
  (takeExactly n bs).bind fun r => (ofBytes r.1).map fun hdr => (hdr, r.2)

/-- The header of a message of some type in front of a stream, and what follows it. -/
def front : List UInt8 → Option (α × List UInt8)
  | [] => none
  | t :: bs => if t = type then header n ofBytes bs else none

end

theorem front_cons_eq_some_iff {type t : UInt8} {n : ℕ} {bs : List UInt8} {r : α × List UInt8} :
    front type n ofBytes (t :: bs) = some r ↔ t = type ∧ header n ofBytes bs = some r := by
  rw [front]
  split_ifs with ht
  · exact (and_iff_right ht).symm
  · exact iff_of_false nofun fun h => ht h.1

theorem length_header {n : ℕ} {bs : List UInt8} {hdr : α} {rest : List UInt8}
    (h : header n ofBytes bs = some (hdr, rest)) : rest.length ≤ bs.length := by
  obtain ⟨r, hr, hmap⟩ := bind_eq_some_iff.mp h
  obtain ⟨hdr', -, heq⟩ := map_eq_some_iff.mp hmap
  unfold takeExactly at hr
  split_ifs at hr
  obtain rfl := some.inj hr
  rw [← (mk.inj heq).2, length_drop]
  omega

end Front

/-- The header of a request in front of a stream. -/
def requestFront : List UInt8 → Option (RequestHeader × List UInt8) :=
  front tcpUsbRequest 22 RequestHeader.ofBytes

/-- The header of a cancellation in front of a stream. -/
def cancelFront : List UInt8 → Option (CancelHeader × List UInt8) :=
  front tcpUsbCancel 14 CancelHeader.ofBytes

/-- The header of a response in front of a stream. -/
def responseFront : List UInt8 → Option (ResponseHeader × List UInt8) :=
  front tcpUsbResponse 20 ResponseHeader.ofBytes

/-- What is read behind a header, the endpoint of which is asserted. -/
def behindHeader {α : Type} (n : ℕ) (ofBytes : List UInt8 → Option α) (endpointOk : α → Bool)
    (read : α → List UInt8 → Except HostStop (Message × List UInt8)) (bs : List UInt8) :
    Except HostStop (Message × List UInt8) :=
  match header n ofBytes bs with
  | none => .error .cutShort
  | some (hdr, rest) => if endpointOk hdr then read hdr rest else .error .assertion

variable (bs : List UInt8)

theorem readRequest_eq :
    readRequest bs = behindHeader 22 RequestHeader.ofBytes (fun hdr => usbEpGet hdr.pid hdr.ep)
      readRequestPayload bs := by
  unfold readRequest behindHeader header
  cases takeExactly 22 bs with
  | none => rfl
  | some r =>
    cases hhdr : RequestHeader.ofBytes r.1 <;> simp [hhdr]

theorem readCancel_eq :
    readCancel bs = behindHeader 14 CancelHeader.ofBytes (fun hdr => usbEpGet hdr.pid hdr.ep)
      (fun hdr rest => .ok (.cancel hdr, rest)) bs := by
  unfold readCancel behindHeader header
  cases takeExactly 14 bs with
  | none => rfl
  | some r =>
    cases hhdr : CancelHeader.ofBytes r.1 <;> simp [hhdr]

section BehindHeader

variable {α : Type} {n : ℕ} {ofBytes : List UInt8 → Option α} {endpointOk : α → Bool}
  {read : α → List UInt8 → Except HostStop (Message × List UInt8)} {bs : List UInt8}

theorem of_behindHeader_eq_ok {r : Message × List UInt8}
    (h : behindHeader n ofBytes endpointOk read bs = .ok r) :
    ∃ hdr rest, header n ofBytes bs = some (hdr, rest) ∧ endpointOk hdr = true ∧
      read hdr rest = .ok r := by
  unfold behindHeader at h
  split at h
  · cases h
  · rename_i hdr rest hheader
    split_ifs at h with hep
    exact ⟨hdr, rest, hheader, hep, h⟩

theorem behindHeader_ne_iff (hread : ∀ hdr rest, read hdr rest ≠ .error .assertion) :
    behindHeader n ofBytes endpointOk read bs ≠ .error .assertion ↔
      ∀ hdr rest, header n ofBytes bs = some (hdr, rest) → endpointOk hdr = true := by
  unfold behindHeader
  cases header n ofBytes bs with
  | none => exact iff_of_true nofun nofun
  | some r =>
    obtain ⟨hdr, rest⟩ := r
    dsimp only
    split_ifs with hep
    · refine iff_of_true (hread hdr rest) ?_
      rintro _ _ ⟨rfl, rfl⟩
      exact hep
    · exact iff_of_false (fun h => h rfl) fun h => hep (h hdr rest rfl)

end BehindHeader

/-! ## The host -/

theorem readRequestPayload_cases (hdr : RequestHeader) (bs : List UInt8) :
    (∃ payload rest, readRequestPayload hdr bs = .ok (.request hdr payload, rest) ∧
      rest.length ≤ bs.length) ∨ readRequestPayload hdr bs = .error .cutShort := by
  unfold readRequestPayload
  split_ifs
  · unfold takeExactly
    split_ifs
    · refine .inl ⟨_, _, rfl, ?_⟩
      rw [length_drop]
      omega
    · exact .inr rfl
  · exact .inl ⟨[], bs, rfl, Nat.le_refl _⟩

/-- What the host asserts about the front of a stream: the type of the message, and its endpoint. -/
@[mk_iff]
structure FrontOk (bs : List UInt8) : Prop where
  type : ∀ t rest, bs = t :: rest →
    t = tcpUsbRequest ∨ t = tcpUsbResponse ∨ t = tcpUsbCancel ∨ t = tcpUsbReset
  request : ∀ hdr rest, requestFront bs = some (hdr, rest) → usbEpGet hdr.pid hdr.ep = true
  cancel : ∀ hdr rest, cancelFront bs = some (hdr, rest) → usbEpGet hdr.pid hdr.ep = true

/-- A message that is read names an endpoint as it should, and is taken off the stream. -/
theorem hostReadOne_ok {bs rest : List UInt8} {m : Message} (h : hostReadOne bs = .ok (m, rest)) :
    m.endpointOk = true ∧ rest.length < bs.length := by
  cases bs with
  | nil => cases h
  | cons t bs =>
    rw [hostReadOne, readRequest_eq, readCancel_eq] at h
    rw [length_cons]
    split_ifs at h
    · obtain ⟨hdr, bs', hheader, hep, hread⟩ := of_behindHeader_eq_ok h
      have hlen := length_header hheader
      rcases readRequestPayload_cases hdr bs' with ⟨payload, rest', hok, hle⟩ | herror
      · obtain ⟨rfl, rfl⟩ := mk.inj (ok.inj (hok.symm.trans hread))
        exact ⟨hep, by omega⟩
      · exact absurd (herror.symm.trans hread) nofun
    · obtain ⟨hdr, bs', hheader, hep, hread⟩ := of_behindHeader_eq_ok h
      have hlen := length_header hheader
      obtain ⟨rfl, rfl⟩ := mk.inj (ok.inj hread)
      exact ⟨hep, by omega⟩
    · obtain ⟨rfl, rfl⟩ := mk.inj (ok.inj h)
      exact ⟨rfl, Nat.lt_succ_self _⟩

/-- The host reads a message without a failed assertion exactly if the front of the stream is in
order. -/
theorem hostReadOne_ne_iff (bs : List UInt8) : hostReadOne bs ≠ .error .assertion ↔ FrontOk bs := by
  cases bs with
  | nil => exact iff_of_true nofun ⟨nofun, nofun, nofun⟩
  | cons t bs =>
    have hfront : FrontOk (t :: bs) ↔
        (t = tcpUsbRequest ∨ t = tcpUsbResponse ∨ t = tcpUsbCancel ∨ t = tcpUsbReset) ∧
        (∀ hdr rest, t = tcpUsbRequest → header 22 RequestHeader.ofBytes bs = some (hdr, rest) →
          usbEpGet hdr.pid hdr.ep = true) ∧
        (∀ hdr rest, t = tcpUsbCancel → header 14 CancelHeader.ofBytes bs = some (hdr, rest) →
          usbEpGet hdr.pid hdr.ep = true) := by
      rw [frontOk_iff, requestFront, cancelFront]
      simp [front_cons_eq_some_iff]
    have hpayload : ∀ hdr rest, readRequestPayload hdr rest ≠ .error .assertion := by
      intro hdr rest
      rcases readRequestPayload_cases hdr rest with ⟨_, _, hread, -⟩ | hread <;>
        rw [hread] <;> nofun
    rw [hfront, hostReadOne, readRequest_eq, readCancel_eq]
    -- The condition about a type is void for the others.
    split_ifs with hrequest hresponse hcancel hreset
    · rw [behindHeader_ne_iff hpayload, and_iff_right (.inl hrequest), and_iff_left]
      · exact forall₂_congr fun _ _ => (imp_iff_right hrequest).symm
      · exact fun _ _ ht => absurd (hrequest.symm.trans ht) (by decide)
    · refine iff_of_true nofun ⟨.inr (.inl hresponse), ?_, ?_⟩
      · exact fun _ _ ht => absurd (hresponse.symm.trans ht) (by decide)
      · exact fun _ _ ht => absurd (hresponse.symm.trans ht) (by decide)
    · have hread : ∀ (hdr : CancelHeader) (rest : List UInt8),
          ok (Message.cancel hdr, rest) ≠ .error HostStop.assertion := fun _ _ => nofun
      rw [behindHeader_ne_iff hread, and_iff_right (.inr (.inr (.inl hcancel))),
        and_iff_right fun _ _ ht => absurd ht hrequest]
      exact forall₂_congr fun _ _ => (imp_iff_right hcancel).symm
    · exact iff_of_true nofun ⟨.inr (.inr (.inr hreset)), fun _ _ ht => absurd ht hrequest,
        fun _ _ ht => absurd ht hcancel⟩
    · refine iff_of_false (fun h => h rfl) fun h => ?_
      rcases h.1 with ht | ht | ht | ht
      · exact hrequest ht
      · exact hresponse ht
      · exact hcancel ht
      · exact hreset ht

section Host

variable {δ : Type} {b : Backend δ} {dev : USBDevice δ} {bs : List UInt8}

/-- What the host asserts about a stream in front of it. -/
@[mk_iff]
structure HostAccepts (b : Backend δ) (dev : USBDevice δ) (bs : List UInt8) : Prop where
  /-- About the front of the stream. -/
  front : FrontOk bs
  /-- About the message, when it has been read. -/
  message : ∀ m rest, hostReadOne bs = .ok (m, rest) → MessageOk b (b.activity dev) m

theorem hostDeviceRound_iff :
    (∀ stop, hostDeviceRound b dev bs = .error stop → ¬ stop = .assertion) ↔
      HostAccepts b dev bs := by
  rw [hostAccepts_iff, ← hostReadOne_ne_iff]
  unfold hostDeviceRound
  cases hread : hostReadOne bs with
  | error stop => simp
  | ok r =>
    obtain ⟨m, rest⟩ := r
    have hhandle := handleHostMessage_isSome_iff b (b.activity dev) (hostReadOne_ok hread).1
    dsimp only
    constructor
    · intro h
      refine ⟨nofun, ?_⟩
      rintro _ _ ⟨rfl, rfl⟩
      refine hhandle.mp ?_
      cases hmessage : handleHostMessage b (b.activity dev) m with
      | none =>
        rw [hmessage] at h
        exact absurd rfl (h .assertion rfl)
      | some dev' => rfl
    · rintro ⟨-, hok⟩ stop hstop
      obtain ⟨dev', hdev'⟩ := isSome_iff_exists.mp (hhandle.mpr (hok m rest rfl))
      rw [hdev'] at hstop
      cases hstop

theorem hostDeviceRound_short (dev : USBDevice δ) (bs : List UInt8) (m : Message)
    (dev' : USBDevice δ) (rest : List UInt8) (h : hostDeviceRound b dev bs = .ok (m, dev', rest)) :
    rest.length < bs.length := by
  unfold hostDeviceRound at h
  split at h
  · cases h
  · rename_i m' rest' hread
    split at h
    · cases h
    · obtain ⟨rfl, htail⟩ := mk.inj (ok.inj h)
      exact (mk.inj htail).2 ▸ (hostReadOne_ok hread).2

theorem usbTcpHostRun_iff : (∃ stop, (usbTcpHostRun b dev bs).2 = some stop ∧ ¬ stop = .assertion) ↔
      ∀ dev' rest, Reads (hostDeviceRound b) dev bs dev' rest → HostAccepts b dev' rest :=
  (readAll_stop_iff hostDeviceRound_short (Nat.lt_succ_self _)).trans
    (forall₃_congr fun _ _ _ => hostDeviceRound_iff)

end Host

end Inferno.UsbTcp
