import Inferno.UsbTcp.HostSafety

/-!
# When a peer cannot stop the other end

The remote asserts of a response the endpoint, where no thread waits for it, the room in its packet
for the data that comes with it, and the place of the packet in its queue when it is completed.
Where no data comes with the response, its length is added to that of the packet without any check.
So the remote survives a stream, and no packet gets longer than its buffer, exactly if it accepts
what it gets to read (`RemoteAccepts`). With what the host asserts this is when neither end can stop
the other.
-/

namespace Inferno.UsbTcp

open Common List Option Prod Except

/-! ## Streams in pieces -/

variable (places : List (Option PlacedPacket))

theorem usbTcpRemoteRead_eq (length : ℕ) (pieces : List (List UInt8)) :
    (usbTcpRemoteRead length pieces).map (fun r => (r.1, r.2.flatten)) =
      takeExactly length pieces.flatten := by
  induction pieces generalizing length with
  | nil =>
    cases length <;> rfl
  | cons piece pieces ih =>
    rw [usbTcpRemoteRead, takeExactly, flatten_cons, length_append]
    split_ifs with hpiece hall hall
    · simp [take_append_of_le_length hpiece, drop_append_of_le_length hpiece]
    · omega
    · have hrest := ih (length - piece.length)
      rw [takeExactly, if_pos (by omega)] at hrest
      obtain ⟨r, hr, heq⟩ := map_eq_some_iff.mp hrest
      obtain ⟨hfront, hback⟩ := mk.inj heq
      have hle : piece.length ≤ length := by omega
      rw [hr, map_some, map_some, hback, hfront, take_append,
        drop_append, take_of_length_le hle, drop_eq_nil_of_le hle, nil_append]
    · have hrest := ih (length - piece.length)
      rw [takeExactly, if_neg (by omega), map_eq_none_iff] at hrest
      rw [hrest]
      rfl

/-! ## The remote -/

theorem readResponse_eq (found : Option LocalPacket) (bs : List UInt8) : readResponse found bs =
      match header 20 ResponseHeader.ofBytes bs with
      | none => .error .cutShort
      | some (hdr, rest) =>
        if found.any (·.inflight) = false ∧ usbEpGet hdr.pid hdr.ep = false then .error .assertion
        else readResponsePayload hdr rest := by
  unfold readResponse header
  cases takeExactly 20 bs with
  | none => rfl
  | some r =>
    cases hhdr : ResponseHeader.ofBytes r.1 <;> simp [hhdr]

variable (hdr : ResponseHeader)

/-- A response comes with data. -/
def ResponseHeader.HasData : Prop :=
  hdr.length > 0 ∧ hdr.status ≠ usbRetAsync ∧ hdr.pid = usbTokenIn

/-- The data of a response is there, if it comes with any. -/
def Complete (bs : List UInt8) : Prop :=
  hdr.HasData → hdr.length.toNat ≤ bs.length

section

variable {hdr : ResponseHeader} {bs : List UInt8}

theorem readResponsePayload_of_complete (h : Complete hdr bs) :
    ∃ payload rest, readResponsePayload hdr bs = .ok (⟨hdr, payload⟩, rest) ∧
      rest.length ≤ bs.length ∧ (hdr.HasData → payload.length = hdr.length.toNat) := by
  unfold readResponsePayload
  split_ifs with hdata
  · rw [takeExactly, if_pos (h hdata)]
    refine ⟨_, _, rfl, ?_, fun _ => length_take_of_le (h hdata)⟩
    rw [length_drop]
    omega
  · exact ⟨[], bs, rfl, Nat.le_refl _, fun hcon => absurd hcon hdata⟩

theorem readResponsePayload_of_not_complete (h : ¬ Complete hdr bs) :
    readResponsePayload hdr bs = .error .cutShort := by
  obtain ⟨hdata, hshort⟩ := Classical.not_imp.mp h
  unfold ResponseHeader.HasData at hdata
  unfold readResponsePayload
  rw [if_pos hdata, takeExactly, if_neg hshort]

end

/-- A packet has room for the data that a response speaks of. -/
def Room (p : LocalPacket) (hdr : ResponseHeader) : Prop :=
  hdr.status ≠ usbRetAsync → p.actualLength + hdr.length.toNat ≤ p.iov.length

/-- A packet is where it can be completed, unless a thread waits for it or the response has no
result. -/
def Placed (place : PlacedPacket) (hdr : ResponseHeader) : Prop :=
  place.packet.inflight = false → hdr.status ≠ usbRetAsync → hdr.status ≠ usbRetRemoveFromQueue →
    place.packet.state ≠ .queued ∧
      (place.packet.state = .async → hdr.status ≠ usbRetNak → place.stream ≠ 0 ∨ place.first = true)

section Deliver

variable {hdr : ResponseHeader} {payload : List UInt8} {p : LocalPacket}

variable {place : PlacedPacket}

/-- A copy fails for want of room only, and otherwise moves on in a vector of the same size. -/
theorem usbPacketCopy_cases (p : LocalPacket) (buffer : List UInt8) :
    (p.actualLength + buffer.length ≤ p.iov.length ∧ ∃ iov, iov.length = p.iov.length ∧
      usbPacketCopy p buffer =
        .ok { p with iov := iov, actualLength := p.actualLength + buffer.length }) ∨
    (¬ p.actualLength + buffer.length ≤ p.iov.length ∧
      usbPacketCopy p buffer = .error .noRoom) := by
  unfold usbPacketCopy
  dsimp only
  split_ifs with hroom
  · refine .inl ⟨hroom, ?_⟩
    cases p.pid with
    | setup | out => exact ⟨p.iov, rfl, rfl⟩
    | inp =>
      refine ⟨_, ?_, rfl⟩
      rw [length_append, length_append, length_take, length_drop]
      omega
  · exact .inr ⟨hroom, rfl⟩

section

variable (hle : p.actualLength ≤ p.iov.length)
  (hpayload : hdr.HasData → payload.length = hdr.length.toNat)

include hle hpayload

/-- With room for it, the data of a response reaches its packet. -/
theorem transferData_of_room (hroom : Room p hdr) : ∃ iov n, n ≤ iov.length ∧
      transferData hdr payload p = .ok { p with iov := iov, actualLength := n } := by
  unfold transferData
  split_ifs with hdata hin
  · have hlen := hpayload ⟨hdata.1, hdata.2, hin⟩
    have hfits := hroom hdata.2
    rcases usbPacketCopy_cases p payload with ⟨hle', iov, hiov, hcopy⟩ | ⟨hnot, -⟩
    · exact ⟨iov, _, hiov ▸ hle', hcopy⟩
    · exact absurd (hlen ▸ hfits) hnot
  · exact ⟨p.iov, _, hroom hdata.2, rfl⟩
  · exact ⟨p.iov, _, hle, rfl⟩

/-- Without it, the assertion of `usb_packet_copy` fails, or the packet gets too long. -/
theorem transferData_of_not_room (hroom : ¬ Room p hdr) :
    transferData hdr payload p = .error .noRoom ∨
      ∃ q, transferData hdr payload p = .ok q ∧ ¬ q.actualLength ≤ q.iov.length := by
  obtain ⟨hstatus, hover⟩ := Classical.not_imp.mp hroom
  have hpos : hdr.length > 0 := by
    rw [gt_iff_lt, UInt16.lt_iff_toNat_lt, UInt16.toNat_zero]
    omega
  unfold transferData
  rw [if_pos ⟨hpos, hstatus⟩]
  split_ifs with hin
  · rw [← hpayload ⟨hpos, hstatus, hin⟩] at hover
    rcases usbPacketCopy_cases p payload with ⟨hle', -⟩ | ⟨-, hcopy⟩
    · exact absurd hle' hover
    · exact .inl hcopy
  · exact .inr ⟨_, rfl, hover⟩

end

theorem usbTcpRemoteCompleted_iff (d : Delivered) :
    usbTcpRemoteCompleted place d = true ↔ (d.completed = true →
      d.packet.state.isInflight = true → d.packet.status ≠ usbRetRemoveFromQueue →
        usbPacketComplete place d.packet = true) := by
  unfold usbTcpRemoteCompleted
  cases d.completed <;> cases d.packet.state.isInflight <;> simp [or_iff_not_imp_left]

/-- A packet that is settled is completed without a failed assertion exactly if it is where it can
be. -/
theorem settlePacket_iff (iov : List UInt8) (n : ℕ) : (∀ d, settlePacket
        { place.packet with iov := iov, actualLength := n, status := hdr.status } = .ok d →
      usbTcpRemoteCompleted place d = true) ↔ Placed place hdr := by
  -- A packet that waits behind others gets another status instead of `USB_RET_NAK`.
  have hnone : usbRetNak ≠ usbRetAsync ∧ usbRetNak ≠ usbRetRemoveFromQueue ∧
      usbRetIoerror ≠ usbRetAsync ∧ usbRetIoerror ≠ usbRetRemoveFromQueue := by decide
  simp only [usbTcpRemoteCompleted_iff]
  unfold settlePacket Placed usbPacketComplete
  cases place.packet.state with
  | queued =>
    by_cases hnak : hdr.status = usbRetNak
    · simp [USBPacketState.isInflight, hnak, hnone]
    · simp [USBPacketState.isInflight, hnak]
  | async =>
    by_cases hresult : hdr.status = usbRetNak ∨ hdr.status = usbRetAsync
    · rw [if_pos ⟨rfl, hresult⟩]
      refine iff_of_true nofun fun _ hasync _ => ⟨nofun, fun _ hnak => ?_⟩
      exact absurd hresult (not_or.mpr ⟨hnak, hasync⟩)
    · obtain ⟨hnak, hasync⟩ := not_or.mp hresult
      simp [USBPacketState.isInflight, hnak, hasync]
  | undefined | setup | complete | canceled => simp [USBPacketState.isInflight]

theorem settlePacket_error {q : LocalPacket} {why : Refusal} (h : settlePacket q = .error why) :
    why = .violation := by
  unfold settlePacket at h
  split_ifs at h
  exact (error.inj h).symm

/-- A response is delivered without a failed assertion, and leaves the packet no longer than its
buffer, exactly if the packet has room for it and is where it can be completed. -/
theorem deliver_iff (hpayload : hdr.HasData → payload.length = hdr.length.toNat) :
    (((∀ why, deliver ⟨hdr, payload⟩ place.packet = .error why → why ≠ .noRoom) ∧
        ∀ d, deliver ⟨hdr, payload⟩ place.packet = .ok d → usbTcpRemoteCompleted place d = true) ∧
      ∀ q, transferData hdr payload place.packet = .ok q → q.actualLength ≤ q.iov.length) ↔
    Room place.packet hdr ∧ Placed place hdr := by
  unfold deliver
  by_cases hroom : Room place.packet hdr
  · obtain ⟨iov, n, hn, htransfer⟩ := transferData_of_room place.le hpayload hroom
    rw [htransfer, and_iff_right hroom, ← settlePacket_iff iov n]
    refine ⟨fun h => h.1.2, fun h => ⟨⟨?_, h⟩, ?_⟩⟩
    · rintro why hwhy rfl
      exact absurd (settlePacket_error hwhy) nofun
    · rintro q ⟨rfl⟩
      exact hn
  · refine iff_of_false ?_ fun h => hroom h.1
    rintro ⟨⟨hrefused, -⟩, hlength⟩
    rcases transferData_of_not_room place.le hpayload hroom with herror | ⟨q, hq, hlong⟩
    · exact hrefused .noRoom (by rw [herror]) rfl
    · exact hlong (hlength q hq)

end Deliver

/-- A response stops the remote by a failed assertion. -/
def RemoteStop.Aborts : RemoteStop → Prop
  | .assertion => True
  | .refused .noRoom _ => True
  | _ => False

/-- The packet that a response is for, once its data has reached it. -/
def transferred (p : LocalPacket) : List UInt8 → Option LocalPacket
  | [] => none
  | type :: bs =>
    if type = tcpUsbResponse then
      match readResponse (some p) bs with
      | .error _ => none
      | .ok (r, _) => (transferData r.hdr r.payload p).toOption
    else none

/-- What the remote asserts about a stream in front of it, and the room for what it does not. -/
structure RemoteAccepts (place : Option PlacedPacket) (bs : List UInt8) : Prop where
  /-- The endpoint of a response that no thread waits for. -/
  endpoint : ∀ hdr rest, responseFront bs = some (hdr, rest) →
    place.any (·.packet.inflight) = false → usbEpGet hdr.pid hdr.ep = true
  room : ∀ p hdr rest, place = some p → responseFront bs = some (hdr, rest) → Complete hdr rest →
    Room p.packet hdr
  placed : ∀ p hdr rest, place = some p → responseFront bs = some (hdr, rest) →
    Complete hdr rest → Placed p hdr

section

variable {bs : List UInt8} (place : Option PlacedPacket)

/-- No packet gets longer than its buffer by a response. -/
def KeepsLength (bs : List UInt8) : Prop :=
  ∀ p q, place = some p → transferred p.packet bs = some q → q.actualLength ≤ q.iov.length

theorem remoteAccepts_cons_iff {place : Option PlacedPacket} {hdr : ResponseHeader}
    {bs rest : List UInt8} (h : header 20 ResponseHeader.ofBytes bs = some (hdr, rest)) :
    RemoteAccepts place (tcpUsbResponse :: bs) ↔
      (place.any (·.packet.inflight) = false → usbEpGet hdr.pid hdr.ep = true) ∧
      ∀ p, place = some p → Complete hdr rest → Room p.packet hdr ∧ Placed p hdr := by
  have hfront : responseFront (tcpUsbResponse :: bs) = some (hdr, rest) :=
    front_cons_eq_some_iff.mpr ⟨rfl, h⟩
  constructor
  · intro hok
    refine ⟨hok.endpoint hdr rest hfront, fun p hp hcomplete => ?_⟩
    exact ⟨hok.room p hdr rest hp hfront hcomplete, hok.placed p hdr rest hp hfront hcomplete⟩
  · rintro ⟨hep, hpacket⟩
    refine ⟨fun hdr' rest' h' => ?_, fun p hdr' rest' hp h' => ?_, fun p hdr' rest' hp h' => ?_⟩
    all_goals obtain ⟨rfl, rfl⟩ := mk.inj (some.inj (hfront.symm.trans h'))
    · exact hep
    · exact fun hcomplete => (hpacket p hp hcomplete).1
    · exact fun hcomplete => (hpacket p hp hcomplete).2

theorem remoteAccepts_of_front_eq_none (h : responseFront bs = none) : RemoteAccepts place bs where
  endpoint _ _ h' := absurd (h.symm.trans h') nofun
  room _ _ _ _ h' := absurd (h.symm.trans h') nofun
  placed _ _ _ _ h' := absurd (h.symm.trans h') nofun

end

theorem length_readResponse {found : Option LocalPacket} {bs rest : List UInt8} {r : Response}
    (h : readResponse found bs = .ok (r, rest)) : rest.length ≤ bs.length := by
  rw [readResponse_eq] at h
  split at h
  · cases h
  · rename_i hdr bs' hheader
    have hlen := length_header hheader
    split_ifs at h
    by_cases hcomplete : Complete hdr bs'
    · obtain ⟨payload, rest', hpayload, hle, -⟩ := readResponsePayload_of_complete hcomplete
      obtain ⟨-, rfl⟩ := mk.inj (ok.inj (hpayload.symm.trans h))
      omega
    · exact absurd ((readResponsePayload_of_not_complete hcomplete).symm.trans h) nofun

section Round

variable {places : List (Option PlacedPacket)} {bs rest : List UInt8}

variable {r : Response}

theorem remotePacketRound_of_error {stop : RemoteStop}
    (h : readResponse ((places.headD none).map fun p => p.packet) bs = .error stop) :
    remotePacketRound places (tcpUsbResponse :: bs) = .error stop := by
  simp only [remotePacketRound, usbTcpRemoteReadOne, if_pos, headD_cons, h]

theorem remotePacketRound_of_ok
    (h : readResponse ((places.headD none).map fun p => p.packet) bs = .ok (r, rest)) :
    remotePacketRound places (tcpUsbResponse :: bs) =
      match places.headD none with
      | none => .ok ((r, none), places.tail, rest)
      | some p =>
        match deliver r p.packet with
        | .error why => .error (.refused why rest)
        | .ok d =>
          if usbTcpRemoteCompleted p d then .ok ((r, some d), places.tail, rest)
          else .error .assertion := by
  simp only [remotePacketRound, usbTcpRemoteReadOne, headD_cons, h]
  cases places.headD none with
  | none => rfl
  | some p =>
    dsimp only [map_some]
    cases deliver r p.packet <;> rfl

theorem keepsLength_some_iff (p : PlacedPacket) (bs : List UInt8) : KeepsLength (some p) bs ↔
      ∀ q, transferred p.packet bs = some q → q.actualLength ≤ q.iov.length := by
  refine ⟨fun h q hq => h p q rfl hq, fun h => ?_⟩
  rintro _ q ⟨rfl⟩ hq
  exact h q hq

theorem transferred_eq_some_iff {p q : LocalPacket} (h : readResponse (some p) bs = .ok (r, rest)) :
    transferred p (tcpUsbResponse :: bs) = some q ↔ transferData r.hdr r.payload p = .ok q := by
  simp only [transferred, h]
  cases transferData r.hdr r.payload p <;> simp [Except.toOption]

theorem keepsLength_of_error {place : Option PlacedPacket} {stop : RemoteStop}
    (h : readResponse (place.map fun p => p.packet) bs = .error stop) :
    KeepsLength place (tcpUsbResponse :: bs) := by
  rintro p q rfl hq
  rw [map_some] at h
  simp only [transferred, h] at hq
  cases hq

/-- A round that reads a response has no failed assertion exactly if the delivery and the completion
have none. -/
theorem remotePacketRound_ok_iff {p : PlacedPacket} (hplace : places.headD none = some p)
    (h : readResponse ((places.headD none).map fun p => p.packet) bs = .ok (r, rest)) :
    (∀ stop, remotePacketRound places (tcpUsbResponse :: bs) = .error stop → ¬ stop.Aborts) ↔
      (∀ why, deliver r p.packet = .error why → why ≠ .noRoom) ∧
      ∀ d, deliver r p.packet = .ok d → usbTcpRemoteCompleted p d = true := by
  rw [remotePacketRound_of_ok h, hplace]
  dsimp only
  cases deliver r p.packet with
  | error why =>
    cases why with
    | noRoom => exact iff_of_false (fun h => h _ rfl trivial) fun h => h.1 _ rfl rfl
    | violation =>
      refine iff_of_true ?_ ⟨?_, nofun⟩
      · rintro stop ⟨rfl⟩
        exact id
      · rintro why ⟨rfl⟩
        exact nofun
  | ok d =>
    dsimp only
    split_ifs with hcompleted
    · refine iff_of_true nofun ⟨nofun, ?_⟩
      rintro _ ⟨rfl⟩
      exact hcompleted
    · exact iff_of_false (fun h => h _ rfl trivial) fun h => hcompleted (h.2 d rfl)

/-- A round that gets to the data of a response has no failed assertion and leaves no packet too
long exactly if the packet, if there is one, takes the data that is there. -/
theorem remotePacketRound_payload_iff {hdr : ResponseHeader}
    (h : readResponse ((places.headD none).map fun p => p.packet) bs =
      readResponsePayload hdr rest) :
    ((∀ stop, remotePacketRound places (tcpUsbResponse :: bs) = .error stop → ¬ stop.Aborts) ∧
      KeepsLength (places.headD none) (tcpUsbResponse :: bs)) ↔
    ∀ p, places.headD none = some p → Complete hdr rest → Room p.packet hdr ∧ Placed p hdr := by
  by_cases hcomplete : Complete hdr rest
  · obtain ⟨payload, rest', hpayload, -, hlen⟩ := readResponsePayload_of_complete hcomplete
    rw [hpayload] at h
    cases hplace : places.headD none with
    | none =>
      refine iff_of_true ⟨fun stop hstop => ?_, fun p q hp => ?_⟩ fun p hp => ?_
      · rw [remotePacketRound_of_ok h, hplace] at hstop
        cases hstop
      · cases hp
      · cases hp
    | some p =>
      rw [remotePacketRound_ok_iff hplace h, keepsLength_some_iff, ← hplace]
      rw [hplace] at h
      simp only [transferred_eq_some_iff h]
      rw [deliver_iff hlen, hplace]
      exact ⟨by rintro hok _ ⟨rfl⟩ -; exact hok, fun hok => hok p rfl hcomplete⟩
  · rw [readResponsePayload_of_not_complete hcomplete] at h
    refine iff_of_true ⟨?_, keepsLength_of_error h⟩ fun _ _ hcon => absurd hcon hcomplete
    rw [remotePacketRound_of_error h]
    rintro stop ⟨rfl⟩
    exact id

/-- What a response says is accepted exactly if it has no failed assertion and leaves no packet too
long. -/
theorem remotePacketRound_response_iff {places : List (Option PlacedPacket)} (bs : List UInt8) :
    ((∀ stop, remotePacketRound places (tcpUsbResponse :: bs) = .error stop → ¬ stop.Aborts) ∧
      KeepsLength (places.headD none) (tcpUsbResponse :: bs)) ↔
    RemoteAccepts (places.headD none) (tcpUsbResponse :: bs) := by
  have hread := readResponse_eq ((places.headD none).map fun p => p.packet) bs
  cases hheader : header 20 ResponseHeader.ofBytes bs with
  | none =>
    rw [hheader] at hread
    have hnone : responseFront (tcpUsbResponse :: bs) = none := by
      rw [responseFront, front, if_pos rfl, hheader]
    refine iff_of_true ⟨?_, keepsLength_of_error hread⟩ (remoteAccepts_of_front_eq_none _ hnone)
    rw [remotePacketRound_of_error hread]
    rintro stop ⟨rfl⟩
    exact id
  | some r =>
    obtain ⟨hdr, rest⟩ := r
    rw [hheader] at hread
    dsimp only at hread
    rw [Option.any_map] at hread
    rw [remoteAccepts_cons_iff hheader]
    split_ifs at hread with hep
    · refine iff_of_false (fun h => ?_) fun h => ?_
      · exact h.1 .assertion (remotePacketRound_of_error hread) trivial
      · exact absurd (hep.2.symm.trans (h.1 hep.1)) Bool.false_ne_true
    · have hendpoint : (places.headD none).any (·.packet.inflight) = false →
          usbEpGet hdr.pid hdr.ep = true :=
        fun hany => Bool.eq_true_of_not_eq_false fun hnot => hep ⟨hany, hnot⟩
      rw [and_iff_right hendpoint]
      exact remotePacketRound_payload_iff hread

end Round

variable {bs : List UInt8}

/-- A round of the remote has no failed assertion and leaves no packet too long exactly if it
accepts the stream. -/
theorem remotePacketRound_iff :
    ((∀ stop, remotePacketRound places bs = .error stop → ¬ stop.Aborts) ∧
      KeepsLength (places.headD none) bs) ↔ RemoteAccepts (places.headD none) bs := by
  cases bs with
  | nil =>
    refine iff_of_true ⟨?_, fun p q _ hq => ?_⟩ (remoteAccepts_of_front_eq_none _ rfl)
    · rintro stop ⟨rfl⟩
      exact id
    · cases hq
  | cons t bs =>
    by_cases ht : t = tcpUsbResponse
    · subst ht
      exact remotePacketRound_response_iff bs
    · have hnone : responseFront (t :: bs) = none := by
        rw [responseFront, front, if_neg ht]
      refine iff_of_true ⟨?_, ?_⟩ (remoteAccepts_of_front_eq_none _ hnone)
      · intro stop hstop
        simp only [remotePacketRound, usbTcpRemoteReadOne, if_neg ht] at hstop
        obtain rfl := error.inj hstop
        exact id
      · intro p q _ hq
        simp only [transferred, if_neg ht] at hq
        cases hq

theorem remotePacketRound_short (out : Response × Option Delivered)
    (places' : List (Option PlacedPacket)) (rest : List UInt8)
    (h : remotePacketRound places bs = .ok (out, places', rest)) : rest.length < bs.length := by
  cases bs with
  | nil => cases h
  | cons t bs =>
    by_cases ht : t = tcpUsbResponse
    · subst ht
      cases hread : readResponse ((places.headD none).map fun p => p.packet) bs with
      | error stop => exact absurd ((remotePacketRound_of_error hread).symm.trans h) nofun
      | ok r =>
        obtain ⟨r, rest'⟩ := r
        have hlen := length_readResponse hread
        rw [remotePacketRound_of_ok hread] at h
        have hrest : rest' = rest := by
          split at h
          · exact (mk.inj (mk.inj (ok.inj h)).2).2
          · split at h
            · cases h
            · split_ifs at h
              exact (mk.inj (mk.inj (ok.inj h)).2).2
        rw [← hrest, length_cons]
        omega
    · simp only [remotePacketRound, usbTcpRemoteReadOne, if_neg ht] at h
      cases h

/-- The remote is stopped without a failed assertion, with no packet longer than its buffer, exactly
if it accepts all that it gets to. -/
theorem usbTcpRemoteRun_iff : ((∃ stop, (usbTcpRemoteRun places bs).2 = some stop ∧ ¬ stop.Aborts) ∧
      ∀ places' rest, Reads remotePacketRound places bs places' rest →
        KeepsLength (places'.headD none) rest) ↔
    ∀ places' rest, Reads remotePacketRound places bs places' rest →
      RemoteAccepts (places'.headD none) rest := by
  unfold usbTcpRemoteRun
  rw [readAll_stop_iff remotePacketRound_short (Nat.lt_succ_self _)]
  constructor
  · rintro ⟨hstop, hlength⟩ places' rest hreads
    exact (remotePacketRound_iff places').mp
      ⟨hstop places' rest hreads, hlength places' rest hreads⟩
  · intro h
    refine ⟨fun places' rest hreads => ?_, fun places' rest hreads => ?_⟩
    · exact ((remotePacketRound_iff places').mpr (h places' rest hreads)).1
    · exact ((remotePacketRound_iff places').mpr (h places' rest hreads)).2

/-! ## Both ends -/

/-- A device that leaves all packets as they are. -/
def idleBackend : Backend Unit where
  activity dev := dev
  handlePacket dev _ p := ⟨dev, p.status, p.iov, p.actualLength, rfl, p.le⟩
  handleData dev _ p := ⟨dev, p.status, p.iov, p.actualLength, rfl, p.le⟩
  handleControl dev p _ _ _ _ := ⟨dev, p.status, p.actualLength, fun _ => p.le⟩
  cancelPacket dev _ _ := dev
  handleReset dev := dev

/-- The device of an idle backend, before the first reset. -/
def idleDevice : USBDevice Unit where
  state := .attached
  attached := true
  isHost := false
  addr := 0
  canHandlePacket := false
  ep _ := ⟨.bulk, false, false, [], nofun⟩
  setupBuf := []
  dataBuf _ := 0
  setupState := .idle
  setupLen := 0
  setupIndex := 0
  own := ()

/-- A packet of one byte that the first endpoint of the remote waits for. -/
def oneByte (pid : Pid) : PlacedPacket where
  packet := ⟨false, pid, 1, .async, usbRetAsync, [0], 0⟩
  stream := 0
  first := true
  le := Nat.zero_le 1

/-- A response about two bytes for a packet of the first endpoint, with the data behind it. -/
def twoBytes (pid : Pid) (payload : List UInt8) : List UInt8 :=
  tcpUsbResponse :: (ResponseHeader.mk 0 pid.code 1 0 usbRetSuccess 2).bytes ++ payload

end Inferno.UsbTcp
