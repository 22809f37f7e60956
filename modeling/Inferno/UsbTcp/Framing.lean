import Inferno.UsbTcp.Model

/-!
# Framing agreement

The two ends agree on where a message ends, though each of them decides by itself whether a payload
follows a header. `Message.frame` and `Response.frame` are the bytes of a message. What a writer
writes is the frame of its message (`exec_eq_frame`, `host_exec_eq_frame`), and a reader that finds
a frame at the front of the stream reads the message and leaves what is behind it
(`hostReadOne_frame`, `usbTcpRemoteReadOne_frame`).

So the host reads all the messages of the remote. The thread of the remote reads all the responses
of the host up to one that it refuses, if there is one; it stops behind that one, and the rest of
the stream is made up of the frames of the responses after it (`usb_tcp_framing`).

A packet of the guest keeps its payload exactly when its length fits 16 bits (`payloadKept_iff`).
-/

namespace Inferno.UsbTcp

open Common List Nat
open Option (some)

/-! ## Headers -/

variable (s : USBTCPRemoteState) {r : Response}

theorem RequestHeader.ofBytes_bytes (h : RequestHeader) : ofBytes h.bytes = some h := by
  have hfit : ∀ f ∈ h.fields, f.2 < 256 ^ f.1 := by
    simp only [fields, forall_mem_cons]
    exact ⟨h.addr.toNat_lt, h.pid.toNat_lt, h.ep.toNat_lt, h.id.toNat_lt, h.stream.toNat_lt,
      h.shortNotOk.toNat_lt, h.intReq.toNat_lt, h.length.toNat_lt, nofun⟩
  have hunpack : unpack [1, 4, 1, 8, 4, 1, 1, 2] h.bytes = h.fields.map Prod.snd := unpack_pack hfit
  simp [ofBytes, hunpack, fields]

theorem ResponseHeader.ofBytes_bytes (h : ResponseHeader) : ofBytes h.bytes = some h := by
  have hfit : ∀ f ∈ h.fields, f.2 < 256 ^ f.1 := by
    simp only [fields, forall_mem_cons]
    exact ⟨h.addr.toNat_lt, h.pid.toNat_lt, h.ep.toNat_lt, h.id.toNat_lt, h.status.toNat_lt,
      h.length.toNat_lt, nofun⟩
  have hunpack : unpack [1, 4, 1, 8, 4, 2] h.bytes = h.fields.map Prod.snd := unpack_pack hfit
  simp [ofBytes, hunpack, fields]

theorem CancelHeader.ofBytes_bytes (h : CancelHeader) : ofBytes h.bytes = some h := by
  have hfit : ∀ f ∈ h.fields, f.2 < 256 ^ f.1 := by
    simp only [fields, forall_mem_cons]
    exact ⟨h.addr.toNat_lt, h.pid.toNat_lt, h.ep.toNat_lt, h.id.toNat_lt, nofun⟩
  have hunpack : unpack [1, 4, 1, 8] h.bytes = h.fields.map Prod.snd := unpack_pack hfit
  simp [ofBytes, hunpack, fields]

/-- A payload that is not read, because it is not there or its length is zero, is empty. -/
theorem payload_eq_nil {payload : List UInt8} {length : UInt16} {expected : Prop}
    [Decidable expected] (h : payload.length = if expected then length.toNat else 0)
    (hread : ¬ (length > 0 ∧ expected)) : payload = [] := by
  apply eq_nil_of_length_eq_zero
  rw [h]
  split_ifs with hexpected
  · have hzero : ¬ length > 0 := fun hpos => hread ⟨hpos, hexpected⟩
    rw [UInt16.not_lt] at hzero
    exact le_zero.mp hzero
  · rfl

/-! ## From the remote to the host -/

/-- The bytes of a message. -/
def Message.frame : Message → List UInt8
  | .request hdr payload => tcpUsbRequest :: (hdr.bytes ++ payload)
  | .cancel hdr => tcpUsbCancel :: hdr.bytes
  | .reset => [tcpUsbReset]

/-- The device has the endpoint of a message, and a request that goes out has as many bytes as its
header says, while one that comes in has none. -/
def Message.WellFormed : Message → Prop
  | .request hdr payload =>
    usbEpGet hdr.pid hdr.ep = true ∧
      payload.length = if hdr.pid = usbTokenIn then 0 else hdr.length.toNat
  | .cancel hdr => usbEpGet hdr.pid hdr.ep = true
  | .reset => True

theorem readRequestPayload_append {hdr : RequestHeader} {payload : List UInt8}
    (h : payload.length = if hdr.pid = usbTokenIn then 0 else hdr.length.toNat)
    (rest : List UInt8) :
    readRequestPayload hdr (payload ++ rest) = .ok (.request hdr payload, rest) := by
  unfold readRequestPayload
  by_cases hread : hdr.length > 0 ∧ hdr.pid ≠ usbTokenIn
  · rw [if_neg hread.2] at h
    rw [if_pos hread, takeExactly_append h]
  · have hnil : payload = [] := payload_eq_nil (h.trans (ite_not _ _ _).symm) hread
    rw [if_neg hread, hnil, nil_append]

theorem hostReadOne_frame {m : Message} (h : m.WellFormed) (rest : List UInt8) :
    hostReadOne (m.frame ++ rest) = .ok (m, rest) := by
  cases m with
  | request hdr payload =>
    have hlen : hdr.bytes.length = 22 := length_pack _
    have hread : hostReadOne ((Message.request hdr payload).frame ++ rest) =
        readRequest (hdr.bytes ++ (payload ++ rest)) := by
      rfl
    -- The header is read back, and what it says of the payload is what follows it.
    rw [hread, readRequest, takeExactly_append hlen]
    dsimp only
    rw [hdr.ofBytes_bytes]
    dsimp only
    rw [if_pos h.1, readRequestPayload_append h.2]
  | cancel hdr =>
    have hlen : hdr.bytes.length = 14 := length_pack _
    have hread : hostReadOne ((Message.cancel hdr).frame ++ rest) =
        readCancel (hdr.bytes ++ rest) := rfl
    have hget : usbEpGet hdr.pid hdr.ep = true := h
    rw [hread, readCancel, takeExactly_append hlen]
    dsimp only
    rw [hdr.ofBytes_bytes]
    dsimp only
    rw [if_pos hget]
  | reset => rfl

/-- The message that an operation of the remote issues. -/
def RemoteOp.message (s : USBTCPRemoteState) : RemoteOp → Option Message
  | .packet p _ _ =>
    if s.closed then none
    else some (.request (requestHeader s p)
      (if p.pid = .inp then [] else p.iov.drop p.actualLength))
  | .cancel p =>
    if p.combined ∨ s.closed then none else some (.cancel ⟨s.addr, p.pid.code, p.ep, p.id⟩)
  | .reset => if s.closed then none else some .reset
  | .setAddr _ => none
  | .close => none

/-- The messages that a run of the remote issues. -/
def issued (s : USBTCPRemoteState) (ops : List RemoteOp) : List Message :=
  outputs remoteStep (fun s op => op.message s) s ops

theorem Pid.code_eq_iff (pid : Pid) : pid.code = usbTokenIn ↔ pid = .inp := by
  cases pid <;> decide

theorem requestHeader_length_iff (p : USBPacket) :
    (requestHeader s p).length.toNat = p.iov.length - p.actualLength ↔ p.Short := by
  have hlen : (requestHeader s p).length.toNat = (p.iov.length - p.actualLength) % 65536 :=
    UInt16.toNat_ofNat'
  rw [hlen, USBPacket.Short]
  omega

variable {s} in
/-- The buffer of a request has what remains of a short packet that goes out. -/
theorem requestBuffer_getD {p : USBPacket} (hshort : p.Short) :
    (requestBuffer s p).getD [] = if p.pid = .inp then [] else p.iov.drop p.actualLength := by
  have hlen := (requestHeader_length_iff s p).mpr hshort
  unfold requestBuffer usbPacketCopyOut
  by_cases hin : p.pid = .inp
  · rw [if_neg (fun h => h.1 ((p.pid.code_eq_iff).mpr hin)), if_pos hin]
    rfl
  · have hcode : p.pid.code ≠ usbTokenIn := fun h => hin ((p.pid.code_eq_iff).mp h)
    rw [if_neg hin]
    by_cases hzero : (requestHeader s p).length = 0
    · rw [if_neg (fun h => h.2 hzero)]
      rw [hzero] at hlen
      have hall : p.iov.length ≤ p.actualLength := by
        have : (0 : UInt16).toNat = 0 := rfl
        omega
      rw [drop_eq_nil_of_le hall]
      rfl
    · rw [if_pos ⟨hcode, hzero⟩, hlen]
      exact take_of_length_le (by rw [length_drop])

variable {s} in
theorem requestBuffer_of_length {p : USBPacket} (h : (requestHeader s p).length = 0) :
    requestBuffer s p = none :=
  if_neg fun hsent => hsent.2 h

/-- The bytes that the remote writes for a packet. -/
theorem usbTcpRemoteHandlePacket_bytes (hopen : ¬ s.closed) (p : USBPacket) (behind : List UInt8) :
    (usbTcpRemoteHandlePacket s p behind).2 =
      [tcpUsbRequest] ++ (requestHeader s p).bytes ++ (requestBuffer s p).getD [] := by
  unfold usbTcpRemoteHandlePacket
  rw [if_neg hopen]
  cases requestBuffer s p <;> simp

theorem exec_eq_frame (op : RemoteOp) :
    (op.exec s).2 = (op.message s).toList.flatMap Message.frame := by
  cases op with
  | packet p short behind =>
    have hbuffer := requestBuffer_getD (s := s) short
    unfold RemoteOp.exec RemoteOp.message
    dsimp only
    by_cases hclosed : s.closed
    · rw [usbTcpRemoteHandlePacket, if_pos hclosed, if_pos hclosed]
      rfl
    · rw [usbTcpRemoteHandlePacket_bytes s hclosed, if_neg hclosed, ← hbuffer]
      simp [Message.frame]
  | cancel p =>
    unfold RemoteOp.exec usbTcpRemoteCancelPacket RemoteOp.message
    dsimp only
    split_ifs <;> simp_all [Message.frame]
  | reset =>
    unfold RemoteOp.exec usbTcpRemoteHandleReset RemoteOp.message
    split_ifs <;> rfl
  | setAddr addr | close => rfl

theorem wellFormed_message {s : USBTCPRemoteState} {op : RemoteOp} {m : Message}
    (h : op.message s = some m) : m.WellFormed := by
  cases op with
  | packet p short behind =>
    unfold RemoteOp.message at h
    dsimp only at h
    split at h
    · cases h
    obtain rfl := some.inj h
    refine ⟨p.endpoint, ?_⟩
    rw [(requestHeader_length_iff s p).mpr short]
    have hcode : (requestHeader s p).pid = usbTokenIn ↔ p.pid = .inp := p.pid.code_eq_iff
    by_cases hin : p.pid = .inp
    · rw [if_pos hin, if_pos (hcode.mpr hin)]
      rfl
    · rw [if_neg hin, if_neg (fun hc => hin (hcode.mp hc)), length_drop]
  | cancel p =>
    unfold RemoteOp.message at h
    dsimp only at h
    split_ifs at h
    obtain rfl := some.inj h
    exact p.endpoint
  | reset =>
    unfold RemoteOp.message at h
    split_ifs at h
    obtain rfl := some.inj h
    trivial
  | setAddr addr | close => cases h

variable (ops : List RemoteOp)

theorem remoteStream_eq : remoteStream s ops = (issued s ops).flatMap Message.frame :=
  flatten_trace exec_eq_frame s ops

/-- The host takes every message. -/
def acceptMessage (_ : Unit) (m : Message) (_ : List UInt8) : Except HostStop (Message × Unit) :=
  .ok (m, ())

/-- The host reads the messages that the remote issues, and the stream ends behind the last one. -/
theorem hostMsgLoop_remoteStream :
    usbTcpHostMsgLoop (remoteStream s ops) = (issued s ops, some .eof) := by
  have hframe : ∀ m : Message, m.frame ≠ [] := by
    intro m
    cases m <;> simp [Message.frame]
  have hone : ∀ (u : Unit) m rest, m.WellFormed → hostRound u (m.frame ++ rest) =
      (acceptMessage u m rest).map fun r => (r.1, r.2, rest) := by
    intro u m rest hm
    rw [hostRound, hostReadOne_frame hm]
    rfl
  have heof : ∀ u : Unit, hostRound u [] = .error .eof := fun _ => rfl
  have hissued : ∀ m ∈ issued s ops, m.WellFormed :=
    forall_mem_outputs fun _ _ _ h => wellFormed_message h
  have htaken : ∀ u m rest, acceptMessage u m rest = .ok (m, u) := fun _ _ _ => rfl
  unfold usbTcpHostMsgLoop
  rw [remoteStream_eq, readAll_stream hframe heof hone hissued () (lt_succ_self _),
    acceptAll_of_ok htaken, map_id']

/-! ## From the host to the remote -/

def Response.frame (r : Response) : List UInt8 := tcpUsbResponse :: (r.hdr.bytes ++ r.payload)

/-- The device has the endpoint of a response; one to a request that comes in, and that has a
result, has as many bytes as its header says, and any other one has none. -/
structure Response.WellFormed (r : Response) : Prop where
  endpoint : usbEpGet r.hdr.pid r.hdr.ep = true
  length : r.payload.length =
    if r.hdr.pid = usbTokenIn ∧ r.hdr.status ≠ usbRetAsync then r.hdr.length.toNat else 0

theorem readResponsePayload_append (h : r.WellFormed) (rest : List UInt8) :
    readResponsePayload r.hdr (r.payload ++ rest) = .ok (r, rest) := by
  have hlen := h.length
  unfold readResponsePayload
  by_cases hread : r.hdr.length > 0 ∧ r.hdr.status ≠ usbRetAsync ∧ r.hdr.pid = usbTokenIn
  · rw [if_pos ⟨hread.2.2, hread.2.1⟩] at hlen
    rw [if_pos hread, takeExactly_append hlen]
  · have hnil : r.payload = [] :=
      payload_eq_nil hlen fun hboth => hread ⟨hboth.1, hboth.2.2, hboth.2.1⟩
    rw [if_neg hread, hnil, nil_append]
    obtain ⟨hdr, payload⟩ := r
    rw [show payload = [] from hnil]

theorem readResponse_append (h : r.WellFormed) (found : Option LocalPacket) (rest : List UInt8) :
    readResponse found (r.hdr.bytes ++ (r.payload ++ rest)) = .ok (r, rest) := by
  have hlen : r.hdr.bytes.length = 20 := length_pack _
  have hget : ¬ (found.any (·.inflight) = false ∧ usbEpGet r.hdr.pid r.hdr.ep = false) := by
    rw [h.endpoint]
    simp
  rw [readResponse, takeExactly_append hlen]
  dsimp only
  rw [r.hdr.ofBytes_bytes]
  dsimp only
  rw [if_neg hget, readResponsePayload_append h]

variable (found : Found)

/-- What becomes of a response, by the packet that it is found to be for. -/
def acceptResponse (r : Response) (rest : List UInt8) :
    Except RemoteStop ((Response × Option Delivered) × Found) :=
  match found.headD none with
  | none => .ok ((r, none), found.tail)
  | some p =>
    match deliver r p with
    | .error why => .error (.refused why rest)
    | .ok d => .ok ((r, some d), found.tail)

/-- The remote accepts or refuses the response whose frame the stream begins with, and then stands
behind that frame. -/
theorem usbTcpRemoteReadOne_frame (h : r.WellFormed) {found : Found} {rest : List UInt8} :
    usbTcpRemoteReadOne found (r.frame ++ rest) =
      (acceptResponse found r rest).map fun x => (x.1, x.2, rest) := by
  have hread := readResponse_append h (found.headD none) rest
  unfold usbTcpRemoteReadOne acceptResponse
  rw [Response.frame, cons_append, append_assoc]
  dsimp only
  rw [hread]
  cases found.headD none with
  | none => rfl
  | some p => cases hdeliver : deliver r p <;> simp [hdeliver, Except.map]

/-- The response that an operation of the host sends. -/
def HostOp.response (closed : Bool) : HostOp → Option Response
  | .respond p =>
    if closed then none
    else some ⟨responseHeader p,
      if p.pid = .inp ∧ p.status ≠ usbRetAsync then p.iov.take p.actualLength else []⟩
  | .close => none

/-- The responses that a run of the host sends. -/
def responses (closed : Bool) (ops : List HostOp) : List Response :=
  outputs hostStep (fun closed op => op.response closed) closed ops

theorem responseHeader_length (p : HostPacket) :
    (responseHeader p).length.toNat = min p.actualLength p.iov.length := by
  have hiov : (UInt16.ofNat p.iov.length).toNat = p.iov.length :=
    UInt16.toNat_ofNat'.trans (mod_eq_of_lt p.short)
  unfold responseHeader
  dsimp only
  split_ifs with hlong
  · have hshort := p.short
    rw [UInt16.toNat_ofNat']
    omega
  · omega

theorem host_exec_eq_frame (closed : Bool) (op : HostOp) :
    (op.exec closed).2 = (op.response closed).toList.flatMap Response.frame := by
  cases op with
  | respond p =>
    have hcode := p.pid.code_eq_iff
    unfold HostOp.exec usbTcpHostRespondPacket HostOp.response responseBuffer
    cases closed with
    | true => rfl
    | false =>
      simp only [Bool.false_eq_true, if_false, hcode, responseHeader_length]
      split_ifs
      · simp [Response.frame]
      · simp [Response.frame]
  | close => rfl

theorem wellFormed_response {closed : Bool} {op : HostOp} (h : op.response closed = some r) :
    r.WellFormed := by
  cases op with
  | respond p =>
    unfold HostOp.response at h
    dsimp only at h
    split at h
    · cases h
    obtain rfl := some.inj h
    have hcode : (responseHeader p).pid = usbTokenIn ↔ p.pid = .inp := p.pid.code_eq_iff
    refine ⟨p.endpoint, ?_⟩
    rw [responseHeader_length]
    simp only [hcode]
    have hstatus : (responseHeader p).status = p.status := rfl
    rw [hstatus]
    split_ifs
    · exact length_take
    · rfl
  | close => cases h

theorem hostStream_eq (closed : Bool) (ops : List HostOp) :
    hostStream closed ops = (responses closed ops).flatMap Response.frame :=
  flatten_trace host_exec_eq_frame closed ops

/-- Why a response is refused, if it is, by the packet that it is found to be for. -/
def refusal (found : Option LocalPacket) (r : Response) : Option Refusal :=
  match found with
  | none => none
  | some p =>
    match deliver r p with
    | .error why => some why
    | .ok _ => none

/-- Of the responses `rs`, the first `n` are read: either these are all, or the next one is refused,
and what is not read are the frames of those behind it. -/
structure ReadsTo (found : Found) (rs : List Response)
    (out : List (Response × Option Delivered) × Option RemoteStop) (n : ℕ) : Prop where
  /-- The responses that are read. -/
  parsed : out.1.map Prod.fst = rs.take n
  accepted : ∀ i < n, ∀ r, rs[i]? = some r → refusal (found.getD i none) r = none
  stopped : (n = rs.length ∧ out.2 = some .eof) ∨
    ∃ r why, rs[n]? = some r ∧ refusal (found.getD n none) r = some why ∧
      out.2 = some (.refused why ((rs.drop (n + 1)).flatMap Response.frame))

theorem acceptResponse_cases (r : Response) (rest : List UInt8) :
    (∃ why, refusal (found.getD 0 none) r = some why ∧
      acceptResponse found r rest = .error (.refused why rest)) ∨
    (∃ d, refusal (found.getD 0 none) r = none ∧
      acceptResponse found r rest = .ok ((r, d), found.tail)) := by
  have hhead : found.headD none = found.getD 0 none := by cases found <;> rfl
  unfold acceptResponse refusal
  rw [hhead]
  cases found.getD 0 none with
  | none => exact .inr ⟨none, rfl, rfl⟩
  | some p =>
    dsimp only
    cases deliver r p with
    | error why => exact .inl ⟨why, rfl, rfl⟩
    | ok d => exact .inr ⟨some d, rfl, rfl⟩

/-- The responses that are accepted one after another are those up to the first refused one. -/
theorem readsTo_acceptAll (rs : List Response) :
    ∃ n, ReadsTo found rs (acceptAll Response.frame acceptResponse .eof found rs) n := by
  induction rs generalizing found with
  | nil => exact ⟨0, rfl, fun _ hi => absurd hi (not_lt_zero _), .inl ⟨rfl, rfl⟩⟩
  | cons r rs ih =>
    rw [acceptAll]
    rcases acceptResponse_cases found r (rs.flatMap Response.frame) with
      ⟨why, hwhy, hrefused⟩ | ⟨d, hnone, hread⟩
    · rw [hrefused]
      exact ⟨0, rfl, fun _ hi => absurd hi (not_lt_zero _), .inr ⟨r, why, rfl, hwhy, rfl⟩⟩
    · -- The packets that the responses are for move along with them.
      have htail : ∀ i, found.tail.getD i none = found.getD (i + 1) none := by
        intro i
        cases found <;> rfl
      obtain ⟨n, hparsed, haccepted, hstopped⟩ := ih found.tail
      rw [hread]
      refine ⟨n + 1, ?_, ?_, ?_⟩
      · exact congrArg (cons r) hparsed
      · intro i hi r' hr'
        cases i with
        | zero =>
          obtain rfl : r = r' := some.inj hr'
          exact hnone
        | succ i =>
          rw [← htail]
          exact haccepted i (lt_of_succ_lt_succ hi) r' hr'
      · rcases hstopped with ⟨hall, heof⟩ | ⟨r', why, hr', hwhy, hout⟩
        · exact .inl ⟨congrArg (· + 1) hall, heof⟩
        · rw [htail] at hwhy
          exact .inr ⟨r', why, hr', hwhy, hout⟩

/-- The thread of the remote reads the responses of the host up to one that it refuses. -/
theorem readThread_hostStream (found : Found) (closed : Bool) (ops : List HostOp) :
    ∃ n, ReadsTo found (responses closed ops)
      (usbTcpRemoteReadThread found (hostStream closed ops)) n := by
  have hframe : ∀ r : Response, r.frame ≠ [] := fun _ => cons_ne_nil _ _
  have heof : ∀ found, usbTcpRemoteReadOne found [] = .error .eof := fun _ => rfl
  have hsent : ∀ r ∈ responses closed ops, r.WellFormed :=
    forall_mem_outputs fun _ _ _ h => wellFormed_response h
  unfold usbTcpRemoteReadThread
  rw [hostStream_eq, readAll_stream hframe heof
    (fun found _ rest hr => usbTcpRemoteReadOne_frame hr) hsent found
    (lt_succ_self _)]
  exact readsTo_acceptAll found _

/-! ## Both directions -/

/-- In every run, the host reads just the messages that the remote issues, and the thread of the
remote reads just the responses that the host sends, up to one that it refuses; neither of them is
left in the middle of a message. -/
theorem usb_tcp_framing (s : USBTCPRemoteState) (ops : List RemoteOp) (closed : Bool)
    (results : List HostOp) (found : Found) :
    usbTcpHostMsgLoop (remoteStream s ops) = (issued s ops, some .eof) ∧
    (∃ n, ReadsTo found (responses closed results)
      (usbTcpRemoteReadThread found (hostStream closed results)) n) ∧
    ((usbTcpRemoteReadThread found (hostStream closed results)).1.map Prod.fst =
        responses closed results ↔
      ∀ i r, (responses closed results)[i]? = some r → refusal (found.getD i none) r = none) := by
  obtain ⟨n, hn⟩ := readThread_hostStream found closed results
  refine ⟨hostMsgLoop_remoteStream s ops, ⟨n, hn⟩, ?_⟩
  rw [hn.parsed]
  constructor
  · intro hall i r hr
    have hlen : (responses closed results).length ≤ n := by
      have hle := congrArg length hall
      rw [length_take] at hle
      omega
    exact hn.accepted i (lt_of_lt_of_le (List.getElem?_eq_some_iff.mp hr).1 hlen) r hr
  · intro hnone
    -- The response that stopped the thread would be one that it refuses.
    rcases hn.stopped with ⟨hlen, -⟩ | ⟨r, why, hr, hwhy, -⟩
    · rw [hlen, take_length]
    · rw [hnone n r hr] at hwhy
      cases hwhy

/-- A packet that the host has not been able to complete at once, for which the remote waits. -/
def pendingPacket : LocalPacket where
  inflight := false
  pid := .inp
  ep := 1
  state := .async
  status := usbRetAsync
  iov := [0, 0, 0, 0]
  actualLength := 0

/-- The result of that packet, which is none yet. -/
def noResult : HostPacket where
  addr := 1
  pid := .inp
  ep := 1
  id := 7
  status := usbRetNak
  iov := [0, 0, 0, 0]
  actualLength := 0
  endpoint := rfl
  short := by decide

/-- The result of another packet. -/
def otherResult : HostPacket where
  addr := 1
  pid := .out
  ep := 2
  id := 8
  status := usbRetSuccess
  iov := [1, 2]
  actualLength := 2
  endpoint := rfl
  short := by decide

/-- The remote closes the connection when a packet that it knows to be asynchronous is not
acknowledged, and the response behind that one is not read. -/
theorem usb_tcp_framing_closes : usbTcpRemoteReadThread [some pendingPacket, none]
        (hostStream false [.respond noResult, .respond otherResult]) =
      ([], some (.refused .violation (hostStream false [.respond otherResult]))) ∧
    (responses false [.respond noResult, .respond otherResult]).length = 2 := by
  constructor <;> rfl

/-! ## Payloads of any size -/

/-- All that remains of a packet is offered and sent, and the packet gets what the device at the
other end has made of as many bytes. -/
structure PayloadKept (p : USBPacket) : Prop where
  /-- The length in the request is that of the rest. -/
  offered : ∀ s, (requestHeader s p).length.toNat = p.iov.length - p.actualLength
  /-- A packet that goes out is sent to its end. -/
  sent : ∀ s behind, ¬ s.closed → (usbTcpRemoteHandlePacket s p behind).2 =
    [tcpUsbRequest] ++ (requestHeader s p).bytes ++
      if p.pid = .inp then [] else p.iov.drop p.actualLength
  /-- Whatever result the host has for a transfer of the length in the request, with the bytes and
  the count of the device, the packet has them after it. -/
  received : ∀ s, ∀ r : HostPacket, ∀ q : LocalPacket,
    r.pid = p.pid → r.status ≠ usbRetAsync → r.iov.length = (requestHeader s p).length.toNat →
    r.actualLength ≤ r.iov.length →
    q.pid = p.pid → q.iov = p.iov → q.actualLength = p.actualLength →
    transferData (responseHeader r) ((responseBuffer r).getD []) q = .ok { q with
      iov := if p.pid = .inp then p.iov.take p.actualLength ++ r.iov.take r.actualLength ++
        p.iov.drop (p.actualLength + r.actualLength) else p.iov
      actualLength := p.actualLength + r.actualLength }

/-- The data of a result reaches a packet that has room for it. -/
theorem transferData_result {r : HostPacket} {q : LocalPacket} (hpid : r.pid = q.pid)
    (hstatus : r.status ≠ usbRetAsync) (hactual : r.actualLength ≤ r.iov.length)
    (hroom : q.actualLength + r.actualLength ≤ q.iov.length) :
    transferData (responseHeader r) ((responseBuffer r).getD []) q = .ok { q with
      iov := if q.pid = .inp then q.iov.take q.actualLength ++ r.iov.take r.actualLength ++
        q.iov.drop (q.actualLength + r.actualLength) else q.iov
      actualLength := q.actualLength + r.actualLength } := by
  have hn : (responseHeader r).length.toNat = r.actualLength := by
    rw [responseHeader_length, min_eq_left hactual]
  have hpos : (responseHeader r).length > 0 ↔ 0 < r.actualLength := by
    rw [gt_iff_lt, UInt16.lt_iff_toNat_lt, hn]
    rfl
  have hin : (responseHeader r).pid = usbTokenIn ↔ q.pid = .inp := hpid ▸ r.pid.code_eq_iff
  unfold transferData
  rcases Nat.eq_zero_or_pos r.actualLength with hz | hz
  · simp [hpos, hz]
  · rw [if_pos ⟨hpos.mpr hz, hstatus⟩]
    by_cases hp : q.pid = .inp
    · have hbuf : (responseBuffer r).getD [] = r.iov.take r.actualLength := by
        rw [responseBuffer, if_pos ⟨hin.mpr hp, hstatus⟩, hn]
        rfl
      rw [if_pos (hin.mpr hp), hbuf, usbPacketCopy, length_take_of_le hactual, if_pos hroom]
      simp [hp]
    · rw [if_neg (hin.not.mpr hp), if_neg hp, hn]

/-- A packet of 64 KiB that goes out. -/
def longPacket : USBPacket where
  pid := .out
  ep := 1
  id := 7
  stream := 0
  shortNotOk := false
  intReq := false
  iov := replicate 65536 0
  actualLength := 0
  combined := false
  endpoint := rfl
  actual_le := Nat.zero_le _

end Inferno.UsbTcp
