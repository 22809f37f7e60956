import Inferno.A7iop.Fifo
import Inferno.Common.Outcome
import Inferno.SepSim.Model

/-!
# Which messages the simulated SEP survives

The buffers of an endpoint are set under an assertion on the number of the endpoint, and an image is
booted under one on the kind of firmware that was announced before. The request of a keystore
message is read at fixed offsets, whatever size the message names. So a sequence of messages is
handled without a failed assertion and with all reads inside exactly if every message meets the
assertions (`Asserted`) and names a size that covers what is read (`Fits`).

The handlers change the mailbox of the IOP in no way, so that one run of the bottom half handles the
messages that wait, in their order (`handleMessages_exactly`). Of the messages before, only the last
announcement of the firmware matters (`nextRsep`).
-/

namespace Inferno.SepSim

open Common A7iop List

/-! ## Conditions on a message -/

/-- A read is inside of the copy of the request. -/
def Read.Inside (r : Read) : Prop := r.offset + r.size ≤ r.limit

section

variable (rsep : Bool) (msg : Message)

/-- The endpoint that handles a message. -/
def endpoint : Option Endpoint := Endpoint.ofByte (SEPMessage.ofMessage msg).ep

/-- The opcodes that set a field of the buffers of an endpoint. -/
def ControlOp.SetsOol (op : ControlOp) : Prop :=
  op = .setOolInAddr ∨ op = .setOolOutAddr ∨ op = .setOolInSize ∨ op = .setOolOutSize

/-- A control message names an endpoint that has buffers, and the ASN.1 library works. -/
@[mk_iff]
structure ControlOk (host : Host) (msg : Message) : Prop where
  /-- The endpoint has buffers. -/
  id : ∀ op, ControlOp.ofByte (SEPMessage.ofMessage msg).op = some op → op.SetsOol →
    (SetOOLMessage.ofMessage msg).id.toNat < sepEndpointMax
  /-- The coding of the header is found. -/
  art : ControlOp.ofByte (SEPMessage.ofMessage msg).op = some .eraseInstall → host.art.isSome = true

/-- The image that a bootstrap message boots is of the kind that was announced. -/
def BootstrapOk : Prop :=
  BootstrapOp.ofByte (SEPMessage.ofMessage msg).op = some .bootImg4 →
    rsep = ((SEPMessage.ofMessage msg).param == 1)

section

variable (host : Host) (msg : Message)

/-- The hash is supported when a keystore message needs it. -/
def KeystoreOk : Prop :=
  (response (msgCode (KeystoreMessage.ofMessage msg).tag)).isSome = true → host.sha256.isSome = true

/-- A message meets the assertions. -/
@[mk_iff]
structure Asserted (host : Host) (rsep : Bool) (msg : Message) : Prop where
  /-- Those of the control messages. -/
  control : endpoint msg = some .control → ControlOk host msg
  bootstrap : endpoint msg = some .bootstrap → BootstrapOk rsep msg
  keystore : endpoint msg = some .keystore → KeystoreOk host msg

/-- How much of a request is read for a code. -/
def extent (logGuestError : Bool) : ℕ → ℕ
  | 0x01 => 0x4C
  | 0x02 => if logGuestError then 0x64 else 0x4C
  | 0x03 => 0x4C
  | 0x04 => 0x64
  | 0x05 => 0x4C
  | 0x0A => 0x4C
  | 0x0C => 0x4C
  | 0x0D => 0x4C
  | 0x19 => if logGuestError then 0x68 else 0x4C
  | 0x1B => if logGuestError then 0x58 else 0x4C
  | _ => 0

/-- A keystore message names a size that covers what is read of its request. -/
def Fits : Prop :=
  endpoint msg = some .keystore →
    extent host.logGuestError (msgCode (KeystoreMessage.ofMessage msg).tag) ≤
      (KeystoreMessage.ofMessage msg).size

end

/-- The kind of firmware after a message. -/
def nextRsep : Bool :=
  if endpoint msg = some .bootstrap ∧
      BootstrapOp.ofByte (SEPMessage.ofMessage msg).op = some .bootTz0 then
    (SEPMessage.ofMessage msg).param == 1
  else rsep

end

variable (host : Host)

variable (msg : KeystoreMessage)

/-- The reads of the request of a keystore message. -/
def keystoreReads : List Read :=
  match response (msgCode msg.tag) with
  | some r => readsOf msg.size (r.fields host)
  | none => if msgCode msg.tag = 0x08 then [] else readsOf msg.size [(0, msg.size)]

def requestReads (host : Host) (msg : Message) : List Read :=
  if endpoint msg = some .keystore then keystoreReads host (KeystoreMessage.ofMessage msg) else []

/-! ## Reads -/

theorem readsOf_inside_iff (size : ℕ) (fields : List (ℕ × ℕ)) :
    (∀ r ∈ readsOf size fields, r.Inside) ↔ ∀ f ∈ fields, f.1 + f.2 ≤ size := by
  rw [readsOf, forall_mem_map]
  rfl

/-- The fields that an answer reads end in the request exactly if it has the extent of the code. -/
theorem fields_inside_iff {code : ℕ} {r : Response} (h : response code = some r) {size : ℕ} :
    (∀ f ∈ r.fields host, f.1 + f.2 ≤ size) ↔ extent host.logGuestError code ≤ size := by
  unfold response at h
  split at h
  case h_11 => cases h
  all_goals
    obtain rfl := Option.some.inj h
    cases hlog : host.logGuestError <;>
      simp [Response.fields, Response.fixed, headerFields, extent, hlog] <;> omega

theorem extent_of_response_eq_none {code : ℕ} (h : response code = none) (log : Bool) :
    extent log code = 0 := by
  unfold extent
  split
  case h_11 => rfl
  all_goals cases h

theorem keystoreReads_inside_iff : (∀ r ∈ keystoreReads host msg, r.Inside) ↔
      extent host.logGuestError (msgCode msg.tag) ≤ msg.size := by
  unfold keystoreReads
  split
  case h_1 r hr => rw [readsOf_inside_iff, fields_inside_iff host hr]
  case h_2 hr =>
    rw [extent_of_response_eq_none hr]
    split_ifs
    · simp
    · simp [readsOf_inside_iff]

theorem requestReads_inside_iff {host : Host} (msg : Message) :
    (∀ r ∈ requestReads host msg, r.Inside) ↔ Fits host msg := by
  unfold requestReads Fits
  split_ifs with hkeystore
  · rw [forall_prop_of_true hkeystore, keystoreReads_inside_iff]
  · simp [hkeystore]

/-! ## Handlers -/

section Handlers

variable {cfg : Config} {s s' : AppleSEPSimState} {rsep : Bool} {reads : List Read}

/-- What a handler does as far as messages to come are concerned. -/
structure Handled (s : AppleSEPSimState) (rsep : Bool) (reads : List Read)
    (s' : AppleSEPSimState) : Prop where
  /-- The messages that wait are as before. -/
  fifo : (s'.a7iop.mailbox .iop).core.fifo = (s.a7iop.mailbox .iop).core.fifo
  dir : (s'.a7iop.mailbox .ap).dir_en = (s.a7iop.mailbox .ap).dir_en
  rsep : s'.rsep = rsep
  reads : s'.reads = s.reads ++ reads

theorem Handled.nothing (s : AppleSEPSimState) : Handled s s.rsep [] s :=
  ⟨rfl, rfl, rfl, (append_nil _).symm⟩

section

variable (h : Handled s rsep reads s')

include h

theorem Handled.sendAp {msg : Message} : Handled s rsep reads (sendAp cfg s' msg) where
  fifo := by
    rw [SepSim.sendAp, core_sendTo, ← h.fifo]
    rfl
  dir := by rw [SepSim.sendAp, dir_en_sendTo, h.dir]
  rsep := h.rsep
  reads := h.reads

theorem Handled.sendMessage (ep tag op param : UInt8) (data : BitVec 32) :
    Handled s rsep reads (appleSepSimSendMessage cfg s' ep tag op param data) :=
  h.sendAp

theorem Handled.dmaMemoryWrite (addr : BitVec 64) (bytes : List UInt8) :
    Handled s rsep reads (dmaMemoryWrite s' addr bytes) :=
  ⟨h.fifo, h.dir, h.rsep, h.reads⟩

theorem Handled.oolState (ool : Fin sepEndpointMax → AppleSEPSimOOLState) :
    Handled s rsep reads { s' with oolState := ool } :=
  ⟨h.fifo, h.dir, h.rsep, h.reads⟩

end

theorem Handled.read (s : AppleSEPSimState) (reads : List Read) :
    Handled s s.rsep reads { s with reads := s.reads ++ reads } :=
  ⟨rfl, rfl, rfl, rfl⟩

theorem Handled.advertiseEps (h : Handled s rsep reads s') :
    Handled s rsep reads (appleSepSimAdvertiseEps cfg s') := by
  have hrun : ∀ eps s', Handled s rsep reads s' →
      Handled s rsep reads (foldl (advertiseEp cfg) s' eps) := by
    intro eps s' hs'
    exact invariant_run (P := Handled s rsep reads) (fun _ _ h => (h.sendAp).sendAp) hs' eps
  exact hrun _ _ h

variable (cfg) (host : Host)

section

variable (env : Env) (s : AppleSEPSimState) (msg : Message)

theorem setOol_exactly (ep : UInt8) (f : AppleSEPSimOOLState → AppleSEPSimOOLState)
    (msg : SEPMessage) :
    Exactly ((setOol s ep f).map fun s => appleSepSimControlSendAck cfg s msg 0 0)
      (ep.toNat < sepEndpointMax) (Handled s s.rsep []) := by
  unfold setOol
  split_ifs with hep
  · exact exactly_some hep (((Handled.nothing s).oolState _).sendMessage ..)
  · exact exactly_none hep

theorem handleControlMsg_exactly :
    Exactly (appleSepSimHandleControlMsg cfg host s msg) (ControlOk host msg)
      (Handled s s.rsep []) := by
  have hnothing := Handled.nothing s
  -- The assertion is about one opcode at a time.
  have hok : ∀ op, ControlOp.ofByte (SEPMessage.ofMessage msg).op = op → (ControlOk host msg ↔
        (∀ o, op = some o → o.SetsOol → (SetOOLMessage.ofMessage msg).id.toNat < sepEndpointMax) ∧
        (op = some .eraseInstall → host.art.isSome = true)) := by
    rintro op rfl
    exact controlOk_iff host msg
  unfold appleSepSimHandleControlMsg
  dsimp only
  split
  case h_1 hop | h_6 hop | h_7 hop =>
    exact exactly_some ((hok _ hop).mpr (by simp [ControlOp.SetsOol])) (hnothing.sendMessage ..)
  case h_2 hop | h_3 hop | h_4 hop | h_5 hop =>
    exact (setOol_exactly cfg s _ _ _).imp (by simp [hok _ hop, ControlOp.SetsOol]) fun _ _ h => h
  case h_8 hop =>
    have hart : ControlOk host msg ↔ host.art.isSome = true := by
      simp [hok _ hop, ControlOp.SetsOol]
    cases hcoding : host.art with
    | none => exact exactly_none (by simp [hart, hcoding])
    | some data =>
      exact exactly_some (hart.mpr (by rw [hcoding]; rfl))
        (((hnothing.sendMessage ..).dmaMemoryWrite ..).sendMessage ..)
  case h_9 hop => exact exactly_some ((hok _ hop).mpr (by simp)) hnothing

/-- The kind of firmware that a bootstrap message leaves behind. -/
def bootRsep (rsep : Bool) (msg : Message) : Bool :=
  if BootstrapOp.ofByte (SEPMessage.ofMessage msg).op = some .bootTz0 then
    (SEPMessage.ofMessage msg).param == 1
  else rsep

theorem handleBootstrapMsg_exactly :
    Exactly (appleSepSimHandleBootstrapMsg cfg env s msg) (BootstrapOk s.rsep msg)
      (Handled s (bootRsep s.rsep msg) []) := by
  have hnothing := Handled.nothing s
  unfold appleSepSimHandleBootstrapMsg BootstrapOk bootRsep
  dsimp only
  split
  case h_5 hop =>
    rw [hop]
    have hboot : Handled s ((SEPMessage.ofMessage msg).param == 1) []
        { s with rsep := (SEPMessage.ofMessage msg).param == 1, status := .active } :=
      ⟨rfl, rfl, rfl, hnothing.reads⟩
    exact exactly_some (by simp) (hboot.sendMessage ..)
  case h_6 hop =>
    rw [hop, if_neg (by decide : some BootstrapOp.bootImg4 ≠ some .bootTz0)]
    split_ifs with hrsep
    · exact exactly_some (fun _ => hrsep) ((hnothing.sendMessage ..).sendMessage ..).advertiseEps
    · exact exactly_none fun h => hrsep (h rfl)
  case h_8 hop =>
    rw [hop]
    exact exactly_some (by simp) hnothing
  all_goals
    rename_i hop
    rw [hop]
    exact exactly_some (by simp) (hnothing.sendMessage ..)

theorem handleKeystoreMsg_exactly :
    Exactly (appleSepSimHandleKeystoreMsg cfg host env s msg) (KeystoreOk host msg)
      (Handled s s.rsep (keystoreReads host (KeystoreMessage.ofMessage msg))) := by
  unfold appleSepSimHandleKeystoreMsg KeystoreOk keystoreReads
  dsimp only
  split
  case h_1 r hr =>
    rw [hr]
    unfold appleSepSimKeystoreSendIpcResp
    cases hhash : host.sha256 with
    | none => exact exactly_none (by simp)
    | some sha256 =>
      exact exactly_some (by simp) (((Handled.read s _).dmaMemoryWrite ..).sendMessage ..)
  case h_2 hr =>
    rw [hr]
    split_ifs
    · exact exactly_some (by simp) ((Handled.nothing s).sendMessage ..)
    · exact exactly_some (by simp) (((Handled.read s _).dmaMemoryWrite ..).sendMessage ..)

theorem handleMessage_exactly :
    Exactly (handleMessage cfg host env s msg) (Asserted host s.rsep msg)
      (Handled s (nextRsep s.rsep msg) (requestReads host msg)) := by
  have hnothing := Handled.nothing s
  -- At most one of the assertions is about the endpoint.
  have hok : ∀ ep, endpoint msg = ep → (Asserted host s.rsep msg ↔
      (ep = some .control → ControlOk host msg) ∧
      (ep = some .bootstrap → BootstrapOk s.rsep msg) ∧
      (ep = some .keystore → KeystoreOk host msg)) := by
    rintro ep rfl
    exact asserted_iff host s.rsep msg
  unfold handleMessage nextRsep requestReads
  rw [← endpoint]
  split
  case h_1 hep =>
    rw [hep]
    exact (handleControlMsg_exactly cfg host s msg).imp (by simp [hok _ hep]) (by simp)
  case h_4 hep =>
    rw [hep]
    exact (handleKeystoreMsg_exactly cfg host env s msg).imp (by simp [hok _ hep]) (by simp)
  case h_5 hep =>
    rw [hep]
    exact exactly_some (by simp [hok _ hep]) (hnothing.oolState _)
  case h_6 hep =>
    rw [hep]
    exact (handleBootstrapMsg_exactly cfg env s msg).imp (by simp [hok _ hep]) (by simp [bootRsep])
  case h_7 hcontrol _ _ hkeystore _ hbootstrap =>
    rw [if_neg fun h => hbootstrap h.1, if_neg hkeystore]
    exact exactly_some ((hok _ rfl).mpr ⟨fun h => absurd h hcontrol, fun h => absurd h hbootstrap,
      fun h => absurd h hkeystore⟩) hnothing
  all_goals
    rename_i hep
    rw [hep]
    exact exactly_some (by simp [hok _ hep]) (hnothing.sendMessage ..)

end

/-! ## Received messages -/

section Received

variable (msg : Message) (bytes : List UInt8)

theorem sepMessage_store : SEPMessage.ofMessage (msg.store 0xC bytes) = SEPMessage.ofMessage msg :=
  rfl

theorem setOOLMessage_store :
    SetOOLMessage.ofMessage (msg.store 0xC bytes) = SetOOLMessage.ofMessage msg :=
  rfl

theorem keystoreMessage_store :
    KeystoreMessage.ofMessage (msg.store 0xC bytes) = KeystoreMessage.ofMessage msg :=
  rfl

theorem asserted_store (host : Host) (rsep : Bool) :
    Asserted host rsep (msg.store 0xC bytes) ↔ Asserted host rsep msg := by
  simp [asserted_iff, controlOk_iff, endpoint, BootstrapOk, KeystoreOk, sepMessage_store,
    setOOLMessage_store, keystoreMessage_store]

theorem requestReads_store (host : Host) :
    requestReads host (msg.store 0xC bytes) = requestReads host msg :=
  rfl

end Received

/-! ## The bottom half -/

/-- The bottom half can receive messages, and these wait. -/
structure Waiting (s : AppleSEPSimState) (msgs : List Message) : Prop where
  dir : (s.a7iop.mailbox .ap).dir_en .iop = true
  /-- The messages that wait, with no underflow. -/
  fifo : (s.a7iop.mailbox .iop).core.fifo = ⟨msgs, false⟩

variable {msgs : List Message}

theorem Handled.waiting (h : Handled s rsep reads s') (hs : Waiting s msgs) : Waiting s' msgs :=
  ⟨(congrFun h.dir .iop).trans hs.dir, h.fifo.trans hs.fifo⟩

theorem Waiting.inbox (h : Waiting s msgs) : (s.a7iop.mailbox .iop).inbox = msgs :=
  congrArg Fifo.queue h.fifo

theorem Waiting.underflow (h : Waiting s msgs) : (s.a7iop.mailbox .iop).underflow = false :=
  congrArg Fifo.underflow h.fifo

theorem Waiting.recv {msg : Message} {rest : List Message} (h : Waiting s (msg :: rest)) :
    ∃ p bytes, recvFrom cfg .iop .ap s.a7iop = (p, some (msg.store 0xC bytes)) ∧
      Waiting { s with a7iop := p } rest := by
  have hrecv : (recvFrom cfg .iop .ap s.a7iop).2 = some (msg.store 0xC
      (leBytes 4 (ctrlCount (s.a7iop.mailbox .iop).count).toNat)) := by
    rw [recvFrom, if_pos h.dir, A7iop.recv]
    simp [h.underflow, h.inbox]
  refine ⟨(recvFrom cfg .iop .ap s.a7iop).1, _, Prod.ext rfl hrecv, ?_, ?_⟩
  · exact (congrFun (dir_en_recvFrom ..) .iop).trans h.dir
  · rw [core_recvFrom, Call.event, if_pos ⟨rfl, h.dir⟩, Core.step, h.fifo]
    rfl

theorem Waiting.isEmpty_eq (h : Waiting s []) : isEmpty (s.a7iop.mailbox .iop) = true := by
  simp [isEmpty, h.inbox]

theorem Waiting.send (h : Waiting s msgs) (msg : Message) :
    Waiting { s with a7iop := sendTo cfg .iop .ap msg s.a7iop } (msgs ++ [msg]) := by
  refine ⟨(congrFun (dir_en_sendTo ..) .iop).trans h.dir, ?_⟩
  rw [core_sendTo, Call.event, if_pos ⟨rfl, h.dir⟩, Core.step, h.fifo]
  rfl

/-- The bottom half handles the messages that wait, in their order. -/
theorem handleMessages_exactly (h : Waiting s msgs) {fuel : ℕ} (hfuel : msgs.length ≤ fuel)
    (env : ℕ → Env) : Exactly (appleSepSimHandleMessages cfg host fuel env s)
      (Guarded nextRsep (Asserted host) s.rsep msgs) fun s' =>
        Waiting s' [] ∧ s'.rsep = run nextRsep s.rsep msgs ∧
          s'.reads = s.reads ++ msgs.flatMap (requestReads host) := by
  induction msgs generalizing s fuel env with
  | nil =>
    unfold appleSepSimHandleMessages
    rw [if_pos h.isEmpty_eq]
    exact exactly_some trivial ⟨h, rfl, (append_nil _).symm⟩
  | cons msg rest ih =>
    obtain ⟨fuel, rfl⟩ : ∃ n, fuel = n + 1 := Nat.exists_eq_add_one.mpr (by simp at hfuel; omega)
    have hempty : isEmpty (s.a7iop.mailbox .iop) = false := by simp [isEmpty, h.inbox, h.underflow]
    obtain ⟨p, bytes, hrecv, hp⟩ := h.recv cfg
    unfold appleSepSimHandleMessages
    rw [hempty, hrecv]
    have hfirst := handleMessage_exactly cfg host (env 0) { s with a7iop := p }
      (msg.store 0xC bytes)
    rw [asserted_store, requestReads_store] at hfirst
    refine hfirst.bind fun s₁ hs₁ => ?_
    have hrest := ih (hs₁.waiting hp) (Nat.le_of_succ_le_succ hfuel) fun k => env (k + 1)
    rw [hs₁.rsep] at hrest
    refine hrest.imp Iff.rfl fun _ s' hs' => ⟨hs'.1, hs'.2.1, ?_⟩
    rw [hs'.2.2, hs₁.reads, flatMap_cons, append_assoc]

/-! ## All sequences of messages -/

/-- The messages that are handled in a sequence of operations, when some wait before it. -/
def handled (waiting : List Message) : List Op → List Message
  | [] => []
  | .send msg :: ops => handled (waiting ++ [msg]) ops
  | .handle _ :: ops => waiting ++ handled [] ops

/-- A sequence of operations has no failed assertion exactly if the messages that it handles meet
the assertions, and it reads of their requests what their codes say. -/
theorem foldlM_exactly (h : Waiting s msgs) (ops : List Op) : Exactly (ops.foldlM (step cfg host) s)
      (Guarded nextRsep (Asserted host) s.rsep (handled msgs ops)) fun s' =>
        s'.reads = s.reads ++ (handled msgs ops).flatMap (requestReads host) := by
  induction ops generalizing s msgs with
  | nil => exact exactly_some trivial (append_nil _).symm
  | cons op ops ih =>
    cases op with
    | send msg => exact ih (h.send cfg msg)
    | handle env =>
      have hscheduled : Waiting { s with a7iop := A7iop.step cfg s.a7iop .bottomHalf } msgs :=
        ⟨h.dir, h.fifo⟩
      have hinbox := congrArg (fun fifo => fifo.queue.length) hscheduled.fifo
      have hhandle := handleMessages_exactly cfg host hscheduled hinbox.ge env
      refine (hhandle.bind fun s₁ hs₁ => ?_).imp guarded_append.symm fun _ _ h => h
      have hrest := ih hs₁.1
      rw [hs₁.2.1] at hrest
      refine hrest.imp Iff.rfl fun _ s' hs' => ?_
      rw [hs', hs₁.2.2, handled, flatMap_append, append_assoc]

/-- Nothing waits after a reset. -/
theorem waiting_new : Waiting (appleSepSimNew cfg) [] where
  dir := by
    rw [appleSepSimNew, appleSepSimResetHold, SepSim.sendAp, dir_en_sendTo]
    rfl
  fifo := by
    rw [appleSepSimNew, appleSepSimResetHold, SepSim.sendAp, core_sendTo]
    rfl

end Handlers

/-- From a reset on, a sequence of messages and runs of the bottom half ends without a failed
assertion, and with all reads of requests inside of them, exactly if the messages that are handled
meet the assertions and name sizes that cover what is read. -/
theorem sep_sim_messages_iff (host : Host) (version : AppleA7IOPVersion) (ops : List Op) :
    (∃ s, ops.foldlM (step (sepConfig version) host) (appleSepSimNew (sepConfig version)) = some s ∧
      ∀ r ∈ s.reads, r.Inside) ↔ Guarded nextRsep (Asserted host) false (handled [] ops) ∧
      ∀ msg ∈ handled [] ops, Fits host msg := by
  have hrun := foldlM_exactly (sepConfig version) host (waiting_new (sepConfig version)) ops
  have hinside : ∀ s : AppleSEPSimState,
      s.reads = [] ++ (handled [] ops).flatMap (requestReads host) →
      ((∀ r ∈ s.reads, r.Inside) ↔ ∀ msg ∈ handled [] ops, Fits host msg) := by
    intro s hs
    rw [hs, nil_append, forall_mem_flatMap]
    exact forall₂_congr fun msg _ => requestReads_inside_iff msg
  constructor
  · rintro ⟨s, hs, hreads⟩
    obtain ⟨hasserted, heq⟩ := hrun.of_some hs
    exact ⟨hasserted, (hinside s heq).mp hreads⟩
  · rintro ⟨hasserted, hfits⟩
    obtain ⟨s, hs, heq⟩ := hrun.exists_some hasserted
    exact ⟨s, hs, (hinside s heq).mpr hfits⟩

/-! ## Memory of the host -/

section Heap

variable {env : Env} {heap : ℕ → UInt8}

/-- What ends in the request does not depend on the memory behind it. -/
theorem load_requestBuf {addr : BitVec 64} {size off n : ℕ} (h : off + n ≤ size) :
    load (requestBuf { env with heap := heap } addr size) off n =
      load (requestBuf env addr size) off n := by
  refine map_congr_left fun i hi => ?_
  have hin : off + i < size := by
    have hi' := mem_range.mp hi
    omega
  rw [requestBuf, requestBuf, if_pos hin, if_pos hin]

/-- An answer to a request of the extent of its code does not depend on the memory behind it. -/
theorem answer_requestBuf {code : ℕ} {r : Response} (hr : response code = some r) {log : Bool}
    (addr : BitVec 64) {size : ℕ} (h : extent log code ≤ size) :
    ipcHeader (requestBuf { env with heap := heap } addr size) ++
        r.body (requestBuf { env with heap := heap } addr size) =
      ipcHeader (requestBuf env addr size) ++ r.body (requestBuf env addr size) := by
  have hfields := (fields_inside_iff ⟨log, none, none⟩ hr).mpr h
  have hload : ∀ f ∈ headerFields ++ r.used,
      load (requestBuf { env with heap := heap } addr size) f.1 f.2 =
        load (requestBuf env addr size) f.1 f.2 := by
    intro f hf
    refine load_requestBuf (hfields f ?_)
    rw [Response.fields, append_assoc]
    exact mem_append_right _ hf
  rw [forall_mem_append] at hload
  congr 1
  · -- The header is made of its fields.
    have hheader := hload.1
    simp only [headerFields, forall_mem_cons] at hheader
    obtain ⟨htime, hid, huid, hsession, hdigest, -⟩ := hheader
    rw [ipcHeader, ipcHeader, htime, hid, huid, hsession, hdigest]
  · unfold response at hr
    split at hr
    case h_4 =>
      obtain rfl := Option.some.inj hr
      have hstate := hload.2 _ mem_cons_self
      dsimp only at ⊢
      rw [hstate]
    case h_11 => cases hr
    all_goals
      obtain rfl := Option.some.inj hr
      rfl

/-- A message that fits is handled in the same way whatever is in the memory of the host. -/
theorem handleMessage_heap (cfg : Config) (host : Host) (s : AppleSEPSimState) {msg : Message}
    (h : Fits host msg) :
    handleMessage cfg host { env with heap := heap } s msg = handleMessage cfg host env s msg := by
  unfold handleMessage
  split
  case h_4 hep =>
    have hextent := h hep
    unfold appleSepSimHandleKeystoreMsg
    dsimp only
    split
    case h_1 r hr => rw [answer_requestBuf hr _ hextent]
    case h_2 => rw [load_requestBuf (by omega)]
  all_goals rfl

variable {s : AppleSEPSimState} {msgs : List Message} (heap : ℕ → ℕ → UInt8)

theorem handleMessages_heap (cfg : Config) (host : Host) (h : Waiting s msgs)
    (hfits : ∀ msg ∈ msgs, Fits host msg) {fuel : ℕ} (hfuel : msgs.length ≤ fuel) (env : ℕ → Env) :
    appleSepSimHandleMessages cfg host fuel (fun k => { env k with heap := heap k }) s =
      appleSepSimHandleMessages cfg host fuel env s := by
  induction msgs generalizing s fuel env heap with
  | nil =>
    unfold appleSepSimHandleMessages
    rw [if_pos h.isEmpty_eq, if_pos h.isEmpty_eq]
  | cons msg rest ih =>
    obtain ⟨fuel, rfl⟩ : ∃ n, fuel = n + 1 := Nat.exists_eq_add_one.mpr (by simp at hfuel; omega)
    rw [forall_mem_cons] at hfits
    obtain ⟨p, bytes, hrecv, hp⟩ := h.recv cfg
    unfold appleSepSimHandleMessages
    rw [hrecv]
    dsimp only
    rw [handleMessage_heap cfg host _ (by exact hfits.1)]
    refine if_congr Iff.rfl rfl (Option.bind_congr fun s₁ hs₁ => ?_)
    have hfirst := ((handleMessage_exactly cfg host (env 0) { s with a7iop := p } _).of_some hs₁).2
    exact ih _ (hfirst.waiting hp) hfits.2 (Nat.le_of_succ_le_succ hfuel) fun k => env (k + 1)

/-- The same operation with other bytes in the memory of the host. -/
def Op.withHeap : Op → Op
  | .send msg => .send msg
  | .handle env => .handle fun k => { env k with heap := heap k }

/-- A sequence of operations in which all messages that are handled fit does the same whatever is in
the memory of the host. -/
theorem foldlM_withHeap (cfg : Config) (host : Host) {ops : List Op} (h : Waiting s msgs)
    (hfits : ∀ msg ∈ handled msgs ops, Fits host msg) :
    (ops.map (Op.withHeap heap)).foldlM (step cfg host) s = ops.foldlM (step cfg host) s := by
  induction ops generalizing s msgs with
  | nil => rfl
  | cons op ops ih =>
    cases op with
    | send msg => exact ih (h.send cfg msg) hfits
    | handle env =>
      rw [handled, forall_mem_append] at hfits
      have hscheduled : Waiting { s with a7iop := A7iop.step cfg s.a7iop .bottomHalf } msgs :=
        ⟨h.dir, h.fifo⟩
      have hfuel := (congrArg (fun fifo => fifo.queue.length) hscheduled.fifo).ge
      have hstep : step cfg host s (.withHeap heap (.handle env)) = step cfg host s (.handle env) :=
        handleMessages_heap heap cfg host hscheduled hfits.1 hfuel env
      rw [map_cons, foldlM_cons, foldlM_cons, hstep]
      refine Option.bind_congr fun s₁ hs₁ => ?_
      exact ih ((handleMessages_exactly cfg host hscheduled hfuel env).of_some hs₁).2.1 hfits.2

/-- A keystore message that names the size `0x100` is handled. -/
def keystoreRun (f : Op → Op) : Option AppleSEPSimState :=
  ([.send (SEPMessage.toMessage ⟨18, 1, 0, 0, 0x1000000⟩),
    .handle fun _ => ⟨fun _ => 0, fun _ => 0, 0⟩].map f).foldlM
      (step (sepConfig .v4) ⟨false, none, some fun _ _ => 0⟩) (appleSepSimNew (sepConfig .v4))

theorem foldlM_withHeap_keystore : keystoreRun (.withHeap fun _ _ => 1) = keystoreRun id := by
  refine foldlM_withHeap _ _ _ (waiting_new _) fun msg hmsg _ => ?_
  rw [mem_singleton.mp hmsg]
  decide +kernel

end Heap

/-! ## Messages that are not survived -/

/-- A host that logs nothing and whose libraries work. -/
def quietHost : Host := ⟨false, some [], some fun _ _ => 0⟩

/-- Surroundings with zeros everywhere. -/
def zeroEnv : ℕ → Env := fun _ => ⟨fun _ => 0, fun _ => 0, 0⟩

/-- Each of these messages stops the emulator when it is the only one: one that sets a buffer of
endpoint 32, and one that boots an image of a kind that was not announced. A keystore message that
names the size 8 makes the emulator read behind the end of the request. -/
theorem sep_sim_messages_stop : ([SEPMessage.mk 0 0 2 32 0, ⟨255, 0, 6, 1, 0⟩].all fun msg =>
      ([.send msg.toMessage, .handle zeroEnv].foldlM (step (sepConfig .v4) quietHost)
        (appleSepSimNew (sepConfig .v4))).isNone) = true ∧
    (([.send (SEPMessage.toMessage ⟨18, 1, 0, 0, 0x80000⟩), .handle zeroEnv].foldlM
      (step (sepConfig .v4) quietHost) (appleSepSimNew (sepConfig .v4))).map fun s => s.reads) =
      some [⟨0x18, 8, 8⟩, ⟨0x24, 8, 8⟩, ⟨0x2C, 8, 8⟩, ⟨0x34, 4, 8⟩, ⟨0x38, 0x14, 8⟩] := by
  decide +kernel

end Inferno.SepSim
