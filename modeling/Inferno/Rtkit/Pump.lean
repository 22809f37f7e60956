import Inferno.Rtkit.Handshake

/-!
# The message pump

The bottom half of the coprocessor takes the messages of its inbox one after another and calls the
handlers of their endpoints. Its loop looks at the mailbox of the coprocessor, while the receive is
made through the mailbox of the application processor and depends on the direction that is enabled
there, which a guest can disable while the bottom half is scheduled. The receive then returns
`NULL`, which the loop dereferences. After an underflow the loop takes the inbox for empty and
leaves the messages in it.

In all other states the handlers are called with the messages in order, each once, as long as no
assertion of the management endpoint or of the device fails: `pump_run` is the run of the loop.
Which assertions fail is decided by an automaton of the handshake and the device (`Party`).
Interleaved with whatever happens to the mailboxes, the bottom half works as it should exactly when
each of its runs finds an empty inbox, or one without underflow, the direction enabled, and messages
that the handlers accept (`pumpSafely_iff`).
-/

namespace Inferno.Rtkit

open A7iop Common List Option

variable {δ : Type}

/-! ## What the handlers leave alone -/

/-- The inbox of the coprocessor, and the directions of the mailbox of the application processor. -/
structure Link where
  core : Core
  dir_en : Side → Bool

/-- What the loop depends on. -/
def AppleRTKit.link (s : AppleRTKit δ) : Link :=
  ⟨(s.a7iop.mailbox .iop).core, (s.a7iop.mailbox .ap).dir_en⟩

variable (cfg : Config δ) {s' : AppleRTKit δ} (msg : Message)

section

variable (ep : BitVec 8) (data : BitVec 64) (s : AppleRTKit δ)

/-- Sending a message does not touch the inbox of the coprocessor. -/
@[simp]
theorem link_sendMsg : (sendMsg cfg ep data s).link = s.link := by
  have hcore : ((sendMsg cfg ep data s).a7iop.mailbox .iop).core = (s.a7iop.mailbox .iop).core :=
    (core_sendTo cfg.a7iop .ap .iop (constructMsg ep data) s.a7iop .iop).trans rfl
  have hdir : ((sendMsg cfg ep data s).a7iop.mailbox .ap).dir_en = (s.a7iop.mailbox .ap).dir_en :=
    dir_en_sendTo cfg.a7iop .ap .iop (constructMsg ep data) s.a7iop .ap
  unfold AppleRTKit.link
  rw [hcore, hdir]

/-- Nor does what the device does when it is called. -/
theorem link_perform (act : Action δ) (s : AppleRTKit δ) : (perform cfg act s).link = s.link :=
  foldl_sendUserMsg cfg (link_sendMsg cfg) _ _

/-- Nor does a hook. -/
@[simp]
theorem link_callHook (hook : Option (Action δ)) (s : AppleRTKit δ) :
    (callHook cfg hook s).link = s.link := by
  cases hook with
  | none => rfl
  | some act => exact link_perform cfg act s

/-- Nor does a start. -/
theorem link_cpuStart {wake : Bool} (s : AppleRTKit δ) : (cpuStart cfg wake s).link = s.link := by
  have hhello : ∀ t : AppleRTKit δ, (mgmtSendHello cfg t).link = t.link := link_sendMsg cfg 0 _
  unfold cpuStart
  split_ifs
  · rfl
  · rw [iopWakeup, hhello, link_callHook]
    rfl
  · rw [iopStart, hhello, link_callHook]
    rfl

theorem link_sendRollcall : (sendRollcall cfg s).link = s.link := by
  unfold sendRollcall
  cases s.rollcall with
  | nil => rfl
  | cons m rest => exact link_sendMsg cfg 0 m.raw _

theorem link_mgmtHandleMsg (raw : BitVec 64) {s : AppleRTKit δ}
    (h : mgmtHandleMsg cfg ep raw s = some s') : s'.link = s.link := by
  unfold mgmtHandleMsg at h
  split at h
  · unfold handleHelloAck mgmtRollcallV11 at h
    dsimp only at h
    split_ifs at h
    · rw [← some.inj h, link_sendMsg]
    · rw [← some.inj h]
      exact link_sendMsg cfg 0 _ _
    · rw [← some.inj h]
      exact link_sendRollcall cfg _
    · exact nomatch h
  · rw [← some.inj h, link_sendMsg]
  · rw [← some.inj h, link_sendMsg]
  · rw [← some.inj h]
    unfold handleReqPower
    split_ifs
    · exact link_cpuStart cfg s
    · exact link_sendMsg cfg ep _ _
    · rfl
  · unfold handleRollcall at h
    split_ifs at h
    · rw [← some.inj h, link_callHook]
      exact link_sendMsg cfg ep _ _
    · rw [← some.inj h, link_sendRollcall]
  · rw [← some.inj h]

end

variable {s : AppleRTKit δ}

theorem link_dispatch (h : dispatch cfg msg s = some s') : s'.link = s.link := by
  unfold dispatch deliver at h
  split at h
  · rw [← some.inj h]
  · split at h
    · exact link_mgmtHandleMsg cfg _ _ h
    · obtain ⟨r, -, rfl⟩ := map_eq_some_iff.mp h
      exact link_perform cfg _ _

/-! ## What the handlers accept -/

/-- What the assertions of the handlers depend on. -/
structure Party (δ : Type) where
  handshake : Handshake
  device : δ

/-- The party in a state of the coprocessor. -/
def AppleRTKit.party (s : AppleRTKit δ) : Party δ := ⟨s.handshake, s.device⟩

/-- The hook that a management message leads to: a wake-up, or the end of a roll call. -/
def hookOf (cfg : Config δ) (h : Handshake) (raw : BitVec 64) : Option (Action δ) :=
  match mgmtType raw with
  | .reqPower =>
    if getPstate raw = 0x220 ∧ ¬ AlreadyAwake h.cpu_status h.cpu_ctrl then cfg.wakeup else none
  | .rollcall => if h.pending = 0 then cfg.boot_done else none
  | _ => none

/-- The device after a hook, if there is one. -/
def afterHook (hook : Option (Action δ)) (device : δ) : δ :=
  hook.elim device fun act => (act device).1

/-- A handler is called. -/
def Party.next (cfg : Config δ) (p : Party δ) (d : Delivery δ) : Party δ :=
  match d.handler with
  | .mgmt =>
    ⟨p.handshake.message (rollcallLength cfg) d.msg,
      afterHook (hookOf cfg p.handshake d.msg) p.device⟩
  | .device f => { p with device := (f d.ep d.msg p.device).elim p.device Prod.fst }

/-- The assertions that the handler meets do not fail. -/
def Party.Accepts (p : Party δ) (d : Delivery δ) : Prop :=
  match d.handler with
  | .mgmt => p.handshake.Accepts d.msg
  | .device f => (f d.ep d.msg p.device).isSome = true

instance (p : Party δ) : DecidablePred p.Accepts
  | ⟨.mgmt, _, _⟩ => inferInstanceAs (Decidable (Handshake.Accepts _ _))
  | ⟨.device _, _, _⟩ => inferInstanceAs (Decidable (_ = true))

/-- The handlers accept calls one after another. -/
def Party.AcceptsAll (cfg : Config δ) : Party δ → List (Delivery δ) → Prop :=
  Guarded (Party.next cfg) Party.Accepts

instance (p : Party δ) (calls : List (Delivery δ)) : Decidable (p.AcceptsAll cfg calls) :=
  decidableGuarded _ _ p calls

/-- The device after one of its hooks. -/
theorem device_callHook (hook : Option (Action δ)) (s : AppleRTKit δ) :
    (callHook cfg hook s).device = afterHook hook s.device := by
  cases hook with
  | none => rfl
  | some act => exact foldl_sendUserMsg cfg (f := AppleRTKit.device) (fun _ _ _ => rfl) _ _

/-- The roll call does not call the device while it lasts. -/
theorem device_sendRollcall (s : AppleRTKit δ) : (sendRollcall cfg s).device = s.device := by
  unfold sendRollcall
  cases s.rollcall <;> rfl

/-- The device after a management message. -/
theorem device_mgmtHandleMsg {ep : BitVec 8} {raw : BitVec 64}
    (h : mgmtHandleMsg cfg ep raw s = some s') :
    s'.device = afterHook (hookOf cfg s.handshake raw) s.device := by
  unfold mgmtHandleMsg at h
  unfold hookOf
  cases htype : mgmtType raw <;> rw [htype] at h <;> dsimp only at h ⊢
  case helloAck =>
    unfold handleHelloAck mgmtRollcallV11 at h
    dsimp only at h
    split_ifs at h
    · rw [← some.inj h]
      rfl
    · rw [← some.inj h]
      rfl
    · rw [← some.inj h]
      exact device_sendRollcall cfg _
    · cases h
  case reqPower =>
    have hawake : AlreadyAwake s.handshake.cpu_status s.handshake.cpu_ctrl ↔
        AlreadyAwake s.cpu_status s.cpu_ctrl := Iff.rfl
    rw [← some.inj h]
    unfold handleReqPower cpuStart
    simp only [hawake]
    split_ifs <;> first | rfl | tauto | exact device_callHook cfg _ _
  case rollcall =>
    have hzero : s.handshake.pending = 0 ↔ s.rollcall = [] := length_eq_zero_iff
    unfold handleRollcall at h
    simp only [hzero]
    split_ifs at h ⊢
    · rw [← some.inj h, device_callHook]
      rfl
    · rw [← some.inj h, device_sendRollcall]
      rfl
  all_goals
    rw [← some.inj h]
    rfl

/-- A handler that is called moves the party, unless an assertion fails. -/
theorem party_deliver (d : Delivery δ) (s : AppleRTKit δ) :
    (deliver cfg d s).map AppleRTKit.party =
      if s.party.Accepts d then some (s.party.next cfg d) else none := by
  obtain ⟨handler, ep, raw⟩ := d
  cases handler with
  | mgmt =>
    show (mgmtHandleMsg cfg ep raw s).map AppleRTKit.party =
      if s.handshake.Accepts raw then _ else _
    have hiff := isSome_mgmtHandleMsg cfg ep raw s
    cases h : mgmtHandleMsg cfg ep raw s with
    | none =>
      rw [h] at hiff
      rw [if_neg fun haccepts => Bool.false_ne_true (hiff.mpr haccepts)]
      rfl
    | some s' =>
      have hshake := handshake_of_mgmtHandleMsg cfg ep raw h
      have hdevice := device_mgmtHandleMsg cfg h
      rw [h] at hiff
      rw [if_pos (hiff.mp rfl), map_some]
      exact congrArg some (congrArg₂ Party.mk hshake hdevice)
  | device f =>
    show ((f ep raw s.device).map fun r => perform cfg (fun _ => r) s).map AppleRTKit.party =
      if (f ep raw s.device).isSome = true then
        some ⟨s.handshake, (f ep raw s.device).elim s.device Prod.fst⟩ else none
    cases f ep raw s.device with
    | none => rfl
    | some r =>
      have hdevice : (perform cfg (fun _ => r) s).device = r.1 :=
        device_callHook cfg (some fun _ => r) s
      rw [if_pos isSome_some, map_some, map_some]
      exact congrArg some (congrArg₂ Party.mk (handshake_perform cfg _ s) hdevice)

/-! ## The loop -/

/-- The last bytes of a message, which a receive overwrites, do not matter for its delivery. -/
theorem delivery_store {bytes : List UInt8} :
    delivery cfg (msg.store 0xC bytes) = delivery cfg msg := by
  have hep : endpointOf (msg.store 0xC bytes) = endpointOf msg := by
    rfl
  have hmsg : msgOf (msg.store 0xC bytes) = msgOf msg := by
    rfl
  rw [delivery, delivery, hep, hmsg]

/-- The handlers accept the call that a message leads to, and further calls, exactly when the
handler returns and the further calls are accepted then. -/
theorem acceptsAll_dispatch (s : AppleRTKit δ) (calls : List (Delivery δ)) :
    s.party.AcceptsAll cfg ((delivery cfg msg).toList ++ calls) ↔
      ∃ s', dispatch cfg msg s = some s' ∧ s'.party.AcceptsAll cfg calls := by
  unfold dispatch
  cases delivery cfg msg with
  | none => simp
  | some d =>
    have hparty := party_deliver cfg d s
    show s.party.Accepts d ∧ (s.party.next cfg d).AcceptsAll cfg calls ↔ _
    dsimp only
    cases hdeliver : deliver cfg d s with
    | none =>
      rw [hdeliver, map_none] at hparty
      split_ifs at hparty with haccepts
      simp [haccepts]
    | some s' =>
      rw [hdeliver, map_some] at hparty
      split_ifs at hparty with haccepts
      simp [haccepts, ← some.inj hparty]

/-- A round of the loop takes the oldest message, without an underflow and with the direction
enabled. -/
theorem pump_succ {msg : Message} {rest : List Message}
    (hfifo : s.link.core.fifo = ⟨msg :: rest, false⟩) (hdir : s.link.dir_en .iop = true) :
    ∃ s₁ : AppleRTKit δ, s₁.link.core.fifo = ⟨rest, false⟩ ∧ s₁.link.dir_en .iop = true ∧
      s₁.party = s.party ∧ ∀ fuel calls, pump cfg (fuel + 1) s calls =
        match dispatch cfg msg s₁ with
        | none => .aborted
        | some s₂ => pump cfg fuel s₂ (calls ++ (delivery cfg msg).toList) := by
  have hinbox : (s.a7iop.mailbox .iop).inbox = msg :: rest := congrArg Fifo.queue hfifo
  have hunder : (s.a7iop.mailbox .iop).underflow = false := congrArg Fifo.underflow hfifo
  have hen : (s.a7iop.mailbox .ap).dir_en .iop = true := hdir
  have hempty : mailboxIsEmpty (s.a7iop.mailbox .iop) = false := by
    rw [mailboxIsEmpty, hunder, hinbox]
    rfl
  -- What is received differs from the message in its last bytes only.
  have hmsg : ∃ bytes, (recvFrom cfg.a7iop .iop .ap s.a7iop).2 = some (msg.store 0xC bytes) := by
    refine ⟨leBytes 4 (ctrlCount (s.a7iop.mailbox .iop).count).toNat, ?_⟩
    rw [recvFrom, if_pos hen, recv, hunder, hinbox]
    rfl
  obtain ⟨bytes, hmsg⟩ := hmsg
  have hrecv : recvFrom cfg.a7iop .iop .ap s.a7iop =
      ((recvFrom cfg.a7iop .iop .ap s.a7iop).1, some (msg.store 0xC bytes)) := Prod.ext rfl hmsg
  refine ⟨{ s with a7iop := (recvFrom cfg.a7iop .iop .ap s.a7iop).1 }, ?_, ?_, rfl, ?_⟩
  · have hcore := congrArg Core.fifo (core_recvFrom cfg.a7iop .iop .ap s.a7iop .iop)
    rw [Call.event, if_pos ⟨rfl, hen⟩] at hcore
    refine hcore.trans ?_
    show s.link.core.fifo.step .get = _
    rw [hfifo]
    rfl
  · exact (congrArg (fun en : Side → Bool => en .iop)
      (dir_en_recvFrom cfg.a7iop .iop .ap .ap)).trans hen
  · have hsame : dispatch cfg (msg.store 0xC bytes) = dispatch cfg msg := by
      funext s
      rw [dispatch, dispatch, delivery_store]
    intro fuel calls
    rw [pump, if_neg (ne_true_of_eq_false hempty), hrecv]
    dsimp only
    rw [hsame]
    cases dispatch cfg msg _ with
    | none => rfl
    | some s₂ =>
      exact congrArg (fun d => pump cfg fuel s₂ (calls ++ toList d)) (delivery_store cfg msg)

/-- The calls for the messages of an inbox are those for the first one and for the rest. -/
theorem filterMap_delivery_cons (msg : Message) (rest : List Message) :
    (msg :: rest).filterMap (delivery cfg) =
      (delivery cfg msg).toList ++ rest.filterMap (delivery cfg) := by
  rw [filterMap_cons]
  cases delivery cfg msg <;> rfl

theorem pump_of_empty {fuel : ℕ} {calls : List (Delivery δ)}
    (h : s.iopInbox = [] ∨ (s.a7iop.mailbox .iop).underflow = true) :
    pump cfg (fuel + 1) s calls = .returned s calls := by
  have hempty : mailboxIsEmpty (s.a7iop.mailbox .iop) = true := by
    unfold mailboxIsEmpty
    rcases h with hnil | hunder
    · have hinbox : (s.a7iop.mailbox .iop).inbox = [] := hnil
      rw [hinbox]
      exact Bool.or_true _
    · rw [hunder]
      rfl
  rw [pump, if_pos hempty]

variable {msgs : List Message}

/-- Without an underflow, with the direction enabled and with messages that the handlers accept, the
loop calls the handlers of all messages and returns with the inbox empty. -/
theorem pump_run {s : AppleRTKit δ} (calls : List (Delivery δ))
    (hfifo : s.link.core.fifo = ⟨msgs, false⟩) (hdir : s.link.dir_en .iop = true)
    (haccepts : s.party.AcceptsAll cfg (msgs.filterMap (delivery cfg))) :
    ∃ s', pump cfg (msgs.length + 1) s calls =
      .returned s' (calls ++ msgs.filterMap (delivery cfg)) ∧ s'.iopInbox = [] := by
  induction msgs generalizing s calls with
  | nil =>
    have hinbox : s.iopInbox = [] := congrArg Fifo.queue hfifo
    refine ⟨s, ?_, hinbox⟩
    rw [pump_of_empty cfg (.inl hinbox), filterMap_nil, append_nil]
  | cons msg rest ih =>
    obtain ⟨s₁, hfifo₁, hdir₁, hparty₁, hround⟩ := pump_succ cfg hfifo hdir
    rw [filterMap_delivery_cons, ← hparty₁, acceptsAll_dispatch] at haccepts
    obtain ⟨s₂, hdispatch, haccepts₂⟩ := haccepts
    -- The handler leaves what the loop depends on as it is.
    rw [← link_dispatch cfg msg hdispatch] at hfifo₁ hdir₁
    obtain ⟨s', hpump, hend⟩ := ih (calls ++ (delivery cfg msg).toList) hfifo₁ hdir₁ haccepts₂
    refine ⟨s', ?_, hend⟩
    rw [hround, hdispatch, filterMap_delivery_cons, ← append_assoc]
    exact hpump

theorem acceptsAll_of_pump {s : AppleRTKit δ} {calls calls' : List (Delivery δ)}
    (hfifo : s.link.core.fifo = ⟨msgs, false⟩) (hdir : s.link.dir_en .iop = true) {fuel : ℕ}
    (h : pump cfg fuel s calls = .returned s' calls') :
    s.party.AcceptsAll cfg (msgs.filterMap (delivery cfg)) := by
  induction msgs generalizing s calls fuel with
  | nil => trivial
  | cons msg rest ih =>
    obtain ⟨s₁, hfifo₁, hdir₁, hparty₁, hround⟩ := pump_succ cfg hfifo hdir
    rw [filterMap_delivery_cons, ← hparty₁, acceptsAll_dispatch]
    cases fuel with
    | zero => exact nomatch h
    | succ fuel =>
      rw [hround] at h
      cases hdispatch : dispatch cfg msg s₁ with
      | none =>
        rw [hdispatch] at h
        exact nomatch h
      | some s₂ =>
        rw [hdispatch] at h
        rw [← link_dispatch cfg msg hdispatch] at hfifo₁ hdir₁
        exact ⟨s₂, rfl, ih hfifo₁ hdir₁ h⟩

/-! ## Runs of the bottom half -/

section

variable (cfg : Config δ) (s : AppleRTKit δ)

/-- The bottom half returns, with the inbox empty and the handlers of all messages called in order,
each once. -/
def Delivers : Prop :=
  ∃ fuel s', pump cfg fuel s [] = .returned s' (s.iopInbox.filterMap (delivery cfg)) ∧
    s'.iopInbox = []

/-- Nothing is queued; or the inbox has not underflowed, the direction is enabled in the mailbox of
the application processor, and the handlers accept the messages that are queued. -/
def Ready : Prop :=
  s.iopInbox = [] ∨
    ((s.a7iop.mailbox .iop).underflow = false ∧ (s.a7iop.mailbox .ap).dir_en .iop = true ∧
      s.party.AcceptsAll cfg (s.iopInbox.filterMap (delivery cfg)))

end

instance (cfg : Config δ) (s : AppleRTKit δ) : Decidable (Ready cfg s) :=
  inferInstanceAs (Decidable (_ ∨ _))

/-- When it is ready, the bottom half works as it should, in as many rounds as there are messages
and one. -/
theorem pump_of_ready (h : Ready cfg s) : ∃ s', pump cfg (s.iopInbox.length + 1) s [] =
      .returned s' (s.iopInbox.filterMap (delivery cfg)) ∧ s'.iopInbox = [] := by
  rcases h with hnil | ⟨hunder, hdir, haccepts⟩
  · refine ⟨s, ?_, hnil⟩
    rw [pump_of_empty cfg (.inl hnil), hnil]
    rfl
  · have hfifo : s.link.core.fifo = ⟨s.iopInbox, false⟩ := congrArg (Fifo.mk _) hunder
    exact pump_run cfg [] hfifo hdir haccepts

/-- The bottom half works as it should exactly when it is ready. -/
theorem delivers_iff (s : AppleRTKit δ) : Delivers cfg s ↔ Ready cfg s := by
  constructor
  · rintro ⟨fuel, s', hpump, hend⟩
    by_cases hnil : s.iopInbox = []
    · exact .inl hnil
    · cases fuel with
      | zero => cases hpump
      | succ fuel =>
        have hunder : (s.a7iop.mailbox .iop).underflow = false := by
          -- After an underflow the messages stay in the inbox.
          by_contra hset
          rw [pump_of_empty cfg (.inr (Bool.eq_true_of_not_eq_false hset))] at hpump
          rw [← (Pumped.returned.inj hpump).1] at hend
          exact hnil hend
        have hdir : (s.a7iop.mailbox .ap).dir_en .iop = true := by
          -- Otherwise the receive returns `NULL` although there are messages.
          by_contra hclear
          have hinbox : (s.a7iop.mailbox .iop).inbox ≠ [] := hnil
          have hempty : mailboxIsEmpty (s.a7iop.mailbox .iop) ≠ true := by
            rw [mailboxIsEmpty, hunder]
            exact mt isEmpty_iff.mp hinbox
          rw [pump, if_neg hempty, recvFrom, if_neg hclear] at hpump
          cases hpump
        have hfifo : s.link.core.fifo = ⟨s.iopInbox, false⟩ := congrArg (Fifo.mk _) hunder
        exact .inr ⟨hunder, hdir, acceptsAll_of_pump cfg hfifo hdir hpump⟩
  · intro h
    obtain ⟨s', hpump, hend⟩ := pump_of_ready cfg h
    exact ⟨_, s', hpump, hend⟩

theorem isSome_step {op : Op δ} (h : runsPump s op = false) : (step cfg s op).isSome = true := by
  unfold step
  rw [if_neg (ne_true_of_eq_false h)]
  split <;> rfl

/-- An operation goes well exactly when the bottom half, should it run, is ready. -/
theorem pumpSafe_iff (s : AppleRTKit δ) (op : Op δ) :
    (runsPump s op = true → Delivers cfg (entered cfg s)) ∧ (step cfg s op).isSome = true ↔
      (runsPump s op = true → Ready cfg s) := by
  -- The state is the same to the loop when it is entered.
  have hready : Ready cfg (entered cfg s) ↔ Ready cfg s := Iff.rfl
  rw [delivers_iff, hready, and_iff_left_iff_imp]
  intro h
  cases hruns : runsPump s op with
  | false => exact isSome_step cfg hruns
  | true =>
    obtain ⟨s', hpump, -⟩ := pump_of_ready cfg (hready.mpr (h hruns))
    have hlen : s.iopInbox = (entered cfg s).iopInbox := rfl
    unfold step
    rw [if_pos hruns, hlen, hpump]
    rfl

theorem step_getD {op : Op δ} (h : step cfg s op = some s') : s' = (step cfg s op).getD s := by
  rw [h]
  rfl

section

variable (cfg : Config δ) (s : AppleRTKit δ) (ops : List (Op δ))

/-- Whenever the bottom half runs among other operations, no `NULL` is dereferenced, and it returns
with the handlers of all queued messages called, each once and in order. -/
def PumpSafely : Prop :=
  Safely (step cfg) (fun s op => runsPump s op = true → Delivers cfg (entered cfg s)) s ops

/-- The operations in which the bottom half is ready each time it runs. -/
def PumpReady : Prop :=
  Guarded (fun s op => (step cfg s op).getD s) (fun s op => runsPump s op = true → Ready cfg s)
    s ops

end

instance (cfg : Config δ) (s : AppleRTKit δ) (ops : List (Op δ)) :
    Decidable (PumpReady cfg s ops) :=
  decidableGuarded _ _ s ops

/-- The resets of the machine. -/
def resets : List (Op Bool) := [.a7iop (.reset .iop), .a7iop (.reset .ap), .reset]

/-- A message for the user endpoint, written to the registers. -/
def userMsgWrites : List (Op Bool) :=
  [.a7iop (.mailboxWrite .ap 0x700 8 7), .a7iop (.mailboxWrite .ap 0x708 8 32)]

end Inferno.Rtkit
