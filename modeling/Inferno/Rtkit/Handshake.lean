import Inferno.A7iop.Fifo
import Inferno.Rtkit.Model

/-!
# The management handshake

What decides whether an assertion of the management endpoint fails is little of its state: the phase
of the handshake, how many messages of the roll call are pending, and the power state, on which a
start depends. `Handshake` is this part, an automaton of its own that moves with every management
message, start, wake-up, register write and reset, whatever else the coprocessor does
(`handshake_handle`). An event can make an assertion fail only if it is not `Legal` in the state of
the automaton, and every such event does, so that the runs without an abort are those in which all
events are legal (`neverAborts_iff`).
-/

namespace Inferno.Rtkit

open A7iop Common Option

variable {δ : Type}

/-! ## The automaton -/

/-- What the assertions of the management endpoint depend on. -/
structure Handshake where
  phase : EP0Status
  pending : ℕ
  cpu_status : BitVec 32
  cpu_ctrl : BitVec 32

/-- The state of the automaton in a state of the coprocessor. -/
def AppleRTKit.handshake (s : AppleRTKit δ) : Handshake :=
  ⟨s.ep0_status, s.rollcall.length, s.cpu_status, s.cpu_ctrl⟩

/-- What happens to the management endpoint. -/
inductive Event
  | message (raw : BitVec 64)
  /-- `apple_a7iop_cpu_start`, with a start or a wake-up. -/
  | cpuStart (wake : Bool)
  | regWrite (addr : ℕ) (data : BitVec 64)
  | reset

variable (h : Handshake)

/-- The coprocessor is started or woken up, unless it is awake. -/
def Handshake.start : Handshake :=
  if AlreadyAwake h.cpu_status h.cpu_ctrl then h
  else { h with phase := .waitHello, cpu_status := h.cpu_status &&& ~~~CPU_STATUS_IDLE }

/-- A management message is handled, where the roll call of version 11 has `n` messages. -/
def Handshake.message (n : ℕ) (raw : BitVec 64) (h : Handshake) : Handshake :=
  match mgmtType raw with
  | .helloAck =>
    if WantsOlder raw then h
    else if (maxVersion raw).toNat ≤ 10 then { h with phase := .waitRollcall }
    else { h with phase := .waitRollcall, pending := n - 1 }
  | .reqPower =>
    if getPstate raw = 0x220 then h.start
    else if getPstate raw = 0x201 ∨ getPstate raw = 0x202 ∨ getPstate raw = 0 then
      { h with cpu_status := h.cpu_status ||| CPU_STATUS_IDLE }
    else h
  | .rollcall =>
    if h.pending = 0 then { h with phase := .idle } else { h with pending := h.pending - 1 }
  | _ => h

variable (version : AppleA7IOPVersion)

/-- A register of the coprocessor is written. -/
def Handshake.regWrite (addr : ℕ) (data : BitVec 64) (h : Handshake) : Handshake :=
  if addr = 0x44 then
    let h := { h with cpu_ctrl := data.setWidth 32 }
    if data.setWidth 32 &&& (CPU_CTRL_RUN ||| SEP_BOOT_MONITOR_RUN) ≠ 0 then h.start else h
  else if addr = 0x48 ∧ version = .v2 then { h with cpu_status := data.setWidth 32 }
  else h

/-- One step of the automaton. -/
def Handshake.step (n : ℕ) (h : Handshake) : Event → Handshake
  | .message raw => h.message n raw
  | .cpuStart _ => h.start
  | .regWrite addr data => h.regWrite version addr data
  | .reset => ⟨.idle, 0, CPU_STATUS_IDLE, h.cpu_ctrl⟩

/-- The assertions that the handling of a management message meets do not fail. -/
def Handshake.Accepts (raw : BitVec 64) : Prop :=
  (mgmtType raw = .helloAck →
    h.phase = .waitHello ∧ (WantsOlder raw ∨ (maxVersion raw).toNat ≤ 10 ∨ h.pending = 0)) ∧
  (mgmtType raw = .rollcall → h.phase = .waitRollcall)

instance (h : Handshake) (raw : BitVec 64) : Decidable (h.Accepts raw) :=
  inferInstanceAs (Decidable (_ ∧ _))

/-- The protocol admits the event: a `HELLO_ACK` when one is awaited, and with nothing of a roll
call pending unless it asks for an older version; a `ROLLCALL` during a roll call. -/
def Handshake.Legal : Event → Prop
  | .message raw =>
    (mgmtType raw = .helloAck → h.phase = .waitHello ∧ (WantsOlder raw ∨ h.pending = 0)) ∧
    (mgmtType raw = .rollcall → h.phase = .waitRollcall)
  | _ => True

instance (h : Handshake) : DecidablePred h.Legal
  | .message _ => inferInstanceAs (Decidable (_ ∧ _))
  | .cpuStart _ => .isTrue trivial
  | .regWrite _ _ => .isTrue trivial
  | .reset => .isTrue trivial

/-! ## The endpoint follows the automaton -/

/-- One event, `none` when an assertion fails. -/
def handle (cfg : Config δ) (s : AppleRTKit δ) : Event → Option (AppleRTKit δ)
  | .message raw => mgmtHandleMsg cfg 0 raw s
  | .cpuStart wake => some (cpuStart cfg wake s)
  | .regWrite addr data => some (a7iopRegWrite cfg addr data s)
  | .reset => some (reset s)

/-- The event is a `HELLO_ACK` that settles the version. -/
def Event.Settles : Event → Prop
  | .message raw => mgmtType raw = .helloAck ∧ ¬ WantsOlder raw
  | _ => False

variable (cfg : Config δ) (ep : BitVec 8) (raw : BitVec 64)

@[simp]
theorem handshake_sendMsg (data : BitVec 64) (s : AppleRTKit δ) :
    (sendMsg cfg ep data s).handshake = s.handshake := rfl

theorem foldl_sendUserMsg {β : Type} {f : AppleRTKit δ → β}
    (h : ∀ ep data s, f (sendMsg cfg ep data s) = f s) (msgs : List UserMsg) (s : AppleRTKit δ) :
    f (msgs.foldl (sendUserMsg cfg) s) = f s := by
  induction msgs generalizing s with
  | nil => rfl
  | cons m msgs ih => exact (ih _).trans (h _ _ s)

@[simp]
theorem handshake_perform (act : Action δ) (s : AppleRTKit δ) :
    (perform cfg act s).handshake = s.handshake :=
  foldl_sendUserMsg cfg (handshake_sendMsg cfg) _ _

@[simp]
theorem handshake_callHook (hook : Option (Action δ)) (s : AppleRTKit δ) :
    (callHook cfg hook s).handshake = s.handshake := by
  cases hook with
  | none => rfl
  | some act => exact handshake_perform cfg act s

theorem handshake_mgmtSendHello (s : AppleRTKit δ) :
    (mgmtSendHello cfg s).handshake = { s.handshake with phase := .waitHello } := rfl

theorem handshake_cpuStart {wake : Bool} {s : AppleRTKit δ} :
    (cpuStart cfg wake s).handshake = s.handshake.start := by
  unfold cpuStart Handshake.start
  have hcond : AlreadyAwake s.handshake.cpu_status s.handshake.cpu_ctrl ↔
      AlreadyAwake s.cpu_status s.cpu_ctrl := Iff.rfl
  simp only [hcond]
  split_ifs with hawake hwake
  · rfl
  · rw [iopWakeup, handshake_mgmtSendHello, handshake_callHook]
    rfl
  · rw [iopStart, handshake_mgmtSendHello, handshake_callHook]
    rfl

section

variable {addr : ℕ} {data : BitVec 64} (s : AppleRTKit δ)

theorem handshake_a7iopRegWrite : (a7iopRegWrite cfg addr data s).handshake =
      s.handshake.regWrite cfg.a7iop.version addr data := by
  unfold a7iopRegWrite Handshake.regWrite setCpuCtrl
  split_ifs
  · exact handshake_cpuStart cfg
  · rfl
  · rfl
  · rfl

theorem rollcallV11Msgs_ne_nil {keys : List ℕ} : rollcallV11Msgs keys ≠ [] := by
  simp [rollcallV11Msgs]

theorem handshake_sendRollcall : (sendRollcall cfg s).handshake =
      { s.handshake with pending := s.handshake.pending - 1 } := by
  unfold sendRollcall AppleRTKit.handshake
  cases hs : s.rollcall with
  | nil => simp [hs]
  | cons m rest => rfl

/-- The number of messages of the roll call of version 11. -/
def rollcallLength (cfg : Config δ) : ℕ := (rollcallV11Msgs cfg.endpoints.keys).length

theorem pending_eq_zero_iff : s.handshake.pending = 0 ↔ s.rollcall = [] := List.length_eq_zero_iff

/-- The roll call of version 11 asserts that nothing is pending, and leaves all but one of its
messages pending. -/
theorem handshake_mgmtRollcallV11 : (mgmtRollcallV11 cfg s).map AppleRTKit.handshake =
      if s.handshake.pending = 0 then some { s.handshake with pending := rollcallLength cfg - 1 }
      else none := by
  unfold mgmtRollcallV11
  simp only [pending_eq_zero_iff]
  split_ifs
  · rw [map_some, handshake_sendRollcall]
    rfl
  · rfl

theorem handshake_handleHelloAck {raw : BitVec 64} (hraw : mgmtType raw = .helloAck)
    (s : AppleRTKit δ) : (handleHelloAck cfg raw s).map AppleRTKit.handshake =
      if s.handshake.phase = .waitHello ∧
        (WantsOlder raw ∨ (maxVersion raw).toNat ≤ 10 ∨ s.handshake.pending = 0) then
        some (s.handshake.message (rollcallLength cfg) raw)
      else none := by
  have hmessage : s.handshake.message (rollcallLength cfg) raw =
      if WantsOlder raw then s.handshake
      else if (maxVersion raw).toNat ≤ 10 then { s.handshake with phase := .waitRollcall }
      else { s.handshake with phase := .waitRollcall, pending := rollcallLength cfg - 1 } := by
    rw [Handshake.message, hraw]
  have hphase : s.handshake.phase = s.ep0_status := rfl
  rw [hmessage, hphase]
  unfold handleHelloAck
  by_cases hwait : s.ep0_status = .waitHello
  · by_cases holder : WantsOlder raw
    · simp [holder]
    · by_cases hv10 : (maxVersion raw).toNat ≤ 10
      · simp only [hwait, holder, hv10]
        rfl
      · -- Only the roll call of version 11 asserts that nothing is pending.
        have hv11 := congrArg (Option.map fun h : Handshake => { h with phase := .waitRollcall })
          (handshake_mgmtRollcallV11 cfg
            { s with protocol_version := (maxVersion raw).setWidth 32 })
        have hcond : (s.ep0_status = .waitHello ∧
            (WantsOlder raw ∨ (maxVersion raw).toNat ≤ 10 ∨ s.handshake.pending = 0)) ↔
            s.handshake.pending = 0 := by simp [hwait, holder, hv10]
        rw [map_map] at hv11
        simp only [hcond]
        rw [if_neg (not_not_intro hwait), if_neg holder, if_neg holder, if_neg hv10, if_neg hv10,
          map_map]
        exact hv11.trans (apply_ite (Option.map _) _ _ _)
  · simp [hwait]

theorem handshake_handleRollcall : (handleRollcall cfg ep s).map AppleRTKit.handshake =
      if s.handshake.phase = .waitRollcall then
        some (if s.handshake.pending = 0 then { s.handshake with phase := .idle }
          else { s.handshake with pending := s.handshake.pending - 1 })
      else none := by
  have hphase : s.handshake.phase = s.ep0_status := rfl
  unfold handleRollcall
  rw [hphase]
  simp only [pending_eq_zero_iff]
  by_cases hwait : s.ep0_status = .waitRollcall
  · rw [if_neg (not_not_intro hwait)]
    split_ifs
    · rw [map_some, handshake_callHook]
      rfl
    · rw [map_some, handshake_sendRollcall]
  · rw [if_pos hwait, if_neg hwait, map_none]

theorem handshake_handleReqPower (hraw : mgmtType raw = .reqPower) (s : AppleRTKit δ) :
    (handleReqPower cfg ep raw s).handshake = s.handshake.message (rollcallLength cfg) raw := by
  rw [Handshake.message, hraw]
  unfold handleReqPower
  dsimp only
  split_ifs
  · exact handshake_cpuStart cfg
  · rfl
  · rfl

/-- The handling of a management message moves the endpoint as it moves the automaton, unless an
assertion fails. -/
theorem handshake_mgmtHandleMsg : (mgmtHandleMsg cfg ep raw s).map AppleRTKit.handshake =
      if s.handshake.Accepts raw then some (s.handshake.message (rollcallLength cfg) raw)
      else none := by
  unfold mgmtHandleMsg
  cases htype : mgmtType raw with
  | helloAck =>
    have hiff : s.handshake.Accepts raw ↔ s.handshake.phase = .waitHello ∧
        (WantsOlder raw ∨ (maxVersion raw).toNat ≤ 10 ∨ s.handshake.pending = 0) := by
      simp [Handshake.Accepts, htype]
    simp only [hiff]
    exact handshake_handleHelloAck cfg htype s
  | rollcall =>
    have hiff : s.handshake.Accepts raw ↔ s.handshake.phase = .waitRollcall := by
      simp [Handshake.Accepts, htype]
    simp only [hiff]
    rw [Handshake.message, htype]
    exact handshake_handleRollcall cfg ep s
  | reqPower =>
    have haccepts : s.handshake.Accepts raw := by simp [Handshake.Accepts, htype]
    rw [if_pos haccepts, map_some, handshake_handleReqPower cfg ep raw htype]
  | _ =>
    -- The other messages are answered at most.
    have haccepts : s.handshake.Accepts raw := by simp [Handshake.Accepts, htype]
    rw [if_pos haccepts, Handshake.message, htype]
    rfl

end

theorem isSome_mgmtHandleMsg (s : AppleRTKit δ) :
    (mgmtHandleMsg cfg ep raw s).isSome = true ↔ s.handshake.Accepts raw := by
  have hmap := congrArg isSome (handshake_mgmtHandleMsg cfg ep raw s)
  rw [isSome_map] at hmap
  rw [hmap]
  split_ifs with haccepts <;> simp [haccepts]

theorem handshake_of_mgmtHandleMsg {s s' : AppleRTKit δ}
    (h : mgmtHandleMsg cfg ep raw s = some s') :
    s'.handshake = s.handshake.message (rollcallLength cfg) raw := by
  have hmap := handshake_mgmtHandleMsg cfg ep raw s
  rw [h, map_some] at hmap
  split_ifs at hmap
  exact some.inj hmap

theorem handshake_handle (s : AppleRTKit δ) (e : Event) (s' : AppleRTKit δ)
    (h : handle cfg s e = some s') :
    s'.handshake = s.handshake.step cfg.a7iop.version (rollcallLength cfg) e := by
  cases e with
  | message raw => exact handshake_of_mgmtHandleMsg cfg 0 raw h
  | cpuStart wake =>
    rw [← some.inj h]
    exact handshake_cpuStart cfg
  | regWrite addr data =>
    rw [← some.inj h]
    exact handshake_a7iopRegWrite cfg s
  | reset =>
    rw [← some.inj h]
    rfl

/-! ## Runs -/

/-- No assertion fails in a run of events, and nothing of a roll call is pending when a `HELLO_ACK`
settles the version. -/
def NeverAborts (cfg : Config δ) : AppleRTKit δ → List Event → Prop :=
  Safely (handle cfg) fun s e => e.Settles → s.rollcall = []

/-- An event goes well exactly when the protocol admits it. -/
theorem legal_iff (s : AppleRTKit δ) (e : Event) :
    (e.Settles → s.rollcall = []) ∧ (handle cfg s e).isSome = true ↔ s.handshake.Legal e := by
  cases e with
  | message raw =>
    dsimp only [handle]
    rw [isSome_mgmtHandleMsg, ← pending_eq_zero_iff]
    constructor
    · rintro ⟨hsettles, hhello, hroll⟩
      refine ⟨fun htype => ⟨(hhello htype).1, ?_⟩, hroll⟩
      by_cases holder : WantsOlder raw
      · exact .inl holder
      · exact .inr (hsettles ⟨htype, holder⟩)
    · rintro ⟨hhello, hroll⟩
      refine ⟨fun h => (hhello h.1).2.resolve_left h.2, fun htype => ?_, hroll⟩
      exact ⟨(hhello htype).1, (hhello htype).2.imp_right .inr⟩
  | _ => simp [Event.Settles, handle, Handshake.Legal]

/-- The management endpoint goes through a run of events without an abort exactly when the protocol
admits each of them. -/
theorem neverAborts_iff (cfg : Config δ) (s : AppleRTKit δ) (events : List Event) :
    NeverAborts cfg s events ↔
      Guarded (Handshake.step cfg.a7iop.version (rollcallLength cfg)) Handshake.Legal s.handshake
        events :=
  safely_iff_guarded AppleRTKit.handshake (handshake_handle cfg) (legal_iff cfg) s events

/-- A table with one user endpoint, whose handler accepts one message and then fails. -/
def oneUserTable (ep : BitVec 8) (h : ep ≠ 0 ∧ ep ≠ 1) : AppleRTKitEPTable Bool where
  pairs := [(0, ⟨some .mgmt, false⟩), (1, ⟨none, false⟩),
    (ep, ⟨some (.device fun _ _ d => if d then none else some (true, [])), true⟩)]
  nodup := by
    simp only [List.map_cons, List.map_nil, List.nodup_cons, List.mem_cons, List.not_mem_nil,
      or_false, not_or, not_false_eq_true, List.nodup_nil, and_true]
    exact ⟨⟨by decide, h.1.symm⟩, h.2.symm⟩
  management := by simp
  crashlog := by simp
  get key :=
    if key = 0 then some ⟨some .mgmt, false⟩
    else if key = 1 then some ⟨none, false⟩
    else if key = ep.setWidth 16 then
      some ⟨some (.device fun _ _ d => if d then none else some (true, [])), true⟩
    else none
  get_of_mem := by
    have hep : ep.setWidth 16 ≠ 0 ∧ ep.setWidth 16 ≠ 1 := by bv_omega
    simp only [List.mem_cons, List.not_mem_nil, or_false, forall_eq_or_imp, forall_eq]
    refine ⟨rfl, rfl, ?_⟩
    rw [if_neg hep.1, if_neg hep.2]
    rfl
  get_of_not_mem key _ _ hkey := by
    simp only [List.mem_cons, List.not_mem_nil, or_false, forall_eq_or_imp, forall_eq] at hkey
    have hmgmt : key ≠ 0 := hkey.1.symm
    have hcrashlog : key ≠ 1 := hkey.2.1.symm
    rw [if_neg hmgmt, if_neg hcrashlog, if_neg hkey.2.2.symm]

/-- A coprocessor with one user endpoint. -/
def sampleConfig : Config Bool where
  a7iop := A7iop.sampleConfig
  endpoints := oneUserTable 32 (by decide)
  start := none
  wakeup := none
  boot_done := none

/-- A roll call that is not awaited makes an assertion fail; so does a hello that is acknowledged
with version 12 after the coprocessor was put to sleep and woken up during a roll call. -/
theorem not_neverAborts :
    ¬ NeverAborts sampleConfig (init sampleConfig false) [.reset, .message 0x0080000000000000] ∧
    ¬ NeverAborts sampleConfig (init sampleConfig false)
      [.reset, .regWrite 0x44 0x10, .message 0x00200000000C0003, .message 0x0060000000000201,
        .message 0x0060000000000220, .message 0x00200000000C0003] := by
  have hguarded := safely_iff_guarded AppleRTKit.handshake (handshake_handle sampleConfig)
    (legal_iff sampleConfig) (init sampleConfig false)
  unfold NeverAborts
  rw [hguarded, hguarded]
  decide +kernel

end Inferno.Rtkit
