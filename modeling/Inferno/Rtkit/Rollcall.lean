import Inferno.Rtkit.Announce
import Inferno.Rtkit.Handshake

/-!
# The roll call is complete

After the version is settled the coprocessor announces its endpoints to the application processor,
which acknowledges each message. `dialogue` is this exchange, in which each acknowledgement brings
the next of the messages that were queued (`dialogue_pending`). What the application processor
receives also depends on messages that an interrupted roll call has left, so that the roll call is
complete exactly when there are none, the direction is enabled, and the version is at least 11 or
all endpoints are below 52 (`rollcallComplete_iff`).
-/

namespace Inferno.Rtkit

open A7iop Common List
open BitVec (ofNat toNat toNat_ofNat)

variable {δ : Type}

/-! ## Messages in memory -/

variable (cfg : Config δ) {rest : List RollcallV11} (t : AppleRTKitEPTable δ)

variable (ep : BitVec 8) (data : BitVec 64)

theorem msgOf_constructMsg : msgOf (constructMsg ep data) = data := by
  have hload := load_image_store_self (Message.store (fun _ => 0) 8 (leBytes 4 ep.toNat)) 0
    (leBytes 8 data.toNat) (by simp)
  have hdata : data.toNat % 256 ^ 8 = data.toNat := Nat.mod_eq_of_lt data.isLt
  rw [leBytes_length] at hload
  rw [msgOf, Message.load, constructMsg, hload, ofLe_leBytes, hdata, BitVec.ofNat_toNat,
    BitVec.setWidth_eq]

theorem endpointOf_constructMsg : endpointOf (constructMsg ep data) = ep.setWidth 32 := by
  have hfirst := load_image_store_self (fun _ => 0) 8 (leBytes 4 ep.toNat) (by simp)
  -- The word is stored below the endpoint.
  have hload : load (constructMsg ep data).image 8 4 = leBytes 4 ep.toNat := by
    rw [constructMsg, load_image_store _ _ _ (by decide)]
    refine Eq.trans (map_congr_left fun i _ => ?_) hfirst
    refine Store.apply_of_not_mem _ _ (.inr ?_)
    simp [Store.stop]
  rw [endpointOf, Message.load, hload, ofLe_leBytes]
  apply BitVec.eq_of_toNat_eq
  simp only [BitVec.toNat_setWidth, toNat_ofNat]
  omega

/-! ## What the application processor receives -/

variable (s : AppleRTKit δ)

/-- The inbox of the application processor. -/
def AppleRTKit.apInbox : List Message := (s.a7iop.mailbox .ap).inbox

/-- The direction to the application processor is enabled. -/
def AppleRTKit.Open : Prop := (s.a7iop.mailbox .iop).dir_en .ap = true

/-- The messages of the roll call among some messages. -/
def rollcallMsgs (msgs : List Message) : List (BitVec 64) :=
  (msgs.filter fun m => endpointOf m = 0 ∧ mgmtType (msgOf m) = .rollcall).map msgOf

/-- The messages of the roll call that the application processor receives after it sent the
management message `raw`, when it acknowledges each of them with `ack`. It is `none` when an
assertion fails, or when the exchange has not ended after so many messages. -/
def dialogue (cfg : Config δ) (ack : BitVec 64 → BitVec 64) :
    ℕ → BitVec 64 → AppleRTKit δ → Option (List (BitVec 64))
  | 0, _, _ => none
  | fuel + 1, raw, s =>
    match mgmtHandleMsg cfg 0 raw s with
    | none => none
    | some s' =>
      match rollcallMsgs (s'.apInbox.drop s.apInbox.length) with
      | [] => some []
      | m :: ms => (dialogue cfg ack fuel (ack m) s').map fun rest => m :: ms ++ rest

theorem apInbox_sendMsg (ep : BitVec 8) (data : BitVec 64) {s : AppleRTKit δ} (h : s.Open) :
    (sendMsg cfg ep data s).apInbox = s.apInbox ++ [constructMsg ep data] := by
  have hcore := core_sendTo cfg.a7iop .ap .iop (constructMsg ep data) s.a7iop .ap
  rw [Call.event, if_pos ⟨rfl, h⟩] at hcore
  exact congrArg (fun c : Core => c.fifo.queue) hcore

theorem sendMsg_of_not_open {s : AppleRTKit δ} (h : ¬ s.Open) : sendMsg cfg ep data s = s := by
  unfold AppleRTKit.Open at h
  rw [sendMsg, sendTo, if_neg h]

theorem open_sendMsg (ep : BitVec 8) (data : BitVec 64) (s : AppleRTKit δ) :
    (sendMsg cfg ep data s).Open ↔ s.Open := by
  have hdir := dir_en_sendTo cfg.a7iop .ap .iop (constructMsg ep data) s.a7iop .iop
  exact iff_of_eq (congrArg (fun en : Side → Bool => en .ap = true) hdir)

theorem rollcallMsgs_user (ep : Fin 224) (data : BitVec 64) (out : List Message) :
    rollcallMsgs (constructMsg (ofNat 8 (ep + 32)) data :: out) = rollcallMsgs out := by
  -- The endpoint is not that of the management.
  have hep : endpointOf (constructMsg (ofNat 8 (ep + 32)) data) ≠ 0#32 := by
    rw [endpointOf_constructMsg]
    intro hzero
    have hnat := congrArg toNat hzero
    simp only [BitVec.toNat_setWidth, toNat_ofNat] at hnat
    omega
  rw [rollcallMsgs, filter_cons_of_neg (by simp [hep])]
  rfl

theorem apInbox_sendUserMsgs (msgs : List UserMsg) (s : AppleRTKit δ) :
    ∃ out, (msgs.foldl (sendUserMsg cfg) s).apInbox = s.apInbox ++ out ∧ rollcallMsgs out = [] := by
  induction msgs generalizing s with
  | nil => exact ⟨[], (append_nil _).symm, rfl⟩
  | cons m msgs ih =>
    obtain ⟨out, hout, hnone⟩ := ih (sendUserMsg cfg s m)
    by_cases hopen : s.Open
    · have hinbox := apInbox_sendMsg cfg (ofNat 8 (m.1 + 32)) m.2 hopen
      refine ⟨constructMsg (ofNat 8 (m.1 + 32)) m.2 :: out, ?_, ?_⟩
      · rw [foldl_cons, hout, sendUserMsg, hinbox, append_assoc, singleton_append]
      · rw [rollcallMsgs_user, hnone]
    · rw [foldl_cons, sendUserMsg, sendMsg_of_not_open cfg _ _ hopen]
      rw [sendUserMsg, sendMsg_of_not_open cfg _ _ hopen] at hout
      exact ⟨out, hout, hnone⟩

theorem apInbox_perform (act : Action δ) (s : AppleRTKit δ) :
    ∃ out, (perform cfg act s).apInbox = s.apInbox ++ out ∧ rollcallMsgs out = [] :=
  apInbox_sendUserMsgs cfg _ _

theorem apInbox_callHook (hook : Option (Action δ)) (s : AppleRTKit δ) :
    ∃ out, (callHook cfg hook s).apInbox = s.apInbox ++ out ∧ rollcallMsgs out = [] := by
  cases hook with
  | none => exact ⟨[], (append_nil _).symm, rfl⟩
  | some act => exact apInbox_perform cfg act s

theorem rollcallMsgs_singleton :
    rollcallMsgs [constructMsg 0 data] = if mgmtType data = .rollcall then [data] else [] := by
  have hep : endpointOf (constructMsg 0 data) = 0#32 := endpointOf_constructMsg 0 data
  rw [rollcallMsgs, filter_singleton, hep]
  split_ifs with htype <;> simp [htype, msgOf_constructMsg]

/-! ## The exchange -/

/-- The management message `raw` is answered with the message `m` of the roll call, and the messages
`rest` are left to be sent. -/
structure Sends (cfg : Config δ) (raw : BitVec 64) (s : AppleRTKit δ) (m : BitVec 64)
    (rest : List RollcallV11) (s' : AppleRTKit δ) : Prop where
  handled : mgmtHandleMsg cfg 0 raw s = some s'
  /-- The message is received, and no other. -/
  received : s'.apInbox = s.apInbox ++ [constructMsg 0 m]
  waiting : s'.ep0_status = .waitRollcall
  pending : s'.rollcall = rest
  isOpen : s'.Open

theorem sends_sendMsg {cfg : Config δ} {raw m : BitVec 64} {s t : AppleRTKit δ}
    (h : mgmtHandleMsg cfg 0 raw s = some (sendMsg cfg 0 m t)) (hinbox : t.a7iop = s.a7iop)
    (hwait : t.ep0_status = .waitRollcall) (hrest : t.rollcall = rest) (hopen : s.Open) :
    Sends cfg raw s m rest (sendMsg cfg 0 m t) := by
  have htopen : t.Open := by
    unfold AppleRTKit.Open
    rwa [hinbox]
  refine ⟨h, ?_, hwait, hrest, (open_sendMsg cfg 0 m t).mpr htopen⟩
  rw [apInbox_sendMsg cfg 0 m htopen, AppleRTKit.apInbox, AppleRTKit.apInbox, hinbox]

section Dialogue

variable (cfg : Config δ) {ack : BitVec 64 → BitVec 64} {raw : BitVec 64} {s s' : AppleRTKit δ}

variable {rest : List RollcallV11}

/-- During a roll call an acknowledgement is answered with the first pending message. -/
theorem sends_rollcall (hraw : mgmtType raw = .rollcall) (hphase : s.ep0_status = .waitRollcall)
    (hopen : s.Open) {m : RollcallV11} (hpending : s.rollcall = m :: rest) :
    ∃ s', Sends cfg raw s m.raw rest s' := by
  have hne : s.rollcall ≠ [] := by simp [hpending]
  have hhandle : mgmtHandleMsg cfg 0 raw s =
      some (sendMsg cfg 0 m.raw { s with rollcall := rest }) := by
    rw [mgmtHandleMsg, hraw]
    rw [handleRollcall, if_neg (not_not_intro hphase), if_neg hne, sendRollcall, hpending]
  exact ⟨_, sends_sendMsg hhandle rfl hphase rfl hopen⟩

section

variable (hraw : mgmtType raw = .helloAck) (holder : ¬ WantsOlder raw)

include hraw holder

theorem sends_v10 (hversion : (maxVersion raw).toNat ≤ 10) (hphase : s.ep0_status = .waitHello)
    (hopen : s.Open) :
    ∃ s', Sends cfg raw s (rollcallV10Msg (rollcallV10Mask cfg.endpoints.keys)) s.rollcall s' := by
  have hhandle : mgmtHandleMsg cfg 0 raw s =
      some (sendMsg cfg 0 (rollcallV10Msg (rollcallV10Mask cfg.endpoints.keys)) { s with
          protocol_version := (maxVersion raw).setWidth 32, ep0_status := .waitRollcall }) := by
    rw [mgmtHandleMsg, hraw]
    rw [handleHelloAck, if_neg (not_not_intro hphase), if_neg holder]
    dsimp only
    rw [if_pos hversion]
    rfl
  exact ⟨_, sends_sendMsg hhandle rfl rfl rfl hopen⟩

/-- From version 11 on the answer is the first message of the roll call. -/
theorem sends_v11 (hversion : ¬ (maxVersion raw).toNat ≤ 10) (hphase : s.ep0_status = .waitHello)
    (hopen : s.Open) (hpending : s.rollcall = []) {m : RollcallV11}
    (hmsgs : rollcallV11Msgs cfg.endpoints.keys = m :: rest) :
    ∃ s', Sends cfg raw s m.raw rest s' := by
  have hhandle : mgmtHandleMsg cfg 0 raw s = some (sendMsg cfg 0 m.raw { s with
        protocol_version := (maxVersion raw).setWidth 32
        ep0_status := .waitRollcall
        rollcall := rest }) := by
    rw [mgmtHandleMsg, hraw]
    rw [handleHelloAck, if_neg (not_not_intro hphase), if_neg holder]
    dsimp only
    rw [if_neg hversion, mgmtRollcallV11, if_pos hpending]
    rw [hmsgs]
    rfl
  exact ⟨_, sends_sendMsg hhandle rfl rfl rfl hopen⟩

end

theorem dialogue_succ {fuel : ℕ} {m : BitVec 64} (hm : mgmtType m = .rollcall)
    (h : Sends cfg raw s m rest s') :
    dialogue cfg ack (fuel + 1) raw s = (dialogue cfg ack fuel (ack m) s').map (m :: ·) := by
  have hout : rollcallMsgs (s'.apInbox.drop s.apInbox.length) = [m] := by
    rw [h.received, drop_left, rollcallMsgs_singleton, if_pos hm]
  rw [dialogue, h.handled]
  dsimp only
  rw [hout]
  rfl

/-- Where no message of the roll call is received the exchange ends. -/
theorem dialogue_of_none {fuel : ℕ} {out : List Message} (hout : rollcallMsgs out = [])
    (h : mgmtHandleMsg cfg 0 raw s = some s') (hinbox : s'.apInbox = s.apInbox ++ out) :
    dialogue cfg ack (fuel + 1) raw s = some [] := by
  have hdrop : rollcallMsgs (s'.apInbox.drop s.apInbox.length) = [] := by
    rw [hinbox, drop_left, hout]
  rw [dialogue, h]
  dsimp only
  rw [hdrop]

/-- The last acknowledgement is answered with a power state, and with what the hook sends. -/
theorem dialogue_end {fuel : ℕ} (hraw : mgmtType raw = .rollcall)
    (hphase : s.ep0_status = .waitRollcall) (hopen : s.Open) (hpending : s.rollcall = []) :
    dialogue cfg ack (fuel + 1) raw s = some [] := by
  have hend : mgmtHandleMsg cfg 0 raw s = some (callHook cfg cfg.boot_done
      (sendMsg cfg 0 (powerMsg 7 32) { s with ep0_status := .idle })) := by
    rw [mgmtHandleMsg, hraw]
    rw [handleRollcall, if_neg (not_not_intro hphase), if_pos hpending]
  obtain ⟨out, hinbox, hout⟩ := apInbox_callHook cfg cfg.boot_done
    (sendMsg cfg 0 (powerMsg 7 32) { s with ep0_status := .idle })
  have hsent := apInbox_sendMsg cfg 0 (powerMsg 7 32) (s := { s with ep0_status := .idle }) hopen
  have hpower : rollcallMsgs [constructMsg 0 (powerMsg 7 32)] = [] := by
    rw [rollcallMsgs_singleton, if_neg (by decide)]
  have hnone : rollcallMsgs ([constructMsg 0 (powerMsg 7 32)] ++ out) = [] := by
    unfold rollcallMsgs at hpower hout ⊢
    rw [filter_append, map_append, hpower, hout, append_nil]
  rw [hsent, append_assoc] at hinbox
  exact dialogue_of_none cfg hnone hend hinbox

section

variable (hack : ∀ m, mgmtType (ack m) = .rollcall) {fuel : ℕ}

include hack

/-- During a roll call the pending messages are received, one for each acknowledgement. -/
theorem dialogue_pending (hraw : mgmtType raw = .rollcall) (hphase : s.ep0_status = .waitRollcall)
    (hopen : s.Open) : dialogue cfg ack fuel raw s =
      if s.rollcall.length < fuel then some (s.rollcall.map RollcallV11.raw) else none := by
  induction fuel generalizing raw s with
  | zero => rfl
  | succ fuel ih =>
    cases hpending : s.rollcall with
    | nil =>
      rw [dialogue_end cfg hraw hphase hopen hpending]
      rfl
    | cons m rest =>
      obtain ⟨s', hs'⟩ := sends_rollcall cfg hraw hphase hopen hpending
      have hrest := ih (hack m.raw) hs'.waiting hs'.isOpen
      rw [hs'.pending] at hrest
      rw [dialogue_succ cfg m.mgmtType_raw hs', hrest, length_cons]
      simp only [Nat.add_lt_add_iff_right]
      exact apply_ite (Option.map _) _ _ _

theorem dialogue_of_sends {m : BitVec 64} (hm : mgmtType m = .rollcall)
    (h : Sends cfg raw s m rest s') : dialogue cfg ack (fuel + 1) raw s =
      if rest.length < fuel then some (m :: rest.map RollcallV11.raw) else none := by
  rw [dialogue_succ cfg hm h, dialogue_pending cfg hack (hack m) h.waiting h.isOpen, h.pending]
  exact apply_ite (Option.map _) _ _ _

end

theorem apInbox_sendRollcall (hopen : ¬ s.Open) : (sendRollcall cfg s).apInbox = s.apInbox := by
  unfold sendRollcall
  cases s.rollcall with
  | nil => rfl
  | cons m rest =>
    dsimp only
    rw [sendMsg_of_not_open]
    · rfl
    · exact hopen

/-- Where the direction is not enabled, a settled version has no answer. -/
theorem apInbox_of_not_open (hraw : mgmtType raw = .helloAck) (hopen : ¬ s.Open)
    (h : mgmtHandleMsg cfg 0 raw s = some s') : s'.apInbox = s.apInbox := by
  rw [mgmtHandleMsg, hraw] at h
  dsimp only [handleHelloAck] at h
  split_ifs at h
  · rw [← Option.some.inj h, sendMsg_of_not_open cfg _ _ hopen]
  · have hsame := sendMsg_of_not_open cfg 0 (rollcallV10Msg (rollcallV10Mask cfg.endpoints.keys))
      (s := { s with protocol_version := (maxVersion raw).setWidth 32 }) hopen
    rw [mgmtRollcallV10, hsame] at h
    rw [← Option.some.inj h]
    rfl
  · obtain ⟨t, ht, rfl⟩ := Option.map_eq_some_iff.mp h
    rw [mgmtRollcallV11] at ht
    split_ifs at ht
    have hsame := apInbox_sendRollcall cfg hopen (s := { s with
      protocol_version := (maxVersion raw).setWidth 32
      rollcall := rollcallV11Msgs cfg.endpoints.keys })
    rw [Option.some.inj ht] at hsame
    exact hsame

end Dialogue

/-! ## Completeness -/

/-- The roll call after the acknowledged hello `hello` announces the registered endpoints. -/
def RollcallComplete (cfg : Config δ) (ack : BitVec 64 → BitVec 64) (hello : BitVec 64)
    (s : AppleRTKit δ) : Prop :=
  ∃ fuel msgs, dialogue cfg ack fuel hello s = some msgs ∧
    Announces cfg.endpoints.keys (maxVersion hello).toNat msgs

theorem AppleRTKitEPTable.keys_lt : ∀ ep ∈ t.keys, ep < 256 := by
  intro ep hep
  obtain ⟨e, -, rfl⟩ := mem_map.mp hep
  exact e.1.isLt

theorem AppleRTKitEPTable.keys_nodup : t.keys.Nodup := by
  have hkeys : t.keys = (t.pairs.map Prod.fst).map toNat := by
    rw [map_map]
    rfl
  rw [hkeys]
  exact t.nodup.map fun _ _ => BitVec.eq_of_toNat_eq

theorem AppleRTKitEPTable.zero_mem_keys : 0 ∈ t.keys :=
  mem_map.mpr ⟨_, t.management, rfl⟩

theorem not_announces_nil (version : ℕ) : ¬ Announces t.keys version [] := by
  unfold Announces
  split_ifs
  · rintro ⟨hperm, -⟩
    exact not_mem_nil (hperm.mem_iff.mpr t.zero_mem_keys)
  · rintro ⟨m, hm, -⟩
    exact nomatch hm

/-- When an answer is given, the roll call is complete exactly when what is received announces the
endpoints. -/
theorem rollcallComplete_of_sends {ack : BitVec 64 → BitVec 64}
    (hack : ∀ m, mgmtType (ack m) = .rollcall) {hello m : BitVec 64} {s s' : AppleRTKit δ}
    (hm : mgmtType m = .rollcall) (h : Sends cfg hello s m rest s') :
    RollcallComplete cfg ack hello s ↔
      Announces cfg.endpoints.keys (maxVersion hello).toNat (m :: rest.map RollcallV11.raw) := by
  constructor
  · rintro ⟨fuel, msgs, hmsgs, hannounces⟩
    cases fuel with
    | zero => exact nomatch hmsgs
    | succ fuel =>
      rw [dialogue_of_sends cfg hack hm h] at hmsgs
      split_ifs at hmsgs
      rwa [Option.some.inj hmsgs]
  · intro hannounces
    refine ⟨rest.length + 1 + 1, _, ?_, hannounces⟩
    rw [dialogue_of_sends cfg hack hm h, if_pos (Nat.lt_succ_self _)]

section Completeness

variable {cfg : Config δ} {ack : BitVec 64 → BitVec 64} {hello : BitVec 64} {s : AppleRTKit δ}

theorem not_rollcallComplete_of_none (h : mgmtHandleMsg cfg 0 hello s = none) :
    ¬ RollcallComplete cfg ack hello s := by
  rintro ⟨fuel, msgs, hmsgs, -⟩
  cases fuel with
  | zero => exact nomatch hmsgs
  | succ fuel =>
    rw [dialogue, h] at hmsgs
    exact nomatch hmsgs

theorem not_rollcallComplete_of_not_open (hhello : mgmtType hello = .helloAck) (hopen : ¬ s.Open) :
    ¬ RollcallComplete cfg ack hello s := by
  cases hhandle : mgmtHandleMsg cfg 0 hello s with
  | none => exact not_rollcallComplete_of_none hhandle
  | some s' =>
    have hinbox : s'.apInbox = s.apInbox ++ [] := by
      rw [append_nil, apInbox_of_not_open cfg hhello hopen hhandle]
    rintro ⟨fuel, msgs, hmsgs, hannounces⟩
    cases fuel with
    | zero => exact nomatch hmsgs
    | succ fuel =>
      rw [dialogue_of_none cfg rfl hhandle hinbox] at hmsgs
      rw [← Option.some.inj hmsgs] at hannounces
      exact not_announces_nil cfg.endpoints _ hannounces

section

variable (hack : ∀ m, mgmtType (ack m) = .rollcall) (hhello : mgmtType hello = .helloAck)
  (hsettled : ¬ WantsOlder hello) (hphase : s.ep0_status = .waitHello) (hopen : s.Open)

include hack hhello hsettled hphase hopen

theorem rollcallComplete_v10_iff (hversion : (maxVersion hello).toNat ≤ 10) :
    RollcallComplete cfg ack hello s ↔ s.rollcall = [] ∧ ∀ ep ∈ cfg.endpoints.keys, ep < 52 := by
  have hnot11 : ¬ 11 ≤ (maxVersion hello).toNat := by omega
  obtain ⟨s', hs'⟩ := sends_v10 cfg hhello hsettled hversion hphase hopen
  rw [rollcallComplete_of_sends cfg hack (mgmtType_rollcallV10Msg _) hs']
  cases hpending : s.rollcall with
  | nil =>
    rw [map_nil, announces_rollcallV10Msg_iff _ hnot11]
    simp
  | cons m rest =>
    -- More than one message is received.
    rw [Announces, if_neg hnot11]
    simp

theorem rollcallComplete_v11_iff (hversion : ¬ (maxVersion hello).toNat ≤ 10) :
    RollcallComplete cfg ack hello s ↔ s.rollcall = [] := by
  by_cases hpending : s.rollcall = []
  · obtain ⟨m, rest, hmsgs⟩ :=
      exists_cons_of_ne_nil rollcallV11Msgs_ne_nil
    obtain ⟨s', hs'⟩ := sends_v11 cfg hhello hsettled hversion hphase hopen hpending hmsgs
    have hannounces := announces_rollcallV11Msgs cfg.endpoints.keys_lt cfg.endpoints.keys_nodup
      (Nat.lt_of_not_le hversion)
    rw [hmsgs] at hannounces
    rw [rollcallComplete_of_sends cfg hack m.mgmtType_raw hs']
    exact iff_of_true hannounces hpending
  · -- The assertion that nothing is pending fails.
    have hnone : mgmtHandleMsg cfg 0 hello s = none := by
      rw [mgmtHandleMsg, hhello]
      rw [handleHelloAck, if_neg (not_not_intro hphase), if_neg hsettled]
      dsimp only
      rw [if_neg hversion, mgmtRollcallV11, if_neg hpending]
      rfl
    exact iff_of_false (not_rollcallComplete_of_none hnone) hpending

end

end Completeness

/-- When the version is settled, the roll call is complete exactly when the application processor
can receive, no earlier roll call has left messages, and the version is at least 11 or all endpoints
are below 52. -/
theorem rollcallComplete_iff (cfg : Config δ) {ack : BitVec 64 → BitVec 64}
    (hack : ∀ m, mgmtType (ack m) = .rollcall) {hello : BitVec 64}
    (hhello : mgmtType hello = .helloAck) (hsettled : ¬ WantsOlder hello) {s : AppleRTKit δ}
    (hphase : s.ep0_status = .waitHello) : RollcallComplete cfg ack hello s ↔
      s.Open ∧ s.rollcall = [] ∧
        (11 ≤ (maxVersion hello).toNat ∨ ∀ ep ∈ cfg.endpoints.keys, ep < 52) := by
  by_cases hopen : s.Open
  · rw [and_iff_right hopen]
    by_cases hversion : (maxVersion hello).toNat ≤ 10
    · have hnot11 : ¬ 11 ≤ (maxVersion hello).toNat := by omega
      rw [or_iff_right hnot11]
      exact rollcallComplete_v10_iff hack hhello hsettled hphase hopen hversion
    · have h11 : 11 ≤ (maxVersion hello).toNat := by omega
      rw [and_iff_left (.inl h11)]
      exact rollcallComplete_v11_iff hack hhello hsettled hphase hopen hversion
  · exact iff_of_false (not_rollcallComplete_of_not_open hhello hopen) fun h => hopen h.1

/-- The coprocessor after the reset of the machine and a start. -/
def waiting (cfg : Config Bool) : AppleRTKit Bool :=
  setCpuCtrl cfg CPU_CTRL_RUN (reset { init cfg false with a7iop := started cfg.a7iop })

/-- The roll call of version 12 of a coprocessor with the endpoints 0, 1 and 32, and the messages
received. -/
theorem rollcallComplete_sample :
    RollcallComplete sampleConfig (fun _ => 0x0080000000000000) 0x00200000000C0003
        (waiting sampleConfig) ∧
      dialogue sampleConfig (fun _ => 0x0080000000000000) 3 0x00200000000C0003
        (waiting sampleConfig) = some [0x0080000000000003, 0x0088000100000001] := by
  refine ⟨?_, by decide +kernel⟩
  exact (rollcallComplete_iff sampleConfig (fun _ => by decide) (by decide) (by decide) rfl).mpr
    ⟨rfl, rfl, .inl (by decide)⟩

/-- A coprocessor with the user endpoint 20, whose number in the table is 52. -/
def crowdedConfig : Config Bool where
  a7iop := A7iop.sampleConfig
  endpoints := oneUserTable 52 (by decide)
  start := none
  wakeup := none
  boot_done := none

/-- The roll call of version 10 of a coprocessor with the endpoint 52 is not complete. -/
theorem not_rollcallComplete_crowded :
    ¬ RollcallComplete crowdedConfig (fun _ => 0x0080000000000000) 0x00200000000A0003
      (waiting crowdedConfig) := by
  intro hcomplete
  have hopen : (waiting crowdedConfig).Open := by
    unfold AppleRTKit.Open
    decide +kernel
  obtain ⟨-, hall⟩ := (rollcallComplete_v10_iff (fun _ => by decide) (by decide)
    (by decide) rfl hopen (by decide)).mp hcomplete
  exact absurd (hall 52 (by decide)) (by decide)

end Inferno.Rtkit
