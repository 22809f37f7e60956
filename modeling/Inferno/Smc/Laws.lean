import Inferno.Smc.Store

/-!
# The store laws of the SMC keys

A run is a list of messages to the key endpoint, with stores of the guest to SRAM and resets of the
device in between. Every run keeps the laws of a store. Every key has its bytes, as many as its size
says. What was written to a plain key is read back until the next successful write of that key. A
message leaves the bytes of all other keys as they are, and one that does not succeed leaves those
of its own key, unless it ran a handler of that key. The indices below the number of keys enumerate
the keys.

The exception is real: the handler of `#KEY` stores the number of keys before the read fails because
fewer than four bytes were asked for. A run in which failed messages leave all bytes as they are is
one in which every handler that changes the bytes belongs to a message that succeeds.
-/

namespace Inferno.Smc

open Common List Option

/-! ## Runs -/

/-- What happens to the controller. -/
inductive Op where
  /-- The AP sends a message to the key endpoint. -/
  | message (msg : BitVec 64)
  | sram (w : Store)
  | reset

variable (s : AppleSMCState)

/-- The state after an operation and what is sent. -/
def exec : Op → Option (AppleSMCState × List Sent)
  | .message msg => appleSmcHandleKeyEndpoint s (.ofRaw msg)
  | .sram w => some ({ s with sram := w.apply s.sram }, [])
  | .reset => some ({ s with sram := fun _ => 0 }, [])

section

variable (s : AppleSMCState) (op : Op)

/-- The state after an operation; where there is none, which is shown not to happen, the state stays
as it is. -/
def step : AppleSMCState := (exec s op).elim s Prod.fst

/-- The response to an operation. -/
def response : Option KeyResponse :=
  (exec s op).bind fun r => responseOf r.2

/-- The operation is a message that is answered with success. -/
def Succeeds : Prop :=
  ∃ r, response s op = some r ∧ r.status = .success

end

variable {s s' : AppleSMCState} {key : BitVec 32} {d : SMCKeyData} {data : List UInt8}
  {m : KeyMessage} {k k' : SMCKey} {msg : BitVec 64}

section

variable (hs : Coherent s) (op : Op) {key : BitVec 32}

include hs

/-- What an operation does: a message has its effect, and the others leave keys and bytes. -/
theorem exec_effect : (exec s op).isSome = true ∧ (step s op).keys = s.keys ∧
      ((∃ msg r, op = .message msg ∧ response s op = r ∧ Effect s (.ofRaw msg) (step s op) r) ∨
        (∀ msg, op ≠ .message msg) ∧ (step s op).keyData = s.keyData) := by
  cases op with
  | message msg =>
    obtain ⟨s', sent, hexec, hkeys, heffect⟩ := endpoint_effect hs (.ofRaw msg)
    have hexec' : exec s (.message msg) = some (s', sent) := hexec
    simp only [step, response, hexec', isSome_some]
    exact ⟨trivial, hkeys, .inl ⟨msg, _, rfl, rfl, heffect⟩⟩
  | sram w | reset => exact ⟨rfl, rfl, .inr ⟨by simp, rfl⟩⟩

theorem step_keys : (step s op).keys = s.keys :=
  (exec_effect hs op).2.1

theorem getKey_step : appleSmcGetKey (step s op) key = appleSmcGetKey s key := by
  unfold appleSmcGetKey
  rw [step_keys hs op]

theorem Coherent.step : Coherent (step s op) := by
  obtain ⟨-, hkeys, ⟨msg, r, -, -, heffect⟩ | ⟨-, hdata⟩⟩ := exec_effect hs op
  · cases heffect with
    | quiet _ hdata => exact hs.congr hkeys hdata
    | reader k d f a hrun hdata =>
      exact (hs.store hrun.entry (f.length_eq _ _ _ _)).congr hkeys hdata
    | written k d a hreach hplain hdata =>
      obtain ⟨d', hd', hh⟩ := hs.entry hreach.found
      have hlen : (KeyMessage.input (.ofRaw msg) s).length = d'.data.length := by
        rw [hh.length_eq, hh.size_eq, hreach.size_eq, KeyMessage.input, load_length]
      exact (hs.store hd' hlen).congr hkeys hdata
    | writer k d f a hreach hhandler hdata =>
      exact (hs.store hreach.entry (f.length_eq _ _ _ _)).congr hkeys hdata
  · exact hs.congr hkeys hdata

end

/-! ## Bytes -/

theorem bytes_congr (h : s'.keyData = s.keyData) {key : BitVec 32} :
    s'.bytes key = s.bytes key := by
  unfold AppleSMCState.bytes appleSmcGetKeyData
  rw [h]

theorem bytes_of_setData (hd : appleSmcGetKeyData s key = some d)
    (h : s'.keyData = setData key data s.keyData) : s'.bytes key = some data := by
  rw [← bytes_store hd]
  exact bytes_congr h

theorem bytes_of_setData_of_ne {key' : BitVec 32} (hne : key' ≠ key)
    (h : s'.keyData = setData key data s.keyData) : s'.bytes key' = s.bytes key' := by
  rw [← bytes_store_of_ne s hne]
  exact bytes_congr h

theorem Effect.bytes_of_ne {r : Option KeyResponse} (h : Effect s m s' r) (hne : key ≠ m.key) :
    s'.bytes key = s.bytes key := by
  cases h with
  | quiet _ hdata => exact bytes_congr hdata
  | reader k d f a hrun hdata => exact bytes_of_setData_of_ne hne hdata
  | written k d a hreach hplain hdata => exact bytes_of_setData_of_ne hne hdata
  | writer k d f a hreach hhandler hdata => exact bytes_of_setData_of_ne hne hdata

/-- The operation is a message that writes `b` to the key and succeeds. -/
def Wrote (s : AppleSMCState) (op : Op) (key : BitVec 32) (b : List UInt8) : Prop :=
  ∃ msg, op = .message msg ∧ (KeyMessage.ofRaw msg).Writes ∧ (KeyMessage.ofRaw msg).key = key ∧
    Succeeds s op ∧ b = (KeyMessage.ofRaw msg).input s

/-- The key has no handlers. -/
structure Plain (s : AppleSMCState) (key : BitVec 32) (k : SMCKey) : Prop where
  found : appleSmcGetKey s key = some k
  read : k.read = none
  write : k.write = none

theorem Plain.step (hs : Coherent s) (h : Plain s key k) (op : Op) : Plain (step s op) key k :=
  ⟨(getKey_step hs op).trans h.found, h.read, h.write⟩

theorem Plain.not_runsReader (h : Plain s key k) (hm : m.key = key) {k' : SMCKey} (d : SMCKeyData)
    (f : SMCKeyFunc) : ¬ RunsReader s m k' d f := by
  intro hrun
  have hfound := hrun.found
  rw [hm, h.found] at hfound
  obtain rfl := some.inj hfound
  have hhandler := hrun.handler
  simp [h.read] at hhandler

theorem Plain.not_writer (h : Plain s key k) (hm : m.key = key) (hreach : ReachesWrite s m k' d)
    (f : SMCKeyFunc) : k'.write ≠ some f := by
  have hfound := hreach.found
  rw [hm, h.found] at hfound
  obtain rfl := some.inj hfound
  simp [h.write]

section

variable (hs : Coherent s) (h : Plain s key k) {op : Op}

include hs h

theorem Plain.bytes_of_wrote {b : List UInt8} (hw : Wrote s op key b) :
    (Smc.step s op).bytes key = some b := by
  obtain ⟨msg, rfl, hwrites, hkey, ⟨a, ha, hsuccess⟩, rfl⟩ := hw
  obtain ⟨-, -, ⟨msg', r, hmsg, hr, heffect⟩ | ⟨hno, -⟩⟩ := exec_effect hs (.message msg)
  · obtain rfl : msg = msg' := by simpa using hmsg
    rw [ha] at hr
    subst hr
    cases heffect with
    | quiet _ hdata hread hwrite hfail => exact absurd hsuccess (hfail hwrites a rfl)
    | reader k' d f a hrun => exact absurd hrun (h.not_runsReader hkey d f)
    | written k' d a hreach hplain hdata =>
      rw [← hkey]
      exact bytes_of_setData hreach.entry hdata
    | writer k' d f a hreach hhandler => exact absurd hhandler (h.not_writer hkey hreach f)
  · exact absurd rfl (hno msg)

theorem Plain.bytes_of_not_wrote (hw : ∀ b, ¬ Wrote s op key b) :
    (Smc.step s op).bytes key = s.bytes key := by
  obtain ⟨-, -, ⟨msg, r, rfl, hr, heffect⟩ | ⟨-, hdata⟩⟩ := exec_effect hs op
  · by_cases hkey : (KeyMessage.ofRaw msg).key = key
    · cases heffect with
      | quiet _ hdata => exact bytes_congr hdata
      | reader k' d f a hrun => exact absurd hrun (h.not_runsReader hkey d f)
      | written k' d a hreach hplain hdata hstatus =>
        exact absurd ⟨msg, rfl, hreach.writes, hkey, ⟨a, hr, hstatus⟩, rfl⟩ (hw _)
      | writer k' d f a hreach hhandler => exact absurd hhandler (h.not_writer hkey hreach f)
    · exact heffect.bytes_of_ne (Ne.symm hkey)
  · exact bytes_congr hdata

end

/-! ## Reading back -/

section

variable (s : AppleSMCState) (op : Op) (k : SMCKey)

/-- The value that a successful read of the key `k` returns: in the response, or in SRAM. -/
def returned (r : KeyResponse) : List UInt8 :=
  if k.info.size ≤ 4 then r.response.take k.info.size.toNat else load s.sram 0 k.info.size.toNat

/-- The operation returns `b`, as the value of the key `k`. -/
def Returns (b : List UInt8) : Prop :=
  ∃ r, response s op = some r ∧ r.status = .success ∧ r.length = k.info.size ∧
    returned (step s op) k r = b

theorem finishRead_returned {m : KeyMessage} (k : SMCKey) (hlen : data.length = k.info.size.toNat)
    (hsize : k.info.size ≤ m.length) : (finishRead s m k data).2.length = k.info.size ∧
      returned (finishRead s m k data).1 k (finishRead s m k data).2 = data := by
  have htake : data.take k.info.size.toNat = data := by rw [← hlen, take_length]
  unfold finishRead returned
  rw [if_neg (BitVec.not_lt.mpr hsize)]
  rw [htake]
  split_ifs with h4
  · refine ⟨rfl, ?_⟩
    rw [← hlen]
    exact take_left
  · refine ⟨rfl, ?_⟩
    rw [← hlen]
    exact load_applyAll [⟨0, data⟩] (pairwise_singleton _ _) s.sram ⟨0, data⟩ (by simp)

theorem Plain.returns {s : AppleSMCState} (hs : Coherent s) {key : BitVec 32} {k : SMCKey}
    (h : Plain s key k) (hreadable : k.info.readable = true) {b : List UInt8}
    (hb : s.bytes key = some b) {msg : BitVec 64} (hm : (KeyMessage.ofRaw msg).Reads)
    (hkey : (KeyMessage.ofRaw msg).key = key)
    (hsize : k.info.size ≤ (KeyMessage.ofRaw msg).length) : Returns s (.message msg) k b := by
  obtain ⟨d, hd, hh⟩ := hs.entry h.found
  obtain rfl : d.data = b := by simpa [AppleSMCState.bytes, hd] using hb
  have hlen : d.data.length = k.info.size.toNat := hh.length_eq.trans hh.size_eq
  have hexec : exec s (.message msg) = some ((finishRead s (.ofRaw msg) k d.data).1,
        [.response (finishRead s (.ofRaw msg) k d.data).2]) := by
    rw [exec, endpoint_of_reads s hm]
    simp [readKey, hkey, h.found, hreadable, hd, h.read]
  obtain ⟨-, -, hstatus⟩ := finishRead_spec s (.ofRaw msg) k d.data
  obtain ⟨hlength, hreturned⟩ := finishRead_returned s k hlen hsize
  refine ⟨(finishRead s (.ofRaw msg) k d.data).2, ?_, hstatus.mpr hsize, hlength, ?_⟩
  · rw [response, hexec, bind_some, responseOf_singleton]
  · rw [Smc.step, hexec]
    exact hreturned

/-- What was written to a plain key is returned by the reads of it, with enough length, until the
next successful write of it. -/
def ReadBack (ops : List Op) : Prop :=
  ∀ pre w mid msg post, ops = pre ++ w :: (mid ++ .message msg :: post) →
    ∀ key k b, Plain (run step s pre) key k → k.info.readable = true →
      Wrote (run step s pre) w key b →
      Guarded step (fun s op => ∀ b, ¬ Wrote s op key b) (step (run step s pre) w) mid →
      (KeyMessage.ofRaw msg).Reads → (KeyMessage.ofRaw msg).key = key →
      k.info.size ≤ (KeyMessage.ofRaw msg).length →
      Returns (run step s (pre ++ w :: mid)) (.message msg) k b

end

theorem Plain.bytes_run (hs : Coherent s) (h : Plain s key k) {ops : List Op}
    (hops : Guarded Smc.step (fun s op => ∀ b, ¬ Wrote s op key b) s ops) :
    Coherent (run Smc.step s ops) ∧ Plain (run Smc.step s ops) key k ∧
      (run Smc.step s ops).bytes key = s.bytes key := by
  refine hops.invariant_run
    (I := fun s' => Coherent s' ∧ Plain s' key k ∧ s'.bytes key = s.bytes key) ?_ ⟨hs, h, rfl⟩
  rintro s' op ⟨hs', h', hbytes⟩ hop
  exact ⟨hs'.step op, h'.step hs' op, (h'.bytes_of_not_wrote hs' hop).trans hbytes⟩

theorem readBack (hs : Coherent s) (ops : List Op) : ReadBack s ops := by
  intro pre w mid msg post _ key k b h hreadable hw hmid hm hkey hsize
  have hpre : Coherent (run step s pre) := invariant_run (fun _ op h => h.step op) hs pre
  obtain ⟨hs', h', hbytes⟩ := (h.step hpre w).bytes_run (hpre.step w) hmid
  rw [h.bytes_of_wrote hpre hw] at hbytes
  rw [run_append]
  exact h'.returns hs' hreadable hbytes hm hkey hsize

/-! ## What stays unchanged -/

section

variable (s : AppleSMCState) (op : Op)

def RunsHandler (m : KeyMessage) : Prop :=
  (∃ k d f, RunsReader s m k d f) ∨ ∃ k d f, ReachesWrite s m k d ∧ k.write = some f

/-- Bytes that change are those of the key of a message that succeeds. -/
def Framed : Prop :=
  ∀ key, (step s op).bytes key ≠ s.bytes key →
    ∃ msg, op = .message msg ∧ (KeyMessage.ofRaw msg).key = key ∧ Succeeds s op

/-- Bytes that change are those of the key of a message that succeeds or runs a handler of the
key. -/
def FramedUpToHandlers : Prop :=
  ∀ key, (step s op).bytes key ≠ s.bytes key →
    ∃ msg, op = .message msg ∧ (KeyMessage.ofRaw msg).key = key ∧
      (Succeeds s op ∨ RunsHandler s (.ofRaw msg))

/-- A handler that changes the bytes of its key belongs to a message that succeeds. -/
def Careful : Op → Prop
  | .message msg =>
    (∀ k d f, RunsReader s (.ofRaw msg) k d f → (runReader s (.ofRaw msg) k d f).data = d.data ∨
        (runReader s (.ofRaw msg) k d f).status = .success ∧
          k.info.size ≤ (KeyMessage.ofRaw msg).length) ∧
    (∀ k d f, ReachesWrite s (.ofRaw msg) k d → k.write = some f →
      (runWriter s (.ofRaw msg) k d f).data = d.data ∨
        (runWriter s (.ofRaw msg) k d f).status = .success)
  | .sram _ | .reset => True

end

/-- Every operation changes only the bytes of the key of a message that succeeds or runs a handler
of the key. -/
theorem framedUpToHandlers (hs : Coherent s) (op : Op) : FramedUpToHandlers s op := by
  intro key hne
  obtain ⟨-, -, ⟨msg, r, rfl, hr, heffect⟩ | ⟨-, hdata⟩⟩ := exec_effect hs op
  · have hkey : (KeyMessage.ofRaw msg).key = key := by
      by_contra h
      exact hne (heffect.bytes_of_ne (Ne.symm h))
    refine ⟨msg, rfl, hkey, ?_⟩
    cases heffect with
    | quiet _ hdata => exact absurd (bytes_congr hdata) hne
    | reader k d f a hrun => exact .inr (.inl ⟨k, d, f, hrun⟩)
    | written k d a hreach hplain hdata hstatus => exact .inl ⟨a, hr, hstatus⟩
    | writer k d f a hreach hhandler => exact .inr (.inr ⟨k, d, f, hreach, hhandler⟩)
  · exact absurd (bytes_congr hdata) hne

variable {d' : SMCKeyData}

/-- Two entries found for the key of a message are the same. -/
theorem RunsReader.unique {f f' : SMCKeyFunc} (h : RunsReader s m k d f)
    (h' : RunsReader s m k' d' f') : k = k' ∧ d = d' ∧ f = f' := by
  obtain rfl := some.inj (h.found.symm.trans h'.found)
  exact ⟨rfl, some.inj (h.entry.symm.trans h'.entry), some.inj (h.handler.symm.trans h'.handler)⟩

/-- Two entries found for the key of a message that writes are the same. -/
theorem ReachesWrite.unique (h : ReachesWrite s m k d) (h' : ReachesWrite s m k' d') :
    k = k' ∧ d = d' :=
  ⟨some.inj (h.found.symm.trans h'.found), some.inj (h.entry.symm.trans h'.entry)⟩

/-- A message that overwrites the bytes of its key is framed exactly when they stay the same or the
message succeeds. -/
theorem framed_iff_of_setData (hd : appleSmcGetKeyData s (KeyMessage.ofRaw msg).key = some d)
    (hdata : (step s (.message msg)).keyData = setData (KeyMessage.ofRaw msg).key data s.keyData) :
    Framed s (.message msg) ↔ data = d.data ∨ Succeeds s (.message msg) := by
  have hold : s.bytes (KeyMessage.ofRaw msg).key = some d.data := by simp [AppleSMCState.bytes, hd]
  have hnew := bytes_of_setData hd hdata
  constructor
  · intro h
    by_cases hsame : data = d.data
    · exact .inl hsame
    · obtain ⟨-, -, -, hsucc⟩ := h (KeyMessage.ofRaw msg).key (by simpa [hold, hnew] using hsame)
      exact .inr hsucc
  · rintro (rfl | hsucc) key hne
    · -- All bytes are as they were.
      by_cases hkey : key = (KeyMessage.ofRaw msg).key
      · subst hkey
        exact absurd (hnew.trans hold.symm) hne
      · exact absurd (bytes_of_setData_of_ne hkey hdata) hne
    · by_cases hkey : key = (KeyMessage.ofRaw msg).key
      · exact ⟨msg, rfl, hkey.symm, hsucc⟩
      · exact absurd (bytes_of_setData_of_ne hkey hdata) hne

theorem framed_iff_careful (hs : Coherent s) (op : Op) : Framed s op ↔ Careful s op := by
  obtain ⟨-, -, ⟨msg, r, rfl, hr, heffect⟩ | ⟨hno, hdata⟩⟩ := exec_effect hs op
  · have hsucc : ∀ {a}, r = some a → (Succeeds s (.message msg) ↔ a.status = .success) := by
      rintro a rfl
      simp [Succeeds, hr]
    cases heffect with
    | quiet _ hdata hread hwrite =>
      refine iff_of_true (fun key hne => absurd (bytes_congr hdata) hne) ⟨?_, ?_⟩
      · intro k d f h
        exact absurd h (hread k d f)
      · intro k d f h
        exact absurd h (hwrite k d)
    | reader k d f a hrun hdata hstatus =>
      -- The handler that ran is the only one that being careful asks about.
      rw [framed_iff_of_setData hrun.entry hdata, hsucc rfl, hstatus]
      constructor
      · intro h
        refine ⟨?_, ?_⟩
        · intro k' d' f' h'
          obtain ⟨rfl, rfl, rfl⟩ := hrun.unique h'
          exact h
        · intro k' d' f' h'
          exact absurd h'.writes hrun.reads.not_writes
      · rintro ⟨h, -⟩
        exact h k d f hrun
    | written k d a hreach hplain hdata hstatus =>
      refine iff_of_true ?_ ⟨?_, ?_⟩
      · rw [framed_iff_of_setData hreach.entry hdata, hsucc rfl]
        exact .inr hstatus
      · intro k' d' f' h'
        exact absurd hreach.writes h'.reads.not_writes
      · intro k' d' f' h' hhandler
        obtain ⟨rfl, rfl⟩ := hreach.unique h'
        simp [hplain] at hhandler
    | writer k d f a hreach hhandler hdata hstatus =>
      rw [framed_iff_of_setData hreach.entry hdata, hsucc rfl, hstatus]
      constructor
      · intro h
        refine ⟨?_, ?_⟩
        · intro k' d' f' h'
          exact absurd hreach.writes h'.reads.not_writes
        · intro k' d' f' h' hhandler'
          obtain ⟨rfl, rfl⟩ := hreach.unique h'
          obtain rfl := some.inj (hhandler.symm.trans hhandler')
          exact h
      · rintro ⟨-, h⟩
        exact h k d f hreach hhandler
  · refine iff_of_true (fun key hne => absurd (bytes_congr hdata) hne) ?_
    cases op with
    | message msg => exact absurd rfl (hno msg)
    | sram w | reset => trivial

/-! ## Enumeration -/

/-- The messages with an index enumerate the keys. -/
structure Enumerates (s : AppleSMCState) : Prop where
  nodup : (s.keys.map SMCKey.key).Nodup
  /-- An index below the number of keys gives the key there. -/
  below : ∀ msg, (KeyMessage.ofRaw msg).cmd = 0x12 →
    ∀ h : (KeyMessage.ofRaw msg).key.toNat < s.keys.length,
      response s (.message msg) = some ⟨.success, (KeyMessage.ofRaw msg).tagAndId, 0,
        leBytes 4 (s.keys[(KeyMessage.ofRaw msg).key.toNat]).key.toNat⟩
  /-- Any other fails. -/
  above : ∀ msg, (KeyMessage.ofRaw msg).cmd = 0x12 →
    s.keys.length ≤ (KeyMessage.ofRaw msg).key.toNat →
      response s (.message msg) = some ((KeyMessage.ofRaw msg).answer .keyIndexRangeError)
  /-- The handler of the number of keys stores that number, if 32 bits can hold it. -/
  count : s.keys.length < 2 ^ 32 → ∀ size data input, data.length = 4 →
    ofLe (smcKeyCountRead.run s.registered size data input).data.reverse = s.keys.length

theorem response_of_index (s : AppleSMCState) (h : (KeyMessage.ofRaw msg).cmd = 0x12) :
    response s (.message msg) = some (getKeyByIndex s (.ofRaw msg)) := by
  simp [response, exec, appleSmcHandleKeyEndpoint, h]

theorem Coherent.enumerates (hs : Coherent s) : Enumerates s where
  nodup := hs.nodup
  below := by
    intro msg hcmd h
    rw [response_of_index s hcmd, getKeyByIndex, getElem?_eq_getElem h]
  above := by
    intro msg hcmd h
    rw [response_of_index s hcmd, getKeyByIndex, getElem?_eq_none h]
  count := by
    intro hfew size data input hlen
    have hcount : overwrite (leBytes 4 s.keys.length).reverse data =
        (leBytes 4 s.keys.length).reverse := overwrite_of_length (by simp [hlen])
    simp only [smcKeyCountRead, AppleSMCState.registered, length_map]
    rw [hcount, reverse_reverse, ofLe_leBytes]
    exact Nat.mod_eq_of_lt hfew

/-! ## The laws -/

/-- The laws of the store in a run. -/
structure StoreLaws (s : AppleSMCState) (ops : List Op) : Prop where
  /-- Every operation has a result. -/
  served : Guarded step (fun s op => (exec s op).isSome = true) s ops
  /-- Keys and entries correspond one to one, with equal sizes, in every state. -/
  coherent : Throughout step Coherent s ops
  /-- What was written to a plain key is read back. -/
  readBack : ReadBack s ops
  /-- Only bytes of the key of a message that succeeds or runs a handler of it change. -/
  framed : Guarded step FramedUpToHandlers s ops
  /-- The indices enumerate the keys in every state. -/
  enumerates : Throughout step Enumerates s ops

/-- From every store that registrations leave, every run keeps the laws. Messages that do not
succeed leave all bytes as they are exactly in the runs in which every handler that changes the
bytes of its key belongs to a message that succeeds. -/
theorem smc_store_laws (s : Registered) (ops : List Op) : StoreLaws s.state ops ∧
      (Guarded step Framed s.state ops ↔ Guarded step Careful s.state ops) := by
  have hinv : ∀ s op, Coherent s → Coherent (step s op) := fun _ op h => h.step op
  refine ⟨⟨?_, ?_, ?_, ?_, ?_⟩, ?_⟩
  · exact guarded_of_invariant hinv (fun _ op h => (exec_effect h op).1) s.coherent
  · exact throughout_of_invariant hinv (fun _ h => h) s.coherent ops
  · exact readBack s.coherent ops
  · exact guarded_of_invariant hinv (fun _ op h => framedUpToHandlers h op) s.coherent
  · exact throughout_of_invariant hinv (fun _ h => h.enumerates) s.coherent ops
  · exact guarded_congr hinv (fun _ op h => framed_iff_careful h op) s.coherent ops

/-- A store with the number of keys as its only key. -/
def countOnly : Registered where
  sramAddr := 0
  registrations := [.func 0x234B4559 4 0x75693332 0 (some smcKeyCountRead) none]
  state := ⟨[⟨⟨4, 0x75693332, 0x90⟩, 0x234B4559, false, some smcKeyCountRead, none⟩],
    [⟨0x234B4559, 4, [0, 0, 0, 0]⟩], fun _ => 0, 0⟩
  registers := rfl

/-- A read of `#KEY` with no length fails, and leaves the number of keys in its bytes, which were
zero. -/
theorem smc_failed_read_stores : response countOnly.state (.message 0x234B455900000010) =
        some ⟨.keySizeMismatch, 0, 0, [0, 0, 0, 0]⟩ ∧
      countOnly.state.bytes 0x234B4559 = some [0, 0, 0, 0] ∧
      (step countOnly.state (.message 0x234B455900000010)).bytes 0x234B4559 = some [0, 0, 0, 1] ∧
      ¬ Guarded step Framed countOnly.state [.message 0x234B455900000010] := by
  have hresponse : response countOnly.state (.message 0x234B455900000010) =
      some ⟨.keySizeMismatch, 0, 0, [0, 0, 0, 0]⟩ := by decide +kernel
  have hold : countOnly.state.bytes 0x234B4559 = some [0, 0, 0, 0] := by decide +kernel
  have hnew : (step countOnly.state (.message 0x234B455900000010)).bytes 0x234B4559 =
      some [0, 0, 0, 1] := by decide +kernel
  refine ⟨hresponse, hold, hnew, ?_⟩
  rintro ⟨hframed, -⟩
  obtain ⟨-, -, -, r, hr, hsuccess⟩ := hframed 0x234B4559 (by rw [hnew]; decide)
  rw [hresponse] at hr
  obtain rfl := some.inj hr
  simp at hsuccess

end Inferno.Smc
