import Inferno.Smc.Model
import Inferno.Common.Run
import Mathlib.Data.List.Forall2

/-!
# What a message does to the SMC keys

Keys and their bytes are in two lists. Registration keeps them in step: the entries are those of the
keys, in the same order, with as many bytes as the key has, and no identifier occurs twice
(`Coherent`). So every key that is found has an entry, and a message to the endpoint always has a
result.

What a message does to the bytes is said once, by `endpoint_effect`: it changes nothing, stores what
the guest put in SRAM, or leaves what a handler left. A handler of reads runs before the length of
the read is looked at, and nothing is undone when the message fails afterwards.
-/

namespace Inferno.Smc

open Common List

/-! ## Bytes of a key -/

def AppleSMCState.bytes (s : AppleSMCState) (key : BitVec 32) : Option (List UInt8) :=
  (appleSmcGetKeyData s key).map SMCKeyData.data

variable {key : BitVec 32} {s : AppleSMCState} {d : SMCKeyData} {entries : List SMCKeyData}
  {k : SMCKey} {s' : AppleSMCState} {m : KeyMessage}

theorem find_setData (key : BitVec 32) (data : List UInt8) (l : List SMCKeyData) :
    (setData key data l).find? (fun d => d.key = key) =
      (l.find? fun d => d.key = key).map fun d => ⟨d.key, d.size, data⟩ := by
  induction l with
  | nil => rfl
  | cons d l ih =>
    by_cases h : d.key = key
    · simp [setData, h]
    · simp [setData, h, ih]

theorem find_setData_of_ne {key' : BitVec 32} (h : key' ≠ key) (data : List UInt8)
    (l : List SMCKeyData) :
    (setData key data l).find? (fun d => d.key = key') = l.find? fun d => d.key = key' := by
  induction l with
  | nil => rfl
  | cons d l ih =>
    by_cases hd : d.key = key
    · simp [setData, hd, Ne.symm h]
    · by_cases hd' : d.key = key'
      · simp [setData, hd', h]
      · simp [setData, hd, hd', ih]

theorem bytes_store (h : appleSmcGetKeyData s key = some d) {data : List UInt8} :
    (s.store key data).bytes key = some data := by
  unfold AppleSMCState.bytes AppleSMCState.store appleSmcGetKeyData at *
  rw [find_setData, h]
  rfl

theorem bytes_store_of_ne (s : AppleSMCState) {key' : BitVec 32} (h : key' ≠ key)
    {data : List UInt8} : (s.store key data).bytes key' = s.bytes key' := by
  unfold AppleSMCState.bytes AppleSMCState.store appleSmcGetKeyData
  rw [find_setData_of_ne h]

/-! ## The invariant -/

/-- An entry holds the bytes of a key. -/
structure Holds (k : SMCKey) (d : SMCKeyData) : Prop where
  key_eq : d.key = k.key
  size_eq : d.size = k.info.size.toNat
  length_eq : d.data.length = d.size

/-- Keys and entries correspond one to one. -/
structure Coherent (s : AppleSMCState) : Prop where
  /-- The entries hold the bytes of the keys, in the same order. -/
  holds : List.Forall₂ Holds s.keys s.keyData
  nodup : (s.keys.map SMCKey.key).Nodup

theorem coherent_empty {sramAddr : BitVec 64} : Coherent (.empty sramAddr) := ⟨.nil, .nil⟩

theorem holds_of_find {keys : List SMCKey} (h : List.Forall₂ Holds keys entries)
    (hk : keys.find? (fun k => k.key = key) = some k) :
    ∃ d, entries.find? (fun d => d.key = key) = some d ∧ Holds k d := by
  induction h with
  | nil => simp at hk
  | @cons a d keys entries hd _ ih =>
    by_cases ha : a.key = key
    · have hak : a = k := by simpa [ha] using hk
      subst hak
      exact ⟨d, by simp [hd.key_eq, ha], hd⟩
    · have hda : ¬ d.key = key := fun h => ha (hd.key_eq.symm.trans h)
      obtain ⟨d', hd', hh⟩ := ih (by simpa [ha] using hk)
      exact ⟨d', by simpa [hda] using hd', hh⟩

theorem Coherent.entry (h : Coherent s) (hk : appleSmcGetKey s key = some k) :
    ∃ d, appleSmcGetKeyData s key = some d ∧ Holds k d :=
  holds_of_find h.holds hk

/-- Overwriting an entry with as many bytes as it has keeps the correspondence. -/
theorem forall₂_setData {keys : List SMCKey} (h : List.Forall₂ Holds keys entries)
    {data : List UInt8} (hd : entries.find? (fun d => d.key = key) = some d)
    (hlen : data.length = d.data.length) : List.Forall₂ Holds keys (setData key data entries) := by
  induction h with
  | nil => exact .nil
  | @cons k e keys entries he hrest ih =>
    by_cases hkey : e.key = key
    · have hed : e = d := by simpa [hkey] using hd
      subst hed
      rw [setData, if_pos hkey]
      exact .cons ⟨he.key_eq, he.size_eq, hlen.trans he.length_eq⟩ hrest
    · rw [setData, if_neg hkey]
      exact .cons he (ih (by simpa [hkey] using hd))

theorem Coherent.store (h : Coherent s) (hd : appleSmcGetKeyData s key = some d) {data : List UInt8}
    (hlen : data.length = d.data.length) : Coherent (s.store key data) :=
  ⟨forall₂_setData h.holds hd hlen, h.nodup⟩

theorem Coherent.congr {s s' : AppleSMCState} (h : Coherent s) (hkeys : s'.keys = s.keys)
    (hdata : s'.keyData = s.keyData) : Coherent s' := by
  refine ⟨?_, ?_⟩
  · rw [hkeys, hdata]
    exact h.holds
  · rw [hkeys]
    exact h.nodup

/-- A registration of a key with an entry that holds its bytes keeps the store coherent. -/
theorem Coherent.insert {s s' : AppleSMCState} (h : Coherent s) {k : SMCKey} {d : SMCKeyData}
    (hd : Holds k d) (hins : appleSmcInsertKey s k d = some s') : Coherent s' := by
  unfold appleSmcInsertKey at hins
  split_ifs at hins with hfound
  obtain rfl := Option.some.inj hins
  refine ⟨rel_append h.holds (.cons hd .nil), ?_⟩
  have hnew : ∀ k' ∈ s.keys, k'.key ≠ k.key := by
    simpa [appleSmcGetKey] using hfound
  rw [map_append, nodup_append]
  refine ⟨h.nodup, by simp, ?_⟩
  intro a ha b hb
  obtain ⟨k', hk', rfl⟩ := mem_map.mp ha
  obtain rfl : b = k.key := by simpa using hb
  exact hnew k' hk'

theorem initialData_length {size : BitVec 8} (data : Option (List UInt8)) :
    (initialData size data).length = size.toNat := by
  cases data with
  | none => simp [initialData]
  | some data =>
    simp only [initialData, length_append, length_take, length_replicate]
    omega

theorem Coherent.register (h : Coherent s) {r : Registration} (hreg : register s r = some s') :
    Coherent s' := by
  cases r with
  | key key size type attr data | sensor key size type attr data =>
    simp only [Smc.register, appleSmcAddKey, appleSmcAddSensor, addPlain] at hreg
    split_ifs at hreg
    exact h.insert ⟨rfl, rfl, initialData_length data⟩ hreg
  | func key size type attr reader writer =>
    simp only [Smc.register, appleSmcAddKeyFunc] at hreg
    split_ifs at hreg
    all_goals exact h.insert ⟨rfl, rfl, initialData_length none⟩ hreg

/-- A store as the registrations of the machine leave it. -/
structure Registered where
  sramAddr : BitVec 64
  registrations : List Registration
  state : AppleSMCState
  /-- None of the registrations fails. -/
  registers : registrations.foldlM register (.empty sramAddr) = some state

theorem Registered.coherent (s : Registered) : Coherent s.state :=
  invariant_foldlM (P := Coherent) (fun _ _ _ h hreg => h.register hreg) coherent_empty s.registers

/-! ## What a message does -/

variable (sent : List Sent)

/-- The response among what is sent, which is sent last. -/
def responseOf : Option KeyResponse :=
  match sent.getLast? with
  | some (.response r) => some r
  | _ => none

variable (r : KeyResponse)

@[simp]
theorem responseOf_append : responseOf (sent ++ [.response r]) = some r := by
  simp [responseOf]

@[simp]
theorem responseOf_singleton : responseOf [.response r] = some r := rfl

def KeyMessage.Reads (m : KeyMessage) : Prop := m.cmd = 0x10 ∨ m.cmd = 0x20

def KeyMessage.Writes (m : KeyMessage) : Prop := m.cmd = 0x11

theorem KeyMessage.Reads.cmd_ne {m : KeyMessage} (h : m.Reads) {cmd : BitVec 8} (h10 : cmd ≠ 0x10)
    (h20 : cmd ≠ 0x20) : m.cmd ≠ cmd := by
  rintro rfl
  rcases h with h | h
  · exact h10 h
  · exact h20 h

theorem KeyMessage.Reads.not_writes (h : m.Reads) : ¬ m.Writes :=
  h.cmd_ne (by decide) (by decide)

section

variable (s : AppleSMCState) (m : KeyMessage) (k : SMCKey) (d : SMCKeyData) (f : SMCKeyFunc)

/-- What the handler `f` of a key does when a message reads the key. -/
def runReader : FuncResult :=
  f.run s.registered k.info.size d.data (handlerInput s m.payloadLength)

/-- What the handler `f` of a key does when a message writes the key. -/
def runWriter : FuncResult :=
  f.run s.registered k.info.size d.data (handlerInput s m.length)

/-- The message runs the handler `f` of reads on the key `k` with the entry `d`. -/
structure RunsReader (s : AppleSMCState) (m : KeyMessage) (k : SMCKey) (d : SMCKeyData)
    (f : SMCKeyFunc) : Prop where
  reads : m.Reads
  found : appleSmcGetKey s m.key = some k
  entry : appleSmcGetKeyData s m.key = some d
  readable : k.info.readable = true
  handler : k.read = some f

/-- The message gets as far as writing the key `k` with the entry `d`. -/
structure ReachesWrite (s : AppleSMCState) (m : KeyMessage) (k : SMCKey) (d : SMCKeyData) :
    Prop where
  writes : m.Writes
  found : appleSmcGetKey s m.key = some k
  entry : appleSmcGetKeyData s m.key = some d
  writable : k.info.writable = true
  size_eq : k.info.size = m.length

/-- The bytes in SRAM that a message writes. -/
def KeyMessage.input (s : AppleSMCState) : List UInt8 :=
  load s.sram 0 m.length.toNat

end

/-- What a message does to the keys and their bytes, and the response to it. -/
inductive Effect (s : AppleSMCState) (m : KeyMessage) (s' : AppleSMCState) :
    Option KeyResponse → Prop
  /-- Nothing: neither a handler runs nor are bytes written. -/
  | quiet (r : Option KeyResponse) (hdata : s'.keyData = s.keyData)
      (hread : ∀ k d f, ¬ RunsReader s m k d f) (hwrite : ∀ k d, ¬ ReachesWrite s m k d)
      (hfail : m.Writes → ∀ a, r = some a → a.status ≠ .success) : Effect s m s' r
  /-- A handler of reads leaves its bytes; the read succeeds if the handler does and the length is
  enough. -/
  | reader (k : SMCKey) (d : SMCKeyData) (f : SMCKeyFunc) (a : KeyResponse)
      (hrun : RunsReader s m k d f)
      (hdata : s'.keyData = setData m.key (runReader s m k d f).data s.keyData)
      (hstatus : a.status = .success ↔
        (runReader s m k d f).status = .success ∧ k.info.size ≤ m.length) : Effect s m s' (some a)
  /-- The bytes in SRAM are written to a key without a handler. -/
  | written (k : SMCKey) (d : SMCKeyData) (a : KeyResponse) (hreach : ReachesWrite s m k d)
      (hplain : k.write = none)
      (hdata : s'.keyData = setData m.key (m.input s) s.keyData)
      (hstatus : a.status = .success) : Effect s m s' (some a)
  /-- A handler of writes leaves its bytes. -/
  | writer (k : SMCKey) (d : SMCKeyData) (f : SMCKeyFunc) (a : KeyResponse)
      (hreach : ReachesWrite s m k d) (hhandler : k.write = some f)
      (hdata : s'.keyData = setData m.key (runWriter s m k d f).data s.keyData)
      (hstatus : a.status = (runWriter s m k d f).status) : Effect s m s' (some a)

/-- A read changes neither keys nor bytes once the handler has run, and succeeds if the length is
enough. -/
theorem finishRead_spec (s : AppleSMCState) (m : KeyMessage) (k : SMCKey) (data : List UInt8) :
    (finishRead s m k data).1.keys = s.keys ∧ (finishRead s m k data).1.keyData = s.keyData ∧
      ((finishRead s m k data).2.status = .success ↔ k.info.size ≤ m.length) := by
  unfold finishRead
  split_ifs with hlen hsize
  · simpa [KeyMessage.answer] using BitVec.not_le.mpr hlen
  · simpa using BitVec.not_lt.mp hlen
  · simpa using BitVec.not_lt.mp hlen

theorem overwrite_of_length {bytes data : List UInt8} (h : data.length = bytes.length) :
    overwrite bytes data = bytes := by
  rw [overwrite, drop_eq_nil_of_le h.le, append_nil, h, take_length]

theorem readKey_effect (hs : Coherent s) (hm : m.Reads) :
    ∃ s' sent, readKey s m = some (s', sent) ∧ s'.keys = s.keys ∧
      Effect s m s' (responseOf sent) := by
  have hnot : ¬ m.Writes := hm.not_writes
  have hwrite : ∀ k d, ¬ ReachesWrite s m k d := fun k d h => hnot h.writes
  unfold readKey
  cases hk : appleSmcGetKey s m.key with
  | none =>
    refine ⟨s, _, rfl, rfl, .quiet _ rfl ?_ hwrite fun h => absurd h hnot⟩
    intro k d f hrun
    simp [hrun.found] at hk
  | some k =>
    obtain ⟨d, hd, hh⟩ := hs.entry hk
    dsimp only
    split_ifs with hr
    · rw [hd]
      cases hf : k.read with
      | none =>
        obtain ⟨hkeys, hdata, -⟩ := finishRead_spec s m k d.data
        refine ⟨_, _, rfl, hkeys, .quiet _ hdata ?_ hwrite fun h => absurd h hnot⟩
        intro k' d' f' hrun
        obtain rfl : k = k' := by simpa [hk] using hrun.found
        have hhandler := hrun.handler
        simp [hf] at hhandler
      | some f =>
        -- What the handler leaves is stored before its status and the length are looked at.
        have hrun : RunsReader s m k d f := ⟨hm, hk, hd, hr, hf⟩
        by_cases hst : (runReader s m k d f).status = .success
        · obtain ⟨hkeys, hdata, hstatus⟩ :=
            finishRead_spec (s.store m.key (runReader s m k d f).data) m k
              (runReader s m k d f).data
          refine ⟨_, _, congrArg some (if_pos hst), hkeys, ?_⟩
          rw [responseOf_append]
          exact .reader k d f _ hrun hdata ⟨fun h => ⟨hst, hstatus.mp h⟩, fun h => hstatus.mpr h.2⟩
        · refine ⟨_, _, congrArg some (if_neg hst), rfl, ?_⟩
          rw [responseOf_append]
          exact .reader k d f _ hrun rfl ⟨fun h => absurd h hst, fun h => absurd h.1 hst⟩
    · refine ⟨s, _, rfl, rfl, .quiet _ rfl ?_ hwrite fun h => absurd h hnot⟩
      intro k' d' f' hrun
      obtain rfl : k = k' := by simpa [hk] using hrun.found
      exact hr hrun.readable

theorem writeKey_effect (hs : Coherent s) (hm : m.Writes) :
    ∃ s' sent, writeKey s m = some (s', sent) ∧ s'.keys = s.keys ∧
      Effect s m s' (responseOf sent) := by
  have hread : ∀ k d f, ¬ RunsReader s m k d f := by
    intro k d f h
    exact h.reads.not_writes hm
  unfold writeKey
  cases hk : appleSmcGetKey s m.key with
  | none =>
    refine ⟨s, _, rfl, rfl, .quiet _ rfl hread ?_ (by simp [KeyMessage.answer])⟩
    intro k d h
    simp [h.found] at hk
  | some k =>
    obtain ⟨d, hd, hh⟩ := hs.entry hk
    have hsame : ∀ {k' d'}, ReachesWrite s m k' d' → k' = k := by
      intro k' d' h
      have hfound := h.found
      rw [hk] at hfound
      exact (Option.some.inj hfound).symm
    dsimp only
    split_ifs with hw hsize
    · refine ⟨s, _, rfl, rfl, .quiet _ rfl hread ?_ (by simp [KeyMessage.answer])⟩
      intro k' d' h
      exact hsize (hsame h ▸ h.size_eq)
    · rw [hd]
      have hreach : ReachesWrite s m k d := ⟨hm, hk, hd, hw, not_not.mp hsize⟩
      cases hf : k.write with
      | none =>
        refine ⟨_, _, rfl, rfl, .written k d _ hreach hf ?_ rfl⟩
        -- The message has the size of the key, so all of its bytes are overwritten.
        have hlen : d.data.length = (m.input s).length := by
          rw [hh.length_eq, hh.size_eq, hreach.size_eq, KeyMessage.input, load_length]
        exact congrArg (setData m.key · s.keyData) (overwrite_of_length hlen)
      | some f =>
        refine ⟨_, _, rfl, rfl, ?_⟩
        rw [responseOf_append]
        refine .writer k d f _ hreach hf rfl ?_
        unfold writeAnswer
        split_ifs with hst
        · exact hst.symm
        · rfl
    · refine ⟨s, _, rfl, rfl, .quiet _ rfl hread ?_ (by simp [KeyMessage.answer])⟩
      intro k' d' h
      exact hw (hsame h ▸ h.writable)

theorem endpoint_of_reads (s : AppleSMCState) (hm : m.Reads) :
    appleSmcHandleKeyEndpoint s m = readKey s m := by
  unfold appleSmcHandleKeyEndpoint
  rw [if_neg (hm.cmd_ne (by decide) (by decide)), if_pos (show m.cmd = 0x10 ∨ m.cmd = 0x20 from hm)]

theorem endpoint_effect (hs : Coherent s) (m : KeyMessage) :
    ∃ s' sent, appleSmcHandleKeyEndpoint s m = some (s', sent) ∧ s'.keys = s.keys ∧
      Effect s m s' (responseOf sent) := by
  -- A message that neither reads nor writes a key runs no handler.
  have hother : ∀ {s' : AppleSMCState} {r : Option KeyResponse}, ¬ m.Reads → ¬ m.Writes →
      s'.keyData = s.keyData → Effect s m s' r := by
    intro s' r hr hw hdata
    exact .quiet r hdata (fun k d f h => hr h.reads) (fun k d h => hw h.writes) fun h => absurd h hw
  by_cases hr : m.Reads
  · rw [endpoint_of_reads s hr]
    exact readKey_effect hs hr
  unfold appleSmcHandleKeyEndpoint
  by_cases hw : m.Writes
  · have hcmd : m.cmd = 0x11 := hw
    rw [if_neg (by rw [hcmd]; decide), if_neg (show ¬ (m.cmd = 0x10 ∨ m.cmd = 0x20) from hr),
      if_pos hcmd]
    exact writeKey_effect hs hw
  · rw [if_neg (show ¬ (m.cmd = 0x10 ∨ m.cmd = 0x20) from hr), if_neg (show ¬ m.cmd = 0x11 from hw)]
    split_ifs
    · exact ⟨s, _, rfl, rfl, hother hr hw rfl⟩
    · exact ⟨s, _, rfl, rfl, hother hr hw rfl⟩
    · refine ⟨_, _, rfl, ?_, hother hr hw ?_⟩
      · unfold getKeyInfo
        split <;> rfl
      · unfold getKeyInfo
        split <;> rfl
    · exact ⟨s, _, rfl, rfl, hother hr hw rfl⟩

end Inferno.Smc
