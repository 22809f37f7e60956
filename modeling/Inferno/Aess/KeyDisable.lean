import Inferno.Common.TwoRuns
import Inferno.Aess.Model
import Mathlib.Tactic.IntervalCases

/-!
# Disabled group keys

A group key enters the state of the engine in one place only, the output of an encryption or
decryption command that selects it. The latched keys and all other registers come from what the
guest writes. So two runs of the same accesses under different group keys differ in the output at
most (`SameButOutput`, kept by every access), and once their readable registers agree they do not
differ at all.

In a state in which the bit of a group key is set, no command uses that key: the decoder removes the
key size flags only, and what is left of a command that selects a group key is one of the two words
for which `keydisableBitInvalid` looks at the bit of this key (`keydisableBitInvalid_of_group`). So
from there on, an access does the same whatever the key (`access_congr`). The bit stays set, since
no access takes a bit out of the key-disable register (`Locked`).
-/

namespace Inferno.Aess

open Common BitVec Option
open Option (map map_eq_some_iff some)

variable {C : Type} (lib : CipherLib C)

/-! ## Which key a command uses -/

/-- The group key that the selection flags of a command name. -/
def selected (cmd : BitVec 32) : Group := if keyselectGid1 cmd then .gid1 else .gid0

variable {gid : GroupKeys} {s' t : AppleAESSState}

variable (cmd : BitVec 32)

/-- A word without the key size is the command and the two selection flags. -/
theorem withoutKeysize_eq :
    withoutKeysize cmd = withoutFlags cmd ||| (cmd &&& 0x40#32 ||| cmd &&& 0x80#32) := by
  have hflags : cmd &&& 0x40#32 ||| cmd &&& 0x80#32 = withoutKeysize cmd &&& 0xC0#32 := by
    rw [withoutKeysize, BitVec.and_assoc, ← and_or_distrib_left]
    rfl
  rw [hflags, withoutFlags, ← and_or_distrib_left]
  exact and_allOnes.symm

theorem and_twoPow_of_ne_zero {w i : ℕ} {x : BitVec w} (h : x &&& twoPow w i ≠ 0) :
    x &&& twoPow w i = twoPow w i := by
  rw [and_twoPow] at h ⊢
  split_ifs at h ⊢ with hbit
  · rfl
  · exact absurd rfl h

/-- A command that encrypts or decrypts under a group key has invalid parameters exactly when the
bit of that key is set. -/
theorem keydisableBitInvalid_of_group {cmd : BitVec 32} (keydisable : BitVec 32)
    (hcmd : withoutFlags cmd = 0x9 ∨ withoutFlags cmd = 0xA)
    (hcustom : keyselectCustom cmd = false) :
    keydisableBitInvalid cmd keydisable = keydisable.getLsbD (selected cmd).disableBit := by
  have hno : cmd &&& 0x80#32 = 0#32 := by simpa [keyselectCustom] using hcustom
  have hword : withoutKeysize cmd = withoutFlags cmd ||| (cmd &&& 0x40#32) := by
    rw [withoutKeysize_eq, hno, or_zero]
  unfold keydisableBitInvalid selected
  by_cases hgid : cmd &&& 0x40#32 = 0#32
  · have hflag : keyselectGid1 cmd = false := by simp [keyselectGid1, hgid]
    rw [hgid] at hword
    rw [hword, hflag]
    obtain hcmd | hcmd := hcmd <;> rw [hcmd] <;> rfl
  · have hflag : keyselectGid1 cmd = true := by simpa [keyselectGid1] using hgid
    have hbit : cmd &&& 0x40#32 = 0x40#32 := and_twoPow_of_ne_zero (i := 6) hgid
    rw [hbit] at hword
    rw [hword, hflag]
    obtain hcmd | hcmd := hcmd <;> rw [hcmd] <;> rfl

/-- The command encrypts or decrypts. -/
def IsCbc : Prop :=
  withoutFlags cmd = 0x9 ∨ withoutFlags cmd = 0xA ∨ withoutFlags cmd = 0x8 ∨ withoutFlags cmd = 0x6

/-- An encryption or decryption that does not force a custom key is one of the two commands for
every key. -/
theorem IsCbc.of_not_customEncryption {cmd : BitVec 32} (h : IsCbc cmd)
    (hforced : ¬ customEncryption cmd = true) :
    withoutFlags cmd = 0x9 ∨ withoutFlags cmd = 0xA := by
  obtain h | h | h | h := h
  · exact .inl h
  · exact .inr h
  all_goals exact absurd (by simp [customEncryption, h]) hforced

theorem performCmd_congr {α : Type} {f : Option AppleAESSState → α} {gid' : GroupKeys}
    {alg : CipherAlgo} {invalid : Bool} {s : AppleAESSState} (h : IsCbc s.command →
      f (cbcCommand lib gid alg invalid s) = f (cbcCommand lib gid' alg invalid s)) :
    f (performCmd lib gid alg invalid s) = f (performCmd lib gid' alg invalid s) := by
  unfold performCmd
  dsimp only
  split_ifs with _ _ hcbc
  · rfl
  · rfl
  · exact h hcbc
  all_goals rfl

/-! ## Accesses in a state with the bit set -/

section Disabled

variable {gid' : GroupKeys} {group : Group}

/-- The bit of a group key is set. -/
def Disabled (group : Group) (s : AppleAESSState) : Prop :=
  s.keydisable.getLsbD group.disableBit = true

variable {s : AppleAESSState}

section

variable (hsame : ∀ other ≠ group, gid other = gid' other) (hdisabled : Disabled group s)

include hsame hdisabled

/-- An encryption or decryption command uses the same key whatever the value of a disabled key. -/
theorem usedKey_congr (hcmd : IsCbc s.command) :
    usedKey gid (keydisableBitInvalid s.command s.keydisable) s =
      usedKey gid' (keydisableBitInvalid s.command s.keydisable) s := by
  unfold usedKey
  split_ifs with hforced hcustom hinvalid hgid
  · rfl
  · rfl
  · rfl
  all_goals
    -- The bit of the key that is used is clear, so this key is not the disabled one.
    have hbit := keydisableBitInvalid_of_group s.keydisable (hcmd.of_not_customEncryption hforced)
      (Bool.eq_false_iff.mpr hcustom)
    have hother : selected s.command ≠ group := by
      rintro rfl
      exact hinvalid (hbit.trans hdisabled)
    have hkey := hsame _ hother
    simpa [selected, hgid] using hkey

/-- A command does the same whatever the value of a disabled key. -/
theorem aessHandleCmd_congr : aessHandleCmd lib gid s = aessHandleCmd lib gid' s := by
  refine bind_congr fun alg _ => ?_
  refine performCmd_congr lib fun hcmd => congrArg (map _) ?_
  have hkey : usedKey gid (keydisableBitInvalid s.command s.keydisable) (clearOut s) =
      usedKey gid' (keydisableBitInvalid s.command s.keydisable) (clearOut s) :=
    usedKey_congr (s := clearOut s) hsame hdisabled hcmd
  unfold cbcCommand
  rw [hkey]

theorem access_congr (a : Access) : access lib gid s a = access lib gid' s a := by
  cases a with
  | read addr => rfl
  | write addr data =>
    have hcmd : aessHandleCmd lib gid (startCmd s data) =
        aessHandleCmd lib gid' (startCmd s data) :=
      aessHandleCmd_congr lib hsame hdisabled
    rw [access, access, aessBaseRegWrite, aessBaseRegWrite, hcmd]

end

end Disabled

/-! ## Locked bits -/

/-- From `s` to `s'`, no disable bit and no lock of a seed bit is lost, and no locked seed bit is
changed. -/
structure Locked (s s' : AppleAESSState) : Prop where
  keydisable : ∀ b, s.keydisable.getLsbD b = true → s'.keydisable.getLsbD b = true
  seedBitsLock : ∀ b, s.seedBitsLock.getLsbD b = true → s'.seedBitsLock.getLsbD b = true
  seedBits : ∀ b, s.seedBitsLock.getLsbD b = true → s'.seedBits.getLsbD b = s.seedBits.getLsbD b

variable {s : AppleAESSState}

theorem Locked.of_eq (hkeydisable : s'.keydisable = s.keydisable)
    (hlock : s'.seedBitsLock = s.seedBitsLock) (hseed : s'.seedBits = s.seedBits) :
    Locked s s' where
  keydisable b h := by rw [hkeydisable, h]
  seedBitsLock b h := by rw [hlock, h]
  seedBits b _ := by rw [hseed]

theorem Locked.trans {s s'' : AppleAESSState} (h : Locked s s') (h' : Locked s' s'') :
    Locked s s'' where
  keydisable b hb := h'.keydisable b (h.keydisable b hb)
  seedBitsLock b hb := h'.seedBitsLock b (h.seedBitsLock b hb)
  seedBits b hb := (h'.seedBits b (h.seedBitsLock b hb)).trans (h.seedBits b hb)

section

variable {s : AppleAESSState} {addr : ℕ} {data : BitVec 32}

/-- The key-disable register keeps its bits. -/
theorem locked_setKeydisable : Locked s (setKeydisable s data) where
  keydisable b h := by
    -- A bit of the register is a bit of the mask.
    have hmask := congrArg (getLsbD · b) s.keydisable_and_mask
    simp only [getLsbD_and, h] at hmask
    simp [setKeydisable, h, hmask]
  seedBitsLock b h := h
  seedBits b _ := rfl

theorem Locked.ite {s t' : AppleAESSState} {p : Prop} [Decidable p] (h : Locked s t)
    (h' : Locked s t') : Locked s (if p then t else t') := by
  split
  · exact h
  · exact h'

theorem locked_writeReg : Locked s (writeReg s addr data) := by
  refine .ite (.of_eq rfl rfl rfl) (.ite (.ite (.of_eq rfl rfl rfl) (.of_eq rfl rfl rfl))
    (.ite (.of_eq rfl rfl rfl) (.ite (.of_eq rfl rfl rfl) (.ite locked_setKeydisable
    (.ite ?_ (.ite ?_ (.ite (.of_eq rfl rfl rfl) (.ite (.of_eq rfl rfl rfl)
    (.of_eq rfl rfl rfl)))))))))
  · -- The seed bits are taken over where their locks are clear.
    refine ⟨fun b h => h, fun b h => h, fun b h => ?_⟩
    simp [h]
  · -- The locks take bits in and lose none.
    refine ⟨fun b h => h, fun b h => ?_, fun b _ => rfl⟩
    simp [h]

end

theorem locked_performCmd {alg : CipherAlgo} {invalid : Bool} {s : AppleAESSState}
    (h : performCmd lib gid alg invalid s = some s') : Locked s s' := by
  unfold performCmd cbcCommand at h
  dsimp only at h
  split_ifs at h
  any_goals
    cases h
    exact .of_eq rfl rfl rfl
  all_goals
    obtain ⟨_, -, rfl⟩ := map_eq_some_iff.mp h
    exact .of_eq rfl rfl rfl

theorem locked_access {a : Access} {k : Reply} (h : access lib gid s a = some (k, s')) :
    Locked s s' := by
  cases a with
  | read addr =>
    cases h
    exact .of_eq rfl rfl rfl
  | write addr data =>
    obtain ⟨⟨raised, t⟩, hwrite, heq⟩ := map_eq_some_iff.mp h
    obtain ⟨-, rfl⟩ := Prod.mk.inj heq
    unfold aessBaseRegWrite at hwrite
    split_ifs at hwrite
    · obtain ⟨alg, -, hcmd⟩ := bind_eq_some_iff.mp hwrite
      obtain ⟨t, hperform, hreturn⟩ := map_eq_some_iff.mp hcmd
      obtain ⟨-, rfl⟩ := Prod.mk.inj hreturn
      have hstart : Locked s (clearOut (startCmd s data)) := .of_eq rfl rfl rfl
      exact (hstart.trans (locked_performCmd lib hperform)).trans (.of_eq rfl rfl rfl)
    · cases hwrite
      exact .of_eq rfl rfl rfl
    · cases hwrite
      exact locked_writeReg

theorem locked_replies {ops : List Access} {ks : List Reply}
    (h : replies (access lib gid) s ops = some (ks, s')) : Locked s s' := by
  have hstep : ∀ t a k t', Locked s t → access lib gid t a = some (k, t') → Locked s t' :=
    fun _ _ _ _ ht hfirst => ht.trans (locked_access lib hfirst)
  exact invariant_replies hstep (.of_eq rfl rfl rfl) h

/-! ## Two runs under different group keys -/

/-- Two states that differ in the output at most. -/
def SameButOutput (s t : AppleAESSState) : Prop := clearOut s = clearOut t

section

variable (gid gid' : GroupKeys) (s : AppleAESSState) (a : Access)

/-- Apart from the output, a command does the same whatever the group keys. -/
theorem map_clearOut_aessHandleCmd : (aessHandleCmd lib gid s).map (fun p => clearOut p.2) =
      (aessHandleCmd lib gid' s).map fun p => clearOut p.2 := by
  unfold aessHandleCmd
  cases getAesCipherAlg s.command with
  | none => rfl
  | some alg =>
    rw [bind_some, bind_some, map_map, map_map]
    refine performCmd_congr lib fun _ => ?_
    unfold cbcCommand usedKey
    split_ifs <;> rfl

/-- The writes to the registers neither read nor change the output. -/
theorem clearOut_writeReg {addr : ℕ} {data : BitVec 32} :
    clearOut (writeReg s addr data) = clearOut (writeReg (clearOut s) addr data) := by
  simp only [writeReg, apply_ite clearOut]
  rfl

/-- Apart from the output, an access does the same whatever the group keys and the output. -/
theorem map_clearOut_access : (access lib gid s a).map (fun p => clearOut p.2) =
      (access lib gid' (clearOut s) a).map fun p => clearOut p.2 := by
  cases a with
  | read addr =>
    rfl
  | write addr data =>
    rw [access, access, map_map, map_map]
    unfold aessBaseRegWrite
    split_ifs
    · -- The command clears the output before it does anything else.
      exact map_clearOut_aessHandleCmd lib gid gid' (startCmd s data)
    · rfl
    · exact congrArg some (clearOut_writeReg s)

end

theorem SameButOutput.access {gid' : GroupKeys} {s t' : AppleAESSState} {a : Access} {k l : Reply}
    (h : SameButOutput s t) (hs : access lib gid s a = some (k, s'))
    (ht : access lib gid' t a = some (l, t')) : SameButOutput s' t' := by
  have hsame := (map_clearOut_access lib gid gid' s a).trans
    (h ▸ (map_clearOut_access lib gid' gid' t a).symm)
  rw [hs, ht] at hsame
  exact some.inj hsame

/-! ## What can be read -/

/-- The guest can read every register of the region, four bytes at a time. -/
def Readable (addr : ℕ) : Prop := addr % 4 = 0 ∧ addr < 0x10000

theorem wordAt_inj {m m' : ℕ → UInt8} {off : ℕ} (h : wordAt m off = wordAt m' off) {j : ℕ}
    (hj : j < 4) : m (off + j) = m' (off + j) := by
  have hlt (m : ℕ → UInt8) : ofLe (load m off 4) < 2 ^ 32 := by
    have hbound := ofLe_lt (load m off 4)
    rwa [load_length] at hbound
  have hnat := congrArg BitVec.toNat h
  rw [wordAt, wordAt, toNat_ofNat, toNat_ofNat, Nat.mod_eq_of_lt (hlt m),
    Nat.mod_eq_of_lt (hlt m')] at hnat
  have hload := ofLe_inj (by rw [load_length, load_length]) hnat
  exact List.map_inj_left.mp hload j (List.mem_range.mpr hj)

/-- The output registers hold the words of the output. -/
theorem aessBaseRegRead_out (s : AppleAESSState) {k : ℕ} (hk : k < 8) :
    aessBaseRegRead s (0x60 + 4 * k) = wordAt (image s.outFull) (4 * k) := by
  interval_cases k <;> rfl

/-- States that differ in the output at most and read the same are equal. -/
theorem SameButOutput.eq_of_readable (h : SameButOutput s t)
    (hread : ∀ addr, Readable addr → aessBaseRegRead s addr = aessBaseRegRead t addr) : s = t := by
  have hout : s.outFull = t.outFull := by
    funext i
    have hword := hread (0x60 + 4 * (i / 4)) ⟨by omega, by omega⟩
    rw [aessBaseRegRead_out s (by omega), aessBaseRegRead_out t (by omega)] at hword
    have hbyte := wordAt_inj hword (j := i % 4) (Nat.mod_lt _ (by decide))
    rw [Nat.div_add_mod] at hbyte
    simpa [image] using hbyte
  calc s = { clearOut s with outFull := s.outFull } := rfl
    _ = { clearOut t with outFull := t.outFull } := by rw [h, hout]
    _ = t := rfl

/-! ## Non-interference -/

/-- Two runs of the same accesses under group keys that differ in one key only, up to states in
which the bit of that key is set and the registers read the same, go on with the same replies and
the same states, whatever the accesses after it. In each run, disable bits and locks of seed bits
are only ever set, and a locked seed bit keeps its value. -/
theorem disabled_key_noninterference (gid gid' : GroupKeys) (group : Group)
    (hsame : ∀ other ≠ group, gid other = gid' other) (s₀ : AppleAESSState) (pre : List Access)
    (ks ls : List Reply) (s t : AppleAESSState)
    (hs : replies (access lib gid) s₀ pre = some (ks, s))
    (ht : replies (access lib gid') s₀ pre = some (ls, t)) : (Disabled group s →
      (∀ addr, Readable addr → aessBaseRegRead s addr = aessBaseRegRead t addr) →
      ∀ post, replies (access lib gid) s post = replies (access lib gid') t post) ∧
    Locked s₀ s := by
  refine ⟨fun hdisabled hread post => ?_, locked_replies lib hs⟩
  have hpair (s t : AppleAESSState) (a : Access) (k : Reply) (s' : AppleAESSState) (l : Reply)
      (t' : AppleAESSState) (h : SameButOutput s t) (hs : access lib gid s a = some (k, s'))
      (ht : access lib gid' t a = some (l, t')) : SameButOutput s' t' :=
    h.access lib hs ht
  obtain rfl := (related_replies hpair rfl hs ht).eq_of_readable hread
  have hstays (s : AppleAESSState) (a : Access) (k : Reply) (s' : AppleAESSState)
      (h : Disabled group s) (hs : access lib gid s a = some (k, s')) : Disabled group s' :=
    (locked_access lib hs).keydisable _ h
  exact replies_congr hstays (fun _ h => access_congr lib hsame h) hdisabled

/-- A cipher that adds the first byte of its key. -/
def sampleLib : CipherLib UInt8 where
  new _ key := key.getD 0 0
  setiv cipher _ := cipher
  encrypt cipher data := (fun i => data i + cipher, cipher)
  decrypt cipher data := (fun i => data i - cipher, cipher)

/-- Group keys of which the first has all its bytes equal to `b`. -/
def sampleKeys (b : UInt8) : GroupKeys
  | .gid0 => fun _ => b
  | .gid1 => fun _ => 7

/-- A state in which nothing has been written. -/
def sampleState : AppleAESSState where
  status := 0
  command := 0
  interruptStatus := 0
  interruptEnabled := 0
  keywrapIterationsCounter := 0
  keydisable := 0
  keydisable_and_mask := zero_and_keydisableMask
  seedBits := 0
  seedBitsLock := 0
  inFull := fun _ => 0
  outFull := fun _ => 0
  key256In := fun _ => 0
  keywrapKeyUid0 := fun _ => 0
  keywrapKeyUid1 := fun _ => 0
  customKeyIndex := fun _ _ => 0
  customKeyIndexEnabled := fun _ => false
  keywrapUid0Enabled := false
  keywrapUid1Enabled := false
  aessBaseRegs := fun _ => 0

/-- An encryption under the first group key, a command that only clears the output, and the write
that disables the key. -/
def samplePre : List Access :=
  [.write 0x8 0x9, .write 0x4 0x1, .write 0x8 0x20, .write 0x4 0x1, .write 0x18 0x1]

/-- An encryption that selects the first group key, and a read of its output. -/
def samplePost : List Access := [.write 0x8 0x9, .write 0x4 0x1, .read 0x70]

/-- After the key has been used and disabled, a further encryption gives the same under two values
of the key. -/
theorem disabled_key_noninterference_sample :
    ∃ ks s ls t, replies (access sampleLib (sampleKeys 1)) sampleState samplePre = some (ks, s) ∧
      replies (access sampleLib (sampleKeys 2)) sampleState samplePre = some (ls, t) ∧
      Disabled .gid0 s ∧
      replies (access sampleLib (sampleKeys 1)) s samplePost =
        replies (access sampleLib (sampleKeys 2)) t samplePost := by
  refine ⟨_, _, _, _, rfl, rfl, rfl, ?_⟩
  refine (disabled_key_noninterference sampleLib (sampleKeys 1) (sampleKeys 2) .gid0 ?_ sampleState
    samplePre _ _ _ _ rfl rfl).1 rfl (fun _ _ => rfl) samplePost
  intro other hother
  cases other with
  | gid0 => exact absurd rfl hother
  | gid1 => rfl

end Inferno.Aess
