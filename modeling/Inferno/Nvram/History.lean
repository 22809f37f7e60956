import Inferno.Common.Run
import Inferno.Nvram.RoundTrip

/-!
# Histories of the environment

Variables are set and unset and the environment is saved, in any order. A name is compared in full
but cut when it is stored, so only names that fit stay distinct and are found again (`Tidy.run`).
-/

namespace Inferno.Nvram

open Common List Nat

def envGet (env : List EnvVar) (name : List UInt8) : Option (List UInt8) :=
  (env.find? (·.name = name)).map EnvVar.str

inductive EnvOp
  | set (name val : List UInt8) (flags : BitVec 32)
  | unset (name : List UInt8)
  | save

/-- What a call leaves; saving stores the environment in its partition, whatever it returns. -/
def envStep (s : AppleNvramState) : EnvOp → AppleNvramState
  | .set name val flags => { s with env := envSet s.env name val flags }
  | .unset name => { s with env := envUnset s.env name }
  | .save => { s with bank.parts := (storeCommon s.env s.bank.parts).getD s.bank.parts }

/-- The value last set and not since unset. -/
def latest (name : List UInt8) (val : Option (List UInt8)) : EnvOp → Option (List UInt8)
  | .set name' val' _ => if name' = name then some val' else val
  | .unset name' => if name' = name then none else val
  | .save => val

/-- What the environment promises after a history. -/
structure Honest (adler32 : List UInt8 → BitVec 32) (bank : NvramBank) (ops : List EnvOp)
    (size : ℕ) : Prop where
  get : ∀ name, envGet (run envStep ⟨bank, []⟩ ops).env name = run (latest name) none ops
  nodup : ((run envStep ⟨bank, []⟩ ops).env.map EnvVar.name).Nodup
  /-- Bytes that are reported to be written hold the environment. -/
  saved : ∀ out, appleNvramSerialize adler32 (run envStep ⟨bank, []⟩ ops) size = .ok out →
    reload adler32 (run envStep ⟨bank, []⟩ ops) size =
      some ((run envStep ⟨bank, []⟩ ops).env.map EnvVar.binding)

def EnvOp.Ok : EnvOp → Prop
  | .set name val flags => VarOk ⟨name, val, flags⟩
  | _ => True

/-- The variables can be written and have distinct names. -/
structure Tidy (env : List EnvVar) : Prop where
  vars : ∀ v ∈ env, VarOk v
  nodup : (env.map EnvVar.name).Nodup

variable {env : List EnvVar}

/-- Where names are distinct, all variables with the name go. -/
theorem envUnset_eq (h : (env.map EnvVar.name).Nodup) (name : List UInt8) :
    envUnset env name = env.filter (·.name ≠ name) := by
  induction env with
  | nil => rfl
  | cons v vs ih =>
    rw [map_cons, nodup_cons] at h
    by_cases hv : v.name = name
    · have hrest : ∀ w ∈ vs, w.name ≠ name := fun w hw hname =>
        h.1 (hv.trans hname.symm ▸ mem_map_of_mem hw)
      simpa [envUnset, hv] using (filter_eq_self.mpr (by simpa using hrest)).symm
    · simpa [envUnset, hv] using ih h.2

theorem Tidy.unset (h : Tidy env) (name : List UInt8) : Tidy (envUnset env name) where
  vars v hv := h.vars v (mem_of_mem_eraseP hv)
  nodup := h.nodup.sublist (eraseP_sublist.map _)

theorem Tidy.envGet_unset (h : Tidy env) (name key : List UInt8) :
    envGet (envUnset env name) key = if name = key then none else envGet env key := by
  rw [envUnset_eq h.nodup, envGet]
  split_ifs with hname
  · simp [hname]
  · have hsame : ∀ v : EnvVar, (v.name ≠ name ∧ v.name = key) ↔ v.name = key := by grind
    simp [hsame, envGet]

/-- One call keeps the environment tidy, and what is found is the value last set. -/
theorem Tidy.step {s : AppleNvramState} (h : Tidy s.env) {op : EnvOp} (hop : op.Ok) :
    Tidy (envStep s op).env ∧
      ∀ name, envGet (envStep s op).env name = latest name (envGet s.env name) op := by
  cases op with
  | set name val flags =>
    have hset : envSet s.env name val flags = envUnset s.env name ++ [⟨name, val, flags⟩] := by
      rw [envSet, take_of_length_le (le_of_lt_succ hop.length_lt)]
    have hgone : ∀ v ∈ envUnset s.env name, v.name ≠ name := by
      simp [envUnset_eq h.nodup]
    rw [envStep, hset]
    refine ⟨⟨?_, ?_⟩, fun key => ?_⟩
    · exact forall_mem_append.mpr ⟨(h.unset name).vars, forall_mem_singleton.mpr hop⟩
    · simpa [nodup_append] using ⟨(h.unset name).nodup, hgone⟩
    · have hunset := h.envGet_unset name key
      rw [envGet] at hunset ⊢
      rw [find?_append, Option.map_or, hunset]
      by_cases hname : name = key
      · simp [latest, hname]
      · simp [latest, hname]
  | unset name => exact ⟨h.unset name, h.envGet_unset name⟩
  | save => exact ⟨h, fun _ => rfl⟩

theorem Tidy.run {ops : List EnvOp} (hops : ∀ op ∈ ops, op.Ok) {s : AppleNvramState}
    (h : Tidy s.env) : Tidy (run envStep s ops).env ∧
      ∀ name, envGet (run envStep s ops).env name = run (latest name) (envGet s.env name) ops := by
  induction ops generalizing s with
  | nil => exact ⟨h, fun _ => rfl⟩
  | cons op ops ih =>
    obtain ⟨hop, hrest⟩ := forall_mem_cons.mp hops
    obtain ⟨htidy, hget⟩ := h.step hop
    obtain ⟨htidy', hget'⟩ := ih hrest htidy
    refine ⟨htidy', fun name => (hget' name).trans ?_⟩
    rw [hget name]
    rfl

/-- The bank can be written, and its partition for the environment has room for the text. -/
structure BankOk (s : AppleNvramState) (size : ℕ) : Prop where
  parts : ∀ p ∈ s.bank.parts, PartOk p
  fits : BankFits s.bank
  one : s.bank.parts.countP isCommon = 1
  text : ∀ p ∈ s.bank.parts, isCommon p → (envText s.env).length < p.data.length
  size : s.bank.len ≤ size

/-- A history of variables that can be written is honest if its bank can be written wherever a save
reports no failure. -/
theorem env_honest {adler32 : List UInt8 → BitVec 32} {bank : NvramBank} {ops : List EnvOp}
    {size : ℕ} (hops : ∀ op ∈ ops, op.Ok)
    (hbank : ∀ out, appleNvramSerialize adler32 (run envStep ⟨bank, []⟩ ops) size = .ok out →
      BankOk (run envStep ⟨bank, []⟩ ops) size) :
    Honest adler32 bank ops size := by
  obtain ⟨htidy, hget⟩ := Tidy.run hops (s := ⟨bank, []⟩) ⟨by simp, nodup_nil⟩
  refine ⟨hget, htidy.nodup, fun out hout => ?_⟩
  have hbank := hbank out hout
  have hs : Storable _ :=
    ⟨htidy.vars, htidy.nodup, hbank.parts, hbank.fits, hbank.one, hbank.text⟩
  obtain ⟨parsed, hparse, -, hviews⟩ :=
    nvramParse_image adler32 hs.partOk_storedBank hs.bankFits_stored
  have hload := hs.appleNvramLoadEnv_eq hviews
  rw [← length_image adler32 hs.bankFits_stored] at hload
  simp [reload, hs.appleNvramSerialize_eq hbank.size, Except.toOption, hparse, hload,
    EnvVar.binding]

theorem env_honest_full : Honest adler32 fullState.bank
    [.set (ascii ['a']) [] 0, .save, .unset []] 0x2000 := by
  refine env_honest ?_ fun _ _ => ⟨?_, ?_, by decide, by decide, by decide⟩
  · exact forall_mem_cons.mpr ⟨⟨by decide, by decide, by decide, by decide⟩, by simp [EnvOp.Ok]⟩
  · exact forall_mem_singleton.mpr
      ⟨by decide, by decide, by decide, by decide, by decide, by decide⟩
  · unfold BankFits
    decide

/-- A name of 64 characters is cut, and is not found again; and the text of `fullState` is not
written, although no failure is reported. -/
theorem env_dishonest : ¬ Honest adler32 fullState.bank [.set (replicate 64 1) [] 0] 0x2000 ∧
    ¬ Honest adler32 fullState.bank [.set (ascii ['a']) (replicate 13 120) 0] 0x2000 := by
  refine ⟨fun h => absurd (h.get (replicate 64 1)) (by decide), fun h => ?_⟩
  have hreload : reload adler32 fullState 0x2000 = some [] := by decide +kernel
  cases hs : appleNvramSerialize adler32 fullState 0x2000 with
  | error e => simp [reload, hs, Except.toOption] at hreload
  | ok out => exact absurd (hreload.symm.trans (h.saved out hs)) (by decide)

end Inferno.Nvram
