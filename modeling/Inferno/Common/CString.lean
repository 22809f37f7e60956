import Mathlib.Data.List.Basic
import Mathlib.Data.List.TakeWhile

/-!
# Strings that end with a zero byte

A string in an array is what comes before its first zero byte. The functions here read an array byte
by byte and fail when they would read past its end, which happens only if there is no zero byte
where they need one (`strcmp_eq`, `strncpy_eq_none_iff`).
-/

namespace Inferno.Common

open List Option

/-- The string in an array: the bytes before the first zero byte, or all of them. -/
def cstr (buf : List UInt8) : List UInt8 := buf.takeWhile (· ≠ 0)

/-- Whether the string in an array is `key`, which has no zero byte. -/
def strcmp : List UInt8 → List UInt8 → Option Bool
  | [], _ => none
  | b :: _, [] => some (b == 0)
  | b :: bs, k :: ks => if b = k then strcmp bs ks else some false

/-- The first `n` bytes of an array that starts with the string at `src`, filled up with zero
bytes. -/
def strncpy : ℕ → List UInt8 → Option (List UInt8)
  | 0, _ => some []
  | _ + 1, [] => none
  | n + 1, b :: bs => if b = 0 then some (replicate (n + 1) 0) else (strncpy n bs).map (b :: ·)

variable {buf : List UInt8}

/-- A string has no zero byte. -/
theorem zero_not_mem_cstr {buf : List UInt8} : (0 : UInt8) ∉ cstr buf := by
  intro h
  have hne := mem_takeWhile_imp h
  simp at hne

/-- The string in an array that starts with `s` and a zero byte is `s`. -/
theorem cstr_append_zero {s : List UInt8} (h : (0 : UInt8) ∉ s) (rest : List UInt8) :
    cstr (s ++ 0 :: rest) = s := by
  have hne : ∀ b ∈ s, decide (b ≠ 0) = true := fun b hb =>
    decide_eq_true fun hzero => h (hzero ▸ hb)
  rw [cstr, takeWhile_append_of_pos hne, takeWhile_cons_of_neg (by simp), append_nil]

/-- A string that does not end in an array goes on behind it. -/
theorem cstr_append_of_not_mem (h : (0 : UInt8) ∉ buf) (rest : List UInt8) :
    cstr (buf ++ rest) = buf ++ cstr rest :=
  takeWhile_append_of_pos fun _ hb => decide_eq_true fun hzero => h (hzero ▸ hb)

/-- An array without a zero byte is its own string. -/
theorem cstr_of_not_mem (h : (0 : UInt8) ∉ buf) : cstr buf = buf :=
  takeWhile_eq_self_iff.mpr fun _ hb => decide_eq_true fun hzero => h (hzero ▸ hb)

/-- An array with a zero byte starts with its string and a zero byte. -/
theorem exists_cstr_append (h : (0 : UInt8) ∈ buf) : ∃ rest, buf = cstr buf ++ 0 :: rest := by
  induction buf with
  | nil => cases h
  | cons b bs ih =>
    by_cases hb : b = 0
    · subst hb
      exact ⟨bs, rfl⟩
    · obtain ⟨rest, hrest⟩ := ih ((mem_cons.mp h).resolve_left (Ne.symm hb))
      refine ⟨rest, ?_⟩
      have hcstr : cstr (b :: bs) = b :: cstr bs := takeWhile_cons_of_pos (by simp [hb])
      rw [hcstr, cons_append, ← hrest]

/-- What is behind the end of a string does not matter. -/
theorem cstr_append_of_mem (h : (0 : UInt8) ∈ buf) (rest : List UInt8) :
    cstr (buf ++ rest) = cstr buf := by
  obtain ⟨tail, htail⟩ := exists_cstr_append h
  have happend : buf ++ rest = cstr buf ++ 0 :: (tail ++ rest) := by
    rw [← cons_append, ← append_assoc, ← htail]
  rw [happend, cstr_append_zero zero_not_mem_cstr]

/-- An array with a zero byte is longer than its string. -/
theorem length_cstr_lt_iff : (cstr buf).length < buf.length ↔ (0 : UInt8) ∈ buf := by
  constructor
  · intro hlt
    by_contra hnot
    rw [cstr_of_not_mem hnot] at hlt
    exact Nat.lt_irrefl _ hlt
  · intro hmem
    obtain ⟨tail, htail⟩ := exists_cstr_append hmem
    have hlen := congrArg length htail
    rw [length_append, length_cons] at hlen
    omega

/-- An array with a zero byte is compared inside, and the outcome is right. -/
theorem strcmp_eq {key : List UInt8} (hbuf : (0 : UInt8) ∈ buf) (hkey : (0 : UInt8) ∉ key) :
    strcmp buf key = some (decide (cstr buf = key)) := by
  induction buf generalizing key with
  | nil => cases hbuf
  | cons b bs ih =>
    by_cases hb : b = 0
    · subst hb
      cases key with
      | nil => rfl
      | cons k ks =>
        have hk : ¬ (0 : UInt8) = k := fun hzero => hkey (hzero ▸ mem_cons_self)
        rw [strcmp, if_neg hk]
        rfl
    · have hcstr : cstr (b :: bs) = b :: cstr bs := takeWhile_cons_of_pos (by simp [hb])
      cases key with
      | nil => simp [strcmp, hcstr, hb]
      | cons k ks =>
        have hrest := ih ((mem_cons.mp hbuf).resolve_left (Ne.symm hb))
          fun hks => hkey (mem_cons_of_mem k hks)
        rw [strcmp, hcstr, hrest]
        by_cases hbk : b = k <;> simp [hbk]

/-- A copy reads past the end exactly if the string does not end, and the array is too short. -/
theorem strncpy_eq_none_iff {n : ℕ} {src : List UInt8} :
    strncpy n src = none ↔ src.length < n ∧ (0 : UInt8) ∉ src := by
  induction src generalizing n with
  | nil => cases n <;> simp [strncpy]
  | cons b bs ih =>
    cases n with
    | zero => simp [strncpy]
    | succ n =>
      rw [strncpy]
      by_cases hb : b = 0
      · simp [hb]
      · have hb' : ¬ (0 : UInt8) = b := Ne.symm hb
        simp [hb, hb', ih]

/-- A copy has the length of the array, and its string is as much of the string as fits. -/
theorem of_strncpy {n : ℕ} {src name : List UInt8} (h : strncpy n src = some name) :
    name.length = n ∧ cstr name = (cstr src).take n := by
  induction src generalizing n name with
  | nil =>
    cases n with
    | zero =>
      obtain rfl := some.inj h
      exact ⟨rfl, rfl⟩
    | succ n => cases h
  | cons b bs ih =>
    cases n with
    | zero =>
      obtain rfl := some.inj h
      exact ⟨rfl, take_zero.symm⟩
    | succ n =>
      rw [strncpy] at h
      by_cases hb : b = 0
      · rw [if_pos hb] at h
        obtain rfl := some.inj h
        subst hb
        exact ⟨length_replicate, rfl⟩
      · rw [if_neg hb] at h
        obtain ⟨copy, hcopy, rfl⟩ := map_eq_some_iff.mp h
        obtain ⟨hlen, hcstr⟩ := ih hcopy
        have hcons : ∀ bs, cstr (b :: bs) = b :: cstr bs := fun bs =>
          takeWhile_cons_of_pos (by simp [hb])
        refine ⟨by rw [length_cons, hlen], ?_⟩
        rw [hcons, hcons, take_succ_cons, hcstr]

end Inferno.Common
