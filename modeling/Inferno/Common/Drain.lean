import Mathlib.Data.List.Basic

/-!
# Draining a queue of chunks

A queue holds chunks of elements. A demand takes elements from the front: chunks that it takes to
their end are finished and removed, and a chunk in which it stops stays with what is left of it. A
chunk without elements is finished when a demand for at least one more element reaches it.

`drain` is one demand. `Drained` is what any number of demands have done in all: the elements taken
are those in front, and what is left is the chunks behind the finished ones, the first of them
possibly shortened. It is reflexive and transitive, and it says which chunks are finished: those of
which all elements are taken, and of the empty ones those that were reached.
-/

namespace Inferno.Common

open List

variable {α : Type}

/-! ## One demand -/

/-- What a demand does. -/
structure Drain (α : Type) where
  taken : List α
  finished : ℕ
  rest : List (List α)

/-- A demand for `n` elements. -/
def drain : List (List α) → ℕ → Drain α
  | [], _ => ⟨[], 0, []⟩
  | c :: cs, n =>
    if n = 0 then ⟨[], 0, c :: cs⟩
    else if c.length ≤ n then
      let d := drain cs (n - c.length)
      ⟨c ++ d.taken, d.finished + 1, d.rest⟩
    else ⟨c.take n, 0, c.drop n :: cs⟩

variable {c : List α} {rest rest' : List (List α)} {k : ℕ} {taken : List α}

variable (cs : List (List α))

/-- Nothing is demanded. -/
theorem drain_zero : drain cs 0 = ⟨[], 0, cs⟩ := by
  cases cs <;> rfl

/-- The demand takes a chunk to its end. -/
theorem drain_cons_of_le {n : ℕ} (hn : n ≠ 0) (hc : c.length ≤ n) (cs : List (List α)) :
    drain (c :: cs) n = ⟨c ++ (drain cs (n - c.length)).taken,
      (drain cs (n - c.length)).finished + 1, (drain cs (n - c.length)).rest⟩ := by
  rw [drain, if_neg hn, if_pos hc]

/-- The demand stops in a chunk. -/
theorem drain_cons_of_lt {n : ℕ} (hn : n ≠ 0) (hc : n < c.length) (cs : List (List α)) :
    drain (c :: cs) n = ⟨c.take n, 0, c.drop n :: cs⟩ := by
  rw [drain, if_neg hn, if_neg (Nat.not_le.mpr hc)]

/-- The demand takes as many elements as it asks for, or all there are. -/
theorem length_taken_drain (n : ℕ) : (drain cs n).taken.length = min n cs.flatten.length := by
  induction cs generalizing n with
  | nil => simp [drain]
  | cons c cs ih =>
    rw [flatten_cons, length_append]
    by_cases hn : n = 0
    · rw [hn]
      rfl
    by_cases hc : c.length ≤ n
    · rw [drain_cons_of_le hn hc, length_append, ih]
      omega
    · rw [drain_cons_of_lt hn (Nat.not_le.mp hc), length_take]
      omega

/-- The demand finishes the chunks that it reaches with something still wanted and takes to their
end. -/
theorem lt_finished_drain_iff {n j : ℕ} : j < (drain cs n).finished ↔ j < cs.length ∧
    (cs.take j).flatten.length < n ∧ (cs.take (j + 1)).flatten.length ≤ n := by
  induction cs generalizing n j with
  | nil => simp [drain]
  | cons c cs ih =>
    by_cases hn : n = 0
    · rw [hn, drain_zero]
      dsimp only
      omega
    by_cases hc : c.length ≤ n
    · rw [drain_cons_of_le hn hc]
      cases j with
      | zero => simpa [Nat.pos_iff_ne_zero] using ⟨hn, hc⟩
      | succ j =>
        rw [Nat.add_lt_add_iff_right, ih, length_cons, take_succ_cons, take_succ_cons, flatten_cons,
          flatten_cons, length_append, length_append]
        omega
    · rw [drain_cons_of_lt hn (Nat.not_le.mp hc), take_succ_cons, flatten_cons, length_append]
      dsimp only
      omega

/-! ## Any number of demands -/

/-- `rest` is what is left of the chunks behind the first `k`: the first of them may be shortened,
but not to nothing. -/
def Left (k : ℕ) (rest : List (List α)) : Prop :=
  (cs.drop k = [] ∧ rest = []) ∨
    ∃ c r cs', cs.drop k = c :: cs' ∧ rest = r :: cs' ∧ r <:+ c ∧ (r = [] → c = [])

/-- The elements `taken` were in front, `k` chunks are finished and `rest` is left. -/
structure Drained (cs : List (List α)) (taken : List α) (k : ℕ) (rest : List (List α)) : Prop where
  /-- Nothing is lost, repeated or out of order. -/
  append : taken ++ rest.flatten = cs.flatten
  left : Left cs k rest

/-- No demand. -/
theorem Drained.refl : Drained cs [] 0 cs where
  append := rfl
  left := by
    cases cs with
    | nil => exact .inl ⟨rfl, rfl⟩
    | cons c cs => exact .inr ⟨c, c, cs, rfl, rfl, suffix_rfl, id⟩

section

variable {cs : List (List α)} {taken' : List α} {k' : ℕ}

/-- What is left of what is left. -/
theorem Left.trans (h : Left cs k rest) (h' : Left rest k' rest') : Left cs (k + k') rest' := by
  rcases h with ⟨hdrop, rfl⟩ | ⟨c, r, cs', hdrop, rfl, hr, hnil⟩
  · rcases h' with ⟨-, rfl⟩ | ⟨c', r', cs'', hdrop', -⟩
    · exact .inl ⟨by rw [← drop_drop, hdrop, drop_nil], rfl⟩
    · rw [drop_nil] at hdrop'
      exact nomatch hdrop'
  · cases k' with
    | zero =>
      -- The shortened chunk is shortened again.
      rcases h' with ⟨hdrop', -⟩ | ⟨c', r', cs'', hdrop', rfl, hr', hnil'⟩
      · exact nomatch hdrop'
      · obtain ⟨rfl, rfl⟩ := cons.inj hdrop'
        exact .inr ⟨c, r', cs', hdrop, rfl, hr'.trans hr, fun h => hnil (hnil' h)⟩
    | succ j =>
      -- The shortened chunk is finished, and behind it nothing was changed before.
      have hsame : cs.drop (k + (j + 1)) = (r :: cs').drop (j + 1) := by
        rw [← drop_drop, hdrop, drop_succ_cons, drop_succ_cons]
      unfold Left at ⊢
      rw [hsame]
      exact h'

/-- Demands one after the other. -/
theorem Drained.trans (h : Drained cs taken k rest) (h' : Drained rest taken' k' rest') :
    Drained cs (taken ++ taken') (k + k') rest' where
  append := by rw [append_assoc, h'.append, h.append]
  left := h.left.trans h'.left

end

/-- One demand. -/
theorem drained_drain (n : ℕ) :
    Drained cs (drain cs n).taken (drain cs n).finished (drain cs n).rest := by
  induction cs generalizing n with
  | nil => exact .refl []
  | cons c cs ih =>
    by_cases hn : n = 0
    · rw [hn]
      exact .refl (c :: cs)
    by_cases hc : c.length ≤ n
    · rw [drain_cons_of_le hn hc]
      obtain ⟨happend, hleft⟩ := ih (n - c.length)
      exact ⟨by rw [append_assoc, happend, flatten_cons], hleft⟩
    · rw [drain_cons_of_lt hn (Nat.not_le.mp hc)]
      refine ⟨?_, .inr ⟨c, c.drop n, cs, rfl, rfl, drop_suffix n c, fun hnil => ?_⟩⟩
      · rw [flatten_cons, flatten_cons, ← append_assoc, take_append_drop]
      · have hlen := drop_eq_nil_iff.mp hnil
        omega

/-- How many elements are taken and left. -/
theorem Drained.length {cs : List (List α)} (h : Drained cs taken k rest) :
    taken.length + rest.flatten.length = cs.flatten.length := by
  rw [← h.append, length_append]

/-- The chunks behind hold no more elements than those before them with them. -/
theorem length_flatten_le_of_suffix {cs ds : List (List α)} (h : cs <:+ ds) :
    cs.flatten.length ≤ ds.flatten.length := by
  obtain ⟨front, rfl⟩ := h
  rw [flatten_append, length_append]
  exact Nat.le_add_left _ _

/-- The elements of the first chunks and of the others. -/
theorem length_flatten_take_add_drop (cs : List (List α)) (k : ℕ) :
    (cs.take k).flatten.length + (cs.drop k).flatten.length = cs.flatten.length := by
  rw [← length_append, ← flatten_append, take_append_drop]

section

variable {cs : List (List α)} (h : Drained cs taken k rest) {j : ℕ}

include h

/-- A chunk is finished only when all its elements are taken. -/
theorem Drained.length_take_le (hj : j < k) : (cs.take (j + 1)).flatten.length ≤ taken.length := by
  have hlen := h.length
  have hall := length_flatten_take_add_drop cs (j + 1)
  have hless : rest.flatten.length ≤ (cs.drop k).flatten.length := by
    rcases h.left with ⟨hdrop, rfl⟩ | ⟨c, r, cs', hdrop, rfl, hr, -⟩
    · exact Nat.zero_le _
    · have hrc := hr.length_le
      rw [hdrop, flatten_cons, flatten_cons, length_append, length_append]
      omega
  have hmore : (cs.drop k).flatten.length ≤ (cs.drop (j + 1)).flatten.length :=
    length_flatten_le_of_suffix (drop_suffix_drop_left cs hj)
  omega

/-- A chunk with elements is finished as soon as they are all taken. -/
theorem Drained.lt_length_take (hk : k ≤ j) (hj : cs[j]? = some c) (hc : c ≠ []) :
    taken.length < (cs.take (j + 1)).flatten.length := by
  have hlen := h.length
  have hall := length_flatten_take_add_drop cs (j + 1)
  have hpos := length_pos_iff.mpr hc
  obtain ⟨hjlt, hget⟩ := List.getElem?_eq_some_iff.mp hj
  have hdropj : cs.drop j = c :: cs.drop (j + 1) := by rw [drop_eq_getElem_cons hjlt, hget]
  -- What is left holds an element of the chunk and all that is behind it.
  suffices hrest : (cs.drop (j + 1)).flatten.length < rest.flatten.length by omega
  rcases h.left with ⟨hdrop, -⟩ | ⟨c₀, r, cs', hdrop, rfl, -, hnil⟩
  · have hshort := drop_eq_nil_iff.mp hdrop
    omega
  · have hcs' : cs.drop (k + 1) = cs' := by
      rw [← drop_drop, hdrop, drop_one, tail_cons]
    rw [flatten_cons, length_append]
    rcases Nat.eq_or_lt_of_le hk with rfl | hlt
    · obtain ⟨rfl, -⟩ := cons.inj (hdropj.symm.trans hdrop)
      have hr := length_pos_iff.mpr fun h => hc (hnil h)
      rw [hcs']
      omega
    · have hbehind := length_flatten_le_of_suffix (drop_suffix_drop_left cs hlt)
      rw [hdropj, flatten_cons, length_append, hcs'] at hbehind
      omega

end

end Inferno.Common
