import Mathlib.Data.List.Basic

/-!
# Streams of frames

A stream is cut into frames whose first element tells how many elements they have. An element that
tells nothing does not begin a frame and is skipped. `parse` cuts a whole stream. `accept` is the
receiver that gets it element by element and keeps what it has of a frame; `parse_accept` says that
the two agree, for every stream that follows.
-/

namespace Inferno.Common

open List

variable {α : Type*} (size : α → Option ℕ)

/-- The frames of a stream. -/
def parse : List α → List (List α)
  | [] => []
  | a :: as =>
    match size a with
    | none => parse as
    | some n =>
      if n ≤ as.length + 1 then (a :: as.take (n - 1)) :: parse (as.drop (n - 1)) else []
termination_by as => as.length
decreasing_by
  · exact Nat.lt_succ_self _
  · rw [length_drop, length_cons]
    omega

/-- An element after those of a frame that are there already: the elements that are there now, and
the frame when it is complete. -/
def accept (part : List α) (a : α) : List α × Option (List α) :=
  match size (part.headD a) with
  | none => ([], none)
  | some n => if n ≤ part.length + 1 then ([], some (part ++ [a])) else (part ++ [a], none)

/-- Some elements of a frame, but not all of them. -/
def Unfinished (part : List α) : Prop :=
  ∀ a ∈ part.head?, ∃ n, size a = some n ∧ part.length < n

variable {size}

section

variable {part : List α} (h : Unfinished size part) {a : α}

include h

/-- There is no frame in the elements of an unfinished one. -/
theorem parse_unfinished : parse size part = [] := by
  cases part with
  | nil => rw [parse]
  | cons a as =>
    obtain ⟨n, hsize, hlt⟩ := h a rfl
    rw [length_cons] at hlt
    have hnot : ¬ n ≤ as.length + 1 := by omega
    rw [parse, hsize]
    exact if_neg hnot

/-- Only the first element of a stream can be skipped. -/
theorem Unfinished.eq_nil (hskip : size (part.headD a) = none) : part = [] := by
  cases part with
  | nil => rfl
  | cons b bs =>
    obtain ⟨n, hsize, -⟩ := h b rfl
    rw [headD_cons, hsize] at hskip
    exact nomatch hskip

end

/-- The first element of a stream. -/
theorem parse_accept_nil (hpos : ∀ a n, size a = some n → 1 ≤ n) (a : α) {rest : List α} :
    parse size (a :: rest) =
      (accept size [] a).2.toList ++ parse size ((accept size [] a).1 ++ rest) := by
  unfold accept
  cases hsize : size a with
  | none =>
    have hhead : size (headD [] a) = none := hsize
    rw [hhead, parse, hsize]
    rfl
  | some n =>
    have hhead : size (headD [] a) = some n := hsize
    have hn := hpos a n hsize
    rw [hhead]
    dsimp only
    by_cases hone : n ≤ 1
    · have hn1 : n = 1 := by omega
      rw [parse, hsize, hn1]
      rfl
    · rw [length_nil, if_neg hone]
      rfl

/-- An element that continues a frame. -/
theorem parse_accept_cons {b : α} {bs : List α} (h : Unfinished size (b :: bs)) (a : α)
    {rest : List α} : parse size (b :: bs ++ a :: rest) =
      (accept size (b :: bs) a).2.toList ++ parse size ((accept size (b :: bs) a).1 ++ rest) := by
  obtain ⟨n, hsize, hlt⟩ := h b rfl
  rw [length_cons] at hlt
  have hhead : size ((b :: bs).headD a) = some n := hsize
  unfold accept
  rw [hhead]
  dsimp only
  by_cases hcomplete : n ≤ (b :: bs).length + 1
  · rw [length_cons] at hcomplete
    -- The frame is what was there and the new element.
    have hexact : n - 1 = (bs ++ [a]).length := by
      rw [length_append, length_singleton]
      omega
    have hle : n ≤ (bs ++ a :: rest).length + 1 := by
      rw [length_append, length_cons]
      omega
    have hsplit : bs ++ a :: rest = bs ++ [a] ++ rest := by simp
    rw [cons_append, parse, hsize]
    dsimp only
    rw [if_pos hle, hexact, hsplit, take_left, drop_left, length_cons, if_pos hcomplete]
    rfl
  · rw [if_neg hcomplete]
    simp

section

variable (hpos : ∀ a n, size a = some n → 1 ≤ n)

include hpos

/-- The receiver finds the frames of the stream. -/
theorem parse_accept {part : List α} (h : Unfinished size part) (a : α) (rest : List α) :
    parse size (part ++ a :: rest) =
      (accept size part a).2.toList ++ parse size ((accept size part a).1 ++ rest) := by
  cases part with
  | nil => exact parse_accept_nil hpos a
  | cons b bs => exact parse_accept_cons h a

/-- Every frame has as many elements as its first one tells. -/
theorem size_of_mem_parse {as frame : List α} (h : frame ∈ parse size as) :
    ∃ a, frame.head? = some a ∧ size a = some frame.length := by
  induction as using parse.induct size with
  | case1 =>
    rw [parse] at h
    exact nomatch h
  | case2 a as hnone ih =>
    rw [parse, hnone] at h
    exact ih h
  | case3 a as n hsize hle ih =>
    rw [parse, hsize] at h
    dsimp only at h
    rw [if_pos hle] at h
    rcases mem_cons.mp h with rfl | hmem
    · have hn := hpos a n hsize
      have hlen : (a :: as.take (n - 1)).length = n := by
        rw [length_cons, length_take]
        omega
      rw [hlen]
      exact ⟨a, rfl, hsize⟩
    · exact ih hmem
  | case4 a as n hsize hnot =>
    rw [parse, hsize] at h
    dsimp only at h
    rw [if_neg hnot] at h
    exact nomatch h

end

end Inferno.Common
