import Inferno.Common.Run

/-!
# Queues with a sticky underflow

A queue with one end to put elements in and one to get them out. To get from an empty queue is an
underflow, and after an underflow nothing can be got until the queue is cleared; elements can still
be put in. As long as the queue is not cleared nothing is lost and the order is kept: what was in
the queue and what is put in is what is got and what is left (`run_conserves`).
-/

namespace Inferno.Common

open List

variable {α : Type*}

/-- A queue and whether it has underflowed. -/
structure Fifo (α : Type*) where
  /-- The elements, the oldest first. -/
  queue : List α
  /-- An element was wanted from the empty queue. -/
  underflow : Bool

/-- An operation on a queue. -/
inductive FifoOp (α : Type*)
  /-- Nothing is done. -/
  | idle
  /-- An element is put in. -/
  | put (a : α)
  /-- The oldest element is wanted. -/
  | get
  /-- The queue is cleared. -/
  | clear

namespace Fifo

/-- The queue after an operation. -/
def step (q : Fifo α) : FifoOp α → Fifo α
  | .idle => q
  | .put a => { q with queue := q.queue ++ [a] }
  | .get =>
    if q.underflow then q
    else
      match q.queue with
      | [] => { q with underflow := true }
      | _ :: rest => { q with queue := rest }
  | .clear => ⟨[], false⟩

/-- The element that an operation puts in. -/
def putIn (_ : Fifo α) : FifoOp α → Option α
  | .put a => some a
  | _ => none

/-- The element that an operation gets. -/
def got (q : Fifo α) : FifoOp α → Option α
  | .get => if q.underflow then none else q.queue.head?
  | _ => none

variable {ops : List (FifoOp α)} {q : Fifo α}

/-- One operation neither loses an element nor changes the order, unless it clears the queue. -/
theorem step_conserves (q : Fifo α) {op : FifoOp α} (h : op ≠ .clear) :
    q.queue ++ (q.putIn op).toList = (q.got op).toList ++ (q.step op).queue := by
  obtain ⟨queue, underflow⟩ := q
  cases op with
  | idle | put a => simp [putIn, got, step]
  | get =>
    cases underflow with
    | true => simp [putIn, got, step]
    | false => cases queue <;> simp [putIn, got, step]
  | clear => exact absurd rfl h

/-- What was queued and is put in during a run without a clearing is got, in the same order, or
left in the queue. -/
theorem run_conserves (q : Fifo α) (h : ∀ op ∈ ops, op ≠ .clear) :
    q.queue ++ outputs step putIn q ops = outputs step got q ops ++ (run step q ops).queue := by
  induction ops generalizing q with
  | nil => simp [outputs]
  | cons op ops ih =>
    -- The element put in first joins the queue that the induction starts from.
    have hop := q.step_conserves (h op mem_cons_self)
    have hrest := ih (q.step op) fun i hi => h i (mem_cons_of_mem _ hi)
    calc q.queue ++ outputs step putIn q (op :: ops)
        = (q.queue ++ (q.putIn op).toList) ++ outputs step putIn (q.step op) ops := by
          rw [outputs, append_assoc]
      _ = (q.got op).toList ++ ((q.step op).queue ++ outputs step putIn (q.step op) ops) := by
          rw [hop, append_assoc]
      _ = outputs step got q (op :: ops) ++ (run step q (op :: ops)).queue := by
          rw [hrest, outputs, run_cons, append_assoc]

/-- Nothing is got from an empty queue. -/
theorem got_of_nil (h : q.queue = []) : q.got .get = none := by
  rw [got, h, head?_nil, ite_self]

/-- To get from an empty queue is an underflow. -/
theorem underflow_of_nil (h : q.queue = []) : (q.step .get).underflow = true := by
  rw [step, h]
  split_ifs with hunder
  · exact hunder
  · rfl

/-- After an underflow an operation gets nothing, and the underflow stays unless the queue is
cleared. -/
theorem step_underflow (hq : q.underflow = true) {op : FifoOp α} (h : op ≠ .clear) :
    q.got op = none ∧ (q.step op).underflow = true := by
  cases op with
  | idle | put a => exact ⟨rfl, hq⟩
  | get =>
    rw [got, step, if_pos hq, if_pos hq]
    exact ⟨rfl, hq⟩
  | clear => exact absurd rfl h

/-- After an underflow a run without a clearing gets nothing, and its end is underflowed. -/
theorem run_underflow (hq : q.underflow = true) (h : ∀ op ∈ ops, op ≠ .clear) :
    outputs step got q ops = [] ∧ (run step q ops).underflow = true := by
  induction ops generalizing q with
  | nil => exact ⟨rfl, hq⟩
  | cons op ops ih =>
    obtain ⟨hgot, hnext⟩ := step_underflow hq (h op mem_cons_self)
    obtain ⟨hrest, hend⟩ := ih hnext fun i hi => h i (mem_cons_of_mem _ hi)
    refine ⟨?_, hend⟩
    rw [outputs, hgot, hrest]
    rfl

end Fifo

end Inferno.Common
