import Inferno.Common.Bytes
import Inferno.Common.Outcome

/-!
# Queues of words

`Fifo8` of `util/fifo8.c` and `Fifo32` of `include/qemu/fifo32.h`: a queue of bytes with a fixed
capacity, and words pushed to it and popped from it byte by byte, the least significant first. The
ring buffer is the list of the bytes in it, the oldest first. Pushing to a full queue and popping
from an empty one fail an assertion.
-/

namespace Inferno.Fifo32

open Common List

structure Fifo8 where
  data : List UInt8
  capacity : ℕ

variable (f : Fifo8)

def fifo8Push (b : UInt8) : Option Fifo8 :=
  if f.data.length < f.capacity then some { f with data := f.data ++ [b] } else none

def fifo8Pop : Option (UInt8 × Fifo8) :=
  match f.data with
  | [] => none
  | b :: rest => some (b, { f with data := rest })

/-- `fifo32_create`: an empty queue for that many words, whose bytes are counted in 32 bits. -/
def fifo32Create (capacity : ℕ) : Fifo8 := ⟨[], capacity * 4 % 2^32⟩

def fifo32Reset : Fifo8 := { f with data := [] }

def fifo32IsEmpty : Bool := f.data.isEmpty

def fifo32IsFull (f : Fifo8) : Bool := f.capacity - f.data.length < 4

def fifo32NumUsed : ℕ := (f.data.length + 3) / 4

def fifo32NumFree (f : Fifo8) : ℕ := (f.capacity - f.data.length + 3) / 4

def fifo32Push (data : BitVec 32) : Option Fifo8 :=
  (leBytes 4 data.toNat).foldlM fifo8Push f

def fifo32Pop : Option (BitVec 32 × Fifo8) := do
  let (b0, f) ← fifo8Pop f
  let (b1, f) ← fifo8Pop f
  let (b2, f) ← fifo8Pop f
  let (b3, f) ← fifo8Pop f
  return (BitVec.ofNat 32 (ofLe [b0, b1, b2, b3]), f)

/-- The queue holds `n` words and has room for `room`. -/
structure Words (room n : ℕ) (f : Fifo8) : Prop where
  length : f.data.length = 4 * n
  capacity : f.capacity = 4 * room
  le : n ≤ room

theorem fifo8Push_exactly (b : UInt8) :
    Exactly (fifo8Push f b) (f.data.length < f.capacity) (· = ⟨f.data ++ [b], f.capacity⟩) := by
  unfold fifo8Push
  split_ifs with h
  · exact exactly_some h rfl
  · exact exactly_none h

theorem foldlM_fifo8Push {bs : List UInt8} {f : Fifo8} (hf : f.data.length ≤ f.capacity) :
    Exactly (bs.foldlM fifo8Push f) (f.data.length + bs.length ≤ f.capacity)
      (· = ⟨f.data ++ bs, f.capacity⟩) := by
  induction bs generalizing f with
  | nil => exact exactly_some hf (by simp)
  | cons b bs ih =>
    have hfirst := (fifo8Push_exactly f b).imp Iff.rfl fun h f' hf' =>
      (⟨hf', h⟩ : f' = ⟨f.data ++ [b], f.capacity⟩ ∧ f.data.length < f.capacity)
    have hnext : ∀ f', f' = ⟨f.data ++ [b], f.capacity⟩ ∧ f.data.length < f.capacity →
        Exactly (bs.foldlM fifo8Push f') (f.data.length + (bs.length + 1) ≤ f.capacity)
          (· = ⟨f.data ++ b :: bs, f.capacity⟩) := by
      rintro f' ⟨rfl, hlt⟩
      refine (ih (by simpa using Nat.succ_le_of_lt hlt)).imp ?_ ?_
      · simp only [length_append, length_singleton]
        omega
      · rintro - f'' rfl
        simp
    refine (hfirst.bind hnext).imp ?_ fun _ _ h => h
    rw [length_cons]
    omega

variable {room n : ℕ} {f : Fifo8}

section

variable (h : Words room n f) (ws : List (BitVec 32))

include h

theorem fifo32Push_exactly {w : BitVec 32} :
    Exactly (fifo32Push f w) (n + 1 ≤ room) (Words room (n + 1)) := by
  have hroom : f.data.length ≤ f.capacity := by
    have hle := h.le
    rw [h.length, h.capacity]
    omega
  refine (foldlM_fifo8Push hroom).imp ?_ ?_
  · rw [h.length, h.capacity, leBytes_length]
    omega
  · rintro hle f' rfl
    rw [h.length, h.capacity, leBytes_length] at hle
    refine ⟨?_, h.capacity, by omega⟩
    rw [length_append, h.length, leBytes_length]
    omega

theorem foldlM_fifo32Push : Exactly (ws.foldlM fifo32Push f) (n + ws.length ≤ room)
      (Words room (n + ws.length)) := by
  induction ws generalizing n f with
  | nil => exact exactly_some h.le h
  | cons w ws ih =>
    rw [length_cons]
    refine ((fifo32Push_exactly h).bind fun f' hf' => ih hf').imp ?_ ?_
    · omega
    · rintro - f' hf'
      rwa [Nat.add_assoc, Nat.add_comm 1] at hf'

theorem fifo32IsEmpty_iff : fifo32IsEmpty f = true ↔ n = 0 := by
  rw [fifo32IsEmpty, List.isEmpty_iff, ← length_eq_zero_iff, h.length]
  omega

theorem fifo32IsFull_iff : fifo32IsFull f = true ↔ n = room := by
  have hle := h.le
  rw [fifo32IsFull, decide_eq_true_iff, h.length, h.capacity]
  omega

theorem fifo32NumUsed_words : fifo32NumUsed f = n := by
  rw [fifo32NumUsed, h.length]
  omega

theorem fifo32NumFree_words : fifo32NumFree f = room - n := by
  rw [fifo32NumFree, h.length, h.capacity]
  omega

end

theorem fifo32Pop_words (h : Words room (n + 1) f) :
    ∃ w f', fifo32Pop f = some (w, f') ∧ Words room n f' := by
  obtain ⟨data, cap⟩ := f
  obtain ⟨hlen, hcap, hle⟩ := h
  match data, hlen with
  | b0 :: b1 :: b2 :: b3 :: rest, hlen =>
    refine ⟨_, _, rfl, ?_, hcap, by omega⟩
    simp only [length_cons] at hlen
    show rest.length = 4 * n
    omega

theorem fifo32Reset_words (h : Words room n f) : Words room 0 (fifo32Reset f) :=
  ⟨rfl, h.capacity, Nat.zero_le _⟩

/-! ## Runs -/

/-- The operations of a queue. -/
inductive Op (α : Type)
  | push (a : α)
  | pop
  | reset

/-- An operation of a queue that is given by its functions, with what it takes out. -/
def opStep {α σ : Type} (push : σ → α → Option σ) (pop : σ → Option (α × σ)) (reset : σ → σ)
    (s : σ) : Op α → Option (Option α × σ)
  | .push a => (push s a).map (none, ·)
  | .pop => (pop s).map (Prod.map some id)
  | .reset => some (none, reset s)

def enqueue (room : ℕ) (ws : List (BitVec 32)) (w : BitVec 32) : Option (List (BitVec 32)) :=
  if ws.length < room then some (ws ++ [w]) else none

def dequeue : List (BitVec 32) → Option (BitVec 32 × List (BitVec 32))
  | [] => none
  | w :: ws => some (w, ws)

/-- The queue of bytes of a queue of words. -/
def encode (room : ℕ) (ws : List (BitVec 32)) : Fifo8 :=
  ⟨ws.flatMap fun w => leBytes 4 w.toNat, room * 4⟩

theorem encode_enqueue (ws : List (BitVec 32)) (w : BitVec 32) :
    (enqueue room ws w).map (encode room) = fifo32Push (encode room ws) w := by
  have hlength : (encode room ws).data.length = ws.length * 4 := by simp [encode]
  have hcapacity : (encode room ws).capacity = room * 4 := rfl
  unfold enqueue
  split_ifs with hroom
  · have hpush : Exactly (fifo32Push (encode room ws) w) _ _ := foldlM_fifo8Push (by omega)
    obtain ⟨f, hsome, rfl⟩ := hpush.exists_some (by rw [leBytes_length]; omega)
    rw [hsome]
    simp [encode]
  · -- A full queue does not take the first byte.
    have hfull : ∀ b, fifo8Push (encode room ws) b = none := fun b => if_neg (by omega)
    show none = (fifo8Push _ _).bind _
    rw [hfull]
    rfl

theorem encode_dequeue (ws : List (BitVec 32)) :
    (dequeue ws).map (Prod.map id (encode room)) = fifo32Pop (encode room ws) := by
  cases ws with
  | nil => rfl
  | cons w ws =>
    have hpop : fifo32Pop (encode room (w :: ws)) =
        some (BitVec.ofNat 32 (ofLe (leBytes 4 w.toNat)), encode room ws) := rfl
    rw [hpop, ofNat_ofLe_leBytes (by decide)]
    rfl

/-- Over all sequences of operations, a `Fifo32` is a queue of words with a bound: it fails an
assertion exactly where that does, and gives the same words. With up to `2^29` words neither the
bytes nor a place in the ring leave the 32 bits. -/
theorem replies_fifo32 {room : ℕ} (hroom : room ≤ 2^29) (ops : List (Op (BitVec 32))) :
    replies (opStep fifo32Push fifo32Pop fifo32Reset) (fifo32Create room) ops =
      (replies (opStep (enqueue room) dequeue fun _ => []) [] ops).map
        (Prod.map id (encode room)) := by
  have hcreate : fifo32Create room = encode room [] := by
    rw [fifo32Create, Nat.mod_eq_of_lt (by omega)]
    rfl
  rw [hcreate]
  refine (replies_map (encode room) ?_ [] ops).symm
  intro ws op
  cases op with
  | push w =>
    rw [opStep, opStep, ← encode_enqueue, Option.map_map, Option.map_map]
    rfl
  | pop =>
    rw [opStep, opStep, ← encode_dequeue, Option.map_map, Option.map_map]
    rfl
  | reset => rfl

/-- A queue for one word refuses a second one, and gives the first one back. -/
theorem replies_fifo32_one :
    (replies (opStep fifo32Push fifo32Pop fifo32Reset) (fifo32Create 1)
      [.push 5, .pop]).map Prod.fst = some [none, some 5] ∧
    replies (opStep fifo32Push fifo32Pop fifo32Reset) (fifo32Create 1) [.push 5, .push 6] =
      none := by
  rw [replies_fifo32 (by decide), replies_fifo32 (by decide)]
  exact ⟨rfl, rfl⟩

end Inferno.Fifo32
