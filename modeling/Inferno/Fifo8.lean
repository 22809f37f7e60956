import Inferno.Common.Ring
import Inferno.Fifo32

/-!
# Byte queues as rings

`Fifo8` of `util/fifo8.c` as the ring buffer that it is. As a queue it is the list of bytes of
`Inferno.Fifo32`, which its operations follow step by step (`view_fifo8Push`, `view_fifo8Pop`), the
assertions included.
-/

namespace Inferno.Fifo8

open Common

/-- `Fifo8`, a ring of bytes. -/
structure RingFifo8 extends RingBuffer UInt8 where
  /-- The sum of `head` and `num` fits 32 bits. -/
  capacity_le : capacity ≤ 2^31

/-- `fifo8_create`: an empty queue, in an array that is not initialised. -/
def fifo8Create (data : ℕ → UInt8) (capacity : ℕ) (h : 0 < capacity) (hle : capacity ≤ 2^31) :
    RingFifo8 :=
  ⟨⟨data, capacity, 0, 0, h, Nat.zero_le _⟩, hle⟩

variable (f : RingFifo8)

def fifo8Reset : RingFifo8 := ⟨f.clear, f.capacity_le⟩

variable (b : UInt8)

def fifo8Push : Option RingFifo8 :=
  if h : f.num < f.capacity then some ⟨f.push b h, f.capacity_le⟩ else none

def fifo8Pop : Option (UInt8 × RingFifo8) :=
  if f.num > 0 then some (f.data f.head, ⟨f.pop, f.capacity_le⟩) else none

def fifo8IsEmpty : Bool := f.num = 0

def fifo8NumUsed : ℕ := f.num

/-- A ring as a queue. -/
def view : Fifo32.Fifo8 := ⟨f.contents, f.capacity⟩

theorem view_fifo8Push : (fifo8Push f b).map view = Fifo32.fifo8Push (view f) b := by
  unfold fifo8Push Fifo32.fifo8Push
  have hlength : (view f).data.length = f.num := f.length_contents
  rw [hlength]
  split_ifs with h h' h'
  · rw [Option.map_some, view, f.contents_push]
    rfl
  · exact absurd h h'
  · exact absurd h' h
  · rfl

theorem view_fifo8Pop : (fifo8Pop f).map (Prod.map id view) = Fifo32.fifo8Pop (view f) := by
  unfold fifo8Pop Fifo32.fifo8Pop
  split_ifs with h
  · have hcontents : (view f).data = f.data f.head :: f.pop.contents := f.contents_pop h
    rw [hcontents]
    rfl
  · have hcontents : (view f).data = [] := by
      rw [← List.length_eq_zero_iff]
      exact f.length_contents.trans (Nat.eq_zero_of_not_pos h)
    rw [hcontents]
    rfl

/-- A byte can be pushed when there is room for it, and is behind the others then. -/
theorem fifo8Push_exactly : Exactly (fifo8Push f b) (f.num + 1 ≤ f.capacity) fun f' =>
      f'.contents = f.contents ++ [b] ∧ f'.capacity = f.capacity := by
  have hlength : (view f).data.length = f.num := f.length_contents
  have hpush := Fifo32.fifo8Push_exactly (view f) b
  rw [← view_fifo8Push, hlength] at hpush
  constructor
  · intro f' hf'
    obtain ⟨hok, hview⟩ := hpush.of_some (Option.map_eq_some_iff.mpr ⟨f', hf', rfl⟩)
    exact ⟨hok, congrArg Fifo32.Fifo8.data hview, congrArg Fifo32.Fifo8.capacity hview⟩
  · intro hnone
    exact hpush.of_none (Option.map_eq_none_iff.mpr hnone)

theorem fifo8Pop_eq_some {f f' : RingFifo8} {b : UInt8} (h : fifo8Pop f = some (b, f')) :
    f.contents = b :: f'.contents ∧ f'.capacity = f.capacity := by
  unfold fifo8Pop at h
  split_ifs at h with hpos
  obtain ⟨rfl, rfl⟩ := Prod.mk.inj (Option.some.inj h)
  exact ⟨f.contents_pop hpos, rfl⟩

/-- Over all sequences of operations, a ring of bytes and the list of them fail the same assertions
and give the same bytes. -/
theorem replies_fifo8 (f : RingFifo8) (ops : List (Fifo32.Op UInt8)) :
    (replies (Fifo32.opStep fifo8Push fifo8Pop fifo8Reset) f ops).map (Prod.map id view) =
      replies (Fifo32.opStep Fifo32.fifo8Push Fifo32.fifo8Pop Fifo32.fifo32Reset) (view f) ops := by
  refine replies_map view ?_ f ops
  intro f op
  cases op with
  | push b =>
    rw [Fifo32.opStep, Fifo32.opStep, ← view_fifo8Push, Option.map_map, Option.map_map]
    rfl
  | pop =>
    rw [Fifo32.opStep, Fifo32.opStep, ← view_fifo8Pop, Option.map_map, Option.map_map]
    rfl
  | reset => rfl

end Inferno.Fifo8
