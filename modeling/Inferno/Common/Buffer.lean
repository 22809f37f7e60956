import Inferno.Common.Bytes
import Inferno.Common.Outcome

/-!
# Buffers of a fixed length

A buffer is the list of its bytes. A read or a write that is not inside the buffer fails, so that a
program over a buffer succeeds exactly when all of its accesses are inside (`exactly_fetch`,
`exactly_put`, `exactly_putAll`), and the length of the buffer does not change.
-/

namespace Inferno.Common

open List Option

variable (buf : List UInt8)

/-- The `n` bytes at `off`, if they are inside the buffer. -/
def fetch (off n : ℕ) : Option (List UInt8) :=
  if off + n ≤ buf.length then some ((buf.drop off).take n) else none

/-- The buffer with a store performed, if it is inside. -/
def put (w : Store) : Option (List UInt8) :=
  if w.stop ≤ buf.length then some (buf.take w.off ++ w.bytes ++ buf.drop w.stop) else none

/-- The buffer with a list of stores performed in order, if all of them are inside. -/
def putAll (ws : List Store) : Option (List UInt8) := ws.foldlM put buf

variable (buf : List UInt8)

/-- A read succeeds exactly if it is inside, and returns as many bytes as asked for. -/
theorem exactly_fetch (off n : ℕ) :
    Exactly (fetch buf off n) (off + n ≤ buf.length) fun bytes => bytes.length = n := by
  unfold fetch
  split_ifs with h
  · refine exactly_some h ?_
    rw [length_take, length_drop]
    omega
  · exact exactly_none h

/-- A write succeeds exactly if it is inside, and keeps the length of the buffer. -/
theorem exactly_put (w : Store) :
    Exactly (put buf w) (w.stop ≤ buf.length) fun buf' => buf'.length = buf.length := by
  unfold put
  split_ifs with h
  · refine exactly_some h ?_
    rw [length_append, length_append, length_take, length_drop]
    unfold Store.stop at *
    omega
  · exact exactly_none h

/-- Writes succeed exactly if all of them are inside. -/
theorem exactly_putAll (ws : List Store) :
    Exactly (putAll buf ws) (∀ w ∈ ws, w.stop ≤ buf.length) fun buf' =>
      buf'.length = buf.length := by
  induction ws generalizing buf with
  | nil => exact exactly_some (by simp) rfl
  | cons w ws ih =>
    have hrest : ∀ buf', buf'.length = buf.length →
        Exactly (putAll buf' ws) (∀ v ∈ ws, v.stop ≤ buf.length) fun buf'' =>
          buf''.length = buf.length := by
      intro buf' hlen
      have := ih buf'
      rwa [hlen] at this
    have hboth : Exactly (put buf w >>= fun buf' => putAll buf' ws)
        (w.stop ≤ buf.length ∧ ∀ v ∈ ws, v.stop ≤ buf.length) fun buf'' =>
          buf''.length = buf.length := (exactly_put buf w).bind hrest
    exact hboth.imp (by rw [forall_mem_cons]) fun _ _ h => h

/-! ## Single bytes -/

section Bytes

variable {buf}

section

variable {w : Store} {buf' : List UInt8} (h : put buf w = some buf')

include h

/-- Bytes that are not written stay as they are. -/
theorem getElem?_put {k : ℕ} (hk : k < w.off ∨ w.stop ≤ k) : buf'[k]? = buf[k]? := by
  unfold put at h
  split_ifs at h with hinside
  obtain rfl := some.inj h
  have hoff : (buf.take w.off).length = w.off := by
    rw [length_take]
    unfold Store.stop at hinside
    omega
  rw [append_assoc]
  rcases hk with hk | hk
  · rw [getElem?_append_left (by omega), getElem?_take, if_pos hk]
  · have hstop : (buf.take w.off ++ w.bytes).length = w.stop := by
      rw [length_append, hoff, Store.stop]
    rw [← append_assoc, getElem?_append_right (by omega), hstop, getElem?_drop,
      Nat.add_sub_cancel' hk]

/-- Bytes that are written are read. -/
theorem getElem?_put_add {i : ℕ} (hi : i < w.bytes.length) : buf'[w.off + i]? = w.bytes[i]? := by
  unfold put at h
  split_ifs at h with hinside
  obtain rfl := some.inj h
  have hoff : (buf.take w.off).length = w.off := by
    rw [length_take]
    unfold Store.stop at hinside
    omega
  rw [append_assoc, getElem?_append_right (by omega), hoff, Nat.add_sub_cancel_left,
    getElem?_append_left hi]

end

variable {ws : List Store}

/-- Bytes that none of several writes concerns stay as they are. -/
theorem getElem?_putAll {buf' : List UInt8} (h : putAll buf ws = some buf') {k : ℕ}
    (hk : ∀ w ∈ ws, k < w.off ∨ w.stop ≤ k) : buf'[k]? = buf[k]? := by
  induction ws generalizing buf with
  | nil => rw [some.inj h]
  | cons w ws ih =>
    obtain ⟨hw, hws⟩ := forall_mem_cons.mp hk
    obtain ⟨buf₁, hfirst, hrest⟩ := bind_eq_some_iff.mp h
    exact (ih hrest hws).trans (getElem?_put hfirst hw)

/-- A byte that is written last is read. -/
theorem getElem?_putAll_last {off : ℕ} {b : UInt8} {buf' : List UInt8}
    (h : putAll buf (ws ++ [⟨off, [b]⟩]) = some buf') : buf'[off]? = some b := by
  rw [putAll, foldlM_append] at h
  obtain ⟨buf₁, -, hlast⟩ := bind_eq_some_iff.mp h
  obtain ⟨buf₂, hput, hnil⟩ := bind_eq_some_iff.mp hlast
  obtain rfl := some.inj hnil
  exact getElem?_put_add hput (w := ⟨off, [b]⟩) Nat.one_pos

end Bytes

/-! ## Buffers in parts -/

/-- The middle part of a buffer is what is read from where it starts. -/
theorem fetch_middle (pre mid post : List UInt8) {off n : ℕ} (hoff : off = pre.length)
    (hn : n = mid.length) : fetch (pre ++ (mid ++ post)) off n = some mid := by
  subst hoff hn
  have hinside : pre.length + mid.length ≤ (pre ++ (mid ++ post)).length := by
    rw [length_append, length_append]
    omega
  rw [fetch, if_pos hinside, drop_left, take_left]

/-- The middle part of a buffer is replaced by what is written to where it starts. -/
theorem put_middle (pre mid post bytes : List UInt8) (off : ℕ) (hoff : off = pre.length)
    (hlen : bytes.length = mid.length) :
    put (pre ++ (mid ++ post)) ⟨off, bytes⟩ = some (pre ++ (bytes ++ post)) := by
  subst hoff
  have hstop : (⟨pre.length, bytes⟩ : Store).stop = (pre ++ mid).length := by
    rw [Store.stop, length_append, hlen]
  have hinside : (⟨pre.length, bytes⟩ : Store).stop ≤ (pre ++ (mid ++ post)).length := by
    rw [hstop, length_append, length_append, length_append]
    omega
  rw [put, if_pos hinside, hstop, take_left, ← append_assoc pre mid, drop_left, append_assoc]

/-- Bytes written to the start of a part that is zero. -/
theorem put_zeros (pre bytes : List UInt8) (off : ℕ) {n : ℕ} (hoff : off = pre.length)
    (hlen : bytes.length ≤ n) : put (pre ++ replicate n 0) ⟨off, bytes⟩ =
      some (pre ++ (bytes ++ replicate (n - bytes.length) 0)) := by
  have hsplit : (replicate n 0 : List UInt8) =
      replicate bytes.length 0 ++ replicate (n - bytes.length) 0 := by
    rw [← replicate_add, Nat.add_sub_cancel' hlen]
  rw [hsplit]
  exact put_middle pre _ _ bytes off hoff length_replicate.symm

end Inferno.Common
