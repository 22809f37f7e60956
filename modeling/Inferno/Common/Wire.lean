import Inferno.Common.Bytes

/-!
# Packed records and streams of messages

A packed record is written as its fields one after another, each with as many bytes as its width
says (`pack`), and read back from the widths (`unpack_pack`).

A stream of messages is read by a loop that takes one message after another off its front, until it
is stopped (`readAll`). `readAll_stream` is the rule for a stream that a writer has put together
from the frames of its messages: when reading the front of a stream that begins with a frame amounts
to accepting the message, and leaves what follows the frame, the loop comes by all the messages
(`acceptAll`), whatever decision it bases on their contents.
-/

namespace Inferno.Common

open List

/-! ## Packed records -/

variable (fields : List (ℕ × ℕ))

/-- The bytes of fields that are given by their widths and values. -/
def pack : List UInt8 := fields.flatMap fun f => leBytes f.1 f.2

/-- The values of fields of the given widths. -/
def unpack : List ℕ → List UInt8 → List ℕ
  | [], _ => []
  | k :: ks, bs => ofLe (bs.take k) :: unpack ks (bs.drop k)

/-- A packed record has the bytes of its fields. -/
theorem length_pack : (pack fields).length = (fields.map Prod.fst).sum := by
  simp [pack]

/-- Fields that fit their widths are read back. -/
theorem unpack_pack {fields : List (ℕ × ℕ)} (h : ∀ f ∈ fields, f.2 < 256 ^ f.1) :
    unpack (fields.map Prod.fst) (pack fields) = fields.map Prod.snd := by
  induction fields with
  | nil => rfl
  | cons f fields ih =>
    have hlen : (leBytes f.1 f.2).length = f.1 := leBytes_length _ _
    have hvalue : ofLe (leBytes f.1 f.2) = f.2 := by
      rw [ofLe_leBytes, Nat.mod_eq_of_lt (h f mem_cons_self)]
    have hrest := ih fun g hg => h g (mem_cons_of_mem _ hg)
    rw [pack] at hrest
    rw [pack, flatMap_cons, map_cons, unpack, take_left' hlen, drop_left' hlen,
      hvalue, hrest, map_cons]

/-! ## Streams of messages -/

section Streams

variable {β μ ν σ ε : Type*}

/-- The first `n` elements of a stream and what follows, where there are as many. -/
def takeExactly (n : ℕ) (bs : List β) : Option (List β × List β) :=
  if n ≤ bs.length then some (bs.take n, bs.drop n) else none

variable {bs : List β} {fuel : ℕ}

/-- What a stream begins with is taken off it. -/
theorem takeExactly_append {n : ℕ} (h : bs.length = n) (rest : List β) :
    takeExactly n (bs ++ rest) = some (bs, rest) := by
  have hle : n ≤ (bs ++ rest).length := by
    rw [length_append]
    omega
  rw [takeExactly, if_pos hle, take_left' h, drop_left' h]

/-- A loop that reads one message after another with `one`, until something stops it. -/
def readAll (one : σ → List β → Except ε (ν × σ × List β)) : ℕ → σ → List β → List ν × Option ε
  | 0, _, _ => ([], none)
  | fuel + 1, s, bs =>
    match one s bs with
    | .error e => ([], some e)
    | .ok (n, s, rest) =>
      let (ns, e) := readAll one fuel s rest
      (n :: ns, e)

/-- What comes of messages that are accepted one after another, where `accept` is told the frames
that are still to come. -/
def acceptAll (frame : μ → List β) (accept : σ → μ → List β → Except ε (ν × σ)) (eof : ε) :
    σ → List μ → List ν × Option ε
  | _, [] => ([], some eof)
  | s, m :: ms =>
    match accept s m (ms.flatMap frame) with
    | .error e => ([], some e)
    | .ok (n, s) =>
      let (ns, e) := acceptAll frame accept eof s ms
      (n :: ns, e)

variable {one : σ → List β → Except ε (ν × σ × List β)} {frame : μ → List β}
  {accept : σ → μ → List β → Except ε (ν × σ)} {eof : ε} {P : μ → Prop}

/-- The loop reads the messages whose frames make up the stream. -/
theorem readAll_stream (hframe : ∀ m, frame m ≠ []) (heof : ∀ s, one s [] = .error eof)
    (hone : ∀ s m rest, P m →
      one s (frame m ++ rest) = (accept s m rest).map fun r => (r.1, r.2, rest))
    {ms : List μ} (hms : ∀ m ∈ ms, P m) (s : σ) (hfuel : (ms.flatMap frame).length < fuel) :
    readAll one fuel s (ms.flatMap frame) = acceptAll frame accept eof s ms := by
  induction ms generalizing s fuel with
  | nil =>
    obtain ⟨fuel, rfl⟩ : ∃ n, fuel = n + 1 := ⟨fuel - 1, by omega⟩
    rw [flatMap_nil, readAll, heof, acceptAll]
  | cons m ms ih =>
    obtain ⟨fuel, rfl⟩ : ∃ n, fuel = n + 1 := ⟨fuel - 1, by omega⟩
    have hpos := length_pos_iff.mpr (hframe m)
    rw [flatMap_cons, length_append] at hfuel
    rw [flatMap_cons, readAll, hone s m _ (hms m mem_cons_self), acceptAll]
    cases accept s m (ms.flatMap frame) with
    | error e => rfl
    | ok r =>
      have hlen : (ms.flatMap frame).length < fuel := by omega
      have hrest := ih (fun m' hm' => hms m' (mem_cons_of_mem _ hm')) r.2 hlen
      simp [Except.map, hrest]

/-- Where every message is accepted, all of them are read, and the stream ends behind the last. -/
theorem acceptAll_of_ok {out : μ → ν} (h : ∀ s m rest, accept s m rest = .ok (out m, s)) (s : σ)
    (ms : List μ) : acceptAll frame accept eof s ms = (ms.map out, some eof) := by
  induction ms with
  | nil => rfl
  | cons m ms ih =>
    rw [acceptAll, h]
    dsimp only
    rw [ih, map_cons]

/-! ### Loops over any stream -/

variable (one) in
/-- The loop gets from a state and a stream to others. -/
inductive Reads : σ → List β → σ → List β → Prop
  /-- It is there. -/
  | here (s : σ) (bs : List β) : Reads s bs s bs
  /-- It reads a message and goes on. -/
  | next {s s₁ s' : σ} {bs bs₁ bs' : List β} {n : ν} (h : one s bs = .ok (n, s₁, bs₁))
    (hrest : Reads s₁ bs₁ s' bs') : Reads s bs s' bs'

section

variable {Bad : ε → Prop}
  (hshort : ∀ s bs n s' rest, one s bs = .ok (n, s', rest) → rest.length < bs.length) {s : σ}
  (hfuel : bs.length < fuel)

include hshort hfuel

/-- A loop whose messages are not empty is stopped by what it gets to. -/
theorem readAll_eq_some_iff {e : ε} : (readAll one fuel s bs).2 = some e ↔
      ∃ s' bs', Reads one s bs s' bs' ∧ one s' bs' = .error e := by
  induction fuel generalizing s bs with
  | zero => exact absurd hfuel (Nat.not_lt_zero _)
  | succ fuel ih =>
    rw [readAll]
    cases hone : one s bs with
    | error e' =>
      constructor
      · intro he
        exact ⟨s, bs, .here s bs, hone.trans (congrArg _ (Option.some.inj he))⟩
      · rintro ⟨s', bs', hreads, he⟩
        cases hreads with
        | here => exact congrArg some (Except.error.inj (hone.symm.trans he))
        | next h => exact absurd (hone.symm.trans h) nofun
    | ok r =>
      obtain ⟨n, s₁, bs₁⟩ := r
      have hlen := hshort s bs n s₁ bs₁ hone
      rw [ih (by omega)]
      constructor
      · rintro ⟨s', bs', hreads, he⟩
        exact ⟨s', bs', .next hone hreads, he⟩
      · rintro ⟨s', bs', hreads, he⟩
        cases hreads with
        | here => exact absurd (hone.symm.trans he) nofun
        | next h hrest =>
          obtain ⟨-, rfl, rfl⟩ := Prod.mk.inj (Except.ok.inj (hone.symm.trans h)) |>.imp id
            Prod.mk.inj
          exact ⟨s', bs', hrest, he⟩

/-- Such a loop is stopped. -/
theorem exists_readAll_eq_some : ∃ e, (readAll one fuel s bs).2 = some e := by
  induction fuel generalizing s bs with
  | zero => exact absurd hfuel (Nat.not_lt_zero _)
  | succ fuel ih =>
    rw [readAll]
    cases hone : one s bs with
    | error e => exact ⟨e, rfl⟩
    | ok r =>
      obtain ⟨n, s₁, bs₁⟩ := r
      have hlen := hshort s bs n s₁ bs₁ hone
      exact ih (by omega)

/-- Such a loop is stopped by nothing bad exactly if it gets to nothing bad. -/
theorem readAll_stop_iff : (∃ e, (readAll one fuel s bs).2 = some e ∧ ¬ Bad e) ↔
      ∀ s' bs', Reads one s bs s' bs' → ∀ e, one s' bs' = .error e → ¬ Bad e := by
  obtain ⟨e, he⟩ := exists_readAll_eq_some hshort (s := s) hfuel
  constructor
  · rintro ⟨e₁, he₁, hgood⟩ s' bs' hreads e₂ he₂
    have hstop := (readAll_eq_some_iff hshort hfuel).mpr ⟨s', bs', hreads, he₂⟩
    obtain rfl : e₁ = e₂ := Option.some.inj (he₁.symm.trans hstop)
    exact hgood
  · intro h
    obtain ⟨s', bs', hreads, he'⟩ := (readAll_eq_some_iff hshort hfuel).mp he
    exact ⟨e, he, h s' bs' hreads e he'⟩

end

end Streams

end Inferno.Common
