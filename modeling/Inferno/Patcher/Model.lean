import Inferno.Common.Bytes

/-!
# The binary patcher

`ck_patcher_find_callback_ctx` and `ck_patcher_find_replace` of
`hw/arm/apple-silicon/patcher.c`. The first looks for a pattern in a range of host memory, at the
multiples of an alignment, and hands every match to a callback until the callback is satisfied; the
second is the first with a callback that overwrites a part of the match.

Memory is a function from addresses to bytes, of which the range is a part. The callback can do what
it likes with the state of the host, which is a type of its own here; `mem` is the memory in it.
Besides their result the functions return the addresses that were compared with the pattern and the
matches handed to the callback. A failed assertion has no result, and what is reported to the user
is the kind of the message only.

Objects of the host have at most `2^63` bytes, so the offset in the range does not wrap when the
alignment is added to it.
-/

namespace Inferno.Patcher

open Common

/-- `CKPatcherRange`, as far as the search uses it. -/
structure CKPatcherRange where
  length : ℕ
  /-- The host address of the first one. -/
  ptr : ℕ

/-- A pattern of `len` bytes, with an optional mask of as many. -/
structure Pattern where
  /-- The bytes that are looked for. -/
  pattern : List UInt8
  /-- The bits of them that count, `none` for `NULL`. -/
  mask : Option (List UInt8)
  mask_length : ∀ m ∈ mask, m.length = pattern.length

namespace Pattern

variable (p : Pattern)

def len : ℕ := p.pattern.length

/-- The comparison that the byte at each position has to pass. -/
def tests : List (UInt8 → Bool) :=
  match p.mask with
  | none => p.pattern.map fun b m => m == b
  | some mask => List.zipWith (fun b k m => (m &&& k) == b) p.pattern mask

/-- No byte of the pattern has a bit outside of its mask, which is asserted before a masked
search. -/
def masked : Bool :=
  match p.mask with
  | none => true
  | some mask => (List.zipWith (fun b k => (b &&& k) == b) p.pattern mask).all id

end Pattern

/-- The loop over a candidate match: the addresses that are compared, up to the first difference,
and whether there is none. -/
def compareAt (m : ℕ → UInt8) : ℕ → List (UInt8 → Bool) → List ℕ × Bool
  | _, [] => ([], true)
  | a, test :: tests =>
    if test (m a) then
      let r := compareAt m (a + 1) tests
      (a :: r.1, r.2)
    else ([a], false)

/-- The messages of the search. -/
inductive Report where
  | tooBig
  | applied
  | notApplied
  deriving DecidableEq

/-- What a search returns, and what it did. -/
structure Outcome (σ : Type) where
  state : σ
  result : Bool
  report : Report
  /-- The addresses that were compared with the pattern, in order. -/
  examined : List ℕ
  /-- The matches handed to the callback, in order. -/
  matched : List ℕ

/-- The offsets that the loop goes through: the multiples of `align` below the length. -/
def offsets (range : CKPatcherRange) (align : ℕ) : List ℕ :=
  (List.range ((range.length + align - 1) / align)).map (· * align)

section

variable {σ : Type} (mem : σ → ℕ → UInt8) (range : CKPatcherRange) (tests : List (UInt8 → Bool))
  (callback : σ → ℕ → σ × Bool)

/-- The loop over the offsets, which ends when the callback is satisfied. -/
def scan : List ℕ → σ → Outcome σ
  | [], s => ⟨s, false, .notApplied, [], []⟩
  | i :: is, s =>
    let ptr := range.ptr + i
    let r := compareAt (mem s) ptr tests
    if r.2 then
      let c := callback s ptr
      if c.2 then ⟨c.1, true, .applied, r.1, [ptr]⟩
      else
        let o := scan is c.1
        { o with examined := r.1 ++ o.examined, matched := ptr :: o.matched }
    else
      let o := scan is s
      { o with examined := r.1 ++ o.examined }

end

section

variable {σ : Type} (mem : σ → ℕ → UInt8) (range : CKPatcherRange) (p : Pattern) (align : ℕ)

/-- An alignment of zero stands for one. -/
def effectiveAlign : ℕ := if align = 0 then 1 else align

/-- `ck_patcher_find_callback_ctx`. The length of the pattern is asserted to be a multiple of the
alignment, and its bytes to be masked. -/
def ckPatcherFindCallbackCtx (callback : σ → ℕ → σ × Bool) (s : σ) : Option (Outcome σ) :=
  if align ≠ 0 ∧ p.len % align ≠ 0 then none
  else if range.length < p.len then some ⟨s, false, .tooBig, [], []⟩
  else if ¬ p.masked then none
  else some (scan mem range p.tests callback (offsets range (effectiveAlign align)) s)

/-- `CKPatcherFindReplaceContext`. -/
structure Replacement where
  replacement : List UInt8
  /-- The bits of the old bytes to keep, `none` for `NULL`. -/
  mask : Option (List UInt8)
  offset : ℕ
  /-- There is a mask byte for each byte to put in. -/
  mask_length : ∀ m ∈ mask, m.length = replacement.length

section

variable (r : Replacement) (m : ℕ → UInt8) (buffer : ℕ)

/-- `ck_patcher_find_replace_callback`: the bytes are put into the match, over those that are there
or into their masked-out bits. -/
def ckPatcherFindReplaceCallback : (ℕ → UInt8) × Bool :=
  let bytes := match r.mask with
    | none => r.replacement
    | some mask =>
      List.zipWith (· ||| ·)
        (List.zipWith (· &&& ·) (load m (buffer + r.offset) r.replacement.length) mask)
        r.replacement
  (Store.apply m ⟨buffer + r.offset, bytes⟩, true)

/-- `ck_patcher_find_replace`. That the replacement fits the pattern is asserted of a sum of
`size_t`. -/
def ckPatcherFindReplace : Option (Outcome (ℕ → UInt8)) :=
  if ¬ (r.offset + r.replacement.length) % 2^64 ≤ p.len then none
  else ckPatcherFindCallbackCtx id range p align (ckPatcherFindReplaceCallback r) m

end

end

end Inferno.Patcher
