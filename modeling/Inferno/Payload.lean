import Inferno.Common.BigEndian

/-!
# Payloads of boot files

`decompress_lzss` of `hw/arm/apple-silicon/lzss.h`, as `extract_im4p_payload` calls it, and the
validation in `apple_boot_load_trustcache_file` of `boot.c`.

The decoder is bounded by its input alone. The byte number `m` that it writes may come from the
place `p` of the window exactly when `p` is below `N - F + m`, since the places from there on have
not been written yet (`Filled`); with the two sizes of the header this is all that decides whether a
payload is decoded in bounds (`inBounds_iff`). A trust cache is as long as it says exactly when the
length that it is compared with does not wrap (`trustcache_sound_iff`).
-/

namespace Inferno.Payload

open Common List Function Nat

/-! ## The decoder -/

/-- A byte that is written to `dst`: one of the input, or what the window has at a place. -/
inductive Byte where
  | input (c : UInt8)
  | window (p : BitVec 12)

/-- The loop over the input. The flags are those after the shift. -/
def bytes : ℕ → List UInt8 → List Byte
  | _, [] => []
  | flags, c :: src =>
    if flags &&& 0x100 = 0 then bytes (c.toNat ||| 0xFF00) src
    else if flags &&& 1 ≠ 0 then .input c :: bytes (flags >>> 1) src
    else
      match src with
      | [] => []
      | j :: src =>
        let i := BitVec.ofNat 12 (c.toNat ||| (j.toNat &&& 0xF0) <<< 4)
        (range ((j.toNat &&& 0xF) + 3)).map (fun k => .window (i + .ofNat 12 k)) ++
          bytes (flags >>> 1) src

/-- `text_buf`, `r` and what is in `dst`. What is not initialised is `none`. -/
structure Window where
  textBuf : BitVec 12 → Option UInt8
  r : BitVec 12
  dst : List (Option UInt8)

namespace Window

/-- `N - F` places have been cleared. -/
def start : Window := ⟨fun p => if p.toNat < 4078 then some 32 else none, 4078, []⟩

variable (w : Window)

/-- A byte is written to `dst` and to the window. -/
def emit (c : Option UInt8) : Window := ⟨update w.textBuf w.r c, w.r + 1, w.dst ++ [c]⟩

def put : Byte → Window
  | .input c => w.emit (some c)
  | .window p => w.emit (w.textBuf p)

/-- All that was written was initialised, and the places that are not are those behind the ones that
have been written. -/
structure Filled : Prop where
  r : w.r = .ofNat 12 (4078 + w.dst.length)
  dst : none ∉ w.dst
  textBuf : ∀ p, w.textBuf p = none ↔ 4078 + w.dst.length ≤ p.toNat

theorem filled_start : start.Filled where
  r := rfl
  dst := not_mem_nil
  textBuf p := by simp [start]

variable {w}

theorem Filled.emit_some (h : w.Filled) (c : UInt8) : (w.emit (some c)).Filled where
  r := by
    rw [emit, h.r, length_append]
    exact (BitVec.ofNat_add _ 1).symm
  dst := by simp [emit, h.dst]
  textBuf p := by
    have hr : w.r.toNat = (4078 + w.dst.length) % 4096 := by rw [h.r, BitVec.toNat_ofNat]
    simp only [emit, update_apply, length_append, length_singleton]
    split_ifs with hp
    · rw [hp]
      simp only [false_iff]
      omega
    · have hne : p.toNat ≠ w.r.toNat := fun heq => hp (BitVec.eq_of_toNat_eq heq)
      rw [h.textBuf]
      omega

/-- What is not initialised is there to stay. -/
theorem none_mem_foldl (h : none ∈ w.dst) (bs : List Byte) : none ∈ (bs.foldl put w).dst := by
  induction bs generalizing w with
  | nil => exact h
  | cons b bs ih =>
    refine ih ?_
    cases b <;> exact mem_append_left _ h

/-- From a filled window the bytes are initialised exactly when each place that is read has been
written. -/
theorem Filled.none_notMem_iff (h : w.Filled) (bs : List Byte) : none ∉ (bs.foldl put w).dst ↔
      ∀ m p, bs[m]? = some (.window p) → p.toNat < 4078 + w.dst.length + m := by
  induction bs generalizing w with
  | nil => simp [h.dst]
  | cons b bs ih =>
    have hrest : ∀ c : UInt8, none ∉ (bs.foldl put (w.emit (some c))).dst ↔
        ∀ m p, (b :: bs)[m + 1]? = some (.window p) → p.toNat < 4078 + w.dst.length + (m + 1) := by
      intro c
      rw [ih (h.emit_some c), emit]
      simp [add_assoc, add_comm 1]
    rw [foldl_cons, ← and_forall_add_one]
    cases b with
    | input c => simp [put, hrest]
    | window q =>
      have hq := h.textBuf q
      cases hc : w.textBuf q with
      | none =>
        refine iff_of_false (not_not.mpr (none_mem_foldl ?_ bs)) fun hall => ?_
        · simp [put, emit, hc]
        · exact absurd (hq.mp hc) (not_le.mpr (hall.1 q rfl))
      | some c =>
        rw [put, hc, hrest]
        have hlt : q.toNat < 4078 + w.dst.length := by
          rw [← not_le, ← hq, hc]
          simp
        simp [hlt]

end Window

/-! ## The call -/

section

variable (mem : ℕ → UInt8)

/-- A big-endian word of the header. -/
def word (off : ℕ) : ℕ := ofBe ((range 4).map fun k => mem (off + k))

def uncompressedSize : ℕ := word mem 12

def compressedSize : ℕ := word mem 16

/-- The bytes that are decoded, behind the 0x180 bytes of the header. All of them are read. -/
def src : List UInt8 := (range (compressedSize mem)).map fun k => mem (0x180 + k)

/-- `decompress_lzss`, with the payload at 0. -/
def decompress : Window := (bytes 0 (src mem)).foldl .put .start

/-- A payload is decoded in bounds: what is read is inside its `len` bytes, what is written is
inside `decode_buffer`, and all of it was initialised. -/
structure InBounds (len : ℕ) : Prop where
  reads : ∀ k < compressedSize mem, 0x180 + k < len
  writes : (decompress mem).dst.length ≤ uncompressedSize mem
  determined : none ∉ (decompress mem).dst

theorem length_decompress : (decompress mem).dst.length = (bytes 0 (src mem)).length := by
  have hput : ∀ bs w, (foldl Window.put w bs).dst.length = w.dst.length + bs.length := by
    intro bs
    induction bs with
    | nil => exact fun _ => rfl
    | cons b bs ih =>
      intro w
      rw [foldl_cons, ih, length_cons]
      have hlen : (w.put b).dst.length = w.dst.length + 1 := by cases b <;> exact length_append
      omega
  rw [decompress, hput]
  exact zero_add _

/-- The payload has the compressed bytes, they give no more than `uncompressed_size` bytes, and no
byte is taken from a place that has not been written. -/
theorem inBounds_iff (len : ℕ) : InBounds mem len ↔
    (compressedSize mem = 0 ∨ 0x180 + compressedSize mem ≤ len) ∧
    (bytes 0 (src mem)).length ≤ uncompressedSize mem ∧
    ∀ m p, (bytes 0 (src mem))[m]? = some (.window p) → p.toNat < 4078 + m := by
  have hreads : (∀ k < compressedSize mem, 0x180 + k < len) ↔
      compressedSize mem = 0 ∨ 0x180 + compressedSize mem ≤ len := by
    refine ⟨fun h => ?_, fun h k hk => by omega⟩
    rcases Nat.eq_zero_or_pos (compressedSize mem) with hz | hpos
    · exact .inl hz
    · have hlast := h _ (sub_lt hpos one_pos)
      omega
  have hdst := Window.filled_start.none_notMem_iff (bytes 0 (src mem))
  rw [← hreads, ← length_decompress]
  exact ⟨fun h => ⟨h.reads, h.writes, hdst.mp h.determined⟩, fun h => ⟨h.1, h.2.1, hdst.mpr h.2.2⟩⟩

end

/-- Three bytes, for one byte of output. -/
def greedy : ℕ → UInt8
  | 15 => 1
  | 19 => 3
  | 0x181 => 0xEE
  | 0x182 => 0xFF
  | _ => 0

/-- They copy 18 bytes of the window that have not been written. -/
theorem not_inBounds : (decompress greedy).dst = replicate 18 none ∧ ¬ InBounds greedy 0x183 := by
  refine ⟨by decide +kernel, fun h => absurd h.writes (by decide +kernel)⟩

/-! ## Trust caches -/

inductive PayloadType where
  | trst | rtsc | raw | other
  deriving DecidableEq

/-- What `extract_im4p_payload` has found. -/
structure Extracted where
  payloadType : PayloadType
  data : List UInt8
  /-- `length` is a `uint32_t`. -/
  short : data.length < 2 ^ 32

namespace Extracted

variable (f : Extracted)

/-- `trustcache_data`. -/
def buffer : List UInt8 :=
  let size := (f.data.length + 8 + 0x3FFF) / 0x4000 * 0x4000
  leBytes 4 1 ++ leBytes 4 8 ++ f.data ++ replicate (size - (f.data.length + 8)) 0

/-- `trustcache_data[i]`. -/
def field (i : ℕ) : ℕ := ofLe ((f.buffer.drop (4 * i)).take 4)

def entryCount : ℕ := f.field 7

def entrySize : Option ℕ :=
  match f.field 2 with
  | 1 => some 22
  | 2 => some 24
  | _ => none

/-- `apple_boot_load_trustcache_file`. -/
def loadTrustcache : Option (List UInt8) :=
  if f.payloadType = .other then none
  else f.entrySize.bind fun size =>
    if f.data.length = (24 + f.entryCount * size) % 2 ^ 32 then some f.buffer else none

/-- What is accepted has exactly the entries that it says, and all of them are in the buffer. -/
def TrustcacheSound : Prop :=
  ∀ buf ∈ f.loadTrustcache, ∀ size ∈ f.entrySize, 24 + f.entryCount * size = f.data.length ∧
    ∀ i < f.entryCount, 8 + 24 + i * size + size ≤ buf.length

/-- A trust cache is sound exactly when it is rejected or its length does not wrap. -/
theorem trustcache_sound_iff : f.TrustcacheSound ↔ ∀ buf ∈ f.loadTrustcache,
    ∀ size ∈ f.entrySize, 24 + f.entryCount * size < 2 ^ 32 := by
  refine forall₂_congr fun buf hbuf => forall₂_congr fun size hsize => ?_
  rw [Option.mem_def] at hbuf hsize
  have hshort := f.short
  simp only [loadTrustcache, hsize, Option.bind_some] at hbuf
  split_ifs at hbuf with _ hlen
  obtain rfl := Option.some.inj hbuf
  refine ⟨fun h => h.1 ▸ hshort, fun h => ?_⟩
  rw [mod_eq_of_lt h] at hlen
  refine ⟨hlen.symm, fun i hi => ?_⟩
  have hentry : i * size + size ≤ f.entryCount * size := by
    rw [← succ_mul]
    exact mul_le_mul_right _ hi
  simp only [buffer, length_append, leBytes_length]
  omega

/-- A header that says 2^31 entries. -/
def wrapping : Extracted := ⟨.trst, leBytes 20 1 ++ leBytes 4 (2 ^ 31), by decide⟩

/-- It is accepted without any. -/
theorem not_trustcacheSound : ¬ wrapping.TrustcacheSound := by
  intro h
  have hload : wrapping.loadTrustcache = some wrapping.buffer := rfl
  have hwrap := (h _ hload 22 (by decide +kernel)).1
  revert hwrap
  decide +kernel

end Extracted

end Inferno.Payload
