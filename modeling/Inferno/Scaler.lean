import Mathlib.Data.UInt

/-!
# The scaler

`hw/display/apple_scaler.c`: a frame is read to a buffer in the heap of the host, `pixman` scales it
to a second buffer, and that one is written back. Row `r` of an image has `width * 4` bytes, from
`r * stride` on. `pixman` is a parameter, and so is what the read by DMA stores at each byte.
-/

namespace Inferno.Scaler

/-- `AppleScalerFormat`. -/
inductive Format
  | bgra | rgba | yuv422 | yuv420 | unknown

/-- `apple_scaler_convert_hw_format`. -/
def convertHwFormat (hwFormat hwSwizzle : BitVec 32) : Format :=
  match hwFormat with
  | 0x100604 => .yuv422
  | 0x10060C => .yuv420
  | 0x1E00001 =>
    if hwSwizzle.extractLsb' 0 2 = 0 ∧ hwSwizzle.extractLsb' 8 2 = 1 ∧
        hwSwizzle.extractLsb' 16 2 = 2 ∧ hwSwizzle.extractLsb' 24 2 = 3 then .bgra
    else .rgba
  | _ => .unknown

/-- The registers of the source or the destination; base and stride are those of the luma. -/
structure Image where
  config : BitVec 32
  base : BitVec 32
  stride : BitVec 32
  swizzle : BitVec 32
  size : BitVec 32
  deriving DecidableEq

namespace Image

variable (im : Image)

def supported : Bool :=
  match convertHwFormat im.config im.swizzle with
  | .bgra | .rgba => true
  | _ => false

def width : ℕ := (im.size.extractLsb' 0 15).toNat

def height : ℕ := (im.size.extractLsb' 16 15).toNat

/-- Where byte `b` of row `r` is. -/
def offset (r b : ℕ) : ℕ := r * im.stride.toNat + b

/-- The size of the buffer, a `uint32_t`. -/
def bufSize : ℕ := im.offset im.height 0 % 2^32

/-- The rows lie in the buffer. -/
def RowsInside : Prop := ∀ r < im.height, ∀ b < im.width * 4, im.offset r b < im.bufSize

instance : Decidable im.RowsInside := inferInstanceAs (Decidable (∀ r < _, ∀ b < _, _))

/-- The rows do not overlap and the size does not wrap. -/
def InRange : Prop :=
  im.width = 0 ∨ im.height = 0 ∨
    im.width * 4 ≤ im.stride.toNat ∧ im.height * im.stride.toNat < 2^32

theorem rowsInside_iff : im.RowsInside ↔ im.InRange := by
  constructor
  · -- The last byte of the last row decides.
    intro h
    by_contra hout
    obtain ⟨hw, hh, hfit⟩ : im.width ≠ 0 ∧ im.height ≠ 0 ∧ _ := by simpa [InRange] using hout
    have hlast := h (im.height - 1) (by omega) (im.width * 4 - 1) (by omega)
    have hrows := Nat.succ_mul (im.height - 1) im.stride.toNat
    rw [Nat.succ_eq_add_one, Nat.sub_add_cancel (by omega)] at hrows
    simp only [bufSize, offset] at hlast
    omega
  · intro h r hr b hb
    have hrow := Nat.mul_le_mul_right im.stride.toNat hr
    rw [Nat.succ_mul] at hrow
    rw [InRange] at h
    rw [bufSize, offset, offset]
    omega

end Image

structure AppleScalerState where
  src : Image
  dst : Image
  frameCount : BitVec 32
  irqSts : BitVec 32
  irq : Bool
  running : Bool
  deriving DecidableEq

/-- `apple_scaler_signal_frame_done`. -/
def signalFrameDone (s : AppleScalerState) : AppleScalerState :=
  { s with frameCount := s.frameCount + 1, irqSts := 1, irq := true, running := false }

section

-- `heap` is what the two buffers hold when they are allocated.
variable (pixman : Image → (ℕ → ℕ → UInt8) → Image → ℕ → ℕ → UInt8)
  (dma : BitVec 32 → ℕ → Option UInt8) (s : AppleScalerState) (heap : (ℕ → UInt8) × (ℕ → UInt8))

/-- The pixels of the source. -/
def pixels (r b : ℕ) : UInt8 :=
  let i := s.src.offset r b
  if r < s.src.height ∧ b < s.src.width * 4 then (dma s.src.base i).getD (heap.1 i) else 0

/-- Byte `i` of the destination's buffer after `pixman_image_composite`, which writes its pixels. -/
def dstBuf (i : ℕ) : UInt8 :=
  let b := i % s.dst.stride.toNat
  if b < s.dst.width * 4 then pixman s.src (pixels dma s heap) s.dst (i / s.dst.stride.toNat) b
  else heap.2 i

/-- `apple_scaler_bh`: what it writes back and where. A row outside its buffer is `none`. -/
def appleScalerBh : Option (AppleScalerState × Option (BitVec 32 × List UInt8)) :=
  if s.src.supported && s.dst.supported then
    if s.src.RowsInside ∧ s.dst.RowsInside then
      some (signalFrameDone s,
        some (s.dst.base, (List.range s.dst.bufSize).map (dstBuf pixman dma s heap)))
    else none
  else some (signalFrameDone s, none)

/-- The rows of a frame lie in their buffers exactly when both images are in range. -/
theorem scaler_rows_inside_iff :
    appleScalerBh pixman dma s heap ≠ none ↔
      (s.src.supported && s.dst.supported → s.src.InRange ∧ s.dst.InRange) := by
  rw [← Image.rowsInside_iff, ← Image.rowsInside_iff, appleScalerBh]
  split_ifs with hsupported hinside
  · simp [hinside]
  · simp [hsupported, hinside]
  · simp [hsupported]

/-- A black frame, with the same registers for both images. -/
def frame (im : Image) : Option (AppleScalerState × Option (BitVec 32 × List UInt8)) :=
  appleScalerBh (fun _ _ _ _ _ => 0) (fun _ _ => some 0) ⟨im, im, 0, 0, false, true⟩ heap

/-- Two pixels at a stride of one. -/
theorem scaler_rows_outside : frame (0, 0) ⟨0x1E00001, 0, 4, 0, 0x10002⟩ = none :=
  rfl

/-- The buffer that is written back has no padding, and the read stores every pixel it needs. -/
def Determined : Prop :=
  ∀ i < s.dst.bufSize, i % s.dst.stride.toNat < s.dst.width * 4 ∧
    ∀ r < s.src.height, ∀ b < s.src.width * 4, dma s.src.base (s.src.offset r b) ≠ none

variable {dma s}

theorem pixels_congr (heap' : (ℕ → UInt8) × (ℕ → UInt8))
    (h : ∀ r < s.src.height, ∀ b < s.src.width * 4, dma s.src.base (s.src.offset r b) ≠ none) :
    pixels dma s heap = pixels dma s heap' := by
  funext r b
  simp only [pixels]
  split_ifs with hrb
  · obtain ⟨v, hv⟩ := Option.ne_none_iff_exists'.mp (h r hrb.1 b hrb.2)
    simp [hv]
  · rfl

theorem determined_iff : Determined dma s ↔ ∀ pixman heap heap', ∀ i < s.dst.bufSize,
    dstBuf pixman dma s heap i = dstBuf pixman dma s heap' i := by
  constructor
  · intro h pixman heap heap' i hi
    obtain ⟨hpixel, hread⟩ := h i hi
    simp [dstBuf, hpixel, pixels_congr heap heap' hread]
  · intro h i hi
    have hpixel : i % s.dst.stride.toNat < s.dst.width * 4 := by
      by_contra hpadding
      simpa [dstBuf, hpadding] using h (fun _ _ _ _ _ => 0) (0, 0) (0, 1) i hi
    refine ⟨hpixel, fun r hr b hb hnone => ?_⟩
    simpa [dstBuf, hpixel, pixels, hr, hb, hnone] using
      h (fun _ p _ _ _ => p r b) (0, 0) (1, 0) i hi

end

/-- What is written back is independent of the heap exactly when it is determined. -/
theorem scaler_output_iff (dma : BitVec 32 → ℕ → Option UInt8) (s : AppleScalerState) :
    (∀ pixman heap heap', appleScalerBh pixman dma s heap = appleScalerBh pixman dma s heap') ↔
      (s.src.supported && s.dst.supported → s.src.InRange ∧ s.dst.InRange → Determined dma s) := by
  simp only [determined_iff, appleScalerBh, ← Image.rowsInside_iff]
  split_ifs with hsupported hinside
  · simp [hsupported, hinside]
  · simp [hinside]
  · simp [hsupported]

/-- One pixel at a stride of two. -/
theorem scaler_output_differs :
    frame (0, 0) ⟨0x1E00001, 0, 8, 0, 0x10001⟩ ≠ frame (0, 1) ⟨0x1E00001, 0, 8, 0, 0x10001⟩ := by
  decide

end Inferno.Scaler
