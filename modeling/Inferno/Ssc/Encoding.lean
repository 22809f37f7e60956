import Inferno.Ssc.Model

/-!
# Points as bytes

A coordinate is written with as few bytes as it needs, at the start of a field of 48 zero bytes, and
is read as the number that the whole field stands for. A coordinate with a leading zero byte is thus
read as a multiple of itself by a power of 256. The bytes are those of the number, and the number is
read back, exactly if the coordinate is zero or needs all 48 bytes (`point_encoding_iff`). The
shared secret of a key exchange is written in the same way.
-/

namespace Inferno.Ssc

open Common List Option

/-- The field of 48 bytes to whose start a coordinate has been written. -/
def coordinate (v : ℕ) : List UInt8 := minBytes v ++ replicate (48 - byteCount v) 0

theorem lt_of_lt_curveP {v : ℕ} (h : v < curveP) : v < 256^48 := h.trans (by decide)

variable (P : EccPoint)

/-- The coordinate `x` of a point has at most 48 bytes. -/
theorem EccPoint.x_lt : P.x < 256^48 := lt_of_lt_curveP P.onCurve.1

/-- The coordinate `y` of a point has at most 48 bytes. -/
theorem EccPoint.y_lt : P.y < 256^48 := lt_of_lt_curveP P.onCurve.2.1

theorem length_coordinate {v : ℕ} (h : v < 256^48) : (coordinate v).length = 48 := by
  have hcount : byteCount v ≤ 48 := byteCount_le_iff.mpr h
  rw [coordinate, length_append, length_minBytes, length_replicate]
  omega

/-- A point is written to a buffer of zero bytes as the fields of its coordinates. -/
theorem putAll_outputEcPub :
    putAll (replicate 96 0) (outputEcPub P 0) = some (coordinate P.x ++ coordinate P.y) := by
  have hx : byteCount P.x ≤ 48 := byteCount_le_iff.mpr P.x_lt
  have hy : byteCount P.y ≤ 48 := byteCount_le_iff.mpr P.y_lt
  have hfirst := put_zeros [] (minBytes P.x) 0 (n := 96) rfl (by rw [length_minBytes]; omega)
  have hsecond := put_zeros (coordinate P.x) (minBytes P.y) (0 + 48) (n := 48)
    (length_coordinate P.x_lt).symm (by rw [length_minBytes]; exact hy)
  -- The bytes behind the first coordinate are the rest of its field and the second field.
  have hsplit : minBytes P.x ++ replicate (96 - byteCount P.x) 0 =
      coordinate P.x ++ replicate 48 0 := by
    rw [coordinate, append_assoc, ← replicate_add,
      show 48 - byteCount P.x + 48 = 96 - byteCount P.x by omega]
  rw [nil_append, nil_append, length_minBytes, hsplit] at hfirst
  rw [length_minBytes] at hsecond
  rw [putAll, outputEcPub, foldlM_cons, hfirst, some_bind, foldlM_cons, hsecond]
  rfl

section

variable {R : Type} (N : Nettle R)

/-- A point is read from the fields of two numbers exactly if they stand for its coordinates. -/
theorem inputEcPub_eq_some_iff {v w : ℕ} (hv : v < 256^48) (hw : w < 256^48) {P : EccPoint} :
    inputEcPub N (coordinate v ++ coordinate w) = some P ↔
      ofBe (coordinate v) = P.x ∧ ofBe (coordinate w) = P.y := by
  have hlenv := length_coordinate hv
  have hlenw := length_coordinate hw
  have hx : (coordinate v ++ coordinate w).take 48 = coordinate v := take_left' hlenv
  have hy : ((coordinate v ++ coordinate w).drop 48).take 48 = coordinate w := by
    rw [drop_left' hlenv, take_of_length_le hlenw.le]
  rw [inputEcPub, hx, hy, N.pointSet_iff]

/-- The bytes of a point are those of its coordinates exactly if both fill their fields. -/
theorem coordinates_eq_iff : coordinate P.x ++ coordinate P.y = beBytes 48 P.x ++ beBytes 48 P.y ↔
      Fills 48 P.x ∧ Fills 48 P.y := by
  have hx : coordinate P.x = beBytes 48 P.x ↔ Fills 48 P.x :=
    minBytes_append_zeros_iff (by decide) P.x_lt
  have hy : coordinate P.y = beBytes 48 P.y ↔ Fills 48 P.y :=
    minBytes_append_zeros_iff (by decide) P.y_lt
  have hlen : (coordinate P.x).length = (beBytes 48 P.x).length := by
    rw [length_coordinate P.x_lt, length_beBytes]
  constructor
  · intro h
    obtain ⟨hfirst, hsecond⟩ := append_inj h hlen
    exact ⟨hx.mp hfirst, hy.mp hsecond⟩
  · rintro ⟨hfirst, hsecond⟩
    rw [hx.mpr hfirst, hy.mpr hsecond]

variable (P peer : EccPoint) (eccKey : ℕ)

/-- What is hashed is the field of the coordinate `x` of the shared point. -/
theorem sharedKey_eq (peer : EccPoint) :
    sharedKey N eccKey peer = some (coordinate (N.eccPointMul eccKey peer).x) := by
  have hlen := length_coordinate (N.eccPointMul eccKey peer).x_lt
  rw [sharedKey, putAll_outputEcPub]
  exact fetch_middle [] _ _ rfl hlen.symm

/-- For every point, the bytes that are written to a zeroed buffer are its coordinates as numbers of
48 bytes, and the same point is read from them, exactly if each coordinate is zero or needs all 48
bytes; and for every pair of keys, the shared secret that is hashed is the coordinate `x` as a
number of 48 bytes under the same condition. -/
theorem point_encoding_iff :
    (putAll (replicate 96 0) (outputEcPub P 0) = some (beBytes 48 P.x ++ beBytes 48 P.y) ↔
      Fills 48 P.x ∧ Fills 48 P.y) ∧
    ((putAll (replicate 96 0) (outputEcPub P 0)).bind (inputEcPub N) = some P ↔
      Fills 48 P.x ∧ Fills 48 P.y) ∧
    (sharedKey N eccKey peer = some (beBytes 48 (N.eccPointMul eccKey peer).x) ↔
      Fills 48 (N.eccPointMul eccKey peer).x) := by
  rw [putAll_outputEcPub, sharedKey_eq, bind_some, some_inj, some_inj]
  refine ⟨coordinates_eq_iff P, ?_, ?_⟩
  · rw [inputEcPub_eq_some_iff N P.x_lt P.y_lt]
    exact and_congr (ofBe_minBytes_eq_iff (by decide) P.x_lt)
      (ofBe_minBytes_eq_iff (by decide) P.y_lt)
  · exact minBytes_append_zeros_iff (by decide) (N.eccPointMul eccKey peer).x_lt

end

/-- A point whose coordinate `x` is 2. -/
def smallPoint : EccPoint where
  x := 2
  y :=
  0x8cdeadbbd04911a3c1931e26df3fa6439dca9c7eb286fbd46fc319f0e2bb780232baf57825fc0c1912ada2fefe84024c
  onCurve := by decide

/-- The point is not read back, and where it is the shared point, what is hashed is not its
coordinate `x`: the bytes of both have a 2 in the first place instead of the last. -/
theorem point_encoding_small : (∀ (R : Type) (N : Nettle R),
    (putAll (replicate 96 0) (outputEcPub smallPoint 0)).bind (inputEcPub N) ≠ some smallPoint) ∧
      ∀ (R : Type) (N : Nettle R) eccKey peer, N.eccPointMul eccKey peer = smallPoint →
        sharedKey N eccKey peer = some (2 :: replicate 47 0) ∧
          beBytes 48 smallPoint.x = replicate 47 0 ++ [2] := by
  constructor
  · intro R N
    rw [putAll_outputEcPub, bind_some, Ne, inputEcPub_eq_some_iff N smallPoint.x_lt smallPoint.y_lt]
    rintro ⟨hx, -⟩
    exact absurd hx (by decide)
  · intro R N eccKey peer hmul
    rw [sharedKey_eq, hmul]
    decide

end Inferno.Ssc
