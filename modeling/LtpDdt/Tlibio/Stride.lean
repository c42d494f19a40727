/-
Tlibio.Stride — `stride_bounds` of `lib/tlibio.c`, for arguments with which no
`int` overflows: there the values are integers.
-/
import Mathlib.Order.Bounds.Basic

namespace LtpDdt.Tlibio

def strideOf (stride bytesPerStride : Int) : Int := if stride = 0 then bytesPerStride else stride

/-- What is returned, and what is stored through `min` and `max`. -/
def strideBounds (offset stride nstrides bytesPerStride : Int) : Int × Option (Int × Int) :=
  if nstrides < 0 ∨ bytesPerStride < 0 then (-1, none)
  else
    let stride := strideOf stride bytesPerStride
    let nbytes := stride.natAbs * (nstrides - 1) + bytesPerStride
    if stride < 0 then
      let maxByte := offset + bytesPerStride - 1
      (nbytes, some (maxByte - nbytes + 1, maxByte))
    else (nbytes, some (offset, offset + nbytes - 1))

/-- The bytes of the blocks. -/
def blocks (offset stride nstrides bytesPerStride : Int) : Set Int :=
  { b | ∃ k, 0 ≤ k ∧ k < nstrides ∧ offset + k * stride ≤ b ∧
    b < offset + k * stride + bytesPerStride }

section

variable (offset : Int) {s n bytes : Int} (hn : 1 ≤ n) (hb : 1 ≤ bytes)

include hn hb

lemma blocks_of_nonneg (hs : 0 ≤ s) : IsLeast (blocks offset s n bytes) offset ∧
      IsGreatest (blocks offset s n bytes) (offset + ((n - 1) * s + bytes) - 1) := by
  refine ⟨⟨⟨0, by omega⟩, ?_⟩, ⟨n - 1, by omega⟩, ?_⟩
  · rintro b ⟨k, hk, -, _, -⟩
    have hpos := Int.mul_nonneg hk hs
    omega
  rintro b ⟨k, -, hk, -, _⟩
  have hle := Int.mul_le_mul_of_nonneg_right (Int.le_sub_one_of_lt hk) hs
  omega

lemma blocks_of_neg (hs : s < 0) : IsLeast (blocks offset s n bytes) (offset + (n - 1) * s) ∧
      IsGreatest (blocks offset s n bytes) (offset + bytes - 1) := by
  refine ⟨⟨⟨n - 1, by omega⟩, ?_⟩, ⟨0, by omega⟩, ?_⟩
  · rintro b ⟨k, -, hk, _, -⟩
    have hle := Int.mul_le_mul_of_nonpos_right (Int.le_sub_one_of_lt hk) (Int.le_of_lt hs)
    omega
  rintro b ⟨k, hk, -, -, _⟩
  have hneg := Int.mul_nonpos_of_nonneg_of_nonpos hk (Int.le_of_lt hs)
  omega

end

/-- **The bounds of a strided request** are the first and the last byte of the blocks,
and the length of the interval is returned. -/
theorem strideBounds_exact (offset stride nstrides bytesPerStride : Int) (hn : 1 ≤ nstrides)
    (hb : 1 ≤ bytesPerStride) :
    ∃ min max, strideBounds offset stride nstrides bytesPerStride =
        (max - min + 1, some (min, max)) ∧
      IsLeast (blocks offset (strideOf stride bytesPerStride) nstrides bytesPerStride) min ∧
      IsGreatest (blocks offset (strideOf stride bytesPerStride) nstrides bytesPerStride) max := by
  rw [strideBounds, if_neg (by omega)]
  generalize strideOf stride bytesPerStride = s
  dsimp only
  rw [Int.mul_comm]
  by_cases hs : s < 0
  · obtain ⟨hmin, hmax⟩ := blocks_of_neg offset hn hb hs
    refine ⟨_, _, ?_, hmin, hmax⟩
    have habs : (nstrides - 1) * s.natAbs = -((nstrides - 1) * s) := by
      rw [Int.ofNat_natAbs_of_nonpos (Int.le_of_lt hs), Int.mul_neg]
    rw [if_pos hs, habs]
    exact Prod.ext (by dsimp only; omega) (congrArg some (Prod.ext (by dsimp only; omega) rfl))
  · obtain ⟨hmin, hmax⟩ := blocks_of_nonneg offset hn hb (Int.not_lt.1 hs)
    refine ⟨_, _, ?_, hmin, hmax⟩
    rw [if_neg hs, Int.natAbs_of_nonneg (Int.not_lt.1 hs)]
    exact Prod.ext (by dsimp only; omega) rfl

/-- Three blocks of two bytes, ten bytes apart and downwards. -/
theorem strideBounds_down :
    ∃ min max, strideBounds 100 (-10) 3 2 = (max - min + 1, some (min, max)) ∧
    IsLeast (blocks 100 (-10) 3 2) min ∧ IsGreatest (blocks 100 (-10) 3 2) max :=
  strideBounds_exact 100 (-10) 3 2 (by decide) (by decide)

end LtpDdt.Tlibio
