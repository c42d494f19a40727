/-
CTypes.Ints — C integers as integers, with the conversions to the
types of 8 and 32 bits.

`int32` is the conversion to `int` of a compiler that keeps the low bits;
where the value is out of range it stands for what C leaves to the
implementation (a conversion) or does not define (an overflow).
-/
import Mathlib.Data.BitVec

namespace LtpDdt.CTypes

def int32 (x : Int) : Int := (x + 2147483648) % 4294967296 - 2147483648

def uint32 (x : Int) : Int := x % 4294967296

/-- `INT_MAX` -/
def intMax : Int := 2147483647

/-- The value of a plain `char`, which is signed or unsigned. -/
def charVal (signed : Bool) (b : UInt8) : Int :=
  if signed && 128 ≤ b.toNat then b.toNat - 256 else b.toNat

lemma int32_of_range {x} (h : -2147483648 ≤ x) (h' : x ≤ 2147483647) : int32 x = x := by
  unfold int32
  omega

lemma uint32_of_range {x} (h : 0 ≤ x) (h' : x < 4294967296) : uint32 x = x := by
  unfold uint32
  omega

lemma uint32_bounds (x : Int) : 0 ≤ uint32 x ∧ uint32 x < 4294967296 := by
  unfold uint32
  omega

lemma int32_uint32 (x : Int) : int32 (uint32 x) = int32 x := by
  unfold int32 uint32
  omega

lemma charVal_inj (signed : Bool) {x y} (h : charVal signed x = charVal signed y) : x = y := by
  have hx := x.toNat_lt
  have hy := y.toNat_lt
  apply UInt8.toNat_inj.mp
  unfold charVal at h
  split at h <;> split at h <;> omega

end LtpDdt.CTypes
