/-
Bytes.File — a regular file as the list of its bytes.

Bytes behind the end read as zero, so a file is described by `getD i 0` and
its length; each operation has one lemma for each of the two.
-/
import Mathlib.Data.List.GetD

namespace LtpDdt.Bytes

open List

/-- The contents after `bs` is written at `pos`. A gap is filled with zeros. -/
def overwrite (file : List UInt8) (pos : Nat) (bs : List UInt8) : List UInt8 :=
  file.take pos ++ List.replicate (pos - file.length) 0 ++ bs ++ file.drop (pos + bs.length)

/-- `ftruncate` -/
def resize (file : List UInt8) (n : Nat) : List UInt8 :=
  file.take n ++ List.replicate (n - file.length) 0

/-- What a read of `n` bytes at `pos` returns. -/
def slice (file : List UInt8) (pos n : Nat) : List UInt8 := (file.drop pos).take n

lemma length_slice {file : List UInt8} {pos n} (h : pos + n ≤ file.length) :
    (slice file pos n).length = n := by
  simp [slice]
  omega

variable (file : List UInt8)

lemma getD_slice (pos : Nat) {n k} (h : k < n) :
    (slice file pos n).getD k 0 = file.getD (pos + k) 0 := by simp [slice, h]

@[simp] lemma length_resize (n : Nat) : (resize file n).length = n := by
  simp [resize]
  omega

lemma getD_resize (n i : Nat) : (resize file n).getD i 0 = if i < n then file.getD i 0 else 0 := by
  have hlen : (file.take n).length = min n file.length := length_take
  rw [resize]
  by_cases h : i < n ∧ i < file.length
  · rw [getD_append _ _ _ _ (by omega)]
    simp [h.1]
  have hzero : (replicate (n - file.length) (0 : UInt8)).getD (i - (file.take n).length) 0 =
      0 := by
    rw [getD_eq_getElem?_getD, getElem?_replicate]
    split <;> rfl
  rw [getD_append_right _ _ _ _ (by omega), hzero]
  split
  · rw [getD_eq_default _ _ (by omega)]
  · rfl

lemma length_overwrite (pos : Nat) (bs : List UInt8) :
    (overwrite file pos bs).length = max file.length (pos + bs.length) := by
  simp [overwrite]
  omega

lemma getD_overwrite (pos : Nat) (bs : List UInt8) (i : Nat) : (overwrite file pos bs).getD i 0 =
      if pos ≤ i ∧ i < pos + bs.length then bs.getD (i - pos) 0 else file.getD i 0 := by
  have hhead : (file.take pos ++ replicate (pos - file.length) (0 : UInt8)) = resize file pos := rfl
  rw [overwrite, hhead, append_assoc]
  by_cases h₁ : i < pos
  · rw [getD_append _ _ _ _ (by simpa using h₁), getD_resize, if_pos h₁, if_neg (by omega)]
  rw [getD_append_right _ _ _ _ (by simpa using h₁), length_resize]
  by_cases h₂ : i < pos + bs.length
  · rw [getD_append _ _ _ _ (by omega), if_pos ⟨by omega, h₂⟩]
  rw [getD_append_right _ _ _ _ (by omega), if_neg (by omega)]
  simp only [getD_eq_getElem?_getD, getElem?_drop]
  congr 2
  omega

lemma overwrite_middle (pre old new post : List UInt8) (h : new.length = old.length) :
    overwrite (pre ++ old ++ post) pre.length new = pre ++ new ++ post := by
  have hdrop : (pre ++ old ++ post).drop (pre.length + new.length) = post := by
    rw [h, ← length_append, drop_left]
  rw [overwrite, hdrop, append_assoc pre old post]
  simp

lemma overwrite_end (bs : List UInt8) : overwrite file file.length bs = file ++ bs := by
  simp [overwrite]

end LtpDdt.Bytes
