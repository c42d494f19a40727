/-
RandomRange.Bit — `random_bit` of `lib/random_range.c`.
-/
import LtpDdt.RandomRange.Range

namespace LtpDdt.RandomRange

open List

variable {w : Nat} (mask : BitVec w)

/-- How many of the lowest `n` bits are set. -/
def nbits (n : Nat) : Nat := (range n).countP mask.getLsbD

/-- The loop that shifts `mask`, for at most `fuel` tests of `bit`. -/
def shiftLoop : Nat → Int → BitVec w → Nat → Option Nat
  | 0, _, _, _ => none
  | fuel + 1, bit, mask, nshift =>
    if bit = 0 then some nshift
    else shiftLoop fuel (if mask.getLsbD 0 then bit - 1 else bit) (mask.sshiftRight 1) (nshift + 1)

variable (abi : Abi)

def Abi.longBits : Nat := if abi.long64 then 64 else 32

def randomBit (mask : BitVec abi.longBits) (rand : Int) : Option (BitVec abi.longBits) :=
  if mask = 0 then some 0
  else do
    let bit ← randomRange abi 1 (nbits mask abi.longBits) 1 rand
    let nshift ← shiftLoop (abi.longBits + 1) bit.value mask 0
    some (1#_ <<< (nshift - 1))

lemma nbits_succ (n : Nat) :
    nbits mask (n + 1) = nbits mask n + if mask.getLsbD n then 1 else 0 := by
  simp [nbits, range_succ, countP_append, countP_singleton]

variable {mask}

lemma nbits_lt {i n} (hi : mask.getLsbD i) (h : i < n) : nbits mask i < nbits mask n := by
  have hle : nbits mask (i + 1) ≤ nbits mask n := (range_sublist.2 h).countP_le
  rw [nbits_succ, if_pos hi] at hle
  omega

/-- The loop ends behind the set bit with `k` more of them between it and the bit `n`. -/
lemma shiftLoop_ends : ∀ left n k, n + left = w → nbits mask n + k < nbits mask w →
    ∃ i, mask.getLsbD i ∧ nbits mask i = nbits mask n + k ∧
      shiftLoop (left + 1) (k + 1 : Nat) (mask.sshiftRight n) n = some (i + 1)
  | 0, n, k, hn, hk => by
    obtain rfl : n = w := hn
    omega
  | left + 1, n, k, hn, hk => by
    have hbit : (mask.sshiftRight n).getLsbD 0 = mask.getLsbD n := by
      rw [BitVec.getLsbD_sshiftRight, if_pos (by omega), decide_eq_false (by omega)]
      rfl
    rw [shiftLoop, if_neg (by omega), hbit, ← BitVec.sshiftRight_add]
    have hsucc := nbits_succ mask n
    by_cases h : mask.getLsbD n
    · rw [if_pos h] at hsucc ⊢
      cases k with
      | zero => exact ⟨n, h, rfl, by simp [shiftLoop]⟩
      | succ k =>
        obtain ⟨i, hi, _, hrun⟩ := shiftLoop_ends left (n + 1) k (by omega) (by omega)
        refine ⟨i, hi, by omega, ?_⟩
        rw [← hrun]
        congr 1
        omega
    · rw [if_neg h] at hsucc ⊢
      obtain ⟨i, hi, _, hrun⟩ := shiftLoop_ends left (n + 1) k (by omega) (by omega)
      exact ⟨i, hi, by omega, hrun⟩

lemma nbits_le_64 (mask : BitVec abi.longBits) : nbits mask abi.longBits ≤ 64 := by
  refine le_trans countP_le_length ?_
  rw [length_range, Abi.longBits]
  split <;> decide

lemma randomRange_one {n rand : Nat} (h0 : 0 < n) (hn : n ≤ 64) :
    randomRange abi 1 n 1 rand = some ⟨(rand % n + 1 : Nat), none⟩ := by
  have hlt := Nat.mod_lt rand h0
  have hge : ¬ (n : Int) < 1 := by omega
  have hint : 64 ≤ intMax := by decide
  have hlong : 64 ≤ abi.longMax := by
    rw [Abi.longMax]
    split <;> decide
  have hfits {top x : Int} (htop : 64 ≤ top) (h : 0 ≤ x) (h' : x ≤ 64) : fits top x = some x :=
    if_pos ⟨by omega, by omega⟩
  simp only [randomRange, randomRangeWith, bumpMin, reduceMax, select, randnum, Int.tmod_one,
    hge, if_false, Option.bind_eq_bind, ne_eq, not_true, Option.bind_some]
  rw [if_neg (by decide), hfits hint (by omega) (by omega), Option.bind_some, Int.tdiv_one,
    Int.sub_add_cancel, hfits hint (by omega) (by omega), Option.bind_some]
  change (fits _ ((rand % n : Nat) * 1)).bind _ = _
  rw [Int.mul_one, hfits hlong (by omega) (by omega), Option.bind_some,
    hfits hlong (by omega) (by omega), Option.bind_some, Int.add_comm]
  rfl

/-- The bit that a number selects. -/
lemma randomBit_selects {mask : BitVec abi.longBits} (h : mask ≠ 0) (rand : Nat) :
    ∃ i, mask.getLsbD i ∧ nbits mask i = rand % nbits mask abi.longBits ∧
      randomBit abi mask rand = some (1#_ <<< i) := by
  obtain ⟨j, hj⟩ : ∃ j, mask.getLsbD j := by
    by_contra hno
    exact h (BitVec.eq_of_getLsbD_eq fun j _ => by simpa using fun hj => hno ⟨j, hj⟩)
  have hpos := Nat.zero_lt_of_lt (nbits_lt hj (BitVec.lt_of_getLsbD hj))
  obtain ⟨i, hi, heq, hrun⟩ := @shiftLoop_ends _ mask abi.longBits 0
    (rand % nbits mask abi.longBits) (zero_add _) (by simpa [nbits] using Nat.mod_lt rand hpos)
  refine ⟨i, hi, by simpa [nbits] using heq, ?_⟩
  rw [randomBit, if_neg h, randomRange_one abi hpos (nbits_le_64 abi mask)]
  rw [BitVec.sshiftRight_zero] at hrun
  change (shiftLoop _ _ _ 0).bind _ = _
  rw [hrun]
  rfl

/-- **A random bit** is one of the mask, and each of them is returned for some number. -/
theorem randomBit_right (mask : BitVec abi.longBits) :
    (∀ rand : Nat, if mask = 0 then randomBit abi mask rand = some 0
      else ∃ i, mask.getLsbD i = true ∧ randomBit abi mask rand = some (1#_ <<< i)) ∧
    ∀ i, mask.getLsbD i = true → ∃ rand : Nat, rand < 2 ^ 31 ∧
      randomBit abi mask rand = some (1#_ <<< i) := by
  constructor
  · intro rand
    split_ifs with h
    · rw [randomBit, if_pos h]
    obtain ⟨i, hi, -, hrun⟩ := randomBit_selects abi h rand
    exact ⟨i, hi, hrun⟩
  intro i hi
  have h : mask ≠ 0 := by
    rintro rfl
    simp at hi
  have hlt := nbits_lt hi (BitVec.lt_of_getLsbD hi)
  obtain ⟨j, hj, heq, hrun⟩ := randomBit_selects abi h (nbits mask i)
  rw [Nat.mod_eq_of_lt hlt] at heq
  obtain rfl : j = i := by
    rcases Nat.lt_trichotomy j i with hji | hji | hji
    · exact absurd heq (Nat.ne_of_lt (nbits_lt hj hji))
    · exact hji
    · exact absurd heq.symm (Nat.ne_of_lt (nbits_lt hi hji))
  exact ⟨_, Nat.lt_trans hlt (Nat.lt_of_le_of_lt (nbits_le_64 abi mask) (by decide)), hrun⟩

end LtpDdt.RandomRange
