/-
Crc.Reflected — reflected cyclic redundancy checks, for any width and polynomial.

The register is a bit vector, the message a list of bits. `feed` is the definition: a
message bit is compared with the low bit of the register, which is shifted and, if the
two differ, combined with the polynomial. `shiftStep` is the same without a message
bit. That a table-driven implementation may take several bits at a time is linearity
(`foldl_feed`, `steps_split`). Errors in no more bits in a row than the register has
change it (`foldl_feed_burst`).
-/
import Mathlib.Data.BitVec

namespace LtpDdt.Crc

open List

variable {w : Nat}

/-! ## The bit steps -/

def shiftStep (poly c : BitVec w) : BitVec w :=
  if c.getLsbD 0 then (c >>> 1) ^^^ poly else c >>> 1

def feed (poly c : BitVec w) (b : Bool) : BitVec w :=
  if c.getLsbD 0 != b then (c >>> 1) ^^^ poly else c >>> 1

def steps (poly : BitVec w) : Nat → BitVec w → BitVec w
  | 0, c => c
  | n + 1, c => steps poly n (shiftStep poly c)

def ofBits : List Bool → BitVec w
  | [] => 0
  | b :: bs => BitVec.setWidth w (BitVec.ofBool b) ^^^ (ofBits bs <<< 1)

/-! ## Linearity -/

lemma xor_poly_xor (a b p : BitVec w) : (a ^^^ p) ^^^ (b ^^^ p) = a ^^^ b := by
  ext i hi
  simp only [BitVec.getElem_xor]
  cases a[i] <;> cases b[i] <;> cases p[i] <;> rfl

variable (poly : BitVec w)

lemma shiftStep_xor (a b : BitVec w) :
    shiftStep poly (a ^^^ b) = shiftStep poly a ^^^ shiftStep poly b := by
  simp only [shiftStep, BitVec.getLsbD_xor, BitVec.ushiftRight_xor_distrib]
  cases a.getLsbD 0 <;> cases b.getLsbD 0
  · rfl
  · exact BitVec.xor_assoc ..
  · show (a >>> 1 ^^^ b >>> 1) ^^^ poly = (a >>> 1 ^^^ poly) ^^^ b >>> 1
    ac_rfl
  · exact (xor_poly_xor ..).symm

variable (n : Nat)

lemma steps_xor (a b : BitVec w) : steps poly n (a ^^^ b) = steps poly n a ^^^ steps poly n b := by
  induction n generalizing a b with
  | zero => rfl
  | succ n ih => rw [steps, shiftStep_xor, ih]; rfl

variable (c : BitVec w)

lemma steps_clear (h : ∀ i < n, c.getLsbD i = false) : steps poly n c = c >>> n := by
  induction n generalizing c with
  | zero => simp [steps]
  | succ n ih =>
    have hstep : shiftStep poly c = c >>> 1 := by
      rw [shiftStep, h 0 (by omega)]
      rfl
    rw [steps, hstep, ih (c >>> 1) fun i hi => by simpa [Nat.add_comm] using h (i + 1) (by omega),
      ← BitVec.shiftRight_add, Nat.add_comm]

/-! ## Several bits at a time -/

lemma low_xor_high : c = (c.setWidth n).setWidth w ^^^ ((c >>> n) <<< n) := by
  apply BitVec.eq_of_getLsbD_eq
  intro i hi
  by_cases hin : i < n
  · simp [hi, hin]
  · have : n + (i - n) = i := by omega
    simp [hi, hin, this]

lemma ushiftRight_shiftLeft_ushiftRight : ((c >>> n) <<< n) >>> n = c >>> n := by
  apply BitVec.eq_of_getLsbD_eq
  intro i _
  by_cases hin : n + i < w
  · simp [hin]
  · simp [BitVec.getLsbD_of_ge c (n + i) (by omega)]

/-- **Table lookup.** `n` shifts are those of the low `n` bits, combined with
the other bits moved down. -/
theorem steps_split : steps poly n c = steps poly n ((c.setWidth n).setWidth w) ^^^ (c >>> n) := by
  have hclear : ∀ i < n, ((c >>> n) <<< n).getLsbD i = false := by
    intro i hi
    simp [hi]
  calc steps poly n c
      = steps poly n ((c.setWidth n).setWidth w ^^^ ((c >>> n) <<< n)) := by
        rw [← low_xor_high]
    _ = steps poly n ((c.setWidth n).setWidth w) ^^^ steps poly n ((c >>> n) <<< n) :=
        steps_xor ..
    _ = _ := by rw [steps_clear poly n _ hclear, ushiftRight_shiftLeft_ushiftRight]

lemma feed_eq (b : Bool) (hw : 0 < w) :
    feed poly c b = shiftStep poly (c ^^^ BitVec.setWidth w (BitVec.ofBool b)) := by
  have hbit : (BitVec.setWidth w (BitVec.ofBool b)).getLsbD 0 = b := by simp [hw]
  have hrest : BitVec.setWidth w (BitVec.ofBool b) >>> 1 = 0#w := by
    apply BitVec.eq_of_getLsbD_eq
    intro i _
    simp
  simp [feed, shiftStep, hbit, BitVec.ushiftRight_xor_distrib, hrest]

lemma getLsbD_ofBits (bs : List Bool) (i : Nat) (hi : i < w) :
    (ofBits bs : BitVec w).getLsbD i = bs.getD i false := by
  induction bs generalizing i with
  | nil => simp [ofBits]
  | cons b bs ih =>
    cases i with
    | zero => simp [ofBits, hi]
    | succ i =>
      rw [ofBits, BitVec.getLsbD_xor, BitVec.getLsbD_shiftLeft, getD_cons_succ, ← ih i (by omega)]
      simp [hi]

/-- **Message bits at once.** Feeding bits is combining them with the
register and shifting as often. -/
theorem foldl_feed (bs : List Bool) (c : BitVec w) (h : bs.length ≤ w) :
    bs.foldl (feed poly) c = steps poly bs.length (c ^^^ ofBits bs) := by
  induction bs generalizing c with
  | nil => simp [steps, ofBits]
  | cons b bs ih =>
    simp only [length_cons] at h
    have hshift : shiftStep poly ((ofBits bs : BitVec w) <<< 1) = ofBits bs := by
      have hclear := steps_clear poly 1 ((ofBits bs : BitVec w) <<< 1) fun i hi => by
        simp [hi]
      rw [show shiftStep poly _ = _ from hclear]
      apply BitVec.eq_of_getLsbD_eq
      intro i hi
      simp only [BitVec.getLsbD_ushiftRight, BitVec.getLsbD_shiftLeft]
      by_cases hi' : 1 + i < w
      · simp [hi']
      · rw [getLsbD_ofBits bs i hi, getD_eq_getElem?_getD, getElem?_eq_none (by omega)]
        simp [hi']
    rw [foldl_cons, ih _ (by omega), feed_eq poly c b (by omega), length_cons, steps,
      ofBits, ← BitVec.xor_assoc, shiftStep_xor poly _ (ofBits bs <<< 1), hshift]

/-! ## Bursts of errors -/

variable {poly} (hp : poly.getLsbD (w - 1))
include hp

lemma shiftStep_injective : Function.Injective (shiftStep poly) := by
  intro a b h
  have hx : shiftStep poly (a ^^^ b) = 0#w := by rw [shiftStep_xor, h, BitVec.xor_self]
  unfold shiftStep at hx
  split at hx
  · rw [BitVec.xor_eq_zero_iff] at hx
    -- the highest bit of a shifted register is clear
    rw [← hx, BitVec.getLsbD_ushiftRight, BitVec.getLsbD_of_ge _ _ (by omega)] at hp
    cases hp
  next hlow =>
  refine BitVec.xor_eq_zero_iff.mp (BitVec.eq_of_getLsbD_eq fun i _ => ?_)
  cases i with
  | zero => simpa using hlow
  | succ i => simpa [Nat.add_comm] using congrArg (·.getLsbD i) hx

lemma steps_injective : Function.Injective (steps poly n) := by
  induction n with
  | zero => exact fun _ _ h => h
  | succ n ih => exact fun _ _ h => shiftStep_injective hp (ih h)

lemma foldl_feed_injective (bs : List Bool) : Function.Injective (bs.foldl (feed poly)) := by
  have hw := BitVec.lt_of_getLsbD hp
  induction bs with
  | nil => exact fun _ _ h => h
  | cons b bs ih =>
    intro c c' h
    have hfeed := ih h
    rw [feed_eq poly c b (by omega), feed_eq poly c' b (by omega)] at hfeed
    exact (BitVec.xor_left_inj _).mp (shiftStep_injective hp hfeed)

variable {c}

/-- **A burst** of errors that fits the register changes it. -/
theorem foldl_feed_burst {bs bs' : List Bool} (hlen : bs.length = bs'.length) (hle : bs.length ≤ w)
    (h : bs.foldl (feed poly) c = bs'.foldl (feed poly) c) : bs = bs' := by
  rw [foldl_feed poly _ _ hle, foldl_feed poly _ _ (hlen ▸ hle), ← hlen] at h
  have hbits := (BitVec.xor_right_inj _).mp (steps_injective _ hp h)
  refine ext_getElem hlen fun i hi hi' => ?_
  have hbit := congrArg (BitVec.getLsbD · i) hbits
  simpa [getLsbD_ofBits _ i (hi.trans_le hle), hi, hi'] using hbit

end LtpDdt.Crc
