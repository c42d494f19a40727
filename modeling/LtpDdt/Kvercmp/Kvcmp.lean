/-
Kvercmp.Kvcmp — versions of the kernel, `lib/tst_kvercmp.c`.
-/
import LtpDdt.CTypes.Decimal

namespace LtpDdt.Kvercmp

open CTypes List

/-- The number at the begin of `str` and what follows it; `strtoul` takes a sign. -/
def parseDigit (str : List UInt8) : Option (Nat × List UInt8) :=
  let str := str.dropWhile isSpaceByte
  let sign := str.head?
  let str := if sign = some 0x2d ∨ sign = some 0x2b then str.tail else str
  let n := leadingDigits 0 str
  let v := if 2 ^ 64 ≤ n then 2 ^ 64 - 1
    else if sign = some 0x2d then (2 ^ 64 - n) % 2 ^ 64 else n
  if str.takeWhile isDigitByte = [] ∨ intMax < v then none else some (v, str.dropWhile isDigitByte)

abbrev Kver := Nat × Nat × Nat

/-- Whether the version is accepted, and the numbers. -/
def tstParseKver (strKver : List UInt8) : Bool × Kver :=
  match parseDigit strKver with
  | none => (false, 0, 0, 0)
  | some (v1, 0x2e :: str) =>
    match parseDigit str with
    | none => (false, v1, 0, 0)
    -- a short version
    | some (v2, []) | some (v2, 0x20 :: _) | some (v2, 0x2d :: _) => (true, v1, v2, 0)
    | some (v2, 0x2e :: str) =>
      match parseDigit str with
      | none => (false, v1, v2, 0)
      | some (v3, _) => (true, v1, v2, v3)
    | some (v2, _) => (false, v1, v2, 0)
  | some (v1, _) => (false, v1, 0, 0)

def Kver.weight (v : Kver) : Nat := v.1 <<< 20 + v.2.1 <<< 10 + v.2.2

/-- `none` is an overflow of `int`, which C does not define. A version that is not accepted is only
warned of. -/
def tstKvcmp (curKver : List UInt8) (r : Kver) : Option Int :=
  let a := (tstParseKver curKver).2
  if a.weight ≤ intMax ∧ r.weight ≤ intMax then some (a.weight - r.weight : Int) else none

def Kver.Before : Kver → Kver → Prop := Prod.Lex (· < ·) (Prod.Lex (· < ·) (· < ·))

/-- The sign of `d` is the order of the versions. -/
def SignOf (d : Int) (a r : Kver) : Prop :=
  (d < 0 ↔ a.Before r) ∧ (d = 0 ↔ a = r) ∧ (0 < d ↔ r.Before a)

/-- Where the first or the second number of `a` is the smaller one, those behind it do not
make up for that. -/
def Kver.Behind (a r : Kver) : Prop :=
  (a.1 < r.1 → 1024 * a.2.1 + a.2.2 < 1048576 * (r.1 - a.1) + 1024 * r.2.1 + r.2.2) ∧
    (a.1 = r.1 → a.2.1 < r.2.1 → a.2.2 < 1024 * (r.2.1 - a.2.1) + r.2.2)

lemma Kver.weight_eq (v : Kver) : v.weight = 1048576 * v.1 + 1024 * v.2.1 + v.2.2 := by
  rw [weight, Nat.shiftLeft_eq, Nat.shiftLeft_eq]
  omega

lemma Kver.before_iff (a r : Kver) : a.Before r ↔
    a.1 < r.1 ∨ a.1 = r.1 ∧ (a.2.1 < r.2.1 ∨ a.2.1 = r.2.1 ∧ a.2.2 < r.2.2) := by
  rw [Before, Prod.lex_def, Prod.lex_def]

lemma signOf_iff (a r : Kver) :
    SignOf (a.weight - r.weight : Int) a r ↔ a.Behind r ∧ r.Behind a := by
  simp only [SignOf, Kver.before_iff, Kver.weight_eq, Kver.Behind, Prod.ext_iff]
  omega

/-- **The comparison of an accepted version** has the right sign just if both weights are
in the range of `int` and no number makes up for one before it. -/
theorem tstKvcmp_sign_iff {curKver : List UInt8} {a : Kver} (r : Kver)
    (h : tstParseKver curKver = (true, a)) :
    (∃ d, tstKvcmp curKver r = some d ∧ SignOf d a r) ↔
      (a.weight ≤ intMax ∧ r.weight ≤ intMax) ∧ a.Behind r ∧ r.Behind a := by
  rw [← signOf_iff, tstKvcmp, h]
  split
  case isTrue hfit => simp [hfit]
  case isFalse hfit => simp [hfit]

/-- `5.4-rc` and 5.3.1 -/
theorem tstKvcmp_sign_short :
    ∃ d, tstKvcmp [0x35, 0x2e, 0x34, 0x2d, 0x72, 0x63] (5, 3, 1) = some d ∧
      SignOf d (5, 4, 0) (5, 3, 1) :=
  (tstKvcmp_sign_iff (5, 3, 1) rfl).2 ⟨by decide, by simp [Kver.Behind], by simp [Kver.Behind]⟩

/-- `4.9.1500` comes out after 4.10.0. -/
theorem tstKvcmp_patchlevel :
    tstParseKver [0x34, 0x2e, 0x39, 0x2e, 0x31, 0x35, 0x30, 0x30] = (true, 4, 9, 1500) ∧
      tstKvcmp [0x34, 0x2e, 0x39, 0x2e, 0x31, 0x35, 0x30, 0x30] (4, 10, 0) = some 476 := by
  decide

end LtpDdt.Kvercmp
