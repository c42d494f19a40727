/-
TstTest.Filesize — `tst_parse_filesize` of `lib/tst_test.c`, behind `strtoll`.
-/
import Mathlib.Data.BitVec

namespace LtpDdt.TstTest

def LongLong (x : Int) : Prop := -2 ^ 63 ≤ x ∧ x < 2 ^ 63

instance (x : Int) : Decidable (LongLong x) := inferInstanceAs (Decidable (_ ∧ _))

/-- What `strtoll` finds in a string. -/
structure Strtoll where
  /-- whether there is a number -/
  number : Bool
  value : Int
  /-- what is behind it -/
  rest : List Char
  erange : Bool
  longLong : LongLong value

inductive ParseRet where
  | einval
  | erange
  | ok (val : Int)

def unit : Char → Option Int
  | 'g' | 'G' => some 1073741824
  | 'm' | 'M' => some 1048576
  | 'k' | 'K' => some 1024
  | _ => none

def checkRange (rval min max : Int) : ParseRet :=
  if rval > max ∨ rval < min then .erange else .ok rval

/-- `none` is an overflow of `long long`, which C does not define. -/
def tstParseFilesize (s : Strtoll) (min max : Int) : Option ParseRet :=
  if s.number = false ∨ 2 ≤ s.rest.length then some .einval
  else if s.erange then some .erange
  else
    let rval := s.value * (s.rest.head?.bind unit).getD 1
    if LongLong rval then some (checkRange rval min max) else none

/-- What may follow the number: nothing, or the letter of a unit. -/
def scale : List Char → Option Int
  | [] => some 1
  | [c] => unit c
  | _ => none

/-- Exactly the sizes between the bounds are accepted, and there always is an answer. -/
def ParseRight (s : Strtoll) (min max : Int) : Prop :=
  tstParseFilesize s min max ≠ none ∧ ∀ v, tstParseFilesize s min max = some (.ok v) ↔
    s.number ∧ s.erange = false ∧ (∃ u, scale s.rest = some u ∧ v = s.value * u) ∧ LongLong v ∧
      min ≤ v ∧ v ≤ max

lemma checkRange_ok {rval min max v : Int} :
    checkRange rval min max = .ok v ↔ v = rval ∧ min ≤ v ∧ v ≤ max := by
  unfold checkRange
  split
  · simp
    omega
  · simp
    omega

/-- **A file size** is parsed right unless one character that is no unit follows a number
between the bounds, or the number times the unit is no `long long`. -/
theorem tstParseFilesize_right_iff (s : Strtoll) (min max : Int) : ParseRight s min max ↔
    (s.number → s.erange = false → ∀ c, s.rest = [c] →
      (unit c = none → s.value < min ∨ max < s.value) ∧
      ∀ u, unit c = some u → LongLong (s.value * u)) := by
  have hlong := s.longLong
  unfold ParseRight tstParseFilesize
  cases s.number with
  | false => simp
  | true =>
    cases s.erange with
    | true => split <;> simp
    | false =>
      match s.rest with
      | [] => simp [hlong, scale, checkRange_ok]
      | [c] =>
        cases hu : unit c with
        | none =>
          simp [hlong, scale, hu, checkRange_ok]
          omega
        | some u =>
          by_cases hl : LongLong (s.value * u)
          · simp [hl, scale, hu, checkRange_ok]
          · simp [hl, scale, hu]
      | c :: d :: t => simp [scale]

/-- `1x` is 1. -/
theorem tstParseFilesize_letter :
    tstParseFilesize ⟨true, 1, ['x'], false, by decide⟩ 0 9 = some (.ok 1) := rfl

end LtpDdt.TstTest
