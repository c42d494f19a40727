/-
RandomRange.Range — `random_range`, `random_rangel`, `random_rangell` and `divider` of
`lib/random_range.c`.

The three functions have one body, `randomRangeWith`; its parameters are the largest
value of the type of the arguments, that of the type of the result, and whether values
above 2 GiB are drawn with `divider`, which only `random_rangell` does (and
`random_rangel` where `_MIPS_SZLONG` is 64).

* Every sum, difference and product of a signed type goes through `fits`, which has no
  value when the type cannot hold it: C does not define the behaviour then. `%` and
  `/` of C are `Int.tmod` and `Int.tdiv`.
* `lrand48()`, called at most once, is the argument `rand`.
* `errp` is valid; the result has what it points to, `none` for `NULL`.
-/
import Mathlib.Data.BitVec

namespace LtpDdt.RandomRange

/-- The value in a signed type whose largest value is `top`. -/
def fits (top x : Int) : Option Int := if -top - 1 ≤ x ∧ x ≤ top then some x else none

def intMax : Int := 2147483647

def llongMax : Int := 9223372036854775807

/-- What a call returns, and the text `*errp` points to. -/
structure Ret where
  value : Int
  err : Option String
  deriving DecidableEq

/-- `rand & (1 << cnt)`; the shift is one of an `int`. -/
def randBit (rand : Int) (cnt : Nat) : Option Bool :=
  if cnt ≤ 30 then some (rand.toNat.testBit cnt) else none

/-- `divider` with `33 - cnt` calls left, for the number drawn by the first call. -/
def dividerFrom (top : Int) : Nat → Int → Int → Int → Option Int
  | 0, _, _, _ => some (-1)
  | left + 1, min, max, rand => do
      let cnt := 32 - left
      let diff ← fits top (max - min)
      if diff ≤ 2147483647 then fits top (min + rand)
      else
        let half := diff.tdiv 2
        let med ← fits top (min + half)
        let bit ← randBit rand cnt
        if half ≤ 2147483647 then
          if bit then fits top (med + rand) else fits top (min + rand)
        else if bit then dividerFrom top left med max rand
        else dividerFrom top left min med rand

def divider (top min max rand : Int) : Option Int := dividerFrom top 33 min max rand

/-- `if ((r = min % mult)) min += mult - r;` -/
def bumpMin (top min mult : Int) : Option Int :=
  let r := min.tmod mult
  if r ≠ 0 then do
    let up ← fits top (mult - r)
    fits top (min + up)
  else some min

/-- `if ((r = max % mult)) max -= r;` -/
def reduceMax (top max mult : Int) : Option Int :=
  let r := max.tmod mult
  if r ≠ 0 then fits top (max - r) else some max

/-- The number that is reduced modulo `nmults`. -/
def randnum (top : Int) (wide : Bool) (min max rand : Int) : Option Int :=
  if wide && 2147483647 < max then divider top min max rand else some rand

/-- The selection of one of the multiples from `min` to `max`. -/
def select (top sumTop : Int) (wide : Bool) (min max mult rand : Int) : Option Ret := do
  let diff ← fits top (max - min)
  let nmults ← fits top (diff.tdiv mult + 1)
  let num ← randnum top wide min max rand
  let off ← fits sumTop (num.tmod nmults * mult)
  let value ← fits sumTop (min + off)
  some ⟨value, none⟩

def randomRangeWith (top sumTop : Int) (wide : Bool) (min max mult rand : Int) : Option Ret :=
  if mult < 1 then some ⟨-1, some "mult arg must be greater than 0"⟩
  else
    let (lo, hi) := if max < min then (max, min) else (min, max)
    do
      let lo ← bumpMin top lo mult
      let hi ← reduceMax top hi mult
      if lo > hi then
        some ⟨-1, some s!"no numbers in the range {min}:{max} that are a multiple of {mult}"⟩
      else select top sumTop wide lo hi mult rand

/-- The width of `long`, and whether the compiler defines `_MIPS_SZLONG` as
64. -/
structure Abi where
  long64 : Bool
  mips64 : Bool
  mips64_long64 : mips64 = true → long64 = true

def Abi.longMax (abi : Abi) : Int := if abi.long64 then llongMax else intMax

def randomRange (abi : Abi) (min max mult rand : Int) : Option Ret :=
  randomRangeWith intMax abi.longMax false min max mult rand

def randomRangel (abi : Abi) (min max mult rand : Int) : Option Ret :=
  randomRangeWith abi.longMax abi.longMax abi.mips64 min max mult rand

def randomRangell (min max mult rand : Int) : Option Ret :=
  randomRangeWith llongMax llongMax true min max mult rand

end LtpDdt.RandomRange
