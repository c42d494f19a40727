/-
TstCmd.CheckCmd — requirements on the version of a command, `tst_check_cmd` of
`lib/tst_cmd.c`.

The model begins with the three tokens of a requirement, for a command that is found.
`none` stands for a `tst_brkm`, and for what C does not define: a number that does not
fit what it is read into, and an overflow of `int`.
-/
import LtpDdt.Kvercmp.Kvcmp

namespace LtpDdt.TstCmd

open CTypes Kvercmp List

/-- The three numbers, as `int`s. -/
abbrev Version := Int × Int × Int

/-- A conversion of `scanf`: white space, a sign and digits, for a value between `lo` and `hi`.
It is stored in an `int`. -/
def scanNumber (lo hi : Int) (str : List UInt8) : Option (Int × List UInt8) :=
  let str := str.dropWhile isSpaceByte
  let sign := str.head?
  let str := if sign = some 0x2d ∨ sign = some 0x2b then str.tail else str
  let n : Int := leadingDigits 0 str
  let v := if sign = some 0x2d then -n else n
  if str.takeWhile isDigitByte = [] ∨ v < lo ∨ hi < v then none
  else some (int32 v, str.dropWhile isDigitByte)

/-- `%d` -/
def scanInt : List UInt8 → Option (Int × List UInt8) := scanNumber (-intMax - 1) intMax

/-- `%u`, which takes a sign as well -/
def scanUnsigned : List UInt8 → Option (Int × List UInt8) := scanNumber (-4294967295) 4294967295

/-- Three numbers with dots between them, and what follows. -/
def scanVersion (scan : List UInt8 → Option (Int × List UInt8)) (str : List UInt8) :
    Option (Version × List UInt8) :=
  match scan str with
  | some (major, 0x2e :: str) =>
    match scan str with
    | some (minor, 0x2e :: str) => (scan str).map fun (patch, str) => ((major, minor, patch), str)
    | _ => none
  | _ => none

/-- The words of the format, with a space after each. -/
def scanWords : List (List UInt8) → List UInt8 → Option (List UInt8)
  | [], str => some str
  | w :: words, str =>
    if w <+: str then scanWords words ((str.drop w.length).dropWhile isSpaceByte) else none

/-- The entries of `version_parsers`. -/
inductive Parser where
  | mkfsExt4 | mkfsXfs

def Parser.words : Parser → List (List UInt8)
  | mkfsExt4 => [[0x6d, 0x6b, 0x65, 0x32, 0x66, 0x73]] -- mke2fs
  | mkfsXfs => [[0x6d, 0x6b, 0x66, 0x73, 0x2e, 0x78, 0x66, 0x73], -- mkfs.xfs
      [0x76, 0x65, 0x72, 0x73, 0x69, 0x6f, 0x6e]] -- version

/-- The installed version, from what the command prints. -/
def Parser.parser (p : Parser) (out : List UInt8) : Option Version :=
  ((scanWords p.words out).bind (scanVersion scanInt)).map (·.1)

/-- `%n` is the length of the string if only white space follows. -/
def mkfsGenericVersionTableGet (version : List UInt8) : Option Version :=
  (scanVersion scanUnsigned version).bind fun (v, str) =>
    if str.dropWhile isSpaceByte = [] then some v else none

/-- The result of an operation on `int`s. -/
def inInt (x : Int) : Option Int := if -intMax - 1 ≤ x ∧ x ≤ intMax then some x else none

/-- `major * 10000 + minor * 100 + patch` -/
def Version.number (v : Version) : Option Int := do
  let major ← inInt (v.1 * 10000)
  let minor ← inInt (v.2.1 * 100)
  let sum ← inInt (major + minor)
  inInt (sum + v.2.2)

inductive Op where
  | ge | gt | le | lt | eq | ne

/-- The condition of the `goto error`. -/
def Op.error : Op → Int → Int → Bool
  | ge, p, g => p < g
  | gt, p, g => p ≤ g
  | le, p, g => p > g
  | lt, p, g => p ≥ g
  | eq, p, g => p ≠ g
  | ne, p, g => p = g

def tstCheckCmd (p : Parser) (out : List UInt8) (op : Op) (version : List UInt8)
    (brkNosupp : Bool) : Option Bool := do
  let verParser ← (← p.parser out).number
  if verParser < 0 then none
  else
    let verGet ← (← mkfsGenericVersionTableGet version).number
    if verGet < 0 then none
    else if op.error verParser verGet then if brkNosupp then none else some false
    else some true

/-! ## The order of the versions -/

/-- A version whose numbers are not negative. -/
def Version.ofKver (v : Kver) : Version := (v.1, v.2.1, v.2.2)

def number (v : Kver) : Nat := v.1 * 10000 + v.2.1 * 100 + v.2.2

def Op.Holds : Op → Kver → Kver → Prop
  | ge, a, r => ¬ a.Before r
  | gt, a, r => r.Before a
  | le, a, r => ¬ r.Before a
  | lt, a, r => a.Before r
  | eq, a, r => a = r
  | ne, a, r => ¬ a = r

/-- Where the first or the second number of `a` is the smaller one, those behind it are so related
to what would make up for that, with two decimal digits to a number. -/
def Short (rel : Nat → Nat → Prop) (a r : Kver) : Prop :=
  (a.1 < r.1 → rel (100 * a.2.1 + a.2.2) (10000 * (r.1 - a.1) + 100 * r.2.1 + r.2.2)) ∧
    (a.1 = r.1 → a.2.1 < r.2.1 → rel a.2.2 (100 * (r.2.1 - a.2.1) + r.2.2))

/-- Where an operator is right. -/
def Op.Exact : Op → Kver → Kver → Prop
  | ge, a, r | lt, a, r => Short (· < ·) a r ∧ Short (· ≤ ·) r a
  | gt, a, r | le, a, r => Short (· ≤ ·) a r ∧ Short (· < ·) r a
  | eq, a, r | ne, a, r => Short (· ≠ ·) a r ∧ Short (· ≠ ·) r a

/-- The order of the numbers is that of the versions. -/
lemma number_lt_iff (a r : Kver) : (number a < number r ↔ a.Before r) ↔
    Short (· < ·) a r ∧ Short (· ≤ ·) r a := by
  simp only [number, Short, Kver.before_iff]
  omega

lemma number_eq_iff (a r : Kver) : (number a = number r ↔ a = r) ↔
    Short (· ≠ ·) a r ∧ Short (· ≠ ·) r a := by
  simp only [number, Short, Prod.ext_iff, ne_eq]
  omega

lemma inInt_eq {x : Int} (h : 0 ≤ x) (hfit : x ≤ intMax) : inInt x = some x := by
  have hmin : -intMax - 1 ≤ x := by unfold intMax; omega
  exact if_pos ⟨hmin, hfit⟩

/-- Without an overflow of the sum there is none on the way. -/
lemma number_ofKver {v : Kver} (h : number v ≤ intMax) :
    (Version.ofKver v).number = some (number v : Int) := by
  unfold number at h
  push_cast at h
  have hmajor : inInt ((v.1 : Int) * 10000) = some ((v.1 : Int) * 10000) :=
    inInt_eq (by omega) (by omega)
  have hminor : inInt ((v.2.1 : Int) * 100) = some ((v.2.1 : Int) * 100) :=
    inInt_eq (by omega) (by omega)
  have hsum : inInt ((v.1 : Int) * 10000 + v.2.1 * 100) =
      some ((v.1 : Int) * 10000 + v.2.1 * 100) :=
    inInt_eq (by omega) (by omega)
  simp only [Version.number, Version.ofKver, hmajor, hminor, Option.bind_eq_bind, Option.bind_some,
    hsum]
  rw [inInt_eq (by omega) (by omega), number]
  push_cast
  rfl

section

variable {p : Parser} {out version : List UInt8} {a r : Kver}
  (ha : p.parser out = some (.ofKver a))
  (hr : mkfsGenericVersionTableGet version = some (.ofKver r))
  (hfit : number a ≤ intMax ∧ number r ≤ intMax) (brkNosupp : Bool)
include ha hr hfit

/-- The decision is that of the two numbers. -/
lemma tstCheckCmd_eq (op : Op) : tstCheckCmd p out op version brkNosupp = some true ↔
    ¬ op.error (number a) (number r) := by
  have hna : ¬ (number a : Int) < 0 := by omega
  have hnr : ¬ (number r : Int) < 0 := by omega
  simp only [tstCheckCmd, ha, hr, Option.bind_eq_bind, Option.bind_some, number_ofKver hfit.1,
    number_ofKver hfit.2, if_neg hna, if_neg hnr]
  cases op.error (number a) (number r) <;> cases brkNosupp <;> simp

/-- **The six comparisons.** Each is that of the versions just where `Op.Exact` says so, and all of
them are just if no number makes up for one before it. -/
theorem tstCheckCmd_holds_iff :
    (∀ op, (tstCheckCmd p out op version brkNosupp = some true ↔ op.Holds a r) ↔ op.Exact a r) ∧
      ((∀ op, tstCheckCmd p out op version brkNosupp = some true ↔ op.Holds a r) ↔
        Short (· < ·) a r ∧ Short (· < ·) r a) := by
  have hop (op : Op) : (tstCheckCmd p out op version brkNosupp = some true ↔ op.Holds a r) ↔
      op.Exact a r := by
    have hlt := number_lt_iff a r
    have hgt := (number_lt_iff r a).trans and_comm
    rw [tstCheckCmd_eq ha hr hfit]
    cases op <;> simp only [Op.error, Op.Holds, Op.Exact, ge_iff_le, gt_iff_lt, ne_eq,
      decide_eq_true_eq, not_not, not_le, not_iff_not, Int.ofNat_lt, Int.natCast_inj, hlt, hgt,
      number_eq_iff]
  refine ⟨hop, ?_⟩
  rw [forall_congr' hop]
  constructor
  · exact fun h => ⟨(h .lt).1, (h .gt).2⟩
  · rintro ⟨har, hra⟩ op
    have hle {a r : Kver} (h : Short (· < ·) a r) : Short (· ≤ ·) a r :=
      ⟨fun h₁ => (h.1 h₁).le, fun h₁ h₂ => (h.2 h₁ h₂).le⟩
    have hne {a r : Kver} (h : Short (· < ·) a r) : Short (· ≠ ·) a r :=
      ⟨fun h₁ => (h.1 h₁).ne, fun h₁ h₂ => (h.2 h₁ h₂).ne⟩
    cases op with
    | ge | lt => exact ⟨har, hle hra⟩
    | gt | le => exact ⟨hle har, hra⟩
    | eq | ne => exact ⟨hne har, hne hra⟩

end

/-- `mke2fs 1.47.0` and 1.43.0 -/
theorem tstCheckCmd_holds_ext4 : tstCheckCmd .mkfsExt4
    (Parser.mkfsExt4.words.flatten ++ [0x20, 0x31, 0x2e, 0x34, 0x37, 0x2e, 0x30]) .ge
    [0x31, 0x2e, 0x34, 0x33, 0x2e, 0x30] true = some true := by
  have hexact : Op.Exact .ge (1, 47, 0) (1, 43, 0) := by simp [Op.Exact, Short]
  exact (((tstCheckCmd_holds_iff (by decide) (by decide) (by decide) true).1 .ge).2 hexact).2
    (by simp [Op.Holds, Kver.before_iff])

/-- `mke2fs 1.2.100` is taken for 1.3.0. -/
theorem tstCheckCmd_patch : tstCheckCmd .mkfsExt4
    (Parser.mkfsExt4.words.flatten ++ [0x20, 0x31, 0x2e, 0x32, 0x2e, 0x31, 0x30, 0x30]) .eq
    [0x31, 0x2e, 0x33, 0x2e, 0x30] true = some true := by
  decide

end LtpDdt.TstCmd
