/-
RunShell.Schema — what the metadata of a shell test mean.

A `Spec` is about the value of one member and the field it is for:

* `accepts` — the value has the declared type, range and shape;
* `is` — the field holds the value;
* `fits` — what the code needs beyond `accepts` to get there.

A `Schema` is a table of attributes with a record: each attribute has a field and a
`Spec` for it. The metadata are an object for `testSchema`; in them are arrays of
objects for `fsSchema` and `cmdSchema`. Strings are UTF-8, and the fields hold C
strings: nothing is the value of a string with a zero in it.

Containers are skipped in a first pass, where `\u0000` ends a loop early and
silently. A field never holds a string with a zero, so the values that matter are
clean (`Spec.Lawful.clean_of_is`).

The reader compares the bytes of a name as they stand in the text, so an escaped
name is not found; of the plain ones the binary search finds those that
`Schema.found` says (`Schema.Lawful`).
-/
import LtpDdt.RunShell.Metadata
import LtpDdt.Ujson.ForeachTheorems
import Mathlib.Data.List.TakeWhile

namespace LtpDdt.RunShell

open CTypes (ascii cstr_of_not_mem)
open Json Ujson

/-! ## Values -/

structure Spec (k : Kind) (α : Type) where
  accepts : Member k → Prop
  is : Member k → α → Prop
  fits : Member k → Prop

section Scalars

variable {k : Kind}

/-- A string that is copied as it is: no `\u` escape at its end fills the buffer, and there is no
zero or surrogate. -/
def StrFits : Member k → Prop
  | .scalar _ (.str s) => Fits s strBufSize ∧ ∀ x ∈ s, UcodeOk x
  | _ => True

def textSpec : Spec k (Option CStr) where
  accepts m := ∃ bs, m.text? = some bs ∧ bs.length < strBufSize
  is m p := p.map Subtype.val = m.text?
  fits m := StrFits m

def boolSpec : Spec k Bool where
  accepts m := ∃ b, m.bool? = some b
  is m b := m.bool? = some b
  fits _ := True

def boolIntSpec : Spec k UInt32 where
  accepts m := ∃ b, m.bool? = some b
  is m x := ∃ b, m.bool? = some b ∧ x = if b then 1 else 0
  fits _ := True

/-- A positive integer in a field whose values are below `bound`. -/
def positiveSpec {α : Type} (value : α → Int) (bound : Int) : Spec k α where
  accepts m := ∃ v, m.int? = some v ∧ 0 < v
  is m x := m.int? = some (value x)
  fits m := ∀ v, m.int? = some v → v < bound

def abiSpec : Spec k Int32 where
  accepts m := m.int? = some 32 ∨ m.int? = some 64
  is m x := m.int? = some x.toInt
  fits _ := True

def bitSpec : Spec k Bool where
  accepts m := ∃ v, m.int? = some v
  is m b := m.int? = some (if b then 1 else 0)
  fits m := m.int? = some 0 ∨ m.int? = some 1

end Scalars

/-! ## Arrays -/

section Arrays

variable {k : Kind}

def arraySpec {α : Type} (elem : Spec .arr α) (terminator : α) : Spec k (Option (List α)) where
  accepts m := ∃ seq, m.array? = some seq ∧ ∀ x ∈ seq.members, elem.accepts x
  is m p := ∃ seq ys, m.array? = some seq ∧ p = some (ys ++ [terminator]) ∧
    List.Forall₂ elem.is seq.members ys
  fits m := ∀ seq, m.array? = some seq → ∀ x ∈ seq.members, elem.fits x

def strarrSpec : Spec k (Option (List (Option CStr))) := arraySpec textSpec none

def mntFlag (text : List UInt8) : Option UInt32 :=
  if text = ascii "RDONLY" then some msRdonly
  else if text = ascii "NOATIME" then some msNoatime
  else if text = ascii "NOEXEC" then some msNoexec
  else if text = ascii "NOSUID" then some msNosuid
  else none

/-- An array of names of mount flags, stored as their union. -/
def mntFlagsSpec : Spec k UInt32 where
  accepts m := ∃ seq, m.array? = some seq ∧ ∀ x ∈ seq.members, (x.text?.bind mntFlag).isSome = true
  is m flags := ∃ seq, m.array? = some seq ∧
    flags = (seq.members.filterMap fun x => x.text?.bind mntFlag).foldl (· ||| ·) 0
  fits _ := True

/-- The name and the value of a tag, if they are there. -/
def TagIs : List (Member .arr) → TstTag → Prop
  | [], tag => tag.name = none ∧ tag.value = none
  | [name], tag => textSpec.is name tag.name ∧ tag.value = none
  | [name, value], tag => textSpec.is name tag.name ∧ textSpec.is value tag.value
  | _, _ => False

def tagSpec : Spec .arr TstTag where
  accepts m := ∃ seq, m.array? = some seq ∧ seq.members.length ≤ 2 ∧
    ∀ x ∈ seq.members, textSpec.accepts x
  is m tag := ∃ seq, m.array? = some seq ∧ TagIs seq.members tag
  fits m := ∀ seq, m.array? = some seq → ∀ x ∈ seq.members, StrFits x

def saveFlag (text : List UInt8) : Option UInt32 :=
  if text = ascii "TCONF" then some tstSrTconf
  else if text = ascii "TBROK" then some tstSrTbrok
  else if text = ascii "SKIP" then some tstSrSkip
  else none

/-- A path, what to write or `null`, and what to do if it is missing or read-only. -/
def saveSpec : Spec .arr TstPathVal where
  accepts m := ∃ seq path val flags, m.array? = some seq ∧ seq.members = [path, val, flags] ∧
    textSpec.accepts path ∧ (textSpec.accepts val ∨ val.isNull = true) ∧
    (flags.text?.bind saveFlag).isSome = true
  is m pv := ∃ seq path val flags, m.array? = some seq ∧ seq.members = [path, val, flags] ∧
    textSpec.is path pv.path ∧ textSpec.is val pv.val ∧ flags.text?.bind saveFlag = some pv.flags
  fits m := ∀ seq, m.array? = some seq → ∀ x ∈ seq.members, StrFits x

end Arrays

/-! ## Objects -/

/-- A table of attributes and their record; `found` tells which keys a search finds. -/
structure Schema (ι σ : Type) where
  ids : List ι
  entry : ι → String × UType
  found : ι → Prop
  Ty : ι → Type
  spec : (a : ι) → Spec .obj (Ty a)
  get : (a : ι) → σ → Ty a
  set : (a : ι) → Ty a → σ → σ
  get_set : ∀ a x s, get a (set a x s) = x
  get_set_ne : ∀ a b x s, a ≠ b → get a (set b x s) = get a s

def PlainName (m : Member .obj) : Prop :=
  match m.key with
  | .name s _ _ => ∀ x ∈ s, isPlainElem x = true

namespace Schema

variable {ι σ : Type} (S : Schema ι σ)

def key (a : ι) : List UInt8 := ascii (S.entry a).1

def attrs : List ObjAttr := S.ids.map fun a => ⟨S.key a, (S.entry a).2⟩

def attr? (m : Member .obj) : Option ι := S.ids.find? fun a => m.name? = some (S.key a)

/-- Pairwise distinct names from the table, each with a value for it. -/
structure Accepts (obj : Seq .obj) : Prop where
  members : ∀ m ∈ obj.members, ∃ a, S.attr? m = some a ∧ (S.spec a).accepts m
  distinct : (obj.members.map Member.name?).Nodup

def Holds (obj : Seq .obj) (s : σ) : Prop :=
  ∀ m ∈ obj.members, ∀ a, S.attr? m = some a → (S.spec a).is m (S.get a s)

def Fits (obj : Seq .obj) : Prop :=
  ∀ m ∈ obj.members, PlainName m ∧ ∀ a, S.attr? m = some a → S.found a ∧ (S.spec a).fits m

def elemSpec : Spec .arr σ where
  accepts m := ∃ obj, m.object? = some obj ∧ S.Accepts obj
  is m s := ∃ obj, m.object? = some obj ∧ S.Holds obj s
  fits m := ∀ obj, m.object? = some obj → S.Fits obj

end Schema

/-! ## The elements of `filesystems` -/

def FsAttr.Ty : FsAttr → Type
  | .mkfsOpts => Option (List (Option CStr))
  | .mntFlags => UInt32
  | .minKver | .mkfsSizeOpt | .mkfsVer | .type => Option CStr

def FsAttr.spec : (a : FsAttr) → Spec .obj a.Ty
  | .mkfsOpts => strarrSpec
  | .mntFlags => mntFlagsSpec
  | .minKver | .mkfsSizeOpt | .mkfsVer | .type => textSpec

def FsAttr.get : (a : FsAttr) → TstFs → a.Ty
  | .minKver, fs => fs.minKver
  | .mkfsOpts, fs => fs.mkfsOpts
  | .mkfsSizeOpt, fs => fs.mkfsSizeOpt
  | .mkfsVer, fs => fs.mkfsVer
  | .mntFlags, fs => fs.mntFlags
  | .type, fs => fs.type

def FsAttr.set : (a : FsAttr) → a.Ty → TstFs → TstFs
  | .minKver, x, fs => { fs with minKver := x }
  | .mkfsOpts, x, fs => { fs with mkfsOpts := x }
  | .mkfsSizeOpt, x, fs => { fs with mkfsSizeOpt := x }
  | .mkfsVer, x, fs => { fs with mkfsVer := x }
  | .mntFlags, x, fs => { fs with mntFlags := x }
  | .type, x, fs => { fs with type := x }

def fsSchema : Schema FsAttr TstFs where
  ids := fsAttrIds
  entry := FsAttr.entry
  found _ := True
  Ty := FsAttr.Ty
  spec := FsAttr.spec
  get := FsAttr.get
  set := FsAttr.set
  get_set a x s := by cases a <;> rfl
  get_set_ne a b x s h := by cases b <;> cases a <;> first | rfl | exact absurd rfl h

/-! ## The elements of `needs_cmds` -/

def CmdAttr.Ty : CmdAttr → Type
  | .cmd => Option CStr
  | .optional => Bool

def CmdAttr.spec : (a : CmdAttr) → Spec .obj a.Ty
  | .cmd => textSpec
  | .optional => bitSpec

def CmdAttr.get : (a : CmdAttr) → TstCmd → a.Ty
  | .cmd, c => c.cmd
  | .optional, c => c.optional

def CmdAttr.set : (a : CmdAttr) → a.Ty → TstCmd → TstCmd
  | .cmd, x, c => { c with cmd := x }
  | .optional, x, c => { c with optional := x }

def cmdSchema : Schema CmdAttr TstCmd where
  ids := cmdAttrIds
  entry := CmdAttr.entry
  found _ := True
  Ty := CmdAttr.Ty
  spec := CmdAttr.spec
  get := CmdAttr.get
  set := CmdAttr.set
  get_set a x s := by cases a <;> rfl
  get_set_ne a b x s h := by cases b <;> cases a <;> first | rfl | exact absurd rfl h

/-! ## The metadata -/

inductive Shape where
  | bool | boolInt | uint | ulong | int | abi | str | strarr | filesystems | cmds | tags
  | saveRestore
  deriving DecidableEq

def Shape.Ty : Shape → Type
  | .bool => Bool
  | .boolInt => UInt32
  | .uint => UInt32
  | .ulong => UInt64
  | .int => Int32
  | .abi => Int32
  | .str => Option CStr
  | .strarr => Option (List (Option CStr))
  | .filesystems => Option (List TstFs)
  | .cmds => Option (List TstCmd)
  | .tags => Option (List TstTag)
  | .saveRestore => Option (List TstPathVal)

/-- A `long` is read, so `unsigned long` fields get half of their values. -/
def Shape.spec : (sh : Shape) → Spec .obj sh.Ty
  | .bool => boolSpec
  | .boolInt => boolIntSpec
  | .uint => positiveSpec (fun x => x.toNat) (2 ^ 32)
  | .ulong => positiveSpec (fun x => x.toNat) (2 ^ 63)
  | .int => positiveSpec Int32.toInt (2 ^ 31)
  | .abi => abiSpec
  | .str => textSpec
  | .strarr => strarrSpec
  | .filesystems => arraySpec fsSchema.elemSpec {}
  | .cmds => arraySpec cmdSchema.elemSpec {}
  | .tags => arraySpec tagSpec {}
  | .saveRestore => arraySpec saveSpec {}

def TestAttr.shape : TestAttr → Shape
  | .allFilesystems | .formatDevice | .mountDevice | .needsDevfs | .needsDevice | .needsHugetlbfs
  | .needsRofs | .needsRoot | .needsTmpdir | .restoreWallclock | .skipInCompat | .skipInLockdown
  | .skipInSecureboot => .bool
  | .taintCheck => .boolInt
  | .devMinSize | .tcnt => .uint
  | .minCpus | .minMemAvail | .minSwapAvail => .ulong
  | .minRuntime | .runtime => .int
  | .needsAbiBits => .abi
  | .minKver | .mntpoint => .str
  | .needsDrivers | .needsKconfigs | .skipFilesystems | .supportedArchs => .strarr
  | .filesystems => .filesystems
  | .needsCmds => .cmds
  | .tags => .tags
  | .saveRestore => .saveRestore

def TestAttr.get : (a : TestAttr) → TstTest → a.shape.Ty
  | .allFilesystems, t => t.allFilesystems
  | .devMinSize, t => t.devMinSize
  | .filesystems, t => t.filesystems
  | .formatDevice, t => t.formatDevice
  | .minCpus, t => t.minCpus
  | .minMemAvail, t => t.minMemAvail
  | .minKver, t => t.minKver
  | .minRuntime, t => t.minRuntime
  | .minSwapAvail, t => t.minSwapAvail
  | .mntpoint, t => t.mntpoint
  | .mountDevice, t => t.mountDevice
  | .needsAbiBits, t => t.needsAbiBits
  | .needsCmds, t => t.needsCmds
  | .needsDevfs, t => t.needsDevfs
  | .needsDevice, t => t.needsDevice
  | .needsDrivers, t => t.needsDrivers
  | .needsHugetlbfs, t => t.needsHugetlbfs
  | .needsKconfigs, t => t.needsKconfigs
  | .needsRofs, t => t.needsRofs
  | .needsRoot, t => t.needsRoot
  | .needsTmpdir, t => t.needsTmpdir
  | .restoreWallclock, t => t.restoreWallclock
  | .runtime, t => t.runtime
  | .saveRestore, t => t.saveRestore
  | .skipFilesystems, t => t.skipFilesystems
  | .skipInCompat, t => t.skipInCompat
  | .skipInLockdown, t => t.skipInLockdown
  | .skipInSecureboot, t => t.skipInSecureboot
  | .supportedArchs, t => t.supportedArchs
  | .tags, t => t.tags
  | .taintCheck, t => t.taintCheck
  | .tcnt, t => t.tcnt

def TestAttr.set : (a : TestAttr) → a.shape.Ty → TstTest → TstTest
  | .allFilesystems, x, t => { t with allFilesystems := x }
  | .devMinSize, x, t => { t with devMinSize := x }
  | .filesystems, x, t => { t with filesystems := x }
  | .formatDevice, x, t => { t with formatDevice := x }
  | .minCpus, x, t => { t with minCpus := x }
  | .minMemAvail, x, t => { t with minMemAvail := x }
  | .minKver, x, t => { t with minKver := x }
  | .minRuntime, x, t => { t with minRuntime := x }
  | .minSwapAvail, x, t => { t with minSwapAvail := x }
  | .mntpoint, x, t => { t with mntpoint := x }
  | .mountDevice, x, t => { t with mountDevice := x }
  | .needsAbiBits, x, t => { t with needsAbiBits := x }
  | .needsCmds, x, t => { t with needsCmds := x }
  | .needsDevfs, x, t => { t with needsDevfs := x }
  | .needsDevice, x, t => { t with needsDevice := x }
  | .needsDrivers, x, t => { t with needsDrivers := x }
  | .needsHugetlbfs, x, t => { t with needsHugetlbfs := x }
  | .needsKconfigs, x, t => { t with needsKconfigs := x }
  | .needsRofs, x, t => { t with needsRofs := x }
  | .needsRoot, x, t => { t with needsRoot := x }
  | .needsTmpdir, x, t => { t with needsTmpdir := x }
  | .restoreWallclock, x, t => { t with restoreWallclock := x }
  | .runtime, x, t => { t with runtime := x }
  | .saveRestore, x, t => { t with saveRestore := x }
  | .skipFilesystems, x, t => { t with skipFilesystems := x }
  | .skipInCompat, x, t => { t with skipInCompat := x }
  | .skipInLockdown, x, t => { t with skipInLockdown := x }
  | .skipInSecureboot, x, t => { t with skipInSecureboot := x }
  | .supportedArchs, x, t => { t with supportedArchs := x }
  | .tags, x, t => { t with tags := x }
  | .taintCheck, x, t => { t with taintCheck := x }
  | .tcnt, x, t => { t with tcnt := x }

/-- A binary search does not find `min_kver`, which stands behind `min_mem_avail`. -/
def testSchema : Schema TestAttr TstTest where
  ids := testAttrIds
  entry := TestAttr.entry
  found a := a ≠ .minKver
  Ty a := a.shape.Ty
  spec a := a.shape.spec
  get := TestAttr.get
  set := TestAttr.set
  get_set a x s := by cases a <;> rfl
  get_set_ne a b x s h := by cases b <;> cases a <;> first | rfl | exact absurd rfl h

open List

section Specs

variable {s : List StrElem} {bs : List UInt8} {n : Nat} {type : UType}

/-! ## Strings -/

/-- What a copy can hold: no zero and no surrogate. -/
lemma ucodeOk_iff (x : StrElem) : UcodeOk x ↔ isZero x = false ∧ x.half = none := by
  cases x with
  | plain | esc => simp [UcodeOk, isZero, StrElem.half]
  | ucode =>
    simp only [UcodeOk, isZero, StrElem.half, beq_eq_false_iff_ne, Nat.pos_iff_ne_zero]
    refine and_congr_right fun _ => ?_
    split
    · simp only [reduceCtorEq, iff_false]; omega
    split
    · simp only [reduceCtorEq, iff_false]; omega
    · simp only [iff_true]; omega

lemma utf8_ne_zero {cp} (h0 : cp ≠ 0) (h : cp < 0x10000) : (0 : UInt8) ∉ utf8 cp := by
  have hne : ∀ n, 0 < n → n < 256 → (0 : UInt8) ≠ UInt8.ofNat n := by
    intro n _ _ heq
    have := congrArg UInt8.toNat heq
    simp at this
    omega
  unfold utf8
  split
  · exact not_mem_cons_of_ne_of_not_mem (hne _ (by omega) (by omega)) not_mem_nil
  split <;> simp only [mem_cons, not_mem_nil, or_false, not_or]
  · exact ⟨hne _ (by omega) (by omega), hne _ (by omega) (by omega)⟩
  · exact ⟨hne _ (by omega) (by omega), hne _ (by omega) (by omega), hne _ (by omega) (by omega)⟩

variable {x : StrElem} {seq : Seq .arr} {buf : Option Nat} {f : UInt32}

/-- Only an escaped zero is decoded to a zero. -/
lemma decode_ne_zero (h : isZero x = false) : (0 : UInt8) ∉ x.decode := by
  cases x with
  | plain b hb =>
    have := ((isPlain_iff b).mp hb).1
    simp only [StrElem.decode, mem_singleton]
    rintro rfl
    exact this (by decide)
  | esc c => cases c <;> decide
  | ucode => exact utf8_ne_zero (by simpa [isZero] using h) (codePoint_lt ..)

lemma isZero_decode (h : isZero x) : x.half = none ∧ x.decode = [0] := by
  cases x with
  | plain | esc => cases h
  | ucode h₁ h₂ h₃ h₄ =>
    have h0 : codePoint h₁ h₂ h₃ h₄ = 0 := by simpa [isZero] using h
    simp [StrElem.half, StrElem.decode, h0, utf8]

/-- A value without a zero has no escaped one. -/
lemma noZero_of_value (h : strValue s = some bs)
    (h0 : (0 : UInt8) ∉ bs) : ∀ x ∈ s, isZero x = false := by
  intro x hx
  by_contra hz
  obtain ⟨hhalf, hdec⟩ := isZero_decode (Bool.of_not_eq_false hz)
  exact h0 (mem_strValueFrom h hx hhalf (by simp [hdec]))

/-- Without a zero the copy is the whole string. -/
lemma strdup_decode (h : ∀ x ∈ s, isZero x = false) : (strdup (strDecode s)).1 = strDecode s := by
  refine cstr_of_not_mem fun h0 => ?_
  obtain ⟨x, hx, hb⟩ := mem_flatMap.mp h0
  exact decode_ne_zero (h x hx) hb

/-- The copy of what the reader decodes is the value only without a zero and a surrogate. -/
lemma strdup_eq_iff (h : strValue s = some bs) :
    (strdup (strDecode s)).1 = bs ↔ ∀ x ∈ s, UcodeOk x := by
  simp only [ucodeOk_iff, forall_and]
  constructor
  · intro heq
    have hz := noZero_of_value h (heq ▸ (strdup (strDecode s)).2)
    rw [strdup_decode hz] at heq
    exact ⟨hz, strValue_eq_strDecode_iff.mp (heq ▸ h)⟩
  · rintro ⟨hz, hhalf⟩
    rw [strValue_of_noHalf hhalf, Option.some.injEq] at h
    rw [strdup_decode hz, h]

/-! ## Members by their value -/

section Cases

variable {k : Kind} {m : Member k}

lemma text_cases (h : m.text? = some bs) :
    ∃ key s, m = .scalar key (.str s) ∧ strValue s = some bs := by
  unfold Member.text? at h
  split at h
  · exact ⟨_, _, rfl, h⟩
  · cases h

lemma int_cases {v} (h : m.int? = some v) :
    ∃ key n, m = .scalar key (.num n) ∧ n.isInt ∧ n.value = v := by
  unfold Member.int? at h
  split at h
  · split at h
    · exact ⟨_, _, rfl, ‹_›, Option.some.inj h⟩
    · cases h
  · cases h

lemma bool_cases {b} (h : m.bool? = some b) : ∃ key, m = .scalar key (.bool b) := by
  unfold Member.bool? at h
  split at h
  · cases h; exact ⟨_, rfl⟩
  · cases h

lemma null_cases (h : m.isNull) : ∃ key, m = .scalar key .null := by
  unfold Member.isNull at h
  split at h
  · exact ⟨_, rfl⟩
  · cases h

lemma array_cases (h : m.array? = some seq) : ∃ key, m = .sub key .arr seq := by
  unfold Member.array? at h
  split at h
  · cases h; exact ⟨_, rfl⟩
  · cases h

lemma object_cases {obj} (h : m.object? = some obj) : ∃ key, m = .sub key .obj obj := by
  unfold Member.object? at h
  split at h
  · cases h; exact ⟨_, rfl⟩
  · cases h

end Cases

/-! ## Clean values -/

def Clean {k : Kind} (m : Member k) : Prop := m.ValueAll (fun _ => KeyClean) (ScalarReads none)

def Reads {k : Kind} (m : Member k) : Prop :=
  m.ValueAll (fun _ => KeyReads) (ScalarReads (some strBufSize))

/-- Members one by one, for a skip. -/
lemma seqClean_of_all {k : Kind} {s : Seq k}
    (h : s.All (fun _ => KeyClean) (ScalarReads none)) : SeqClean none s := by
  induction s with
  | nil => trivial
  | scalar sep lead key v next ih => exact ⟨⟨h.1.1, .inl h.1.2⟩, ih h.2⟩
  | sub sep lead key k' inner next ihi ihn => exact ⟨h.1, ihi h.2.1, ihn h.2.2⟩

lemma seqReads_of_all {k : Kind} {s : Seq k} (h : s.All (fun _ => KeyReads) (ScalarReads buf)) :
    SeqReads buf s := by
  induction s with
  | nil => trivial
  | scalar sep lead key v next ih => exact ⟨h.1, ih h.2⟩
  | sub sep lead key k' inner next ihi ihn => exact ⟨h.1, ihi h.2.1, ihn h.2.2⟩

section Arrays

variable {k : Kind} {key : Key k} {seq : Seq .arr}

lemma keyClean_elem : (key : Key .arr) → KeyClean key
  | .elem => trivial

lemma keyReads_elem : (key : Key .arr) → KeyReads key
  | .elem => Nat.zero_lt_succ 63

/-- An array is clean if its elements are. -/
lemma clean_array (h : ∀ x ∈ seq.members, Clean x) : Clean (.sub key .arr seq) :=
  (Seq.all_iff_members seq).mpr fun x hx => x.all_iff.mpr ⟨keyClean_elem _, h x hx⟩

/-- An array is read if its elements are. -/
lemma reads_array (h : ∀ x ∈ seq.members, Reads x) : Reads (.sub key .arr seq) :=
  (Seq.all_iff_members seq).mpr fun x hx => x.all_iff.mpr ⟨keyReads_elem _, h x hx⟩

lemma clean_of_array (h : Clean (.sub key .arr seq)) : ∀ x ∈ seq.members, Clean x :=
  fun x hx => (x.all_iff.mp ((Seq.all_iff_members seq).mp h x hx)).2

/-- An array is one deeper than its elements. -/
lemma depth_array (h : ∀ x ∈ seq.members, x.depth ≤ n) :
    (Member.sub key .arr seq).depth ≤ n + 1 := Nat.succ_le_succ (seq.depth_le h)

end Arrays

/-! ## Lawful specifications -/

section Lawful

variable {k : Kind} {α : Type}

/-- How the values of a specification look to the reader. -/
structure Spec.Lawful (sp : Spec k α) (type : UType) (n : Nat) : Prop where
  type : ∀ {m}, sp.accepts m → memberType m = type
  depth : ∀ {m}, sp.accepts m → m.depth ≤ n
  clean_of_is : ∀ {m x}, sp.accepts m → sp.is m x → Clean m
  clean_of_fits : ∀ {m}, sp.accepts m → sp.fits m → Clean m
  reads : ∀ {m}, sp.accepts m → sp.fits m → Reads m

/-- A larger bound on the depth is lawful too. -/
lemma Spec.Lawful.mono {sp : Spec k α} {n'} (h : sp.Lawful type n) (hn : n ≤ n') :
    sp.Lawful type n' := { h with depth := fun ha => (h.depth ha).trans hn }

/-- Only a string can be too long for the buffer. -/
lemma scalarReads_of_ne_str {v} (h : scalarType v ≠ .str) : ScalarReads buf v := by
  cases v with
  | str => exact absurd rfl h
  | num | bool | null => trivial

/-- A specification of scalars other than strings is lawful. -/
lemma Spec.lawful_of_scalar {sp : Spec k α} (htype : type ≠ .str)
    (h : ∀ {m}, sp.accepts m → ∃ key v, m = .scalar key v ∧ scalarType v = type) :
    sp.Lawful type 0 where
  type ha := by obtain ⟨_, v, rfl, hv⟩ := h ha; exact hv
  depth ha := by obtain ⟨_, v, rfl, -⟩ := h ha; exact Nat.le_refl 0
  clean_of_is ha _ := by
    obtain ⟨_, v, rfl, rfl⟩ := h ha
    exact scalarReads_of_ne_str htype
  clean_of_fits ha _ := by
    obtain ⟨_, v, rfl, rfl⟩ := h ha
    exact scalarReads_of_ne_str htype
  reads ha _ := by
    obtain ⟨_, v, rfl, rfl⟩ := h ha
    exact scalarReads_of_ne_str htype

lemma int_scalar {m : Member k} {v} (h : m.int? = some v) :
    ∃ key v, m = .scalar key v ∧ scalarType v = .int := by
  obtain ⟨key, n, rfl, hint, -⟩ := int_cases h
  exact ⟨key, .num n, rfl, by simp [scalarType, hint]⟩

lemma bool_scalar {m : Member k} {b} (h : m.bool? = some b) :
    ∃ key v, m = .scalar key v ∧ scalarType v = .bool := by
  obtain ⟨key, rfl⟩ := bool_cases h
  exact ⟨key, .bool b, rfl, rfl⟩

lemma boolSpec_lawful : (boolSpec (k := k)).Lawful .bool 0 :=
  Spec.lawful_of_scalar nofun fun ⟨_, hb⟩ => bool_scalar hb

lemma boolIntSpec_lawful : (boolIntSpec (k := k)).Lawful .bool 0 :=
  Spec.lawful_of_scalar nofun fun ⟨_, hb⟩ => bool_scalar hb

/-- Positive integers are lawful. -/
lemma positiveSpec_lawful (value : α → Int) (bound : Int) :
    (positiveSpec (k := k) value bound).Lawful .int 0 :=
  Spec.lawful_of_scalar nofun fun ⟨_, hv, _⟩ => int_scalar hv

lemma abiSpec_lawful : (abiSpec (k := k)).Lawful .int 0 :=
  Spec.lawful_of_scalar nofun fun h => h.elim int_scalar int_scalar

lemma bitSpec_lawful : (bitSpec (k := k)).Lawful .int 0 :=
  Spec.lawful_of_scalar nofun fun ⟨_, hv⟩ => int_scalar hv

lemma clean_of_textIs {m : Member k} {p} (hbs : m.text? = some bs) (h : textSpec.is m p) :
    Clean m := by
  obtain ⟨_, s, rfl, hs⟩ := text_cases hbs
  have h : p.map Subtype.val = some bs := h.trans hs
  obtain ⟨c, rfl, rfl⟩ := Option.map_eq_some_iff.mp h
  exact noZero_of_value hs c.2

lemma scalar_of_text {m : Member k} (h : m.text? = some bs) : ∃ key v, m = .scalar key v := by
  obtain ⟨key, s, rfl, -⟩ := text_cases h
  exact ⟨key, _, rfl⟩

/-- A string that fits can be read. -/
lemma clean_of_strFits {m : Member k} (hm : ∃ key v, m = .scalar key v) (h : StrFits m) :
    Clean m := by
  obtain ⟨_, v, rfl⟩ := hm
  cases v with
  | str => exact fun x hx => ((ucodeOk_iff x).mp (h.2 x hx)).1
  | num | bool | null => trivial

lemma reads_of_strFits {m : Member k} (hm : ∃ key v, m = .scalar key v) (h : StrFits m) :
    Reads m := by
  obtain ⟨_, v, rfl⟩ := hm
  cases v with
  | str => exact h.1
  | num | bool | null => trivial

lemma depth_of_scalar {m : Member k} (hm : ∃ key v, m = .scalar key v) : m.depth ≤ n := by
  obtain ⟨_, v, rfl⟩ := hm
  exact Nat.zero_le n

/-- Strings are lawful. -/
lemma textSpec_lawful : (textSpec (k := k)).Lawful .str 0 where
  type := fun ⟨bs, hbs, _⟩ => by obtain ⟨_, s, rfl, -⟩ := text_cases hbs; rfl
  depth := fun ⟨_, hbs, _⟩ => depth_of_scalar (scalar_of_text hbs)
  clean_of_is := fun ⟨_, hbs, _⟩ his => clean_of_textIs hbs his
  clean_of_fits := fun ⟨_, hbs, _⟩ hf => clean_of_strFits (scalar_of_text hbs) hf
  reads := fun ⟨_, hbs, _⟩ hf => reads_of_strFits (scalar_of_text hbs) hf

lemma forall₂_left {β γ : Type} {R : β → γ → Prop} {xs : List β} {ys : List γ}
    (h : Forall₂ R xs ys) {x : β} (hx : x ∈ xs) : ∃ y, R x y := by
  induction h with
  | nil => cases hx
  | cons hr _ ih =>
    rcases mem_cons.mp hx with rfl | hx
    · exact ⟨_, hr⟩
    · exact ih hx

/-- **Arrays** of what is lawful are lawful. -/
lemma arraySpec_lawful {elem : Spec .arr α} (h : elem.Lawful type n)
    (terminator : α) : (arraySpec (k := k) elem terminator).Lawful .arr (n + 1) where
  type := fun ⟨seq, hseq, _⟩ => by obtain ⟨_, rfl⟩ := array_cases hseq; rfl
  depth := fun ⟨seq, hseq, ha⟩ => by
    obtain ⟨_, rfl⟩ := array_cases hseq
    exact depth_array fun x hx => h.depth (ha x hx)
  clean_of_is := fun ⟨seq, hseq, ha⟩ ⟨seq', ys, hseq', _, his⟩ => by
    obtain ⟨_, rfl⟩ := array_cases hseq
    cases hseq'
    refine clean_array fun x hx => ?_
    obtain ⟨y, hy⟩ := forall₂_left his hx
    exact h.clean_of_is (ha x hx) hy
  clean_of_fits := fun ⟨seq, hseq, ha⟩ hf => by
    obtain ⟨_, rfl⟩ := array_cases hseq
    exact clean_array fun x hx => h.clean_of_fits (ha x hx) (hf seq rfl x hx)
  reads := fun ⟨seq, hseq, ha⟩ hf => by
    obtain ⟨_, rfl⟩ := array_cases hseq
    exact reads_array fun x hx => h.reads (ha x hx) (hf seq rfl x hx)

/-! ## Names of flags -/

def ShortName (bs : List UInt8) : Prop :=
  (bs.all fun b => b ≠ 0 && b < 0x80) = true ∧ bs.length + 1 < strBufSize

instance (bs : List UInt8) : Decidable (ShortName bs) := inferInstanceAs (Decidable (_ ∧ _))

/-- A short name fits. -/
lemma strFits_of_shortName {m : Member k} (hbs : m.text? = some bs)
    (h : ShortName bs) : StrFits m := by
  obtain ⟨_, s, rfl, hs⟩ := text_cases hbs
  have hascii : ∀ b ∈ bs, b ≠ 0 ∧ b < 0x80 := by simpa using h.1
  have hhalf := (noHalf_of_ascii hs fun b hb => (hascii b hb).2).2
  have hdec : strDecode s = bs := by
    rw [strValue_of_noHalf hhalf] at hs
    exact Option.some.inj hs
  have hz := noZero_of_value hs fun h0 => (hascii 0 h0).1 rfl
  refine ⟨?_, fun x hx => (ucodeOk_iff x).mpr ⟨hz x hx, hhalf x hx⟩⟩
  have hlen := h.2
  have := (endsInUcode s).toNat_le
  show (strDecode s).length + _ < _
  rw [hdec]
  omega

/-- The names of mount flags are short. -/
lemma mntFlag_shortName (h : mntFlag bs = some f) : ShortName bs := by
  unfold mntFlag at h
  split_ifs at h <;> subst bs <;> decide

/-- The names of save flags are short. -/
lemma saveFlag_shortName (h : saveFlag bs = some f) : ShortName bs := by
  unfold saveFlag at h
  split_ifs at h <;> subst bs <;> decide

lemma flag_text {m : Member k} {flag : List UInt8 → Option UInt32}
    (h : (m.text?.bind flag).isSome) : ∃ bs f, m.text? = some bs ∧ flag bs = some f := by
  obtain ⟨f, hf⟩ := Option.isSome_iff_exists.mp h
  obtain ⟨bs, hbs, hflag⟩ := Option.bind_eq_some_iff.mp hf
  exact ⟨bs, f, hbs, hflag⟩

lemma mntFlagsSpec_lawful : (mntFlagsSpec (k := k)).Lawful .arr 1 := by
  have hclean : ∀ {m : Member k}, mntFlagsSpec.accepts m → Clean m ∧ Reads m ∧ m.depth ≤ 1 := by
    rintro m ⟨seq, hseq, ha⟩
    obtain ⟨_, rfl⟩ := array_cases hseq
    refine ⟨clean_array fun x hx => ?_, reads_array fun x hx => ?_, depth_array fun x hx => ?_⟩ <;>
      obtain ⟨_, f, hbs, hflag⟩ := flag_text (ha x hx)
    · exact clean_of_strFits (scalar_of_text hbs)
        (strFits_of_shortName hbs (mntFlag_shortName hflag))
    · exact reads_of_strFits (scalar_of_text hbs)
        (strFits_of_shortName hbs (mntFlag_shortName hflag))
    · exact depth_of_scalar (scalar_of_text hbs)
  exact {
    type := fun ⟨seq, hseq, _⟩ => by obtain ⟨_, rfl⟩ := array_cases hseq; rfl
    depth := fun ha => (hclean ha).2.2
    clean_of_is := fun ha _ => (hclean ha).1
    clean_of_fits := fun ha _ => (hclean ha).1
    reads := fun ha _ => (hclean ha).2.1 }

lemma tagIs_mem {ms tag} (h : TagIs ms tag) {x} (hx : x ∈ ms) : ∃ p, textSpec.is x p := by
  match ms, h with
  | [name], h =>
    obtain rfl := mem_singleton.mp hx
    exact ⟨_, h.1⟩
  | [name, value], h =>
    rcases mem_pair.mp hx with rfl | rfl
    · exact ⟨_, h.1⟩
    · exact ⟨_, h.2⟩

/-- Tags are lawful. -/
lemma tagSpec_lawful : tagSpec.Lawful .arr 1 where
  type := fun ⟨seq, hseq, _⟩ => by obtain ⟨_, rfl⟩ := array_cases hseq; rfl
  depth := fun ⟨seq, hseq, _, ha⟩ => by
    obtain ⟨_, rfl⟩ := array_cases hseq
    exact depth_array fun x hx => textSpec_lawful.depth (ha x hx)
  clean_of_is := fun ⟨seq, hseq, _, ha⟩ ⟨seq', hseq', his⟩ => by
    obtain ⟨_, rfl⟩ := array_cases hseq
    cases hseq'
    refine clean_array fun x hx => ?_
    obtain ⟨p, hp⟩ := tagIs_mem his hx
    exact textSpec_lawful.clean_of_is (ha x hx) hp
  clean_of_fits := fun ⟨seq, hseq, _, ha⟩ hf => by
    obtain ⟨_, rfl⟩ := array_cases hseq
    exact clean_array fun x hx => textSpec_lawful.clean_of_fits (ha x hx) (hf seq rfl x hx)
  reads := fun ⟨seq, hseq, _, ha⟩ hf => by
    obtain ⟨_, rfl⟩ := array_cases hseq
    exact reads_array fun x hx => textSpec_lawful.reads (ha x hx) (hf seq rfl x hx)

lemma saveSpec_scalar {m : Member .arr} (h : saveSpec.accepts m) (hseq : m.array? = some seq) :
    ∀ x ∈ seq.members, ∃ key v, x = .scalar key v := by
  obtain ⟨_, _, _, _, hseq', hmem, ⟨_, hbs, -⟩, hval, hflags⟩ := h
  cases hseq.symm.trans hseq'
  obtain ⟨_, -, hfs, -⟩ := flag_text hflags
  rw [hmem]
  simp only [mem_cons, not_mem_nil, or_false, forall_eq_or_imp, forall_eq]
  refine ⟨scalar_of_text hbs, ?_, scalar_of_text hfs⟩
  rcases hval with ⟨_, hvs, -⟩ | hnull
  · exact scalar_of_text hvs
  · obtain ⟨key, rfl⟩ := null_cases hnull
    exact ⟨key, _, rfl⟩

/-- Entries of `save_restore` are lawful. -/
lemma saveSpec_lawful : saveSpec.Lawful .arr 1 where
  type := fun ⟨seq, _, _, _, hseq, _⟩ => by obtain ⟨_, rfl⟩ := array_cases hseq; rfl
  depth := fun {m} ha => by
    obtain ⟨seq, _, _, _, hseq, _⟩ := id ha
    obtain ⟨_, rfl⟩ := array_cases hseq
    exact depth_array fun x hx => depth_of_scalar (saveSpec_scalar ha rfl x hx)
  clean_of_is := fun {m x} ⟨seq, path, val, flags, hseq, hmem, ⟨bs, hbs, _⟩, hval, hflags⟩
      ⟨seq', path', val', flags', hseq', hmem', hpath, hv, _⟩ => by
    obtain ⟨_, rfl⟩ := array_cases hseq
    cases hseq'
    cases hmem.symm.trans hmem'
    obtain ⟨_, f, hfs, hflag⟩ := flag_text hflags
    refine clean_array ?_
    rw [hmem]
    simp only [mem_cons, not_mem_nil, or_false, forall_eq_or_imp, forall_eq]
    refine ⟨clean_of_textIs hbs hpath, ?_, clean_of_strFits (scalar_of_text hfs)
      (strFits_of_shortName hfs (saveFlag_shortName hflag))⟩
    rcases hval with ⟨_, hvs, -⟩ | hnull
    · exact clean_of_textIs hvs hv
    · obtain ⟨_, rfl⟩ := null_cases hnull
      trivial
  clean_of_fits := fun {m} ha hf => by
    obtain ⟨seq, _, _, _, hseq, _⟩ := id ha
    obtain ⟨_, rfl⟩ := array_cases hseq
    exact clean_array fun x hx => clean_of_strFits (saveSpec_scalar ha rfl x hx) (hf seq rfl x hx)
  reads := fun {m} ha hf => by
    obtain ⟨seq, _, _, _, hseq, _⟩ := id ha
    obtain ⟨_, rfl⟩ := array_cases hseq
    exact reads_array fun x hx => reads_of_strFits (saveSpec_scalar ha rfl x hx) (hf seq rfl x hx)

end Lawful

end Specs

/-! ## Names -/

section Names

variable {m : Member .obj} {bs : List UInt8}

/-- The key of a member, and when it is plain. -/
lemma name_cases (m : Member .obj) : ∃ s ws₁ ws₂, m.key = .name s ws₁ ws₂ ∧
    m.name? = strValue s ∧ (PlainName m ↔ ∀ x ∈ s, isPlainElem x) := by
  cases hkey : m.key with
  | name s ws₁ ws₂ =>
    exact ⟨s, ws₁, ws₂, rfl, by simp [Member.name?, hkey], by simp [PlainName, hkey]⟩

lemma quote_mem_text {x : StrElem} (h : 0x22 ∈ x.text) : x = .esc .quote := by
  cases x with
  | plain b hb =>
    obtain rfl := mem_singleton.mp h
    cases hb
  | esc c => cases c <;> first | rfl | exact absurd h (by decide)
  | ucode =>
    have hhex : ∀ a : Hex, 0x22 ≠ a.1 := by
      intro a ha
      have := a.2
      rw [← ha] at this
      cases this
    simp [StrElem.text, hhex] at h

/-- A name without a quote is read up to its end. -/
lemma keyClean_of_name (h : m.name? = some bs) (hq : 0x22 ∉ bs) : KeyClean m.key := by
  obtain ⟨s, _, _, hkey, hname, -⟩ := name_cases m
  rw [hkey]
  rintro b hb rfl
  obtain ⟨x, hx, hxt⟩ := mem_flatMap.mp hb
  obtain rfl := quote_mem_text hxt
  exact hq (mem_strValueFrom (hname.symm.trans h) hx rfl (by decide))

lemma plain_half {x : StrElem} (h : isPlainElem x) : x.half = none := by
  cases x with
  | plain => rfl
  | esc | ucode => cases h

/-- A plain name is read as it is. -/
lemma keyId_of_plain (h : m.name? = some bs) (hp : PlainName m) : keyId m.key = bs := by
  obtain ⟨s, _, _, hkey, hname, hplain⟩ := name_cases m
  have hs := hplain.mp hp
  rw [hname, strValue_of_noHalf fun x hx => plain_half (hs x hx), Option.some.injEq] at h
  rw [hkey, ← h]
  exact (plain_text hs).1

/-- A name with an escape keeps its backslash. -/
lemma backslash_of_escape (h : ¬ PlainName m) : 0x5c ∈ keyId m.key := by
  obtain ⟨s, _, _, hkey, -, hplain⟩ := name_cases m
  rw [hplain] at h
  push Not at h
  obtain ⟨x, hx, hne⟩ := h
  rw [hkey]
  refine mem_flatMap.mpr ⟨x, hx, ?_⟩
  cases x with
  | plain => exact absurd rfl hne
  | esc | ucode => simp [StrElem.text]

end Names

/-! ## Tables -/

namespace Schema

variable {ι σ : Type} {S : Schema ι σ} {n : Nat} {m : Member .obj} {a : ι}

structure Lawful (S : Schema ι σ) (n : Nat) : Prop where
  lookup_found : ∀ a, S.found a → ∃ i, ujsonLookup S.attrs (S.key a) = some i ∧ S.ids[i]? = some a
  lookup_lost : ∀ a, ¬ S.found a → ujsonLookup S.attrs (S.key a) = none
  key : ∀ a, 0x22 ∉ S.key a ∧ 0x5c ∉ S.key a ∧ (S.key a).length < ujsonIdMax
  spec : ∀ a, (S.spec a).Lawful (S.entry a).2 n

/-- An attribute is found by its name. -/
lemma attr_name (h : S.attr? m = some a) : m.name? = some (S.key a) := by simpa using find?_some h

/-- No attribute is given twice. -/
lemma Accepts.pairwise {obj : Seq .obj} (h : S.Accepts obj) :
    obj.members.Pairwise fun m m' => S.attr? m ≠ S.attr? m' := by
  refine (pairwise_map.mp h.distinct).imp_of_mem ?_
  intro m _ hm _ hne heq
  obtain ⟨a, ha, -⟩ := h.members m hm
  exact hne ((attr_name ha).trans (attr_name (heq.symm.trans ha)).symm)

namespace Lawful

variable (hS : S.Lawful n)

include hS

lemma keyClean (h : S.attr? m = some a) : KeyClean m.key :=
  keyClean_of_name (attr_name h) (hS.key a).1

/-- A name with an escape is not found in the table. -/
lemma memberIdx_escaped (h : ¬ PlainName m) : memberIdx S.attrs m = none := by
  cases hidx : memberIdx S.attrs m with
  | none => rfl
  | some =>
    obtain ⟨_, hattr, hkey⟩ := ujsonLookup_some hidx
    obtain ⟨b, -, rfl⟩ := mem_map.mp (mem_of_getElem? hattr)
    have := backslash_of_escape h
    rw [← hkey] at this
    exact absurd this (hS.key b).2.1

omit hS in
/-- A plain name is looked up. -/
lemma memberIdx_plain (h : S.attr? m = some a) (hp : PlainName m) :
    memberIdx S.attrs m = ujsonLookup S.attrs (S.key a) := by
  unfold memberIdx
  rw [keyId_of_plain (attr_name h) hp]

/-- What the table finds is the attribute of that name. -/
lemma found_of_idx {i} (h : S.attr? m = some a) (hi : memberIdx S.attrs m = some i) :
    PlainName m ∧ S.found a ∧ S.ids[i]? = some a := by
  have hp : PlainName m := by
    by_contra hp
    rw [hS.memberIdx_escaped hp] at hi
    cases hi
  rw [memberIdx_plain h hp] at hi
  have hf : S.found a := by
    by_contra hf
    rw [hS.lookup_lost a hf] at hi
    cases hi
  obtain ⟨_, hi', ha⟩ := hS.lookup_found a hf
  cases hi.symm.trans hi'
  exact ⟨hp, hf, ha⟩

lemma keyReads (h : S.attr? m = some a) (hp : PlainName m) : KeyReads m.key := by
  unfold KeyReads
  rw [keyId_of_plain (attr_name h) hp]
  exact (hS.key a).2.2

/-- The filter reads a member that it finds. -/
lemma reads_of_found (h : S.attr? m = some a) (hp : PlainName m) (hf : S.found a)
    (hr : Reads m) : FilterReads S.attrs (some strBufSize) m := by
  obtain ⟨i, hi, -⟩ := hS.lookup_found a hf
  refine ⟨?_, by rw [memberIdx_plain h hp, hi]; rfl⟩
  have hkey := hS.keyReads h hp
  cases m with
  | scalar => exact ⟨hkey, hr⟩
  | sub => exact hkey

/-- The members of an accepted object are clean. -/
lemma clean_members {obj : Seq .obj} (hacc : S.Accepts obj)
    (h : (∃ s, S.Holds obj s) ∨ S.Fits obj) : ∀ m ∈ obj.members, Clean m := by
  intro m hm
  obtain ⟨a, ha, hok⟩ := hacc.members m hm
  rcases h with ⟨s, hs⟩ | hf
  · exact (hS.spec a).clean_of_is hok (hs m hm a ha)
  · exact (hS.spec a).clean_of_fits hok ((hf m hm).2 a ha).2

/-- An accepted object is clean. -/
lemma clean_object {k : Kind} {key : Key k} {obj : Seq .obj} (hacc : S.Accepts obj)
    (h : ∀ m ∈ obj.members, Clean m) : Clean (.sub key .obj obj) := by
  refine (Seq.all_iff_members obj).mpr fun m hm => m.all_iff.mpr ⟨?_, h m hm⟩
  obtain ⟨a, ha, -⟩ := hacc.members m hm
  exact hS.keyClean ha

/-- Objects are lawful elements. -/
lemma elemSpec_lawful : S.elemSpec.Lawful .obj (n + 1) where
  type := fun ⟨obj, hobj, _⟩ => by obtain ⟨_, rfl⟩ := object_cases hobj; rfl
  depth := fun ⟨obj, hobj, hacc⟩ => by
    obtain ⟨_, rfl⟩ := object_cases hobj
    refine Nat.succ_le_succ (obj.depth_le fun m hm => ?_)
    obtain ⟨a, -, hok⟩ := hacc.members m hm
    exact (hS.spec a).depth hok
  clean_of_is := fun ⟨obj, hobj, hacc⟩ ⟨obj', hobj', hs⟩ => by
    obtain ⟨_, rfl⟩ := object_cases hobj
    cases hobj'
    exact hS.clean_object hacc (hS.clean_members hacc (.inl ⟨_, hs⟩))
  clean_of_fits := fun ⟨obj, hobj, hacc⟩ hf => by
    obtain ⟨_, rfl⟩ := object_cases hobj
    exact hS.clean_object hacc (hS.clean_members hacc (.inr (hf obj rfl)))
  reads := fun ⟨obj, hobj, hacc⟩ hf => by
    obtain ⟨_, rfl⟩ := object_cases hobj
    refine (Seq.all_iff_members obj).mpr fun m hm => m.all_iff.mpr ?_
    obtain ⟨a, ha, hok⟩ := hacc.members m hm
    obtain ⟨hp, hfit⟩ := hf obj rfl m hm
    exact ⟨hS.keyReads ha hp, (hS.spec a).reads hok (hfit a ha).2⟩

end Lawful

end Schema

/-! ## The tables of the program -/

/-- The table of file systems is lawful. -/
lemma fsSchema_lawful : fsSchema.Lawful 1 where
  lookup_found a _ := Option.bind_eq_some_iff.mp (by cases a <;> decide)
  lookup_lost a h := absurd trivial h
  key a := by cases a <;> decide
  spec a := by
    cases a with
    | minKver | mkfsSizeOpt | mkfsVer | type => exact textSpec_lawful.mono (Nat.zero_le 1)
    | mkfsOpts => exact arraySpec_lawful textSpec_lawful none
    | mntFlags => exact mntFlagsSpec_lawful

/-- The table of commands is lawful. -/
lemma cmdSchema_lawful : cmdSchema.Lawful 0 where
  lookup_found a _ := Option.bind_eq_some_iff.mp (by cases a <;> decide)
  lookup_lost a h := absurd trivial h
  key a := by cases a <;> decide
  spec a := by
    cases a with
    | cmd => exact textSpec_lawful
    | optional => exact bitSpec_lawful

def Shape.type : Shape → UType
  | .bool | .boolInt => .bool
  | .uint | .ulong | .int | .abi => .int
  | .str => .str
  | .strarr | .filesystems | .cmds | .tags | .saveRestore => .arr

/-- Every shape of an attribute is lawful. -/
lemma Shape.spec_lawful (sh : Shape) : sh.spec.Lawful sh.type 3 := by
  cases sh with
  | bool => exact boolSpec_lawful.mono (by decide)
  | boolInt => exact boolIntSpec_lawful.mono (by decide)
  | uint | ulong | int => exact (positiveSpec_lawful _ _).mono (by decide)
  | abi => exact abiSpec_lawful.mono (by decide)
  | str => exact textSpec_lawful.mono (by decide)
  | strarr => exact (arraySpec_lawful textSpec_lawful none).mono (by decide)
  | filesystems => exact arraySpec_lawful fsSchema_lawful.elemSpec_lawful {}
  | cmds => exact (arraySpec_lawful cmdSchema_lawful.elemSpec_lawful {}).mono (by decide)
  | tags => exact (arraySpec_lawful tagSpec_lawful {}).mono (by decide)
  | saveRestore => exact (arraySpec_lawful saveSpec_lawful {}).mono (by decide)

lemma TestAttr.entry_type (a : TestAttr) : a.entry.2 = a.shape.type := by cases a <;> rfl

/-- **The table of `struct tst_test`** is lawful. -/
lemma testSchema_lawful : testSchema.Lawful 3 where
  lookup_found a h :=
    Option.bind_eq_some_iff.mp (by cases a <;> first | decide | exact absurd rfl h)
  lookup_lost a h := by
    obtain rfl := not_not.mp h
    decide
  key a := by cases a <;> decide
  spec a := (TestAttr.entry_type a) ▸ a.shape.spec_lawful

end LtpDdt.RunShell
