/-
RunShell.Metadata — `parse_metadata` of `testcases/lib/tst_run_shell.c`: the JSON block
of a shell test is read into a `struct tst_test`.

* A pointer to a string is an `Option CStr`, a pointer to an array the `Option` of its
  content, terminating element included; an element is written with `List.set`.
* Fresh memory that the code does not clear is a parameter (`junk`), except where every
  field of it is written anyway.
* The union of `struct ujson_val` is read by `valBool`, `valInt`, `valStr`; outside of
  error paths the member that was written last is the one read.
* Integers are converted to the type of their field.
-/
import LtpDdt.CTypes.CString
import LtpDdt.Ujson.Filter

namespace LtpDdt.RunShell

open CTypes (ascii cstr nul_not_mem_cstr)
open Ujson

/-! ## Strings -/

def CStr : Type := { bs : List UInt8 // (0 : UInt8) ∉ bs }

instance : DecidableEq CStr := inferInstanceAs (DecidableEq { bs : List UInt8 // (0 : UInt8) ∉ bs })

/-- `strdup` copies up to the first zero. -/
def strdup (bs : List UInt8) : CStr :=
  ⟨cstr bs, nul_not_mem_cstr bs⟩

/-! ## `struct tst_test` and what it points to -/

structure TstFs where
  type : Option CStr := none
  mkfsOpts : Option (List (Option CStr)) := none
  mkfsSizeOpt : Option CStr := none
  mkfsVer : Option CStr := none
  mntFlags : UInt32 := 0
  minKver : Option CStr := none
  deriving DecidableEq

structure TstCmd where
  cmd : Option CStr := none
  optional : Bool := false
  present : Bool := false
  deriving DecidableEq

structure TstTag where
  name : Option CStr := none
  value : Option CStr := none
  deriving DecidableEq

structure TstPathVal where
  path : Option CStr := none
  val : Option CStr := none
  flags : UInt32 := 0
  deriving DecidableEq

structure TstTest where
  tcnt : UInt32 := 0
  minKver : Option CStr := none
  supportedArchs : Option (List (Option CStr)) := none
  needsTmpdir : Bool := false
  needsRoot : Bool := false
  needsDevice : Bool := false
  formatDevice : Bool := false
  mountDevice : Bool := false
  needsRofs : Bool := false
  needsDevfs : Bool := false
  restoreWallclock : Bool := false
  allFilesystems : Bool := false
  skipInLockdown : Bool := false
  skipInSecureboot : Bool := false
  skipInCompat : Bool := false
  needsAbiBits : Int32 := 0
  needsHugetlbfs : Bool := false
  skipFilesystems : Option (List (Option CStr)) := none
  minCpus : UInt64 := 0
  minMemAvail : UInt64 := 0
  minSwapAvail : UInt64 := 0
  taintCheck : UInt32 := 0
  devMinSize : UInt32 := 0
  filesystems : Option (List TstFs) := none
  mntpoint : Option CStr := none
  runtime : Int32 := 0
  minRuntime : Int32 := 0
  needsDrivers : Option (List (Option CStr)) := none
  saveRestore : Option (List TstPathVal) := none
  needsKconfigs : Option (List (Option CStr)) := none
  tags : Option (List TstTag) := none
  needsCmds : Option (List TstCmd) := none

/-! ## The attribute tables -/

/-- `enum test_attr_ids` -/
inductive TestAttr where
  | allFilesystems | devMinSize | filesystems | formatDevice | minCpus | minMemAvail | minKver
  | minRuntime | minSwapAvail | mntpoint | mountDevice | needsAbiBits | needsCmds | needsDevfs
  | needsDevice | needsDrivers | needsHugetlbfs | needsKconfigs | needsRofs | needsRoot
  | needsTmpdir | restoreWallclock | runtime | saveRestore | skipFilesystems | skipInCompat
  | skipInLockdown | skipInSecureboot | supportedArchs | tags | taintCheck | tcnt
  deriving DecidableEq

/-- The entries of `test_attrs`. -/
def TestAttr.entry : TestAttr → String × UType
  | .allFilesystems => ("all_filesystems", .bool)
  | .devMinSize => ("dev_min_size", .int)
  | .filesystems => ("filesystems", .arr)
  | .formatDevice => ("format_device", .bool)
  | .minCpus => ("min_cpus", .int)
  | .minMemAvail => ("min_mem_avail", .int)
  | .minKver => ("min_kver", .str)
  | .minRuntime => ("min_runtime", .int)
  | .minSwapAvail => ("min_swap_avail", .int)
  | .mntpoint => ("mntpoint", .str)
  | .mountDevice => ("mount_device", .bool)
  | .needsAbiBits => ("needs_abi_bits", .int)
  | .needsCmds => ("needs_cmds", .arr)
  | .needsDevfs => ("needs_devfs", .bool)
  | .needsDevice => ("needs_device", .bool)
  | .needsDrivers => ("needs_drivers", .arr)
  | .needsHugetlbfs => ("needs_hugetlbfs", .bool)
  | .needsKconfigs => ("needs_kconfigs", .arr)
  | .needsRofs => ("needs_rofs", .bool)
  | .needsRoot => ("needs_root", .bool)
  | .needsTmpdir => ("needs_tmpdir", .bool)
  | .restoreWallclock => ("restore_wallclock", .bool)
  | .runtime => ("runtime", .int)
  | .saveRestore => ("save_restore", .arr)
  | .skipFilesystems => ("skip_filesystems", .arr)
  | .skipInCompat => ("skip_in_compat", .bool)
  | .skipInLockdown => ("skip_in_lockdown", .bool)
  | .skipInSecureboot => ("skip_in_secureboot", .bool)
  | .supportedArchs => ("supported_archs", .arr)
  | .tags => ("tags", .arr)
  | .taintCheck => ("taint_check", .bool)
  | .tcnt => ("tcnt", .int)

/-- The enumeration in its order, which is the order of the table. -/
def testAttrIds : List TestAttr :=
  [.allFilesystems, .devMinSize, .filesystems, .formatDevice, .minCpus, .minMemAvail, .minKver,
   .minRuntime, .minSwapAvail, .mntpoint, .mountDevice, .needsAbiBits, .needsCmds, .needsDevfs,
   .needsDevice, .needsDrivers, .needsHugetlbfs, .needsKconfigs, .needsRofs, .needsRoot,
   .needsTmpdir, .restoreWallclock, .runtime, .saveRestore, .skipFilesystems, .skipInCompat,
   .skipInLockdown, .skipInSecureboot, .supportedArchs, .tags, .taintCheck, .tcnt]

def testAttrs : List ObjAttr := testAttrIds.map fun a => ⟨ascii a.entry.1, a.entry.2⟩

/-- `enum fs_ids` -/
inductive FsAttr where
  | minKver | mkfsOpts | mkfsSizeOpt | mkfsVer | mntFlags | type
  deriving DecidableEq

def FsAttr.entry : FsAttr → String × UType
  | .minKver => ("min_kver", .str)
  | .mkfsOpts => ("mkfs_opts", .arr)
  | .mkfsSizeOpt => ("mkfs_size_opt", .str)
  | .mkfsVer => ("mkfs_ver", .str)
  | .mntFlags => ("mnt_flags", .arr)
  | .type => ("type", .str)

def fsAttrIds : List FsAttr := [.minKver, .mkfsOpts, .mkfsSizeOpt, .mkfsVer, .mntFlags, .type]

def fsAttrs : List ObjAttr := fsAttrIds.map fun a => ⟨ascii a.entry.1, a.entry.2⟩

/-- `enum cmd_ids` -/
inductive CmdAttr where
  | cmd | optional
  deriving DecidableEq

def CmdAttr.entry : CmdAttr → String × UType
  | .cmd => ("cmd", .str)
  | .optional => ("optional", .int)

def cmdAttrIds : List CmdAttr := [.cmd, .optional]

def cmdAttrs : List ObjAttr := cmdAttrIds.map fun a => ⟨ascii a.entry.1, a.entry.2⟩

/-! ## Reading the union -/

def valBool (val : Val) : Bool :=
  match val.val with
  | .bool b => b
  | _ => false

def valInt (val : Val) : Int :=
  match val.val with
  | .int v => v
  | _ => 0

def valStr (val : Val) : List UInt8 :=
  match val.val with
  | .str s => s
  | _ => []

/-! ## Arrays -/

variable (r : Reader)

/-- `ujson_err` with a message of this file. -/
def err (msg : String) : Reader := r.fail (.user msg)

/-- A counting pass: elements of another type are an error, containers are skipped. -/
def countBody (type : UType) (msg : String) (skip : Reader → Reader) :
    Reader → Val → Nat → Flow Nat :=
  fun r val cnt =>
    if val.type ≠ type then .ret (err r msg) val cnt else .next (skip r) val (cnt + 1)

/-- Count, go back, allocate, fill: the filling pass has the array and the next index. -/
def twoPasses {α : Type} (count : Reader → Val → Nat → Flow Nat) (alloc : Nat → List α)
    (fill : Reader → Val → List α × Nat → Flow (List α × Nat)) (r : Reader) (val : Val) :
    Option (List α × Nat) × Reader × Val :=
  let state := ujsonReaderStateSave r
  match arrForeach count r val 0 with
  | .ret r val _ => (none, r, val)
  | .next r val cnt =>
    match arrForeach fill (ujsonReaderStateLoad r state) val (alloc cnt, 0) with
    | .ret r val _ => (none, r, val)
    | .next r val s => (some s, r, val)

variable (val : Val)

def strarrFill (s : List (Option CStr) × Nat) : Flow (List (Option CStr) × Nat) :=
  .next r val (s.1.set s.2 (some (strdup (valStr val))), s.2 + 1)

def parseStrarr : Option (List (Option CStr)) × Reader × Val :=
  match twoPasses (countBody .str "Expected string!" id)
      (fun cnt => List.replicate (cnt + 1) none) strarrFill r val with
  | (none, r, val) => (none, r, val)
  | (some (ret, i), r, val) => (some (ret.set i none), r, val)

def msRdonly : UInt32 := 1
def msNosuid : UInt32 := 2
def msNoexec : UInt32 := 8
def msNoatime : UInt32 := 1024

def mntFlagsBody (ret : UInt32) : Flow UInt32 :=
  if val.type ≠ .str then .ret (err r "Expected string!") val ret
  else if strcmp (strdup (valStr val)).1 (ascii "RDONLY") = .eq then .next r val (ret ||| msRdonly)
  else if strcmp (strdup (valStr val)).1 (ascii "NOATIME") = .eq then
    .next r val (ret ||| msNoatime)
  else if strcmp (strdup (valStr val)).1 (ascii "NOEXEC") = .eq then .next r val (ret ||| msNoexec)
  else if strcmp (strdup (valStr val)).1 (ascii "NOSUID") = .eq then .next r val (ret ||| msNosuid)
  else .next (err r "Invalid mount flag") val ret

def parseMntFlags : UInt32 × Reader × Val :=
  match arrForeach mntFlagsBody r val 0 with
  | .ret r val ret => (ret, r, val)
  | .next r val ret => (ret, r, val)

/-- The `switch` of `parse_filesystems`. -/
def fsCase (fs : TstFs) : Flow TstFs :=
  match val.idx.bind fun i => fsAttrIds[i]? with
  | some .mkfsOpts =>
    let (p, r, val) := parseStrarr r val
    .next r val { fs with mkfsOpts := p }
  | some .mkfsSizeOpt => .next r val { fs with mkfsSizeOpt := some (strdup (valStr val)) }
  | some .mkfsVer => .next r val { fs with mkfsVer := some (strdup (valStr val)) }
  | some .mntFlags =>
    let (flags, r, val) := parseMntFlags r val
    .next r val { fs with mntFlags := flags }
  | some .type => .next r val { fs with type := some (strdup (valStr val)) }
  | some .minKver => .next r val { fs with minKver := some (strdup (valStr val)) }
  | none => .next r val fs

/-- A filling pass over objects: the loop over the members works on the array element. -/
def objectFill {α : Type} [Inhabited α] (attrs : List ObjAttr)
    (body : Reader → Val → α → Flow α) (r : Reader) (val : Val) (s : List α × Nat) :
    Flow (List α × Nat) :=
  match objForeachFilter (some attrs) ujsonEmptyObj body r val (s.1.getD s.2 default) with
  | .ret r val _ => .ret r val s
  | .next r val x => .next r val (s.1.set s.2 x, s.2 + 1)

instance : Inhabited TstFs := ⟨{}⟩

def parseFilesystems : Option (List TstFs) × Reader × Val :=
  match twoPasses (countBody .obj "Expected object!" fun r => (ujsonObjSkip r).2)
      (fun cnt => List.replicate (cnt + 1) {}) (objectFill fsAttrs fsCase) r val with
  | (none, r, val) => (none, r, val)
  | (some (ret, _), r, val) => (some ret, r, val)

/-- The `switch` of `parse_cmds`; `optional` is a field of one bit. -/
def cmdCase (c : TstCmd) : Flow TstCmd :=
  match val.idx.bind fun i => cmdAttrIds[i]? with
  | some .cmd => .next r val { c with cmd := some (strdup (valStr val)) }
  | some .optional => .next r val { c with optional := valInt val % 2 == 1 }
  | none => .next r val c

instance : Inhabited TstCmd := ⟨{}⟩

def parseCmds (junk : TstCmd) (r : Reader) (val : Val) : Option (List TstCmd) × Reader × Val :=
  match twoPasses (countBody .obj "Expected object!" fun r => (ujsonObjSkip r).2)
      (fun cnt => List.replicate cnt junk ++ [{}]) (objectFill cmdAttrs cmdCase) r val with
  | (none, r, val) => (none, r, val)
  | (some (ret, _), r, val) => (some ret, r, val)

def tagBody (tag : TstTag) : Flow TstTag :=
  if val.type ≠ .str then .ret (err r "Expected string!") val tag
  else if tag.name.isNone then .next r val { tag with name := some (strdup (valStr val)) }
  else if tag.value.isNone then .next r val { tag with value := some (strdup (valStr val)) }
  else .ret (err r "Expected only two members!") val tag

def tagFill (s : List TstTag × Nat) : Flow (List TstTag × Nat) :=
  match arrForeach tagBody r val {} with
  | .ret r val _ => .ret r val s
  | .next r val tag => .next r val (s.1.set s.2 tag, s.2 + 1)

def parseTags : Option (List TstTag) × Reader × Val :=
  match twoPasses (countBody .arr "Expected array!" fun r => (ujsonArrSkip r).2)
      (fun cnt => List.replicate (cnt + 1) {}) tagFill r val with
  | (none, r, val) => (none, r, val)
  | (some (ret, _), r, val) => (some ret, r, val)

def tstSrTconf : UInt32 := 0
def tstSrTbrok : UInt32 := 0x1 ||| 0x4
def tstSrSkip : UInt32 := 0x2 ||| 0x8

/-- The local variables of the loop over one element of `save_restore`. -/
structure SaveVars where
  path : Option CStr := none
  pval : Option CStr := none
  valSet : Bool := false
  flags : UInt32 := 0
  flagsSet : Bool := false

def saveBody (v : SaveVars) : Flow SaveVars :=
  if v.path.isNone then
    if val.type ≠ .str then .ret (err r "Expected string!") val v
    else .next r val { v with path := some (strdup (valStr val)) }
  else if !v.valSet then
    if val.type = .str then
      .next r val { v with pval := some (strdup (valStr val)), valSet := true }
    else if val.type ≠ .null then .ret (err r "Expected string or NULL!") val v
    else .next r val { v with valSet := true }
  else if !v.flagsSet then
    if val.type ≠ .str then .ret (err r "Expected string!") val v
    else if strcmp (strdup (valStr val)).1 (ascii "TCONF") = .eq then
      .next r val { v with flags := tstSrTconf, flagsSet := true }
    else if strcmp (strdup (valStr val)).1 (ascii "TBROK") = .eq then
      .next r val { v with flags := tstSrTbrok, flagsSet := true }
    else if strcmp (strdup (valStr val)).1 (ascii "SKIP") = .eq then
      .next r val { v with flags := tstSrSkip, flagsSet := true }
    else .ret (err r "Invalid flags!") val v
  else .ret (err r "Expected only two members!") val v

def saveFill (s : List TstPathVal × Nat) : Flow (List TstPathVal × Nat) :=
  match arrForeach saveBody r val {} with
  | .ret r val _ => .ret r val s
  | .next r val v =>
    if v.path.isNone || !v.flagsSet then
      .ret (err r "Expected [\"/\x7bproc,sys\x7d/path\", \x7b\"TCONF\", \"TBROK\", \"TSKIP\"\x7d]!")
        val s
    else .next r val (s.1.set s.2 ⟨v.path, v.pval, v.flags⟩, s.2 + 1)

def parseSaveRestore : Option (List TstPathVal) × Reader × Val :=
  match twoPasses (countBody .arr "Expected array!" fun r => (ujsonArrSkip r).2)
      (fun cnt => List.replicate (cnt + 1) {}) saveFill r val with
  | (none, r, val) => (none, r, val)
  | (some (ret, _), r, val) => (some ret, r, val)

/-! ## The metadata -/

def positiveCase (msg : String) (store : Int → TstTest) (r : Reader) (val : Val) (test : TstTest) :
    Flow TstTest :=
  if valInt val ≤ 0 then .next (err r msg) val test else .next r val (store (valInt val))

/-- A case that hands an array to a function of its own. -/
def arrayCase {α : Type} (parse : Reader → Val → Option (List α) × Reader × Val)
    (store : Option (List α) → TstTest) (r : Reader) (val : Val) : Flow TstTest :=
  let (p, r, val) := parse r val
  .next r val (store p)

/-- The `switch` of `parse_metadata`. -/
def attrCase (junk : TstCmd) (r : Reader) (val : Val) (test : TstTest) : Flow TstTest :=
  match val.idx.bind fun i => testAttrIds[i]? with
  | none => .next r val test
  | some .allFilesystems => .next r val { test with allFilesystems := valBool val }
  | some .devMinSize =>
    positiveCase "Device size must be > 0"
      (fun v => { test with devMinSize := UInt32.ofInt v }) r val test
  | some .filesystems => arrayCase parseFilesystems (fun p => { test with filesystems := p }) r val
  | some .formatDevice => .next r val { test with formatDevice := valBool val }
  | some .minCpus =>
    positiveCase "Minimal number of cpus must be > 0"
      (fun v => { test with minCpus := UInt64.ofInt v }) r val test
  | some .minMemAvail =>
    positiveCase "Minimal available memory size must be > 0"
      (fun v => { test with minMemAvail := UInt64.ofInt v }) r val test
  | some .minKver => .next r val { test with minKver := some (strdup (valStr val)) }
  | some .minRuntime =>
    positiveCase "Minimal runtime must be > 0"
      (fun v => { test with minRuntime := Int32.ofInt v }) r val test
  | some .minSwapAvail =>
    positiveCase "Minimal available swap size must be > 0"
      (fun v => { test with minSwapAvail := UInt64.ofInt v }) r val test
  | some .mntpoint => .next r val { test with mntpoint := some (strdup (valStr val)) }
  | some .mountDevice => .next r val { test with mountDevice := valBool val }
  | some .needsAbiBits =>
    if valInt val = 32 ∨ valInt val = 64 then
      .next r val { test with needsAbiBits := Int32.ofInt (valInt val) }
    else .next (err r "ABI bits must be 32 or 64") val test
  | some .needsCmds => arrayCase (parseCmds junk) (fun p => { test with needsCmds := p }) r val
  | some .needsDevfs => .next r val { test with needsDevfs := valBool val }
  | some .needsDevice => .next r val { test with needsDevice := valBool val }
  | some .needsDrivers => arrayCase parseStrarr (fun p => { test with needsDrivers := p }) r val
  | some .needsHugetlbfs => .next r val { test with needsHugetlbfs := valBool val }
  | some .needsKconfigs => arrayCase parseStrarr (fun p => { test with needsKconfigs := p }) r val
  | some .needsRofs => .next r val { test with needsRofs := valBool val }
  | some .needsRoot => .next r val { test with needsRoot := valBool val }
  | some .needsTmpdir => .next r val { test with needsTmpdir := valBool val }
  | some .restoreWallclock => .next r val { test with restoreWallclock := valBool val }
  | some .runtime =>
    positiveCase "Runtime must be > 0" (fun v => { test with runtime := Int32.ofInt v }) r val test
  | some .saveRestore => arrayCase parseSaveRestore (fun p => { test with saveRestore := p }) r val
  | some .skipFilesystems =>
    arrayCase parseStrarr (fun p => { test with skipFilesystems := p }) r val
  | some .skipInCompat => .next r val { test with skipInCompat := valBool val }
  | some .skipInLockdown => .next r val { test with skipInLockdown := valBool val }
  | some .skipInSecureboot => .next r val { test with skipInSecureboot := valBool val }
  | some .supportedArchs => arrayCase parseStrarr (fun p => { test with supportedArchs := p }) r val
  | some .tags => arrayCase parseTags (fun p => { test with tags := p }) r val
  | some .taintCheck => .next r val { test with taintCheck := if valBool val then 1 else 0 }
  | some .tcnt =>
    positiveCase "Number of tests must be > 0"
      (fun v => { test with tcnt := UInt32.ofInt v }) r val test

/-- The size of `str_buf`. -/
def strBufSize : Nat := 128

/-- Tells whether the metadata is reported as invalid, and returns the test. -/
def parseMetadata (junk : TstCmd) (metadata : List UInt8) : Bool × TstTest :=
  let reader : Reader := { json := metadata, strict := true }
  let val : Val := { bufSize := some strBufSize }
  match objForeachFilter (some testAttrs) ujsonEmptyObj (attrCase junk) reader val {} with
  | .ret r _ test => ((ujsonReaderFinish r).err.isSome, test)
  | .next r _ test => ((ujsonReaderFinish r).err.isSome, test)

end LtpDdt.RunShell
