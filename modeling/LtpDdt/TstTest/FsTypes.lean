/-
TstTest.FsTypes — the description that `lookup_fs_desc` finds in an array of the documented
shape, and `tst_get_supported_fs_types` of `lib/tst_supported_fs_types.c`, without
`LTP_SINGLE_FS_TYPE` and `LTP_FORCE_SINGLE_FS_TYPE`.

The static `fs_types` is the list of what stands in front of its first `NULL`, behind which
it has nothing else.
-/
import LtpDdt.TstTest.Processes

namespace LtpDdt.TstTest

open List

/-- The file systems and descriptions that `run_tcases_per_fs` goes through. -/
def runTcasesPerFs (cfg : Config) : List (FsDesc × String) :=
  cfg.supported.filterMap fun fsType => (lookupFsDesc cfg fsType).map fun fs => (fs, fsType)

def typed (e : String × FsDesc) : FsDesc := { e.2 with type := some e.1 }

def untyped (fs : FsDesc) : FsDesc := { fs with type := none }

/-- The documented shape: a default entry, the typed ones and the terminating one. -/
def fsArray (default : Option FsDesc) (entries : List (String × FsDesc)) : FsDesc × List FsDesc :=
  let array := (default.map untyped).toList ++ entries.map typed ++ [FsDesc.mk none false false]
  (array.headD {}, array.tail)

def Config.withArray (cfg : Config) (default : Option FsDesc) (entries : List (String × FsDesc)) :
    Config :=
  { cfg with filesystems := some (fsArray default entries) }

/-- The entry with the type; else the default, or the empty description. -/
def wantedDesc (default : Option FsDesc) (entries : List (String × FsDesc)) (allFilesystems : Bool)
    (fsType : String) : Option FsDesc :=
  match entries.find? (·.1 = fsType) with
  | some e => some (typed e)
  | none => if allFilesystems then some ((default.map untyped).getD {}) else none

section

variable (cfg : Config) (default : Option FsDesc) (entries : List (String × FsDesc))
    (fsType : String)

lemma takeWhile_typed :
    (entries.map typed ++ [FsDesc.mk none false false]).takeWhile (·.type.isSome) =
      entries.map typed := by
  rw [takeWhile_append_of_pos]
  · simp
  intro _ hfs
  obtain ⟨e, -, rfl⟩ := mem_map.1 hfs
  rfl

lemma find_typed : (entries.map typed).find? (·.type = some fsType) =
    (entries.find? (·.1 = fsType)).map typed := by
  induction entries with
  | nil => rfl
  | cons e entries ih =>
    by_cases h : e.1 = fsType
    · simp [typed, h]
    · simp [typed, h, ih]

lemma typedDescs_withArray : typedDescs (cfg.withArray default entries) =
    if default.isSome then [] else entries.map typed := by
  cases default with
  -- the loop ends at the default entry
  | some fs => rfl
  | none =>
    have h := takeWhile_typed entries
    cases entries with
    | nil => rfl
    | cons => exact h

lemma lookupFsDesc_withArray : lookupFsDesc (cfg.withArray default entries) fsType =
    wantedDesc default (if default.isSome then [] else entries) cfg.allFilesystems fsType := by
  rw [lookupFsDesc, typedDescs_withArray, wantedDesc]
  cases default with
  | some => cases h : cfg.allFilesystems <;> simp [Config.withArray, fsArray, untyped, h]
  | none =>
    simp only [Option.isSome_none, Bool.false_eq_true, if_false, find_typed]
    cases entries.find? (·.1 = fsType) with
    | some => rfl
    | none =>
      cases entries <;> cases h : cfg.allFilesystems <;>
        simp [Config.withArray, fsArray, typed, h]

lemma lookupFsDesc_eq_iff : lookupFsDesc (cfg.withArray default entries) fsType =
      wantedDesc default entries cfg.allFilesystems fsType ↔
    default = none ∨ fsType ∉ entries.map Prod.fst := by
  have hmem : fsType ∉ entries.map Prod.fst ↔ entries.find? (·.1 = fsType) = none := by
    simp only [find?_eq_none, mem_map, not_exists, not_and, decide_eq_true_eq]
  rw [lookupFsDesc_withArray, hmem]
  cases default with
  | none => simp
  | some =>
    simp only [wantedDesc]
    cases entries.find? (·.1 = fsType) with
    | none => simp
    | some => cases cfg.allFilesystems <;> simp [typed, untyped]

end

/-- **The description of a file system** is the right one exactly if the array has no default entry
or does not list the type; then so are the runs. -/
theorem lookupFsDesc_right_iff (cfg : Config) (default : Option FsDesc)
    (entries : List (String × FsDesc)) :
    (∀ fsType, lookupFsDesc (cfg.withArray default entries) fsType =
        wantedDesc default entries cfg.allFilesystems fsType ↔
      default = none ∨ fsType ∉ entries.map Prod.fst) ∧
    ((∀ fsType ∈ cfg.supported, default = none ∨ fsType ∉ entries.map Prod.fst) →
      runTcasesPerFs (cfg.withArray default entries) = cfg.supported.filterMap fun fsType =>
        (wantedDesc default entries cfg.allFilesystems fsType).map fun fs => (fs, fsType)) := by
  refine ⟨lookupFsDesc_eq_iff cfg default entries, ?_⟩
  intro h
  refine filterMap_congr fun fsType hmem => ?_
  rw [(lookupFsDesc_eq_iff cfg default entries fsType).2 (h fsType hmem)]

/-- A file system behind the default entry gets the default. -/
theorem lookupFsDesc_skips :
    let cfg : Config := ⟨1, true, none, ["ext4"], none, 1, false, false, false, by simp⟩
    lookupFsDesc (cfg.withArray (some {}) [("ext4", { hasMinKver := true })]) "ext4" = some {} ∧
      wantedDesc (some {}) [("ext4", { hasMinKver := true })] true "ext4" =
        some ⟨some "ext4", false, true⟩ := by
  decide

inductive TstFsImpl
  | unsupported | kernel | fuse
  deriving DecidableEq

def fsTypeWhitelist : List String :=
  ["ext2", "ext3", "ext4", "xfs", "btrfs", "bcachefs", "vfat", "exfat", "ntfs", "tmpfs"]

abbrev Skiplist := Option (List String)

def tstFsInSkiplist (fsType : String) : Skiplist → Bool
  | none => false
  | some skiplist => skiplist.any (fsType == ·)

variable (supported : String → TstFsImpl)

def fsCouldBeUsed (fsType : String) (skiplist : Skiplist) (skipFuse : Bool) : Bool :=
  if tstFsInSkiplist fsType skiplist then false
  else if skipFuse ∧ supported fsType = .fuse then false
  else supported fsType ≠ .unsupported

/-- The loop over the white list: `fs_types[j++]` is written. -/
def fsTypesLoop (use : String → Bool) : List String → Nat → List String → List String
  | [], _, fsTypes => fsTypes
  | t :: ts, j, fsTypes =>
    if use t then fsTypesLoop use ts (j + 1) (fsTypes.take j ++ t :: fsTypes.drop (j + 1))
    else fsTypesLoop use ts j fsTypes

def tstGetSupportedFsTypes (skiplist : Skiplist) (fsTypes : List String) : List String :=
  let skipFuse := tstFsInSkiplist "fuse" skiplist
  fsTypesLoop (fsCouldBeUsed supported · skiplist skipFuse) fsTypeWhitelist 0 fsTypes

/-- What a call should return. -/
def wanted (skiplist : Skiplist) : List String :=
  let skips t := ∃ l ∈ skiplist, t ∈ l
  fsTypeWhitelist.filter fun t =>
    ¬ skips t ∧ ¬ (skips "fuse" ∧ supported t = .fuse) ∧ supported t ≠ .unsupported

def AllRight : List String → List Skiplist → Prop
  | _, [] => True
  | fsTypes, s :: calls =>
    tstGetSupportedFsTypes supported s fsTypes = wanted supported s ∧
      AllRight (tstGetSupportedFsTypes supported s fsTypes) calls

lemma fsTypesLoop_eq (use : String → Bool) : ∀ ts written old : List String,
    fsTypesLoop use ts written.length (written ++ old) =
      written ++ ts.filter use ++ old.drop (ts.filter use).length
  | [], written, old => by simp [fsTypesLoop]
  | t :: ts, written, old => by
    rw [fsTypesLoop, filter_cons]
    split
    · have h := fsTypesLoop_eq use ts (written ++ [t]) (old.drop 1)
      rw [length_append, length_singleton, append_assoc, singleton_append] at h
      rw [take_left, drop_append, Nat.add_sub_cancel_left, drop_of_length_le (Nat.le_succ _),
        nil_append, h, drop_drop]
      simp [Nat.add_comm]
    · exact fsTypesLoop_eq use ts written old

/-- Behind the file systems of a call stand those of the calls before. -/
lemma tstGetSupportedFsTypes_eq (s : Skiplist) (old : List String) :
    tstGetSupportedFsTypes supported s old =
      wanted supported s ++ old.drop (wanted supported s).length := by
  have huse : wanted supported s = fsTypeWhitelist.filter
      (fsCouldBeUsed supported · s (tstFsInSkiplist "fuse" s)) := by
    refine filter_congr fun t _ => ?_
    cases s <;> simp [fsCouldBeUsed, tstFsInSkiplist]
  rw [huse]
  exact fsTypesLoop_eq _ _ [] old

lemma allRight_from : ∀ calls old, AllRight supported old calls ↔
    (old.length :: calls.map fun s => (wanted supported s).length).IsChain (· ≤ ·)
  | [], _ => by simp [AllRight]
  | s :: calls, old => by
    rw [AllRight, map_cons, isChain_cons_cons, ← allRight_from calls, tstGetSupportedFsTypes_eq,
      append_right_eq_self, drop_eq_nil_iff]
    refine and_congr_right fun hle => ?_
    rw [drop_of_length_le hle, append_nil]

/-- **The calls are right iff no answer is shorter than the one before.** -/
theorem allRight_iff (calls : List Skiplist) : AllRight supported [] calls ↔
    (calls.map fun s => (wanted supported s).length).IsChain (· ≤ ·) := by
  rw [allRight_from]
  cases calls <;> simp

/-- The second list has `tmpfs` twice. -/
theorem tstGetSupportedFsTypes_tail : let get := tstGetSupportedFsTypes fun _ => .kernel
    get (some ["ext2"]) (get none []) = wanted (fun _ => .kernel) (some ["ext2"]) ++ ["tmpfs"] := by
  decide

end LtpDdt.TstTest
