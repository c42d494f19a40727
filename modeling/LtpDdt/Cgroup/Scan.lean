/-
Cgroup.Scan — `cgroup_root_scan` and `tst_cg_scan` of `lib/tst_cgroup.c`. The V2
hierarchy goes to slot 0 of `roots`, each V1 hierarchy to the first free slot behind
it. A hierarchy is known by its set of controllers, a bit field.

* A mount is its line of `/proc/self/mounts` with the content of `cgroup.controllers`
  in its directory. Opening and reading these succeeds.
* `tst_brk` ends the scan (`Brk`).
* `roots` is a function on slots. Slot `rootsMax`, the last one, is never written, so
  that the loop over the V1 slots ends there at the latest.

With mounts as the kernel has them (`KernelMounts`) the table is sound after
every scan (`Table.Sound`), and a scan that finds all of its mounts recorded
changes nothing. Controller names are spelled in full: the lookup compares only
as many characters as the mount gives.
-/
import LtpDdt.CTypes.Result
import Mathlib.Order.Interval.Finset.Nat
import Mathlib.Data.Nat.Bitwise

namespace LtpDdt.Cgroup

/-! ## The controllers -/

/-- By `ctrl_indx`; the first entry stands for the files of the hierarchy itself. -/
def ctrlNames : List (List Char) :=
  ["cgroup".toList, "memory".toList, "cpu".toList, "cpuset".toList, "dmem".toList, "io".toList,
   "pids".toList, "hugetlb".toList, "cpuacct".toList, "devices".toList, "freezer".toList,
   "net_cls".toList, "net_prio".toList, "blkio".toList, "misc".toList, "perf_event".toList,
   "debug".toList, "rdma".toList, "base".toList]

/-- `CTRL_BASE` -/
def ctrlsMax : Nat := 18

def rootsMax : Nat := ctrlsMax + 1

def hasCtrl (ctrlField indx : Nat) : Bool := ctrlField.testBit indx

def addCtrl (ctrlField indx : Nat) : Nat := ctrlField ||| 1 <<< indx

inductive Brk where
  /-- "Can't read mounts or no mounts?" -/
  | noMounts
  /-- "Unexpected char in %s: %c" -/
  | unexpectedChar (name : List Char)
  /-- "Available V2 controllers are changing between scans?" -/
  | v2Changing
  /-- "The intersection of two distinct sets of mounted controllers should be
  null? Check '%s' and '%s'" -/
  | intersection (mntPath mntDir : List Char)
  /-- "Unique controller mounts have exceeded our limit %d?" -/
  | exceeded
  deriving DecidableEq

def isNameChar (c : Char) : Bool := c == '_' || ('a' ≤ c && c ≤ 'z')

/-- The leading letters of a token, if the end or a newline follows. -/
def tokenName (tok : List Char) : Option (List Char) :=
  match tok.dropWhile isNameChar with
  | [] => some (tok.takeWhile isNameChar)
  | c :: _ => if c = '\n' then some (tok.takeWhile isNameChar) else none

/-- `strncmp` with the names of the table, for the length of the token's name. -/
def lookupCtrl (name : List Char) : Option Nat :=
  ctrlNames.findIdx? fun ctrl => name.isPrefixOf ctrl

def cgroupFindCtrl (tok : List Char) (strict : Bool) : Except Brk (Option Nat) :=
  match tokenName tok with
  | none => if strict then .error (.unexpectedChar tok) else .ok none
  | some name => .ok (lookupCtrl name)

/-! ## The table -/

inductive Ver where
  | v1
  | v2
  deriving DecidableEq

/-- `struct cgroup_root`; `ver` is `none` for a free slot. -/
structure Root where
  ver : Option Ver := none
  mntPath : List Char := []
  ctrlField : Nat := 0
  noCpusetPrefix : Bool := false
  nsdelegate : Bool := false
  memoryRecursiveprot : Bool := false
  deriving DecidableEq

/-- The roots, and `ctrl_root` of each controller as a slot. -/
structure Table where
  roots : Nat → Root
  ctrlRoot : Nat → Option Nat

/-- The static arrays at the start of the program. -/
def Table.init : Table := ⟨fun _ => {}, fun _ => none⟩

structure Mntent where
  mntType : List Char
  mntDir : List Char
  mntOpts : List Char
  /-- the content of `cgroup.controllers` -/
  controllers : List Char
  deriving DecidableEq

def strtok (delim : Char) (s : List Char) : List (List Char) :=
  (s.splitOn delim).filter (· ≠ [])

/-- The loops over the tokens: each controller that is found is added. -/
def collectCtrls (strict : Bool) : List (List Char) → Nat → Except Brk Nat
  | [], ctrlField => .ok ctrlField
  | tok :: toks, ctrlField => do
      match ← cgroupFindCtrl tok strict with
      | none => collectCtrls strict toks ctrlField
      | some indx => collectCtrls strict toks (addCtrl ctrlField indx)

variable (t : Table)

/-- From the label `backref` on: the root is filled in, and its controllers
refer to it. -/
def backref (slot : Nat) (root : Root) : Table where
  roots := Function.update t.roots slot root
  ctrlRoot := fun indx =>
    if indx < ctrlNames.length ∧ hasCtrl root.ctrlField indx then some slot else t.ctrlRoot indx

variable (m : Mntent)

def cgroupRootScanV2 : Except Brk Table := do
  let ctrlField ← collectCtrls true (strtok ' ' m.controllers) 0
  let opts := strtok ',' m.mntOpts
  let root := t.roots 0
  if root.ver ≠ none ∧ ctrlField = root.ctrlField then .ok t
  else if root.ctrlField ≠ 0 then .error .v2Changing
  else .ok (backref t 0
    { ver := some .v2
      mntPath := m.mntDir
      ctrlField := ctrlField
      noCpusetPrefix := false
      nsdelegate := "nsdelegate".toList ∈ opts
      memoryRecursiveprot := "memory_recursiveprot".toList ∈ opts })

/-- `for_each_v1_root`: the slot of the same hierarchy (`inl`), or the first
free slot (`inr`). -/
def findV1Root (t : Table) (ctrlField : Nat) (mntDir : List Char) :
    Nat → Nat → Except Brk (Nat ⊕ Nat)
  | 0, slot => .ok (.inr slot)
  | left + 1, slot =>
    let root := t.roots slot
    if root.ver = none then .ok (.inr slot)
    else if ctrlField &&& root.ctrlField = 0 then findV1Root t ctrlField mntDir left (slot + 1)
    else if ctrlField = root.ctrlField then .ok (.inl slot)
    else .error (.intersection root.mntPath mntDir)

def cgroupRootScanV1 : Except Brk Table := do
  let opts := strtok ',' m.mntOpts
  let ctrlField ← collectCtrls false opts 0
  if ctrlField = 0 then .ok t
  else
    match ← findV1Root t ctrlField m.mntDir rootsMax 1 with
    | .inl _ => .ok t
    | .inr slot =>
      if slot ≥ rootsMax then .error .exceeded
      else .ok (backref t slot
        { ver := some .v1
          mntPath := m.mntDir
          ctrlField := ctrlField
          noCpusetPrefix := "noprefix".toList ∈ opts
          nsdelegate := false
          memoryRecursiveprot := false })

def cgroupRootScan : Except Brk Table :=
  if m.mntType = "cgroup".toList then cgroupRootScanV1 t m else cgroupRootScanV2 t m

/-- `strncmp(mnt->mnt_type, "cgroup", 6)` is 0. -/
def Mntent.isCgroup : Bool := "cgroup".toList.isPrefixOf m.mntType

def scanMounts : List Mntent → Table → Except Brk Table
  | [], t => .ok t
  | m :: ms, t =>
    if m.isCgroup then do
      let t ← cgroupRootScan t m
      scanMounts ms t
    else scanMounts ms t

def tstCgScan (mounts : List Mntent) (t : Table) : Except Brk Table :=
  if mounts = [] then .error .noMounts else scanMounts mounts t

/-- The table after `n` scans of the same mounts. -/
def scans (mounts : List Mntent) : Nat → Except Brk Table
  | 0 => .ok Table.init
  | n + 1 => do
      let t ← scans mounts n
      tstCgScan mounts t

open CTypes (ok_bind)
open List Nat

variable {f : Nat} {t : Table} {root : Root} {k : Nat}

/-! ## The mounts -/

def Mntent.isV1 (m : Mntent) : Prop := m.isCgroup = true ∧ m.mntType = "cgroup".toList

def Mntent.isV2 (m : Mntent) : Prop := m.isCgroup = true ∧ m.mntType ≠ "cgroup".toList

/-- The controllers of a mount: in its options for V1, in `cgroup.controllers` for V2. -/
def Mntent.names (m : Mntent) : List (List Char) :=
  (if m.mntType = "cgroup".toList then strtok ',' m.mntOpts
    else strtok ' ' m.controllers).filterMap tokenName

/-- The controller with index `i` is on the hierarchy. -/
def Mntent.reports (m : Mntent) (i : Nat) : Prop :=
  ∃ name, ctrlNames[i]? = some name ∧ name ∈ m.names

/-- The mounts as the kernel presents them. -/
structure KernelMounts (ms : List Mntent) : Prop where
  /-- a name that a controller's name begins with is a controller's name -/
  full : ∀ m ∈ ms, m.isCgroup = true → ∀ name ∈ m.names, ∀ ctrl ∈ ctrlNames,
    name <+: ctrl → name ∈ ctrlNames
  v2Same : ∀ m ∈ ms, ∀ m' ∈ ms, m.isV2 → m'.isV2 → ∀ i, m.reports i ↔ m'.reports i
  v1Partition : ∀ m ∈ ms, ∀ m' ∈ ms, m.isV1 → m'.isV1 →
    (∀ i, m.reports i ↔ m'.reports i) ∨ ∀ i, ¬ (m.reports i ∧ m'.reports i)
  apart : ∀ m ∈ ms, ∀ m' ∈ ms, m.isV1 → m'.isV2 → ∀ i, ¬ (m.reports i ∧ m'.reports i)

/-! ## The table -/

structure Table.Sound (t : Table) : Prop where
  /-- the V2 hierarchy is in slot 0 and nothing else is -/
  v2Slot : ∀ i, (t.roots i).ver = some .v2 → i = 0
  slotZero : (t.roots 0).ver ≠ some .v1
  /-- the V1 hierarchies fill the next slots -/
  noGap : ∃ k, k < rootsMax ∧ ∀ i, 1 ≤ i → ((t.roots i).ver = some .v1 ↔ i ≤ k)
  nonempty : ∀ i, (t.roots i).ver = some .v1 → (t.roots i).ctrlField ≠ 0
  disjoint : ∀ i j, i ≠ j → (t.roots i).ver = some .v1 → (t.roots j).ver = some .v1 →
    ∀ c, ¬ (hasCtrl (t.roots i).ctrlField c = true ∧ hasCtrl (t.roots j).ctrlField c = true)
  /-- a controller refers to the recorded root that has it -/
  ref : ∀ c, c < ctrlNames.length → ∀ i, t.ctrlRoot c = some i ↔
    (t.roots i).ver ≠ none ∧ hasCtrl (t.roots i).ctrlField c = true

/-! ## The controllers of a mount -/

lemma testBit_addCtrl (f c i : Nat) :
    (addCtrl f c).testBit i = (f.testBit i || decide (c = i)) := by
  unfold addCtrl
  rw [testBit_or, one_shiftLeft, testBit_two_pow]

/-- The field is the set of the controllers that `reports` says. -/
def Field (m : Mntent) (f : Nat) : Prop := ∀ i, f.testBit i = true ↔ m.reports i

variable {m : Mntent} {tok name : List Char} {strict : Bool} {slot i : Nat} {done : Set Mntent}

lemma Field.unique {g} (hf : Field m f) (hg : Field m g) : f = g := by
  refine eq_of_testBit_eq fun i => ?_
  rw [Bool.eq_iff_iff, hf i, hg i]

lemma Field.congr {m' : Mntent} (hf : Field m f) (h : ∀ i, m.reports i ↔ m'.reports i) :
    Field m' f := fun i => (hf i).trans (h i)

lemma collectCtrls_name (h : tokenName tok = some name) (strict : Bool) (toks : List (List Char))
    (f : Nat) :
    collectCtrls strict (tok :: toks) f =
      collectCtrls strict toks ((lookupCtrl name).elim f (addCtrl f)) := by
  simp only [collectCtrls, cgroupFindCtrl, h]
  cases lookupCtrl name <;> rfl

lemma collectCtrls_noName (h : tokenName tok = none) (strict : Bool) (toks : List (List Char))
    (f : Nat) :
    collectCtrls strict (tok :: toks) f =
      if strict then .error (.unexpectedChar tok) else collectCtrls strict toks f := by
  simp only [collectCtrls, cgroupFindCtrl, h]
  cases strict <;> rfl

/-- **The controllers that are collected.** -/
lemma collectCtrls_spec {strict} : ∀ {toks : List (List Char)} {f g : Nat},
    collectCtrls strict toks f = .ok g → ∀ i, g.testBit i ↔
      f.testBit i ∨ ∃ name ∈ toks.filterMap tokenName, lookupCtrl name = some i
  | [], f, g, h, i => by
    simp only [collectCtrls, Except.ok.injEq] at h
    simp [h]
  | tok :: toks, f, g, h, i => by
    cases ht : tokenName tok with
    | none =>
      rw [collectCtrls_noName ht] at h
      rw [filterMap_cons_none ht]
      cases strict with
      | true => cases h
      | false => exact collectCtrls_spec h i
    | some name =>
      rw [collectCtrls_name ht] at h
      rw [filterMap_cons_some ht, collectCtrls_spec h i]
      cases hl : lookupCtrl name with
      | none => simp [hl]
      | some =>
        simp [testBit_addCtrl, hl, or_assoc]

lemma ctrlNames_order : ∀ (i j : Nat) (hi : i < ctrlNames.length) (hj : j < ctrlNames.length),
    j < i → ¬ ctrlNames[i] <+: ctrlNames[j] := by
  have h : ctrlNames.Pairwise fun first later => later.isPrefixOf first = false := by decide
  intro i j hi hj hlt hpre
  have := pairwise_iff_getElem.mp h j i hj hi hlt
  rw [ isPrefixOf_iff_prefix.mpr hpre] at this
  cases this

/-- A full name finds its own controller. -/
lemma lookupCtrl_iff (hfull : ∀ ctrl ∈ ctrlNames, name <+: ctrl → name ∈ ctrlNames) (i : Nat) :
    lookupCtrl name = some i ↔ ctrlNames[i]? = some name := by
  unfold lookupCtrl
  rw [findIdx?_eq_some_iff_getElem]
  constructor
  · rintro ⟨hi, hpre, hfirst⟩
    rw [ isPrefixOf_iff_prefix] at hpre
    obtain ⟨k, hk, hname⟩ := getElem_of_mem (hfull _ (getElem_mem hi) hpre)
    have hik : i = k := by
      rcases lt_trichotomy i k with hlt | heq | hgt
      · exact absurd (hname ▸ hpre) (ctrlNames_order k i hk hi hlt)
      · exact heq
      have hself : name.isPrefixOf ctrlNames[k] := by rw [ isPrefixOf_iff_prefix, hname]
      exact absurd hself (by simpa using hfirst k hgt)
    subst hik
    rw [getElem?_eq_getElem hi, hname]
  · intro hi
    obtain ⟨hlt, rfl⟩ := List.getElem?_eq_some_iff.mp hi
    refine ⟨hlt, ?_, fun j hj => ?_⟩
    · rw [ isPrefixOf_iff_prefix]
    · rw [ isPrefixOf_iff_prefix]
      exact ctrlNames_order i j hlt (by omega) hj

section Mounts

variable {ms : List Mntent} (hk : KernelMounts ms) {m : Mntent} (hm : m ∈ ms)

include hk hm

lemma KernelMounts.reports_iff (hc : m.isCgroup) (i : Nat) :
    (∃ name ∈ m.names, lookupCtrl name = some i) ↔ m.reports i := by
  constructor
  · rintro ⟨name, hn, hl⟩
    exact ⟨name, (lookupCtrl_iff (hk.full m hm hc name hn) i).mp hl, hn⟩
  · rintro ⟨name, hl, hn⟩
    exact ⟨name, hn, (lookupCtrl_iff (hk.full m hm hc name hn) i).mpr hl⟩

lemma KernelMounts.fieldV1 (hv : m.isV1)
    (h : collectCtrls strict (strtok ',' m.mntOpts) 0 = .ok f) : Field m f := by
  intro i
  rw [collectCtrls_spec h, ← hk.reports_iff hm hv.1]
  simp only [zero_testBit, Bool.false_eq_true, false_or, Mntent.names, if_pos hv.2]

lemma KernelMounts.fieldV2 (hv : m.isV2)
    (h : collectCtrls strict (strtok ' ' m.controllers) 0 = .ok f) : Field m f := by
  intro i
  rw [collectCtrls_spec h, ← hk.reports_iff hm hv.1]
  simp only [zero_testBit, Bool.false_eq_true, false_or, Mntent.names, if_neg hv.2]

end Mounts

lemma collectCtrls_lenient : ∀ toks f, ∃ g, collectCtrls false toks f = .ok g
  | [], f => ⟨f, rfl⟩
  | tok :: toks, f => by
    cases ht : tokenName tok with
    | none =>
      rw [collectCtrls_noName ht]
      exact collectCtrls_lenient toks f
    | some =>
      rw [collectCtrls_name ht]
      exact collectCtrls_lenient toks _

lemma land_eq_zero_iff {g : Nat} : f &&& g = 0 ↔ ∀ i, ¬ (f.testBit i ∧ g.testBit i) := by
  constructor
  · intro h i hi
    have := congrArg (testBit · i) h
    simp [hi.1, hi.2] at this
  intro h
  refine eq_of_testBit_eq fun i => ?_
  rw [testBit_and, zero_testBit, Bool.and_eq_false_iff]
  have := h i
  cases hf : f.testBit i
  · exact .inl rfl
  · exact .inr (by simpa [hf] using this)

/-! ## Recording a hierarchy -/

@[simp] lemma backref_roots_self (t : Table) (slot : Nat) (root : Root) :
    (backref t slot root).roots slot = root := Function.update_self ..

lemma backref_roots_other (t : Table) (root : Root) (h : i ≠ slot) :
    (backref t slot root).roots i = t.roots i := Function.update_of_ne h ..

lemma Table.Sound.ref_backref (hs : t.Sound)
    (hfree : (t.roots slot).ver = none) (hver : root.ver ≠ none)
    (hnew : ∀ i, (t.roots i).ver ≠ none → ∀ c,
      ¬ (hasCtrl root.ctrlField c ∧ hasCtrl (t.roots i).ctrlField c))
    {c : Nat} (hc : c < ctrlNames.length) (i : Nat) :
    (backref t slot root).ctrlRoot c = some i ↔ ((backref t slot root).roots i).ver ≠ none ∧
        hasCtrl ((backref t slot root).roots i).ctrlField c := by
  by_cases hi : i = slot
  · subst hi
    rw [backref_roots_self]
    simp only [backref, hc, true_and, hver, ne_eq]
    split_ifs with hb
    · simp [hb]
    · rw [hs.ref c hc]
      simp [hfree, hb]
  rw [backref_roots_other t root hi]
  simp only [backref, hc, true_and]
  split_ifs with hb
  · constructor
    · intro h
      exact absurd (Option.some.inj h).symm hi
    · rintro ⟨hv, hci⟩
      exact absurd ⟨hb, hci⟩ (hnew i hv c)
  · rw [hs.ref c hc]

/-! ## The invariant -/

structure Table.Holds (ms : List Mntent) (t : Table) (done : Set Mntent) : Prop where
  sound : t.Sound
  freeZero : (t.roots 0).ver = none → (t.roots 0).ctrlField = 0
  v2From : (t.roots 0).ver = some .v2 → ∃ m ∈ ms, m.isV2 ∧ Field m (t.roots 0).ctrlField
  v1From : ∀ i, (t.roots i).ver = some .v1 → ∃ m ∈ ms, m.isV1 ∧ Field m (t.roots i).ctrlField
  doneV2 : ∀ m ∈ done, m.isV2 → (t.roots 0).ver = some .v2 ∧
    ∃ f, collectCtrls true (strtok ' ' m.controllers) 0 = .ok f
  doneV1 : ∀ m ∈ done, m.isV1 → ∀ f, Field m f → f ≠ 0 →
    ∃ i, (t.roots i).ver = some .v1 ∧ (t.roots i).ctrlField = f

/-- The recorded hierarchies are those of the mounts, each with the controllers of the mount. A V1
mount without a controller is not recorded. -/
structure Table.Records (ms : List Mntent) (t : Table) : Prop where
  v2 : ∀ m ∈ ms, m.isV2 → (t.roots 0).ver = some .v2 ∧ Field m (t.roots 0).ctrlField
  v1 : ∀ m ∈ ms, m.isV1 → (∃ c, m.reports c) →
    ∃ i, (t.roots i).ver = some .v1 ∧ Field m (t.roots i).ctrlField
  v2From : (t.roots 0).ver = some .v2 → ∃ m ∈ ms, m.isV2 ∧ Field m (t.roots 0).ctrlField
  v1From : ∀ i, (t.roots i).ver = some .v1 → ∃ m ∈ ms, m.isV1 ∧ Field m (t.roots i).ctrlField

lemma Table.init_holds (ms : List Mntent) : Table.init.Holds ms ∅ where
  sound :=
    { v2Slot := nofun
      slotZero := nofun
      noGap := ⟨0, by decide, fun i hi => ⟨nofun, fun h => by omega⟩⟩
      nonempty := nofun
      disjoint := nofun
      ref := fun c _ i => ⟨nofun, fun h => absurd rfl h.1⟩ }
  freeZero := fun _ => rfl
  v2From := nofun
  v1From := nofun
  doneV2 := nofun
  doneV1 := nofun

lemma Table.Sound.recorded (hs : t.Sound) (h : (t.roots i).ver ≠ none) :
    (i = 0 ∧ (t.roots 0).ver = some .v2) ∨ (t.roots i).ver = some .v1 := by
  cases hv : (t.roots i).ver with
  | none => exact absurd hv h
  | some v =>
    cases v with
    | v1 => exact .inr rfl
    | v2 =>
      have := hs.v2Slot i hv
      subst this
      exact .inl ⟨rfl, hv⟩

lemma Table.Sound.free_slot (hs : t.Sound)
    (hgap : ∀ i, 1 ≤ i → ((t.roots i).ver = some .v1 ↔ i ≤ k)) (hi : k < i) :
    (t.roots i).ver = none := by
  by_contra hne
  rcases hs.recorded hne with ⟨_, -⟩ | h1
  · omega
  · have := (hgap i (by omega)).mp h1
    omega

/-- The slot of a mount. -/
lemma Table.Sound.findV1Root_spec (hs : t.Sound) {dir : List Char}
    (hgap : ∀ i, 1 ≤ i → ((t.roots i).ver = some .v1 ↔ i ≤ k)) (hf : f ≠ 0)
    (hsame : ∀ i, (t.roots i).ver = some .v1 → f = (t.roots i).ctrlField ∨
      ∀ c, ¬ (hasCtrl f c ∧ hasCtrl (t.roots i).ctrlField c)) :
    ∀ left slot, 1 ≤ slot → slot ≤ k + 1 → k + 1 < slot + left →
      (∃ i, (t.roots i).ver = some .v1 ∧ f = (t.roots i).ctrlField ∧
        findV1Root t f dir left slot = .ok (.inl i)) ∨
      ((∀ i, slot ≤ i → i ≤ k → ∀ c, ¬ (hasCtrl f c ∧ hasCtrl (t.roots i).ctrlField c)) ∧
        findV1Root t f dir left slot = .ok (.inr (k + 1)))
  | 0, slot, _, hle, hlt => by omega
  | left + 1, slot, h1, hle, hlt => by
    simp only [findV1Root]
    by_cases hend : slot = k + 1
    · subst hend
      right
      rw [if_pos (hs.free_slot hgap (Nat.lt_succ_self k))]
      exact ⟨fun i hi hi' => by omega, rfl⟩
    have hv1 := (hgap slot h1).mpr (by omega)
    rw [if_neg (by rw [hv1]; nofun)]
    rcases hsame slot hv1 with heq | hdis
    · left
      rw [if_neg (by rw [← heq, Nat.and_self]; exact hf), if_pos heq]
      exact ⟨slot, hv1, heq, rfl⟩
    rw [if_pos (land_eq_zero_iff.mpr hdis)]
    rcases hs.findV1Root_spec hgap hf hsame left (slot + 1) (by omega) (by omega) (by omega)
      with hfound | ⟨hall, hnone⟩
    · exact .inl hfound
    refine .inr ⟨fun i hi hi' => ?_, hnone⟩
    by_cases h0 : i = slot
    · exact h0 ▸ hdis
    · exact hall i (by omega) hi'

section Scan

variable {ms : List Mntent} (hk : KernelMounts ms) {m : Mntent} (hm : m ∈ ms) {t : Table}
  {done : Set Mntent} (h : t.Holds ms done)

include hk hm h

lemma Table.Holds.apart_v1 (hv : m.isV2) (hf : Field m f) (hi : (t.roots i).ver = some .v1)
    (c : Nat) : ¬ (hasCtrl f c ∧ hasCtrl (t.roots i).ctrlField c) := by
  rintro ⟨h1, h2⟩
  obtain ⟨m', hm', hv', hf'⟩ := h.v1From i hi
  exact hk.apart m' hm' m hm hv' hv c ⟨(hf' c).mp h2, (hf c).mp h1⟩

lemma Table.Holds.apart_v2 (hv : m.isV1) (hf : Field m f)
    (hi : (t.roots 0).ver = some .v2) (c : Nat) :
    ¬ (hasCtrl f c ∧ hasCtrl (t.roots 0).ctrlField c) := by
  rintro ⟨h1, h2⟩
  obtain ⟨m', hm', hv', hf'⟩ := h.v2From hi
  exact hk.apart m hm m' hm' hv hv' c ⟨(hf c).mp h1, (hf' c).mp h2⟩

/-- Two mounts have the same controllers or none in common. -/
lemma Table.Holds.same_or_apart (hv : m.isV1) (hf : Field m f) (hi : (t.roots i).ver = some .v1) :
    f = (t.roots i).ctrlField ∨ ∀ c, ¬ (hasCtrl f c ∧ hasCtrl (t.roots i).ctrlField c) := by
  obtain ⟨m', hm', hv', hf'⟩ := h.v1From i hi
  rcases hk.v1Partition m hm m' hm' hv hv' with hsame | hdis
  · exact .inl ((hf.congr hsame).unique hf')
  · exact .inr fun c hc => hdis c ⟨(hf c).mp hc.1, (hf' c).mp hc.2⟩

/-- A v2 mount is recorded. -/
lemma Table.Holds.recordV2 (hv : m.isV2)
    (hf : collectCtrls true (strtok ' ' m.controllers) 0 = .ok f)
    (hfree : (t.roots 0).ver = none) (hver : root.ver = some .v2)
    (hfield : root.ctrlField = f) : (backref t 0 root).Holds ms (insert m done) := by
  have hs := h.sound
  have hF : Field m root.ctrlField := by rw [hfield]; exact hk.fieldV2 hm hv hf
  -- the V1 slots are as before
  have hroots : ∀ {i}, 1 ≤ i → (backref t 0 root).roots i = t.roots i :=
    fun hi => backref_roots_other t root (by omega)
  have hv1 : ∀ {i}, ((backref t 0 root).roots i).ver = some .v1 →
      1 ≤ i ∧ (t.roots i).ver = some .v1 := by
    intro i hi
    by_cases h0 : i = 0
    · subst h0
      rw [backref_roots_self, hver] at hi
      cases hi
    · rw [hroots (by omega)] at hi
      exact ⟨by omega, hi⟩
  have hrec : ∀ i, (t.roots i).ver ≠ none → (t.roots i).ver = some .v1 := by
    intro i hi
    rcases hs.recorded hi with ⟨rfl, -⟩ | h1
    · exact absurd hfree hi
    · exact h1
  refine ⟨⟨fun i hi => ?_, ?_, ?_, fun i hi => ?_, fun i j hij hi hj => ?_, fun c hc i => ?_⟩,
    ?_, ?_, ?_, ?_, ?_⟩
  · by_contra h0
    rw [hroots (by omega)] at hi
    exact h0 (hs.v2Slot i hi)
  · rw [backref_roots_self, hver]
    nofun
  · obtain ⟨k, hk', hgap⟩ := hs.noGap
    refine ⟨k, hk', fun i hi => ?_⟩
    rw [hroots hi]
    exact hgap i hi
  · obtain ⟨h1, hi⟩ := hv1 hi
    rw [hroots h1]
    exact hs.nonempty i hi
  · obtain ⟨h1, hi⟩ := hv1 hi
    obtain ⟨h1', hj⟩ := hv1 hj
    rw [hroots h1, hroots h1']
    exact hs.disjoint i j hij hi hj
  · exact hs.ref_backref hfree (by rw [hver]; nofun)
      (fun i hi => h.apart_v1 hk hm hv hF (hrec i hi)) hc i
  · rw [backref_roots_self, hver]
    nofun
  · rw [backref_roots_self]
    exact fun _ => ⟨m, hm, hv, hF⟩
  · intro i hi
    obtain ⟨h1, hi⟩ := hv1 hi
    rw [hroots h1]
    exact h.v1From i hi
  · rw [backref_roots_self]
    rintro m₁ (rfl | hd) hv₁
    · exact ⟨hver, f, hf⟩
    · exact ⟨hver, (h.doneV2 m₁ hd hv₁).2⟩
  rintro m₁ (rfl | hd) hv₁ g hg hg0
  · exact absurd hv₁.2 hv.2
  obtain ⟨i, hi, hfi⟩ := h.doneV1 m₁ hd hv₁ g hg hg0
  have h1 : 1 ≤ i := by
    by_contra h0
    have : i = 0 := by omega
    subst this
    exact hs.slotZero hi
  exact ⟨i, by rw [hroots h1]; exact hi, by rw [hroots h1]; exact hfi⟩

/-- **One V2 mount.** -/
theorem Table.Holds.scanV2 (hv : m.isV2)
    (hf : collectCtrls true (strtok ' ' m.controllers) 0 = .ok f) :
    ∃ t', cgroupRootScanV2 t m = .ok t' ∧ t'.Holds ms (insert m done) ∧ (m ∈ done → t' = t) := by
  have hs := h.sound
  unfold cgroupRootScanV2
  rw [hf]
  simp only [ok_bind]
  by_cases hver : (t.roots 0).ver = none
  · -- the first V2 mount
    rw [if_neg (fun hc => hc.1 hver), if_neg (fun hc => hc (h.freeZero hver))]
    refine ⟨_, rfl, h.recordV2 hk hm hv hf hver rfl rfl, fun hd => ?_⟩
    have := (h.doneV2 m hd hv).1
    rw [hver] at this
    cases this
  -- the hierarchy is known, and it has the same controllers
  have hv2 : (t.roots 0).ver = some .v2 := by
    rcases hs.recorded hver with ⟨-, h2⟩ | h1
    · exact h2
    · exact absurd h1 hs.slotZero
  obtain ⟨m', hm', hv', hf'⟩ := h.v2From hv2
  have heq : f = (t.roots 0).ctrlField :=
    ((hk.fieldV2 hm hv hf).congr (hk.v2Same m hm m' hm' hv hv')).unique hf'
  rw [if_pos ⟨hver, heq⟩]
  refine ⟨t, rfl, ⟨hs, h.freeZero, h.v2From, h.v1From, ?_, ?_⟩, fun _ => rfl⟩
  · rintro m₁ (rfl | hd) hv₁
    · exact ⟨hv2, f, hf⟩
    · exact h.doneV2 m₁ hd hv₁
  rintro m₁ (rfl | hd) hv₁
  · exact absurd hv₁.2 hv.2
  · exact h.doneV1 m₁ hd hv₁

/-- A v1 mount is recorded. -/
lemma Table.Holds.recordV1 (hv : m.isV1) (hF : Field m f) (hf : f ≠ 0)
    (hgap : ∀ i, 1 ≤ i → ((t.roots i).ver = some .v1 ↔ i ≤ k)) (hslot : k + 1 < rootsMax)
    (hnew : ∀ i, 1 ≤ i → i ≤ k → ∀ c, ¬ (hasCtrl f c ∧ hasCtrl (t.roots i).ctrlField c))
    (hver : root.ver = some .v1) (hfield : root.ctrlField = f) :
    (backref t (k + 1) root).Holds ms (insert m done) := by
  have hs := h.sound
  have hfree := hs.free_slot hgap (lt_succ_self k)
  subst hfield
  have hroots : ∀ {i}, i ≠ k + 1 → (backref t (k + 1) root).roots i = t.roots i :=
    fun hi => backref_roots_other t root hi
  have hpos : ∀ {i}, (t.roots i).ver = some .v1 → 1 ≤ i := by
    intro i hi
    by_contra h0
    have : i = 0 := by omega
    subst this
    exact hs.slotZero hi
  -- the new set is apart from what the table has
  have hapart : ∀ i, (t.roots i).ver ≠ none →
      ∀ c, ¬ (hasCtrl root.ctrlField c ∧ hasCtrl (t.roots i).ctrlField c) := by
    intro i hi
    rcases hs.recorded hi with ⟨rfl, h2⟩ | h1
    · exact h.apart_v2 hk hm hv hF h2
    · exact hnew i (hpos h1) ((hgap i (hpos h1)).mp h1)
  have hv1 : ∀ {i}, ((backref t (k + 1) root).roots i).ver = some .v1 → i ≠ k + 1 →
      (t.roots i).ver = some .v1 := by
    intro i hi hne
    rw [hroots hne] at hi
    exact hi
  refine ⟨⟨fun i hi => ?_, ?_, ⟨k + 1, hslot, fun i hi => ?_⟩, fun i hi => ?_,
    fun i j hij hi hj c => ?_, fun c hc i => ?_⟩, ?_, ?_, fun i hi => ?_, ?_, ?_⟩
  · by_cases h0 : i = k + 1
    · subst h0
      rw [backref_roots_self, hver] at hi
      cases hi
    · rw [hroots h0] at hi
      exact hs.v2Slot i hi
  · rw [hroots (by omega)]
    exact hs.slotZero
  · by_cases h0 : i = k + 1
    · subst h0
      simp [hver]
    · rw [hroots h0, hgap i hi]
      omega
  · by_cases h0 : i = k + 1
    · subst h0
      rw [backref_roots_self]
      exact hf
    · rw [hroots h0]
      exact hs.nonempty i (hv1 hi h0)
  · by_cases h0 : i = k + 1
    · subst h0
      rw [backref_roots_self, hroots (Ne.symm hij)]
      exact hapart j (by rw [hv1 hj (Ne.symm hij)]; nofun) c
    rw [hroots h0]
    by_cases h1 : j = k + 1
    · subst h1
      rw [backref_roots_self]
      exact fun hc => hapart i (by rw [hv1 hi h0]; nofun) c hc.symm
    · rw [hroots h1]
      exact hs.disjoint i j hij (hv1 hi h0) (hv1 hj h1) c
  · exact hs.ref_backref hfree (by rw [hver]; nofun) hapart hc i
  · rw [hroots (by omega)]
    exact h.freeZero
  · rw [hroots (by omega)]
    exact h.v2From
  · by_cases h0 : i = k + 1
    · subst h0
      rw [backref_roots_self]
      exact ⟨m, hm, hv, hF⟩
    · rw [hroots h0]
      exact h.v1From i (hv1 hi h0)
  · rw [hroots (by omega)]
    rintro m₁ (rfl | hd) hv₁
    · exact absurd hv.2 hv₁.2
    · exact h.doneV2 m₁ hd hv₁
  · rintro m₁ (rfl | hd) hv₁ g hg hg0
    · refine ⟨k + 1, ?_, ?_⟩
      · rw [backref_roots_self, hver]
      · rw [backref_roots_self]
        exact hF.unique hg
    obtain ⟨i, hi, hfi⟩ := h.doneV1 m₁ hd hv₁ g hg hg0
    have hne : i ≠ k + 1 := fun he => by
      rw [he, hfree] at hi
      cases hi
    exact ⟨i, by rw [hroots hne]; exact hi, by rw [hroots hne]; exact hfi⟩

/-- **One V1 mount.** It is recorded, or known, or there is no slot for it. -/
theorem Table.Holds.scanV1 (hv : m.isV1) :
    (∃ t', cgroupRootScanV1 t m = .ok t' ∧ t'.Holds ms (insert m done) ∧ (m ∈ done → t' = t)) ∨
      cgroupRootScanV1 t m = .error .exceeded ∧
        ∃ f, Field m f ∧ f ≠ 0 ∧ (∀ i, 1 ≤ i → i ≤ ctrlsMax → (t.roots i).ver = some .v1 ∧
          ∀ c, ¬ (hasCtrl f c ∧ hasCtrl (t.roots i).ctrlField c)) := by
  have hs := h.sound
  obtain ⟨f, hf⟩ := collectCtrls_lenient (strtok ',' m.mntOpts) 0
  have hF := hk.fieldV1 hm hv hf
  have hkeep : ∀ {g}, Field m g → (g ≠ 0 → ∃ i, (t.roots i).ver = some .v1 ∧
      (t.roots i).ctrlField = g) → t.Holds ms (insert m done) := by
    intro g hg hrec
    refine ⟨hs, h.freeZero, h.v2From, h.v1From, ?_, ?_⟩
    · rintro m₁ (rfl | hd) hv₁
      · exact absurd hv.2 hv₁.2
      · exact h.doneV2 m₁ hd hv₁
    rintro m₁ (rfl | hd) hv₁ g' hg' h0
    · rw [hg'.unique hg] at h0 ⊢
      exact hrec h0
    · exact h.doneV1 m₁ hd hv₁ g' hg' h0
  simp only [cgroupRootScanV1, hf, ok_bind]
  split_ifs with h0
  · exact .inl ⟨t, rfl, hkeep hF (fun hne => absurd h0 hne), fun _ => rfl⟩
  obtain ⟨k, _, hgap⟩ := hs.noGap
  rcases hs.findV1Root_spec hgap h0 (fun i hi => h.same_or_apart hk hm hv hF hi) rootsMax 1
    (le_refl 1) (by omega) (by omega) with ⟨i, hi, heq, hfind⟩ | ⟨hall, hfind⟩
  · rw [hfind]
    exact .inl ⟨t, rfl, hkeep hF (fun _ => ⟨i, hi, heq.symm⟩), fun _ => rfl⟩
  rw [hfind]
  simp only [ok_bind]
  split_ifs with hfull
  · refine .inr ⟨rfl, f, hF, h0, fun i hi hi' => ?_⟩
    have hik : i ≤ k := by
      unfold rootsMax at hfull
      omega
    exact ⟨(hgap i hi).mpr hik, hall i hi hik⟩
  refine .inl ⟨_, rfl, h.recordV1 hk hm hv hF h0 hgap (by omega) hall rfl rfl, fun hd => ?_⟩
  -- a mount that was scanned before is in the table
  obtain ⟨i, hi, hfi⟩ := h.doneV1 m hd hv f hF h0
  have h1 : 1 ≤ i := by
    by_contra hz
    have : i = 0 := by omega
    subst this
    exact absurd hi hs.slotZero
  obtain ⟨c, hc⟩ := exists_testBit_of_ne_zero h0
  exact absurd ⟨hc, by rw [hfi]; exact hc⟩ (hall i h1 ((hgap i h1).mp hi) c)

end Scan

/-- When every mount is done, the table records them all. -/
theorem Table.Holds.records {ms : List Mntent} (hk : KernelMounts ms) (h : t.Holds ms done)
    (hall : ∀ m ∈ ms, m ∈ done) : t.Records ms where
  v2 m hm hv := by
    obtain ⟨hver, -⟩ := h.doneV2 m (hall m hm) hv
    obtain ⟨m', hm', hv', hF⟩ := h.v2From hver
    exact ⟨hver, hF.congr (hk.v2Same m' hm' m hm hv' hv)⟩
  v1 m hm hv hreports := by
    obtain ⟨f, hf⟩ := collectCtrls_lenient (strtok ',' m.mntOpts) 0
    have hF := hk.fieldV1 hm hv hf
    obtain ⟨c, hc⟩ := hreports
    have h0 : f ≠ 0 := by
      rintro rfl
      simpa using (hF c).mpr hc
    obtain ⟨i, hi, rfl⟩ := h.doneV1 m (hall m hm) hv f hF h0
    exact ⟨i, hi, hF⟩
  v2From := h.v2From
  v1From := h.v1From

/-! ## Whole scans -/

section Scans

variable {ms : List Mntent} (hk : KernelMounts ms)

include hk

/-- **One mount**, of either version. -/
theorem Table.Holds.scan (hm : m ∈ ms) (hc : m.isCgroup) {t' : Table} (h : t.Holds ms done)
    (he : cgroupRootScan t m = .ok t') : t'.Holds ms (insert m done) := by
  unfold cgroupRootScan at he
  split_ifs at he with htype
  · rcases h.scanV1 hk hm ⟨hc, htype⟩ with ⟨t₁, he₁, hh, -⟩ | ⟨he₁, -⟩
    · rw [he] at he₁
      cases he₁
      exact hh
    · rw [he] at he₁
      cases he₁
  · cases hf : collectCtrls true (strtok ' ' m.controllers) 0 with
    | error => simp only [cgroupRootScanV2, hf] at he; cases he
    | ok =>
      obtain ⟨t₁, he₁, hh, -⟩ := h.scanV2 hk hm ⟨hc, htype⟩ hf
      rw [he] at he₁
      cases he₁
      exact hh

omit hk in
lemma Table.Holds.other (hc : m.isCgroup = false) (h : t.Holds ms done) :
    t.Holds ms (insert m done) := by
  refine ⟨h.sound, h.freeZero, h.v2From, h.v1From, ?_, ?_⟩
  · rintro m₁ (rfl | hd) hv₁
    · exact absurd hv₁.1 (by rw [hc]; nofun)
    · exact h.doneV2 m₁ hd hv₁
  rintro m₁ (rfl | hd) hv₁
  · exact absurd hv₁.1 (by rw [hc]; nofun)
  · exact h.doneV1 m₁ hd hv₁

/-- **A scan keeps the table right.** -/
lemma Table.Holds.scanMounts : ∀ {sub}, (∀ m ∈ sub, m ∈ ms) →
    ∀ {t t' : Table} {done}, t.Holds ms done → scanMounts sub t = .ok t' →
      t'.Holds ms {m | m ∈ sub ∨ m ∈ done}
  | [], _, t, t', done, h, he => by
    simp only [Cgroup.scanMounts, Except.ok.injEq] at he
    simpa [← he] using h
  | m :: sub, hsub, t, t', done, h, he => by
    have hset : {x | x ∈ m :: sub ∨ x ∈ done} = {x | x ∈ sub ∨ x ∈ insert m done} := by
      ext x
      simp only [mem_cons, Set.mem_ofPred_eq, Set.mem_insert_iff]
      tauto
    rw [hset]
    simp only [Cgroup.scanMounts] at he
    cases hc : m.isCgroup with
    | true =>
      rw [hc, if_pos rfl] at he
      cases he₁ : cgroupRootScan t m with
      | error => rw [he₁] at he; cases he
      | ok =>
        rw [he₁, ok_bind] at he
        exact (h.scan hk (hsub m mem_cons_self) hc he₁).scanMounts (forall_mem_cons.1 hsub).2 he
    | false =>
      rw [hc, if_neg (by nofun)] at he
      exact (h.other hc).scanMounts (forall_mem_cons.1 hsub).2 he

lemma Table.Holds.rescan (hm : m ∈ ms) (hc : m.isCgroup) (h : t.Holds ms done) (hd : m ∈ done) :
    cgroupRootScan t m = .ok t := by
  have hs := h.sound
  unfold cgroupRootScan
  split_ifs with htype
  · have hv : m.isV1 := ⟨hc, htype⟩
    rcases h.scanV1 hk hm hv with ⟨t₁, he, -, hsame⟩ | ⟨-, f, hF, h0, hfull⟩
    · rw [he, hsame hd]
    -- a full table has a slot for it
    obtain ⟨i, hi, hfi⟩ := h.doneV1 m hd hv f hF h0
    obtain ⟨k, hlt, hgap⟩ := hs.noGap
    have h1 : 1 ≤ i := by
      by_contra hz
      have : i = 0 := by omega
      subst this
      exact hs.slotZero hi
    have hik := (hgap i h1).mp hi
    obtain ⟨c, hcf⟩ := exists_testBit_of_ne_zero h0
    have hle : i ≤ ctrlsMax := by
      unfold rootsMax at hlt
      omega
    exact absurd ⟨hcf, by rw [hfi]; exact hcf⟩ ((hfull i h1 hle).2 c)
  · have hv : m.isV2 := ⟨hc, htype⟩
    obtain ⟨f, hf⟩ := (h.doneV2 m hd hv).2
    obtain ⟨t₁, he, -, hsame⟩ := h.scanV2 hk hm hv hf
    rw [he, hsame hd]

/-- A second scan changes nothing. -/
lemma Table.Holds.rescanMounts (h : t.Holds ms done) : ∀ {sub},
    (∀ m ∈ sub, m ∈ ms ∧ m ∈ done) → Cgroup.scanMounts sub t = .ok t
  | [], _ => rfl
  | m :: sub, hsub => by
    obtain ⟨hm, hd⟩ := hsub m mem_cons_self
    have hrest := h.rescanMounts (forall_mem_cons.1 hsub).2
    simp only [Cgroup.scanMounts]
    cases hc : m.isCgroup with
    | true => rw [if_pos rfl, h.rescan hk hm hc hd, ok_bind, hrest]
    | false => rw [if_neg (by nofun), hrest]

lemma scans_holds : ∀ {n} {t : Table}, scans ms n = .ok t →
    ∃ done, t.Holds ms done ∧ (1 ≤ n → ∀ m ∈ ms, m ∈ done)
  | 0, t, he => by
    simp only [scans, Except.ok.injEq] at he
    exact ⟨∅, he ▸ Table.init_holds ms, fun h => absurd h (by omega)⟩
  | n + 1, t, he => by
    simp only [scans] at he
    cases hn : scans ms n with
    | error => rw [hn] at he; cases he
    | ok =>
      rw [hn, ok_bind] at he
      obtain ⟨_, h, -⟩ := scans_holds hn
      unfold tstCgScan at he
      split at he
      · cases he
      · exact ⟨_, h.scanMounts hk (fun m hm => hm) he, fun _ m hm => .inl hm⟩

end Scans

/-! ## Scans without an error -/

/-- There are mounts, and controllers have lower case names other than `cgroup`. -/
structure ScanMounts (ms : List Mntent) : Prop where
  mounts : ms ≠ []
  names : ∀ m ∈ ms, m.isV2 → ∀ tok ∈ strtok ' ' m.controllers, tokenName tok ≠ none
  controller : ∀ m ∈ ms, m.isV1 → ¬ m.reports 0

lemma collectCtrls_strict : ∀ {toks} f,
    (∀ tok ∈ toks, tokenName tok ≠ none) → ∃ g, collectCtrls true toks f = .ok g
  | [], f, _ => ⟨f, rfl⟩
  | tok :: toks, f, h => by
    cases ht : tokenName tok with
    | none => exact absurd ht (h tok mem_cons_self)
    | some =>
      rw [collectCtrls_name ht]
      exact collectCtrls_strict _ (forall_mem_cons.1 h).2

/-- The controllers make at most eighteen hierarchies. -/
lemma no_nineteen_sets (sets : Nat → Nat)
    (hne : ∀ i, i ≤ ctrlsMax → ∃ c, 1 ≤ c ∧ c ≤ ctrlsMax ∧ hasCtrl (sets i) c)
    (hdis : ∀ i j, i ≤ ctrlsMax → j ≤ ctrlsMax → i ≠ j → ∀ c,
      ¬ (hasCtrl (sets i) c ∧ hasCtrl (sets j) c)) : False := by
  choose! pick hlo hhi hmem using hne
  obtain ⟨i, hi, j, hj, hij, heq⟩ := Finset.exists_ne_map_eq_of_card_lt_of_maps_to
    (s := Finset.range (ctrlsMax + 1)) (t := Finset.Icc 1 ctrlsMax) (f := pick)
    (by simp) (fun i hi => by
      have hi := le_of_lt_succ (Finset.mem_range.mp hi)
      exact Finset.mem_Icc.mpr ⟨hlo i hi, hhi i hi⟩)
  have hi := le_of_lt_succ (Finset.mem_range.mp hi)
  have hj := le_of_lt_succ (Finset.mem_range.mp hj)
  exact hdis i j hi hj hij (pick i) ⟨hmem i hi, heq ▸ hmem j hj⟩

lemma ScanMounts.exists_ctrl {ms} (hr : ScanMounts ms) (hm : m ∈ ms) (hv : m.isV1)
    (hF : Field m f) (h0 : f ≠ 0) : ∃ c, 1 ≤ c ∧ c ≤ ctrlsMax ∧ hasCtrl f c := by
  obtain ⟨c, hc⟩ := exists_testBit_of_ne_zero h0
  have hrep := (hF c).mp hc
  refine ⟨c, ?_, ?_, hc⟩
  · by_contra hz
    have : c = 0 := by omega
    subst this
    exact hr.controller m hm hv hrep
  obtain ⟨_, hn, -⟩ := hrep
  have := (List.getElem?_eq_some_iff.mp hn).1
  have hlen : ctrlNames.length = 19 := by decide
  unfold ctrlsMax
  omega

section Progress

variable {ms : List Mntent} (hk : KernelMounts ms) (hr : ScanMounts ms)

include hk hr

/-- A mount is scanned without an error. -/
lemma Table.Holds.scan_ok (hm : m ∈ ms) (hc : m.isCgroup) (h : t.Holds ms done) :
    ∃ t', cgroupRootScan t m = .ok t' := by
  unfold cgroupRootScan
  split_ifs with htype
  · have hv : m.isV1 := ⟨hc, htype⟩
    rcases h.scanV1 hk hm hv with ⟨t₁, he, -⟩ | ⟨-, f, hF, h0, hfull⟩
    · exact ⟨t₁, he⟩
    -- the mount's set and those of the eighteen slots
    exfalso
    refine no_nineteen_sets (fun i => if i = 0 then f else (t.roots i).ctrlField) ?_ ?_
    · intro i hi
      by_cases hi0 : i = 0
      · simp only [if_pos hi0]
        exact hr.exists_ctrl hm hv hF h0
      simp only [if_neg hi0]
      have hv1 := (hfull i (by omega) hi).1
      obtain ⟨_, hm', hv', hF'⟩ := h.v1From i hv1
      exact hr.exists_ctrl hm' hv' hF' (h.sound.nonempty i hv1)
    intro i j hi hj hij c
    by_cases hi0 : i = 0
    · have hj0 : j ≠ 0 := fun hj0 => hij (hi0.trans hj0.symm)
      simp only [if_pos hi0, if_neg hj0]
      exact (hfull j (by omega) hj).2 c
    simp only [if_neg hi0]
    by_cases hj0 : j = 0
    · simp only [if_pos hj0]
      exact fun hc => (hfull i (by omega) hi).2 c hc.symm
    · simp only [if_neg hj0]
      exact h.sound.disjoint i j hij (hfull i (by omega) hi).1 (hfull j (by omega) hj).1 c
  · have hv : m.isV2 := ⟨hc, htype⟩
    obtain ⟨f, hf⟩ := collectCtrls_strict 0 (hr.names m hm hv)
    obtain ⟨t₁, he, -⟩ := h.scanV2 hk hm hv hf
    exact ⟨t₁, he⟩

lemma Table.Holds.scanMounts_ok : ∀ {sub}, (∀ m ∈ sub, m ∈ ms) →
    ∀ {t : Table} {done}, t.Holds ms done → ∃ t', Cgroup.scanMounts sub t = .ok t'
  | [], _, t, _, _ => ⟨t, rfl⟩
  | m :: sub, hsub, t, done, h => by
    have hrest := (forall_mem_cons.1 hsub).2
    simp only [Cgroup.scanMounts]
    cases hc : m.isCgroup with
    | true =>
      obtain ⟨_, he⟩ := h.scan_ok hk hr (hsub m mem_cons_self) hc
      rw [if_pos rfl, he, ok_bind]
      exact (h.scan hk (hsub m mem_cons_self) hc he).scanMounts_ok hrest
    | false =>
      rw [if_neg (by nofun)]
      exact h.scanMounts_ok hrest

lemma scans_ok : ∀ n, ∃ t, scans ms n = .ok t
  | 0 => ⟨Table.init, rfl⟩
  | n + 1 => by
    obtain ⟨t, ht⟩ := scans_ok n
    obtain ⟨_, h, -⟩ := scans_holds hk ht
    simp only [scans, ht, ok_bind, tstCgScan, if_neg hr.mounts]
    exact h.scanMounts_ok hk hr fun m hm => hm

end Progress

/-- **The table after any number of scans.** The V2 hierarchy is in slot 0, the V1 hierarchies fill
the next slots with disjoint non-empty sets, and each controller refers to the root whose set has
it. From the first scan on all mounts are recorded and nothing changes. With names as the kernel
gives them no scan ends with `TBROK`. -/
theorem tstCgScan_invariant (ms : List Mntent) (hk : KernelMounts ms) :
    (∀ n t, scans ms n = .ok t → t.Sound ∧
      (1 ≤ n → t.Records ms ∧ tstCgScan ms t = .ok t)) ∧
    (ScanMounts ms → ∀ n, ∃ t, scans ms n = .ok t) := by
  refine ⟨fun n t ht => ?_, fun hr n => scans_ok hk hr n⟩
  obtain ⟨_, h, hall⟩ := scans_holds hk ht
  refine ⟨h.sound, fun hn => ?_⟩
  have hne : ms ≠ [] := by
    intro hnil
    subst hnil
    rcases n with _ | k
    · omega
    simp only [scans] at ht
    cases hk' : scans [] k with
    | error | ok => rw [hk'] at ht; cases ht
  refine ⟨h.records hk (hall hn), ?_⟩
  unfold tstCgScan
  rw [if_neg hne]
  exact h.rescanMounts hk fun m hm => ⟨hm, hall hn m hm⟩

def sampleV1 : Mntent :=
  ⟨"cgroup".toList, "/sys/fs/cgroup/cpu".toList, "rw,relatime,cpu,cpuacct".toList, []⟩

def sampleV2 : Mntent :=
  ⟨"cgroup2".toList, "/sys/fs/cgroup/unified".toList, "rw,nsdelegate".toList, "io memory\n".toList⟩

lemma sample_kernelMounts : KernelMounts [sampleV1, sampleV2] := by
  have hnotV2 : ¬ sampleV1.isV2 := fun h => h.2 rfl
  have hnotV1 : ¬ sampleV2.isV1 := fun h => absurd h.2 (by decide)
  refine ⟨by decide +kernel, ?_, ?_, ?_⟩
  · simp only [mem_cons, not_mem_nil, or_false]
    rintro m (rfl | rfl) m' (rfl | rfl) hv hv'
    · exact fun _ => Iff.rfl
    · exact absurd hv hnotV2
    · exact absurd hv' hnotV2
    · exact fun _ => Iff.rfl
  · simp only [mem_cons, not_mem_nil, or_false]
    rintro m (rfl | rfl) m' (rfl | rfl) hv hv'
    · exact .inl fun _ => Iff.rfl
    · exact absurd hv' hnotV1
    · exact absurd hv hnotV1
    · exact absurd hv hnotV1
  simp only [mem_cons, not_mem_nil, or_false]
  rintro m (rfl | rfl) m' (rfl | rfl) hv hv'
  · exact absurd hv' hnotV2
  · rintro i ⟨⟨name, hn, h1⟩, ⟨_, hn', h2⟩⟩
    rw [hn] at hn'
    cases hn'
    have hdis : ∀ x ∈ sampleV1.names, x ∉ sampleV2.names := by decide +kernel
    exact hdis name h1 h2
  · exact absurd hv hnotV1
  · exact absurd hv hnotV1

lemma sample_scanMounts : ScanMounts [sampleV1, sampleV2] := by
  refine ⟨nofun, ?_, ?_⟩
  · simp only [mem_cons, not_mem_nil, or_false]
    rintro m (rfl | rfl) hv
    · exact absurd rfl hv.2
    · decide +kernel
  simp only [mem_cons, not_mem_nil, or_false]
  rintro m (rfl | rfl) hv
  · rintro ⟨_, hn, hmem⟩
    cases hn
    exact absurd hmem (by decide +kernel)
  · exact absurd hv.2 (by decide)

/-- Both sample mounts are in the table after three scans. -/
theorem tstCgScan_invariant_sample :
    ∃ t, scans [sampleV1, sampleV2] 3 = .ok t ∧ t.Sound ∧
      tstCgScan [sampleV1, sampleV2] t = .ok t ∧
      ((t.roots 0).ver = some .v2 ∧ Field sampleV2 (t.roots 0).ctrlField) ∧
      ∃ i, (t.roots i).ver = some .v1 ∧ Field sampleV1 (t.roots i).ctrlField := by
  obtain ⟨hsound, hok⟩ := tstCgScan_invariant [sampleV1, sampleV2] sample_kernelMounts
  obtain ⟨t, ht⟩ := hok sample_scanMounts 3
  obtain ⟨hs, hrun⟩ := hsound 3 t ht
  obtain ⟨hrec, hsame⟩ := hrun (by decide)
  have hV2 : sampleV2.isV2 := ⟨by decide, by decide⟩
  have hcpu : sampleV1.reports 2 := ⟨"cpu".toList, by decide, by decide +kernel⟩
  exact ⟨t, ht, hs, hsame, hrec.v2 _ (by simp) hV2, hrec.v1 _ (by simp) ⟨by decide, rfl⟩ ⟨2, hcpu⟩⟩

/-! ## The name of a controller -/

lemma tokenName_append {s} (hs : ∀ c ∈ s, isNameChar c) (newline : Bool) :
    tokenName (s ++ if newline then ['\n'] else []) = some s := by
  have hskip (t : List Char) : (s ++ t).dropWhile isNameChar = _ := dropWhile_append_of_pos hs
  have htake (t : List Char) : (s ++ t).takeWhile isNameChar = _ := takeWhile_append_of_pos hs
  rw [tokenName, hskip, htake]
  cases newline <;> simp [isNameChar]

/-- **The controller of a name** is found as it should be exactly if the name is that of a
controller, or none begins with it. -/
theorem cgroupFindCtrl_right_iff (s : List Char) (hs : ∀ c ∈ s, isNameChar c = true)
    (newline strict : Bool) :
    (∀ i, cgroupFindCtrl (s ++ if newline then ['\n'] else []) strict = .ok (some i) ↔
        ctrlNames[i]? = some s) ↔
      s ∈ ctrlNames ∨ ∀ name ∈ ctrlNames, ¬ s <+: name := by
  simp only [cgroupFindCtrl, tokenName_append hs, Except.ok.injEq]
  constructor
  · intro h
    cases hl : lookupCtrl s with
    | none =>
      refine .inr fun name hname hpre => ?_
      have hno := findIdx?_eq_none_iff.1 hl name hname
      rw [ isPrefixOf_iff_prefix.2 hpre] at hno
      cases hno
    | some i => exact .inl (mem_of_getElem? ((h i).1 hl))
  · intro h i
    exact lookupCtrl_iff (fun name hname hpre => h.resolve_right fun hno => hno name hname hpre) i

/-- `memory` is found by its first letter. -/
theorem cgroupFindCtrl_by_letter : cgroupFindCtrl ['m'] true = .ok (some 1) ∧
    ctrlNames[1]? ≠ some ['m'] := by
  decide

theorem cgroupFindCtrl_right_cpu : cgroupFindCtrl ['c', 'p', 'u', '\n'] false = .ok (some 2) := by
  have h := cgroupFindCtrl_right_iff ['c', 'p', 'u'] (all_eq_true.1 rfl) true false
  exact (h.2 (.inl (by decide)) 2).2 rfl

end LtpDdt.Cgroup
