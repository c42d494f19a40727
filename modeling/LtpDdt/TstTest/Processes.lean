/-
TstTest.Processes — a test of `lib/tst_test.c` as a transition system of its processes.

* The library process: `tst_run_tcases` behind `do_setup`, `run_tcases_per_fs`,
  `run_tcase_on_fs`, `fork_testrun` and `do_exit`.
* The main test process: `testrun` with `do_test_setup`, `run_tests`,
  `do_test_cleanup`, and `tst_vbrk_`.
* Any number of descendants.

A step makes at most one access to the shared counters: `saved_results = *results`,
`results_equal` and `do_exit` read them one by one. `tstVres`, `tstCvres` and `tstVbrk`
are the parts of the functions that change them. A report enters the history when its
counter is incremented; `verdict`, the specification of the exit status, knows the
history only.

* The counters do not overflow, and the shared memory is set up: a program that a
  descendant executes without `tst_reinit` does not report to the test.
* `tst_res` is a macro that refuses `TBROK`; `tst_brk` is called with `TFAIL`, `TBROK`
  or `TCONF`.
* The functions of the test are arbitrary: the main process and the descendants call
  `tst_res` and `tst_brk` at any time. So does the library process, in functions like
  `prepare_device`; around the wait its `SAFE_` functions only break with `TBROK`.
* The main process leaves the functions of the test by returning, by `tst_brk` or by
  a signal.
* Signals arrive at any time, so the `kill` calls of `tst_vbrk_`, `fork_testrun`,
  `heartbeat` and the handlers have no step of their own; that `fork_testrun` has sent
  one to the process group of the test is part of the history.
* A child that failed makes `tst_reap_children` call `tst_brk`, others leave no trace.
* A process inherits `tst_brk_handler` when it is forked.
-/
import LtpDdt.Lts.Run

namespace LtpDdt.TstTest

/-- `enum tst_res_flags` -/
inductive TType where
  | tpass
  | tfail
  | tbrok
  | twarn
  | tdebug
  | tinfo
  | tconf
  deriving DecidableEq

def TType.flag : TType → Nat
  | .tpass => 0
  | .tfail => 1
  | .tbrok => 2
  | .twarn => 4
  | .tdebug => 8
  | .tinfo => 16
  | .tconf => 32

variable (t : TType)

/-- The types that `tst_res` is called with. -/
def TType.ForRes : Prop := t ≠ .tbrok

/-- The types that `tst_brk` is called with. -/
def TType.ForBrk : Prop := t = .tfail ∨ t = .tbrok ∨ t = .tconf

instance (t : TType) : Decidable t.ForRes := inferInstanceAs (Decidable (¬ _))
instance (t : TType) : Decidable t.ForBrk := inferInstanceAs (Decidable (_ ∨ _ ∨ _))

/-- The members of `struct results` -/
inductive Counter where
  | passed
  | skipped
  | failed
  | warnings
  | broken
  deriving DecidableEq

/-- `struct results` -/
abbrev Results := Counter → Nat

/-- `tst_atomic_inc` -/
def Results.inc (c : Counter) (r : Results) : Results :=
  fun d => if d = c then r d + 1 else r d

def TType.counter : TType → Option Counter
  | .tconf => some .skipped
  | .tpass => some .passed
  | .twarn => some .warnings
  | .tfail => some .failed
  | .tbrok => some .broken
  | .tdebug => none
  | .tinfo => none

def updateResults (r : Results) : Results :=
  match t.counter with
  | some c => r.inc c
  | none => r

/-! ## The shared memory and its history -/

inductive Event where
  /-- `tst_res` -/
  | res (t : TType)
  /-- `tst_brk` outside of the test's cleanup -/
  | brk (t : TType)
  /-- `tst_brk` inside of it -/
  | cleanupBrk (t : TType)
  /-- a signal kills the main test process -/
  | killed (sig : Nat)
  deriving DecidableEq

/-- What the processes share, and as history the events so far, the last one
first. -/
structure Shared where
  results : Results
  abortFlag : Nat
  history : List Event

variable (sh : Shared)

def tstVres : Shared :=
  { sh with results := updateResults t sh.results, history := .res t :: sh.history }

/-- The type that `tst_cvres` reports. -/
def cvresType : TType := if t = .tbrok then .twarn else t

def tstCvres : Shared :=
  { sh with
    results := updateResults (cvresType t) sh.results
    history := .cleanupBrk t :: sh.history }

def tstVbrk : Shared :=
  { sh with results := updateResults t sh.results, history := .brk t :: sh.history }

/-- `tst_atomic_inc(&context->abort_flag)` -/
def setAbort : Shared := { sh with abortFlag := sh.abortFlag + 1 }

def mainKilled (sig : Nat) (sh : Shared) : Shared :=
  { sh with history := .killed sig :: sh.history }

/-! ## The specification of the exit status -/

variable (h : List Event)

def Reported (t : TType) : Prop := .res t ∈ h ∨ .brk t ∈ h ∨ .cleanupBrk t ∈ h

def Event.isKilled : Event → Bool
  | .killed _ => true
  | _ => false

def Killed : Prop := h.any Event.isKilled = true

def Failed : Prop := Reported h .tfail

def Warned : Prop := Reported h .twarn ∨ .cleanupBrk .tbrok ∈ h

def Broken : Prop := .brk .tbrok ∈ h ∨ Killed h

def Skipped : Prop := Reported h .tconf ∧ ¬ Reported h .tpass

instance (h : List Event) (t : TType) : Decidable (Reported h t) :=
  inferInstanceAs (Decidable (_ ∨ _ ∨ _))
instance (h : List Event) : Decidable (Killed h) := inferInstanceAs (Decidable (_ = _))
instance (h : List Event) : Decidable (Failed h) := inferInstanceAs (Decidable (Reported _ _))
instance (h : List Event) : Decidable (Warned h) := inferInstanceAs (Decidable (_ ∨ _))
instance (h : List Event) : Decidable (Broken h) := inferInstanceAs (Decidable (_ ∨ _))
instance (h : List Event) : Decidable (Skipped h) := inferInstanceAs (Decidable (_ ∧ _))

def flags (failed broken warned skipped : Bool) : Nat :=
  (if failed then TType.tfail.flag else 0) ||| (if broken then TType.tbrok.flag else 0) |||
    (if warned then TType.twarn.flag else 0) ||| (if skipped then TType.tconf.flag else 0)

def verdict : Nat := flags (Failed h) (Broken h) (Warned h) (Skipped h)

/-! ## The test -/

/-- `struct tst_fs`; of the versions it is known whether there is one. -/
structure FsDesc where
  type : Option String := none
  hasMkfsVer : Bool := false
  hasMinKver : Bool := false
  deriving DecidableEq

/-- `struct tst_test`, the options and the system. -/
structure Config where
  testVariants : Nat
  allFilesystems : Bool
  /-- the array: its first entry, which need not have a type, and the others -/
  filesystems : Option (FsDesc × List FsDesc)
  /-- what `tst_get_supported_fs_types` returns -/
  supported : List String
  /-- the number of tests for `test`, nothing for `test_all` -/
  tcnt : Option Nat
  iterations : Nat
  /-- whether a duration is given -/
  duration : Bool
  taintCheck : Bool
  forksChild : Bool
  /-- `assert_test_fn` -/
  tcnt_pos : ∀ n, tcnt = some n → 0 < n

variable (cfg : Config)

def Config.variants : Nat := if cfg.testVariants ≠ 0 then cfg.testVariants else 1

/-- The calls of a test function in `run_tests`. -/
def Config.tests : Nat := cfg.tcnt.getD 1

def countFsDescs : Nat :=
  match cfg.filesystems with
  | none => 0
  | some (first, rest) =>
    if first.type.isSome then ((first :: rest).takeWhile (·.type.isSome)).length
    else 1 + (rest.takeWhile (·.type.isSome)).length

def typedDescs : List FsDesc :=
  match cfg.filesystems with
  | none => []
  | some (first, rest) => (first :: rest).takeWhile (·.type.isSome)

def lookupFsDesc (fsType : String) : Option FsDesc :=
  match (typedDescs cfg).find? (·.type = some fsType) with
  | some fs => some fs
  | none =>
    if cfg.allFilesystems = false then none
    else
      match cfg.filesystems with
      | none => some {}
      | some (first, _) => if first.type.isSome then some {} else some first

def HasVersions (i : Nat) : Prop :=
  (cfg.supported[i]?.bind (lookupFsDesc cfg)).any fun fs => fs.hasMkfsVer || fs.hasMinKver

instance (i : Nat) : Decidable (HasVersions cfg i) := inferInstanceAs (Decidable (_ = _))

/-- The condition for `run_tcases_per_fs` -/
def PerFs : Prop := cfg.allFilesystems = true ∨ countFsDescs cfg > 1

instance : Decidable (PerFs cfg) := inferInstanceAs (Decidable (_ ∨ _))

/-! ## The states of the processes -/

inductive Status where
  | exited (code : Nat)
  | signaled (sig : Nat)
  deriving DecidableEq

/-- Who called `fork_testrun`. -/
inductive Caller where
  | runTcases (variant : Nat)
  | runTcaseOnFs (variant i : Nat)
  deriving DecidableEq

/-- What `do_exit` reads next. -/
inductive ExitPc where
  /-- `passed`, for the type it was called with -/
  | start
  | failed
  | skipped
  /-- `passed`, if there were skipped ones -/
  | passed
  | warnings
  | broken
  deriving DecidableEq

inductive LibPc where
  /-- the head of the loop of `tst_run_tcases` -/
  | variants (variant : Nat)
  /-- the begin of `run_tcases_per_fs` -/
  | perFs (variant : Nat)
  /-- the head of its loop -/
  | fsLoop (variant i : Nat) (found : Bool)
  /-- `run_tcase_on_fs` before `fork_testrun` -/
  | onFs (variant i : Nat)
  | forking (caller : Caller)
  | waiting (caller : Caller)
  /-- `fork_testrun` behind the wait -/
  | waited (caller : Caller) (status : Status)
  /-- behind `run_tcase_on_fs` -/
  | fsDone (variant i : Nat)
  /-- behind the test of a variant -/
  | variantDone (variant : Nat)
  | doExit (pc : ExitPc) (ret : Nat)
  /-- `do_cleanup` -/
  | cleanup (ret : Nat)
  | exited (ret : Nat)
  deriving DecidableEq

inductive MainPc where
  /-- there is no main test process -/
  | absent
  /-- `testrun` before `do_test_setup` sets `main_pid` -/
  | starting
  | setup
  /-- the head of the loop of `testrun` -/
  | loop (i : Nat)
  /-- `saved_results = *results`, for test `k` -/
  | saving (i k : Nat) (saved : Results) (todo : List Counter)
  | testing (i k : Nat) (saved : Results)
  /-- `tst_reap_children` -/
  | reaping (i k : Nat) (saved : Results)
  /-- `results_equal` -/
  | comparing (i k : Nat) (saved : Results) (todo : List Counter)
  /-- `do_test_cleanup` at the end of `testrun` -/
  | cleanup
  /-- `do_test_cleanup` in `tst_vbrk_` -/
  | brkCleanup (t : TType)
  /-- behind it for `TBROK` -/
  | aborting
  | done (status : Status)

/-- `tst_brk_handler` -/
inductive Handler where
  | vbrk
  | cvres
  deriving DecidableEq

/-- A descendant; `aborting` in `tst_vbrk_` for `TBROK` before it set the flag. -/
structure Desc where
  handler : Handler
  aborting : Bool
  deriving DecidableEq

structure St where
  shared : Shared
  lib : LibPc
  main : MainPc
  descendants : List Desc
  /-- history: the events before the last `do_exit` began to read -/
  before : List Event
  /-- history: the events before it had read everything -/
  after : List Event
  /-- history: the process group of a test was not sent `SIGKILL` -/
  leftover : Bool

/-! ## The library process -/

inductive LibAct where
  | res (t : TType)
  | brk (t : TType)
  | next
  /-- `tst_check_cmd` or `check_kver` finds something missing -/
  | unsupported
  /-- `tst_taint_check` -/
  | tainted
  deriving DecidableEq

def doExit (ret : Nat) (st : St) : St :=
  { st with lib := .doExit .start ret, before := st.shared.history }

variable (t : TType)

variable (st : St)

/-- `tst_brk` in the library process -/
def libBrk : St := doExit t.flag { st with shared := tstVbrk t st.shared }

/-- The types with which the library process can break. -/
def LibMayBrk : LibPc → Prop
  | .forking _ | .waiting _ | .waited _ _ => t = .tbrok
  | .doExit _ _ | .exited _ => False
  | _ => t.ForBrk

instance (t : TType) : ∀ pc, Decidable (LibMayBrk t pc)
  | .forking _ | .waiting _ | .waited _ _ => inferInstanceAs (Decidable (_ = _))
  | .doExit _ _ | .exited _ => isFalse not_false
  | .variants _ | .perFs _ | .fsLoop _ _ _ | .onFs _ _ | .fsDone _ _ | .variantDone _
  | .cleanup _ => inferInstanceAs (Decidable t.ForBrk)

def LibMayRes : LibPc → Prop
  | .doExit _ _ | .exited _ => False
  | _ => t.ForRes

instance (t : TType) : ∀ pc, Decidable (LibMayRes t pc)
  | .doExit _ _ | .exited _ => isFalse not_false
  | .forking _ | .waiting _ | .waited _ _ | .variants _ | .perFs _ | .fsLoop _ _ _ | .onFs _ _
  | .fsDone _ _ | .variantDone _ | .cleanup _ => inferInstanceAs (Decidable t.ForRes)

def Caller.back : Caller → LibPc
  | .runTcases variant => .variantDone variant
  | .runTcaseOnFs variant i => .fsDone variant i

/-- `fork_testrun` behind the wait and the check for taints -/
def checkStatus (caller : Caller) (status : Status) (st : St) : St :=
  match status with
  | .exited 0 => { st with lib := caller.back }
  | .exited _ => libBrk .tbrok st
  | .signaled _ =>
    if st.shared.abortFlag ≠ 0 then { st with lib := caller.back } else libBrk .tbrok st

/-- `kill(-test_pid, SIGKILL)` of `fork_testrun` -/
def killGroup (cfg : Config) (st : St) : St :=
  { st with leftover := st.leftover && !cfg.forksChild }

/-- One access of `do_exit` to the counters -/
def doExitStep (pc : ExitPc) (ret : Nat) (st : St) : St :=
  let r := st.shared.results
  let go (pc : ExitPc) (ret : Nat) : St := { st with lib := .doExit pc ret }
  match pc with
  | .start => go .failed (if r .passed ≠ 0 ∧ ret = TType.tconf.flag then 0 else ret)
  | .failed => go .skipped (if r .failed ≠ 0 then ret ||| TType.tfail.flag else ret)
  | .skipped => if r .skipped ≠ 0 then go .passed ret else go .warnings ret
  | .passed => go .warnings (if r .passed = 0 then ret ||| TType.tconf.flag else ret)
  | .warnings => go .broken (if r .warnings ≠ 0 then ret ||| TType.twarn.flag else ret)
  | .broken =>
    { st with
      lib := .cleanup (if r .broken ≠ 0 then ret ||| TType.tbrok.flag else ret)
      after := st.shared.history }

def libNext : Option St :=
  match st.lib with
  | .variants variant =>
    if variant < cfg.variants then
      if PerFs cfg then some { st with lib := .perFs variant }
      else some { st with lib := .forking (.runTcases variant) }
    else some (doExit 0 st)
  | .perFs variant =>
    if cfg.supported = [] then some (libBrk .tconf st)
    else some { st with lib := .fsLoop variant 0 false }
  | .fsLoop variant i found =>
    match cfg.supported[i]? with
    | some fsType =>
      if (lookupFsDesc cfg fsType).isSome then some { st with lib := .onFs variant i }
      else some { st with lib := .fsLoop variant (i + 1) found }
    | none =>
      if found then some { st with lib := .variantDone variant } else some (libBrk .tconf st)
  | .onFs variant i => some { st with lib := .forking (.runTcaseOnFs variant i) }
  | .forking caller => some { st with lib := .waiting caller, main := .starting, leftover := true }
  | .waiting caller =>
    match st.main with
    | .done status => some { st with lib := .waited caller status, main := .absent }
    | _ => none
  | .waited caller status => some (checkStatus caller status (killGroup cfg st))
  | .fsDone variant i =>
    if st.shared.abortFlag ≠ 0 then some (doExit 0 st)
    else some { st with lib := .fsLoop variant (i + 1) true }
  | .variantDone variant =>
    if st.shared.abortFlag ≠ 0 then some (doExit 0 st)
    else some { st with lib := .variants (variant + 1) }
  | .doExit pc ret => some (doExitStep pc ret st)
  | .cleanup ret => some { st with lib := .exited ret }
  | .exited _ => none

def libStep : LibAct → Option St
  | .res t => if LibMayRes t st.lib then some { st with shared := tstVres t st.shared } else none
  | .brk t => if LibMayBrk t st.lib then some (libBrk t st) else none
  | .next => libNext cfg st
  | .unsupported =>
    match st.lib with
    | .onFs variant i =>
      if HasVersions cfg i then
        some { st with shared := tstVres .tconf st.shared, lib := .fsDone variant i }
      else none
    | _ => none
  | .tainted =>
    match st.lib with
    | .waited caller _ =>
      if cfg.taintCheck then
        some { st with shared := tstVres .tfail st.shared, lib := caller.back }
      else none
    | _ => none

/-! ## The main test process -/

inductive MainAct where
  | res (t : TType)
  | brk (t : TType)
  | killed (sig : Nat)
  /-- a step; `more` if the duration is not over -/
  | next (more : Bool)
  deriving DecidableEq

def Alive : MainPc → Prop
  | .absent | .done _ => False
  | _ => True

instance : ∀ pc, Decidable (Alive pc)
  | .absent | .done _ => isFalse not_false
  | .starting | .setup | .loop _ | .saving _ _ _ _ | .testing _ _ _ | .reaping _ _ _
  | .comparing _ _ _ _ | .cleanup | .brkCleanup _ | .aborting => isTrue trivial

/-- The end of `tst_vbrk_` -/
def brkEnd : MainPc := if t = .tbrok then .aborting else .done (.exited 0)

/-- `tst_brk` in the main test process, as its handler says -/
def mainBrk : Option St :=
  match st.main with
  | .starting => some { st with shared := tstVbrk t st.shared, main := brkEnd t }
  | .setup | .loop _ | .testing _ _ _ | .reaping _ _ _ =>
    some { st with shared := tstVbrk t st.shared, main := .brkCleanup t }
  | .cleanup | .brkCleanup _ => some { st with shared := tstCvres t st.shared }
  | _ => none

def allCounters : List Counter := [.passed, .skipped, .failed, .warnings, .broken]

/-- What `results_equal` compares -/
def comparedCounters : List Counter := [.passed, .failed, .skipped, .broken]

/-- The begin of test `k` in `run_tests` -/
def beginTest (i k : Nat) : MainPc := .saving i k (fun _ => 0) allCounters

def endTest (i k : Nat) : MainPc :=
  if k + 1 < cfg.tests then beginTest i (k + 1) else .loop i

def mainNext (more : Bool) (st : St) : Option St :=
  match st.main with
  | .starting => some { st with main := .setup }
  | .setup => some { st with main := .loop 0 }
  | .loop i =>
    if i < cfg.iterations then some { st with main := beginTest (i + 1) 0 }
    else if cfg.duration = true ∧ more = true then some { st with main := beginTest i 0 }
    else some { st with main := .cleanup }
  | .saving i k saved (c :: todo) =>
    some { st with
      main := .saving i k (fun d => if d = c then st.shared.results c else saved d) todo }
  | .saving i k saved [] => some { st with main := .testing i k saved }
  | .testing i k saved => some { st with main := .reaping i k saved }
  | .reaping i k saved => some { st with main := .comparing i k saved comparedCounters }
  | .comparing i k saved (c :: todo) =>
    if saved c ≠ st.shared.results c then some { st with main := endTest cfg i k }
    else some { st with main := .comparing i k saved todo }
  | .comparing _ _ _ [] =>
    some { st with shared := tstVbrk .tbrok st.shared, main := .brkCleanup .tbrok }
  | .cleanup => some { st with main := .done (.exited 0) }
  | .brkCleanup t => some { st with main := brkEnd t }
  | .aborting => some { st with shared := setAbort st.shared, main := .done (.exited 0) }
  | .absent | .done _ => none

def mainStep : MainAct → Option St
  | .res t =>
    if t.ForRes ∧ Alive st.main then some { st with shared := tstVres t st.shared } else none
  | .brk t => if t.ForBrk then mainBrk t st else none
  | .killed sig =>
    if Alive st.main then
      some { st with shared := mainKilled sig st.shared, main := .done (.signaled sig) }
    else none
  | .next more => mainNext cfg more st

/-! ## The descendants -/

inductive DescAct where
  /-- the main test process forks -/
  | forkedByMain
  /-- a descendant does -/
  | forked (i : Nat)
  | res (i : Nat) (t : TType)
  | brk (i : Nat) (t : TType)
  /-- it sets the flag, and exits -/
  | abort (i : Nat)
  /-- it exits or is killed -/
  | ended (i : Nat)
  deriving DecidableEq

def mainHandler : MainPc → Handler
  | .cleanup | .brkCleanup _ => .cvres
  | _ => .vbrk

/-- `tst_brk` in a descendant -/
def descBrk (i : Nat) (d : Desc) (t : TType) (st : St) : St :=
  match d.handler with
  | .cvres => { st with shared := tstCvres t st.shared }
  | .vbrk =>
    { st with
      shared := tstVbrk t st.shared
      descendants :=
        if t = .tbrok then st.descendants.set i { d with aborting := true }
        else st.descendants.eraseIdx i }

def descStep : DescAct → Option St
  | .forkedByMain =>
    if Alive st.main then
      some { st with descendants := ⟨mainHandler st.main, false⟩ :: st.descendants }
    else none
  | .forked i =>
    match st.descendants[i]? with
    | some d =>
      if d.aborting = false then some { st with descendants := d :: st.descendants } else none
    | none => none
  | .res i t =>
    if i < st.descendants.length ∧ t.ForRes then
      some { st with shared := tstVres t st.shared }
    else none
  | .brk i t =>
    match st.descendants[i]? with
    | some d => if d.aborting = false ∧ t.ForBrk then some (descBrk i d t st) else none
    | none => none
  | .abort i =>
    match st.descendants[i]? with
    | some d =>
      if d.aborting = true then
        some { st with
          shared := setAbort st.shared
          descendants := st.descendants.eraseIdx i }
      else none
    | none => none
  | .ended i => some { st with descendants := st.descendants.eraseIdx i }

/-! ## The system -/

inductive Label where
  | lib (a : LibAct)
  | main (a : MainAct)
  | desc (a : DescAct)
  deriving DecidableEq

def step : Label → Option St
  | .lib a => libStep cfg st a
  | .main a => mainStep cfg st a
  | .desc a => descStep st a

/-- Behind `do_setup`, whose reports can be taken as first steps of the library process. -/
def init : St where
  shared := ⟨fun _ => 0, 0, []⟩
  lib := .variants 0
  main := .absent
  descendants := []
  before := []
  after := []
  leftover := false

end LtpDdt.TstTest
