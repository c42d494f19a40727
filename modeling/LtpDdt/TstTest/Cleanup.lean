/-
TstTest.Cleanup — `do_exit` and `do_cleanup` of `lib/tst_test.c` in the library process.

`tst_brk` in a function of `do_cleanup` enters `do_exit` again. The calls that can break are those
of `tst_cg_cleanup`, the umount of the overlay, the closing of the loop device in
`tst_release_device` and `tst_wallclock_restore`; the other ones report warnings only.
-/
import Mathlib.Data.BitVec

namespace LtpDdt.TstTest

structure CleanupFlags where
  needsCgroupCtrls : Bool
  ovlMounted : Bool
  /-- `needs_device`, and there is one -/
  needsDevice : Bool
  restoreWallclock : Bool

/-- What breaks if it is called. -/
structure Outcome where
  cgCleanup : Bool := false
  umount : Bool := false
  /-- `SAFE_CLOSE` in `detach_loop_fd` -/
  releaseDevice : Bool := false
  wallclockRestore : Bool := false

/-- What the functions of `do_cleanup` remember. -/
structure Saved where
  deviceAcquired : Bool
  clockSaved : Bool

variable (fl : CleanupFlags)

/-- Whether `do_cleanup` returns, and what it leaves. -/
def doCleanup (o : Outcome) (s : Saved) : Bool × Saved :=
  if fl.needsCgroupCtrls && o.cgCleanup then (false, s)
  -- `ovl_mounted` stays as it is
  else if fl.ovlMounted && o.umount then (false, s)
  -- `device_acquired` is cleared behind the call that breaks
  else if fl.needsDevice && s.deviceAcquired && o.releaseDevice then (false, s)
  else
    let s := { s with deviceAcquired := s.deviceAcquired && !fl.needsDevice }
    -- `clock_saved` is cleared before anything can break
    if fl.restoreWallclock && s.clockSaved then
      (!o.wallclockRestore, { s with clockSaved := false })
    else (true, s)

variable (o : Nat → Outcome) (s : Saved)

/-- What is remembered when `do_exit` is entered for the nth time. -/
def savedAt : Nat → Saved
  | 0 => s
  | n + 1 => (doCleanup fl (o n) (savedAt n)).2

/-- Some `do_cleanup` returns: `do_exit` is entered as often as it breaks. -/
def Exits : Prop := ∃ n, (doCleanup fl (o n) (savedAt fl o s n)).1 = true

/-- Neither the cgroups nor the overlay break the cleanup. -/
def Quiet (o : Outcome) : Prop :=
  (fl.needsCgroupCtrls && o.cgCleanup) = false ∧ (fl.ovlMounted && o.umount) = false

/-- The nth cleanup gets behind the device: it can be released, or was before. -/
def Released (n : Nat) : Prop :=
  Quiet fl (o n) ∧ (fl.needsDevice = true → s.deviceAcquired = true →
    (o n).releaseDevice = false ∨ ∃ m < n, Quiet fl (o m) ∧ (o m).releaseDevice = false)

variable {fl o s}

lemma deviceAcquired_iff (h : fl.needsDevice = true) (n : Nat) :
    (savedAt fl o s n).deviceAcquired = true ↔
      s.deviceAcquired = true ∧ ∀ m < n, ¬ (Quiet fl (o m) ∧ (o m).releaseDevice = false) := by
  induction n with
  | zero => simp [savedAt]
  | succ n ih =>
    have hstep : (doCleanup fl (o n) (savedAt fl o s n)).2.deviceAcquired = true ↔
        (savedAt fl o s n).deviceAcquired = true ∧
          ¬ (Quiet fl (o n) ∧ (o n).releaseDevice = false) := by
      unfold doCleanup Quiet
      grind
    rw [savedAt, hstep, ih, and_assoc]
    simp only [Nat.lt_succ_iff_lt_or_eq, or_imp, forall_and, forall_eq]

/-- Which cleanups get behind the device, in terms of what is remembered. -/
lemma released_iff (n : Nat) : Released fl o s n ↔ Quiet fl (o n) ∧
    (fl.needsDevice && (savedAt fl o s n).deviceAcquired && (o n).releaseDevice) = false := by
  unfold Released
  refine and_congr_right fun _ => ?_
  cases hdev : fl.needsDevice with
  | false => simp
  | true =>
    have hacq := deviceAcquired_iff (o := o) (s := s) hdev n
    cases hrel : (o n).releaseDevice with
    | false => simp
    | true =>
      rw [Bool.true_and, Bool.and_true, ← Bool.not_eq_true (savedAt fl o s n).deviceAcquired, hacq]
      simp only [forall_const, Bool.true_eq_false, false_or, not_and, not_forall, not_not,
        exists_prop]

lemma doCleanup_returns (n : Nat) :
    (doCleanup fl (o n) (savedAt fl o s n)).1 = true ↔ Released fl o s n ∧
      (fl.restoreWallclock = true → (savedAt fl o s n).clockSaved = true →
        (o n).wallclockRestore = false) := by
  rw [released_iff]
  unfold doCleanup Quiet
  grind

lemma clockSaved_iff (h : fl.restoreWallclock = true) (n : Nat) :
    (savedAt fl o s n).clockSaved = true ↔
      s.clockSaved = true ∧ ∀ m < n, ¬ Released fl o s m := by
  induction n with
  | zero => simp [savedAt]
  | succ n ih =>
    have hstep : (doCleanup fl (o n) (savedAt fl o s n)).2.clockSaved = true ↔
        (savedAt fl o s n).clockSaved = true ∧ ¬ Released fl o s n := by
      rw [released_iff]
      unfold doCleanup Quiet
      grind
    rw [savedAt, hstep, ih, and_assoc]
    simp only [Nat.lt_succ_iff_lt_or_eq, or_imp, forall_and, forall_eq]

/-- **The library process exits** just if some time the cgroups, the overlay and the device do not
break the cleanup and, if the clock is to be set, that works or it is the second such time. -/
theorem exits_iff : Exits fl o s ↔ ∃ n, Released fl o s n ∧
    (fl.restoreWallclock = true → s.clockSaved = true →
      (o n).wallclockRestore = false ∨ ∃ m < n, Released fl o s m) := by
  refine exists_congr fun n => (doCleanup_returns n).trans (and_congr_right fun _ => ?_)
  refine forall_congr' fun h => ?_
  rw [clockSaved_iff h, and_imp]
  refine forall_congr' fun _ => ?_
  rw [or_comm, or_iff_not_imp_left]
  simp only [not_exists, not_and]

/-- The umount of the overlay fails every time. -/
theorem not_exits_overlay :
    ¬ Exits ⟨false, true, false, false⟩ (fun _ => { umount := true }) ⟨false, false⟩ := by
  rintro ⟨n, h⟩
  cases h

end LtpDdt.TstTest
