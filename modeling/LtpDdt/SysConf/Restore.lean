/-
SysConf.Restore — saving and restoring files with `lib/tst_sys_conf.c`.

* Different paths are different files, whose content is `none` if they are missing.
* They may change between the calls: a call comes with the files of its time, and with
  what the kernel answers to its system calls.
* `none` is a `tst_brk`: no call follows it, but what was saved is restored.
-/
import LtpDdt.CTypes.CString

namespace LtpDdt.SysConf

open CTypes List

abbrev Str := List UInt8
abbrev Files := Str → Option Str
abbrev Saved := List (Str × Str)

/-- What `strncpy` and the NUL behind it leave in an array of `PATH_MAX` bytes. -/
def copied (s : Str) : Str := (cstr s).take 4095

structure TstPathVal where
  path : Str
  val : Option Str
  skipMissing : Bool
  skipRo : Bool
  ignoreErr : Bool

def tstSysConfSaveStr (path value : Str) (saved : Saved) : Saved :=
  (copied path, copied value) :: saved

/-- What the system calls of `tst_sys_conf_save` answer. -/
structure Answers where
  /-- `access` with `W_OK` -/
  writable : Bool
  /-- `fopen` for reading -/
  readable : Bool
  /-- `fopen` for writing -/
  reopens : Bool
  /-- what the file holds if `fputs` or `fclose` fail -/
  failed : Option Str

/-- `print_error`, before the function returns `ret`. -/
def printError (conf : TstPathVal) (ret : Int) : Option Int :=
  if conf.ignoreErr then some ret else none

def tstSysConfSave (conf : TstPathVal) (ans : Answers) (files : Files) (saved : Saved) :
    Option Int × Files × Saved :=
  match files conf.path with
  | none => (if conf.skipMissing then some 1 else none, files, saved)
  | some content =>
    if !ans.writable then (if conf.skipRo then some 1 else none, files, saved)
    else if !ans.readable then (printError conf 1, files, saved)
    else if fgets 4095 content = [] then (if conf.ignoreErr then some 1 else none, files, saved)
    else
      let saved := tstSysConfSaveStr conf.path (fgets 4095 content) saved
      match conf.val with
      | none => (some 0, files, saved)
      | some val =>
        if !ans.reopens then (printError conf 0, files, saved)
        else match ans.failed with
          | none => (some 0, Function.update files conf.path (some val), saved)
          | some left => (printError conf 0, Function.update files conf.path (some left), saved)

def tstSysConfRestore (saved : Saved) (files : Files) : Files :=
  saved.foldl (fun files s => Function.update files s.1 (some s.2)) files

inductive Call
  | save (conf : TstPathVal) (ans : Answers) (files : Files)
  | saveStr (path value : Str)

def Call.run (saved : Saved) : Call → Saved
  | .save conf ans files => (tstSysConfSave conf ans files saved).2.2
  | .saveStr path value => tstSysConfSaveStr path value saved

/-- The path and the content that a call should save. -/
def Call.records : Call → Option (Str × Str)
  | .save conf ans files =>
    ((files conf.path).filter fun c => ans.writable ∧ ans.readable ∧ c ≠ []).map (conf.path, ·)
  | .saveStr path value => some (path, value)

def Fits (s : Str) : Prop := (0 : UInt8) ∉ s ∧ s.length ≤ 4095

/-- Strings fit into `PATH_MAX` bytes, and only the last byte of a file is a newline. -/
def Call.Fine : Call → Prop
  | .save conf _ files =>
    Fits conf.path ∧ ∀ c ∈ files conf.path, Fits c ∧ c.length ≤ c.idxOf 0x0a + 1
  | .saveStr path value => Fits path ∧ Fits value

lemma copied_eq {s : Str} (h : Fits s) : copied s = s := by
  rw [copied, cstr_of_not_mem h.1, take_of_length_le h.2]

/-- A line of a file that fits is read as a whole. -/
lemma fgets_eq {s : Str} (h : Fits s) (hline : s.length ≤ s.idxOf 0x0a + 1) :
    fgets 4095 s = s := by
  rw [fgets_eq_take, take_of_length_le h.2]
  exact take_of_length_le hline

/-- What is saved does not depend on the new value, nor on how its writing ends. -/
lemma tstSysConfSave_saved {conf : TstPathVal} {files : Files} {content : Str}
    (hf : files conf.path = some content) (ans : Answers) (saved : Saved) :
    (tstSysConfSave conf ans files saved).2.2 =
      if ans.writable ∧ ans.readable ∧ fgets 4095 content ≠ [] then
        tstSysConfSaveStr conf.path (fgets 4095 content) saved else saved := by
  rw [tstSysConfSave, hf]
  dsimp only
  split
  case isTrue hw => simp_all
  split
  case isTrue hr => simp_all
  split
  case isTrue he => simp_all
  case isFalse hw hr he =>
    rw [if_pos ⟨by simpa using hw, by simpa using hr, he⟩]
    split
    · rfl
    split
    · rfl
    split <;> rfl

lemma Call.run_eq {c : Call} (hc : c.Fine) (saved : Saved) :
    c.run saved = c.records.toList ++ saved := by
  cases c with
  | saveStr =>
    rw [run, tstSysConfSaveStr, copied_eq hc.1, copied_eq hc.2]
    rfl
  | save conf ans files =>
    obtain ⟨hpath, hline⟩ := hc
    rw [run, records]
    cases hf : files conf.path with
    | none =>
      rw [tstSysConfSave, hf]
      rfl
    | some content =>
      obtain ⟨hfits, hnl⟩ := hline content hf
      rw [tstSysConfSave_saved hf, fgets_eq hfits hnl, tstSysConfSaveStr, copied_eq hpath,
        copied_eq hfits]
      split
      case isTrue h => simp [Option.filter, h]
      case isFalse h => simp [Option.filter, h]

lemma runAll_eq : ∀ {calls : List Call} (saved : Saved), (∀ c ∈ calls, c.Fine) →
    calls.foldl Call.run saved = (calls.filterMap Call.records).reverse ++ saved
  | [], _, _ => rfl
  | c :: calls, saved, hfine => by
    obtain ⟨hc, hcalls⟩ := forall_mem_cons.1 hfine
    rw [foldl_cons, Call.run_eq hc, runAll_eq _ hcalls, filterMap_cons]
    cases c.records <;> simp

/-- The end of the list, its oldest entry, is written last. -/
lemma tstSysConfRestore_apply (path : Str) : ∀ saved files, tstSysConfRestore saved files path =
    ((saved.reverse.find? (·.1 = path)).map (·.2)).or (files path)
  | [], files => rfl
  | s :: saved, files => by
    rw [tstSysConfRestore, foldl_cons, ← tstSysConfRestore, tstSysConfRestore_apply path saved,
      reverse_cons, find?_append]
    cases saved.reverse.find? (·.1 = path) with
    | some => rfl
    | none =>
      by_cases hp : s.1 = path
      · subst hp
        simp
      · simp [hp, Function.update_of_ne (Ne.symm hp)]

/-- **A saved file gets the content of its first save, others stay.** -/
theorem restore_first {calls : List Call} (hfine : ∀ c ∈ calls, c.Fine) (files : Files)
    (path : Str) : tstSysConfRestore (calls.foldl Call.run []) files path =
      (((calls.filterMap Call.records).find? (·.1 = path)).map (·.2)).or (files path) := by
  rw [tstSysConfRestore_apply, runAll_eq _ hfine, append_nil, reverse_reverse]

/-- The file `a` is saved with the content `b` and gets the content `d`, and is later saved with
`c`. -/
theorem restore_first_twice :
    tstSysConfRestore ([.save ⟨[97], some [100], false, false, false⟩ ⟨true, true, true, none⟩
      fun _ => some [98], .saveStr [97] [99]].foldl Call.run []) (fun _ => some [100]) [97] =
      some [98] := by
  refine restore_first ?_ _ _
  simp [Call.Fine, Fits]

end LtpDdt.SysConf
