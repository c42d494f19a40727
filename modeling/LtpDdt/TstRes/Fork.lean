/-
TstRes.Fork — the exit status in the old API, `lib/tst_res.c`.

A result is its six bits under `TTYPE_MASK`. `passed_cnt` does not overflow. A child that
was killed is a report of `TBROK`, with which the process leaves.
-/
import Mathlib.Data.BitVec

namespace LtpDdt.TstRes

open List

abbrev Result := BitVec 6

def tpass : Result := 0
def tdebug : Result := 8
def tinfo : Result := 16
def tconf : Result := 32

/-- The static variables. -/
structure Statics where
  exitval : Result := 0
  passedCnt : Nat := 0

inductive Call where
  | resm (ttype : Result)
  /-- `tst_record_childstatus` of a child that exited -/
  | record (status : Result)
  deriving DecidableEq

def Call.result : Call → Result
  | resm result | record result => result

/-- `tst_res__`; `none` is its `abort`. -/
def tstRes (ttype : Result) (s : Statics) : Option Statics :=
  if ttype = tdebug then none
  else some {
    exitval := s.exitval ||| ttype
    passedCnt := if ttype = tpass then s.passedCnt + 1 else s.passedCnt }

/-- A call; `none` is the return from `tst_fork` in the child. -/
def step (s : Statics) : Option Call → Option Statics
  | none => some { s with exitval := 0 }
  | some (.resm ttype) => tstRes ttype s
  | some (.record status) =>
    let s := { s with exitval := s.exitval ||| status }
    -- `TPASS`, `TFAIL`, `TBROK` and `TCONF` are told
    if status = tpass ∨ status &&& 35 ≠ 0 then tstRes tinfo s else some s

def tstExit (s : Statics) : Result :=
  let exitval := s.exitval &&& ~~~tinfo
  if exitval = tconf ∧ s.passedCnt ≠ 0 then exitval &&& ~~~tconf else exitval

/-- The status of a process that was forked after the calls `before` and then made the
calls `after`, if it gets to `tst_exit`. -/
def childStatus (before : List (Option Call)) (after : List Call) : Option Result := do
  let parent ← before.foldlM step {}
  let child ← step parent none
  let child ← (after.map some).foldlM step child
  some (tstExit child)

def results (calls : List Call) : Result := calls.foldr (fun c r => c.result ||| r) 0 &&& ~~~tinfo

/-- What the status should be: nothing but the calls after the fork count. -/
def wantedStatus (after : List Call) : Result :=
  if results after = tconf ∧ .resm tpass ∈ after then 0 else results after

lemma or_tinfo (a b : Result) : (a ||| tinfo ||| b) &&& ~~~tinfo = (a ||| b) &&& ~~~tinfo := by
  ext i hi
  simp only [BitVec.getElem_and, BitVec.getElem_or, BitVec.getElem_not]
  cases tinfo[i] <;> simp

variable {s s' : Statics}

lemma tstRes_eq {ttype : Result} (h : tstRes ttype s = some s') :
    s'.exitval = s.exitval ||| ttype ∧
      s'.passedCnt = if ttype = tpass then s.passedCnt + 1 else s.passedCnt := by
  rw [tstRes] at h
  split at h <;> cases h
  exact ⟨rfl, rfl⟩

lemma step_exitval {c : Call} (h : step s (some c) = some s') (r : Result) :
    (s'.exitval ||| r) &&& ~~~tinfo = (s.exitval ||| c.result ||| r) &&& ~~~tinfo := by
  cases c with
  | resm ttype =>
    rw [(tstRes_eq h).1]
    rfl
  | record status =>
    rw [step] at h
    split at h
    · rw [(tstRes_eq h).1]
      exact or_tinfo _ _
    · cases h
      rfl

lemma foldlM_exitval : ∀ (calls : List Call) {s : Statics},
    (calls.map some).foldlM step s = some s' → s'.exitval &&& ~~~tinfo =
      (s.exitval ||| calls.foldr (fun c r => c.result ||| r) 0) &&& ~~~tinfo
  | [], _, h => by
    cases h
    simp
  | c :: calls, s, h => by
    rw [map_cons, foldlM_cons] at h
    obtain ⟨s₁, hstep, h⟩ := Option.bind_eq_some_iff.1 h
    rw [foldlM_exitval calls h, step_exitval hstep, foldr_cons, BitVec.or_assoc]

lemma step_passedCnt {c : Option Call} (h : step s c = some s') :
    s'.passedCnt ≠ 0 ↔ s.passedCnt ≠ 0 ∨ c = some (.resm tpass) := by
  match c with
  | none =>
    cases h
    simp
  | some (.resm ttype) =>
    rw [(tstRes_eq h).2]
    split <;> simp_all
  | some (.record status) =>
    rw [step] at h
    split at h
    · rw [(tstRes_eq h).2, if_neg (by decide)]
      simp
    · cases h
      simp

lemma foldlM_passedCnt : ∀ (calls : List (Option Call)) {s : Statics},
    calls.foldlM step s = some s' →
    (s'.passedCnt ≠ 0 ↔ s.passedCnt ≠ 0 ∨ some (.resm tpass) ∈ calls)
  | [], _, h => by
    cases h
    simp
  | c :: calls, s, h => by
    rw [foldlM_cons] at h
    obtain ⟨s₁, hstep, h⟩ := Option.bind_eq_some_iff.1 h
    rw [foldlM_passedCnt calls h, step_passedCnt hstep, mem_cons, or_assoc, eq_comm]

/-- Only a report of `TDEBUG` ends a process before `tst_exit`. -/
lemma step_isSome_iff (s : Statics) (c : Option Call) :
    (step s c).isSome ↔ c ≠ some (.resm tdebug) := by
  match c with
  | none => simp [step]
  | some (.resm ttype) =>
    rw [step, tstRes]
    split <;> simp_all
  | some (.record status) =>
    have hne : tinfo ≠ tdebug := by decide
    rw [step, tstRes, if_neg hne]
    split <;> simp

lemma foldlM_isSome_iff : ∀ (calls : List (Option Call)) (s : Statics),
    (calls.foldlM step s).isSome ↔ some (.resm tdebug) ∉ calls
  | [], _ => by simp
  | c :: calls, s => by
    have hstep := step_isSome_iff s c
    rw [foldlM_cons, mem_cons, not_or]
    cases hc : step s c with
    | none => simp_all
    | some s₁ =>
      have hne : c ≠ some (.resm tdebug) := hstep.1 (by rw [hc]; rfl)
      refine (foldlM_isSome_iff calls s₁).trans ?_
      simp [hne.symm]

/-- A child gets to `tst_exit` if nothing reports `TDEBUG`. -/
lemma childStatus_isSome_iff (before : List (Option Call)) (after : List Call) :
    (childStatus before after).isSome ↔
      some (.resm tdebug) ∉ before ∧ .resm tdebug ∉ after := by
  have hbefore := foldlM_isSome_iff before {}
  rw [childStatus, ← hbefore]
  cases before.foldlM step {} with
  | none => simp
  | some parent =>
    have hafter := foldlM_isSome_iff (after.map some) { parent with exitval := 0 }
    have hmem : some (.resm tdebug) ∈ after.map some ↔ .resm tdebug ∈ after := by simp
    rw [← hmem, ← hafter, Option.bind_eq_bind, Option.bind_some, step, Option.bind_some]
    cases (after.map some).foldlM step { parent with exitval := 0 } <;> simp

/-- **The status of a child** is due to its own calls, unless they are `TCONF` without a
`TPASS` and a `TPASS` was reported before the fork. -/
theorem childStatus_right_iff {before : List (Option Call)} {after : List Call} {status : Result}
    (hexit : childStatus before after = some status) :
    status = wantedStatus after ↔
      (results after = tconf → some (.resm tpass) ∈ before → .resm tpass ∈ after) := by
  obtain ⟨parent, hparent, hexit⟩ := Option.bind_eq_some_iff.1 hexit
  obtain ⟨_, hfork, hexit⟩ := Option.bind_eq_some_iff.1 hexit
  cases hfork
  obtain ⟨child, hchild, hexit⟩ := Option.bind_eq_some_iff.1 hexit
  cases hexit
  have hval : child.exitval &&& ~~~tinfo = results after :=
    (foldlM_exitval after hchild).trans (congrArg (· &&& ~~~tinfo) BitVec.zero_or)
  have hpass : child.passedCnt ≠ 0 ↔ some (.resm tpass) ∈ before ∨ .resm tpass ∈ after := by
    rw [foldlM_passedCnt _ hchild]
    change parent.passedCnt ≠ 0 ∨ _ ↔ _
    rw [foldlM_passedCnt _ hparent]
    simp
  have hne : tconf &&& ~~~tconf = 0 ∧ 0#6 ≠ tconf := by decide
  simp only [tstExit, hval, hpass, wantedStatus]
  by_cases hconf : results after = tconf
  · by_cases hafter : .resm tpass ∈ after
    · simp [hconf, hafter, hne]
    by_cases hbefore : some (.resm tpass) ∈ before
    · simp [hconf, hafter, hbefore, hne]
    · simp [hconf, hafter, hbefore]
  · simp [hconf]

/-- Without a `TPASS` of its parent a child that reports `TCONF` leaves with it. -/
theorem childStatus_right_iff_skipped : childStatus [some (.resm 1)] [.resm tconf] = some tconf ∧
    tconf = wantedStatus [.resm tconf] :=
  have hexit : childStatus [some (.resm 1)] [.resm tconf] = some tconf := by decide
  ⟨hexit, (childStatus_right_iff hexit).2 (by decide)⟩

/-- A child whose only result is `TCONF`: a `TPASS` of its parent makes it 0. -/
theorem childStatus_inherits : childStatus [some (.resm tpass)] [.resm tconf] = some 0 ∧
    wantedStatus [.resm tconf] = tconf := by
  decide

end LtpDdt.TstRes
