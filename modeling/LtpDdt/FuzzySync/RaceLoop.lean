/-
FuzzySync.RaceLoop — the two race loops of `tst_fuzzy_sync.h`:

    while (tst_fzsync_run_a(&pair)) { start_race_a; body; end_race_a; }
    while (tst_fzsync_run_b(&pair)) { start_race_b; body; end_race_b; }

Each iteration makes three waits. Thread A alone decides to stop, by storing `exit`;
then the wait loops let everybody go. `Loc` is where a thread is between its waits.
`runs i` counts how often the `run` function of side `i` has returned a non-zero
value, `bodies i` how often its race body was executed.

* The reasons to stop (`rem_p >= 1`, `++exec_loop > exec_loops`) depend on the clock
  and on parameters; the choice `stop` of a step stands for them.
* `joins` says that thread B was started by `tst_fzsync_pair_reset`, so that
  `tst_fzsync_pair_cleanup` waits for it.

While `exit` is clear the waits are a barrier (`SysInv`), three per iteration
(`LocOk`). When A sets `exit`, B is in the last wait of the iteration before or
in the first of this one (`exit_places`); `Stopping` lists what can follow.
-/
import LtpDdt.FuzzySync.PairWait

namespace LtpDdt.FuzzySync

open Lockstep

/-- Where a thread is. A wait location with no `WaitPc` is the call. -/
inductive Loc where
  /-- `run_a`: `if (rem_p >= 1)` -/
  | runTime
  /-- `run_a`: `if (++pair->exec_loop > pair->exec_loops)` -/
  | runLoops
  /-- the wait in `run_a` / `run_b` -/
  | runWait
  /-- `if (pair->exit)` / `return !tst_atomic_load(&pair->exit)` -/
  | runRet
  /-- `tst_fzsync_pair_cleanup` in `run_a` -/
  | cleanup
  | startWait
  | body
  | endWait
  /-- `run` has returned 0 and the loop is left -/
  | left
  deriving DecidableEq

def Loc.afterWait (i : Side) : Loc → Loc
  | .runWait => .runRet
  | .startWait => .body
  | .endWait => if i = .a then .runTime else .runWait
  | l => l

def Loc.isWait : Loc → Bool
  | .runWait | .startWait | .endWait => true
  | _ => false

structure Race where
  sys : Sys
  loc : Side → Loc
  runs : Side → Nat
  bodies : Side → Nat

/-- After `tst_fzsync_pair_reset`. -/
def Race.init : Race where
  sys := Sys.init
  loc := fun i => if i = .a then .runTime else .runWait
  runs := fun _ => 0
  bodies := fun _ => 0

def Race.setLoc (s : Race) (i : Side) (l : Loc) : Race :=
  { s with loc := fun j => if j = i then l else s.loc j }

/-- `if (stop) tst_atomic_store(1, &pair->exit)`. -/
def Sys.requestExit (s : Sys) (stop : Bool) : Sys :=
  { s with pair := { s.pair with exit := s.pair.exit || stop } }

def Race.wait (s : Race) (i : Side) (ord : Bool) : Race :=
  match s.sys.pc i with
  | none => { s with sys := s.sys.call i }
  | some pc =>
    let s' : Race := { s with sys := s.sys.access i ord pc }
    if s'.sys.pc i = none then s'.setLoc i ((s.loc i).afterWait i) else s'

/-- The end of `run`: leave the loop, or enter the next race. -/
def Race.runRet (s : Race) (i : Side) : Race :=
  if s.sys.pair.exit then s.setLoc i (if i = .a then .cleanup else .left)
  else { (s.setLoc i .startWait) with runs := bump s.runs i }

/-- Which thread moves, with every choice of the move. -/
structure RaceMove where
  side : Side
  ord : Bool
  stop : Bool
  deriving DecidableEq

def Race.step (joins : Bool) (s : Race) (m : RaceMove) : Option Race :=
  match s.loc m.side with
  | .runTime => some ({ s with sys := s.sys.requestExit m.stop }.setLoc m.side .runLoops)
  | .runLoops => some ({ s with sys := s.sys.requestExit m.stop }.setLoc m.side .runWait)
  | .runWait | .startWait | .endWait => some (s.wait m.side m.ord)
  | .runRet => some (s.runRet m.side)
  | .cleanup =>
    if joins = true ∧ s.loc .b ≠ .left then none else some (s.setLoc m.side .left)
  | .body => some { (s.setLoc m.side .endWait) with bodies := bump s.bodies m.side }
  | .left => none

def Race.Reachable (joins : Bool) (s : Race) : Prop :=
  Lts.Reachable (Race.step joins) Race.init s

open Race Option

variable {s s' : Race} {i : Side} {joins : Bool}

/-! ## The invariant -/

/-- Thread `i` while `exit` is clear: how many waits and bodies its place
accounts for. -/
def LocOk (s : Race) (i : Side) : Prop :=
  match s.loc i with
  | .runTime | .runLoops =>
    i = .a ∧ s.sys.pc i = none ∧ s.sys.returns i = 3 * s.runs i ∧ s.bodies i = s.runs i
  | .runWait => s.sys.returns i = 3 * s.runs i ∧ s.bodies i = s.runs i
  | .runRet => s.sys.pc i = none ∧ s.sys.returns i = 3 * s.runs i + 1 ∧ s.bodies i = s.runs i
  | .startWait => s.sys.returns i + 2 = 3 * s.runs i ∧ s.bodies i + 1 = s.runs i
  | .body => s.sys.pc i = none ∧ s.sys.returns i + 1 = 3 * s.runs i ∧ s.bodies i + 1 = s.runs i
  | .endWait => s.sys.returns i + 1 = 3 * s.runs i ∧ s.bodies i = s.runs i
  | .cleanup | .left => False

/-- The places of each side once A has set `exit`. -/
def Loc.stopping : Side → Loc → Bool
  | .a, .runLoops | .a, .runWait | .a, .runRet | .a, .cleanup | .a, .left => true
  | .b, .endWait | .b, .runWait | .b, .runRet | .b, .left => true
  | _, _ => false

/-- `exit` is set: both sides were let into the same number of races and have run them. -/
structure Stopping (s : Race) : Prop where
  exit : s.sys.pair.exit = true
  runs : s.runs .b = s.runs .a
  bodies : ∀ i, s.bodies i = s.runs i
  loc : ∀ i, (s.loc i).stopping i = true

def RaceInv (s : Race) : Prop :=
  (SysInv s.sys ∧ ∀ i, LocOk s i) ∨ Stopping s

lemma RaceInv.init : RaceInv init := by
  refine .inl ⟨SysInv.init, fun i => ?_⟩
  cases i
  · exact ⟨rfl, rfl, rfl, rfl⟩
  · exact ⟨rfl, rfl⟩

/-! ## Before the exit request -/

lemma LocOk.frame {j} (h : LocOk s j) (hl : s'.loc j = s.loc j) (hpc : s'.sys.pc j = s.sys.pc j)
    (hr : s'.sys.returns j = s.sys.returns j) (hn : s'.runs j = s.runs j)
    (hb : s'.bodies j = s.bodies j) : LocOk s' j := by
  unfold LocOk at h ⊢
  rw [hl, hpc, hr, hn, hb]
  exact h

@[simp] lemma setLoc_loc_self (s : Race) (i : Side) (l : Loc) : (s.setLoc i l).loc i = l := by
  simp [setLoc]

@[simp] lemma setLoc_loc_other (s : Race) (i : Side) (l : Loc) :
    (s.setLoc i l).loc i.other = s.loc i.other := by simp [setLoc]

@[simp] lemma setLoc_sys (s : Race) (i : Side) (l : Loc) : (s.setLoc i l).sys = s.sys := rfl

@[simp] lemma setLoc_runs (s : Race) (i : Side) (l : Loc) : (s.setLoc i l).runs = s.runs := rfl

@[simp] lemma setLoc_bodies (s : Race) (i : Side) (l : Loc) :
    (s.setLoc i l).bodies = s.bodies := rfl

lemma locOk_of_move (h : ∀ j, LocOk s j) (hi : LocOk s' i)
    (hl : s'.loc i.other = s.loc i.other) (hpc : s'.sys.pc i.other = s.sys.pc i.other)
    (hr : s'.sys.returns i.other = s.sys.returns i.other)
    (hn : s'.runs i.other = s.runs i.other) (hb : s'.bodies i.other = s.bodies i.other) :
    ∀ j, LocOk s' j := by
  intro j
  by_cases hj : j = i
  · subst hj; exact hi
  · rw [Side.eq_other_of_ne hj]
    exact (h i.other).frame hl hpc hr hn hb

lemma LocOk.wait {ord} (h : LocOk s i) (hw : (s.loc i).isWait) : LocOk (s.wait i ord) i := by
  unfold Race.wait
  cases hpc : s.sys.pc i with
  | none =>
    unfold LocOk at h ⊢
    cases hl : s.loc i <;> simp [hl, Loc.isWait] at hw <;> simpa [hl, Sys.call] using h
  | some pc =>
    dsimp only
    by_cases hret : (waitStep i ord s.sys.pair pc).2 = none
    · have hn : (s.sys.access i ord pc).pc i = none := by simp [Sys.access, hret]
      have hr : (s.sys.access i ord pc).returns i = s.sys.returns i + 1 := by
        simp [Sys.access, hret]
      rw [if_pos hn]
      unfold LocOk at h ⊢
      cases hl : s.loc i <;> simp [hl, Loc.isWait] at hw <;> simp only [hl] at h
      · simp only [setLoc_loc_self, setLoc_sys, setLoc_runs]
        exact ⟨hn, by rw [hr]; omega, h.2⟩
      · simp only [setLoc_loc_self, setLoc_sys, setLoc_runs]
        exact ⟨hn, by rw [hr]; omega, h.2⟩
      simp only [setLoc_sys, setLoc_runs]
      cases i
      · exact ⟨rfl, hn, by rw [hr]; omega, h.2⟩
      · exact ⟨by rw [hr]; omega, h.2⟩
    · have hn : (s.sys.access i ord pc).pc i ≠ none := by simpa [Sys.access] using hret
      have hr : (s.sys.access i ord pc).returns i = s.sys.returns i := by simp [Sys.access, hret]
      rw [if_neg hn]
      unfold LocOk at h ⊢
      cases hl : s.loc i <;> simp [hl, Loc.isWait] at hw <;> simp only [hl, hr] at h ⊢ <;> exact h

lemma wait_frame (s : Race) (i : Side) (ord : Bool) : (s.wait i ord).loc i.other = s.loc i.other ∧
      (s.wait i ord).sys.pc i.other = s.sys.pc i.other ∧
      (s.wait i ord).sys.returns i.other = s.sys.returns i.other ∧
      (s.wait i ord).runs = s.runs ∧ (s.wait i ord).bodies = s.bodies ∧
      (s.wait i ord).sys.pair.exit = s.sys.pair.exit := by
  unfold wait
  cases hpc : s.sys.pc i with
  | none => simp [Sys.call]
  | some pc =>
    have hex := access_exit s.sys i ord pc
    dsimp only
    split <;> simp [hex] <;> simp only [Sys.access] <;> split <;> simp

lemma SysInv.wait (h : SysInv s.sys) (i : Side) (ord : Bool) : SysInv (s.wait i ord).sys := by
  unfold Race.wait
  cases hpc : s.sys.pc i with
  | none => exact h.call hpc
  | some =>
    dsimp only
    split <;> exact h.access hpc

/-- **Where B can be** when A stands before the first wait of an iteration: B has run the same
races, and is in their last wait or in the first wait of the next iteration. -/
theorem exit_places (h : SysInv s.sys) (hl : ∀ i, LocOk s i)
    (hpc : s.sys.pc .a = none) (hret : s.sys.returns .a = 3 * s.runs .a) :
    s.runs .b = s.runs .a ∧ s.bodies .b = s.runs .b ∧ (s.loc .b).stopping .b := by
  have ha : s.sys.incs .a = 3 * s.runs .a := by
    have hp := h.point .a
    simp only [PointOk, hpc] at hp
    omega
  have hle : s.sys.incs .a ≤ s.sys.incs .b := by
    rcases h.returns_cases .a with ⟨-, hw, -⟩ | ⟨hsome, -⟩
    · exact h.incs_le_of_writes_le hw
    · simp [hpc] at hsome
  have hle' : s.sys.incs .b ≤ s.sys.incs .a + 1 := h.incs_le_succ .b
  have hb := hl .b
  unfold LocOk at hb
  rcases h.returns_cases .b with ⟨_, hw, -⟩ | ⟨hsome, _⟩
  · -- B is between two waits, hence level with A
    have hlev : s.sys.incs .b ≤ s.sys.incs .a := h.incs_le_of_writes_le hw
    cases hlb : s.loc .b <;>
      simp only [hlb, Loc.stopping, and_true, reduceCtorEq, false_and] at hb ⊢ <;> omega
  -- B is in a wait whose increment is made
  cases hlb : s.loc .b <;>
    simp only [hlb, Loc.stopping, and_true, reduceCtorEq, false_and] at hb ⊢
  case runRet => simp [hb.1] at hsome
  case body => simp [hb.1] at hsome
  all_goals omega

/-! ## After the exit request -/

/-- A bound of the accesses of a thread that is leaving, as each loop ends at its next look at
`exit`. -/
def waitRank : Option WaitPc → Nat
  | none => 8
  | some .inc => 7
  | some .preGt => 6
  | some .preLt => 5
  | some .preExit => 4
  | some .store | some .cmp => 3
  | some .postGt | some (.cmpOur _) | some (.cmpOther _) => 2
  | some .postExit | some .cmpExit => 1

def Loc.rank : Loc → Nat
  | .endWait => 18
  | .runLoops => 11
  | .runWait => 10
  | .runRet => 2
  | .cleanup => 1
  | _ => 0

def Race.rankOf (s : Race) (i : Side) : Nat := (s.loc i).rank + waitRank (s.sys.pc i)

def Race.rank (s : Race) : Nat := s.rankOf .a + s.rankOf .b

lemma waitRank_le (pc : Option WaitPc) : waitRank pc ≤ 8 := by
  unfold waitRank
  split <;> omega

lemma Race.rank_le (s : Race) : s.rank ≤ 52 := by
  have hl : ∀ l : Loc, l.rank ≤ 18 := fun l => by cases l <;> decide
  have ha := hl (s.loc .a)
  have hb := hl (s.loc .b)
  have hpa := waitRank_le (s.sys.pc .a)
  have hpb := waitRank_le (s.sys.pc .b)
  simp only [rank, rankOf]
  omega

lemma waitRank_pos (pc : Option WaitPc) : 0 < waitRank pc := by
  unfold waitRank
  split <;> omega

lemma waitRank_waitStep {p : Pair} (hex : p.exit) (i : Side) (ord : Bool) (pc : WaitPc)
    (h : (waitStep i ord p pc).2 ≠ none) :
    waitRank (waitStep i ord p pc).2 < waitRank (some pc) := by
  cases pc with
  | inc | preGt | preLt => simp only [waitStep]; split <;> simp [waitRank]
  | preExit | store => simp [waitStep, waitRank, hex]
  | postGt =>
    simp only [waitStep] at h ⊢
    split <;> simp_all [waitRank]
  | cmp => cases ord <;> simp [waitStep, waitRank]
  | cmpOur | cmpOther =>
    simp only [waitStep, cmpBranch] at h ⊢
    split <;> simp_all [waitRank]
  | postExit | cmpExit => simp [waitStep, hex] at h

/-- After the exit is set a wait brings the party on. -/
lemma wait_leaving (ord : Bool) (hex : s.sys.pair.exit)
    (hr : ((s.loc i).afterWait i).rank + 8 ≤ (s.loc i).rank) :
    (s.wait i ord).rankOf i < s.rankOf i ∧
      ((s.wait i ord).loc i = s.loc i ∨ (s.wait i ord).loc i = (s.loc i).afterWait i) := by
  unfold wait
  cases hpc : s.sys.pc i with
  | none => exact ⟨by simp [rankOf, Sys.call, hpc, waitRank], .inl rfl⟩
  | some pc =>
    have hnext : (s.sys.access i ord pc).pc i = (waitStep i ord s.sys.pair pc).2 := by
      simp [Sys.access]
    dsimp only
    split_ifs with hne
    · refine ⟨?_, .inr (setLoc_loc_self _ _ _)⟩
      have hle := waitRank_le ((s.sys.access i ord pc).pc i)
      have hpos := waitRank_pos (s.sys.pc i)
      simp only [rankOf, setLoc_loc_self, setLoc_sys]
      omega
    · refine ⟨?_, .inl rfl⟩
      rw [hnext] at hne
      have := waitRank_waitStep hex i ord pc hne
      simp only [rankOf, hnext, hpc]
      omega

@[simp] lemma requestExit_false (s : Sys) : s.requestExit false = s := by simp [Sys.requestExit]

@[simp] lemma requestExit_exit_true (s : Sys) : (s.requestExit true).pair.exit := by
  simp [Sys.requestExit]

lemma Stopping.of_request {l : Loc} (h : SysInv s.sys) (hl : ∀ i, LocOk s i)
    (ha : s.sys.pc .a = none ∧ s.sys.returns .a = 3 * s.runs .a ∧ s.bodies .a = s.runs .a)
    (hst : l.stopping .a) : Stopping ({ s with sys := s.sys.requestExit true }.setLoc .a l) := by
  obtain ⟨hruns, hbodies, hloc⟩ := exit_places h hl ha.1 ha.2.1
  refine ⟨requestExit_exit_true s.sys, hruns, fun i => ?_, fun i => ?_⟩
  · cases i
    · exact ha.2.2
    · exact hbodies
  cases i
  · rw [setLoc_loc_self]; exact hst
  · exact hloc

lemma Stopping.of_move (h : Stopping s) (hex : s'.sys.pair.exit) (hruns : s'.runs = s.runs)
    (hbodies : s'.bodies = s.bodies) (hpc : s'.sys.pc i.other = s.sys.pc i.other)
    (hl : s'.loc i.other = s.loc i.other) (hst : (s'.loc i).stopping i)
    (hrank : s'.rankOf i < s.rankOf i) :
    Stopping s' ∧ s'.runs = s.runs ∧ s'.bodies = s.bodies ∧ s'.rank < s.rank := by
  have hrank' : s'.rankOf i.other = s.rankOf i.other := by simp [rankOf, hl, hpc]
  refine ⟨⟨hex, by rw [hruns]; exact h.runs, fun j => ?_, fun j => ?_⟩, hruns, hbodies, ?_⟩
  · rw [hruns, hbodies]; exact h.bodies j
  · by_cases hj : j = i
    · subst hj; exact hst
    · rw [Side.eq_other_of_ne hj, hl]; exact h.loc i.other
  · cases i <;> simp only [rank, Side.other] at hrank hrank' ⊢ <;> omega

/-- **A step after the exit request**: nobody enters or runs another race, and the end comes
closer. -/
theorem Stopping.step {m} (h : Stopping s) (hs : s.step joins m = some s') :
    Stopping s' ∧ s'.runs = s.runs ∧ s'.bodies = s.bodies ∧ s'.rank < s.rank := by
  obtain ⟨i, ord, _⟩ := m
  have hst := h.loc i
  simp only [Race.step] at hs
  cases hl : s.loc i with
  | runTime | startWait | body => cases i <;> simp [hl, Loc.stopping] at hst
  | left => simp [hl] at hs
  | runLoops =>
    simp only [hl, some.injEq] at hs
    subst hs
    refine h.of_move (i := i) ?_ rfl rfl rfl ?_ ?_ ?_
    · simp [Sys.requestExit, h.exit]
    · simp
    · cases i
      · simp [Loc.stopping]
      · simp [hl, Loc.stopping] at hst
    · simp [Race.rankOf, hl, Loc.rank, Sys.requestExit]
  | runRet =>
    simp only [hl, some.injEq, Race.runRet, h.exit] at hs
    subst hs
    refine h.of_move (i := i) h.exit rfl rfl rfl (setLoc_loc_other _ _ _) ?_ ?_
    · cases i <;> simp [Loc.stopping]
    · cases i <;> simp [Race.rankOf, hl, Loc.rank]
  | cleanup =>
    simp only [hl] at hs
    split at hs
    · cases hs
    simp only [some.injEq] at hs
    subst hs
    refine h.of_move (i := i) h.exit rfl rfl rfl (setLoc_loc_other _ _ _) ?_ ?_
    · cases i <;> simp [Loc.stopping]
    · simp [Race.rankOf, hl, Loc.rank]
  | runWait | endWait =>
    simp only [hl, some.injEq] at hs
    subst hs
    obtain ⟨floc, fpc, -, fruns, fbodies, fex⟩ := wait_frame s i ord
    obtain ⟨hrank, hloc⟩ := wait_leaving ord (i := i) h.exit (by
      cases i <;> simp_all [Loc.afterWait, Loc.rank])
    refine h.of_move (by rw [fex]; exact h.exit) fruns fbodies fpc floc ?_ hrank
    rcases hloc with hloc | hloc <;> rw [hloc] <;> cases i <;>
      simp_all [Loc.stopping, Loc.afterWait]

/-- Who can not go on has left. -/
lemma Stopping.left_of_stuck (h : Stopping s)
    (hs : ∀ m, s.step joins m = none) : s.loc .a = .left ∧ s.loc .b = .left := by
  have hb : s.loc .b = .left := by
    have hm := hs ⟨.b, true, true⟩
    have hst := h.loc .b
    cases hl : s.loc .b <;> simp_all [Race.step, Loc.stopping]
  have ha := hs ⟨.a, true, true⟩
  refine ⟨?_, hb⟩
  cases hl : s.loc .a <;> simp_all [Race.step]

/-! ## Every step -/

/-- **A step keeps the invariant.** -/
lemma RaceInv.step (s : Race) (m : RaceMove) (s' : Race) (h : RaceInv s)
    (hs : s.step joins m = some s') : RaceInv s' := by
  rcases h with ⟨hsys, hlocs⟩ | h
  swap
  · exact .inr (h.step hs).1
  obtain ⟨i, ord, stop⟩ := m
  have hi := hlocs i
  simp only [Race.step] at hs
  cases hl : s.loc i with
  | cleanup | left => simp [LocOk, hl] at hi
  | runTime | runLoops =>
    simp only [LocOk, hl] at hi
    obtain ⟨rfl, ha⟩ := hi
    simp only [hl, some.injEq] at hs
    subst hs
    cases stop with
    | true => exact .inr (Stopping.of_request hsys hlocs ha rfl)
    | false =>
      refine .inl ⟨by simpa using hsys, ?_⟩
      refine locOk_of_move (i := .a) hlocs ?_ (setLoc_loc_other _ _ _) ?_ ?_ rfl rfl
      · simp [LocOk, ha]
      · simp
      · simp
  | runRet =>
    simp only [hl, some.injEq, Race.runRet, hsys.exit] at hs
    subst hs
    simp only [LocOk, hl] at hi
    refine .inl ⟨hsys, locOk_of_move (i := i) hlocs ?_ (setLoc_loc_other _ _ _) rfl rfl ?_ rfl⟩
    · simp [LocOk]
      omega
    · simp
  | body =>
    simp only [hl, some.injEq] at hs
    subst hs
    simp only [LocOk, hl] at hi
    refine .inl ⟨hsys, locOk_of_move (i := i) hlocs ?_ (setLoc_loc_other _ _ _) rfl rfl rfl ?_⟩
    · simp [LocOk]
      omega
    · simp
  | runWait | startWait | endWait =>
    simp only [hl, some.injEq] at hs
    subst hs
    obtain ⟨floc, fpc, fret, fruns, fbodies, -⟩ := wait_frame s i ord
    refine .inl ⟨hsys.wait i ord, locOk_of_move hlocs (hi.wait ?_) floc fpc fret ?_ ?_⟩
    · simp [hl, Loc.isWait]
    · rw [fruns]
    · rw [fbodies]

lemma Race.Reachable.inv (h : Race.Reachable joins s) : RaceInv s :=
  Lts.invariant (step joins) RaceInv.init RaceInv.step h

lemma RaceInv.stopping (h : RaceInv s) (he : s.sys.pair.exit ∨ ∃ i, s.loc i = .left) :
    Stopping s := by
  rcases h with ⟨hsys, hlocs⟩ | h
  · rcases he with hex | ⟨i, hl⟩
    · simp [hsys.exit] at hex
    · have hi := hlocs i
      simp [LocOk, hl] at hi
  · exact h

/-- The end is not undone. -/
lemma Stopping.run {ms} (h : Stopping s) (hr : Lts.run (Race.step joins) s ms = some s') :
    Stopping s' ∧ s'.runs = s.runs ∧ s'.bodies = s.bodies :=
  Lts.run_induction (Race.step joins)
    (P := fun t => Stopping t ∧ t.runs = s.runs ∧ t.bodies = s.bodies)
    (fun t m t' ⟨ht, hruns, hbodies⟩ hs => by
      obtain ⟨ht', hruns', hbodies', -⟩ := ht.step hs
      exact ⟨ht', hruns'.trans hruns, hbodies'.trans hbodies⟩)
    ms s s' ⟨h, rfl, rfl⟩ hr

/-- **Both loops make the same number of races.** A side has left its loop because of `exit`; once
`exit` is set both sides have been let into the same number of races, have run each of them, and A
is in the call of `run_a` that returns zero (or past it). Then neither side is let into another
race, and the end is reached: at most 52 more moves are possible, and only the state in which both
loops are left has no move. -/
theorem race_same_iterations (joins : Bool) (s : Race) (hs : Race.Reachable joins s) :
    ((∃ i, s.loc i = .left) → s.sys.pair.exit = true) ∧
    (s.sys.pair.exit = true →
      s.runs .b = s.runs .a ∧ s.bodies .b = s.bodies .a ∧ (∀ i, s.bodies i = s.runs i) ∧
      (s.loc .a).stopping .a = true ∧
      ∀ ms s', Lts.run (Race.step joins) s ms = some s' →
        s'.sys.pair.exit = true ∧ s'.runs = s.runs ∧ s'.bodies = s.bodies ∧ ms.length ≤ 52 ∧
          ((∀ m, s'.step joins m = none) → s'.loc .a = .left ∧ s'.loc .b = .left)) := by
  refine ⟨fun hl => (hs.inv.stopping (.inr hl)).exit, fun hex => ?_⟩
  have h := hs.inv.stopping (.inl hex)
  refine ⟨h.runs, ?_, h.bodies, h.loc .a, fun ms s' hr => ?_⟩
  · rw [h.bodies .b, h.bodies .a, h.runs]
  obtain ⟨h', hruns, hbodies⟩ := h.run hr
  have hlen := Lts.length_le_of_decreasing (Race.step joins) Race.rank
    (fun t m t' ht hst => ⟨(ht.step hst).1, (ht.step hst).2.2.2⟩) ms s s' h hr
  exact ⟨h'.exit, hruns, hbodies, Nat.le_trans hlen s.rank_le, h'.left_of_stuck⟩

/-- One race each, in turns; then A's time is over while B is in the last wait. -/
def oneRace : List RaceMove :=
  (List.replicate 19 [⟨.a, true, false⟩, ⟨.b, true, false⟩]).flatten ++ [⟨.a, true, true⟩]

theorem race_same_iterations_oneRace :
    ∃ s, Lts.run (Race.step true) Race.init oneRace = some s ∧ s.sys.pair.exit = true ∧
      s.loc .b = .endWait ∧ s.bodies .a = 1 ∧ s.bodies .b = s.bodies .a ∧
      s.runs .b = s.runs .a :=
  ⟨_, rfl, rfl, rfl, rfl, ((race_same_iterations true _ ⟨oneRace, rfl⟩).2 rfl).2.1,
    ((race_same_iterations true _ ⟨oneRace, rfl⟩).2 rfl).1⟩

/-- **Bodies of different races do not overlap**: while a side is in its body, the other one is in
the same race, between the increment of its first wait and the end of its last. -/
theorem race_bodies_together (joins : Bool) (s : Race) (hs : Race.Reachable joins s) (i : Side)
    (hi : s.loc i = .body) : s.runs i.other = s.runs i ∧
      (s.loc i.other = .startWait ∧ s.sys.incs i.other = s.sys.incs i ∨
        s.loc i.other = .body ∨ s.loc i.other = .endWait) := by
  rcases hs.inv with ⟨hsys, hlocs⟩ | hstop
  swap
  · have hst := hstop.loc i
    cases i <;> simp [hi, Loc.stopping] at hst
  have hbody := hlocs i
  have ho := hlocs i.other
  have hle := hsys.returns_le i
  have hle' := hsys.returns_le i.other
  have hsucc := hsys.incs_le_succ i.other
  rw [Side.other_other] at hle' hsucc
  simp only [LocOk, hi] at hbody
  have hincs : s.sys.returns i = s.sys.incs i := by
    have hp := hsys.point i
    simp only [PointOk, hbody.1] at hp
    exact hp.1
  have hcases := hsys.returns_cases i.other
  unfold LocOk at ho
  cases hl : s.loc i.other <;>
    simp only [hl, reduceCtorEq, false_and, true_and, and_true, or_false, false_or] at ho ⊢
  case runRet =>
    simp only [ho.1, isSome_none, Bool.false_eq_true, false_and, or_false] at hcases
    omega
  all_goals omega

theorem race_bodies_together_oneRace :
    ∃ s, Lts.run (Race.step true) Race.init (oneRace.take 24) = some s ∧ s.loc .b = .body ∧
      s.loc .a = .startWait ∧ s.runs .a = s.runs .b :=
  ⟨_, rfl, rfl, rfl, (race_bodies_together true _ ⟨oneRace.take 24, rfl⟩ .b rfl).1⟩

end LtpDdt.FuzzySync
