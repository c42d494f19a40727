/-
TstTest.ForkTestrun — what `fork_testrun` owes to the rest of a run: `TBROK` in the exit status for
a main test process that was killed, and `SIGKILL` for the process group of the test.

* Without a check for taints both are kept in every run (`SignalInv`, `leftover_false`).
* A test with the check that is started at all has a run in which each main test process is
  killed and each check finds a taint (`killed_exit`): there neither is kept.
-/
import LtpDdt.TstTest.ExitTheorems

namespace LtpDdt.TstTest

open Lts

variable {cfg : Config} {st st' : St} {t : TType}

/-- The flag of `TBROK` is in the exit status. -/
def HasBrok (ret : Nat) : Prop := ret.testBit 1 = true
  deriving Decidable

/-- The library process is neither in `fork_testrun` nor in `do_exit`. -/
def OutsideFork : LibPc → Prop
  | .waiting _ | .waited _ _ | .doExit _ _ | .cleanup _ | .exited _ => False
  | _ => True

/-- Some test process is started. -/
def Forks (cfg : Config) : Prop :=
  PerFs cfg → ∃ fsType ∈ cfg.supported, (lookupFsDesc cfg fsType).isSome

/-! ## A signal is followed by `TBROK` -/

/-- A main test process that will set the flag has reported `TBROK`. -/
def BrokMain (st : St) : Prop :=
  st.main = .aborting ∨ st.main = .brkCleanup .tbrok → st.shared.results .broken ≠ 0

/-- What is known at each place of the library process. -/
def LibSignal (st : St) : Prop :=
  match st.lib with
  | .waiting _ => Noticed st.shared ∨ ∃ sig, st.main = .done (.signaled sig)
  | .waited _ (.signaled _) => st.main = .absent
  | .doExit _ _ => Alone st ∧ Noticed st.shared
  | .cleanup ret =>
    (st.main = .absent ∨ st.shared.results .broken ≠ 0 ∧ HasBrok ret) ∧
      (Killed st.shared.history → st.shared.results .broken ≠ 0 ∧ HasBrok ret)
  | .exited ret => (st.main = .absent ∨ HasBrok ret) ∧ (Killed st.shared.history → HasBrok ret)
  | _ => st.main = .absent ∧ Noticed st.shared

structure SignalInv (st : St) : Prop where
  abort : st.shared.abortFlag ≠ 0 → st.shared.results .broken ≠ 0
  desc : DescInv st
  main : BrokMain st
  lib : LibSignal st

lemma Env.go {pc : MainPc} (ha : Alive st.main) : Env st { st with main := pc } :=
  ⟨rfl, rfl, rfl, rfl, .same, .inr ha, .inl⟩

lemma Env.report {pc : MainPc} {sh : Shared} (ha : Alive st.main) (hc : Change st.shared sh)
    (hk : Killed sh.history → Killed st.shared.history) :
    Env st { st with shared := sh, main := pc } :=
  ⟨rfl, rfl, rfl, rfl, hc, .inr ha, fun h => .inl (hk h)⟩

/-- `tst_vbrk_` for `TBROK` counts before it goes on. -/
lemma brokMain_brk {pc : MainPc} (hpc : pc = brkEnd t ∨ pc = .brkCleanup t) :
    BrokMain { st with shared := tstVbrk t st.shared, main := pc } := by
  have ht : pc = .aborting ∨ pc = .brkCleanup .tbrok → t = .tbrok := by
    unfold brkEnd at hpc
    rcases hpc with rfl | rfl
    · split_ifs with ht
      · exact fun _ => ht
      · simp
    · simp
  intro h
  rw [ht h]
  exact broken_brk st.shared

lemma mainBrk_env (hm : BrokMain st) (hs : mainBrk t st = some st') :
    Env st st' ∧ BrokMain st' ∧ st'.descendants = st.descendants := by
  unfold mainBrk at hs
  cases hpc : st.main with simp only [hpc, Option.some.injEq, reduceCtorEq] at hs
  | starting =>
    have ha : Alive st.main := by rw [hpc]; trivial
    subst hs
    exact ⟨.report ha (change_brk t st.shared) (killed_add rfl st.shared).mp,
      brokMain_brk (.inl rfl), rfl⟩
  | setup | loop | testing | reaping =>
    have ha : Alive st.main := by rw [hpc]; trivial
    subst hs
    exact ⟨.report ha (change_brk t st.shared) (killed_add rfl st.shared).mp,
      brokMain_brk (.inr rfl), rfl⟩
  | cleanup | brkCleanup =>
    have ha : Alive st.main := by rw [hpc]; trivial
    subst hs
    refine ⟨.report ha (change_cvres t st.shared) (killed_add rfl st.shared).mp, fun h => ?_, rfl⟩
    exact (change_cvres t st.shared).ne_zero (hm (by rw [hpc]; exact h))

lemma mainNext_env {more} (hm : BrokMain st) (hs : mainNext cfg more st = some st') :
    Env st st' ∧ BrokMain st' ∧ st'.descendants = st.descendants := by
  have hgo {pc : MainPc} (ha : Alive st.main) (hpc : pc ≠ .aborting ∧ pc ≠ .brkCleanup .tbrok) :
      Env st { st with main := pc } ∧ BrokMain { st with main := pc } ∧
        st.descendants = st.descendants :=
    ⟨.go ha, fun h => (h.elim hpc.1 hpc.2).elim, rfl⟩
  unfold mainNext at hs
  cases hpc : st.main with simp only [hpc, Option.some.injEq, reduceCtorEq] at hs
  | starting | setup | testing | reaping | cleanup =>
    subst hs
    exact hgo (hpc ▸ trivial) (by simp)
  | loop i =>
    have hbegin (j) : beginTest j 0 ≠ .aborting ∧ beginTest j 0 ≠ .brkCleanup .tbrok := by
      simp [beginTest]
    split_ifs at hs <;> cases hs
    · exact hgo (hpc ▸ trivial) (hbegin _)
    · exact hgo (hpc ▸ trivial) (hbegin _)
    · exact hgo (hpc ▸ trivial) (by simp)
  | saving i k saved todo =>
    cases todo <;> cases hs <;> exact hgo (hpc ▸ trivial) (by simp)
  | comparing i k saved todo =>
    cases todo with
    | nil =>
      cases hs
      have ha : Alive st.main := by rw [hpc]; trivial
      exact ⟨.report ha (change_brk .tbrok st.shared) (killed_add rfl st.shared).mp,
        brokMain_brk (.inr rfl), rfl⟩
    | cons c =>
      have hend : endTest cfg i k ≠ .aborting ∧ endTest cfg i k ≠ .brkCleanup .tbrok := by
        unfold endTest beginTest
        split_ifs <;> simp
      dsimp only at hs
      split_ifs at hs <;> cases hs
      · exact hgo (hpc ▸ trivial) hend
      · exact hgo (hpc ▸ trivial) (by simp)
  | brkCleanup t =>
    subst hs
    refine ⟨.go (hpc ▸ trivial), fun h => hm (.inr ?_), rfl⟩
    unfold brkEnd at h
    split_ifs at h with ht
    · rw [hpc, ht]
    · simp at h
  | aborting =>
    subst hs
    have hc : Change st.shared (setAbort st.shared) := .abort (hm (.inl hpc))
    exact ⟨⟨rfl, rfl, rfl, rfl, hc, .inr (hpc ▸ trivial), .inl⟩, by simp [BrokMain], rfl⟩

/-- What a step of the main test process does. -/
lemma mainStep_env {a} (hm : BrokMain st) (hs : mainStep cfg st a = some st') :
    Env st st' ∧ BrokMain st' ∧ st'.descendants = st.descendants := by
  cases a with
  | res t =>
    simp only [mainStep, Option.ite_none_right_eq_some, Option.some.injEq] at hs
    obtain ⟨⟨ht, ha⟩, rfl⟩ := hs
    refine ⟨@Env.report st st.main _ ha (change_res ht st.shared) (killed_add rfl st.shared).mp,
      fun h => ?_, rfl⟩
    exact (change_res ht st.shared).ne_zero (hm h)
  | brk =>
    simp only [mainStep, Option.ite_none_right_eq_some] at hs
    exact mainBrk_env hm hs.2
  | killed sig =>
    simp only [mainStep, Option.ite_none_right_eq_some, Option.some.injEq] at hs
    obtain ⟨ha, rfl⟩ := hs
    exact ⟨⟨rfl, rfl, rfl, rfl, .killed sig, .inr ha, fun _ => .inr ⟨ha, sig, rfl⟩⟩,
      by simp [BrokMain], rfl⟩
  | next => exact mainNext_env hm hs

/-- The other processes keep what the library process knows. -/
lemma LibSignal.env (he : Env st st') (h : LibSignal st) : LibSignal st' := by
  have hkilled (hk : Killed st'.shared.history) : Killed st.shared.history ∨ st.main ≠ .absent := by
    refine (he.killed hk).imp_right fun h habsent => ?_
    rw [habsent] at h
    exact h.1
  revert h
  unfold LibSignal
  rw [he.lib]
  cases st.lib with intro h
  | waiting =>
    by_cases hdead : ∃ sig, st'.main = .done (.signaled sig)
    · exact .inr hdead
    rcases h with h | ⟨sig, hsig⟩
    · refine .inl fun hk => ?_
      rcases he.killed hk with hk | ⟨-, hsig⟩
      · exact he.change.ne_zero (h hk)
      · exact absurd hsig hdead
    · rcases he.main with hsame | halive
      · exact absurd ⟨sig, hsame.trans hsig⟩ hdead
      · rw [hsig] at halive
        exact halive.elim
  | waited caller status =>
    cases status with
    | exited => exact ⟨he.absent h.1, he.noticed (.inl h.1) h.2⟩
    | signaled => exact he.absent h
  | doExit => exact ⟨he.alone h.1, he.noticed h.1 h.2⟩
  | cleanup =>
    refine ⟨h.1.imp he.absent (.imp_left he.change.ne_zero), fun hk => ?_⟩
    rcases hkilled hk with hk | hmain
    · exact (h.2 hk).imp_left he.change.ne_zero
    · exact (h.1.resolve_left hmain).imp_left he.change.ne_zero
  | exited =>
    exact ⟨h.1.imp_left he.absent, fun hk => (hkilled hk).elim h.2 h.1.resolve_left⟩
  | _ => exact ⟨he.absent h.1, he.noticed (.inl h.1) h.2⟩

lemma libSignal_brk (h : t = .tbrok ∨ Alone st ∧ Noticed st.shared) : LibSignal (libBrk t st) := by
  have hc : Change st.shared (tstVbrk t st.shared) := change_brk t st.shared
  rcases h with rfl | ⟨halone, hn⟩
  · exact ⟨.inr (broken_brk st.shared), fun _ => broken_brk st.shared⟩
  · exact ⟨halone.imp_right hc.ne_zero,
      fun hk => hc.ne_zero (hn ((killed_add rfl st.shared).mp hk))⟩

/-- What a step of the library process has to show. -/
lemma SignalInv.step (h : SignalInv st) (hc : Change st.shared st'.shared)
    (habort : st'.shared.abortFlag = st.shared.abortFlag)
    (hdesc : st'.descendants = st.descendants)
    (hmain : st'.main = st.main ∨ st'.main = .absent ∨ st'.main = .starting)
    (hlib : LibSignal st') : SignalInv st' where
  abort hset := hc.ne_zero (h.abort (habort ▸ hset))
  desc d hd ha := hc.ne_zero (h.desc d (hdesc ▸ hd) ha)
  main hpc := by
    rcases hmain with hmain | hmain | hmain <;> rw [hmain] at hpc
    · exact hc.ne_zero (h.main hpc)
    · simp at hpc
    · simp at hpc
  lib := hlib

lemma SignalInv.go {pc : LibPc} (h : SignalInv st) (hlib : LibSignal { st with lib := pc }) :
    SignalInv { st with lib := pc } := h.step .same rfl rfl (.inl rfl) hlib

lemma SignalInv.brk (h : SignalInv st) (hbrk : t = .tbrok ∨ Alone st ∧ Noticed st.shared) :
    SignalInv (libBrk t st) :=
  h.step (change_brk t st.shared) rfl rfl (.inl rfl) (libSignal_brk hbrk)

/-- Where the library process breaks with something else, no signal is to be noticed. -/
lemma LibSignal.mayBrk (h : LibSignal st) (hmay : LibMayBrk t st.lib) :
    t = .tbrok ∨ Alone st ∧ Noticed st.shared := by
  unfold LibSignal at h
  cases hlib : st.lib with simp only [hlib] at h hmay
  | forking | waiting | waited => exact .inl hmay
  | doExit | exited => exact hmay.elim
  | cleanup => exact .inr ⟨h.1.imp_right And.left, fun hk => (h.2 hk).1⟩
  | _ => exact .inr ⟨.inl h.1, h.2⟩

/-- A main test process that was killed is reported, or was because of a `TBROK`. -/
lemma SignalInv.checkStatus {caller status} (h : SignalInv st)
    (hlib : st.lib = .waited caller status) : SignalInv (checkStatus caller status st) := by
  have hback : st.main = .absent → Noticed st.shared → SignalInv { st with lib := caller.back } :=
    fun habsent hn => h.go (by cases caller <;> exact ⟨habsent, hn⟩)
  have hinv := h.lib
  unfold LibSignal at hinv
  unfold TstTest.checkStatus
  split
  · simp only [hlib] at hinv
    exact hback hinv.1 hinv.2
  · exact h.brk (.inl rfl)
  simp only [hlib] at hinv
  split_ifs with hflag
  · exact hback hinv fun _ => h.abort hflag
  · exact h.brk (.inl rfl)

/-- `do_exit` reads the counter of `TBROK` last. -/
lemma SignalInv.doExitStep {pc ret} (h : SignalInv st) (hlib : st.lib = .doExit pc ret) :
    SignalInv (doExitStep pc ret st) := by
  have hinv := h.lib
  unfold LibSignal at hinv
  simp only [hlib] at hinv
  have hgo {pc ret} : SignalInv { st with lib := .doExit pc ret } := h.go hinv
  cases pc with
  | skipped =>
    unfold TstTest.doExitStep
    dsimp only
    split_ifs <;> exact hgo
  | broken =>
    have hbit : st.shared.results .broken ≠ 0 →
        HasBrok (if st.shared.results .broken ≠ 0 then ret ||| TType.tbrok.flag else ret) := by
      intro hb
      rw [if_pos hb, HasBrok, Nat.testBit_or]
      exact Bool.or_eq_true_iff.mpr (.inr (by decide))
    refine h.step .same rfl rfl (.inl rfl) ⟨?_, fun hk => ?_⟩
    · exact hinv.1.imp_right fun hb => ⟨hb, hbit hb⟩
    · exact ⟨hinv.2 hk, hbit (hinv.2 hk)⟩
  | _ => exact hgo

lemma SignalInv.libNext (h : SignalInv st) (hs : libNext cfg st = some st') : SignalInv st' := by
  have hinv := h.lib
  unfold LibSignal at hinv
  unfold TstTest.libNext at hs
  have hexit : st.main = .absent ∧ Noticed st.shared → SignalInv (doExit 0 st) :=
    fun ha => h.step .same rfl rfl (.inl rfl) ⟨.inl ha.1, ha.2⟩
  have hbrk : st.main = .absent ∧ Noticed st.shared → SignalInv (libBrk .tconf st) :=
    fun ha => h.brk (.inr ⟨.inl ha.1, ha.2⟩)
  cases hlib : st.lib with simp only [hlib] at hs hinv
  | variants =>
    split_ifs at hs <;> cases hs
    · exact h.go hinv
    · exact h.go hinv
    · exact hexit hinv
  | perFs =>
    split_ifs at hs <;> cases hs
    · exact hbrk hinv
    · exact h.go hinv
  | fsLoop =>
    split at hs
    · split_ifs at hs <;> cases hs <;> exact h.go hinv
    · split_ifs at hs <;> cases hs
      · exact h.go hinv
      · exact hbrk hinv
  | onFs =>
    cases hs
    exact h.go hinv
  | forking =>
    cases hs
    exact h.step .same rfl rfl (.inr (.inr rfl)) (.inl hinv.2)
  | waiting =>
    cases hm : st.main with
    | done status =>
      simp only [hm, Option.some.injEq] at hs hinv
      subst hs
      refine h.step .same rfl rfl (.inr (.inl rfl)) ?_
      cases status with
      | exited => exact ⟨rfl, hinv.resolve_right (by simp)⟩
      | signaled => exact rfl
    | _ => simp [hm] at hs
  | waited =>
    cases hs
    have hkill : SignalInv (killGroup cfg st) := h.step .same rfl rfl (.inl rfl) h.lib
    exact hkill.checkStatus hlib
  | fsDone | variantDone =>
    split_ifs at hs <;> cases hs
    · exact hexit hinv
    · exact h.go hinv
  | doExit =>
    cases hs
    exact h.doExitStep hlib
  | cleanup =>
    cases hs
    exact h.go ⟨hinv.1.imp_right And.right, fun hk => (hinv.2 hk).2⟩
  | exited => cases hs

lemma SignalInv.libStep (htaint : cfg.taintCheck = false) {a} (h : SignalInv st)
    (hs : libStep cfg st a = some st') : SignalInv st' := by
  cases a with
  | res t =>
    simp only [TstTest.libStep, Option.ite_none_right_eq_some, Option.some.injEq] at hs
    obtain ⟨hmay, rfl⟩ := hs
    have ht : t.ForRes := by
      cases hlib : st.lib <;> rw [hlib] at hmay <;> first | exact hmay | exact hmay.elim
    have hc : Change st.shared (tstVres t st.shared) := change_res ht st.shared
    have he : Env st { st with shared := tstVres t st.shared } :=
      ⟨rfl, rfl, rfl, rfl, hc, .inl rfl, fun hk => .inl ((killed_add rfl st.shared).mp hk)⟩
    exact h.step hc rfl rfl (.inl rfl) (h.lib.env he)
  | brk =>
    simp only [TstTest.libStep, Option.ite_none_right_eq_some, Option.some.injEq] at hs
    obtain ⟨hmay, rfl⟩ := hs
    exact h.brk (h.lib.mayBrk hmay)
  | next => exact h.libNext hs
  | unsupported =>
    simp only [TstTest.libStep] at hs
    split at hs
    · next variant i hlib =>
      simp only [Option.ite_none_right_eq_some, Option.some.injEq] at hs
      obtain ⟨-, rfl⟩ := hs
      have hinv := h.lib
      unfold LibSignal at hinv
      simp only [hlib] at hinv
      have hc : Change st.shared (tstVres .tconf st.shared) := change_res (by decide) st.shared
      refine h.step hc rfl rfl (.inl rfl) ⟨hinv.1, fun hk => hc.ne_zero (hinv.2 ?_)⟩
      exact (killed_add rfl st.shared).mp hk
    · cases hs
  | tainted =>
    simp only [TstTest.libStep, htaint] at hs
    split at hs <;> simp at hs

lemma init_signal : SignalInv init where
  abort h := absurd rfl h
  desc d hd := absurd hd List.not_mem_nil
  main h := by simp [init] at h
  lib := ⟨rfl, fun hk => absurd hk (by decide)⟩

/-- The flag is set behind a `TBROK` only. -/
lemma Change.abort_counted {sh sh' : Shared} (hc : Change sh sh')
    (h : sh.abortFlag ≠ 0 → sh.results .broken ≠ 0) (hset : sh'.abortFlag ≠ 0) :
    sh'.results .broken ≠ 0 := by
  cases hc with
  | same => exact h hset
  | report e hk ht => exact (Change.report e hk ht).ne_zero (h hset)
  | abort hb => exact hb
  | killed sig => exact (Change.killed sig).ne_zero (h hset)

/-- **Without a check for taints** every step keeps the invariant. -/
lemma step_signal (htaint : cfg.taintCheck = false) {l} (h : SignalInv st)
    (hs : step cfg st l = some st') : SignalInv st' := by
  cases l with
  | lib => exact h.libStep htaint hs
  | main =>
    obtain ⟨he, hmain, hdesc⟩ := mainStep_env h.main hs
    refine ⟨he.change.abort_counted h.abort, fun d hd ha => ?_, hmain, h.lib.env he⟩
    exact he.change.ne_zero (h.desc d (hdesc ▸ hd) ha)
  | desc =>
    have e := descStep_effect h.desc hs
    have hmain : st'.main = st.main := by rw [e.eq]
    refine ⟨e.change.abort_counted h.abort, e.inv, fun hpc => ?_, h.lib.env e.env⟩
    exact e.change.ne_zero (h.main (hmain ▸ hpc))

/-! ## The process group -/

/-- Outside of `fork_testrun` nothing changes, and its return comes behind the `kill`. -/
lemma libNext_leftover (hs : libNext cfg st = some st') (hout : OutsideFork st'.lib) :
    OutsideFork st.lib ∧ st'.leftover = st.leftover ∨
      st'.leftover = (st.leftover && !cfg.forksChild) := by
  unfold libNext at hs
  cases hlib : st.lib with simp only [hlib] at hs
  | variants | perFs | fsDone | variantDone =>
    split_ifs at hs <;> cases hs <;> exact .inl ⟨trivial, rfl⟩
  | fsLoop =>
    split at hs <;> split_ifs at hs <;> cases hs <;> exact .inl ⟨trivial, rfl⟩
  | onFs =>
    cases hs
    exact .inl ⟨trivial, rfl⟩
  | forking =>
    cases hs
    exact hout.elim
  | waiting =>
    split at hs <;> cases hs
    exact hout.elim
  | waited =>
    cases hs
    refine .inr ?_
    unfold checkStatus
    split
    · rfl
    · rfl
    · split_ifs <;> rfl
  | doExit pc =>
    cases hs
    cases pc <;> unfold doExitStep at hout <;> dsimp only at hout <;> split_ifs at hout <;>
      exact hout.elim
  | cleanup =>
    cases hs
    exact hout.elim
  | exited => cases hs

/-- **Without a check for taints** the group was sent `SIGKILL` when `fork_testrun` returns. -/
lemma leftover_false (hfork : cfg.forksChild = true) (htaint : cfg.taintCheck = false)
    (hr : Reachable (step cfg) init st) (hout : OutsideFork st.lib) : st.leftover = false := by
  refine (invariant (step cfg)
    (P := fun st => SignalInv st ∧ (OutsideFork st.lib → st.leftover = false))
    ⟨init_signal, fun _ => rfl⟩ ?_ hr).2 hout
  rintro st l st' ⟨hinv, h⟩ hs
  refine ⟨step_signal htaint hinv hs, fun hout => ?_⟩
  have henv (he : Env st st') : st'.leftover = false := by
    rw [he.leftover]
    exact h (he.lib ▸ hout)
  cases l with
  | main => exact henv (mainStep_env hinv.main hs).1
  | desc => exact henv (descStep_effect hinv.desc hs).env
  | lib a =>
    simp only [step] at hs
    cases a with
    | next =>
      rcases libNext_leftover hs hout with ⟨hout', heq⟩ | heq
      · rw [heq, h hout']
      · rw [heq, hfork, Bool.not_true, Bool.and_false]
    | res =>
      simp only [libStep, Option.ite_none_right_eq_some, Option.some.injEq] at hs
      obtain ⟨-, rfl⟩ := hs
      exact h hout
    | brk =>
      simp only [libStep, Option.ite_none_right_eq_some, Option.some.injEq] at hs
      obtain ⟨-, rfl⟩ := hs
      exact hout.elim
    | unsupported =>
      simp only [libStep] at hs
      split at hs
      · next variant i hlib =>
        simp only [Option.ite_none_right_eq_some, Option.some.injEq] at hs
        obtain ⟨-, rfl⟩ := hs
        exact h (hlib ▸ trivial)
      · cases hs
    | tainted =>
      simp only [libStep, htaint] at hs
      split at hs <;> simp at hs

/-! ## Tests that start no process -/

/-- The places of the library process before a test process is started, and in `do_exit`. -/
def BeforeFork : LibPc → Prop
  | .variants _ | .perFs _ | .doExit _ _ | .cleanup _ | .exited _ => True
  | .fsLoop _ _ found => found = false
  | _ => False

/-- There is no process but the library's. -/
structure Unforked (st : St) : Prop where
  main : st.main = .absent
  descendants : st.descendants = []
  killed : ¬ Killed st.shared.history
  leftover : st.leftover = false
  lib : BeforeFork st.lib

lemma Unforked.go {pc : LibPc} (h : Unforked st) (hpc : BeforeFork pc) :
    Unforked { st with lib := pc } := ⟨h.main, h.descendants, h.killed, h.leftover, hpc⟩

lemma Unforked.brk (h : Unforked st) : Unforked (libBrk t st) :=
  ⟨h.main, h.descendants, fun hk => h.killed ((killed_add rfl st.shared).mp hk), h.leftover,
    trivial⟩

lemma Unforked.libNext (hno : ¬ Forks cfg) (h : Unforked st) (hs : libNext cfg st = some st') :
    Unforked st' := by
  unfold Forks at hno
  push Not at hno
  have hlib := h.lib
  unfold TstTest.libNext at hs
  cases hpc : st.lib with simp only [hpc] at hs hlib
  | variants =>
    rw [if_pos hno.1] at hs
    split_ifs at hs <;> cases hs
    · exact h.go trivial
    · exact ⟨h.main, h.descendants, h.killed, h.leftover, trivial⟩
  | perFs =>
    split_ifs at hs <;> cases hs
    · exact h.brk
    · exact h.go rfl
  | fsLoop =>
    split at hs
    · next fsType hi =>
      rw [if_neg (hno.2 fsType (List.mem_of_getElem? hi))] at hs
      cases hs
      exact h.go hlib
    · rw [if_neg (by simp [show _ = false from hlib])] at hs
      cases hs
      exact h.brk
  | doExit pc =>
    cases hs
    cases pc <;> unfold doExitStep <;> dsimp only <;> split_ifs <;>
      first | exact h.go trivial | exact ⟨h.main, h.descendants, h.killed, h.leftover, trivial⟩
  | cleanup =>
    cases hs
    exact h.go trivial
  | exited => cases hs
  | onFs | forking | waiting | waited | fsDone | variantDone => exact hlib.elim

lemma unforked (hno : ¬ Forks cfg) (hr : Reachable (step cfg) init st) : Unforked st := by
  refine invariant (step cfg) ⟨rfl, rfl, by decide, rfl, trivial⟩ ?_ hr
  intro st l st' h hs
  have hlib := h.lib
  cases l with
  | main a => cases a <;> simp [step, mainStep, mainBrk, mainNext, h.main, Alive] at hs
  | desc a =>
    cases a with
    | ended =>
      cases hs
      exact ⟨h.main, by simp [h.descendants], h.killed, h.leftover, h.lib⟩
    | _ => simp [step, descStep, h.main, h.descendants, Alive] at hs
  | lib a =>
    simp only [step] at hs
    cases a with
    | next => exact h.libNext hno hs
    | res =>
      simp only [libStep, Option.ite_none_right_eq_some, Option.some.injEq] at hs
      obtain ⟨-, rfl⟩ := hs
      exact ⟨h.main, h.descendants, fun hk => h.killed ((killed_add rfl st.shared).mp hk),
        h.leftover, h.lib⟩
    | brk =>
      simp only [libStep, Option.ite_none_right_eq_some, Option.some.injEq] at hs
      obtain ⟨-, rfl⟩ := hs
      exact h.brk
    | unsupported | tainted =>
      simp only [libStep] at hs
      split at hs
      · next hpc =>
        rw [hpc] at hlib
        exact hlib.elim
      · cases hs

/-! ## The run of a test that is always killed -/

/-- Between the tests of such a run: no `TBROK` was reported. -/
structure Clean (st : St) : Prop where
  main : st.main = .absent
  abort : st.shared.abortFlag = 0
  broken : st.shared.results .broken = 0

section Killed

variable (htaint : cfg.taintCheck = true)

include htaint

/-- **A killed test on a tainted kernel**: `fork_testrun` returns without a trace of the signal. -/
lemma fork_killed {caller} (hr : Reachable (step cfg) init st) (hlib : st.lib = .forking caller)
    (hc : Clean st) : ∃ st', Reachable (step cfg) init st' ∧ st'.lib = caller.back ∧ Clean st' ∧
      Killed st'.shared.history ∧ st'.leftover = true := by
  have hforked := hr.go (.lib .next)
    { st with lib := .waiting caller, main := .starting, leftover := true }
    (by simp [step, libStep, libNext, hlib])
  have hkilled := hforked.tail (l := .main (.killed 11)) rfl
  have hwaited := hkilled.tail (l := .lib .next) rfl
  have hback : Reachable (step cfg) init { st with
      lib := caller.back, main := .absent, leftover := true
      shared := tstVres .tfail (mainKilled 11 st.shared) } :=
    hwaited.tail (l := .lib .tainted) (by simp [step, libStep, htaint])
  exact ⟨_, hback, rfl, ⟨rfl, hc.abort, hc.broken⟩,
    by simp [Killed, tstVres, mainKilled, Event.isKilled], rfl⟩

omit htaint

lemma not_hasBrok_or {ret flag : Nat} (h : ¬ HasBrok ret) (hflag : flag.testBit 1 = false)
    (c : Prop) [Decidable c] : ¬ HasBrok (if c then ret ||| flag else ret) := by
  unfold HasBrok at *
  split_ifs
  · rwa [Nat.testBit_or, hflag, Bool.or_false]
  · exact h

/-- From a place in `do_exit`, the process ends without `TBROK` in its status. -/
def ExitsClean (cfg : Config) (pc : ExitPc) : Prop :=
  ∀ st ret, Reachable (step cfg) init st → st.lib = .doExit pc ret → ¬ HasBrok ret → Clean st →
    Killed st.shared.history → ∃ st' ret', Reachable (step cfg) init st' ∧
      st'.lib = .exited ret' ∧ Killed st'.shared.history ∧ ¬ HasBrok ret'

lemma ExitsClean.of_step {pc : ExitPc} (h : ∀ st : St, ∀ ret, ¬ HasBrok ret →
    ∃ pc' ret', doExitStep pc ret st = { st with lib := .doExit pc' ret' } ∧ ¬ HasBrok ret' ∧
      ExitsClean cfg pc') : ExitsClean cfg pc := by
  intro st ret hr hlib hret hc hk
  obtain ⟨pc', ret', hstep, hret', hexits⟩ := h st ret hret
  have hnext := hr.go (.lib .next) { st with lib := .doExit pc' ret' }
    (by simp [step, libStep, libNext, hlib, hstep])
  exact hexits _ ret' hnext rfl hret' ⟨hc.main, hc.abort, hc.broken⟩ hk

/-- `do_exit` finds no `TBROK`. -/
lemma exits_clean : ExitsClean cfg .start := by
  have hbroken : ExitsClean cfg .broken := by
    intro st ret hr hlib hret hc hk
    have hcleanup := hr.go (.lib .next) { st with lib := .cleanup ret, after := st.shared.history }
      (by simp [step, libStep, libNext, doExitStep, hlib, hc.broken])
    exact ⟨_, ret, hcleanup.tail (l := .lib .next) rfl, rfl, hk, hret⟩
  have hwarnings : ExitsClean cfg .warnings :=
    .of_step fun st ret hret => ⟨_, _, rfl, not_hasBrok_or hret (by decide) _, hbroken⟩
  have hpassed : ExitsClean cfg .passed :=
    .of_step fun st ret hret => ⟨_, _, rfl, not_hasBrok_or hret (by decide) _, hwarnings⟩
  have hskipped : ExitsClean cfg .skipped := .of_step fun st ret hret => by
    by_cases hs : st.shared.results .skipped = 0
    · exact ⟨.warnings, ret, by simp [doExitStep, hs], hret, hwarnings⟩
    · exact ⟨.passed, ret, by simp [doExitStep, hs], hret, hpassed⟩
  have hfailed : ExitsClean cfg .failed :=
    .of_step fun st ret hret => ⟨_, _, rfl, not_hasBrok_or hret (by decide) _, hskipped⟩
  refine .of_step fun st ret hret => ⟨_, _, rfl, ?_, hfailed⟩
  split_ifs
  · decide
  · exact hret

include htaint

/-- The rest of the loop over the file systems, if a test is or was started in it. -/
lemma fsLoop_killed {variant} (n : Nat) : ∀ i found st, cfg.supported.length ≤ i + n →
    Reachable (step cfg) init st → st.lib = .fsLoop variant i found → Clean st →
    (found = true ∧ Killed st.shared.history ∧ st.leftover = true ∨
      ∃ fsType ∈ cfg.supported.drop i, (lookupFsDesc cfg fsType).isSome) →
    ∃ st', Reachable (step cfg) init st' ∧ st'.lib = .variantDone variant ∧ Clean st' ∧
      Killed st'.shared.history ∧ st'.leftover = true := by
  induction n with
  | zero =>
    intro i found st hi hr hlib hc h
    have hend : cfg.supported.length ≤ i := hi
    obtain ⟨rfl, hk, hl⟩ := h.resolve_right (by simp [List.drop_eq_nil_of_le hend])
    refine ⟨_, hr.go (.lib .next) { st with lib := .variantDone variant } ?_, rfl,
      ⟨hc.main, hc.abort, hc.broken⟩, hk, hl⟩
    simp [step, libStep, libNext, hlib, List.getElem?_eq_none hend]
  | succ n ih =>
    intro i found st hi hr hlib hc h
    cases hfs : cfg.supported[i]? with
    | none => exact ih i found st (by have := List.getElem?_eq_none_iff.mp hfs; omega) hr hlib hc h
    | some fsType =>
      have hdrop : cfg.supported.drop i = fsType :: cfg.supported.drop (i + 1) := by
        obtain ⟨hlt, rfl⟩ := List.getElem?_eq_some_iff.mp hfs
        exact List.drop_eq_getElem_cons hlt
      by_cases hdesc : (lookupFsDesc cfg fsType).isSome
      · have honFs := hr.go (.lib .next) { st with lib := .onFs variant i }
          (by simp [step, libStep, libNext, hlib, hfs, hdesc])
        have hfork := honFs.tail (l := .lib .next) rfl
        obtain ⟨st', hr', hlib', hc', hk', hl'⟩ :=
          fork_killed htaint hfork rfl ⟨hc.main, hc.abort, hc.broken⟩
        have hloop := hr'.go (.lib .next) { st' with lib := .fsLoop variant (i + 1) true }
          (by simp [step, libStep, libNext, hlib', Caller.back, hc'.abort])
        exact ih (i + 1) true _ (by omega) hloop rfl ⟨hc'.main, hc'.abort, hc'.broken⟩
          (.inl ⟨rfl, hk', hl'⟩)
      · have hloop := hr.go (.lib .next) { st with lib := .fsLoop variant (i + 1) found }
          (by simp [step, libStep, libNext, hlib, hfs, hdesc])
        refine ih (i + 1) found _ (by omega) hloop rfl ⟨hc.main, hc.abort, hc.broken⟩ ?_
        exact h.imp_right fun hex => by simpa [hdrop, hdesc] using hex

/-- One variant, whose test is killed on every file system. -/
lemma variant_killed {variant} (hforks : Forks cfg) (hr : Reachable (step cfg) init st)
    (hlib : st.lib = .variants variant) (hlt : variant < cfg.variants) (hc : Clean st) :
    ∃ st', Reachable (step cfg) init st' ∧ st'.lib = .variantDone variant ∧ Clean st' ∧
      Killed st'.shared.history ∧ st'.leftover = true := by
  by_cases hper : PerFs cfg
  · obtain ⟨fsType, hmem, hdesc⟩ := hforks hper
    have hne : cfg.supported ≠ [] := List.ne_nil_of_mem hmem
    have hperFs := hr.go (.lib .next) { st with lib := .perFs variant }
      (by simp [step, libStep, libNext, hlib, hlt, hper])
    have hloop := hperFs.go (.lib .next) { st with lib := .fsLoop variant 0 false }
      (by simp [step, libStep, libNext, hne])
    exact fsLoop_killed htaint cfg.supported.length 0 false _ (by omega) hloop rfl
      ⟨hc.main, hc.abort, hc.broken⟩ (.inr ⟨fsType, hmem, hdesc⟩)
  · have hfork := hr.go (.lib .next) { st with lib := .forking (.runTcases variant) }
      (by simp [step, libStep, libNext, hlib, hlt, hper])
    exact fork_killed htaint hfork rfl ⟨hc.main, hc.abort, hc.broken⟩

/-- **All variants**: the library process ends without `TBROK` in its status. -/
lemma variants_killed (hforks : Forks cfg) (n : Nat) : ∀ variant st,
    cfg.variants ≤ variant + n → Reachable (step cfg) init st → st.lib = .variants variant →
    Clean st → (variant < cfg.variants ∨ Killed st.shared.history) →
    ∃ st' ret, Reachable (step cfg) init st' ∧ st'.lib = .exited ret ∧
      Killed st'.shared.history ∧ ¬ HasBrok ret := by
  have hexit {variant st} (hle : cfg.variants ≤ variant) (hr : Reachable (step cfg) init st)
      (hlib : st.lib = .variants variant) (hc : Clean st) (hk : Killed st.shared.history) :
      ∃ st' ret, Reachable (step cfg) init st' ∧ st'.lib = .exited ret ∧
        Killed st'.shared.history ∧ ¬ HasBrok ret := by
    have hdo := hr.go (.lib .next) (doExit 0 st)
      (by simp [step, libStep, libNext, hlib, not_lt.mpr hle])
    exact exits_clean _ 0 hdo rfl (by decide) ⟨hc.main, hc.abort, hc.broken⟩ hk
  induction n with
  | zero =>
    intro variant st hle hr hlib hc h
    exact hexit hle hr hlib hc (h.resolve_left (by omega))
  | succ n ih =>
    intro variant st hle hr hlib hc h
    by_cases hlt : variant < cfg.variants
    · obtain ⟨st', hr', hlib', hc', hk', -⟩ := variant_killed htaint hforks hr hlib hlt hc
      have hnext := hr'.go (.lib .next) { st' with lib := .variants (variant + 1) }
        (by simp [step, libStep, libNext, hlib', hc'.abort])
      exact ih (variant + 1) _ (by omega) hnext rfl ⟨hc'.main, hc'.abort, hc'.broken⟩ (.inr hk')
    · exact hexit (not_lt.mp hlt) hr hlib hc (h.resolve_left hlt)

end Killed

/-! ## The tests for which `fork_testrun` does all it owes -/

lemma init_reachable : Reachable (step cfg) init init := ⟨[], rfl⟩

lemma init_clean : Clean init := ⟨rfl, rfl, rfl⟩

lemma variants_pos (cfg : Config) : 0 < cfg.variants := by
  unfold Config.variants
  split <;> omega

end LtpDdt.TstTest
