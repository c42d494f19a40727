/-
TstTest.StepTheorems — what a step of the main test process or of a
descendant can do.

* `Shared.Ok`: the counters count the history; `Change` is what any step does to
  it, and what the processes know about the counters is monotone.
* `MainInv`: a main test process that ends without a signal has left something
  other than warnings; `DescInv`: the flag comes behind a `TBROK`.
-/
import LtpDdt.TstTest.Processes

namespace LtpDdt.TstTest

open List Option Event

variable {sh : Shared} {e : Event} {t : TType} {c : Counter}

/-! ## The counters and the history -/

def Event.counter : Event → Option Counter
  | .res t => t.counter
  | .brk t => t.counter
  | .cleanupBrk t => (cvresType t).counter
  | .killed _ => none

def Shared.add (e : Event) (sh : Shared) : Shared where
  results := match e.counter with
    | some c => sh.results.inc c
    | none => sh.results
  abortFlag := sh.abortFlag
  history := e :: sh.history

lemma tstVres_eq (t : TType) (sh : Shared) : tstVres t sh = sh.add (.res t) := rfl

lemma tstCvres_eq (t : TType) (sh : Shared) : tstCvres t sh = sh.add (.cleanupBrk t) := rfl

lemma tstVbrk_eq (t : TType) (sh : Shared) : tstVbrk t sh = sh.add (.brk t) := rfl

/-- A report counts once, in its own counter. -/
lemma add_results (e : Event) (sh : Shared) (c : Counter) :
    (sh.add e).results c = sh.results c + if e.counter = some c then 1 else 0 := by
  unfold Shared.add
  cases he : e.counter with
  | none => simp
  | some d =>
    by_cases hcd : c = d
    · simp [Results.inc, hcd]
    · simp [Results.inc, hcd, Ne.symm hcd]

/-- The counters count the history, and a set flag is due to a `TBROK`. -/
structure Shared.Ok (sh : Shared) : Prop where
  counted : ∀ c, sh.results c = sh.history.countP fun e => e.counter = some c
  typed : .res .tbrok ∉ sh.history
  abort : sh.abortFlag ≠ 0 → sh.results .broken ≠ 0

/-- The counters go on agreeing with the history. -/
lemma Shared.Ok.add (h : sh.Ok) (he : e ≠ .res .tbrok) : (sh.add e).Ok where
  counted c := by
    rw [add_results, h.counted c, Shared.add, countP_cons]
    simp
  typed := by
    intro hmem
    rcases mem_cons.mp hmem with heq | hmem
    · exact he heq.symm
    · exact h.typed hmem
  abort hset := by
    have := h.abort hset
    rw [add_results]
    omega

/-- The events that count for a plain result. -/
lemma counter_eq_iff (hc : t.counter = some c) (hw : t ≠ .twarn) (hb : t ≠ .tbrok) (e : Event) :
    e.counter = t.counter ↔ e = .res t ∨ e = .brk t ∨ e = .cleanupBrk t := by
  cases e with
  | killed => simp [counter, hc]
  | res u | brk u | cleanupBrk u =>
    revert hc hw hb
    cases t <;> cases u <;> simp [counter, TType.counter, cvresType]

/-- A `TBROK` of a cleanup counts as a warning. -/
lemma counter_eq_warnings (e : Event) : e.counter = some .warnings ↔
    e = .res .twarn ∨ e = .brk .twarn ∨ e = .cleanupBrk .twarn ∨ e = .cleanupBrk .tbrok := by
  cases e with
  | killed => simp [counter]
  | res u | brk u | cleanupBrk u => cases u <;> simp [counter, TType.counter, cvresType]

lemma counter_eq_broken (e : Event) :
    e.counter = some .broken ↔ e = .res .tbrok ∨ e = .brk .tbrok := by
  cases e with
  | killed => simp [counter]
  | res u | brk u | cleanupBrk u => cases u <;> simp [counter, TType.counter, cvresType]

section Read

variable {sh : Shared} (h : sh.Ok)

include h

/-- A counter is set just if the history has an event of it. -/
lemma Shared.Ok.count_iff (c : Counter) :
    sh.results c ≠ 0 ↔ ∃ e ∈ sh.history, e.counter = some c := by
  rw [h.counted c, ← Nat.pos_iff_ne_zero]
  simp

/-- The counter of a result tells whether it was reported. -/
lemma Shared.Ok.reported_iff (hc : t.counter = some c)
    (hw : t ≠ .twarn) (hb : t ≠ .tbrok) : sh.results c ≠ 0 ↔ Reported sh.history t := by
  rw [h.count_iff, ← hc]
  constructor
  · rintro ⟨e, hmem, he⟩
    rcases (counter_eq_iff hc hw hb e).mp he with rfl | rfl | rfl
    exacts [.inl hmem, .inr (.inl hmem), .inr (.inr hmem)]
  · rintro (hmem | hmem | hmem)
    all_goals exact ⟨_, hmem, (counter_eq_iff hc hw hb _).mpr (by simp)⟩

lemma Shared.Ok.warned_iff : sh.results .warnings ≠ 0 ↔ Warned sh.history := by
  rw [h.count_iff]
  constructor
  · rintro ⟨e, hmem, he⟩
    rcases (counter_eq_warnings e).mp he with rfl | rfl | rfl | rfl
    exacts [.inl (.inl hmem), .inl (.inr (.inl hmem)), .inl (.inr (.inr hmem)), .inr hmem]
  · rintro ((hmem | hmem | hmem) | hmem)
    all_goals exact ⟨_, hmem, rfl⟩

/-- `broken` tells whether `tst_brk` reported `TBROK`. -/
lemma Shared.Ok.broken_iff : sh.results .broken ≠ 0 ↔ .brk .tbrok ∈ sh.history := by
  rw [h.count_iff]
  constructor
  · rintro ⟨e, hmem, he⟩
    rcases (counter_eq_broken e).mp he with rfl | rfl
    exacts [absurd hmem h.typed, hmem]
  · exact fun hmem => ⟨_, hmem, rfl⟩

end Read

/-! ## What a step does to the shared memory -/

/-- A step leaves the shared memory, reports, sets the flag behind a `TBROK`, or kills the main
process. -/
inductive Change (sh : Shared) : Shared → Prop
  | same : Change sh sh
  | report (e : Event) (hk : e.isKilled = false) (ht : e ≠ .res .tbrok) : Change sh (sh.add e)
  | abort (hb : sh.results .broken ≠ 0) : Change sh (setAbort sh)
  | killed (sig : Nat) : Change sh (sh.add (.killed sig))

/-- `tst_res` is a change. -/
lemma change_res (ht : t.ForRes) (sh : Shared) : Change sh (tstVres t sh) :=
  .report (.res t) rfl fun h => ht (res.inj h)

/-- `tst_brk` is a change. -/
lemma change_brk (t : TType) (sh : Shared) : Change sh (tstVbrk t sh) :=
  .report (.brk t) rfl Event.noConfusion

/-- A report from a cleanup is a change. -/
lemma change_cvres (t : TType) (sh : Shared) : Change sh (tstCvres t sh) :=
  .report (.cleanupBrk t) rfl Event.noConfusion

section Change

variable {sh sh' : Shared}

section

variable (hc : Change sh sh')

include hc

lemma Change.ok (h : sh.Ok) : sh'.Ok := by
  cases hc with
  | same => exact h
  | report e _ ht => exact h.add ht
  | abort hb => exact ⟨h.counted, h.typed, fun _ => hb⟩
  | killed => exact h.add Event.noConfusion

/-- No counter goes down. -/
lemma Change.mono (c : Counter) : sh.results c ≤ sh'.results c := by
  cases hc with
  | same => exact Nat.le_refl _
  | report | killed => rw [add_results]; exact Nat.le_add_right ..
  | abort => exact Nat.le_refl _

lemma Change.ne_zero (h : sh.results c ≠ 0) : sh'.results c ≠ 0 := by
  have := hc.mono c
  omega

/-- Nothing is forgotten. -/
lemma Change.history : sh.history ⊆ sh'.history := by
  cases hc with
  | same => exact fun _ h => h
  | report e => exact fun _ h => mem_cons_of_mem e h
  | abort => exact fun _ h => h
  | killed => exact fun _ h => mem_cons_of_mem _ h

end

end Change

/-- A report kills nobody. -/
lemma killed_add (hk : e.isKilled = false) (sh : Shared) :
    Killed (sh.add e).history ↔ Killed sh.history := by simp [Killed, Shared.add, hk]

def AnyResult (r : Results) : Prop :=
  r .passed ≠ 0 ∨ r .failed ≠ 0 ∨ r .skipped ≠ 0 ∨ r .broken ≠ 0

variable {sh' : Shared} {r : Results} {pc : MainPc}

lemma Change.anyResult (hc : Change sh sh') : AnyResult sh.results → AnyResult sh'.results :=
  Or.imp hc.ne_zero (Or.imp hc.ne_zero (Or.imp hc.ne_zero hc.ne_zero))

/-- Behind `tst_brk` there is a result. -/
lemma anyResult_brk (ht : t.ForBrk) (sh : Shared) : AnyResult (tstVbrk t sh).results := by
  rw [tstVbrk_eq]
  unfold AnyResult
  simp only [add_results]
  rcases ht with rfl | rfl | rfl <;> simp [counter, TType.counter]

/-- Behind `tst_brk(TBROK)` the counter is set. -/
lemma broken_brk (sh : Shared) : (tstVbrk .tbrok sh).results .broken ≠ 0 := by
  rw [tstVbrk_eq, add_results]
  simp [counter, TType.counter]

/-! ## The main test process -/

def MainInv (r : Results) : MainPc → Prop
  | .absent | .starting | .setup => True
  | .loop i => i ≠ 0 → AnyResult r
  | .saving _ _ saved _ | .testing _ _ saved | .reaping _ _ saved => ∀ c, saved c ≤ r c
  | .comparing _ _ saved todo => (∀ c, saved c ≤ r c) ∧ .warnings ∉ todo
  | .cleanup => AnyResult r
  | .brkCleanup t => AnyResult r ∧ (t = .tbrok → r .broken ≠ 0)
  | .aborting => r .broken ≠ 0
  | .done (.exited code) => code = 0 ∧ AnyResult r
  | .done (.signaled _) => True

/-- What others report leaves the invariant of the main process alone. -/
lemma Change.mainInv (hc : Change sh sh') : ∀ {pc}, MainInv sh.results pc → MainInv sh'.results pc
  | .absent, _ | .starting, _ | .setup, _ => trivial
  | .loop _, h => fun hi => hc.anyResult (h hi)
  | .saving _ _ _ _, h | .testing _ _ _, h | .reaping _ _ _, h =>
    fun c => Nat.le_trans (h c) (hc.mono c)
  | .comparing _ _ _ _, ⟨h, hw⟩ => ⟨fun c => Nat.le_trans (h c) (hc.mono c), hw⟩
  | .cleanup, h => hc.anyResult h
  | .brkCleanup _, ⟨h, hb⟩ => ⟨hc.anyResult h, fun ht => hc.ne_zero (hb ht)⟩
  | .aborting, h => hc.ne_zero h
  | .done (.exited _), ⟨h0, h⟩ => ⟨h0, hc.anyResult h⟩
  | .done (.signaled _), _ => trivial

variable {cfg : Config} {st st' : St}

structure MainEffect (st st' : St) : Prop where
  eq : st' = { st with shared := st'.shared, main := st'.main }
  alive : Alive st.main
  notAbsent : st'.main ≠ .absent
  change : Change st.shared st'.shared
  killed : Killed st'.shared.history →
    Killed st.shared.history ∨ ∃ sig, st'.main = .done (.signaled sig)
  inv : MainInv st'.shared.results st'.main

/-- The invariant where `tst_brk` leaves to. -/
lemma brkEnd_inv (h : AnyResult r) (hb : t = .tbrok → r .broken ≠ 0) : MainInv r (brkEnd t) := by
  unfold brkEnd
  split
  · next ht => exact hb ht
  · exact ⟨rfl, h⟩

lemma beginTest_inv (r : Results) (i k : Nat) : MainInv r (beginTest i k) := fun _ => Nat.zero_le _

/-- The invariant at the end of a test function. -/
lemma endTest_inv (h : AnyResult r) (i k : Nat) : MainInv r (endTest cfg i k) := by
  unfold endTest
  split
  · exact beginTest_inv r i (k + 1)
  · exact fun _ => h

lemma MainEffect.same (hs : { st with main := pc } = st') (ha : Alive st.main)
    (hpc : pc ≠ .absent) (hinv : MainInv st.shared.results pc) : MainEffect st st' := by
  subst hs
  exact ⟨rfl, ha, hpc, .same, .inl, hinv⟩

lemma MainEffect.report (hs : { st with shared := st.shared.add e, main := pc } = st')
    (ha : Alive st.main) (hpc : pc ≠ .absent) (hk : e.isKilled = false) (he : e ≠ .res .tbrok)
    (hinv : MainInv (st.shared.add e).results pc) : MainEffect st st' := by
  subst hs
  exact ⟨rfl, ha, hpc, .report e hk he, fun h => .inl ((killed_add hk _).mp h), hinv⟩

lemma brkEnd_ne_absent (t : TType) : brkEnd t ≠ .absent := by
  unfold brkEnd
  split <;> exact MainPc.noConfusion

/-- `tst_brk` of the main test process. -/
lemma mainBrk_effect (ht : t.ForBrk) (hinv : MainInv st.shared.results st.main)
    (hs : mainBrk t st = some st') : MainEffect st st' := by
  have hany : AnyResult (st.shared.add (.brk t)).results := anyResult_brk ht st.shared
  have hbrok : t = .tbrok → (st.shared.add (.brk t)).results .broken ≠ 0 := by
    rintro rfl
    exact broken_brk st.shared
  have hreport : Change st.shared (st.shared.add (.cleanupBrk t)) := change_cvres t st.shared
  unfold mainBrk at hs
  cases hm : st.main with
  | starting =>
    simp only [hm, tstVbrk_eq, some.injEq] at hs
    exact .report hs (hm ▸ trivial) (brkEnd_ne_absent t) rfl Event.noConfusion
      (brkEnd_inv hany hbrok)
  | setup | loop | testing | reaping =>
    simp only [hm, tstVbrk_eq, some.injEq] at hs
    exact .report hs (hm ▸ trivial) MainPc.noConfusion rfl Event.noConfusion ⟨hany, hbrok⟩
  | cleanup | brkCleanup =>
    simp only [hm, tstCvres_eq, some.injEq] at hs
    exact .report hs (hm ▸ trivial) MainPc.noConfusion rfl Event.noConfusion
      (hreport.mainInv (hm ▸ hinv))
  | absent | saving | comparing | aborting | done => simp [hm] at hs

/-- The main test process goes on by itself. -/
lemma mainNext_effect (hiter : 0 < cfg.iterations) {more}
    (hinv : MainInv st.shared.results st.main) (hs : mainNext cfg more st = some st') :
    MainEffect st st' := by
  unfold mainNext at hs
  cases hm : st.main with simp only [hm, some.injEq, reduceCtorEq] at hs hinv
  | starting | setup =>
    exact .same hs (hm ▸ trivial) MainPc.noConfusion (by simp [MainInv])
  | loop =>
    split at hs
    · exact .same (some.inj hs) (hm ▸ trivial) MainPc.noConfusion (beginTest_inv _ _ _)
    split at hs
    · exact .same (some.inj hs) (hm ▸ trivial) MainPc.noConfusion (beginTest_inv _ _ _)
    · -- the loop ends after the last iteration only
      exact .same (some.inj hs) (hm ▸ trivial) MainPc.noConfusion (hinv (by omega))
  | saving i k saved todo =>
    cases todo with simp only [some.injEq] at hs
    | nil =>
      exact .same hs (hm ▸ trivial) MainPc.noConfusion hinv
    | cons c =>
      refine .same hs (hm ▸ trivial) MainPc.noConfusion fun d => ?_
      by_cases hd : d = c
      · simp [hd]
      · simpa [hd] using hinv d
  | testing =>
    exact .same hs (hm ▸ trivial) MainPc.noConfusion hinv
  | reaping =>
    exact .same hs (hm ▸ trivial) MainPc.noConfusion ⟨hinv, by decide⟩
  | comparing i k saved todo =>
    obtain ⟨hle, hw⟩ := hinv
    cases todo with
    | nil =>
      simp only [tstVbrk_eq, some.injEq] at hs
      exact .report hs (hm ▸ trivial) MainPc.noConfusion rfl Event.noConfusion
        ⟨anyResult_brk (.inr (.inl rfl)) st.shared, fun _ => broken_brk st.shared⟩
    | cons c =>
      dsimp only at hs
      split at hs
      · next hne =>
        -- a counter that changed is not zero
        have hc : st.shared.results c ≠ 0 := by have := hle c; omega
        have hany : AnyResult st.shared.results := by
          cases c with
          | passed => exact .inl hc
          | failed => exact .inr (.inl hc)
          | skipped => exact .inr (.inr (.inl hc))
          | broken => exact .inr (.inr (.inr hc))
          | warnings => exact absurd mem_cons_self hw
        refine .same (some.inj hs) (hm ▸ trivial) ?_ (endTest_inv hany i k)
        unfold endTest
        split <;> exact MainPc.noConfusion
      · exact .same (some.inj hs) (hm ▸ trivial) MainPc.noConfusion
          ⟨hle, fun h => hw (mem_cons_of_mem c h)⟩
  | cleanup =>
    exact .same hs (hm ▸ trivial) MainPc.noConfusion ⟨rfl, hinv⟩
  | brkCleanup t =>
    exact .same hs (hm ▸ trivial) (brkEnd_ne_absent t) (brkEnd_inv hinv.1 hinv.2)
  | aborting =>
    subst hs
    exact ⟨rfl, hm ▸ trivial, MainPc.noConfusion, .abort hinv, .inl, rfl, .inr (.inr (.inr hinv))⟩

/-- **A step of the main test process** keeps its invariant. -/
lemma mainStep_effect (hiter : 0 < cfg.iterations) {a} (hinv : MainInv st.shared.results st.main)
    (hs : mainStep cfg st a = some st') : MainEffect st st' := by
  cases a with
  | res =>
    simp only [mainStep, tstVres_eq, ite_none_right_eq_some, some.injEq] at hs
    obtain ⟨⟨ht, ha⟩, hs⟩ := hs
    exact .report hs ha (by rintro h; rw [h] at ha; exact ha) rfl (fun h => ht (res.inj h))
      ((change_res ht st.shared).mainInv hinv)
  | brk =>
    simp only [mainStep, ite_none_right_eq_some] at hs
    exact mainBrk_effect hs.1 hinv hs.2
  | killed sig =>
    simp only [mainStep, ite_none_right_eq_some, some.injEq] at hs
    obtain ⟨ha, rfl⟩ := hs
    exact ⟨rfl, ha, MainPc.noConfusion, .killed sig, fun _ => .inr ⟨sig, rfl⟩, trivial⟩
  | next => exact mainNext_effect hiter hinv hs

/-! ## The descendants -/

/-- A descendant that is about to set the flag has reported `TBROK`. -/
def DescInv (st : St) : Prop :=
  ∀ d ∈ st.descendants, d.aborting = true → st.shared.results .broken ≠ 0

structure DescEffect (st st' : St) : Prop where
  eq : st' = { st with shared := st'.shared, descendants := st'.descendants }
  change : Change st.shared st'.shared
  killed : Killed st'.shared.history → Killed st.shared.history
  inv : DescInv st'

/-- The invariant of the descendants survives a change. -/
lemma DescInv.of_change (hc : Change st.shared sh) (h : DescInv st) {ds}
    (hds : ∀ d ∈ ds, d.aborting → d ∈ st.descendants) :
    DescInv { st with shared := sh, descendants := ds } :=
  fun d hd ha => hc.ne_zero (h d (hds d hd ha) ha)

lemma descBrk_effect {i d} (hinv : DescInv st) : DescEffect st (descBrk i d t st) := by
  unfold descBrk
  cases d.handler with
  | cvres =>
    exact ⟨rfl, change_cvres t st.shared, (killed_add rfl st.shared).mp,
      hinv.of_change (change_cvres t st.shared) fun d hd _ => hd⟩
  | vbrk =>
    refine ⟨rfl, change_brk t st.shared, (killed_add rfl st.shared).mp, ?_⟩
    by_cases ht : t = .tbrok
    · subst ht
      exact fun _ _ _ => broken_brk st.shared
    · simp only [if_neg ht]
      exact hinv.of_change (change_brk t st.shared) fun d hd _ => mem_of_mem_eraseIdx hd

/-- **A step of a descendant** keeps the invariant. -/
lemma descStep_effect {a} (hinv : DescInv st) (hs : descStep st a = some st') :
    DescEffect st st' := by
  have hsame : ∀ {ds : List Desc}, (∀ d ∈ ds, d.aborting → d ∈ st.descendants) →
      { st with descendants := ds } = st' → DescEffect st st' := by
    rintro _ hds rfl
    exact ⟨rfl, .same, id, hinv.of_change .same hds⟩
  cases a with
  | forkedByMain =>
    simp only [descStep, ite_none_right_eq_some, some.injEq] at hs
    exact hsame (by simp +contextual) hs.2
  | forked i =>
    simp only [descStep] at hs
    cases hd : st.descendants[i]? with
    | none => simp [hd] at hs
    | some =>
      simp only [hd, ite_none_right_eq_some, some.injEq] at hs
      refine hsame (fun d' hd' ha => ?_) hs.2
      rcases mem_cons.mp hd' with rfl | hmem
      · exact mem_of_getElem? hd
      · exact hmem
  | res =>
    simp only [descStep, ite_none_right_eq_some, some.injEq] at hs
    obtain ⟨⟨-, ht⟩, rfl⟩ := hs
    exact ⟨rfl, change_res ht st.shared, (killed_add rfl st.shared).mp,
      hinv.of_change (change_res ht st.shared) fun d hd _ => hd⟩
  | brk i =>
    simp only [descStep] at hs
    cases hd : st.descendants[i]? with
    | none => simp [hd] at hs
    | some =>
      simp only [hd, ite_none_right_eq_some, some.injEq] at hs
      exact hs.2 ▸ descBrk_effect hinv
  | abort i =>
    simp only [descStep] at hs
    cases hd : st.descendants[i]? with
    | none => simp [hd] at hs
    | some d =>
      simp only [hd, ite_none_right_eq_some, some.injEq] at hs
      obtain ⟨ha, rfl⟩ := hs
      have hc : Change st.shared (setAbort st.shared) := .abort (hinv d (mem_of_getElem? hd) ha)
      exact ⟨rfl, hc, id, hinv.of_change hc fun d hd _ => mem_of_mem_eraseIdx hd⟩
  | ended =>
    simp only [descStep, some.injEq] at hs
    exact hsame (fun d hd _ => mem_of_mem_eraseIdx hd) hs

end LtpDdt.TstTest
