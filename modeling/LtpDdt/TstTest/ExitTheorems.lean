/-
TstTest.ExitTheorems — the exit status says exactly what was reported.

* What `do_exit` has read lies between the history when it began and the one now
  (`ReadOk`).
* A signal that killed the main test process becomes a `TBROK` before the library
  process goes on (`LibInv`); `Env` is what the other processes do meanwhile.
-/
import LtpDdt.TstTest.StepTheorems

namespace LtpDdt.TstTest

open List Option TType

variable {t : TType} {x : Bool}

variable {cfg : Config} {st st' : St}

/-! ## What `do_exit` reads -/

def ExitPc.stage : ExitPc → Nat
  | .start => 0
  | .failed => 1
  | .skipped => 2
  | .passed => 3
  | .warnings => 4
  | .broken => 5

/-- A flag that is set is right for the history `h`, and as far as the counters were read, one that
the history at the begin asks for is set. -/
structure ReadOk (stage : Nat) (before h : List Event) (failed broken warned skipped : Bool) :
    Prop where
  failed_sound : failed = true → Failed h
  broken_sound : broken = true → Broken h
  warned_sound : warned = true → Warned h
  skipped_sound : skipped = true → Reported h .tconf ∧ (stage ≠ 0 → ¬ Reported before .tpass)
  skipped_only : stage = 0 → skipped = true → failed = false ∧ broken = false ∧ warned = false
  skipped_read : stage = 3 → Reported h .tconf
  failed_complete : 2 ≤ stage → Failed before → failed = true
  skipped_complete : 4 ≤ stage → Reported before .tconf → ¬ Reported h .tpass → skipped = true
  warned_complete : 5 ≤ stage → Warned before → warned = true
  broken_complete : 6 ≤ stage → Broken before → broken = true

variable {stage ret : Nat} {sh sh' : Shared} {before : List Event}

section Stages

variable {before h h' : List Event} {f b w s : Bool}

lemma Reported.mono (hsub : before ⊆ h) : Reported before t → Reported h t :=
  Or.imp (@hsub _) (Or.imp (@hsub _) (@hsub _))

lemma Warned.mono (hsub : before ⊆ h) : Warned before → Warned h :=
  Or.imp (Reported.mono hsub) (@hsub _)

lemma Broken.mono (hsub : before ⊆ h) : Broken before → Broken h := by
  refine Or.imp (@hsub _) fun hk => ?_
  obtain ⟨e, hmem, he⟩ := any_eq_true.mp hk
  exact any_eq_true.mpr ⟨e, hsub hmem, he⟩

/-- A later history keeps what was read. -/
lemma ReadOk.mono (hr : ReadOk stage before h f b w s) (hsub : h ⊆ h') :
    ReadOk stage before h' f b w s where
  failed_sound e := (hr.failed_sound e).mono hsub
  broken_sound e := (hr.broken_sound e).mono hsub
  warned_sound e := (hr.warned_sound e).mono hsub
  skipped_sound e := (hr.skipped_sound e).imp_left (Reported.mono hsub)
  skipped_only := hr.skipped_only
  skipped_read e := (hr.skipped_read e).mono hsub
  failed_complete := hr.failed_complete
  skipped_complete hstage hconf hpass :=
    hr.skipped_complete hstage hconf fun hp => hpass (hp.mono hsub)
  warned_complete := hr.warned_complete
  broken_complete := hr.broken_complete

/-- The first read of `passed`. -/
lemma ReadOk.start (hr : ReadOk 0 before h f b w s) (hpass : s → ¬ Reported before .tpass) :
    ReadOk 1 before h f b w s := by
  obtain ⟨_, _, _, _, -, -, -, -, -, -⟩ := hr
  constructor <;> grind

lemma ReadOk.none : ReadOk 1 before h false false false false := by constructor <;> simp

/-- The read of `failed`. -/
lemma ReadOk.failed (hr : ReadOk 1 before h f b w s) (hx : x ↔ Failed h)
    (hsub : Failed before → Failed h) : ReadOk 2 before h (f || x) b w s := by
  obtain ⟨_, _, _, _, -, -, -, -, -, -⟩ := hr
  constructor <;> grind

/-- The read of `skipped`, when it is set. -/
lemma ReadOk.skipped (hr : ReadOk 2 before h f b w s) (hx : Reported h .tconf) :
    ReadOk 3 before h f b w s := by
  obtain ⟨_, _, _, _, -, -, _, -, -, -⟩ := hr
  constructor <;> grind

/-- The read of `skipped`, when it is not set. -/
lemma ReadOk.notSkipped (hr : ReadOk 2 before h f b w s) (hx : ¬ Reported before .tconf) :
    ReadOk 4 before h f b w s := by
  obtain ⟨_, _, _, _, -, -, _, -, -, -⟩ := hr
  constructor <;> grind

/-- The second read of `passed`. -/
lemma ReadOk.passed (hr : ReadOk 3 before h f b w s) (hx : x ↔ ¬ Reported h .tpass)
    (hsub : Reported before .tpass → Reported h .tpass) : ReadOk 4 before h f b w (s || x) := by
  obtain ⟨_, _, _, _, -, _, _, -, -, -⟩ := hr
  constructor <;> grind

/-- The read of `warnings`. -/
lemma ReadOk.warnings (hr : ReadOk 4 before h f b w s) (hx : x ↔ Warned h)
    (hsub : Warned before → Warned h) : ReadOk 5 before h f b (w || x) s := by
  obtain ⟨_, _, _, _, -, -, _, _, -, -⟩ := hr
  constructor <;> grind

/-- The read of `broken`. -/
lemma ReadOk.broken (hr : ReadOk 5 before h f b w s) (hx : x → Broken h)
    (hsub : Broken before → x) : ReadOk 6 before h f (b || x) w s := by
  obtain ⟨_, _, _, _, -, -, _, _, _, -⟩ := hr
  constructor <;> grind

end Stages

lemma eq_decide {p} [Decidable p] (hsound : x → p) (hcomplete : p → x) : x = decide p :=
  Bool.eq_iff_iff.mpr ⟨fun e => decide_eq_true (hsound e), fun e => hcomplete (of_decide_eq_true e)⟩

/-- With nothing reported meanwhile the flags are the verdict. -/
lemma ReadOk.verdict {h f b w s} (hr : ReadOk 6 h h f b w s) : flags f b w s = verdict h := by
  have hskipped : s → Skipped h := fun e =>
    (hr.skipped_sound e).imp_right fun hpass => hpass (by decide)
  rw [TstTest.verdict, eq_decide hr.failed_sound (hr.failed_complete (by decide)),
    eq_decide hr.broken_sound (hr.broken_complete (by decide)),
    eq_decide hr.warned_sound (hr.warned_complete (by decide)),
    eq_decide hskipped fun hs => hr.skipped_complete (by decide) hs.1 hs.2]

/-- The status is not zero, or there is still a counter to be read that makes
it so. -/
def NotSilent (r : Results) (ret : Nat) : ExitPc → Prop
  | .start | .failed => AnyResult r
  | .skipped => ret ≠ 0 ∨ r .passed ≠ 0 ∨ r .skipped ≠ 0 ∨ r .broken ≠ 0
  | .passed => True
  | .warnings | .broken => ret ≠ 0 ∨ r .passed ≠ 0 ∨ r .broken ≠ 0

lemma Change.notSilent (hc : Change sh sh') : ∀ {pc},
    NotSilent sh.results ret pc → NotSilent sh'.results ret pc
  | .start, h | .failed, h => hc.anyResult h
  | .skipped, h => h.imp_right (Or.imp hc.ne_zero (Or.imp hc.ne_zero hc.ne_zero))
  | .passed, _ => trivial
  | .warnings, h | .broken, h => h.imp_right (Or.imp hc.ne_zero hc.ne_zero)

/-- The flags that `do_exit` has so far. -/
structure Reading (before : List Event) (sh : Shared) (stage : Nat) (ret : Nat) : Prop where
  sub : before ⊆ sh.history
  killed : Killed before → .brk .tbrok ∈ before
  flags : ∃ f b w s, ret = flags f b w s ∧ ReadOk stage before sh.history f b w s

/-- A report of another process keeps the reading right. -/
lemma Change.reading (hc : Change sh sh') (h : Reading before sh stage ret) :
    Reading before sh' stage ret := by
  obtain ⟨hsub, hk, f, b, w, s, hret, hread⟩ := h
  exact ⟨fun _ he => hc.history (hsub he), hk, f, b, w, s, hret, hread.mono hc.history⟩

lemma flags_or_failed : ∀ f b w s x,
    (if x then flags f b w s ||| tfail.flag else flags f b w s) = flags (f || x) b w s := by decide

lemma flags_or_broken : ∀ f b w s x,
    (if x then flags f b w s ||| tbrok.flag else flags f b w s) = flags f (b || x) w s := by decide

lemma flags_or_warned : ∀ f b w s x,
    (if x then flags f b w s ||| twarn.flag else flags f b w s) = flags f b (w || x) s := by decide

lemma flags_or_skipped : ∀ f b w s x,
    (if x then flags f b w s ||| tconf.flag else flags f b w s) = flags f b w (s || x) := by decide

lemma flags_ne_zero : ∀ f b w s, (f || b || w || s) → flags f b w s ≠ 0 := by decide

/-- What the value of `do_exit` says about the events before and after it read the counters. -/
structure Finished (before after : List Event) (ret : Nat) : Prop where
  flags : ∃ f b w s, ret = flags f b w s ∧ ReadOk 6 before after f b w s
  pass : ret = 0 → Reported after .tpass

def ReadsOn (before : List Event) (sh : Shared) (pc : ExitPc) (ret : Nat) : Prop :=
  Reading before sh pc.stage ret ∧ NotSilent sh.results ret pc

section Reads

variable {before : List Event} {sh : Shared} {ret : Nat} (hok : sh.Ok)

include hok

/-- `do_exit` drops a lone `TCONF` when a test passed. -/
lemma readStart (h : ReadsOn before sh .start ret) : ReadsOn before sh .failed
      (if sh.results .passed ≠ 0 ∧ ret = tconf.flag then 0 else ret) := by
  obtain ⟨⟨hsub, hk, f, b, w, s, rfl, hread⟩, hany⟩ := h
  refine ⟨?_, hany⟩
  split
  · exact ⟨hsub, hk, false, false, false, false, rfl, .none⟩
  next hcond =>
  refine ⟨hsub, hk, f, b, w, s, rfl, hread.start fun hs hpass => hcond ⟨?_, ?_⟩⟩
  · exact (hok.reported_iff rfl (by decide) (by decide)).mpr (hpass.mono hsub)
  obtain ⟨rfl, rfl, rfl⟩ := hread.skipped_only rfl hs
  rw [hs]
  rfl

/-- `do_exit` reads `failed`. -/
lemma readFailed (h : ReadsOn before sh .failed ret) : ReadsOn before sh .skipped
      (if sh.results .failed ≠ 0 then ret ||| tfail.flag else ret) := by
  obtain ⟨⟨hsub, hk, f, b, w, s, rfl, hread⟩, hany⟩ := h
  have hval := flags_or_failed f b w s (decide (sh.results .failed ≠ 0))
  simp only [decide_eq_true_eq] at hval
  rw [hval]
  refine ⟨⟨hsub, hk, _, b, w, s, rfl, hread.failed ?_ (Reported.mono hsub)⟩, ?_⟩
  · rw [decide_eq_true_iff]
    exact hok.reported_iff rfl (by decide) (by decide)
  rcases hany with hp | hf | hs | hb
  · exact .inr (.inl hp)
  · exact .inl (flags_ne_zero _ _ _ _ (by simp [hf]))
  · exact .inr (.inr (.inl hs))
  · exact .inr (.inr (.inr hb))

/-- `do_exit` reads `skipped`. -/
lemma readSkipped (h : ReadsOn before sh .skipped ret) :
    if sh.results .skipped ≠ 0 then ReadsOn before sh .passed ret
    else ReadsOn before sh .warnings ret := by
  obtain ⟨⟨hsub, hk, f, b, w, s, rfl, hread⟩, hsilent⟩ := h
  have hiff : sh.results .skipped ≠ 0 ↔ Reported sh.history .tconf :=
    hok.reported_iff rfl (by decide) (by decide)
  split
  · next hs => exact ⟨⟨hsub, hk, f, b, w, s, rfl, hread.skipped (hiff.mp hs)⟩, trivial⟩
  next hs =>
  refine ⟨⟨hsub, hk, f, b, w, s, rfl, hread.notSkipped fun hconf => ?_⟩, ?_⟩
  · exact hs (hiff.mpr (hconf.mono hsub))
  · exact hsilent.imp_right fun hany => hany.imp_right fun hany => hany.resolve_left hs

/-- `do_exit` reads `passed`. -/
lemma readPassed (h : ReadsOn before sh .passed ret) : ReadsOn before sh .warnings
      (if sh.results .passed = 0 then ret ||| tconf.flag else ret) := by
  obtain ⟨⟨hsub, hk, f, b, w, s, rfl, hread⟩, -⟩ := h
  have hval := flags_or_skipped f b w s (decide (sh.results .passed = 0))
  simp only [decide_eq_true_eq] at hval
  rw [hval]
  refine ⟨⟨hsub, hk, f, b, w, _, rfl, hread.passed ?_ (Reported.mono hsub)⟩, ?_⟩
  · rw [decide_eq_true_iff, ← hok.reported_iff rfl (by decide) (by decide), not_not]
  by_cases hp : sh.results .passed = 0
  · exact .inl (flags_ne_zero _ _ _ _ (by simp [hp]))
  · exact .inr (.inl hp)

/-- `do_exit` reads `warnings`. -/
lemma readWarnings (h : ReadsOn before sh .warnings ret) : ReadsOn before sh .broken
      (if sh.results .warnings ≠ 0 then ret ||| twarn.flag else ret) := by
  obtain ⟨⟨hsub, hk, f, b, w, s, rfl, hread⟩, hsilent⟩ := h
  have hval := flags_or_warned f b w s (decide (sh.results .warnings ≠ 0))
  simp only [decide_eq_true_eq] at hval
  refine ⟨⟨hsub, hk, f, b, _, s, hval, hread.warnings ?_ (Warned.mono hsub)⟩, ?_⟩
  · rw [decide_eq_true_iff]
    exact hok.warned_iff
  refine hsilent.imp_left fun hne => ?_
  split
  · exact fun hzero => hne (Nat.or_eq_zero_iff.mp hzero).1
  · exact hne

/-- `do_exit` reads `broken`. -/
lemma readBroken (h : ReadsOn before sh .broken ret) : Finished before sh.history
      (if sh.results .broken ≠ 0 then ret ||| tbrok.flag else ret) := by
  obtain ⟨⟨hsub, hk, f, b, w, s, rfl, hread⟩, hsilent⟩ := h
  have hval := flags_or_broken f b w s (decide (sh.results .broken ≠ 0))
  simp only [decide_eq_true_eq] at hval
  refine ⟨⟨f, _, w, s, hval, hread.broken ?_ ?_⟩, fun hzero => ?_⟩
  · rw [decide_eq_true_iff, hok.broken_iff]
    exact .inl
  · rw [decide_eq_true_iff, hok.broken_iff]
    exact fun hbroken => hsub (hbroken.elim id hk)
  have hnone : sh.results .broken = 0 := by
    by_contra hne
    rw [hval] at hzero
    exact flags_ne_zero _ _ _ _ (by simp [hne]) hzero
  rw [if_neg (not_not.mpr hnone)] at hzero
  have hpass : sh.results .passed ≠ 0 :=
    (hsilent.resolve_left (not_not.mpr hzero)).resolve_right (not_not.mpr hnone)
  exact (hok.reported_iff rfl (by decide) (by decide)).mp hpass

end Reads

/-! ## The library process -/

/-- A signal that killed the main test process has been reported. -/
def Noticed (sh : Shared) : Prop := Killed sh.history → sh.results .broken ≠ 0

/-- There is no main test process, or there was a `TBROK` anyway. -/
def Alone (st : St) : Prop := st.main = .absent ∨ st.shared.results .broken ≠ 0

def LibInv (st : St) : Prop :=
  match st.lib with
  | .variants variant =>
    st.main = .absent ∧ Noticed st.shared ∧ (variant ≠ 0 → AnyResult st.shared.results)
  | .perFs _ | .onFs _ _ | .forking _ => st.main = .absent ∧ Noticed st.shared
  | .fsLoop _ _ found =>
    st.main = .absent ∧ Noticed st.shared ∧ (found = true → AnyResult st.shared.results)
  | .waiting _ => Noticed st.shared ∨ ∃ sig, st.main = .done (.signaled sig)
  | .waited _ (.exited code) =>
    st.main = .absent ∧ Noticed st.shared ∧ code = 0 ∧ AnyResult st.shared.results
  | .waited _ (.signaled _) => st.main = .absent
  | .fsDone _ _ | .variantDone _ =>
    st.main = .absent ∧ Noticed st.shared ∧ AnyResult st.shared.results
  | .doExit pc ret => Alone st ∧ Noticed st.shared ∧ ReadsOn st.before st.shared pc ret
  | .cleanup ret => Alone st ∧ Noticed st.shared ∧ Finished st.before st.after ret
  | .exited ret => Finished st.before st.after ret

/-- What a step of another process can do to it. -/
structure Env (st st' : St) : Prop where
  lib : st'.lib = st.lib
  before : st'.before = st.before
  after : st'.after = st.after
  leftover : st'.leftover = st.leftover
  change : Change st.shared st'.shared
  main : st'.main = st.main ∨ Alive st.main
  killed : Killed st'.shared.history → Killed st.shared.history ∨
    Alive st.main ∧ ∃ sig, st'.main = .done (.signaled sig)

lemma MainEffect.env (h : MainEffect st st') : Env st st' where
  lib := by rw [h.eq]
  before := by rw [h.eq]
  after := by rw [h.eq]
  leftover := by rw [h.eq]
  change := h.change
  main := .inr h.alive
  killed hk := (h.killed hk).imp_right fun hsig => ⟨h.alive, hsig⟩

lemma DescEffect.env (h : DescEffect st st') : Env st st' where
  lib := by rw [h.eq]
  before := by rw [h.eq]
  after := by rw [h.eq]
  leftover := by rw [h.eq]
  change := h.change
  main := .inl (by rw [h.eq])
  killed hk := .inl (h.killed hk)

section Env

variable (he : Env st st')

include he

lemma Env.absent (h : st.main = .absent) : st'.main = .absent := by
  rcases he.main with hsame | halive
  · rw [hsame, h]
  · rw [h] at halive
    exact halive.elim

lemma Env.noticed (ha : Alone st) (h : Noticed st.shared) : Noticed st'.shared := by
  intro hk
  rcases he.killed hk with hk | ⟨halive, -⟩
  · exact he.change.ne_zero (h hk)
  refine he.change.ne_zero (ha.resolve_left fun habsent => ?_)
  rw [habsent] at halive
  exact halive

lemma Env.alone (ha : Alone st) : Alone st' := ha.imp he.absent he.change.ne_zero

end Env

/-- What the other processes do keeps the library's invariant. -/
lemma LibInv.env (he : Env st st') (h : LibInv st) : LibInv st' := by
  have hany : AnyResult st.shared.results → AnyResult st'.shared.results := he.change.anyResult
  revert h
  unfold LibInv
  rw [he.lib]
  cases st.lib with intro h
  | variants =>
    exact ⟨he.absent h.1, he.noticed (.inl h.1) h.2.1, fun hv => hany (h.2.2 hv)⟩
  | perFs | onFs | forking =>
    exact ⟨he.absent h.1, he.noticed (.inl h.1) h.2⟩
  | fsLoop =>
    exact ⟨he.absent h.1, he.noticed (.inl h.1) h.2.1, fun hf => hany (h.2.2 hf)⟩
  | waiting =>
    rcases h with h | ⟨sig, hsig⟩
    · by_cases hdead : ∃ sig, st'.main = .done (.signaled sig)
      · exact .inr hdead
      refine .inl fun hk => ?_
      rcases he.killed hk with hk | ⟨-, hsig⟩
      · exact he.change.ne_zero (h hk)
      · exact absurd hsig hdead
    · rcases he.main with hsame | halive
      · exact .inr ⟨sig, hsame.trans hsig⟩
      · rw [hsig] at halive
        exact halive.elim
  | waited caller status =>
    cases status with
    | exited =>
      exact ⟨he.absent h.1, he.noticed (.inl h.1) h.2.1, h.2.2.1, hany h.2.2.2⟩
    | signaled =>
      exact he.absent h
  | fsDone | variantDone =>
    exact ⟨he.absent h.1, he.noticed (.inl h.1) h.2.1, hany h.2.2⟩
  | doExit =>
    exact ⟨he.alone h.1, he.noticed h.1 h.2.1, he.before ▸ he.change.reading h.2.2.1,
      he.change.notSilent h.2.2.2⟩
  | cleanup =>
    rw [he.before, he.after]
    exact ⟨he.alone h.1, he.noticed h.1 h.2.1, h.2.2⟩
  | exited =>
    rw [he.before, he.after]
    exact h

/-- `do_exit` is called with zero or behind a `tst_brk`, when something was reported and no signal
is to be noticed. -/
lemma doExit_inv (hok : st.shared.Ok) (ha : Alone st) (hn : Noticed st.shared)
    (hany : AnyResult st.shared.results)
    (hret : ret = 0 ∨ ∃ t, t.ForBrk ∧ ret = t.flag ∧ .brk t ∈ st.shared.history) :
    LibInv (doExit ret st) := by
  refine ⟨ha, hn, ⟨fun _ he => he, fun hk => hok.broken_iff.mp (hn hk), ?_⟩, hany⟩
  have hstage : ExitPc.start.stage = 0 := rfl
  rcases hret with rfl | ⟨t, (rfl | rfl | rfl), rfl, hmem⟩
  · exact ⟨false, false, false, false, rfl, by constructor <;> simp [hstage]⟩
  · exact ⟨true, false, false, false, rfl, by
      constructor <;> simp [hstage, Failed, Reported, doExit, hmem]⟩
  · exact ⟨false, true, false, false, rfl, by
      constructor <;> simp [hstage, Broken, doExit, hmem]⟩
  · exact ⟨false, false, false, true, rfl, by
      constructor <;> simp [hstage, Reported, doExit, hmem]⟩

/-- The invariant behind the library's `tst_brk`. -/
lemma libBrk_inv (ht : t.ForBrk) (hok : st.shared.Ok)
    (h : t = .tbrok ∨ Alone st ∧ Noticed st.shared) : LibInv (libBrk t st) := by
  have hc : Change st.shared (tstVbrk t st.shared) := change_brk t st.shared
  have hlast : Alone { st with shared := tstVbrk t st.shared } ∧ Noticed (tstVbrk t st.shared) := by
    rcases h with rfl | ⟨halone, hn⟩
    · exact ⟨.inr (broken_brk st.shared), fun _ => broken_brk st.shared⟩
    · exact ⟨halone.imp_right hc.ne_zero,
        fun hk => hc.ne_zero (hn ((killed_add rfl st.shared).mp hk))⟩
  exact doExit_inv (hc.ok hok) hlast.1 hlast.2 (anyResult_brk ht st.shared)
    (.inr ⟨t, ht, rfl, mem_cons_self⟩)

/-- When the library may break. -/
lemma libMayBrk_inv (hinv : LibInv st) (hmay : LibMayBrk t st.lib) :
    t.ForBrk ∧ (t = .tbrok ∨ Alone st ∧ Noticed st.shared) := by
  unfold LibInv at hinv
  cases hlib : st.lib with simp only [hlib] at hinv hmay
  | variants | fsLoop | fsDone | variantDone =>
    exact ⟨hmay, .inr ⟨.inl hinv.1, hinv.2.1⟩⟩
  | perFs | onFs =>
    exact ⟨hmay, .inr ⟨.inl hinv.1, hinv.2⟩⟩
  | cleanup =>
    exact ⟨hmay, .inr ⟨hinv.1, hinv.2.1⟩⟩
  | forking | waiting | waited =>
    exact ⟨.inr (.inl hmay), .inl hmay⟩
  | doExit | exited => exact hmay.elim

structure LibEffect (st st' : St) : Prop where
  change : Change st.shared st'.shared
  descendants : st'.descendants = st.descendants
  main : MainInv st'.shared.results st'.main
  inv : LibInv st'

section LibEffect

variable (hok : st.shared.Ok) (hmain : MainInv st.shared.results st.main)

include hmain

lemma LibEffect.go {pc} (hinv : LibInv { st with lib := pc }) :
    LibEffect st { st with lib := pc } := ⟨.same, rfl, hmain, hinv⟩

include hok

lemma LibEffect.exit (ha : Alone st) (hn : Noticed st.shared)
    (hany : AnyResult st.shared.results) : LibEffect st (doExit 0 st) :=
  ⟨.same, rfl, hmain, doExit_inv hok ha hn hany (.inl rfl)⟩

lemma LibEffect.brk (ht : t.ForBrk) (h : t = .tbrok ∨ Alone st ∧ Noticed st.shared) :
    LibEffect st (libBrk t st) :=
  ⟨change_brk t st.shared, rfl, (change_brk t st.shared).mainInv hmain, libBrk_inv ht hok h⟩

/-- The library looks at the status of its child. -/
lemma checkStatus_effect {caller status} (hlib : st.lib = .waited caller status)
    (hinv : LibInv st) : LibEffect st (checkStatus caller status st) := by
  have hback : st.main = .absent → Noticed st.shared → AnyResult st.shared.results →
      LibInv { st with lib := caller.back } := by
    intro habsent hn hany
    cases caller <;> exact ⟨habsent, hn, hany⟩
  unfold LibInv at hinv
  unfold checkStatus
  split
  · simp only [hlib] at hinv
    exact .go hmain (hback hinv.1 hinv.2.1 hinv.2.2.2)
  · simp only [hlib] at hinv
    exact .brk hok hmain (.inr (.inl rfl)) (.inl rfl)
  simp only [hlib] at hinv
  split
  · next hflag =>
    -- the flag stands for a `TBROK` that was reported
    have hb := hok.abort hflag
    exact .go hmain (hback hinv (fun _ => hb) (.inr (.inr (.inr hb))))
  · exact .brk hok hmain (.inr (.inl rfl)) (.inl rfl)

/-- **One read of `do_exit`.** -/
lemma doExitStep_effect {pc} (ha : Alone st) (hn : Noticed st.shared)
    (hread : ReadsOn st.before st.shared pc ret) : LibEffect st (doExitStep pc ret st) := by
  have hgo : ∀ {pc ret}, ReadsOn st.before st.shared pc ret →
    LibEffect st { st with lib := .doExit pc ret } :=
    fun h => .go hmain ⟨ha, hn, h⟩
  cases pc with
  | start => exact hgo (readStart hok hread)
  | failed => exact hgo (readFailed hok hread)
  | skipped =>
    have h := readSkipped hok hread
    unfold doExitStep
    split at h
    · next hs => simp only [if_pos hs]; exact hgo h
    · next hs => simp only [if_neg hs]; exact hgo h
  | passed => exact hgo (readPassed hok hread)
  | warnings => exact hgo (readWarnings hok hread)
  | broken => exact ⟨.same, rfl, hmain, ha, hn, readBroken hok hread⟩

/-- The library goes on by itself. -/
lemma libNext_effect (hinv : LibInv st) (hs : libNext cfg st = some st') : LibEffect st st' := by
  have hinv' := hinv
  unfold LibInv at hinv'
  unfold libNext at hs
  cases hlib : st.lib with simp only [hlib] at hs hinv'
  | variants variant =>
    split at hs
    · split at hs <;> cases hs
      · exact .go hmain ⟨hinv'.1, hinv'.2.1⟩
      · exact .go hmain ⟨hinv'.1, hinv'.2.1⟩
    next hend =>
    cases hs
    -- there is one variant at least
    have hne : variant ≠ 0 := by
      rintro rfl
      refine hend ?_
      unfold Config.variants
      split <;> omega
    exact .exit hok hmain (.inl hinv'.1) hinv'.2.1 (hinv'.2.2 hne)
  | perFs =>
    split at hs <;> cases hs
    · exact .brk hok hmain (.inr (.inr rfl)) (.inr ⟨.inl hinv'.1, hinv'.2⟩)
    · exact .go hmain ⟨hinv'.1, hinv'.2, Bool.noConfusion⟩
  | fsLoop =>
    split at hs
    · split at hs <;> cases hs
      · exact .go hmain ⟨hinv'.1, hinv'.2.1⟩
      · exact .go hmain hinv'
    split at hs <;> cases hs
    · next hfound => exact .go hmain ⟨hinv'.1, hinv'.2.1, hinv'.2.2 hfound⟩
    · exact .brk hok hmain (.inr (.inr rfl)) (.inr ⟨.inl hinv'.1, hinv'.2.1⟩)
  | onFs =>
    cases hs
    exact .go hmain hinv'
  | forking =>
    cases hs
    exact ⟨.same, rfl, trivial, .inl hinv'.2⟩
  | waiting =>
    cases hm : st.main with
    | done status =>
      simp only [hm, some.injEq] at hs hinv'
      subst hs
      rw [hm] at hmain
      refine ⟨.same, rfl, trivial, ?_⟩
      cases status with
      | exited => exact ⟨rfl, hinv'.resolve_right (by simp), hmain⟩
      | signaled => exact rfl
    | _ => simp [hm] at hs
  | waited =>
    have e := @checkStatus_effect (killGroup cfg st) hok hmain _ _ hlib hinv
    exact some.inj hs ▸ ⟨e.change, e.descendants, e.main, e.inv⟩
  | fsDone | variantDone =>
    split at hs <;> cases hs
    · exact .exit hok hmain (.inl hinv'.1) hinv'.2.1 hinv'.2.2
    · exact .go hmain ⟨hinv'.1, hinv'.2.1, fun _ => hinv'.2.2⟩
  | doExit =>
    exact some.inj hs ▸ doExitStep_effect hok hmain hinv'.1 hinv'.2.1 hinv'.2.2
  | cleanup =>
    cases hs
    exact .go hmain hinv'.2.2
  | exited => cases hs

/-- **A step of the library** keeps its invariant. -/
lemma libStep_effect (htaint : cfg.taintCheck = false) {a} (hinv : LibInv st)
    (hs : libStep cfg st a = some st') : LibEffect st st' := by
  cases a with
  | res t =>
    simp only [libStep, ite_none_right_eq_some, some.injEq] at hs
    obtain ⟨hmay, rfl⟩ := hs
    have ht : t.ForRes := by
      cases hlib : st.lib <;> rw [hlib] at hmay <;> first | exact hmay | exact hmay.elim
    have hc : Change st.shared (tstVres t st.shared) := change_res ht st.shared
    have he : Env st { st with shared := tstVres t st.shared } :=
      ⟨rfl, rfl, rfl, rfl, hc, .inl rfl, fun hk => .inl ((killed_add rfl st.shared).mp hk)⟩
    exact ⟨hc, rfl, hc.mainInv hmain, hinv.env he⟩
  | brk =>
    simp only [libStep, ite_none_right_eq_some, some.injEq] at hs
    obtain ⟨hmay, rfl⟩ := hs
    obtain ⟨ht, h⟩ := libMayBrk_inv hinv hmay
    exact .brk hok hmain ht h
  | next => exact libNext_effect hok hmain hinv hs
  | unsupported =>
    unfold LibInv at hinv
    simp only [libStep] at hs
    split at hs
    · next variant i hlib =>
      simp only [hlib] at hinv
      simp only [ite_none_right_eq_some, some.injEq] at hs
      obtain ⟨-, rfl⟩ := hs
      have hc : Change st.shared (tstVres .tconf st.shared) := change_res (by decide) st.shared
      have hskipped : (tstVres .tconf st.shared).results .skipped ≠ 0 := by
        rw [tstVres_eq, add_results]
        simp [Event.counter, counter]
      exact ⟨hc, rfl, hc.mainInv hmain, hinv.1,
        fun hk => hc.ne_zero (hinv.2 ((killed_add rfl st.shared).mp hk)),
          .inr (.inr (.inl hskipped))⟩
    · cases hs
  | tainted =>
    simp only [libStep, htaint] at hs
    split at hs <;> simp at hs

end LibEffect

/-! ## The whole test -/

structure Inv (st : St) : Prop where
  shared : st.shared.Ok
  main : MainInv st.shared.results st.main
  desc : DescInv st
  lib : LibInv st

/-- **A step of any process keeps the invariant.** -/
lemma step_inv (htaint : cfg.taintCheck = false) (hiter : 0 < cfg.iterations) {l} (h : Inv st)
    (hs : step cfg st l = some st') : Inv st' := by
  cases l with
  | lib =>
    have e := libStep_effect h.shared h.main htaint h.lib hs
    refine ⟨e.change.ok h.shared, e.main, fun d hd ha => ?_, e.inv⟩
    rw [e.descendants] at hd
    exact e.change.ne_zero (h.desc d hd ha)
  | main =>
    have e := mainStep_effect hiter h.main hs
    refine ⟨e.change.ok h.shared, e.inv, fun d hd ha => ?_, h.lib.env e.env⟩
    rw [e.eq] at hd
    exact e.change.ne_zero (h.desc d hd ha)
  | desc =>
    have e := descStep_effect h.desc hs
    refine ⟨e.change.ok h.shared, ?_, e.inv, h.lib.env e.env⟩
    have hmain : st'.main = st.main := by rw [e.eq]
    rw [hmain]
    exact e.change.mainInv h.main

/-- The invariant holds at the start. -/
lemma init_inv : Inv init where
  shared := ⟨fun _ => rfl, not_mem_nil, fun h => absurd rfl h⟩
  main := trivial
  desc := fun _ hd => absurd hd not_mem_nil
  lib := ⟨rfl, fun hk => absurd hk (by decide), fun h => absurd rfl h⟩

/-- The events before and after `do_exit` read the counters: one before sets its flag, and a flag is
due to one before or meanwhile. -/
def Between (before after : List Event) (status : Nat) : Prop :=
  ∃ f b w s, status = flags f b w s ∧ ((Failed before → f = true) ∧ (f = true → Failed after)) ∧
    ((Broken before → b = true) ∧ (b = true → Broken after)) ∧
    ((Warned before → w = true) ∧ (w = true → Warned after)) ∧
    ((Reported before .tconf ∧ ¬ Reported after .tpass → s = true) ∧
      (s = true → Reported after .tconf ∧ ¬ Reported before .tpass))

lemma Finished.between {after} (h : Finished before after ret) : Between before after ret := by
  obtain ⟨f, b, w, s, hret, hr⟩ := h.flags
  exact ⟨f, b, w, s, hret, ⟨hr.failed_complete (by decide), hr.failed_sound⟩,
    ⟨hr.broken_complete (by decide), hr.broken_sound⟩,
    ⟨hr.warned_complete (by decide), hr.warned_sound⟩,
    fun hs => hr.skipped_complete (by decide) hs.1 hs.2,
    fun hs => (hr.skipped_sound hs).imp_right fun hpass => hpass (by decide)⟩

/-- **The exit status.** When the library process ends, its status is the verdict on the events
before `do_exit` read the counters, if nothing was reported meanwhile; such events make a difference
only where they ask for another flag. It is zero only if a test passed. -/
theorem exit_status (cfg : Config) (st : St) (htaint : cfg.taintCheck = false)
    (hiter : 0 < cfg.iterations) (hr : Lts.Reachable (step cfg) init st) (status : Nat)
    (hexit : st.lib = .exited status) :
    (st.after = st.before → status = verdict st.before) ∧
      Between st.before st.after status ∧ (status = 0 → Reported st.after .tpass) := by
  have hinv : Inv st :=
    Lts.invariant (step cfg) init_inv (fun _ _ _ h hs => step_inv htaint hiter h hs) hr
  have hlib := hinv.lib
  unfold LibInv at hlib
  rw [hexit] at hlib
  refine ⟨fun hquiet => ?_, hlib.between, hlib.pass⟩
  obtain ⟨f, b, w, s, hret, hread⟩ := hlib.flags
  rw [hquiet] at hread
  exact hret.trans hread.verdict

def oneTest : Config where
  testVariants := 0
  allFilesystems := false
  filesystems := none
  supported := []
  tcnt := none
  iterations := 1
  duration := false
  taintCheck := false
  forksChild := false
  tcnt_pos := by simp

/-- It passes, and breaks in its cleanup. -/
def oneTestRun : List Label :=
  List.replicate 2 (.lib .next) ++ List.replicate 9 (.main (.next false)) ++
    [.main (.res .tpass)] ++ List.replicate 4 (.main (.next false)) ++ [.main (.brk .tbrok)] ++
    [.main (.next false)] ++ List.replicate 10 (.lib .next)

theorem exit_status_oneTest : (oneTest.taintCheck = false ∧ 0 < oneTest.iterations) ∧
      ∃ st, Lts.Reachable (step oneTest) init st ∧ st.lib = .exited 4 ∧ st.after = st.before ∧
        4 = verdict st.before := by
  obtain ⟨st, hrun⟩ : ∃ st, Lts.run (step oneTest) init oneTestRun = some st := ⟨_, rfl⟩
  have hend : (Lts.run (step oneTest) init oneTestRun).map
      (fun st => (st.lib, st.after, st.before)) =
      some (.exited 4, [.cleanupBrk .tbrok, .res .tpass], [.cleanupBrk .tbrok, .res .tpass]) := by
    decide
  rw [hrun, Option.map_some, Option.some.injEq, Prod.mk.injEq, Prod.mk.injEq] at hend
  obtain ⟨hlib, hafter, hbefore⟩ := hend
  refine ⟨⟨rfl, by decide⟩, st, ⟨_, hrun⟩, hlib, hafter.trans hbefore.symm, ?_⟩
  exact (exit_status oneTest st rfl (by decide) ⟨_, hrun⟩ 4 hlib).1 (hafter.trans hbefore.symm)

/-- **No report is lost or counted twice**, in whatever order the processes run. A main test process
that ended by itself has left a result, and one that is to be aborted a `TBROK`. -/
theorem reports_counted (cfg : Config) (htaint : cfg.taintCheck = false)
    (hiter : 0 < cfg.iterations) (hr : Lts.Reachable (step cfg) init st) :
    (∀ c, st.shared.results c = st.shared.history.countP fun e => e.counter = some c) ∧
      (∀ code, st.main = .done (.exited code) → code = 0 ∧ AnyResult st.shared.results) ∧
      (st.shared.abortFlag ≠ 0 → .brk .tbrok ∈ st.shared.history) := by
  have hinv : Inv st :=
    Lts.invariant (step cfg) init_inv (fun _ _ _ h hs => step_inv htaint hiter h hs) hr
  refine ⟨hinv.shared.counted, fun code hdone => ?_, fun hflag => ?_⟩
  · have hmain := hinv.main
    rw [hdone] at hmain
    exact hmain
  · exact hinv.shared.broken_iff.mp (hinv.shared.abort hflag)

theorem reports_counted_oneTest : ∃ st, Lts.run (step oneTest) init (oneTestRun.take 18) = some st ∧
    st.main = .done (.exited 0) ∧ AnyResult st.shared.results := by
  obtain ⟨st, hrun⟩ : ∃ st, Lts.run (step oneTest) init (oneTestRun.take 18) = some st := ⟨_, rfl⟩
  have hend : st.main = .done (.exited 0) := by
    cases hrun
    rfl
  exact ⟨st, hrun, hend, ((reports_counted oneTest rfl Nat.one_pos ⟨_, hrun⟩).2.1 0 hend).2⟩

end LtpDdt.TstTest
