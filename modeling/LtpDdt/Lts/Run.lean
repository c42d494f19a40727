/-
Lts.Run — labelled transition systems given by a partial step function,
and their runs.

A system is a function `step : σ → ℓ → Option σ`: the label says who moves and
how every choice of that move is resolved, `none` says the move is not
possible there. `run` executes a list of labels, `Reachable` is the set of
states some run ends in.
-/
import Mathlib.Data.BitVec

namespace LtpDdt.Lts

variable {σ ℓ : Type} (step : σ → ℓ → Option σ)

def run : σ → List ℓ → Option σ
  | s, [] => some s
  | s, l :: ls =>
    match step s l with
    | none => none
    | some s' => run s' ls

def Reachable (init s : σ) : Prop := ∃ ls, run step init ls = some s

variable {step} in
/-- A run goes on with a step. -/
lemma Reachable.tail {init s s' : σ} {l : ℓ} (h : Reachable step init s) (hs : step s l = some s') :
    Reachable step init s' := by
  obtain ⟨ls, hr⟩ := h
  refine ⟨ls ++ [l], ?_⟩
  induction ls generalizing init with
  | nil =>
    cases hr
    simp [run, hs]
  | cons l' ls ih =>
    simp only [run, List.cons_append] at hr ⊢
    split at hr
    · cases hr
    · exact ih hr

variable {step} in
lemma Reachable.go {init s : σ} (h : Reachable step init s) (l : ℓ) (s' : σ)
    (hs : step s l = some s') : Reachable step init s' := h.tail hs

variable {P : σ → Prop}

lemma run_induction (hstep : ∀ s l s', P s → step s l = some s' → P s') :
    ∀ ls s s', P s → run step s ls = some s' → P s'
  | [], s, s', hs, hr => by
    simp only [run, Option.some.injEq] at hr
    exact hr ▸ hs
  | l :: ls, s, s', hs, hr => by
    simp only [run] at hr
    split at hr
    · cases hr
    · rename_i s₁ h₁
      exact run_induction hstep ls s₁ s' (hstep s l s₁ hs h₁) hr

/-- **The invariant rule.** -/
theorem invariant {init} (hinit : P init) (hstep : ∀ s l s', P s → step s l = some s' → P s') {s}
    (h : Reachable step init s) : P s := by
  obtain ⟨ls, hr⟩ := h
  exact run_induction step hstep ls init s hinit hr

/-- **The refinement rule**: if every step is a move of `R` between the abstract states, or leaves
the abstract state, a run is a run of `R`. -/
theorem refines {α init} {R : α → α → Prop} {abs : σ → α} (hinit : P init)
    (hstep : ∀ s l s', P s → step s l = some s' → P s' ∧ (R (abs s) (abs s') ∨ abs s' = abs s)) {s}
    (h : Reachable step init s) : Relation.ReflTransGen R (abs init) (abs s) := by
  refine (invariant step (P := fun t => P t ∧ Relation.ReflTransGen R (abs init) (abs t))
    ⟨hinit, .refl⟩ ?_ h).2
  rintro t l t' ⟨ht, hrun⟩ hst
  obtain ⟨ht', hmove | hsame⟩ := hstep t l t' ht hst
  · exact ⟨ht', hrun.tail hmove⟩
  · rw [hsame]
    exact ⟨ht', hrun⟩

/-- A measure that drops with every step from a closed set of states bounds the runs that start
there. -/
lemma length_le_of_decreasing (μ : σ → Nat)
    (hstep : ∀ s l s', P s → step s l = some s' → P s' ∧ μ s' < μ s) :
    ∀ (ls : List ℓ) s s', P s → run step s ls = some s' → ls.length ≤ μ s
  | [], s, s', _, _ => Nat.zero_le _
  | l :: ls, s, s', hs, hr => by
    simp only [run] at hr
    split at hr
    · cases hr
    rename_i s₁ h₁
    obtain ⟨hp, hlt⟩ := hstep s l s₁ hs h₁
    have := length_le_of_decreasing μ hstep ls s₁ s' hp hr
    simp only [List.length_cons]
    omega

end LtpDdt.Lts
