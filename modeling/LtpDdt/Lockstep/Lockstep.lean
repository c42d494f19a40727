/-
Lockstep.Lockstep — two parties that write in lockstep.

After a write a side WAITS until the other side has written as often; only then may it
write again. `Step` is that discipline, `Inv` its invariant: the write counts never
differ by more than one, and a side that does not wait is not ahead.

`Blocked` is the side that is ahead. At most one side is (`not_both_blocked`), and the
next write of the other one releases it (`Inv.release`). How the counts are published
and how the waiting is done is left open.
-/
import Mathlib.Data.BitVec

namespace LtpDdt.Lockstep

inductive Side where
  | a
  | b
  deriving DecidableEq

def Side.other : Side → Side
  | .a => .b
  | .b => .a

@[simp] lemma Side.other_other (i : Side) : i.other.other = i := by cases i <;> rfl

open Side

@[simp] lemma Side.other_ne (i : Side) : i.other ≠ i := by cases i <;> simp [other]

lemma Side.eq_other_of_ne {i j : Side} (h : j ≠ i) : j = i.other := by
  cases i <;> cases j <;> simp_all [other]

/-- Write counts, and which side waits for the other. -/
structure State where
  writes : Side → Nat
  waiting : Side → Bool

variable (s : State)

/-- `i` writes: allowed when it does not wait; it waits afterwards. -/
def State.write (i : Side) : State where
  writes := fun j => if j = i then s.writes i + 1 else s.writes j
  waiting := fun j => if j = i then true else s.waiting j

/-- `i` stops waiting. -/
def State.pass (i : Side) : State where
  writes := s.writes
  waiting := fun j => if j = i then false else s.waiting j

inductive Step (i : Side) : State → State → Prop where
  | write {s : State} : s.waiting i = false → Step i s (s.write i)
  | pass {s : State} : s.waiting i = true → s.writes i ≤ s.writes i.other → Step i s (s.pass i)

/-- No side is more than one write ahead, and only a waiting side is ahead
at all. -/
def Inv : Prop :=
  ∀ i, s.writes i ≤ s.writes i.other + 1 ∧ (s.waiting i = false → s.writes i ≤ s.writes i.other)

lemma Inv.step {i s s'} (h : Inv s) (hs : Step i s s') : Inv s' := by
  have hi := h i
  have ho := h i.other
  rw [other_other] at ho
  intro j
  cases hs with
  | write hw =>
    have hle := hi.2 hw
    by_cases hj : j = i
    · subst hj
      simp only [State.write, if_true, other_ne, if_false]
      exact ⟨by omega, by simp⟩
    have hj' := eq_other_of_ne hj
    subst hj'
    simp only [State.write, other_ne, if_false, other_other, if_true]
    exact ⟨by omega, fun hw' => by have := ho.2 hw'; omega⟩
  | pass hw hle =>
    by_cases hj : j = i
    · subst hj
      simp only [State.pass]
      exact ⟨hi.1, fun _ => hle⟩
    have hj' := eq_other_of_ne hj
    subst hj'
    simp only [State.pass, other_ne, other_other]
    exact ho

def Blocked (i : Side) : Prop := s.writes i.other < s.writes i

lemma not_both_blocked (i : Side) : ¬ (Blocked s i ∧ Blocked s i.other) := by
  simp only [Blocked, other_other]
  omega

lemma Inv.release {s : State} {i : Side} (h : Inv s) (hb : Blocked s i) :
    s.writes i.other + 1 = s.writes i := by
  have := (h i).1
  simp only [Blocked] at hb
  omega

end LtpDdt.Lockstep
