/-
Rpn.Machine — postfix code over symbols of arity zero, one or two.

`OpTree.code` writes an expression tree in postfix order, `exec` runs a symbol list on
a stack of values; the code of a tree pushes its value (`exec_code_append`).

The second half is about the HEIGHT of a bounded stack. `Safe h ts` says that `ts`,
started on `h` values, never misses an operand and ends with one value; `peak h ts` is
the largest height on the way.
-/
import Mathlib.Data.BitVec

namespace LtpDdt.Rpn

open List

/-! ## Trees and their code -/

inductive Arity where
  | zero
  | one
  | two
  deriving DecidableEq

inductive OpTree (τ : Type) where
  | leaf (t : τ)
  | un (t : τ) (e : OpTree τ)
  | bin (t : τ) (l r : OpTree τ)
  deriving DecidableEq

section
variable {τ : Type} (ar : τ → Arity)

/-- Every node holds a symbol of the node's own arity. -/
def OpTree.WellAr : OpTree τ → Prop
  | .leaf t => ar t = .zero
  | .un t e => ar t = .one ∧ e.WellAr
  | .bin t l r => ar t = .two ∧ l.WellAr ∧ r.WellAr

/-- Postfix order: operands first, left before right, then the symbol. -/
def OpTree.code : OpTree τ → List τ
  | .leaf t => [t]
  | .un t e => e.code ++ [t]
  | .bin t l r => l.code ++ r.code ++ [t]

/-! ## The unbounded machine -/

/-- What the symbols mean: a value for a leaf, a function for an operator. -/
structure Sem (τ V : Type) where
  leaf : τ → V
  un : τ → V → V
  bin : τ → V → V → V

variable {V : Type} (sem : Sem τ V)

def OpTree.value : OpTree τ → V
  | .leaf t => sem.leaf t
  | .un t e => sem.un t e.value
  | .bin t l r => sem.bin t l.value r.value

/-- Run postfix code; `none` if an operand is missing. The head is the top of the stack. -/
def exec : List τ → List V → Option (List V)
  | [], stk => some stk
  | t :: ts, stk =>
    match ar t, stk with
    | .zero, stk => exec ts (sem.leaf t :: stk)
    | .one, v :: stk => exec ts (sem.un t v :: stk)
    | .two, v :: u :: stk => exec ts (sem.bin t u v :: stk)
    | _, _ => none

open OpTree

lemma exec_code_append : ∀ (e : OpTree τ), e.WellAr ar → ∀ rest stk,
      exec ar sem (e.code ++ rest) stk = exec ar sem rest (e.value sem :: stk)
  | .leaf t, hw, rest, stk => by
    have ht : ar t = .zero := hw
    simp [code, value, exec, ht]
  | .un t e, ⟨ht, he⟩, rest, stk => by
    rw [code, append_assoc, exec_code_append e he]
    simp [exec, ht, value]
  | .bin t l r, ⟨ht, hl, hr⟩, rest, stk => by
    rw [code, append_assoc, append_assoc, exec_code_append l hl, exec_code_append r hr]
    simp [exec, ht, value]

/-! ## Heights -/

/-- From `h` values on, no operand is missing, and one value is left. -/
def Safe : Nat → List τ → Prop
  | h, [] => h = 1
  | h, t :: ts =>
    match ar t with
    | .zero => Safe (h + 1) ts
    | .one => 1 ≤ h ∧ Safe h ts
    | .two => 2 ≤ h ∧ Safe (h - 1) ts

/-- The largest height reached when started on `h` values. -/
def peak : Nat → List τ → Nat
  | h, [] => h
  | h, t :: ts =>
    match ar t with
    | .zero => max h (peak (h + 1) ts)
    | .one => max h (peak h ts)
    | .two => max h (peak (h - 1) ts)

/-- The height after running `ts`, as an integer. -/
def height : List τ → Int
  | [] => 0
  | t :: ts =>
    (match ar t with
     | .zero => 1
     | .one => 0
     | .two => -1) + height ts

lemma height_append (xs ys : List τ) : height ar (xs ++ ys) = height ar xs + height ar ys := by
  induction xs with
  | nil => simp [height]
  | cons => simp only [cons_append, height]; omega

lemma le_peak (h : Nat) (ts : List τ) : h ≤ peak ar h ts := by
  cases ts with
  | nil => exact Nat.le_refl h
  | cons t => simp only [peak]; cases ar t <;> exact Nat.le_max_left _ _

lemma safe_code_append : ∀ (e : OpTree τ), e.WellAr ar →
    ∀ h rest, Safe ar (h + 1) rest → Safe ar h (e.code ++ rest)
  | .leaf t, hw, h, rest, hs => by
    have ht : ar t = .zero := hw
    simpa [code, Safe, ht] using hs
  | .un t e, ⟨ht, he⟩, h, rest, hs => by
    rw [code, append_assoc]
    refine safe_code_append e he h ([t] ++ rest) ?_
    simpa [Safe, ht] using hs
  | .bin t l r, ⟨ht, hl, hr⟩, h, rest, hs => by
    rw [code, append_assoc, append_assoc]
    refine safe_code_append l hl h _ (safe_code_append r hr (h + 1) _ ?_)
    simpa [Safe, ht] using hs

lemma safe_code (e : OpTree τ) (he : e.WellAr ar) : Safe ar 0 e.code := by
  have h := safe_code_append ar e he 0 [] rfl
  rwa [append_nil] at h

end

end LtpDdt.Rpn
