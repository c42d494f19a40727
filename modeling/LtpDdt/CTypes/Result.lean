/-
CTypes.Result — sequences of calls that can fail.
-/
import Mathlib.Data.BitVec

namespace LtpDdt.CTypes

variable {ε α β : Type}

@[simp] lemma ok_bind (a : α) (f : α → Except ε β) : (Except.ok a >>= f) = f a := rfl

@[simp] lemma error_bind (e : ε) (f : α → Except ε β) :
    ((Except.error e : Except ε α) >>= f) = .error e := rfl

variable {x : Except ε α} {f : α → Except ε β}

lemma bind_eq_ok {r} (h : (x >>= f) = .ok r) : ∃ a, x = .ok a ∧ f a = .ok r := by
  cases x with
  | error => cases h
  | ok a => exact ⟨a, rfl, h⟩

lemma bind_eq_error {e} (h : (x >>= f) = .error e) :
    x = .error e ∨ ∃ a, x = .ok a ∧ f a = .error e := by
  cases x with
  | error =>
    cases h
    exact .inl rfl
  | ok a => exact .inr ⟨a, rfl, h⟩

/-- What holds of the result of a call, and of the error if it fails. -/
def Ends (P : α → Prop) (Q : ε → Prop) : Except ε α → Prop
  | .ok a => P a
  | .error e => Q e

section Ends

variable {P : α → Prop} {P' : β → Prop} {Q : ε → Prop}

lemma Ends.bind (hx : Ends P Q x) (hf : ∀ a, P a → Ends P' Q (f a)) : Ends P' Q (x >>= f) := by
  cases x with
  | error => exact hx
  | ok a => exact hf a hx

lemma Ends.imp {P₁ : α → Prop} {Q₁ : ε → Prop} (hx : Ends P Q x) (hP : ∀ a, P a → P₁ a)
    (hQ : ∀ e, Q e → Q₁ e) : Ends P₁ Q₁ x := by
  cases x with
  | error e => exact hQ e hx
  | ok a => exact hP a hx

lemma ends_iff : Ends P Q x ↔ (∀ a, x = .ok a → P a) ∧ ∀ e, x = .error e → Q e := by
  cases x with
  | error | ok => simp [Ends]

end Ends

end LtpDdt.CTypes
