/-
CTypes.Strtok — `strtok` of the C library. A token and the state that
`strtok` keeps are the offset in the string and the text there.
-/
import Mathlib.Data.List.TakeWhile

namespace LtpDdt.CTypes

open List

variable {α : Type} [DecidableEq α] (sep : List α)

def strtok : Nat → List α → Option ((Nat × List α) × (Nat × List α))
  | _, [] => none
  | p, c :: s =>
    if c ∈ sep then strtok (p + 1) s
    else
      let tok := c :: s.takeWhile (· ∉ sep)
      some ((p, tok), (p + tok.length + 1, s.drop tok.length))

/-- What at most `n` calls of `strtok` return. -/
def strtoks : Nat → Nat × List α → List (Nat × List α)
  | 0, _ => []
  | n + 1, (p, s) =>
    match strtok sep p s with
    | none => []
    | some (tok, st) => tok :: strtoks n st

/-- The maximal runs without a separator. -/
def runs (s : List α) : List (List α) := (s.splitOnP (· ∈ sep)).filter (· ≠ [])

variable {sep}

lemma runs_cons_of_mem {c} (hc : c ∈ sep) (s : List α) : runs sep (c :: s) = runs sep s := by
  simp [runs, splitOnP_cons_eq_if_modifyHead, hc]

lemma runs_cons_of_not_mem {c} (hc : c ∉ sep) (s : List α) :
    runs sep (c :: s) = (c :: s.takeWhile (· ∉ sep)) ::
      runs sep (s.drop (s.takeWhile (· ∉ sep)).length.succ) := by
  have hsplit := takeWhile_append_dropWhile (p := (· ∉ sep)) (l := s)
  have htok : ∀ x ∈ c :: s.takeWhile (· ∉ sep), decide (x ∈ sep) = false := by
    simp only [mem_cons, forall_eq_or_imp, decide_eq_false_iff_not]
    exact ⟨hc, fun x hx => by simpa using mem_takeWhile_imp hx⟩
  generalize s.takeWhile (· ∉ sep) = w at *
  cases hrest : s.dropWhile (· ∉ sep) with
  | nil =>
    rw [hrest] at hsplit
    subst hsplit
    rw [drop_eq_nil_of_le (by simp)]
    simp [runs, splitOnP_eq_singleton htok]
  | cons d =>
    have hd := head?_dropWhile_not (fun x => decide (x ∉ sep)) s
    rw [hrest] at hd hsplit
    subst hsplit
    rw [← cons_append, runs, splitOnP_append_cons_of_forall_mem htok d (by simpa using hd)]
    simp [runs]

variable {s : List α}

lemma strtok_none {p} (h : strtok sep p s = none) : runs sep s = [] := by
  induction s generalizing p with
  | nil => simp [runs]
  | cons c s ih =>
    by_cases hc : c ∈ sep
    · rw [runs_cons_of_mem hc, ih (by simpa [strtok, hc] using h)]
    · simp [strtok, hc] at h

lemma strtok_some {p} {tok rest : Nat × List α} (h : strtok sep p s = some (tok, rest)) :
    runs sep s = tok.2 :: runs sep rest.2 ∧ rest.2.length < s.length ∧
      (tok.1 = p ↔ ∃ c, s.head? = some c ∧ c ∉ sep) ∧ p ≤ tok.1 := by
  induction s generalizing p with
  | nil => cases h
  | cons c s ih =>
    by_cases hc : c ∈ sep
    · obtain ⟨hruns, _, -, _⟩ := ih (by simpa [strtok, hc] using h)
      refine ⟨by rw [runs_cons_of_mem hc, hruns], by rw [length_cons]; omega, ?_, by omega⟩
      simp [hc]
      omega
    simp only [strtok, if_neg hc] at h
    obtain ⟨rfl, rfl⟩ := h
    refine ⟨runs_cons_of_not_mem hc s, ?_, by simp [hc], Nat.le_refl p⟩
    simp only [length_drop, length_cons]
    omega

lemma strtoks_texts (n : Nat) (st : Nat × List α) :
    (strtoks sep n st).map Prod.snd = (runs sep st.2).take n := by
  induction n generalizing st with
  | zero => simp [strtoks]
  | succ n ih =>
    cases h : strtok sep st.1 st.2 with
    | none => simp [strtoks, h, strtok_none h]
    | some => simp [strtoks, h, (strtok_some h).1, ih]

lemma runs_length_lt {n} (hn : s.length < n) : (runs sep s).length < n := by
  induction n generalizing s with
  | zero => omega
  | succ n ih =>
    cases h : strtok sep 0 s with
    | none => simp [strtok_none h]
    | some r =>
      obtain ⟨hruns, _, -⟩ := strtok_some h
      have := ih (s := r.2.2) (by omega)
      simp [hruns]
      omega

end LtpDdt.CTypes
