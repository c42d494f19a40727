/-
Doio.Tokens — `string_to_tokens` of `doio/string_to_tokens.c`.

The model returns the return value and the stores into `arg_array` in their
order, each with its index. `arg_array` and `separator` are not `NULL`.
-/
import LtpDdt.CTypes.Strtok

namespace LtpDdt.Doio

open List CTypes

/-- The loop from `num_toks` on, with its last value. -/
def tokensLoop (separator : List UInt8) :
    Nat → Nat → Nat × List UInt8 → Nat × List (Option (List UInt8) × Nat)
  | 0, numToks, _ => (numToks, [])
  | n + 1, numToks, (p, s) =>
    match strtok separator p s with
    | none => (numToks, [(none, numToks)])
    | some (tok, st) =>
      let (num, stores) := tokensLoop separator n (numToks + 1) st
      (num, (some tok.2, numToks) :: stores)

def stringToTokens (argString : List UInt8) (arraySize : Int) (separator : List UInt8) :
    Int × List (Option (List UInt8) × Nat) :=
  if arraySize ≤ 1 then (-1, [])
  else
    match strtok separator 0 argString with
    | none => (0, [(none, 0)])
    | some (tok, st) =>
      let (numToks, stores) := tokensLoop separator (arraySize.toNat - 1) 1 st
      (numToks, (some tok.2, 0) :: stores ++ if numToks = arraySize then [(none, numToks)] else [])

/-- Only the array is written: the first tokens, one less than it has entries, and a `NULL`; their
number is returned. -/
def TokensRight (toks : List (List UInt8)) (arraySize : Nat)
    (res : Int × List (Option (List UInt8) × Nat)) : Prop :=
  let kept := toks.take (arraySize - 1)
  (∀ store ∈ res.2, store.2 < arraySize) ∧ res.1 = kept.length ∧
    res.2 = (kept.map some ++ [none]).zipIdx

lemma tokensLoop_eq (separator : List UInt8) (n i : Nat) (st : Nat × List UInt8) :
    tokensLoop separator n i st = (i + ((runs separator st.2).take n).length,
      (((runs separator st.2).take n).map some ++
        if (runs separator st.2).length < n then [none] else []).zipIdx i) := by
  induction n generalizing i st with
  | zero => simp [tokensLoop]
  | succ n ih =>
    cases h : strtok separator st.1 st.2 with
    | none => simp [tokensLoop, h, strtok_none h]
    | some =>
      simp [tokensLoop, h, (strtok_some h).1, ih]
      omega

/-- It keeps a token for each entry, and writes the `NULL` behind them. -/
lemma stringToTokens_eq (s separator : List UInt8) {n : Nat} (hn : 2 ≤ n) :
    stringToTokens s n separator = ((((runs separator s).take n).length : Int),
      (((runs separator s).take n).map some ++ [none]).zipIdx) := by
  rcases n with _ | n
  · omega
  rw [stringToTokens, if_neg (by omega)]
  cases h : strtok separator 0 s with
  | none => simp [strtok_none h]
  | some r =>
    simp only [tokensLoop_eq, (strtok_some h).1]
    generalize runs separator r.2.2 = toks
    by_cases hlen : toks.length < n
    · simp [hlen]
      omega
    · simp [hlen, zipIdx_append]
      omega

/-- **The tokens of a string.** The array is written as it should be exactly if
there are less tokens than entries. -/
theorem stringToTokens_right_iff (s separator : List UInt8) {n : Nat} (hn : 2 ≤ n) :
    TokensRight (runs separator s) n (stringToTokens s n separator) ↔
      (runs separator s).length < n := by
  rw [stringToTokens_eq s separator hn]
  generalize runs separator s = toks
  constructor
  · intro ⟨_, hret, _⟩
    simp at hret
    omega
  intro h
  simp only [TokensRight, take_of_length_le h.le, take_of_length_le (Nat.le_sub_one_of_lt h)]
  refine ⟨fun store hstore => ?_, trivial, trivial⟩
  have := snd_lt_of_mem_zipIdx hstore
  simp at this
  omega

theorem stringToTokens_right_two :
    TokensRight (runs [0x20] [0x61, 0x20, 0x62]) 3 (stringToTokens [0x61, 0x20, 0x62] 3 [0x20]) :=
  (stringToTokens_right_iff [0x61, 0x20, 0x62] [0x20] (by decide)).2 (by decide)

/-- Two tokens for two entries: the `NULL` is stored behind the array. -/
theorem stringToTokens_outside : (none, 2) ∈ (stringToTokens [0x61, 0x20, 0x62] 2 [0x20]).2 ∧
      ¬ TokensRight (runs [0x20] [0x61, 0x20, 0x62]) 2
        (stringToTokens [0x61, 0x20, 0x62] 2 [0x20]) :=
  ⟨by decide, fun h => absurd (h.1 (none, 2) (by decide)) (by decide)⟩

end LtpDdt.Doio
