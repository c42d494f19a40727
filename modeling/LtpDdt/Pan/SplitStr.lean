/-
Pan.SplitStr — `splitstr` and `splitstr_free` of `pan/splitstr.c`.

* `alloc k` is the address that allocation `k` returns: 0 is the `strdup`, 1 the
  `malloc`, behind them the `realloc`s; `none` is `NULL`. A new entry of the
  array is `junk`.
* An entry of the array is `NULL` or the token with its offset in the copy.
* `num_toks` and `max_toks` are at most the length of the string and 20
  (`splitstr_counters`), so that an `int` holds them for strings below 2 GiB.
-/
import LtpDdt.CTypes.Result
import LtpDdt.CTypes.Strtok

namespace LtpDdt.Pan

open List CTypes

inductive SplitStop where
  /-- A store outside the array. -/
  | fault
  | null
  | exit

structure Split where
  argString : Nat
  argArray : Nat
  entries : List (Option (Nat × List UInt8))
  argcount : Nat

section

variable (alloc : Nat → Option Nat) (junk : Option (Nat × List UInt8)) (separator : List UInt8)

def splitLoop : Nat → Nat → Nat × List UInt8 → Split → Except SplitStop Split
  | 0, _, _, _ => .error .fault
  | n + 1, k, (p, s), r =>
    match strtok separator p s with
    | none => .ok r
    | some (tok, st) =>
      if r.entries.length ≤ r.argcount then .error .fault
      else
        let entries := r.entries.set r.argcount (some tok)
        let numToks := r.argcount + 1
        if numToks = entries.length then
          match alloc k with
          | none => .error .exit
          | some argArray =>
            splitLoop n (k + 1) st ⟨r.argString, argArray, entries ++ replicate 20 junk, numToks⟩
        else splitLoop n k st { r with entries, argcount := numToks }

def splitstr (str : List UInt8) : Except SplitStop Split :=
  match alloc 0, alloc 1 with
  | some argString, some argArray => do
    let r ← splitLoop alloc junk separator (str.length + 1) 2 (0, str)
      ⟨argString, argArray, replicate 20 junk, 0⟩
    if r.entries.length ≤ r.argcount then .error .fault
    else
      let spaces := replicate (r.entries.length - r.argcount) none
      .ok { r with entries := r.entries.take r.argcount ++ spaces }
  | _, _ => .error .null

end

/-- The addresses that are freed. -/
def splitstrFree (r : Split) : List Nat :=
  match r.entries.head? with
  | some (some tok) => [r.argString + tok.1, r.argArray]
  | _ => [r.argArray]

/-- The tokens are in the array, with room for one entry behind them. -/
structure Split.Holds (r : Split) (toks : List (Nat × List UInt8)) : Prop where
  count : r.argcount = toks.length
  entries : r.entries.take r.argcount = toks.map some
  room : r.argcount < r.entries.length
  small : r.entries.length ≤ r.argcount + 20

section

variable {alloc : Nat → Option Nat} {junk : Option (Nat × List UInt8)} {separator : List UInt8}

lemma splitLoop_ends (n k : Nat) (st : Nat × List UInt8) (r : Split)
    (toks : List (Nat × List UInt8)) (hn : (runs separator st.2).length < n) (h : r.Holds toks) :
    Ends (fun r' => r'.Holds (toks ++ strtoks separator n st))
      (fun e => e ≠ .fault ∧ ∃ k, alloc k = none) (splitLoop alloc junk separator n k st r) := by
  induction n generalizing k st r toks with
  | zero => simp at hn
  | succ n ih =>
    cases hst : strtok separator st.1 st.2 with
    | none => simpa [splitLoop, strtoks, hst, Ends] using h
    | some tok =>
      have hn : (runs separator tok.2.2).length < n := by simpa [(strtok_some hst).1] using hn
      have hset : (r.entries.set r.argcount (some tok.1)).take (r.argcount + 1) =
          (toks ++ [tok.1]).map some := by
        rw [take_succ_eq_append_getElem (by simpa using h.room)]
        simp [take_set_of_le, h.entries]
      simp only [splitLoop, strtoks, hst, if_neg (not_le.2 h.room)]
      rw [append_cons]
      split
      · split
        · exact ⟨by simp, k, ‹_›⟩
        rename_i hfull _ _ _
        rw [length_set] at hfull
        refine ih _ _ _ _ hn ⟨by simp [h.count], ?_, ?_, ?_⟩
        · rw [take_append_of_le_length (by simp; exact h.room), hset]
        · simp [hfull]
        · simp [hfull]
      · rename_i hroom
        rw [length_set] at hroom
        have hlt := h.room
        have hsmall := h.small
        refine ih _ _ _ _ hn ⟨by simp [h.count], hset, ?_, ?_⟩
        · rw [length_set]
          show r.argcount + 1 < _
          omega
        · rw [length_set]
          show _ ≤ r.argcount + 1 + 20
          omega

lemma splitstr_ends (str : List UInt8) :
    Ends (fun r => ∃ n, (0 < n ∧ n ≤ 20) ∧
        r.argcount = (strtoks separator (str.length + 1) (0, str)).length ∧
        r.entries = (strtoks separator (str.length + 1) (0, str)).map some ++ replicate n none)
      (fun e => e ≠ .fault ∧ ∃ k, alloc k = none) (splitstr alloc junk separator str) := by
  rw [splitstr]
  split
  · refine Ends.bind (splitLoop_ends _ _ _ _ [] (runs_length_lt (Nat.lt_succ_self _))
      ⟨rfl, by simp, by simp, by simp⟩) fun r h => ?_
    rw [if_neg (not_le.2 h.room)]
    have hsmall := h.small
    exact ⟨_, ⟨Nat.sub_pos_of_lt h.room, by omega⟩, h.count, by rw [h.entries, nil_append]⟩
  rename_i hnone
  refine ⟨by simp, ?_⟩
  cases h0 : alloc 0 with
  | none => exact ⟨0, h0⟩
  | some a =>
    cases h1 : alloc 1 with
    | none => exact ⟨1, h1⟩
    | some b => exact absurd h1 (hnone a b h0)

end

/-- **The string is split.** Unless an allocation fails, the array has the runs without a separator
and a `NULL` behind them; no store is outside of it. -/
theorem splitstr_splits (alloc : Nat → Option Nat) (junk : Option (Nat × List UInt8))
    (separator str : List UInt8) :
    Ends (fun r => r.argcount = (runs separator str).length ∧ ∃ n, 0 < n ∧
        r.entries.map (Option.map Prod.snd) = (runs separator str).map some ++ replicate n none)
      (fun e => e ≠ .fault ∧ ∃ k, alloc k = none) (splitstr alloc junk separator str) := by
  have htexts : (strtoks separator (str.length + 1) (0, str)).map Prod.snd = _ := strtoks_texts _ _
  rw [take_of_length_le (runs_length_lt (Nat.lt_succ_self _)).le] at htexts
  refine (splitstr_ends str).imp (fun r ⟨n, hn, hcount, hentries⟩ => ⟨?_, n, hn.1, ?_⟩) fun _ h => h
  · rw [hcount, ← htexts, length_map]
  · simp [hentries, ← htexts]

/-- The counters are small: the array has at most 20 entries more than the string has bytes. -/
theorem splitstr_counters {alloc : Nat → Option Nat} {junk : Option (Nat × List UInt8)}
    {separator str : List UInt8} {r : Split} (h : splitstr alloc junk separator str = .ok r) :
    r.argcount < r.entries.length ∧ r.entries.length ≤ str.length + 20 := by
  obtain ⟨n, hn, hcount, hentries⟩ := ends_iff.1 (splitstr_ends str) |>.1 r h
  have htexts : (strtoks separator (str.length + 1) (0, str)).map Prod.snd = _ := strtoks_texts _ _
  have hlen := congrArg length htexts
  rw [length_map, length_take, ← hcount] at hlen
  dsimp only at hlen
  have hruns : (runs separator str).length < _ := runs_length_lt (Nat.lt_succ_self str.length)
  rw [hentries, length_append, length_map, length_replicate, ← hcount]
  omega

/-- **What is freed.** The copy and the array, each once, exactly if the string begins with no
separator. -/
theorem splitstrFree_frees_iff (alloc : Nat → Option Nat) (junk : Option (Nat × List UInt8))
    (separator str : List UInt8) {r : Split} (h : splitstr alloc junk separator str = .ok r) :
    (splitstrFree r).Perm [r.argString, r.argArray] ↔ ∃ c, str.head? = some c ∧ c ∉ separator := by
  obtain ⟨n, _, -, hentries⟩ := ends_iff.1 (splitstr_ends str) |>.1 r h
  rw [splitstrFree, hentries]
  cases hst : strtok separator 0 str with
  | none =>
    rcases n with _ | n
    · omega
    cases str with
    | nil => simp [strtoks, hst, replicate_succ]
    | cons c =>
      have hc : c ∈ separator := by
        by_contra hc
        simp [strtok, hc] at hst
      simp [strtoks, hst, replicate_succ, hc]
  | some tok =>
    have hperm : [r.argString + tok.1.1] ++ [r.argArray] ~ [r.argString] ++ [r.argArray] ↔
        tok.1.1 = 0 := by
      rw [perm_append_right_iff, singleton_perm_singleton]
      omega
    simpa [strtoks, hst, ← (strtok_some hst).2.2.1] using hperm

theorem splitstrFree_frees_two :
    ∃ r, splitstr (fun k => some (16 * k)) none [0x20] [0x61, 0x20, 0x62] = .ok r ∧
      (splitstrFree r).Perm [r.argString, r.argArray] :=
  ⟨_, rfl, (splitstrFree_frees_iff (fun k => some (16 * k)) none [0x20] [0x61, 0x20, 0x62] rfl).2
    ⟨0x61, rfl, by decide⟩⟩

/-- Behind a separator an address inside the copy is freed. -/
theorem splitstrFree_inside :
    ∃ r, splitstr (fun k => some (16 * k)) none [0x20] [0x20, 0x61] = .ok r ∧
      splitstrFree r = [r.argString + 1, r.argArray] ∧
      ¬ (splitstrFree r).Perm [r.argString, r.argArray] :=
  ⟨_, rfl, rfl, by decide⟩

end LtpDdt.Pan
