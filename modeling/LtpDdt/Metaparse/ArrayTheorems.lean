/-
Metaparse.ArrayTheorems — what `parse_array` makes of an initializer.

The quotes of a literal are gone when its tokens are compared with punctuation
and `NULL`. §1 follows any run of the loop, §2 and §3 the one over literals:
`parseArray_literals_iff`.
-/
import LtpDdt.Metaparse.TokenTheorems
import Mathlib.Algebra.BigOperators.Group.List.Basic

namespace LtpDdt.Metaparse

open DataStorage List
open CTypes (asc ascii ok_bind error_bind bind_eq_ok)

variable {macros : Macros} {α : Type} {comma : Bool} {lits : List (List UInt8)}

/-! ## §1 Runs of the loop -/

/-- The tokens that are neither braces, commas nor `NULL`. -/
structure Ordinary (t : List UInt8) : Prop where
  notOpen : t ≠ ascii "\x7b"
  notClose : t ≠ ascii "\x7d"
  notComma : t ≠ ascii ","
  notNull : t ≠ ascii "NULL"

instance (t : List UInt8) : Decidable (Ordinary t) :=
  decidable_of_iff (t ≠ ascii "\x7b" ∧ t ≠ ascii "\x7d" ∧ t ≠ ascii "," ∧ t ≠ ascii "NULL")
    ⟨fun h => ⟨h.1, h.2.1, h.2.2.1, h.2.2.2⟩, fun h => ⟨h.1, h.2, h.3, h.4⟩⟩

def ordinaries (ts : List (List UInt8)) : Nat := ts.countP fun t => decide (Ordinary t)

def strings (elems : List DataNode) : List (List UInt8) :=
  elems.filterMap fun
    | .string s => some s
    | _ => none

lemma strings_append (l l' : List DataNode) : strings (l ++ l') = strings l ++ strings l' :=
  filterMap_append

variable (l : List (List UInt8))

lemma strings_map : strings (l.map .string) = l := by
  rw [strings, filterMap_map]
  exact filterMap_some

/-- A node that is no string leaves the strings as they are. -/
lemma arrayAdd_strings (elems : List DataNode) {payload : DataNode} (h : strings [payload] = []) :
    ∃ elems', dataNodeArrayAdd (.array elems) payload = .array elems' ∧
      strings elems' = strings elems ∧ (elems.length = maxElems → elems' = elems) := by
  rw [dataNodeArrayAdd]
  split
  · exact ⟨elems, rfl, rfl, fun _ => rfl⟩
  rename_i hroom
  refine ⟨_, rfl, ?_, fun hfull => absurd hfull hroom⟩
  rw [strings_append, h, append_nil]

lemma addNull_strings {elems : List DataNode} {id node}
    (h : addNull false (.array elems) id = .ok node) : ∃ elems', strings elems' = strings elems ∧
      (elems.length = maxElems → elems' = elems) ∧ node = .array elems' := by
  obtain ⟨elems', heq, hstr, hsame⟩ := arrayAdd_strings elems (rfl : strings [.null] = [])
  rw [addNull, if_neg Bool.false_ne_true, heq] at h
  cases h
  exact ⟨elems', hstr, hsame, rfl⟩

lemma strings_dropNull (elems : List DataNode) :
    ∃ elems', dropNull false (.array elems) = .array elems' ∧ strings elems' = strings elems := by
  rw [dropNull, if_neg Bool.false_ne_true]
  split
  · rename_i hlast
    refine ⟨elems.dropLast, rfl, ?_⟩
    have hne : elems ≠ [] := by
      rintro rfl
      cases hlast
    have hnull : elems.getLast hne = .null :=
      Option.some_inj.1 ((getLast?_eq_some_getLast hne).symm.trans hlast)
    conv_rhs => rw [← dropLast_append_getLast hne, strings_append, hnull]
    exact (append_nil _).symm
  · exact ⟨elems, rfl, rfl⟩

variable {ts : List (List UInt8)} {elems : List (List UInt8 × DataNode)} {null : Bool}

lemma Toks.of_nextTok {inp inp' t : List UInt8} (h : Toks inp ts [])
    (htok : nextTok inp = .ok (some t, inp')) : ∃ ts', ts = t :: ts' ∧ Toks inp' ts' [] := by
  cases h with
  | nil =>
    cases htok
  | cons h h' =>
    rw [h] at htok
    cases htok
    exact ⟨_, rfl, h'⟩

lemma hashAddId_hash {id payload node} (h : hashAddId (.hash elems) id payload = .ok node) :
    ∃ elems', node = .hash elems' := by
  cases id with
  | none =>
    rw [hashAddId] at h
    split at h
    · cases h
      exact ⟨_, rfl⟩
    · cases h
  | some =>
    rw [hashAddId, dataNodeHashAdd] at h
    split at h <;> cases h <;> exact ⟨_, rfl⟩

lemma finalizeArrayEntry_hash {val id} {r : DataNode × Option (List UInt8)}
    (h : finalizeArrayEntry val id (.hash elems) = .ok r) : ∃ elems', r.1 = .hash elems' := by
  unfold finalizeArrayEntry at h
  split at h
  · cases h
    exact ⟨_, rfl⟩
  · cases h
    exact ⟨_, rfl⟩
  obtain ⟨_, hnode, h⟩ := bind_eq_ok h
  cases h
  exact hashAddId_hash hnode

lemma finalizeArrayEntry_array {val} {elems : List DataNode} {r}
    (h : finalizeArrayEntry val none (.array elems) = .ok r) : ∃ elems',
      (elems' = elems ∧ (val = none ∨ elems.length = maxElems) ∨
        elems.length ≠ maxElems ∧ ∃ v, val = some v ∧ elems' = elems ++ [.string v]) ∧
      r = (.array elems', none) := by
  cases val with
  | none =>
    cases h
    exact ⟨elems, .inl ⟨rfl, .inl rfl⟩, rfl⟩
  | some v =>
    rw [finalizeArrayEntry, dataNodeArrayAdd] at h
    split at h <;> cases h
    · rename_i hfull
      exact ⟨elems, .inl ⟨rfl, .inr hfull⟩, rfl⟩
    · rename_i hroom
      exact ⟨_, .inr ⟨hroom, v, rfl, rfl⟩, rfl⟩

/-- What a token does to the number of open parentheses. -/
def parens (t : List UInt8) : Int :=
  if t = ascii "(" then 1 else if t = ascii ")" then -1 else 0

lemma parens_eq (t : List UInt8) (p : Int) :
    (if t = ascii ")" then (if t = ascii "(" then p + 1 else p) - 1
      else if t = ascii "(" then p + 1 else p) = p + parens t := by
  unfold parens
  by_cases hopen : t = ascii "("
  · rw [if_neg (by rw [hopen]; decide), if_pos hopen, if_pos hopen]
  rw [if_neg hopen]
  split
  · rfl
  · rw [Int.add_zero]

/-- What a round of the loop of `parse_array` does, in a run that returns. -/
inductive Round (macros : Macros) (n : Nat) (isHash : Bool) (ret : DataNode)
    (val id : Option (List UInt8)) (p : Int) (inp : List UInt8) (r : Out (Bool × DataNode)) :
    Prop where
  | eof {rest} : nextTok inp = .ok (none, rest) → r = ((false, ret), rest) →
      Round macros n isHash ret val id p inp r
  | nested {inp' subHash sub ret'} : nextTok inp = .ok (some (ascii "\x7b"), inp') →
      arrayIsHash inp' = .ok subHash →
      parseArrayLoop macros n subHash (emptyNode subHash) none none 0 inp' = .ok sub →
      addNested isHash ret id sub.1.2 = .ok ret' →
      parseArrayLoop macros n isHash ret' none none p sub.2 = .ok r →
      Round macros n isHash ret val id p inp r
  | close {inp' f} : nextTok inp = .ok (some (ascii "\x7d"), inp') →
      finalizeArrayEntry val id ret = .ok f → r = ((true, dropNull isHash f.1), inp') →
      Round macros n isHash ret val id p inp r
  | equals {inp'} : nextTok inp = .ok (some (ascii "="), inp') → isHash = true → id = none →
      parseArrayLoop macros n isHash ret none val p inp' = .ok r →
      Round macros n isHash ret val id p inp r
  | comma {inp' f} : nextTok inp = .ok (some (ascii ","), inp') → p ≤ 0 →
      finalizeArrayEntry val id ret = .ok f →
      parseArrayLoop macros n isHash f.1 none f.2 p inp' = .ok r →
      Round macros n isHash ret val id p inp r
  | null {inp' ret'} : nextTok inp = .ok (some (ascii "NULL"), inp') →
      addNull isHash ret id = .ok ret' →
      parseArrayLoop macros n isHash ret' val id p inp' = .ok r →
      Round macros n isHash ret val id p inp r
  | append {t inp'} : nextTok inp = .ok (some t, inp') → t ≠ ascii "\x7b" → t ≠ ascii "\x7d" →
      ¬ (isHash = true ∧ t = ascii "=" ∧ id = none) → (t = ascii "," → 0 < p) →
      t ≠ ascii "NULL" →
      parseArrayLoop macros n isHash ret (some (strAppend val (tryApplyMacro macros t))) id
        (p + parens t) inp' = .ok r →
      Round macros n isHash ret val id p inp r

/-- **One round of the loop.** -/
lemma parseArrayLoop_round {n isHash ret val id p inp r}
    (h : parseArrayLoop macros (n + 1) isHash ret val id p inp = .ok r) :
    Round macros n isHash ret val id p inp r := by
  obtain ⟨⟨token, _⟩, htok, h⟩ := bind_eq_ok h
  cases token with
  | none =>
    cases h
    exact .eof htok rfl
  | some t =>
    dsimp only at h
    split at h
    · rename_i ht
      obtain ⟨_, hsub, h⟩ := bind_eq_ok h
      obtain ⟨_, hloop, h⟩ := bind_eq_ok h
      obtain ⟨ret', hret', h⟩ := bind_eq_ok h
      exact .nested (ht ▸ htok) hsub hloop hret' h
    rename_i hopen
    split at h
    · rename_i ht
      obtain ⟨f, hf, h⟩ := bind_eq_ok h
      cases h
      exact .close (ht ▸ htok) hf rfl
    rename_i hclose
    split at h
    · rename_i ht
      exact .equals (ht.2.1 ▸ htok) ht.1 ht.2.2 h
    rename_i hequals
    split at h
    · rename_i ht
      obtain ⟨f, hf, h⟩ := bind_eq_ok h
      exact .comma (ht.1 ▸ htok) ht.2 hf h
    rename_i hcomma
    split at h
    · rename_i ht
      obtain ⟨ret', hret', h⟩ := bind_eq_ok h
      exact .null (ht ▸ htok) hret' h
    rename_i hnull
    refine .append htok hopen hclose hequals (fun ht => ?_) hnull ?_
    · by_contra hp
      exact hcomma ⟨ht, by omega⟩
    · rw [← h, parens_eq]

lemma parseArrayLoop_hash : ∀ {n} {elems} {val id} {p} {inp} {r : Out (Bool × DataNode)},
    parseArrayLoop macros n true (.hash elems) val id p inp = .ok r → ∃ elems', r.1.2 = .hash elems'
  | n + 1, elems, val, id, p, inp, r, h => by
    cases parseArrayLoop_round h with
    | eof _ hr => exact ⟨elems, by rw [hr]⟩
    | nested _ _ _ hret' h' =>
      unfold addNested at hret'
      split at hret'
      · cases hret'
        exact parseArrayLoop_hash h'
      · obtain ⟨elems', rfl⟩ := hashAddId_hash hret'
        exact parseArrayLoop_hash h'
    | close _ hf hr =>
      obtain ⟨elems', heq⟩ := finalizeArrayEntry_hash hf
      exact ⟨elems', by rw [hr, heq]; rfl⟩
    | equals _ _ _ h' | append _ _ _ _ _ _ h' => exact parseArrayLoop_hash h'
    | comma _ _ hf h' =>
      obtain ⟨_, heq⟩ := finalizeArrayEntry_hash hf
      rw [heq] at h'
      exact parseArrayLoop_hash h'
    | null _ hret' h' =>
      obtain ⟨_, rfl⟩ := hashAddId_hash hret'
      exact parseArrayLoop_hash h'

/-- The loop reads tokens up to its brace. -/
lemma parseArrayLoop_toks : ∀ {n} {isHash} {ret} {val id} {p} {inp} {r : Out (Bool × DataNode)}
    {ts}, parseArrayLoop macros n isHash ret val id p inp = .ok r →
    Toks inp ts [] → ∃ ts', ts' <:+ ts ∧ Toks r.2 ts' []
  | n + 1, isHash, ret, val, id, p, inp, r, ts, h, hts => by
    have next : ∀ {t inp' isHash ret val id p}, nextTok inp = .ok (some t, inp') →
        parseArrayLoop macros n isHash ret val id p inp' = .ok r →
        ∃ ts', ts' <:+ ts ∧ Toks r.2 ts' [] := by
      intro t _ _ _ _ _ p htok h'
      obtain ⟨ts', rfl, hts'⟩ := hts.of_nextTok htok
      obtain ⟨us, hus, h''⟩ := parseArrayLoop_toks h' hts'
      exact ⟨us, hus.trans (suffix_cons t ts'), h''⟩
    cases parseArrayLoop_round h with
    | eof htok hr =>
      cases hts with
      | nil =>
        cases htok
        exact ⟨[], suffix_refl _, by rw [hr]; exact .nil⟩
      | cons h =>
        rw [h] at htok
        cases htok
    | nested htok _ hsub _ h' =>
      obtain ⟨ts', rfl, hts'⟩ := hts.of_nextTok htok
      obtain ⟨_, hus, hrest⟩ := parseArrayLoop_toks hsub hts'
      obtain ⟨vs, hvs, h''⟩ := parseArrayLoop_toks h' hrest
      exact ⟨vs, hvs.trans (hus.trans (suffix_cons _ ts')), h''⟩
    | close htok _ hr =>
      obtain ⟨ts', rfl, hts'⟩ := hts.of_nextTok htok
      exact ⟨ts', suffix_cons _ ts', by rw [hr]; exact hts'⟩
    | equals htok _ _ h' | comma htok _ _ h' | null htok _ h'
    | append htok _ _ _ _ _ h' => exact next htok h'

/-- A string can come up without a further ordinary token: there is a value, or a comma will be
one. -/
def pending (val : Option (List UInt8)) (p : Int) : Nat := if val.isSome ∨ 0 < p then 1 else 0

/-- The elements of an array stay, there are no more strings than ordinary tokens, and a full array
gets none. -/
def Extends (elems : List DataNode) (val : Option (List UInt8)) (p : Int) (inp : List UInt8)
    (node : DataNode) : Prop :=
  ∃ elems', node = .array elems' ∧ strings elems <+: strings elems' ∧ (∀ ts, Toks inp ts [] →
      (strings elems').length ≤ (strings elems).length + pending val p + ordinaries ts) ∧
    (elems.length = maxElems → strings elems' = strings elems)

/-- From the elements, the value and the tokens of the next round. -/
lemma Extends.of_next {elems elems₁ val val₁ p p₁ inp inp' node k}
    (h : Extends elems₁ val₁ p₁ inp' node) (hpre : strings elems <+: strings elems₁)
    (hsame : elems.length = maxElems → elems₁ = elems)
    (hle : (strings elems₁).length + pending val₁ p₁ ≤ (strings elems).length + pending val p + k)
    (hts : ∀ ts, Toks inp ts [] → ∃ ts', Toks inp' ts' [] ∧ ordinaries ts' + k ≤ ordinaries ts) :
    Extends elems val p inp node := by
  obtain ⟨elems', heq, hpre', hcount, hfull⟩ := h
  refine ⟨elems', heq, hpre.trans hpre', fun ts h => ?_, fun hlen => ?_⟩
  · obtain ⟨ts', hts', _⟩ := hts ts h
    have := hcount ts' hts'
    omega
  · rw [hsame hlen] at hfull
    exact hfull hlen

/-- An array stays an array. -/
lemma parseArrayLoop_array : ∀ {n} {elems : List DataNode} {val} {p} {inp}
    {r : Out (Bool × DataNode)},
    parseArrayLoop macros n false (.array elems) val none p inp = .ok r →
    Extends elems val p inp r.1.2
  | n + 1, elems, val, p, inp, r, h => by
    have tok : ∀ {t inp'}, nextTok inp = .ok (some t, inp') → ∀ ts, Toks inp ts [] →
        ∃ ts', Toks inp' ts' [] ∧
          ordinaries ts' + (if Ordinary t then 1 else 0) ≤ ordinaries ts := by
      intro t inp' htok ts hts
      obtain ⟨ts', rfl, hts'⟩ := hts.of_nextTok htok
      exact ⟨ts', hts', by simp [ordinaries, countP_cons]⟩
    have hval : val.isSome.toNat ≤ pending val p := by
      cases val with
      | none => exact Nat.zero_le _
      | some => exact Nat.le_of_eq (if_pos (.inl rfl)).symm
    have hfinal : ∀ {res}, finalizeArrayEntry val none (.array elems) = .ok res →
        ∃ elems₁, strings elems <+: strings elems₁ ∧
          (strings elems₁).length ≤ (strings elems).length + val.isSome.toNat ∧
          (elems.length = maxElems → elems₁ = elems) ∧ res = (.array elems₁, none) := by
      intro res hf
      obtain ⟨elems₁, ⟨rfl, -⟩ | ⟨hroom, v, rfl, rfl⟩, hres⟩ := finalizeArrayEntry_array hf
      · exact ⟨elems₁, prefix_refl _, Nat.le_add_right _ _, fun _ => rfl, hres⟩
      refine ⟨_, ?_, ?_, fun h => absurd h hroom, hres⟩
      · rw [strings_append]
        exact prefix_append _ _
      · rw [strings_append, length_append]
        exact Nat.le_refl _
    cases parseArrayLoop_round h with
    | eof _ hr => exact ⟨elems, by rw [hr], prefix_refl _, fun ts _ => by omega, fun _ => rfl⟩
    | @nested inp' subHash sub ret' htok _ hsub hret' h' =>
      -- the node of the nested array is no string
      have hnone : strings [sub.1.2] = [] := by
        cases subHash with
        | true =>
          obtain ⟨e, he⟩ := parseArrayLoop_hash hsub
          rw [he]
          rfl
        | false =>
          obtain ⟨e, he, -⟩ := parseArrayLoop_array hsub
          rw [he]
          rfl
      obtain ⟨elems₁, rfl, hstr, hsame⟩ : ∃ elems₁, ret' = .array elems₁ ∧
          strings elems₁ = strings elems ∧ (elems.length = maxElems → elems₁ = elems) := by
        unfold addNested at hret'
        split at hret'
        · cases hret'
          exact ⟨elems, rfl, rfl, fun _ => rfl⟩
        rw [if_neg Bool.false_ne_true] at hret'
        obtain ⟨elems₁, heq, h⟩ := arrayAdd_strings elems hnone
        rw [heq] at hret'
        cases hret'
        exact ⟨elems₁, rfl, h⟩
      refine (parseArrayLoop_array h').of_next (k := 0) (hstr ▸ prefix_refl _) hsame ?_
        fun ts hts => ?_
      · have hpend : pending none p ≤ pending val p := by
          unfold pending
          split
          · rename_i hp
            exact Nat.le_of_eq (if_pos (.inr (hp.resolve_left nofun))).symm
          · exact Nat.zero_le _
        rw [hstr]
        omega
      · obtain ⟨ts', rfl, hts'⟩ := hts.of_nextTok htok
        obtain ⟨us, hus, hrest⟩ := parseArrayLoop_toks hsub hts'
        exact ⟨us, hrest, (hus.trans (suffix_cons _ ts')).sublist.countP_le⟩
    | close htok hf hr =>
      obtain ⟨elems₁, hpre, hlen, hsame, ⟨⟩⟩ := hfinal hf
      obtain ⟨elems', hdrop, hstr⟩ := strings_dropNull elems₁
      refine ⟨elems', by rw [hr, hdrop], ?_, fun ts _ => ?_, fun h => ?_⟩
      · rw [hstr]
        exact hpre
      · rw [hstr]
        omega
      · rw [hstr, hsame h]
    | equals _ hash => cases hash
    | comma htok hp hf h' =>
      obtain ⟨elems₁, hpre, hlen, hsame, ⟨⟩⟩ := hfinal hf
      refine (parseArrayLoop_array h').of_next hpre hsame ?_ (tok htok)
      have hzero : pending none p = 0 := by
        refine if_neg ?_
        rintro (h | h)
        · cases h
        · omega
      omega
    | null htok hret' h' =>
      obtain ⟨elems₁, hstr, hsame, rfl⟩ := addNull_strings hret'
      refine (parseArrayLoop_array h').of_next (hstr ▸ prefix_refl _) hsame ?_ (tok htok)
      rw [hstr]
      omega
    | append htok hopen hclose _ hcomma hnull h' =>
      refine (parseArrayLoop_array h').of_next (prefix_refl _) (fun _ => rfl) ?_ (tok htok)
      rw [pending, if_pos (.inl rfl)]
      split_ifs with ho
      · omega
      have hp : 0 < p := by
        by_contra hp
        exact ho ⟨hopen, hclose, fun h => hp (hcomma h), hnull⟩
      rw [pending, if_pos (.inr hp)]

lemma parseArrayLoop_value : ∀ {n} {elems} {v} {p} {inp} {r : Out (Bool × DataNode)} {ts},
    parseArrayLoop macros n false (.array elems) (some v) none p inp = .ok r → Toks inp ts [] →
    ascii "\x7b" ∉ ts → ∃ elems', r.1.2 = .array elems' ∧ (strings elems' = strings elems ∨
      ∃ s more, strings elems' = strings elems ++ s :: more ∧ v <+: s)
  | n + 1, elems, v, p, inp, r, ts, h, hts, hno => by
    have rest : ∀ {t inp'}, nextTok inp = .ok (some t, inp') →
        ∃ ts', Toks inp' ts' [] ∧ ascii "\x7b" ∉ ts' ∧ t ∈ ts := by
      intro t _ htok
      obtain ⟨ts', rfl, hts'⟩ := hts.of_nextTok htok
      exact ⟨ts', hts', fun h => hno (mem_cons_of_mem _ h), mem_cons_self⟩
    cases parseArrayLoop_round h with
    | eof _ hr => exact ⟨elems, by rw [hr], .inl rfl⟩
    | nested htok => exact absurd (rest htok).choose_spec.2.2 hno
    | close htok hf hr =>
      obtain ⟨elems₁, hor, ⟨⟩⟩ := finalizeArrayEntry_array hf
      obtain ⟨elems', hdrop, hstr⟩ := strings_dropNull elems₁
      refine ⟨elems', by rw [hr, hdrop], ?_⟩
      rw [hstr]
      rcases hor with ⟨rfl, -⟩ | ⟨-, _, hv, rfl⟩
      · exact .inl rfl
      · cases hv
        exact .inr ⟨v, [], strings_append _ _, prefix_refl _⟩
    | equals _ hash => cases hash
    | comma htok hp hf h' =>
      obtain ⟨_, hor, ⟨⟩⟩ := finalizeArrayEntry_array hf
      obtain ⟨elems', hr, ⟨more, hmore⟩, -, hfull⟩ := parseArrayLoop_array h'
      refine ⟨elems', hr, ?_⟩
      rcases hor with ⟨rfl, hlen⟩ | ⟨-, _, hv, rfl⟩
      · exact .inl (hfull (hlen.resolve_left nofun))
      cases hv
      refine .inr ⟨v, more, ?_, prefix_refl _⟩
      rw [← hmore, strings_append, append_assoc]
      rfl
    | null htok hret' h' =>
      obtain ⟨_, hstr, -, rfl⟩ := addNull_strings hret'
      obtain ⟨_, hts', hno', -⟩ := rest htok
      rw [← hstr]
      exact parseArrayLoop_value h' hts' hno'
    | append htok _ _ _ _ _ h' =>
      obtain ⟨_, hts', hno', -⟩ := rest htok
      obtain ⟨elems', hr, hor⟩ := parseArrayLoop_value h' hts' hno'
      refine ⟨elems', hr, hor.imp_right ?_⟩
      rintro ⟨s, more, heq, hpre⟩
      exact ⟨s, more, heq, (prefix_append _ _).trans hpre⟩

/-! ### The rounds forward -/

section forward

variable {macros : Macros} {n : Nat} {isHash : Bool} {ret : DataNode}
  {val id : Option (List UInt8)} {p : Int} {inp inp' t : List UInt8}

lemma loop_append (htok : nextTok inp = .ok (some t, inp')) (ht : Ordinary t)
    (heq : ¬ (isHash ∧ t = ascii "=" ∧ id = none)) :
    parseArrayLoop macros (n + 1) isHash ret val id p inp =
      parseArrayLoop macros n isHash ret (some (strAppend val (tryApplyMacro macros t))) id
        (p + parens t) inp' := by
  rw [parseArrayLoop, htok, ok_bind]
  dsimp only
  rw [if_neg ht.notOpen, if_neg ht.notClose, if_neg heq, if_neg (fun h => ht.notComma h.1),
    if_neg ht.notNull, parens_eq]

section

variable (htok : nextTok inp = .ok (some (ascii ","), inp'))

include htok

lemma loop_comma (hp : p ≤ 0) : parseArrayLoop macros (n + 1) isHash ret val id p inp =
      (finalizeArrayEntry val id ret >>= fun f =>
        parseArrayLoop macros n isHash f.1 none f.2 p inp') := by
  rw [parseArrayLoop, htok, ok_bind]
  dsimp only
  rw [if_neg (by decide), if_neg (by decide), if_neg (fun h => absurd h.2.1 (by decide)),
    if_pos ⟨rfl, hp⟩]

lemma loop_comma_append (hp : 0 < p) :
    parseArrayLoop macros (n + 1) isHash ret val id p inp = parseArrayLoop macros n isHash ret
        (some (strAppend val (tryApplyMacro macros (ascii ",")))) id p inp' := by
  rw [parseArrayLoop, htok, ok_bind]
  dsimp only
  rw [if_neg (by decide), if_neg (by decide), if_neg (fun h => absurd h.2.1 (by decide)),
    if_neg (fun h => by omega), if_neg (by decide), if_neg (by decide), if_neg (by decide)]

end

lemma loop_close (htok : nextTok inp = .ok (some (ascii "\x7d"), inp')) :
    parseArrayLoop macros (n + 1) isHash ret val id p inp =
      (finalizeArrayEntry val id ret >>= fun f => .ok ((true, dropNull isHash f.1), inp')) := by
  rw [parseArrayLoop, htok, ok_bind]
  dsimp only
  rw [if_neg (by decide), if_pos rfl]

lemma loop_null (htok : nextTok inp = .ok (some (ascii "NULL"), inp')) :
    parseArrayLoop macros (n + 1) isHash ret val id p inp = (addNull isHash ret id >>= fun ret' =>
        parseArrayLoop macros n isHash ret' val id p inp') := by
  rw [parseArrayLoop, htok, ok_bind]
  dsimp only
  rw [if_neg (by decide), if_neg (by decide), if_neg (fun h => absurd h.2.1 (by decide)),
    if_neg (fun h => absurd h.1 (by decide)), if_pos rfl]

lemma loop_equals (htok : nextTok inp = .ok (some (ascii "="), inp')) :
    parseArrayLoop macros (n + 1) true ret val none p inp =
      parseArrayLoop macros n true ret none val p inp' := by
  rw [parseArrayLoop, htok, ok_bind]
  dsimp only
  rw [if_neg (by decide), if_neg (by decide), if_pos ⟨rfl, rfl, rfl⟩]

lemma loop_nested (htok : nextTok inp = .ok (some (ascii "\x7b"), inp')) :
    parseArrayLoop macros (n + 1) isHash ret val id p inp = (arrayIsHash inp' >>= fun subHash =>
        parseArrayLoop macros n subHash (emptyNode subHash) none none 0 inp' >>= fun sub =>
          addNested isHash ret id sub.1.2 >>= fun ret' =>
            parseArrayLoop macros n isHash ret' none none p sub.2) := by
  rw [parseArrayLoop, htok, ok_bind]
  dsimp only
  rw [if_pos rfl]

end forward

/-! ## §2 Lists of entries -/

/-- Entries behind the opening brace, with commas between them, perhaps one behind the last, and the
closing brace. -/
def listing {α : Type} (sep close : α) : List α → Bool → List α
  | [], _ => [close]
  | [e], comma => if comma then [e, sep, close] else [e, close]
  | e :: e' :: es, comma => e :: sep :: listing sep close (e' :: es) comma

lemma listing_map {β} (f : α → β) (sep close : α) : ∀ (es : List α) comma,
    (listing sep close es comma).map f = listing (f sep) (f close) (es.map f) comma
  | [], _ => rfl
  | [e], comma => by cases comma <;> rfl
  | e :: e' :: es, comma => by
    rw [listing, map_cons, map_cons, listing_map f sep close (e' :: es) comma]
    rfl

lemma listing_cons (sep close e : α) (es : List α) (comma : Bool) :
    listing sep close (e :: es) comma =
      e :: (if es ≠ [] ∨ comma = true then sep :: listing sep close es comma else [close]) := by
  cases es with
  | nil => cases comma <;> rfl
  | cons => rfl

lemma mem_listing {sep close x : α} : ∀ {es} {comma},
    x ∈ listing sep close es comma → x = sep ∨ x = close ∨ x ∈ es
  | [], _, h => .inr (.inl (mem_singleton.1 h))
  | e :: es, comma, h => by
    rw [listing_cons, mem_cons] at h
    rcases h with rfl | h
    · exact .inr (.inr mem_cons_self)
    split at h
    · rcases mem_cons.1 h with rfl | h
      · exact .inl rfl
      rcases mem_listing h with h | h | h
      · exact .inl h
      · exact .inr (.inl h)
      · exact .inr (.inr (mem_cons_of_mem _ h))
    · exact .inr (.inl (mem_singleton.1 h))

/-- The tokens of a list of one-token entries. -/
abbrev listToks (es : List (List UInt8)) (comma : Bool) : List (List UInt8) :=
  listing (ascii ",") (ascii "\x7d") es comma

/-! ### The look-ahead -/

section lookahead

variable {n : Nat} {elemSeen commaLast inId : Bool} {inp inp' t : List UInt8}

lemma isHash_close (htok : nextTok inp = .ok (some (ascii "\x7d"), inp')) :
    arrayIsHashLoop (n + 1) elemSeen commaLast inId inp =
      .ok (elemSeen && !(inId && !commaLast)) := by
  rw [arrayIsHashLoop, htok, ok_bind]
  dsimp only
  rw [if_pos rfl]

lemma isHash_comma (htok : nextTok inp = .ok (some (ascii ","), inp')) :
    arrayIsHashLoop (n + 1) elemSeen commaLast inId inp =
      if inId then .ok false else arrayIsHashLoop n true true true inp' := by
  rw [arrayIsHashLoop, htok, ok_bind]
  dsimp only
  rw [if_neg (by decide), if_neg (by decide), if_pos rfl]

lemma isHash_equals (htok : nextTok inp = .ok (some (ascii "="), inp')) :
    arrayIsHashLoop (n + 1) elemSeen commaLast inId inp =
      arrayIsHashLoop n true commaLast false inp' := by
  rw [arrayIsHashLoop, htok, ok_bind]
  dsimp only
  rw [if_neg (by decide), if_neg (by decide), if_neg (by decide), if_pos rfl]

lemma isHash_other (htok : nextTok inp = .ok (some t, inp')) (hopen : t ≠ ascii "\x7b")
    (hclose : t ≠ ascii "\x7d") (hcomma : t ≠ ascii ",") (heq : t ≠ ascii "=") :
    arrayIsHashLoop (n + 1) elemSeen commaLast inId inp =
      arrayIsHashLoop n true false inId inp' := by
  rw [arrayIsHashLoop, htok, ok_bind]
  dsimp only
  rw [if_neg hclose, if_neg hopen, if_neg hcomma, if_neg heq]

end lookahead

/-- A list of literals is no hash. -/
lemma arrayIsHashLoop_listing {rest} : ∀ es n elemSeen commaLast (inp : List UInt8),
    es ≠ [] → (∀ e ∈ es, e ≠ ascii "\x7b" ∧ e ≠ ascii "\x7d" ∧ e ≠ ascii ",") → inp.length < n →
    Toks inp (listToks es comma) rest →
    arrayIsHashLoop n elemSeen commaLast true inp = .ok (decide (∀ e ∈ es, e = ascii "="))
  | e :: es, n, elemSeen, commaLast, inp, _, hes, hn, hts => by
    rw [listToks, listing_cons] at hts
    obtain ⟨_, htok, hts₁, hlt⟩ := hts.uncons
    obtain ⟨⟨hopen, hclose, hcomma⟩, hes₁⟩ := forall_mem_cons.1 hes
    rcases n with _ | n
    · omega
    by_cases heq : e = ascii "="
    · subst heq
      rw [isHash_equals htok]
      split_ifs at hts₁ with hmore
      · obtain ⟨inp₂, htok₂, hts₂, hlt₂⟩ := hts₁.uncons
        rcases n with _ | n
        · omega
        rw [isHash_comma htok₂, if_neg Bool.false_ne_true]
        by_cases hnil : es = []
        · subst hnil
          obtain ⟨_, htok₃, -, -⟩ := hts₂.uncons
          rcases n with _ | n
          · omega
          rw [isHash_close htok₃]
          simp
        · rw [arrayIsHashLoop_listing es n true true inp₂ hnil hes₁ (by omega) hts₂]
          simp
      · obtain ⟨inp₂, htok₂, -, hlt₂⟩ := hts₁.uncons
        rcases n with _ | n
        · omega
        rw [isHash_close htok₂]
        simp [not_not.1 (not_or.1 hmore).1]
    · have hfalse : decide (∀ x ∈ e :: es, x = ascii "=") = false := by
        simp [heq]
      rw [isHash_other htok hopen hclose hcomma heq, hfalse]
      split at hts₁
      · obtain ⟨inp₂, htok₂, -, hlt₂⟩ := hts₁.uncons
        rcases n with _ | n
        · omega
        rw [isHash_comma htok₂, if_pos rfl]
      obtain ⟨inp₂, htok₂, -, hlt₂⟩ := hts₁.uncons
      rcases n with _ | n
      · omega
      rw [isHash_close htok₂]
      rfl

/-! ## §3 Arrays of literals -/

/-- Macros and parentheses at each comma; `more` if something follows the last literal. -/
def Unchanged (macros : Macros) (more : Bool) : Int → List (List UInt8) → Prop
  | _, [] => True
  | p, c :: lits => tryApplyMacro macros c = c ∧ (lits ≠ [] ∨ more = true → p + parens c ≤ 0) ∧
      Unchanged macros more (p + parens c) lits

def nullEntry (null : Bool) : List (List UInt8) := if null then [ascii "NULL"] else []

section literals

variable {macros : Macros} {null comma : Bool} {rest : List UInt8}

/-- The array of some strings. -/
abbrev stringArray (l : List (List UInt8)) : DataNode := .array (l.map .string)

lemma dropNull_stringArray : dropNull false (stringArray l) = stringArray l := by
  rw [dropNull, if_neg Bool.false_ne_true, dataNodeArrayLast, getLast?_map]
  cases l.getLast? <;> rfl

lemma dropNull_null : dropNull false (dataNodeArrayAdd (stringArray l) .null) = stringArray l := by
  rw [dataNodeArrayAdd]
  split
  · exact dropNull_stringArray l
  · rw [dropNull, if_neg Bool.false_ne_true, dataNodeArrayLast, getLast?_concat]
    rw [dataNodeArrayLastRem, dropLast_concat]

lemma arrayAdd_stringArray {l : List (List UInt8)} (h : l.length < maxElems) (v : List UInt8) :
    dataNodeArrayAdd (stringArray l) (.string v) = stringArray (l ++ [v]) := by
  rw [dataNodeArrayAdd, if_neg (by rw [length_map]; omega)]
  simp

lemma loop_end {n p} (hp : p ≤ 0) (done : List (List UInt8)) {inp : List UInt8}
    (hn : inp.length < n) (hts : Toks inp (listToks (nullEntry null) comma) rest) :
    parseArrayLoop macros n false (stringArray done) none none p inp =
      .ok ((true, stringArray done), rest) := by
  have close : ∀ {n inp ret}, inp.length < n → Toks inp [ascii "\x7d"] rest →
      parseArrayLoop macros n false ret none none p inp =
        .ok ((true, dropNull false ret), rest) := by
    intro n _ _ hn hts
    obtain ⟨_, htok, hts₁, _⟩ := hts.uncons
    rcases n with _ | n
    · omega
    cases hts₁
    rw [loop_close htok]
    rfl
  cases null with
  | false => rw [close hn hts, dropNull_stringArray]
  | true =>
    rw [nullEntry, if_pos rfl, listToks, listing_cons] at hts
    obtain ⟨_, htok, hts₁, _⟩ := hts.uncons
    rcases n with _ | n
    · omega
    rw [loop_null htok, addNull, if_neg Bool.false_ne_true, ok_bind]
    split at hts₁
    · obtain ⟨_, htok₂, hts₂, _⟩ := hts₁.uncons
      rcases n with _ | n
      · omega
      rw [loop_comma htok₂ hp, finalizeArrayEntry, ok_bind, close (by omega) hts₂, dropNull_null]
    · rw [close (by omega) hts₁, dropNull_null]

lemma eq_open_of_parens {c p} (hp : p ≤ 0) (h : 0 < p + parens c) : c = ascii "(" := by
  unfold parens at h
  split at h
  · assumption
  · split at h <;> omega

lemma nullEntry_ordinary {x} (h : x ∈ nullEntry null) : x = ascii "NULL" := by
  unfold nullEntry at h
  split at h
  · exact mem_singleton.1 h
  · exact absurd h not_mem_nil

lemma open_not_mem (hlits : ∀ c ∈ lits, Ordinary c) :
    ascii "\x7b" ∉ listToks (lits ++ nullEntry null) comma := by
  intro h
  rcases mem_listing h with h | h | h
  · exact absurd h (by decide)
  · exact absurd h (by decide)
  rcases mem_append.1 h with h | h
  · exact (hlits _ h).notOpen rfl
  · exact absurd (nullEntry_ordinary h) (by decide)

/-- The literals are the elements exactly if no macro and no parenthesis changes them. (What follows
does not matter for the one half, and nothing follows in the other.) -/
lemma literals_loop (hcomma : tryApplyMacro macros (ascii ",") = ascii ",") :
    ∀ (lits done : List (List UInt8)) p n (inp : List UInt8),
    (∀ c ∈ lits, Ordinary c) → done.length + lits.length ≤ maxElems → p ≤ 0 → inp.length < n →
    Toks inp (listToks (lits ++ nullEntry null) comma) rest →
    (Unchanged macros (null || comma) p lits →
      parseArrayLoop macros n false (stringArray done) none none p inp =
        .ok ((true, stringArray (done ++ lits)), rest)) ∧
    (rest = [] → parseArrayLoop macros n false (stringArray done) none none p inp =
        .ok ((true, stringArray (done ++ lits)), rest) → Unchanged macros (null || comma) p lits)
  | [], done, p, n, inp, _, _, hp, hn, hts => by
    refine ⟨fun _ => ?_, fun _ _ => trivial⟩
    rw [append_nil]
    exact loop_end hp done hn hts
  | c :: lits, done, p, n, inp, hlits, hlen, hp, hn, hts => by
    obtain ⟨hc, hlits₁⟩ := forall_mem_cons.1 hlits
    rw [length_cons] at hlen
    rw [cons_append, listToks, listing_cons] at hts
    obtain ⟨_, htok, hts₁, hlt⟩ := hts.uncons
    rcases n with _ | n
    · omega
    rw [loop_append htok hc (fun h => Bool.false_ne_true h.1), Unchanged]
    -- whether a comma follows
    have hmore : (lits ++ nullEntry null ≠ [] ∨ comma) ↔ (lits ≠ [] ∨ (null || comma)) := by
      cases null <;> simp [nullEntry]
    have hval : strAppend none (tryApplyMacro macros c) = tryApplyMacro macros c := rfl
    rw [hval]
    split_ifs at hts₁ with hfollow
    · rw [hmore] at hfollow
      obtain ⟨inp₂, htok₂, hts₂, hlt₂⟩ := hts₁.uncons
      rcases n with _ | n
      · omega
      by_cases hp' : p + parens c ≤ 0
      · rw [loop_comma htok₂ hp', finalizeArrayEntry, ok_bind, arrayAdd_stringArray (by omega)]
        have ih := literals_loop hcomma lits (done ++ [tryApplyMacro macros c]) (p + parens c) n
          inp₂
          hlits₁ (by rw [length_append, length_singleton]; omega) hp' (by omega) hts₂
        refine ⟨fun ⟨happly, _, hrest⟩ => ?_, fun hnil h => ?_⟩
        · rw [ih.1 hrest, happly, append_assoc, singleton_append]
        obtain ⟨elems', hr, ⟨more, hpre⟩, -⟩ := parseArrayLoop_array h
        injection hr with hr
        rw [← hr, strings_map, strings_map, append_assoc, append_cancel_left_eq,
          singleton_append, cons.injEq] at hpre
        refine ⟨hpre.1, fun _ => hp', ih.2 hnil ?_⟩
        rw [h, hpre.1, append_assoc, singleton_append]
      · -- the comma is part of the value, which has become too long
        refine ⟨fun h => absurd (h.2.1 hfollow) hp', fun hnil h => ?_⟩
        subst hnil
        rw [loop_comma_append htok₂ (by omega), hcomma] at h
        obtain ⟨elems', hr, hor⟩ := parseArrayLoop_value h hts₂ (open_not_mem hlits₁)
        injection hr with hr
        rw [← hr, strings_map, strings_map] at hor
        exfalso
        rcases hor with heq | ⟨s, more, heq, hpre⟩
        · have := congrArg length heq
          simp at this
        rw [append_cancel_left_eq, cons.injEq] at heq
        have hopen : c = ascii "(" := eq_open_of_parens hp (by omega)
        rw [← heq.1, hopen] at hpre
        cases hm : tryApplyMacro macros (ascii "(") with rw [hm] at hpre
        | nil =>
          exact absurd hpre (by decide)
        | cons =>
          have := hpre.length_le
          simp [strAppend, ascii] at this
    · rw [hmore] at hfollow
      obtain ⟨rfl, -⟩ : lits = [] ∧ (null || comma) = false := by simpa using hfollow
      obtain ⟨inp₂, htok₂, hts₂, hlt₂⟩ := hts₁.uncons
      rcases n with _ | n
      · omega
      cases hts₂
      rw [loop_close htok₂, finalizeArrayEntry, ok_bind, arrayAdd_stringArray (by omega),
        dropNull_stringArray]
      refine ⟨fun h => by rw [h.1], fun _ h => ⟨?_, fun h => absurd h hfollow, trivial⟩⟩
      injection h with h
      have := congrArg (fun x => x.1.2) h
      injection this with this
      have := congrArg strings this
      rw [strings_map, strings_map, append_cancel_left_eq] at this
      exact (cons.inj this).1

end literals

/-- When the literals come out as they are written. -/
lemma unchanged_iff (macros : Macros) (more : Bool) : ∀ lits p,
    Unchanged macros more p lits ↔ (∀ c ∈ lits, tryApplyMacro macros c = c) ∧
      ∀ pre c post, lits = pre ++ c :: post → (post ≠ [] ∨ more) →
        p + ((pre ++ [c]).map parens).sum ≤ 0
  | [], p => by simp [Unchanged]
  | c :: lits, p => by
    rw [Unchanged, unchanged_iff macros more lits (p + parens c)]
    constructor
    · rintro ⟨hc, hp, happly, hbal⟩
      refine ⟨forall_mem_cons.2 ⟨hc, happly⟩, fun pre d post heq hmore => ?_⟩
      cases pre with
      | nil =>
        rw [nil_append, cons.injEq] at heq
        obtain ⟨rfl, rfl⟩ := heq
        simpa using hp hmore
      | cons e pre =>
        rw [cons_append, cons.injEq] at heq
        obtain ⟨rfl, rfl⟩ := heq
        have := hbal pre d post rfl hmore
        rw [cons_append, map_cons, sum_cons]
        omega
    · rintro ⟨happly, hbal⟩
      obtain ⟨hc, happly⟩ := forall_mem_cons.1 happly
      refine ⟨hc, fun hmore => ?_, happly, fun pre d post heq hmore => ?_⟩
      · simpa using hbal [] c lits rfl hmore
      have := hbal (c :: pre) d post (by rw [heq, cons_append]) hmore
      rw [cons_append, map_cons, sum_cons] at this
      omega

/-- An array of literals behind its opening brace, perhaps with a `NULL` and a trailing comma. -/
def literalArray (lits : List (List UInt8)) (null comma : Bool) : List Lexeme :=
  listing (.punct (asc ',')) (.punct (asc '\x7d'))
    (lits.map .literal ++ if null then [.word (ascii "NULL")] else []) comma

/-- The literals that the parser does not take for something else. -/
structure LiteralsOk (macros : Macros) (lits : List (List UInt8)) (null comma : Bool) : Prop where
  /-- none of them is a brace, a comma or `NULL` -/
  ordinary : ∀ c ∈ lits, Ordinary c
  /-- no macro has the name of one, or its value is the name -/
  noMacro : ∀ c ∈ lits, tryApplyMacro macros c = c
  /-- where a comma follows, there are no more `(` than `)` among them -/
  balanced : ∀ pre c post, lits = pre ++ c :: post → (post ≠ [] ∨ (null || comma) = true) →
    ((pre ++ [c]).map parens).sum ≤ 0
  /-- they are not all `=` -/
  notHash : lits = [] ∨ null = true ∨ ∃ c ∈ lits, c ≠ ascii "="

lemma literalArray_toks {text} (hsrc : Source (literalArray lits null comma) text)
    (rest : List UInt8) : Toks (text ++ rest) (listToks (lits ++ nullEntry null) comma) rest := by
  have hentries : (lits.map Lexeme.literal ++
      if null then [Lexeme.word (ascii "NULL")] else []).map (·.token) =
        lits ++ nullEntry null := by
    rw [map_append, map_map]
    congr 1
    · exact map_id lits
    · cases null <;> rfl
  have := hsrc.toks rest
  rw [literalArray, listing_map, hentries] at this
  exact this

lemma ordinaries_listing (comma : Bool) : ∀ es : List (List UInt8),
    ordinaries (listToks es comma) = ordinaries es
  | [] => rfl
  | e :: es => by
    rw [listToks, listing_cons, ordinaries, ordinaries, countP_cons, countP_cons]
    congr 1
    split
    · rw [countP_cons_of_neg (by decide)]
      exact ordinaries_listing comma es
    rename_i h
    rw [not_not.1 (not_or.1 h).1]
    rfl

lemma ordinaries_null (lits : List (List UInt8)) (null : Bool) :
    ordinaries (lits ++ nullEntry null) = ordinaries lits := by
  rw [ordinaries, countP_append]
  cases null <;> rfl

lemma arrayIsHash_literals {inp rest} (hlits : ∀ c ∈ lits, Ordinary c)
    (hts : Toks inp (listToks (lits ++ nullEntry null) comma) rest) :
    arrayIsHash inp = .ok false ↔ lits = [] ∨ null ∨ ∃ c ∈ lits, c ≠ ascii "=" := by
  by_cases hnil : lits ++ nullEntry null = []
  · rw [hnil] at hts
    obtain ⟨_, htok, -, -⟩ := hts.uncons
    rw [arrayIsHash, isHash_close htok]
    exact iff_of_true rfl (.inl (append_eq_nil_iff.1 hnil).1)
  have hes : ∀ e ∈ lits ++ nullEntry null,
      e ≠ ascii "\x7b" ∧ e ≠ ascii "\x7d" ∧ e ≠ ascii "," := by
    intro e he
    rcases mem_append.1 he with h | h
    · exact ⟨(hlits e h).notOpen, (hlits e h).notClose, (hlits e h).notComma⟩
    · rw [nullEntry_ordinary h]
      decide
  rw [arrayIsHash, arrayIsHashLoop_listing _ _ _ _ inp hnil hes (Nat.lt_succ_self _) hts,
    Except.ok.injEq, decide_eq_false_iff_not]
  cases null with
  | true =>
    refine iff_of_true (fun h => ?_) (.inr (.inl rfl))
    exact absurd (h (ascii "NULL") (by simp [nullEntry])) (by decide)
  | false =>
    simp only [nullEntry, Bool.false_eq_true, if_false, append_nil] at hnil ⊢
    simp [hnil]

/-- **Arrays of literals.** At most 100 literals that the lexer reads right become the array of
their contents, whatever follows, exactly if the contents are not taken for something else. -/
theorem parseArray_literals_iff (macros : Macros) (hnames : ∀ m ∈ macros, m.1 ≠ ascii ",")
    (lits : List (List UInt8)) (hlen : lits.length ≤ 100) (null comma : Bool) (text : List UInt8)
    (hsrc : Source (literalArray lits null comma) text) :
    (∀ rest, parseArray macros (text ++ rest) =
      .ok ((true, .array (lits.map .string)), rest)) ↔ LiteralsOk macros lits null comma := by
  have hcomma : tryApplyMacro macros (ascii ",") = ascii "," := by
    rw [tryApplyMacro, lookup_eq_none_iff.2, Option.getD_none]
    intro m hm
    simpa using (hnames m hm).symm
  constructor
  · intro hall
    have hts := literalArray_toks hsrc []
    obtain ⟨isHash, hhash, h⟩ := bind_eq_ok (hall [])
    cases isHash with
    | true =>
      obtain ⟨_, helems⟩ := parseArrayLoop_hash h
      cases helems
    | false =>
      -- one string for each literal, so that none is special
      have hord : ∀ c ∈ lits, Ordinary c := by
        obtain ⟨_, hr, -, hcount, -⟩ := parseArrayLoop_array h
        injection hr with hr
        have hle := hcount _ hts
        rw [← hr, strings_map] at hle
        by_contra hno
        have hlt : ordinaries lits < lits.length := by
          refine Nat.lt_of_le_of_ne countP_le_length fun heq => hno fun c hc => ?_
          exact of_decide_eq_true (countP_eq_length.1 heq c hc)
        rw [ordinaries_listing, ordinaries_null] at hle
        change lits.length ≤ 0 + 0 + ordinaries lits at hle
        omega
      have hloop := (literals_loop hcomma lits [] 0 _ _ hord
        (by rw [length_nil, Nat.zero_add]; exact hlen) (Int.le_refl 0) (Nat.lt_succ_self _) hts).2
          rfl h
      rw [unchanged_iff] at hloop
      refine ⟨hord, hloop.1, fun pre c post heq hmore => ?_,
        (arrayIsHash_literals hord hts).1 hhash⟩
      simpa using hloop.2 pre c post heq hmore
  · intro hok rest
    have hts := literalArray_toks hsrc rest
    rw [parseArray, (arrayIsHash_literals hok.ordinary hts).2 hok.notHash, ok_bind]
    refine (literals_loop hcomma lits [] 0 _ _ hok.ordinary
      (by rw [length_nil, Nat.zero_add]; exact hlen) (Int.le_refl 0) (Nat.lt_succ_self _) hts).1 ?_
    rw [unchanged_iff]
    refine ⟨hok.noMacro, fun pre c post heq hmore => ?_⟩
    simpa using hok.balanced pre c post heq hmore

theorem parseArray_literals_iff_two :
    parseArray [] (ascii "\"a\", \"b c\", NULL\x7d" ++ ascii ";") =
      .ok ((true, .array [.string (ascii "a"), .string (ascii "b c")]), ascii ";") := by
  have hlit : ∀ s ∈ [ascii "a", ascii "b c"], PlainLiteral s := by
    intro s hs
    rcases mem_pair.1 hs with rfl | rfl <;>
      exact plainLiteral_of_not_mem (by decide) (by decide) (by decide) (by decide)
  have hname : IsName (ascii "NULL") := ⟨by decide, all_eq_true.1 rfl, by decide⟩
  have hblank : Gap (ascii " ") := .space rfl .nil
  have hsrc : Source (literalArray [ascii "a", ascii "b c"] true false)
      (ascii "\"a\", \"b c\", NULL\x7d") :=
    .literal .nil (hlit _ (by decide)) (.punct .nil rfl (.literal hblank (hlit _ (by decide))
      (.punct .nil rfl (.word hblank hname .nil rfl .nil))))
  refine (parseArray_literals_iff [] nofun [ascii "a", ascii "b c"] (by decide) true false _ hsrc).2
    ⟨by decide, by decide, ?_, .inr (.inl rfl)⟩ (ascii ";")
  intro pre c _ heq _
  have hzero : ∀ d ∈ pre ++ [c], parens d = 0 := by
    intro d hd
    have hmem : d ∈ [ascii "a", ascii "b c"] := by
      rw [heq]
      rcases mem_append.1 hd with h | h
      · exact mem_append_left _ h
      · rw [mem_singleton.1 h]
        simp
    rcases mem_pair.1 hmem with rfl | rfl <;> rfl
  exact Int.le_of_eq (sum_eq_zero fun n hn => by
    obtain ⟨d, hd, rfl⟩ := mem_map.1 hn
    exact hzero d hd)

/-- A literal that spells `NULL`, and one that spells a brace. -/
theorem parseArray_spelled_null : parseArray [] (ascii "\"a\", \"NULL\", \"b\"\x7d") =
        .ok ((true, .array [.string (ascii "a"), .null, .string (ascii "b")]), []) ∧
      parseArray [] (ascii "\"\x7d\", \"b\"\x7d") = .ok ((true, .array []), ascii ", \"b\"\x7d") :=
  ⟨rfl, rfl⟩

end LtpDdt.Metaparse
