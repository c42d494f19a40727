/-
Metaparse.HashTheorems — what `parse_array` makes of designated entries.

§1: a run of the loop does not depend on its bound, and the look-ahead of
`array_is_hash` skips what the loop reads. §2 follows both over one entry, and
`parseArray_designated` over all of them.
-/
import LtpDdt.Metaparse.ArrayTheorems

namespace LtpDdt.Metaparse

open DataStorage List
open CTypes (asc ascii ok_bind bind_eq_ok)

variable {macros : Macros} {inp : List UInt8} {elemSeen commaLast : Bool}

/-! ## §1 Nested lists -/

/-- More fuel gives the same result. -/
lemma parseArrayLoop_mono : ∀ {n m} {isHash} {ret} {val id} {p} {inp} {r},
    parseArrayLoop macros n isHash ret val id p inp = .ok r → n ≤ m →
    parseArrayLoop macros m isHash ret val id p inp = .ok r
  | n + 1, m, isHash, ret, val, id, p, inp, r, h, hle => by
    rcases m with _ | m
    · omega
    have hle : n ≤ m := by omega
    cases parseArrayLoop_round h with
    | eof htok hr => rw [parseArrayLoop, htok, ok_bind, hr]
    | nested htok hhash hsub hret' h' =>
      rw [loop_nested htok, hhash, ok_bind, parseArrayLoop_mono hsub hle, ok_bind, hret']
      exact parseArrayLoop_mono h' hle
    | close htok hf hr => rw [loop_close htok, hf, ok_bind, hr]
    | equals htok hhash hid h' =>
      subst hhash hid
      rw [loop_equals htok]
      exact parseArrayLoop_mono h' hle
    | comma htok hp hf h' =>
      rw [loop_comma htok hp, hf]
      exact parseArrayLoop_mono h' hle
    | null htok hret' h' =>
      rw [loop_null htok, hret']
      exact parseArrayLoop_mono h' hle
    | @append t _ htok hopen hclose hequals hcomma hnull h' =>
      by_cases ht : t = ascii ","
      · subst ht
        rw [loop_comma_append htok (hcomma rfl)]
        refine parseArrayLoop_mono ?_ hle
        rw [← h']
        rw [show parens (ascii ",") = 0 from rfl, Int.add_zero]
      · rw [loop_append htok ⟨hopen, hclose, ht, hnull⟩ hequals]
        exact parseArrayLoop_mono h' hle

variable {rest t g' : List UInt8} {e : List UInt8 × DataNode}

lemma nextTok_none (h : nextTok inp = .ok (none, rest)) : rest = [] := by
  obtain ⟨⟨_, _, _⟩, hr, heq⟩ := bind_eq_ok h
  injection heq with heq
  obtain ⟨rfl, rfl⟩ := Prod.mk.inj heq
  exact (nextToken2_rest (by decide) hr).2.2 rfl

lemma parseArrayLoop_nil {n isHash ret val id p} {r : Out (Bool × DataNode)}
    (h : parseArrayLoop macros n isHash ret val id p [] = .ok r) : r.1.1 = false := by
  cases n with
  | zero => cases h
  | succ =>
    cases h
    rfl

lemma parseArrayLoop_unclosed : ∀ {n} {isHash} {ret} {val id} {p} {inp} {r : Out (Bool × DataNode)},
    parseArrayLoop macros n isHash ret val id p inp = .ok r → r.1.1 = false → r.2 = []
  | n + 1, isHash, ret, val, id, p, inp, r, h, hfalse => by
    cases parseArrayLoop_round h with
    | eof htok hr => rw [hr, nextTok_none htok]
    | close _ _ hr =>
      rw [hr] at hfalse
      cases hfalse
    | nested _ _ _ _ h' | equals _ _ _ h' | comma _ _ _ h' | null _ _ h'
    | append _ _ _ _ _ _ h' => exact parseArrayLoop_unclosed h' hfalse

section skip

variable {n level : Nat} {inp inp' t : List UInt8}

lemma skip_open (htok : nextTok inp = .ok (some (ascii "\x7b"), inp')) :
    skipNested (n + 1) (level + 1) inp = skipNested n (level + 2) inp' := by
  rw [skipNested, htok]
  rfl

lemma skip_close (htok : nextTok inp = .ok (some (ascii "\x7d"), inp')) :
    skipNested (n + 1) (level + 1) inp =
      if level = 0 then .ok (some inp') else skipNested n level inp' := by
  rw [skipNested, htok]
  rfl

lemma skip_other (htok : nextTok inp = .ok (some t, inp')) (hopen : t ≠ ascii "\x7b")
    (hclose : t ≠ ascii "\x7d") :
    skipNested (n + 1) (level + 1) inp = skipNested n (level + 1) inp' := by
  rw [skipNested, htok, ok_bind]
  dsimp only
  rw [if_neg hclose, if_neg hopen, if_neg (Nat.succ_ne_zero level)]

end skip

/-- The look-ahead skips what the parser reads. -/
lemma skipNested_eq : ∀ {n} {isHash} {ret} {val id} {p} {inp : List UInt8}
    {r : Out (Bool × DataNode)},
    parseArrayLoop macros n isHash ret val id p inp = .ok r → r.1.1 →
    ∀ {k} level, inp.length < k → ∃ k', r.2.length < k' ∧
      skipNested k (level + 1) inp = if level = 0 then .ok (some r.2) else skipNested k' level r.2
  | n + 1, isHash, ret, val, id, p, inp, r, h, htrue, k, level, hk => by
    rcases k with _ | k
    · omega
    have next : ∀ {t inp' isHash ret val id p}, nextTok inp = .ok (some t, inp') →
        t ≠ ascii "\x7b" → t ≠ ascii "\x7d" →
        parseArrayLoop macros n isHash ret val id p inp' = .ok r →
        ∃ k', r.2.length < k' ∧ skipNested (k + 1) (level + 1) inp =
          if level = 0 then .ok (some r.2) else skipNested k' level r.2 := by
      intro t inp' _ _ _ _ p htok hopen hclose h'
      have hlt := nextTok_lt htok
      rw [skip_other htok hopen hclose]
      exact skipNested_eq h' htrue level (by omega)
    cases parseArrayLoop_round h with
    | eof _ hr =>
      rw [hr] at htrue
      cases htrue
    | @nested inp' _ sub _ htok _ hsub _ h' =>
      have hlt := nextTok_lt htok
      have hclosed : sub.1.1 := by
        cases hsub' : sub.1.1 with
        | true => rfl
        | false =>
          rw [parseArrayLoop_unclosed hsub hsub'] at h'
          rw [parseArrayLoop_nil h'] at htrue
          cases htrue
      obtain ⟨j, hj, heq⟩ := skipNested_eq hsub hclosed (level + 1) (show inp'.length < k by omega)
      obtain ⟨k', hk', heq'⟩ := skipNested_eq h' htrue level hj
      refine ⟨k', hk', ?_⟩
      rw [skip_open htok, heq, if_neg (Nat.succ_ne_zero level), heq']
    | close htok _ hr =>
      have hlt := nextTok_lt htok
      rw [hr]
      exact ⟨k, by dsimp only; omega, skip_close htok⟩
    | equals htok _ _ h' | comma htok _ _ h'
    | null htok _ h' => exact next htok (by decide) (by decide) h'
    | append htok hopen hclose _ _ _ h' => exact next htok hopen hclose h'

/-! ## §2 Designated entries -/

/-- Neither a brace, a comma, an opening parenthesis, `NULL` nor a macro. -/
structure AsValue (macros : Macros) (t : List UInt8) : Prop where
  ordinary : Ordinary t
  notParen : t ≠ ascii "("
  noMacro : tryApplyMacro macros t = t

/-- A literal, a number, an identifier, or a list in braces; `body` follows the opening one. -/
inductive IsValue (macros : Macros) : DataNode → List UInt8 → Prop where
  | literal {g s} : Gap g → PlainLiteral s → AsValue macros s →
      IsValue macros (.string s) (g ++ asc '"' :: (s ++ [asc '"']))
  | word {g w} : Gap g → IsName w → AsValue macros w → IsValue macros (.string w) (g ++ w)
  | nested {g body node} : Gap g →
      (∀ rest, parseArray macros (body ++ rest) = .ok ((true, node), rest)) →
      IsValue macros node (g ++ asc '\x7b' :: body)

/-- The text of an entry `.id = value`. -/
inductive IsEntry (macros : Macros) : List UInt8 × DataNode → List UInt8 → Prop where
  | mk {g id g' node v} : Gap g → IsName (asc '.' :: id) → Gap g' → IsValue macros node v →
      IsEntry macros (id, node) (g ++ (asc '.' :: id ++ (g' ++ asc '=' :: v)))

/-- Entries from behind the opening brace to the closing one, perhaps with a trailing comma. -/
inductive Designated (macros : Macros) : List (List UInt8 × DataNode) → List UInt8 → Prop where
  | last {e t g} : IsEntry macros e t → Gap g → Designated macros [e] (t ++ (g ++ [asc '\x7d']))
  | comma {e t g g'} : IsEntry macros e t → Gap g → Gap g' →
      Designated macros [e] (t ++ (g ++ asc ',' :: (g' ++ [asc '\x7d'])))
  | cons {e t g es u} : IsEntry macros e t → Gap g → Designated macros es u →
      Designated macros (e :: es) (t ++ (g ++ asc ',' :: u))

/-- The entries without those whose list has come out empty. -/
def kept (es : List (List UInt8 × DataNode)) : List (List UInt8 × DataNode) :=
  es.filter fun e => !dataNodeIsEmpty e.2

lemma hashAddId_room {elems : List (List UInt8 × DataNode)} (hroom : elems.length < maxElems)
    (id : List UInt8) (node : DataNode) :
    hashAddId (.hash elems) (some id) node = .ok (.hash (elems ++ [(id, node)])) := by
  rw [hashAddId, dataNodeHashAdd, if_neg (ne_of_lt hroom)]

section entry

variable {macros : Macros} {n : Nat} {elems : List (List UInt8 × DataNode)} {p : Int}
  {id v g u : List UInt8} {node : DataNode} {c : UInt8}

/-- The loop has read an entry, and is before the punctuation behind it. -/
def EntryRead (macros : Macros) (elems : List (List UInt8 × DataNode)) (e : List UInt8 × DataNode)
    (after : List UInt8) (res : Except Stop (Out (Bool × DataNode))) : Prop :=
  ∃ m g' ret val id p, Gap g' ∧ (g' ++ after).length < m ∧ p ≤ 0 ∧
    finalizeArrayEntry val id ret = .ok (.hash (elems ++ kept [e]), none) ∧
    res = parseArrayLoop macros m true ret val id p (g' ++ after)

lemma parens_nonpos (ht : t ≠ ascii "(") (hp : p ≤ 0) : p + parens t ≤ 0 := by
  rw [parens, if_neg ht]
  split <;> omega

lemma entryRead_token (hroom : elems.length < maxElems) (hp : p ≤ 0) (ht : AsValue macros t)
    (hn : inp.length < n) (hg' : Gap g') (htok : nextTok inp = .ok (some t, g' ++ c :: u)) :
    EntryRead macros elems (id, .string t) (c :: u)
      (parseArrayLoop macros n true (.hash elems) none (some (asc '.' :: id)) p inp) := by
  have hlt := nextTok_lt htok
  rcases n with _ | n
  · omega
  refine ⟨n, g', .hash elems, some t, some (asc '.' :: id), p + parens t, hg', by omega,
    parens_nonpos ht.notParen hp, ?_, ?_⟩
  · rw [finalizeArrayEntry, idTail, hashAddId_room hroom]
    rfl
  have hid : ¬ (true ∧ t = ascii "=" ∧ some (asc '.' :: id) = none) := by simp
  rw [loop_append htok ht.ordinary hid, ht.noMacro]
  rfl

lemma addNested_hash (hroom : elems.length < maxElems) (id : List UInt8) (node : DataNode) :
    addNested true (.hash elems) (some (asc '.' :: id)) node =
      .ok (.hash (elems ++ kept [(id, node)])) := by
  rw [addNested, kept, filter_cons]
  cases dataNodeIsEmpty node with
  | true => simp
  | false =>
    rw [Option.bind_some, idTail, hashAddId_room hroom]
    rfl

lemma IsEntry.tokens (h : IsEntry macros e t) (rest : List UInt8) :
    ∃ v inp, IsValue macros e.2 v ∧ nextTok (t ++ rest) = .ok (some (asc '.' :: e.1), inp) ∧
      nextTok inp = .ok (some (ascii "="), v ++ rest) := by
  obtain @⟨g₁, id, g₂, _, v, hg₁, hname, hg₂, hvalue⟩ := h
  obtain ⟨g₃, hg₃, htok⟩ := nextTok_word hg₁ hname hg₂ (show isPunct (asc '=') from rfl) (v ++ rest)
  refine ⟨v, g₃ ++ asc '=' :: (v ++ rest), hvalue, ?_, nextTok_punct hg₃ rfl _⟩
  rw [← htok]
  simp

lemma IsValue.tokens (h : IsValue macros node v) (hg : Gap g) (hc : isPunct c) (u : List UInt8) :
    (∃ t g', node = .string t ∧ AsValue macros t ∧ Gap g' ∧
        nextTok (v ++ (g ++ c :: u)) = .ok (some t, g' ++ c :: u)) ∨
      ∃ body, (∀ rest, parseArray macros (body ++ rest) = .ok ((true, node), rest)) ∧
        nextTok (v ++ (g ++ c :: u)) = .ok (some (ascii "\x7b"), body ++ (g ++ c :: u)) := by
  cases h with
  | @literal _ s hg₁ hlit ht =>
    refine .inl ⟨s, g, rfl, ht, hg, ?_⟩
    simpa using nextTok_literal hg₁ hlit (g ++ c :: u)
  | @word g₁ w hg₁ hw ht =>
    obtain ⟨g', hg', htok⟩ := nextTok_word hg₁ hw hg hc u
    exact .inl ⟨w, g', rfl, ht, hg', by rw [append_assoc, htok]⟩
  | @nested g₁ body _ hg₁ hbody =>
    refine .inr ⟨body, hbody, ?_⟩
    rw [append_assoc, cons_append]
    exact nextTok_punct hg₁ rfl _

lemma IsValue.read (h : IsValue macros node v) (hg : Gap g) (hc : isPunct c)
    (hroom : elems.length < maxElems) (hp : p ≤ 0) (hn : (v ++ (g ++ c :: u)).length < n) :
    EntryRead macros elems (id, node) (c :: u)
      (parseArrayLoop macros n true (.hash elems) none (some (asc '.' :: id)) p
        (v ++ (g ++ c :: u))) := by
  rcases h.tokens hg hc u with ⟨t, _, rfl, ht, hg', htok⟩ | ⟨_, hbody, htok⟩
  · exact entryRead_token hroom hp ht hn hg' htok
  have hlt := nextTok_lt htok
  rcases n with _ | n
  · omega
  obtain ⟨_, hhash, hloop⟩ := bind_eq_ok (hbody (g ++ c :: u))
  have hsub := parseArrayLoop_mono hloop (show _ ≤ n by omega)
  refine ⟨n, g, .hash (elems ++ kept [(id, node)]), none, none, p, hg, ?_, hp, rfl, ?_⟩
  · rw [length_append] at hlt
    omega
  · rw [loop_nested htok, hhash, ok_bind, hsub, ok_bind, addNested_hash hroom, ok_bind]

lemma dot_ne (id : List UInt8) {c} (hc : c ≠ asc '.') (t : List UInt8) :
    asc '.' :: id ≠ c :: t := fun h => hc (cons.inj h).1.symm

/-- One entry is read. -/
lemma IsEntry.read (h : IsEntry macros e t) (hdots : ∀ m ∈ macros, m.1.head? ≠ some (asc '.'))
    (hg : Gap g) (hc : isPunct c) (hroom : elems.length < maxElems) (hp : p ≤ 0)
    (hn : (t ++ (g ++ c :: u)).length < n) :
    EntryRead macros elems e (c :: u)
      (parseArrayLoop macros n true (.hash elems) none none p (t ++ (g ++ c :: u))) := by
  obtain ⟨v, _, hvalue, htok, htok'⟩ := h.tokens (g ++ c :: u)
  have hplain : tryApplyMacro macros (asc '.' :: e.1) = asc '.' :: e.1 := by
    rw [tryApplyMacro, lookup_eq_none_iff.2, Option.getD_none]
    intro m hm
    refine bne_iff_ne.2 fun heq => hdots m hm ?_
    rw [← heq]
    rfl
  have hordinary : Ordinary (asc '.' :: e.1) :=
    ⟨dot_ne e.1 (by decide) _, dot_ne e.1 (by decide) _, dot_ne e.1 (by decide) _,
      dot_ne e.1 (by decide) _⟩
  have hlt := nextTok_lt htok
  have hlt' := nextTok_lt htok'
  obtain ⟨n, rfl⟩ : ∃ m, n = m + 2 := ⟨n - 2, by omega⟩
  have hparens : parens (asc '.' :: e.1) = 0 := by
    have hopen : asc '.' :: e.1 ≠ ascii "(" := dot_ne e.1 (by decide) _
    have hclose : asc '.' :: e.1 ≠ ascii ")" := dot_ne e.1 (by decide) _
    rw [parens, if_neg hopen, if_neg hclose]
  have hid : ¬ (true ∧ asc '.' :: e.1 = ascii "=" ∧ (none : Option (List UInt8)) = none) :=
    fun h => dot_ne e.1 (by decide) _ h.2.1
  rw [loop_append htok hordinary hid, loop_equals htok', hplain, hparens, Int.add_zero]
  exact hvalue.read hg hc hroom hp (by omega)

/-! ### The look-ahead -/

def EntrySeen (after : List UInt8) (res : Except Stop Bool) : Prop :=
  ∃ m g' commaLast, Gap g' ∧ (g' ++ after).length < m ∧
    res = arrayIsHashLoop m true commaLast false (g' ++ after)

lemma isHash_nested {inp'} (htok : nextTok inp = .ok (some (ascii "\x7b"), inp'))
    (hskip : skipNested n 1 inp' = .ok (some rest)) :
    arrayIsHashLoop (n + 1) elemSeen commaLast false inp =
      arrayIsHashLoop n true commaLast false rest := by
  rw [arrayIsHashLoop, htok, ok_bind]
  dsimp only
  rw [if_neg (by decide), if_pos rfl, if_neg Bool.false_ne_true, hskip, ok_bind]

lemma entrySeen_token (ht : Ordinary t) (hn : inp.length < n) (hg' : Gap g')
    (htok : nextTok inp = .ok (some t, g' ++ c :: u)) :
    EntrySeen (c :: u) (arrayIsHashLoop n elemSeen commaLast false inp) := by
  have hlt := nextTok_lt htok
  rcases n with _ | n
  · omega
  by_cases heq : t = ascii "="
  · subst heq
    exact ⟨n, g', commaLast, hg', by omega, isHash_equals htok⟩
  · exact ⟨n, g', false, hg', by omega, isHash_other htok ht.notOpen ht.notClose ht.notComma heq⟩

lemma IsValue.seen (h : IsValue macros node v) (hg : Gap g) (hc : isPunct c)
    (hn : (v ++ (g ++ c :: u)).length < n) :
    EntrySeen (c :: u) (arrayIsHashLoop n elemSeen commaLast false (v ++ (g ++ c :: u))) := by
  rcases h.tokens hg hc u with ⟨t, _, -, ht, hg', htok⟩ | ⟨_, hbody, htok⟩
  · exact entrySeen_token ht.ordinary hn hg' htok
  have hlt := nextTok_lt htok
  rcases n with _ | n
  · omega
  obtain ⟨_, -, hloop⟩ := bind_eq_ok (hbody (g ++ c :: u))
  obtain ⟨_, _, hskip⟩ := skipNested_eq hloop rfl 0 (show _ < n by omega)
  refine ⟨n, g, commaLast, hg, ?_, isHash_nested htok hskip⟩
  rw [length_append] at hlt
  omega

lemma IsEntry.seen (h : IsEntry macros e t) (hg : Gap g) (hc : isPunct c)
    (elemSeen commaLast : Bool) (hn : (t ++ (g ++ c :: u)).length < n) :
    EntrySeen (c :: u) (arrayIsHashLoop n elemSeen commaLast true (t ++ (g ++ c :: u))) := by
  obtain ⟨v, _, hvalue, htok, htok'⟩ := h.tokens (g ++ c :: u)
  have hlt := nextTok_lt htok
  have hlt' := nextTok_lt htok'
  obtain ⟨n, rfl⟩ : ∃ m, n = m + 2 := ⟨n - 2, by omega⟩
  rw [isHash_other htok (dot_ne e.1 (by decide) _) (dot_ne e.1 (by decide) _)
    (dot_ne e.1 (by decide) _) (dot_ne e.1 (by decide) _), isHash_equals htok']
  exact hvalue.seen hg hc (by omega)

end entry

/-! ### All entries -/

section designated

variable {macros : Macros} {es : List (List UInt8 × DataNode)} {text : List UInt8}

lemma arrayIsHashLoop_designated (h : Designated macros es text) (rest : List UInt8) : ∀ {n}
    elemSeen commaLast, (text ++ rest).length < n →
    arrayIsHashLoop n elemSeen commaLast true (text ++ rest) = .ok true  := by
  -- the punctuation behind an entry
  have punct : ∀ {c : UInt8} {u : List UInt8} {res : Except Stop Bool}, isPunct c →
      EntrySeen (c :: u) res → ∃ m commaLast inp, u.length < m ∧
        nextTok inp = .ok (some [c], u) ∧
          res = arrayIsHashLoop (m + 1) true commaLast false inp := by
    rintro c u _ hc ⟨m, _, commaLast, hg', hm, heq⟩
    rw [length_append, length_cons] at hm
    rcases m with _ | m
    · omega
    exact ⟨m, commaLast, _, by omega, nextTok_punct hg' hc u, heq⟩
  induction h with intro n elemSeen commaLast hn
  | last he hg =>
    simp only [append_assoc, singleton_append] at hn ⊢
    obtain ⟨m, _, _, _, htok, heq⟩ := punct rfl (he.seen hg rfl elemSeen commaLast hn)
    rw [heq, isHash_close htok]
    rfl
  | comma he hg hg' =>
    simp only [append_assoc, cons_append, nil_append] at hn ⊢
    obtain ⟨m, _, _, hm, htok, heq⟩ := punct rfl (he.seen hg rfl elemSeen commaLast hn)
    rcases m with _ | m
    · omega
    have hclose := nextTok_punct hg' (show isPunct (asc '\x7d') from rfl) rest
    rw [heq, isHash_comma htok, isHash_close hclose]
    rfl
  | cons he hg _ ih =>
    simp only [append_assoc, cons_append] at hn ⊢
    obtain ⟨m, _, _, hm, htok, heq⟩ := punct rfl (he.seen hg rfl elemSeen commaLast hn)
    rw [heq, isHash_comma htok]
    exact ih true true hm

lemma kept_cons (e : List UInt8 × DataNode) (es : List (List UInt8 × DataNode)) :
    kept (e :: es) = kept [e] ++ kept es := by
  rw [kept, kept, kept, ← filter_append, singleton_append]

/-- **All entries are read.** -/
lemma parseArrayLoop_designated (h : Designated macros es text)
    (hdots : ∀ m ∈ macros, m.1.head? ≠ some (asc '.')) (rest : List UInt8) :
    ∀ {n} {elems : List (List UInt8 × DataNode)} {p},
    elems.length + es.length ≤ maxElems → p ≤ 0 → (text ++ rest).length < n →
    parseArrayLoop macros n true (.hash elems) none none p (text ++ rest) =
      .ok ((true, .hash (elems ++ kept es)), rest)  := by
  -- the punctuation behind an entry
  have punct : ∀ {c : UInt8} {u : List UInt8} {elems e res}, isPunct c →
      EntryRead macros elems e (c :: u) res → ∃ m ret val id p inp, u.length < m ∧ p ≤ 0 ∧
        finalizeArrayEntry val id ret = .ok (.hash (elems ++ kept [e]), none) ∧
        nextTok inp = .ok (some [c], u) ∧
        res = parseArrayLoop macros (m + 1) true ret val id p inp := by
    rintro c u elems e _ hc ⟨m, _, ret, val, id, p, hg', hm, hp, hfin, heq⟩
    rw [length_append, length_cons] at hm
    rcases m with _ | m
    · omega
    exact ⟨m, ret, val, id, p, _, by omega, hp, hfin, nextTok_punct hg' hc u, heq⟩
  induction h with intro n elems p hroom hp hn
  | last he hg =>
    simp only [append_assoc, singleton_append] at hn ⊢
    obtain ⟨m, _, _, _, p, _, _, _, hfin, htok, heq⟩ := punct rfl (he.read hdots hg rfl hroom hp hn)
    rw [heq, loop_close htok, hfin]
    rfl
  | comma he hg hg' =>
    simp only [append_assoc, cons_append, nil_append] at hn ⊢
    obtain ⟨m, _, _, _, p, _, hm, hp', hfin, htok, heq⟩ :=
      punct rfl (he.read hdots hg rfl hroom hp hn)
    rcases m with _ | m
    · omega
    have hclose := nextTok_punct hg' (show isPunct (asc '\x7d') from rfl) rest
    rw [heq, loop_comma htok hp', hfin, ok_bind, loop_close hclose]
    rfl
  | @cons e t g es u he hg _ ih =>
    rw [length_cons] at hroom
    have hroom' : elems.length < maxElems := by omega
    simp only [append_assoc, cons_append] at hn ⊢
    obtain ⟨m, _, _, _, p, _, hm, hp', hfin, htok, heq⟩ :=
      punct rfl (he.read hdots hg rfl hroom' hp hn)
    have hkept : (kept [e]).length ≤ 1 := length_filter_le _ _
    have hlen : (elems ++ kept [e]).length + es.length ≤ maxElems := by
      rw [length_append]
      omega
    rw [heq, loop_comma htok hp', hfin, kept_cons e es, ← append_assoc]
    exact ih hlen hp' hm

end designated

/-- Designated entries become a hash of the identifiers without the dot and the values; entries
whose list is empty are left out. -/
theorem parseArray_designated (macros : Macros)
    (hdots : ∀ m ∈ macros, m.1.head? ≠ some (asc '.')) (es : List (List UInt8 × DataNode))
    (hlen : es.length ≤ 100) (text : List UInt8) (hsrc : Designated macros es text)
    (rest : List UInt8) :
    parseArray macros (text ++ rest) = .ok ((true, .hash (kept es)), rest) := by
  rw [parseArray, arrayIsHash, arrayIsHashLoop_designated hsrc rest false false
    (Nat.lt_succ_self _),
    ok_bind, emptyNode, if_pos rfl,
    parseArrayLoop_designated hsrc hdots rest (by simpa [maxElems] using hlen) le_rfl
      (Nat.lt_succ_self _), nil_append]

theorem parseArray_designated_nested : parseArray [(ascii "M", ascii "m")]
        (ascii ".a = \"M x\", .b=\x7b\x7d, .c=\x7b\"y\"\x7d, .d = 0x1F\x7d" ++ ascii ";") =
      .ok ((true, .hash [(ascii "a", .string (ascii "M x")),
        (ascii "c", .array [.string (ascii "y")]), (ascii "d", .string (ascii "0x1F"))]),
        ascii ";") := by
  let macros : Macros := [(ascii "M", ascii "m")]
  have hname : ∀ w ∈ [ascii ".a", ascii ".b", ascii ".c", ascii ".d", ascii "0x1F"], IsName w := by
    intro w hw
    simp only [mem_cons, not_mem_nil, or_false] at hw
    rcases hw with rfl | rfl | rfl | rfl | rfl <;>
      exact ⟨by decide, all_eq_true.1 rfl, by decide⟩
  have hlit : PlainLiteral (ascii "M x") :=
    plainLiteral_of_not_mem (by decide) (by decide) (by decide) (by decide)
  have hblank : Gap (ascii " ") := .space rfl .nil
  have hno : ∀ rest, parseArray macros (ascii "\x7d" ++ rest) = .ok ((true, .array []), rest) :=
    fun _ => rfl
  have hone : ∀ rest, parseArray macros (ascii "\"y\"\x7d" ++ rest) =
      .ok ((true, .array [.string (ascii "y")]), rest) := fun _ => rfl
  have ha : IsEntry macros (ascii "a", .string (ascii "M x")) (ascii ".a = \"M x\"") :=
    .mk .nil (hname (ascii ".a") (by decide)) hblank
      (.literal hblank hlit ⟨by decide, by decide, rfl⟩)
  have hb : IsEntry macros (ascii "b", .array []) (ascii " .b=\x7b\x7d") :=
    .mk hblank (hname (ascii ".b") (by decide)) .nil (.nested .nil hno)
  have hc : IsEntry macros (ascii "c", .array [.string (ascii "y")]) (ascii " .c=\x7b\"y\"\x7d") :=
    .mk hblank (hname (ascii ".c") (by decide)) .nil (.nested .nil hone)
  have hd : IsEntry macros (ascii "d", .string (ascii "0x1F")) (ascii " .d = 0x1F") :=
    .mk hblank (hname (ascii ".d") (by decide)) hblank
      (.word hblank (hname (ascii "0x1F") (by decide)) ⟨by decide, by decide, rfl⟩)
  exact parseArray_designated macros (by decide) _ (by decide) _
    (.cons ha .nil (.cons hb .nil (.cons hc .nil (.last hd .nil)))) (ascii ";")

/-- The list of `.a` is dropped; the `NULL` of `.a` has its dot, and the identifier behind it joins
the value. -/
theorem parseArray_dropped_entry : parseArray [] (ascii ".a = \x7b\x7d, .b = \"x\"\x7d") =
        .ok ((true, .hash [(ascii "b", .string (ascii "x"))]), []) ∧
      parseArray [] (ascii ".a = NULL, .b = \"x\"\x7d") =
        .ok ((true, .hash [(ascii ".a", .null), (ascii "a", .string (ascii ".b=x"))]), []) :=
  ⟨rfl, rfl⟩

end LtpDdt.Metaparse
