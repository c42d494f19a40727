/-
Kconfig.ValidateVar — `validate_var` of `lib/tst_kconfig.c`, for a token of the
expression parser.

`validateVarAt` is the function with its index `i`, and a read behind the end of the
expression as a `Fault`; `validateVar` is what it computes from the text of the token
(`validateVarAt_eq`). It stays inside of the expression, but does not look at the first
character of a value (`validateVar_exact_iff`).
-/
import LtpDdt.BoolExpr.Expr
import LtpDdt.Kconfig.Read

namespace LtpDdt.Kconfig

open CTypes BoolExpr

/-! ## The text of a token -/

variable (expr : List Char)

def tokText (t : TstExprTok) : List Char := (expr.drop t.tok).take t.tokLen

def tokAfter (t : TstExprTok) : List Char := expr.drop (t.tok + t.tokLen)

/-- The part of `validate_var` behind the `=`. -/
def validateVal (after : List Char) : List Char → Bool
  | [] => false -- "Missing value"
  | '"' :: val =>
    match val.dropWhile (· ≠ '"') with
    | [] => after.head? == some '"' -- "Untermianted string"
    | _ :: garbage => garbage.isEmpty -- "Garbage after a string"
  | _ :: val => val.all isAlnum -- "Invalid character in variable value"

/-- The loop of `validate_var` over the name. -/
def validateName (after : List Char) : List Char → Bool
  | [] => true
  | c :: rest =>
    if isNameChar c then validateName after rest
    else if c = '=' then validateVal after rest
    else false -- "Unexpected character in variable name"

/-- `validate_var` returns 0. -/
def validateVar (t : TstExprTok) : Bool :=
  configStr.isPrefixOf (tokText expr t) &&
    validateName (tokAfter expr t) ((tokText expr t).drop configStr.length)

/-- `strncmp(s, t, n)` is 0. -/
def strncmpEq (s t : List Char) (n : Nat) : Bool := s.take n == t.take n

/-! ## The code -/

/-- `var->tok[i]`; behind the NUL of the expression there is nothing. -/
def tokAt (t : TstExprTok) (i : Nat) : Except Fault Char :=
  match (expr ++ ['\x00'])[t.tok + i]? with
  | some c => .ok c
  | none => .error .access

inductive NameEnd where
  | accepted
  | rejected
  /-- at the NUL or behind the `=` -/
  | out (i : Nat)
  deriving DecidableEq

/-- `while (var->tok[i])`, with at most `n` rounds. -/
def nameLoop (expr : List Char) (t : TstExprTok) : Nat → Nat → Except Fault NameEnd
  | 0, _ => .error .access
  | n + 1, i => do
      let c ← tokAt expr t i
      if c = '\x00' then .ok (.out i)
      else if i ≥ t.tokLen then .ok .accepted
      else if isNameChar c then nameLoop expr t n (i + 1)
      else if c = '=' then .ok (.out (i + 1))
      else .ok .rejected

/-- `do { i++; } while (i < var->tok_len && p(var->tok[i]))`; `n` characters are behind `i`. -/
def valueLoop (expr : List Char) (t : TstExprTok) (p : Char → Bool) : Nat → Nat → Except Fault Nat
  | 0, i => .ok (i + 1)
  | n + 1, i => do
      let c ← tokAt expr t (i + 1)
      if p c then valueLoop expr t p n (i + 1) else .ok (i + 1)

/-- The part of the function behind the loop over the name. -/
def validateValueAt (t : TstExprTok) (i : Nat) : Except Fault Bool :=
  if i ≥ t.tokLen then do
    let c ← tokAt expr t (i - 1)
    .ok (c ≠ '=')
  else do
    let c ← tokAt expr t i
    if c = '"' then do
      let i ← valueLoop expr t (fun c => c ≠ '"') (t.tokLen - i - 1) i
      if i < t.tokLen - 1 then .ok false
      else do
        let c ← tokAt expr t i
        .ok (c = '"')
    else do
      let i ← valueLoop expr t isAlnum (t.tokLen - i - 1) i
      .ok (¬ i < t.tokLen)

/-- `validate_var` returns 0. -/
def validateVarAt (t : TstExprTok) : Except Fault Bool :=
  if t.tokLen < 7 ∨ ¬ strncmpEq (expr.drop t.tok) configStr 7 then .ok false
  else do
    match ← nameLoop expr t (expr.length + 1) 7 with
    | .accepted => .ok true
    | .rejected => .ok false
    | .out i => validateValueAt expr t i

open List

variable {i : Nat} {expr text rest : List Char} {c : Char} {t : TstExprTok}

/-! ## Tokens -/

def separators : List Char := ['(', ')', '!', '&', '|', '\t', ' ']

/-- A token lies in the expression, and what follows a word separates it. -/
structure TokenAt (expr : List Char) (t : TstExprTok) : Prop where
  inside : t.tok + t.tokLen ≤ expr.length
  after : t.op = .var → ∀ c, expr[t.tok + t.tokLen]? = some c → c ∈ separators

lemma tokenAt_newTok {tok tokLen : Nat} (hin : tok + tokLen ≤ expr.length)
    (hafter : charToOp (expr.getD tok '\x00') = .var →
      ∀ c, expr[tok + tokLen]? = some c → c ∈ separators) :
    ∀ t ∈ newTok expr tok tokLen, TokenAt expr t := by
  intro t ht
  unfold newTok at ht
  split at ht
  · cases ht
  · rw [mem_singleton.1 ht]
    exact ⟨hin, hafter⟩

lemma tokenAt_loop {expr} : ∀ {quoted} {rest pre : List Char} {j},
    expr = pre ++ rest → j ≤ pre.length →
    ∀ t ∈ tokenizeLoop expr quoted rest pre.length j, TokenAt expr t
  | quoted, [], pre, j, he, hj => by
    refine tokenAt_newTok (by rw [he]; simp; omega) fun _ c hc => ?_
    rw [getElem?_eq_none (by rw [he]; simp; omega)] at hc
    cases hc
  | quoted, c :: rest, pre, j, he, hj => by
    have he' : expr = (pre ++ [c]) ++ rest := by rw [he, append_assoc]; rfl
    have hnext : ∀ quoted' {j'}, j' ≤ pre.length + 1 →
        ∀ t ∈ tokenizeLoop expr quoted' rest (pre.length + 1) j', TokenAt expr t := by
      intro quoted' j' hj'
      have := @tokenAt_loop expr quoted' rest (pre ++ [c]) j' he' (by simpa using hj')
      rwa [length_append] at this
    have hat : expr[pre.length]? = some c := by rw [he]; simp
    have hlen : pre.length < expr.length := by rw [he]; simp
    -- the word that ends here
    have hword : c ∈ separators → ∀ t ∈ newTok expr j (pre.length - j), TokenAt expr t :=
      fun hsep => tokenAt_newTok (by omega) fun _ d hd => by
        rw [show j + (pre.length - j) = pre.length by omega, hat] at hd
        cases hd
        exact hsep
    have hop : charToOp c ≠ .var → ∀ t ∈ newTok expr pre.length 1, TokenAt expr t :=
      fun hne => tokenAt_newTok (by omega) fun hvar => by
        rw [getD_eq_getElem?_getD, hat] at hvar
        exact absurd hvar hne
    intro t ht
    rw [tokenizeLoop.eq_def] at ht
    dsimp only at ht
    split at ht
    · exact hnext _ (by omega) t ht
    split at ht
    all_goals
      first
      | (rcases mem_append.1 ht with ht | ht
         · first
           | exact hword (by decide) t ht
           | (rcases mem_append.1 ht with ht | ht
              · exact hword (by decide) t ht
              · exact hop (by decide) t ht)
         · exact hnext _ (by omega) t ht)
      | exact hnext _ (by omega) t ht

lemma tokenAt_of_mem (h : t ∈ tokenize expr) : TokenAt expr t :=
  @tokenAt_loop expr false expr [] 0 rfl (Nat.le_refl 0) t h

/-! ## `validate_var` -/

section Token
variable {expr : List Char} {t : TstExprTok}

lemma length_tokText (h : TokenAt expr t) : (tokText expr t).length = t.tokLen := by
  have := h.inside
  rw [tokText, length_take, length_drop]
  omega

lemma tokAt_text (h : TokenAt expr t)
    (hi : (tokText expr t).drop i = c :: rest) : tokAt expr t i = .ok c := by
  have hget : (tokText expr t)[i]? = some c := by rw [← head?_drop, hi]; rfl
  have hlt : i < t.tokLen := by
    rw [← length_tokText h]
    exact (List.getElem?_eq_some_iff.1 hget).1
  have hin := h.inside
  rw [tokText, getElem?_take, if_pos hlt, getElem?_drop] at hget
  unfold tokAt
  rw [getElem?_append_left (by omega), hget]

lemma tokAt_end (h : TokenAt expr t) :
    tokAt expr t t.tokLen = .ok ((tokAfter expr t).head?.getD '\x00') := by
  have hin := h.inside
  unfold tokAt tokAfter
  rw [head?_drop]
  rcases lt_or_ge (t.tok + t.tokLen) expr.length with hlt | hge
  · rw [getElem?_append_left hlt, getElem?_eq_getElem hlt]
    rfl
  rw [getElem?_append_right hge, getElem?_eq_none hge,
    show t.tok + t.tokLen - expr.length = 0 by omega]
  rfl

lemma drop_succ_of_cons (h : text.drop i = c :: rest) : text.drop (i + 1) = rest := by
  rw [← drop_drop, h]
  rfl

lemma length_of_drop (h : TokenAt expr t)
    (hi : i ≤ t.tokLen) (hrest : (tokText expr t).drop i = rest) : i + rest.length = t.tokLen := by
  have := congrArg length hrest
  rw [length_drop, length_tokText h] at this
  omega

lemma valueLoop_eq (h : TokenAt expr t) (p : Char → Bool) : ∀ {v : List Char} {i},
    (tokText expr t).drop (i + 1) = v →
    valueLoop expr t p v.length i = .ok (i + 1 + (v.takeWhile p).length)
  | [], i, _ => rfl
  | c :: v, i, hi => by
    rw [length_cons, valueLoop, tokAt_text h hi, takeWhile_cons]
    by_cases hc : p c
    · simp only [ok_bind, hc, if_true, length_cons]
      rw [valueLoop_eq h p (drop_succ_of_cons hi)]
      congr 1
      omega
    · simp [hc, length_nil]

lemma validateVal_word (after : List Char) (hc : c ≠ '"') (v : List Char) :
    validateVal after (c :: v) = v.all isAlnum := by
  unfold validateVal
  split
  · rename_i hcons
    cases hcons
  · rename_i hcons
    exact absurd (cons.inj hcons).1 hc
  rename_i hcons
  cases hcons
  rfl

lemma validateValueAt_eq (h : TokenAt expr t) (hi : i + 1 ≤ t.tokLen) {val}
    (hat : (tokText expr t).drop i = '=' :: val) :
    validateValueAt expr t (i + 1) = .ok (validateVal (tokAfter expr t) val) := by
  have hval := drop_succ_of_cons hat
  have hlen := length_of_drop h hi hval
  unfold validateValueAt
  cases val with
  | nil =>
    rw [if_pos (by rw [length_nil] at hlen; omega), Nat.add_sub_cancel, tokAt_text h hat]
    rfl
  | cons c v =>
    rw [length_cons] at hlen
    have hv : t.tokLen - (i + 1) - 1 = v.length := by omega
    rw [if_neg (by omega), tokAt_text h hval, ok_bind, hv]
    by_cases hc : c = '"'
    · subst hc
      rw [if_pos rfl, valueLoop_eq h _ (drop_succ_of_cons hval), ok_bind]
      obtain ⟨pre, post, hsplit, htake, hdrop, -, hpost⟩ := scan_split (fun c => decide (c ≠ '"')) v
      rw [htake]
      rw [validateVal, hdrop]
      have hvlen : v.length = pre.length + post.length := by rw [hsplit, length_append]
      cases post with
      | nil =>
        rw [length_nil] at hvlen
        rw [if_neg (by omega), show i + 1 + 1 + pre.length = t.tokLen by omega, tokAt_end h]
        cases hafter : (tokAfter expr t).head? with
        | none => rfl
        | some => simp [Bool.beq_eq_decide_eq]
      | cons q garbage =>
        have hq : q = '"' := by simpa using hpost q garbage rfl
        subst hq
        rw [length_cons] at hvlen
        cases garbage with
        | cons =>
          rw [length_cons] at hvlen
          rw [if_pos (by omega)]
          rfl
        | nil =>
          have hread : (tokText expr t).drop (i + 1 + 1 + pre.length) = ['"'] := by
            rw [← drop_drop, drop_succ_of_cons hval, hsplit, drop_left]
          rw [length_nil] at hvlen
          rw [if_neg (by omega), tokAt_text h hread]
          rfl
    · rw [if_neg hc, valueLoop_eq h _ (drop_succ_of_cons hval), ok_bind]
      rw [validateVal_word _ hc]
      congr 1
      rw [Bool.eq_iff_iff, decide_eq_true_iff, all_eq_true, ← takeWhile_eq_self_iff]
      constructor
      · intro _
        exact (takeWhile_sublist _).eq_of_length_le (by omega)
      intro hall
      rw [hall]
      omega

lemma nameLoop_eq (h : TokenAt expr t) (hnul : '\x00' ∉ expr) : ∀ {rest : List Char} {n i},
    rest.length < n → 1 ≤ i → i ≤ t.tokLen → (tokText expr t).drop i = rest →
      (∃ c, tokAt expr t (i - 1) = .ok c ∧ c ≠ '=') → (nameLoop expr t n i >>= fun e => match e with
        | .accepted => .ok true
        | .rejected => .ok false
        | .out i => validateValueAt expr t i) = .ok (validateName (tokAfter expr t) rest)
  | [], n + 1, i, _, _, hi, hat, ⟨d, hd, hne⟩ => by
    have hend := length_of_drop h hi hat
    rw [length_nil, Nat.add_zero] at hend
    rw [nameLoop, hend, tokAt_end h, ok_bind]
    split
    · -- the end of the expression
      rw [ok_bind]
      dsimp only
      rw [validateValueAt, if_pos (Nat.le_refl _), ← hend, hd, ok_bind, decide_eq_true hne]
      rfl
    · rw [if_pos (Nat.le_refl _)]
      rfl
  | c :: rest, n + 1, i, hn, h1, hi, hat, _ => by
    have hlen := length_of_drop h hi hat
    rw [length_cons] at hlen hn
    have hmem : c ∈ expr := by
      have : c ∈ (tokText expr t).drop i := by rw [hat]; exact mem_cons_self
      exact mem_of_mem_drop (mem_of_mem_take (mem_of_mem_drop this))
    have hc : c ≠ '\x00' := fun he => hnul (he ▸ hmem)
    rw [nameLoop, tokAt_text h hat, ok_bind, if_neg hc, if_neg (by omega), validateName]
    by_cases hname : isNameChar c
    · rw [if_pos hname, if_pos hname]
      refine nameLoop_eq h hnul (by omega) (by omega) (by omega) (drop_succ_of_cons hat) ⟨c, ?_, ?_⟩
      · rw [Nat.add_sub_cancel]
        exact tokAt_text h hat
      · rintro rfl
        exact absurd hname (by decide)
    · rw [if_neg hname, if_neg hname]
      by_cases heq : c = '='
      · subst heq
        exact validateValueAt_eq h (by omega) hat
      · rw [if_neg heq, if_neg heq, ok_bind]

/-- **`validate_var`** reads no further than to the NUL of the expression. -/
theorem validateVarAt_eq (h : TokenAt expr t) (hnul : '\x00' ∉ expr) :
    validateVarAt expr t = .ok (validateVar expr t) := by
  have hin := h.inside
  have hlen := length_tokText h
  have hsix : configStr.length = 7 := rfl
  unfold validateVarAt validateVar
  by_cases hpre : configStr <+: tokText expr t
  · obtain ⟨rest, hrest⟩ := hpre
    have hge : 7 ≤ t.tokLen := by
      rw [← hlen, ← hrest, length_append]
      omega
    have hcmp : strncmpEq (expr.drop t.tok) configStr 7 := by
      have htake : (expr.drop t.tok).take 7 = configStr := by
        rw [← Nat.min_eq_left hge, ← take_take, ← tokText, ← hrest, ← hsix, take_left]
      rw [strncmpEq, htake]
      rfl
    have hdrop : (tokText expr t).drop 7 = rest := by rw [← hrest, ← hsix, drop_left]
    rw [if_neg (by rw [hcmp]; simp; omega), isPrefixOf_iff_prefix.2 ⟨rest, hrest⟩, hsix, hdrop]
    refine nameLoop_eq h hnul ?_ (by decide) hge hdrop ⟨'_', ?_, by decide⟩
    · have := congrArg length hdrop
      rw [length_drop] at this
      omega
    have hlast : (tokText expr t).drop 6 = '_' :: rest := by
      rw [← hrest]
      rfl
    exact tokAt_text h hlast
  · have hnot : configStr.isPrefixOf (tokText expr t) = false := by
      rw [Bool.eq_false_iff, ne_eq, isPrefixOf_iff_prefix]
      exact hpre
    rw [hnot]
    refine if_pos ?_
    by_cases hlt : t.tokLen < 7
    · exact .inl hlt
    refine .inr fun hcmp => hpre ?_
    have htake : (expr.drop t.tok).take 7 = configStr := by
      rw [strncmpEq, beq_iff_eq] at hcmp
      exact hcmp
    refine ⟨(tokText expr t).drop 7, ?_⟩
    have hseven : (tokText expr t).take 7 = configStr := by
      rw [tokText, take_take, Nat.min_eq_left (by omega), htake]
    rw [← hseven, take_append_drop]

end Token

/-! ## What is accepted -/

def Quoted (val : List Char) : Prop := ∃ s, '"' ∉ s ∧ val = '"' :: (s ++ ['"'])

/-- `CONFIG_NAME`, `CONFIG_NAME="string"` or `CONFIG_NAME=word`. -/
def VarForm (text : List Char) : Prop :=
  ∃ name, name.all isNameChar = true ∧ (text = configStr ++ name ∨
    ∃ val, text = configStr ++ (name ++ '=' :: val) ∧
      (Quoted val ∨ (val ≠ [] ∧ val.all isAlnum = true)))

/-- The first character is neither alphanumeric nor a quote, all others are alphanumeric. -/
def OddStart (text : List Char) : Prop :=
  ∃ name c v, name.all isNameChar = true ∧ text = configStr ++ (name ++ '=' :: c :: v) ∧
    isAlnum c = false ∧ c ≠ '"' ∧ v.all isAlnum = true

lemma validateVal_iff {after : List Char} (hafter : after.head? ≠ some '"') (val : List Char) :
    validateVal after val ↔ Quoted val ∨ ∃ c v, val = c :: v ∧ c ≠ '"' ∧ v.all isAlnum := by
  cases val with
  | nil => simp [validateVal, Quoted]
  | cons c v =>
    by_cases hc : c = '"'
    · subst hc
      rw [validateVal]
      obtain ⟨pre, post, hsplit, -, hdrop, hpre, hpost⟩ := scan_split (fun c => decide (c ≠ '"')) v
      have hnot : '"' ∉ pre := fun hm => by simpa using hpre _ hm
      have hright : (∃ c v', '"' :: v = c :: v' ∧ c ≠ '"' ∧ v'.all isAlnum) ↔ False := by
        refine iff_of_false ?_ id
        rintro ⟨c, v', h, hne, -⟩
        exact hne (List.cons.inj h).1.symm
      rw [hdrop, hright, or_false]
      cases post with
      | nil =>
        refine iff_of_false (by simpa using hafter) ?_
        rintro ⟨s, -, h⟩
        refine hnot ?_
        have hv : v = s ++ ['"'] := (List.cons.inj h).2
        rw [append_nil] at hsplit
        rw [← hsplit, hv]
        simp
      | cons q garbage =>
        have hq : q = '"' := by simpa using hpost q garbage rfl
        subst hq
        rw [List.isEmpty_iff]
        constructor
        · rintro rfl
          exact ⟨pre, hnot, by rw [hsplit]⟩
        rintro ⟨s, hs, h⟩
        have hv : pre ++ '"' :: garbage = s ++ '"' :: [] := hsplit ▸ (List.cons.inj h).2
        have hall : ∀ c ∈ s, decide (c ≠ '"') := fun c hc =>
          decide_eq_true fun he => hs (he ▸ hc)
        have h1 := dropWhile_append_stop (p := fun c => decide (c ≠ '"')) hpre
          (b := '"') rfl garbage
        have h2 := dropWhile_append_stop (p := fun c => decide (c ≠ '"')) hall (b := '"') rfl []
        rw [hv, h2] at h1
        exact (List.cons.inj h1).2.symm
    · rw [validateVal_word after hc]
      constructor
      · exact fun h => .inr ⟨c, v, rfl, hc, h⟩
      rintro (⟨s, -, h⟩ | ⟨_, v', h, -, hall⟩)
      · exact absurd (List.cons.inj h).1 hc
      · cases h
        exact hall

lemma validateName_iff (after : List Char) : ∀ (rest : List Char),
    validateName after rest ↔ rest.all isNameChar ∨
      ∃ name val, rest = name ++ '=' :: val ∧ name.all isNameChar ∧ validateVal after val
  | [] => by simp [validateName]
  | c :: rest => by
    rw [validateName]
    by_cases hc : isNameChar c
    · have hne : c ≠ '=' := by
        rintro rfl
        exact absurd hc (by decide)
      rw [if_pos hc, validateName_iff after rest, all_cons, hc]
      refine or_congr_right ⟨?_, ?_⟩
      · rintro ⟨name, val, rfl, hname, hval⟩
        exact ⟨c :: name, val, rfl, by rw [all_cons, hc, hname]; rfl, hval⟩
      rintro ⟨name, val, h, hname, hval⟩
      cases name with
      | nil => exact absurd (cons.inj h).1 hne
      | cons d name =>
        rw [all_cons, Bool.and_eq_true] at hname
        exact ⟨name, val, (cons.inj h).2, hname.2, hval⟩
    · rw [all_cons, Bool.eq_false_iff.2 hc]
      have hnil : ∀ name val, c :: rest = name ++ '=' :: val → name.all isNameChar →
          c = '=' ∧ rest = val := by
        intro name val h hname
        cases name with
        | nil => exact ⟨(cons.inj h).1, (cons.inj h).2⟩
        | cons =>
          rw [all_cons, Bool.and_eq_true, ← (cons.inj h).1] at hname
          exact absurd hname.1 hc
      by_cases heq : c = '='
      · rw [if_pos heq]
        constructor
        · exact fun h => .inr ⟨[], rest, by rw [heq]; rfl, rfl, h⟩
        rintro (h | ⟨name, val, h, hname, hval⟩)
        · cases h
        · rw [(hnil name val h hname).2]
          exact hval
      · rw [if_neg heq]
        refine iff_of_false nofun ?_
        rintro (h | ⟨name, val, h, hname, -⟩)
        · cases h
        · exact heq (hnil name val h hname).1

lemma validateVar_iff (hafter : (tokAfter expr t).head? ≠ some '"') :
    validateVar expr t ↔ VarForm (tokText expr t) ∨ OddStart (tokText expr t) := by
  rw [validateVar, Bool.and_eq_true, isPrefixOf_iff_prefix]
  generalize tokText expr t = text
  constructor
  · rintro ⟨⟨rest, rfl⟩, hname⟩
    rw [validateName_iff] at hname
    rcases hname with hall | ⟨name, val, rfl, hall, hval⟩
    · exact .inl ⟨rest, hall, .inl rfl⟩
    rcases (validateVal_iff hafter val).1 hval with hq | ⟨c, v, rfl, hc, hv⟩
    · exact .inl ⟨name, hall, .inr ⟨val, rfl, .inl hq⟩⟩
    cases hcode : isAlnum c with
    | true =>
      refine .inl ⟨name, hall, .inr ⟨_, rfl, .inr ⟨cons_ne_nil _ _, ?_⟩⟩⟩
      rw [all_cons, hcode, hv]
      rfl
    | false => exact .inr ⟨name, c, v, hall, rfl, hcode, hc, hv⟩
  · rintro (⟨name, hall, rfl | ⟨val, rfl, hval⟩⟩ | ⟨name, c, v, hall, rfl, -, hc, hv⟩)
    · refine ⟨prefix_append _ _, ?_⟩
      rw [validateName_iff]
      exact .inl hall
    · refine ⟨prefix_append _ _, ?_⟩
      rw [validateName_iff]
      refine .inr ⟨name, val, rfl, hall, (validateVal_iff hafter val).2 ?_⟩
      rcases hval with hq | ⟨hne, hword⟩
      · exact .inl hq
      obtain ⟨c, v, rfl⟩ := exists_cons_of_ne_nil hne
      rw [all_cons, Bool.and_eq_true] at hword
      refine .inr ⟨c, v, rfl, ?_, hword.2⟩
      rintro rfl
      exact absurd hword.1 (by decide)
    · refine ⟨prefix_append _ _, ?_⟩
      rw [validateName_iff]
      exact .inr ⟨name, _, rfl, hall, (validateVal_iff hafter _).2 (.inr ⟨c, v, rfl, hc, hv⟩)⟩

lemma OddStart.not_varForm (h : OddStart text) : ¬ VarForm text := by
  obtain ⟨_, c, v, hall, rfl, hcode, hc, -⟩ := h
  rintro ⟨name', hall', hform⟩
  have hstop : ∀ {n : List Char}, n.all isNameChar → ∀ w,
      (n ++ '=' :: w).dropWhile isNameChar = '=' :: w := fun hn w =>
    dropWhile_append_stop (all_eq_true.1 hn) (b := '=') rfl w
  rcases hform with h | ⟨_, h, hval⟩
  · have hmem : '=' ∈ name' := by
      rw [← append_cancel_left h]
      simp
    exact absurd (all_eq_true.1 hall' _ hmem) (by decide)
  have hdrop := congrArg (dropWhile isNameChar) (append_cancel_left h)
  rw [hstop hall, hstop hall'] at hdrop
  rcases hval with ⟨s, -, rfl⟩ | ⟨-, hword⟩
  · exact hc (cons.inj (cons.inj hdrop).2).1
  · rw [← (cons.inj hdrop).2, all_cons, hcode] at hword
    cases hword

/-- **`validate_var`**, for a token of the tokenizer, stays in the expression and accepts exactly
the right tokens, unless the value has an odd start. -/
theorem validateVar_exact_iff {expr : List Char} (hnul : '\x00' ∉ expr) {t : TstExprTok}
    (ht : t ∈ tokenize expr) (hvar : t.op = .var) :
    (∃ b, validateVarAt expr t = .ok b ∧ (b = true ↔ VarForm (tokText expr t))) ↔
      ¬ OddStart (tokText expr t) := by
  have hat := tokenAt_of_mem ht
  have hafter : (tokAfter expr t).head? ≠ some '"' := by
    rw [tokAfter, head?_drop]
    exact fun h => absurd (hat.after hvar _ h) (by decide)
  rw [validateVarAt_eq hat hnul]
  simp only [Except.ok.injEq, exists_eq_left', validateVar_iff hafter]
  constructor
  · exact fun h hodd => hodd.not_varForm (h.1 (.inr hodd))
  · exact fun h => ⟨fun h' => h'.resolve_right h, .inl⟩

theorem validateVar_exact_iff_quoted :
    (∃ b, validateVarAt "CONFIG_A=\"a b\" | CONFIG_B".toList ⟨.var, 0, 14⟩ = .ok b ∧
      (b = true ↔ VarForm (tokText "CONFIG_A=\"a b\" | CONFIG_B".toList ⟨.var, 0, 14⟩))) ↔
    ¬ OddStart (tokText "CONFIG_A=\"a b\" | CONFIG_B".toList ⟨.var, 0, 14⟩) :=
  validateVar_exact_iff (by decide) (by decide +kernel) rfl

/-- A value that is not alphanumeric is accepted. -/
theorem odd_start_accepted : (⟨.var, 0, 10⟩ : TstExprTok) ∈ tokenize "CONFIG_A=-".toList ∧
    validateVarAt "CONFIG_A=-".toList ⟨.var, 0, 10⟩ = .ok true ∧
    ¬ VarForm (tokText "CONFIG_A=-".toList ⟨.var, 0, 10⟩) := by
  refine ⟨by decide +kernel, by decide +kernel, ?_⟩
  exact OddStart.not_varForm ⟨['A'], '-', [], rfl, by decide +kernel, rfl, by decide, rfl⟩

end LtpDdt.Kconfig
