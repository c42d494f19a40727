/-
BoolExpr.ShuntingYardTheorems — `shuntingYard` accepts exactly the
language of

    E ::= U | E '&' U | E '|' U        U ::= VAR | '!' U | '(' E ')'

and on success its output is the postfix code of the parse tree.

`tstBoolExprEval` decrements `pos` without looking, so everything rests on that.
`Repr` ties `stack[16]` to the stack of the postfix machine: with 0/1 variables the
loop computes the value of the tree (`evalLoop_exec`), with −1 allowed it never
faults (`evalLoop_safe`).
-/
import LtpDdt.BoolExpr.Expr

namespace LtpDdt.BoolExpr

open Rpn List Except

/-! ## The grammar -/

/-- Parse trees: the symbols at the nodes are the tokens themselves. -/
abbrev ParseTree := OpTree TstExprTok

def TstOp.isBinary : TstOp → Bool
  | .and | .or => true
  | _ => false

mutual

/-- `E ::= U | E '&' U | E '|' U`. -/
inductive DerivesE : List TstExprTok → ParseTree → Prop where
  | unary {ts e} : DerivesU ts e → DerivesE ts e
  | binary {ls rs a b} (t : TstExprTok) : DerivesE ls a → t.op.isBinary = true →
      DerivesU rs b → DerivesE (ls ++ t :: rs) (.bin t a b)

/-- `U ::= VAR | '!' U | '(' E ')'`. -/
inductive DerivesU : List TstExprTok → ParseTree → Prop where
  | var (t : TstExprTok) : t.op = .var → DerivesU [t] (.leaf t)
  | not {ts e} (t : TstExprTok) : t.op = .not → DerivesU ts e → DerivesU (t :: ts) (.un t e)
  | paren {ts e} (l r : TstExprTok) : l.op = .lpar → DerivesE ts e → r.op = .rpar →
      DerivesU (l :: ts ++ [r]) e

end

/-- The arity of a token in the RPN. Parentheses never get there. -/
def TstExprTok.arity (t : TstExprTok) : Arity :=
  match t.op with
  | .not => .one
  | .and | .or => .two
  | _ => .zero

lemma arity_of_isBinary {t : TstExprTok} (h : t.op.isBinary) : t.arity = .two := by
  cases hop : t.op <;> simp_all [TstOp.isBinary, TstExprTok.arity]

lemma isBinary_iff (t : TstExprTok) : t.op.isBinary ↔ t.op = .and ∨ t.op = .or := by
  cases hop : t.op <;> simp [TstOp.isBinary]

mutual

/-- A parse tree has as many children as its tokens ask for. -/
theorem DerivesE.wellAr : ∀ {ts e}, DerivesE ts e → e.WellAr TstExprTok.arity
  | _, _, .unary h => h.wellAr
  | _, _, .binary _ hl hb hr => ⟨arity_of_isBinary hb, hl.wellAr, hr.wellAr⟩

theorem DerivesU.wellAr : ∀ {ts e}, DerivesU ts e → e.WellAr TstExprTok.arity
  | _, _, .var t ht => by simp [OpTree.WellAr, TstExprTok.arity, ht]
  | _, _, .not t ht h => ⟨by simp [TstExprTok.arity, ht], h.wellAr⟩
  | _, _, .paren _ _ _ h _ => h.wellAr

end

/-! ## Small facts about the stack loops -/

/-- A run is cut at any token. -/
lemma yardRun_append (s : Yard) (xs ys : List TstExprTok) : yardRun s (xs ++ ys) =
      match yardRun s xs with
      | .error e => .error e
      | .ok s' => yardRun s' ys := by
  induction xs generalizing s with
  | nil => simp [yardRun]
  | cons x xs ih =>
    simp only [cons_append, yardRun]
    cases yardStep s x with
    | error => rfl
    | ok s' => exact ih s'

/-- The NOTs on top of the operator stack, in pop order. -/
def topNots (stk : List TstExprTok) : List TstExprTok :=
  stk.takeWhile (fun t => decide (t.op = .not))

def underNots (stk : List TstExprTok) : List TstExprTok :=
  stk.dropWhile (fun t => decide (t.op = .not))

/-- What `popNots` moves: the `!`s on top. -/
lemma popNots_eq (stk out : List TstExprTok) :
    popNots stk out = (underNots stk, out ++ topNots stk) := by
  induction stk generalizing out with
  | nil => simp [popNots, underNots, topNots]
  | cons t stk ih =>
    by_cases ht : t.op = .not
    · simp [popNots, ht, ih, underNots, topNots]
    · simp [popNots, ht, underNots, topNots]

def NoTopNot (stk : List TstExprTok) : Prop := ∀ t ∈ stk.head?, t.op ≠ .not

variable {stk pend toks c ts : List TstExprTok} {s s' : Yard} {i : TstExprTok}

lemma popNots_noTopNot (h : NoTopNot stk) (out : List TstExprTok) :
    popNots stk out = (stk, out) := by
  cases stk with
  | nil => rfl
  | cons t =>
    have ht : t.op ≠ .not := h t (by simp)
    simp [popNots, ht]

/-- A parenthesis level starts here: nothing on the stack, or a `(`. -/
def LevelBase (stk : List TstExprTok) : Prop := ∀ t ∈ stk.head?, t.op = .lpar

lemma LevelBase.noTopNot (h : LevelBase stk) : NoTopNot stk := by
  intro t ht
  rw [h t ht]
  decide

lemma popBinary_levelBase (h : LevelBase stk) (out : List TstExprTok) :
    popBinary stk out = (stk, out) := by
  cases stk with
  | nil => rfl
  | cons t =>
    have ht : t.op = .lpar := h t (by simp)
    simp [popBinary, ht]

/-! ## Completeness: every derivation is accepted -/

/-- What a level has on its stack after a whole expression: at most the
last binary operator. -/
def Pending (pend : List TstExprTok) : Prop :=
  pend = [] ∨ ∃ t : TstExprTok, pend = [t] ∧ t.op.isBinary = true

/-- A binary operator moves what is pending. -/
lemma popBinary_pending (hp : Pending pend) (hb : LevelBase stk) (out : List TstExprTok) :
    popBinary (pend ++ stk) out = (stk, out ++ pend) := by
  obtain rfl | ⟨t, rfl, ht⟩ := hp
  · simpa using popBinary_levelBase hb out
  · rw [isBinary_iff] at ht
    simp [popBinary, ht]

/-- A `)` moves what is pending. -/
lemma popToLpar_pending (hp : Pending pend) (i : TstExprTok) (stk out : List TstExprTok) :
    popToLpar i (pend ++ stk) out = popToLpar i stk (out ++ pend) := by
  obtain rfl | ⟨t, rfl, ht⟩ := hp
  · simp
  have hl : t.op ≠ .lpar := by intro h; simp [h, TstOp.isBinary] at ht
  simp [popToLpar, hl]

lemma popRemaining_pending (hp : Pending pend) (stk out : List TstExprTok) :
    popRemaining (pend ++ stk) out = popRemaining stk (out ++ pend) := by
  obtain rfl | ⟨t, rfl, ht⟩ := hp
  · simp
  have hl : t.op ≠ .lpar := by intro h; simp [h, TstOp.isBinary] at ht
  simp [popRemaining, hl]

mutual

/-- **The yard at a unary expression** writes its code. -/
theorem yardRun_derivesU : ∀ {ts e}, DerivesU ts e → ∀ (s : Yard), checkOne s.prevOp = false →
      ∃ p, checkTwo p ∧
        yardRun s ts = .ok ⟨underNots s.opStack, s.out ++ e.code ++ topNots s.opStack, p⟩
  | _, _, .var t ht, s, hs => by
    refine ⟨some .var, rfl, ?_⟩
    simp [yardRun, yardStep, ht, hs, popNots_eq, OpTree.code]
  | _, _, @DerivesU.not ts e t ht h, s, hs => by
    obtain ⟨p, hp, hrun⟩ := yardRun_derivesU h ⟨t :: s.opStack, s.out, some .not⟩ rfl
    refine ⟨p, hp, ?_⟩
    simp only [yardRun, yardStep, ht, hs, Bool.false_eq_true, if_false]
    rw [hrun]
    simp [underNots, topNots, ht, OpTree.code]
  | _, _, @DerivesU.paren ts e l r hl h hr, s, hs => by
    have hbase : LevelBase (l :: s.opStack) := by
      intro t ht; simp at ht; subst ht; exact hl
    obtain ⟨p, o, _, hp, hpend, hcode, hrun⟩ :=
      yardRun_derivesE h ⟨l :: s.opStack, s.out, some .lpar⟩ rfl hbase
    refine ⟨some .rpar, rfl, ?_⟩
    rw [cons_append, yardRun]
    simp only [yardStep, hl, hs, Bool.false_eq_true, if_false]
    rw [yardRun_append, hrun]
    simp only [yardRun, yardStep, hr, hp, Bool.not_true, Bool.false_eq_true, if_false]
    rw [popToLpar_pending hpend]
    simp only [popToLpar, hl, if_true, popNots_eq]
    rw [append_assoc s.out, hcode]

/-- **The yard at an expression**: its code is out or pending. -/
theorem yardRun_derivesE : ∀ {ts e}, DerivesE ts e → ∀ (s : Yard),
    checkOne s.prevOp = false → LevelBase s.opStack →
      ∃ p o pend, checkTwo p ∧ Pending pend ∧ o ++ pend = e.code ∧
        yardRun s ts = .ok ⟨pend ++ s.opStack, s.out ++ o, p⟩
  | _, _, @DerivesE.unary ts e h, s, hs, hb => by
    obtain ⟨p, hp, hrun⟩ := yardRun_derivesU h s hs
    have hpop := popNots_eq s.opStack []
    rw [popNots_noTopNot hb.noTopNot] at hpop
    have hu : underNots s.opStack = s.opStack := (congrArg Prod.fst hpop).symm
    have hn : topNots s.opStack = [] := (congrArg Prod.snd hpop).symm
    refine ⟨p, e.code, [], hp, .inl rfl, by simp, ?_⟩
    rw [hrun, hu, hn]
    simp
  | _, _, @DerivesE.binary ls rs a b t hl ht hr, s, hs, hb => by
    obtain ⟨p, o, pend, hp, hpend, hcode, hrun⟩ := yardRun_derivesE hl s hs hb
    have hone : checkOne (some t.op) = false := by
      rcases (isBinary_iff t).mp ht with h | h <;> simp [h, checkOne]
    have hnn : t.op ≠ .not := by
      intro h; simp [h, TstOp.isBinary] at ht
    obtain ⟨p', hp', hrun'⟩ := yardRun_derivesU hr ⟨t :: s.opStack, s.out ++ a.code, some t.op⟩ hone
    refine ⟨p', a.code ++ b.code, [t], hp', .inr ⟨t, rfl, ht⟩, rfl, ?_⟩
    rw [yardRun_append, hrun]
    simp only [yardRun]
    have hstep : yardStep ⟨pend ++ s.opStack, s.out ++ o, p⟩ t
        = .ok ⟨t :: s.opStack, s.out ++ a.code, some t.op⟩ := by
      rcases (isBinary_iff t).mp ht with h | h <;>
        simp [yardStep, h, hp, popBinary_pending hpend hb, ← hcode]
    rw [hstep]
    simp only [hrun']
    simp [underNots, topNots, hnn]

end

lemma DerivesE.ne_nil {ts e} (h : DerivesE ts e) : ts ≠ [] := by
  cases h with
  | unary h => cases h <;> simp
  | binary => simp

mutual

theorem DerivesE.checkTwo_getLast : ∀ {ts e}, DerivesE ts e →
    ∀ t ∈ ts.getLast?, checkTwo (some t.op)
  | _, _, .unary h => h.checkTwo_getLast
  | _, _, .binary t _ _ hr => by
    intro u hu
    rw [getLast?_append_cons] at hu
    have hne := DerivesE.ne_nil (.unary hr)
    rw [getLast?_cons_of_ne_nil hne] at hu
    exact hr.checkTwo_getLast u hu

theorem DerivesU.checkTwo_getLast : ∀ {ts e}, DerivesU ts e →
    ∀ t ∈ ts.getLast?, checkTwo (some t.op)
  | _, _, .var t ht => by simp [ht, checkTwo]
  | _, _, .not t _ h => by
    intro u hu
    have hne := DerivesE.ne_nil (.unary h)
    rw [getLast?_cons_of_ne_nil hne] at hu
    exact h.checkTwo_getLast u hu
  | _, _, .paren l r _ _ hr => by
    intro u hu
    rw [getLast?_concat] at hu
    simp only [Option.mem_def, Option.some.injEq] at hu
    subst hu
    simp [hr, checkTwo]

end

/-- **Completeness**: a derivable sequence is accepted, and the RPN is the code of its parse
tree. -/
theorem parseToks_of_derivesE {e : ParseTree} (h : DerivesE toks e) :
    parseToks toks = some e.code := by
  have hne := h.ne_nil
  have hbase : LevelBase ([] : List TstExprTok) := by simp [LevelBase]
  obtain ⟨p, o, _, -, hpend, hcode, hrun⟩ := yardRun_derivesE h ⟨[], [], none⟩ rfl hbase
  have hlast : checkTwo (some (toks.getLast hne).op) :=
    h.checkTwo_getLast _ (by rw [getLast?_eq_some_getLast hne]; simp)
  have hyard : shuntingYard toks hne = .ok e.code := by
    rw [shuntingYard, hrun]
    simp only [hlast]
    rw [popRemaining_pending hpend, ← hcode]
    simp [popRemaining]
  rw [parseToks, dif_neg hne, hyard]

/-! ## Soundness: whatever is accepted is derivable -/

mutual

/-- The yard at the bottom of a level, nothing of which has been read. -/
inductive Base : List TstExprTok → List TstExprTok → List TstExprTok → Prop where
  | start : Base [] [] []
  | lpar {c stk out} (l : TstExprTok) : l.op = .lpar → Open c stk out →
      Base (c ++ [l]) (l :: stk) out

/-- The yard when an operand is expected, after `c` was read. -/
inductive Open : List TstExprTok → List TstExprTok → List TstExprTok → Prop where
  | base {c stk out} : Base c stk out → Open c stk out
  | binary {c stk out ts e} (t : TstExprTok) : t.op.isBinary = true → Base c stk out →
      DerivesE ts e → Open (c ++ ts ++ [t]) (t :: stk) (out ++ e.code)
  | not {c stk out} (t : TstExprTok) : t.op = .not → Open c stk out → Open (c ++ [t]) (t :: stk) out

end

/-- The yard behind an operand: the level holds an expression, whose last binary operator may be on
the stack. -/
def Closed (c stk out : List TstExprTok) : Prop :=
  ∃ c₀ stk₀ out₀ ts e o pend, Base c₀ stk₀ out₀ ∧ DerivesE ts e ∧ Pending pend ∧
    o ++ pend = e.code ∧ c = c₀ ++ ts ∧ stk = pend ++ stk₀ ∧ out = out₀ ++ o

lemma Base.levelBase {c stk out} (h : Base c stk out) : LevelBase stk := by
  cases h with
  | start => simp [LevelBase]
  | lpar l hl => intro t ht; simp at ht; subst ht; exact hl

/-- An operand closes the pending NOTs. The induction is over the yard: each NOT on top of it joins
the unary just read. -/
lemma Open.close : ∀ {c stk out}, Open c stk out → ∀ {us u}, DerivesU us u →
    Closed (c ++ us) (underNots stk) (out ++ u.code ++ topNots stk)
  | c, stk, out, .base hb, us, u, hu => by
    have hpop := popNots_eq stk []
    rw [popNots_noTopNot hb.levelBase.noTopNot] at hpop
    have hun : underNots stk = stk := (congrArg Prod.fst hpop).symm
    have htn : topNots stk = [] := (congrArg Prod.snd hpop).symm
    exact ⟨c, stk, out, us, u, u.code, [], hb, .unary hu, .inl rfl, by simp, rfl,
      by simpa using hun, by simp [htn]⟩
  | _, _, _, @Open.binary c stk out ts e t ht hb he, us, u, hu => by
    have hnn : t.op ≠ .not := by intro h; simp [h, TstOp.isBinary] at ht
    exact ⟨c, stk, out, ts ++ t :: us, .bin t e u, e.code ++ u.code, [t], hb,
      .binary t he ht hu, .inr ⟨t, rfl, ht⟩, rfl, by simp,
      by simp [underNots, hnn], by simp [topNots, hnn]⟩
  | _, _, _, @Open.not c stk out t ht ho, us, u, hu => by
    have h := ho.close (.not t ht hu)
    simpa [underNots, topNots, ht, OpTree.code] using h

/-- The loop invariant: `prev_op` tells the kind of the yard. -/
def YardInv (c : List TstExprTok) (s : Yard) : Prop :=
  (checkOne s.prevOp = false ∧ checkTwo s.prevOp = false ∧ Open c s.opStack s.out) ∨
  (checkOne s.prevOp = true ∧ checkTwo s.prevOp = true ∧ Closed c s.opStack s.out)

lemma YardInv.open {c s} (h : YardInv c s) (hp : checkOne s.prevOp = false) :
    Open c s.opStack s.out := by
  rcases h with ⟨-, -, h⟩ | ⟨h, -, -⟩
  · exact h
  · simp [hp] at h

lemma YardInv.closed {c s} (h : YardInv c s) (hp : checkTwo s.prevOp) :
    Closed c s.opStack s.out := by
  rcases h with ⟨-, h, -⟩ | ⟨-, -, h⟩
  · simp [hp] at h
  · exact h

/-- `popToLpar` succeeds only inside a parenthesis level, and hands back the yard in which that was
opened. -/
lemma Closed.popToLpar {c stk out q} {r : TstExprTok} (hr : r.op = .rpar)
    (h : Closed c stk out) (hq : popToLpar r stk out = .ok q) :
    Closed (c ++ [r]) (underNots q.1) (q.2 ++ topNots q.1) := by
  obtain ⟨_, _, _, _, e, o, _, hb, he, hp, hcode, rfl, rfl, rfl⟩ := h
  rw [popToLpar_pending hp, append_assoc, hcode] at hq
  cases hb with
  | start => simp [BoolExpr.popToLpar] at hq
  | lpar l hl ho =>
    simp only [BoolExpr.popToLpar, hl, if_true, ok.injEq] at hq
    subst hq
    have h := ho.close (.paren l r hl he hr)
    simpa using h

/-- One token keeps the invariant. -/
lemma yardStep_inv (h : YardInv c s) (hs : yardStep s i = .ok s') : YardInv (c ++ [i]) s' := by
  unfold yardStep at hs
  cases hop : i.op
  all_goals
    simp only [hop] at hs
    split at hs
    · cases hs
    rename_i hp
  case var =>
    simp only [ok.injEq] at hs
    subst hs
    have hc := (h.open (by simpa using hp)).close (.var i hop)
    exact .inr ⟨rfl, rfl, by simpa [popNots_eq, OpTree.code] using hc⟩
  case lpar =>
    simp only [ok.injEq] at hs
    subst hs
    exact .inl ⟨rfl, rfl, .base (.lpar i hop (h.open (by simpa using hp)))⟩
  case rpar =>
    split at hs
    · cases hs
    rename_i q hq
    simp only [ok.injEq] at hs
    subst hs
    have hc := (h.closed (by simpa using hp)).popToLpar hop hq
    exact .inr ⟨rfl, rfl, by simpa [popNots_eq] using hc⟩
  case not =>
    simp only [ok.injEq] at hs
    subst hs
    exact .inl ⟨rfl, rfl, .not i hop (h.open (by simpa using hp))⟩
  case and | or =>
    -- AND and OR share one branch of the source
    simp only [ok.injEq] at hs
    subst hs
    obtain ⟨_, _, _, _, e, o, _, hb, he, hpend, hcode, rfl, hstk, hout⟩ :=
      h.closed (by simpa using hp)
    have hbin : i.op.isBinary := by simp [hop, TstOp.isBinary]
    refine .inl ⟨rfl, rfl, ?_⟩
    have ho := Open.binary i hbin hb he
    rw [← hcode] at ho
    rw [hstk, hout, popBinary_pending hpend hb.levelBase]
    simpa using ho

/-- **A run keeps the invariant.** -/
lemma yardRun_inv (h : YardInv c s) (hs : yardRun s ts = .ok s') : YardInv (c ++ ts) s' := by
  induction ts generalizing c s with
  | nil =>
    simp only [yardRun, ok.injEq] at hs
    subst hs
    simpa using h
  | cons t ts ih =>
    simp only [yardRun] at hs
    split at hs
    · cases hs
    rename_i s₁ h₁
    have := ih (yardStep_inv h h₁) hs
    simpa using this

lemma yardStep_prevOp (h : yardStep s i = .ok s') : s'.prevOp = some i.op := by
  unfold yardStep at h
  cases hop : i.op <;> simp only [hop] at h <;> split at h <;> try cases h
  all_goals try rfl
  split at h
  · cases h
  · simp only [ok.injEq] at h; subst h; rfl

/-- The last operator is the one of the last token. -/
lemma yardRun_prevOp (hne : ts ≠ []) (h : yardRun s ts = .ok s') :
    s'.prevOp = some (ts.getLast hne).op := by
  induction ts generalizing s with
  | nil => exact absurd rfl hne
  | cons t ts ih =>
    simp only [yardRun] at h
    split at h
    · cases h
    rename_i s₁ h₁
    cases ts with
    | nil =>
      simp only [yardRun, ok.injEq] at h
      subst h
      simpa using yardStep_prevOp h₁
    | cons => simpa using ih (by simp) h

/-- **Soundness**: an accepted token sequence is derivable. -/
theorem derivesE_of_parseToks {rpn} (h : parseToks toks = some rpn) : ∃ e, DerivesE toks e := by
  unfold parseToks at h
  split at h
  · cases h
  rename_i hne
  split at h
  · cases h
  rename_i r hy
  unfold shuntingYard at hy
  split at hy
  · cases hy
  rename_i s hrun
  split at hy
  · cases hy
  rename_i hlast
  have hinv : YardInv [] ⟨[], [], none⟩ := .inl ⟨rfl, rfl, .base .start⟩
  have hinv' := yardRun_inv hinv hrun
  have hprev := yardRun_prevOp hne hrun
  obtain ⟨_, _, _, ts, e, o, _, hb, he, hpend, -, hc, hstk, -⟩ :=
    hinv'.closed (by rw [hprev]; simpa using hlast)
  rw [hstk, popRemaining_pending hpend] at hy
  cases hb with
  | start =>
    have hts : toks = ts := by simpa using hc
    exact ⟨e, hts ▸ he⟩
  | lpar l hl => simp [popRemaining, hl] at hy

open TstExprTok

variable {stack : EvalMem} {i : TstExprTok} {v : Bool} {t : TstExprTok}

/-! ## The value of a parse tree -/

/-- `&`, `|` and `!` over truth values; a variable is what `map` says. -/
def boolSem (map : TstExprTok → Int) : Sem TstExprTok Bool where
  leaf := fun t => decide (map t ≠ 0)
  un := fun _ v => !v
  bin := fun t u v => if t.op = .and then u && v else u || v

def cBool (b : Bool) : Int := if b then 1 else 0

def RpnTok (t : TstExprTok) : Prop := t.op ≠ .lpar ∧ t.op ≠ .rpar

mutual

theorem DerivesE.rpnTok : ∀ {ts e}, DerivesE ts e → ∀ t ∈ e.code, RpnTok t
  | _, _, .unary h => h.rpnTok
  | _, _, .binary t hl hb hr => by
    intro u hu
    simp only [OpTree.code, mem_append, mem_singleton] at hu
    rcases hu with (hu | hu) | rfl
    · exact hl.rpnTok u hu
    · exact hr.rpnTok u hu
    · constructor <;> intro h <;> simp [h, TstOp.isBinary] at hb

theorem DerivesU.rpnTok : ∀ {ts e}, DerivesU ts e → ∀ t ∈ e.code, RpnTok t
  | _, _, .var t ht => by
    intro u hu
    simp only [OpTree.code, mem_singleton] at hu
    subst hu
    simp [RpnTok, ht]
  | _, _, .not t ht h => by
    intro u hu
    simp only [OpTree.code, mem_append, mem_singleton] at hu
    rcases hu with hu | rfl
    · exact h.rpnTok u hu
    · simp [RpnTok, ht]
  | _, _, .paren _ _ _ h _ => h.rpnTok

end

/-! ## The stack array -/

/-- `stack[0 .. len-1]` holds the machine's stack, bottom first. -/
def Repr (stack : EvalMem) : List Bool → Prop
  | [] => True
  | v :: stk => stack stk.length = some (cBool v) ∧ Repr stack stk

/-- `pos` when `n` slots are in use. -/
def top (n : Nat) : Int := (n : Int) - 1

@[simp] lemma top_succ (n : Nat) : top (n + 1) = n := by simp [top]

@[simp] lemma top_add_one (n : Nat) : top n + 1 = n := by simp [top]

/-- The store of `writeSlot`. -/
def setSlot (stack : EvalMem) (k : Int) (v : Int) : EvalMem :=
  fun k' => if k' = k then some v else stack k'

@[simp] lemma setSlot_self (stack : EvalMem) (k v : Int) : setSlot stack k v k = some v := by
  simp [setSlot]

variable {stk : List Bool} {map : TstExprTok → Int} {ts : List TstExprTok}

lemma Repr.setSlot (h : Repr stack stk) (n : Nat) (hn : stk.length ≤ n) (v : Int) :
    Repr (setSlot stack n v) stk := by
  induction stk with
  | nil => trivial
  | cons u stk ih =>
    simp only [length_cons] at hn
    have hne : (stk.length : Int) ≠ (n : Int) := by omega
    exact ⟨by simp [BoolExpr.setSlot, hne, h.1], ih h.2 (by omega)⟩

/-- A value that is pushed. -/
lemma Repr.push (h : Repr stack stk) (v : Bool) :
    Repr (BoolExpr.setSlot stack stk.length (cBool v)) (v :: stk) :=
  ⟨by simp, h.setSlot _ (Nat.le_refl _) _⟩

lemma readSlot_of_some {n : Nat} {v : Int} (hn : n < 16)
    (h : stack n = some v) : readSlot stack n = .ok v := by
  have hb : (0 : Int) ≤ n ∧ (n : Int) < maxStack := by simp only [maxStack]; omega
  simp [readSlot, hb, h]

lemma writeSlot_of_lt (stack : EvalMem) {n : Nat} (v : Int) (hn : n < 16) :
    writeSlot stack n v = .ok (setSlot stack n v) := by
  have hb : (0 : Int) ≤ n ∧ (n : Int) < maxStack := by simp only [maxStack]; omega
  rw [writeSlot, if_pos hb]
  rfl

/-! ## One instruction each -/

section
variable (map : TstExprTok → Int) {stack : EvalMem} {stk : List Bool}

/-- A `!` works on the top of the stack. -/
lemma evalLoop_not (hi : i.op = .not) (rest : List TstExprTok)
    (h : Repr stack (v :: stk)) (hlen : stk.length < 16) :
    ∃ stack', Repr stack' ((!v) :: stk) ∧ evalLoop map (i :: rest) stack (top (stk.length + 1))
        = evalLoop map rest stack' (top (stk.length + 1)) := by
  refine ⟨_, h.2.push (!v), ?_⟩
  have hv : cNot (cBool v) = cBool (!v) := by cases v <;> rfl
  simp only [evalLoop, hi, top_succ]
  rw [readSlot_of_some hlen h.1]
  simp only [bind, Except.bind, hv]
  rw [writeSlot_of_lt _ _ hlen]

lemma cOr_cAnd {u : Bool} (h : Repr stack (v :: u :: stk)) (hlen : stk.length + 1 < 16) :
    cOr stack (top (stk.length + 2)) = .ok (cBool (u || v)) ∧
      cAnd stack (top (stk.length + 2)) = .ok (cBool (u && v)) := by
  have hv : readSlot stack ((stk.length + 1 : Nat) : Int) = .ok (cBool v) :=
    readSlot_of_some hlen h.1
  have hu : readSlot stack ((stk.length : Nat) : Int) = .ok (cBool u) :=
    readSlot_of_some (by omega) h.2.1
  have hpos : top (stk.length + 2) = ((stk.length + 1 : Nat) : Int) := top_succ _
  have hpos' : ((stk.length + 1 : Nat) : Int) - 1 = ((stk.length : Nat) : Int) := by omega
  rw [cOr, cAnd, hpos, hpos', hv, hu]
  cases v <;> cases u <;> exact ⟨rfl, rfl⟩

/-- A binary operator works on the two top values. -/
lemma evalLoop_binary (hi : i.op.isBinary) (rest : List TstExprTok) {u}
    (h : Repr stack (v :: u :: stk)) (hlen : stk.length + 1 < 16) :
    ∃ stack', Repr stack' ((boolSem map).bin i u v :: stk) ∧
      evalLoop map (i :: rest) stack (top (stk.length + 2))
        = evalLoop map rest stack' (top (stk.length + 1)) := by
  refine ⟨_, h.2.2.push _, ?_⟩
  obtain ⟨hor, hand⟩ := cOr_cAnd h hlen
  have hpos : top (stk.length + 2) - 1 = ((stk.length : Nat) : Int) := by simp only [top]; omega
  rcases (isBinary_iff i).mp hi with hop | hop
  · simp only [evalLoop, hop, hand, bind, Except.bind, hpos, boolSem, if_true]
    rw [writeSlot_of_lt _ _ (by omega), top_succ]
  have hne : (TstOp.or = TstOp.and) = False := by simp
  simp only [evalLoop, hop, hor, bind, Except.bind, hpos, boolSem, hne, if_false]
  rw [writeSlot_of_lt _ _ (by omega), top_succ]

variable (hi : i.op = .var)

include hi

variable (rest : List TstExprTok)

include rest

/-- A seventeenth value is refused. -/
lemma evalLoop_var_full (hlen : 16 ≤ stk.length) :
    evalLoop map (i :: rest) stack (top stk.length) = .ok (-1) := by
  have hfull : (stk.length : Int) ≥ maxStack := by simp only [maxStack]; omega
  simp [evalLoop, hi, hfull]

/-- An undefined variable ends the evaluation. -/
lemma evalLoop_var_undefined (hlen : stk.length < 16) (hmap : map i = -1) :
    evalLoop map (i :: rest) stack (top stk.length) = .ok (-1) := by
  simp only [evalLoop, hi, top_add_one]
  rw [writeSlot_of_lt _ _ hlen]
  simp only [bind, Except.bind]
  rw [readSlot_of_some hlen (setSlot_self _ _ _)]
  simp [hmap, pure, Except.pure]

/-- A variable is pushed. -/
lemma evalLoop_var (h : Repr stack stk) (hlen : stk.length < 16) (hmap : map i = 0 ∨ map i = 1) :
    ∃ stack', Repr stack' ((boolSem map).leaf i :: stk) ∧
      evalLoop map (i :: rest) stack (top stk.length)
        = evalLoop map rest stack' (top (stk.length + 1)) := by
  refine ⟨_, h.push _, ?_⟩
  have hroom : ¬ (stk.length : Int) ≥ maxStack := by simp only [maxStack]; omega
  have hv : map i = cBool ((boolSem map).leaf i) := by
    rcases hmap with h | h <;> simp [h, boolSem, cBool]
  have hne : map i ≠ -1 := by omega
  simp only [evalLoop, hi, top_add_one, hroom]
  rw [writeSlot_of_lt _ _ hlen]
  simp only [bind, Except.bind]
  rw [readSlot_of_some hlen (setSlot_self _ _ _)]
  simp only [hne, if_false, top_succ]
  rw [← hv]

end

/-! ## The loop computes the value -/

lemma arity_zero_iff (h : RpnTok t) : t.arity = .zero ↔ t.op = .var := by
  obtain ⟨_, _⟩ := h
  cases hop : t.op <;> simp_all [arity]

lemma arity_one_iff : t.arity = .one ↔ t.op = .not := by cases hop : t.op <;> simp [arity, hop]

lemma arity_two_iff : t.arity = .two ↔ t.op.isBinary := by
  cases hop : t.op <;> simp [arity, hop, TstOp.isBinary]

/-- **The loop runs the code** on the stack of booleans. -/
lemma evalLoop_exec (map : TstExprTok → Int) : ∀ ts stack (stk : List Bool) b,
      (∀ t ∈ ts, RpnTok t) → (∀ t ∈ ts, t.op = .var → map t = 0 ∨ map t = 1) → Repr stack stk →
        peak arity stk.length ts ≤ 16 →
      exec arity (boolSem map) ts stk = some [b] →
      evalLoop map ts stack (top stk.length) = .ok (cBool b)
  | [], stack, stk, b, _, _, hr, _, hx => by
    simp only [exec, Option.some.injEq] at hx
    subst hx
    exact readSlot_of_some (n := 0) (by omega) hr.1
  | t :: ts, stack, stk, b, htok, hmap, hr, hpk, hx => by
    obtain ⟨ht, htok'⟩ := forall_mem_cons.1 htok
    obtain ⟨hmapt, hmap'⟩ := forall_mem_cons.1 hmap
    have hlen : stk.length ≤ 16 := Nat.le_trans (le_peak _ _ _) hpk
    cases har : t.arity with
    | zero =>
      have hpk' : peak arity (stk.length + 1) ts ≤ 16 := by simp only [peak, har] at hpk; omega
      have hroom := le_peak arity (stk.length + 1) ts
      have hvar : t.op = .var := (arity_zero_iff ht).mp har
      obtain ⟨stack', hr', he⟩ := evalLoop_var map hvar ts hr (by omega) (hmapt hvar)
      rw [he]
      exact evalLoop_exec map ts stack' (_ :: stk) b htok' hmap' hr' hpk'
        (by simpa [exec, har] using hx)
    | one =>
      cases stk with
      | nil => simp [exec, har] at hx
      | cons v stk =>
        simp only [length_cons] at hlen
        obtain ⟨stack', hr', he⟩ := evalLoop_not map (arity_one_iff.mp har) ts hr (by omega)
        rw [length_cons, he]
        exact evalLoop_exec map ts stack' (_ :: stk) b htok' hmap' hr'
          (by simp only [peak, har, length_cons] at hpk ⊢; omega)
          (by simpa [exec, har, boolSem] using hx)
    | two =>
      cases stk with
      | nil => simp [exec, har] at hx
      | cons v stk =>
        cases stk with
        | nil => simp [exec, har] at hx
        | cons u stk =>
          simp only [length_cons] at hlen
          obtain ⟨stack', hr', he⟩ := evalLoop_binary map (arity_two_iff.mp har) ts hr (by omega)
          rw [length_cons, length_cons, he]
          exact evalLoop_exec map ts stack' (_ :: stk) b htok' hmap' hr'
            (by simp only [peak, har, length_cons, Nat.add_sub_cancel] at hpk ⊢; omega)
            (by simpa [exec, har] using hx)

/-- The code of an expression evaluates to its value. -/
lemma tstBoolExprEval_code {toks} {e : ParseTree} (he : DerivesE toks e) (map : TstExprTok → Int)
    (hmap : ∀ t ∈ e.code, t.op = .var → map t = 0 ∨ map t = 1)
    (hpk : peak arity 0 e.code ≤ 16) :
    tstBoolExprEval e.code map = .ok (cBool (e.value (boolSem map))) := by
  refine evalLoop_exec map e.code _ [] _ he.rpnTok hmap trivial hpk ?_
  have h := exec_code_append arity (boolSem map) e he.wellAr [] []
  rwa [append_nil] at h

/-- **`shunting_yard` is a parser for the grammar.** It accepts exactly the derivable sequences, and
the RPN evaluates to the value of every parse tree. -/
theorem shuntingYard_correct (toks : List TstExprTok) :
    ((∃ rpn, parseToks toks = some rpn) ↔ ∃ e, DerivesE toks e) ∧ ∀ rpn, parseToks toks = some rpn →
        ∀ map : TstExprTok → Int, (∀ t ∈ rpn, t.op = .var → map t = 0 ∨ map t = 1) →
          peak TstExprTok.arity 0 rpn ≤ 16 → ∀ e, DerivesE toks e →
              tstBoolExprEval rpn map = .ok (cBool (e.value (boolSem map))) := by
  refine ⟨⟨fun ⟨rpn, h⟩ => derivesE_of_parseToks h,
    fun ⟨e, he⟩ => ⟨e.code, parseToks_of_derivesE he⟩⟩, ?_⟩
  intro rpn hrpn map hmap hpk e he
  have hcode : rpn = e.code := by
    rw [parseToks_of_derivesE he] at hrpn
    exact (Option.some.inj hrpn).symm
  subst hcode
  exact tstBoolExprEval_code he map hmap hpk

/-- The token of kind `op` at offset `k`, one character long. -/
def tokAt (op : TstOp) (k : Nat) : TstExprTok := ⟨op, k, 1⟩

/-- `A|B&C` with `A = B = 1`, `C = 0`: left association gives `(A|B)&C`, which is false; the usual
precedence would give true. -/
theorem shuntingYard_correct_or_and :
    parseToks [tokAt .var 0, tokAt .or 1, tokAt .var 2, tokAt .and 3, tokAt .var 4]
        = some [tokAt .var 0, tokAt .var 2, tokAt .or 1, tokAt .var 4, tokAt .and 3] ∧
      tstBoolExprEval [tokAt .var 0, tokAt .var 2, tokAt .or 1, tokAt .var 4, tokAt .and 3]
        (fun t => if t.tok = 4 then 0 else 1) = .ok 0 := by
  refine ⟨by decide, ?_⟩
  have h := (shuntingYard_correct
    [tokAt .var 0, tokAt .or 1, tokAt .var 2, tokAt .and 3, tokAt .var 4]).2
    [tokAt .var 0, tokAt .var 2, tokAt .or 1, tokAt .var 4, tokAt .and 3] (by decide)
    (fun t => if t.tok = 4 then 0 else 1) (by decide) (by decide) _
    (.binary (tokAt .and 3)
      (.binary (tokAt .or 1) (.unary (.var (tokAt .var 0) rfl)) rfl (.var (tokAt .var 2) rfl))
      rfl (.var (tokAt .var 4) rfl))
  exact h

/-! ## When the loop gives up -/

/-- The evaluator, on `h` slots in use, stops early on this RPN: a variable
finds no room, or `map` does not define it. -/
def Aborts (map : TstExprTok → Int) : Nat → List TstExprTok → Prop
  | _, [] => False
  | h, t :: ts =>
    match t.arity with
    | .zero => 16 ≤ h ∨ map t = -1 ∨ Aborts map (h + 1) ts
    | .one => Aborts map h ts
    | .two => Aborts map (h - 1) ts

/-- **The loop stays in its stack** and reads no unset slot. -/
lemma evalLoop_safe (map : TstExprTok → Int) : ∀ ts stack (stk : List Bool),
    (∀ t ∈ ts, RpnTok t) → (∀ t ∈ ts, t.op = .var → map t = -1 ∨ map t = 0 ∨ map t = 1) →
      Repr stack stk → stk.length ≤ 16 → Safe arity stk.length ts →
      ∃ r, evalLoop map ts stack (top stk.length) = .ok r ∧
        (r = -1 ↔ Aborts map stk.length ts) ∧ (r ≠ -1 → r = 0 ∨ r = 1)
  | [], stack, stk, _, _, hr, _, hs => by
    obtain ⟨b, rfl⟩ : ∃ b, stk = [b] := length_eq_one_iff.mp hs
    refine ⟨cBool b, readSlot_of_some (n := 0) (by omega) hr.1, ?_, ?_⟩
    · cases b <;> simp [cBool, Aborts]
    · cases b <;> simp [cBool]
  | t :: ts, stack, stk, htok, hmap, hr, hlen, hs => by
    obtain ⟨ht, htok'⟩ := forall_mem_cons.1 htok
    obtain ⟨hmapt, hmap'⟩ := forall_mem_cons.1 hmap
    cases har : t.arity with
    | zero =>
      have hvar : t.op = .var := (arity_zero_iff ht).mp har
      simp only [Aborts, har]
      by_cases hfull : 16 ≤ stk.length
      · exact ⟨-1, evalLoop_var_full map hvar ts hfull, by simp [hfull], by simp⟩
      rcases hmapt hvar with hneg | hval
      · exact ⟨-1, evalLoop_var_undefined map hvar ts (by omega) hneg, by simp [hneg], by simp⟩
      obtain ⟨stack', hr', he⟩ := evalLoop_var map hvar ts hr (by omega) hval
      have hs' : Safe arity (stk.length + 1) ts := by simpa [Safe, har] using hs
      obtain ⟨r, hev, hab, hbit⟩ := evalLoop_safe map ts stack' (_ :: stk) htok' hmap' hr'
        (by simp only [length_cons]; omega) hs'
      have hne : map t ≠ -1 := by omega
      exact ⟨r, by rw [he]; exact hev, by rw [hab]; simp [hfull, hne], hbit⟩
    | one =>
      obtain ⟨hpos, hs'⟩ : 1 ≤ stk.length ∧ Safe arity stk.length ts := by
        simpa [Safe, har] using hs
      obtain ⟨v, stk, rfl⟩ := exists_cons_of_length_pos hpos
      simp only [length_cons] at hlen hs' ⊢
      obtain ⟨stack', hr', he⟩ := evalLoop_not map (arity_one_iff.mp har) ts hr (by omega)
      obtain ⟨r, hev, hab, hbit⟩ := evalLoop_safe map ts stack' (_ :: stk) htok' hmap' hr' hlen hs'
      exact ⟨r, by rw [he]; exact hev, by simpa [Aborts, har] using hab, hbit⟩
    | two =>
      obtain ⟨hpos, hs'⟩ : 2 ≤ stk.length ∧ Safe arity (stk.length - 1) ts := by
        simpa [Safe, har] using hs
      obtain ⟨v, stk, rfl⟩ := exists_cons_of_length_pos (by omega : 0 < stk.length)
      simp only [length_cons] at hpos
      obtain ⟨u, stk, rfl⟩ := exists_cons_of_length_pos (by omega : 0 < stk.length)
      simp only [length_cons] at hlen hs' ⊢
      obtain ⟨stack', hr', he⟩ := evalLoop_binary map (arity_two_iff.mp har) ts hr (by omega)
      obtain ⟨r, hev, hab, hbit⟩ :=
        evalLoop_safe map ts stack' (_ :: stk) htok' hmap' hr'
          (by simp only [length_cons]; omega) hs'
      exact ⟨r, by rw [he]; exact hev, by simpa [Aborts, har] using hab, hbit⟩

/-! ### The two reasons, read off the prefixes -/

/-- The slots in use after evaluating `p` on an empty stack. -/
def slots (p : List TstExprTok) : Int := height TstExprTok.arity p

/-- `p` was evaluated from `h` slots on, and the variable `t` behind it needs a 17th slot. -/
def OutOfStackFrom (map : TstExprTok → Int) (h : Nat) (rpn : List TstExprTok) : Prop :=
  ∃ p t, p ++ [t] <+: rpn ∧ t.op = .var ∧ h + slots (p ++ [t]) = 17 ∧
    (∀ q, q <+: p → h + slots q ≤ 16) ∧ ∀ v ∈ p, v.op = .var → map v ≠ -1

/-- `map` returned −1 for `t`, and nothing up to it needs a 17th slot. -/
def UndefinedFrom (map : TstExprTok → Int) (h : Nat) (rpn : List TstExprTok) : Prop :=
  ∃ p t, p ++ [t] <+: rpn ∧ t.op = .var ∧ map t = -1 ∧ ∀ q, q <+: p ++ [t] → h + slots q ≤ 16

lemma slots_nil : slots [] = 0 := rfl

lemma slots_cons (t : TstExprTok) (p : List TstExprTok) : slots (t :: p) = slots [t] + slots p :=
  height_append arity [t] p

/-- The reasons for `t :: ts` are those for `ts`, once `t` was evaluated; `h'` slots are in use
then. -/
lemma outOfStackFrom_cons {h h' : Nat} (hh : (h : Int) + slots [t] = h') (hle : h ≤ 16) :
    OutOfStackFrom map h (t :: ts) ↔ (t.op = .var ∧ h + slots [t] = 17) ∨
        ((t.op = .var → map t ≠ -1) ∧ OutOfStackFrom map h' ts) := by
  constructor
  · rintro ⟨p, u, hpre, hu, h17, hq, hdef⟩
    cases p with
    | nil =>
      simp only [nil_append, cons_prefix_cons] at hpre
      obtain ⟨rfl, -⟩ := hpre
      exact .inl ⟨hu, h17⟩
    | cons x p =>
      rw [cons_append, cons_prefix_cons] at hpre
      obtain ⟨rfl, hpre⟩ := hpre
      refine .inr ⟨hdef x (by simp), p, u, hpre, hu, ?_, ?_, fun v hv => hdef v (by simp [hv])⟩
      · rw [cons_append, slots_cons] at h17; omega
      intro q hqp
      have := hq (x :: q) (by simpa using hqp)
      rw [slots_cons] at this; omega
  · rintro (⟨hv, h17⟩ | ⟨hdef, p, u, hpre, hu, h17, hq, hall⟩)
    · refine ⟨[], t, by simp, hv, by simpa using h17, ?_, by simp⟩
      intro q hqp
      rw [prefix_nil] at hqp
      subst hqp
      rw [slots_nil]; omega
    refine ⟨t :: p, u, by simpa using hpre, hu, ?_, ?_, ?_⟩
    · rw [cons_append, slots_cons]; omega
    · intro q hqp
      rcases prefix_cons_iff.mp hqp with rfl | ⟨q', rfl, hq'⟩
      · rw [slots_nil]; omega
      · have := hq q' hq'
        rw [slots_cons]; omega
    · intro v hv
      rcases mem_cons.mp hv with rfl | hv
      · exact hdef
      · exact hall v hv

/-- One token further on to an undefined variable. -/
lemma undefinedFrom_cons {h h' : Nat} (hh : (h : Int) + slots [t] = h') (hle : h ≤ 16) :
    UndefinedFrom map h (t :: ts) ↔
      h' ≤ 16 ∧ ((t.op = .var ∧ map t = -1) ∨ UndefinedFrom map h' ts) := by
  constructor
  · rintro ⟨p, u, hpre, hu, hneg, hq⟩
    cases p with
    | nil =>
      simp only [nil_append, cons_prefix_cons] at hpre
      obtain ⟨rfl, -⟩ := hpre
      have := hq [u] (by simp)
      exact ⟨by omega, .inl ⟨hu, hneg⟩⟩
    | cons x p =>
      rw [cons_append, cons_prefix_cons] at hpre
      obtain ⟨rfl, hpre⟩ := hpre
      have h1 := hq [x] (by simp)
      refine ⟨by omega, .inr ⟨p, u, hpre, hu, hneg, ?_⟩⟩
      intro q hqp
      have := hq (x :: q) (by simpa using hqp)
      rw [slots_cons] at this; omega
  · rintro ⟨h16, ⟨hv, hneg⟩ | ⟨p, u, hpre, hu, hneg, hq⟩⟩
    · refine ⟨[], t, by simp, hv, hneg, ?_⟩
      intro q hqp
      rcases prefix_cons_iff.mp hqp with rfl | ⟨q', rfl, hq'⟩
      · rw [slots_nil]; omega
      rw [prefix_nil] at hq'
      subst hq'
      omega
    · refine ⟨t :: p, u, by simpa using hpre, hu, hneg, ?_⟩
      intro q hqp
      rcases prefix_cons_iff.mp hqp with rfl | ⟨q', rfl, hq'⟩
      · rw [slots_nil]; omega
      · have := hq q' hq'
        rw [slots_cons]; omega

/-- The two ways to end early. -/
lemma aborts_iff (map : TstExprTok → Int) : ∀ ts h,
    (∀ t ∈ ts, RpnTok t) → h ≤ 16 → Safe arity h ts →
      (Aborts map h ts ↔ OutOfStackFrom map h ts ∨ UndefinedFrom map h ts)
  | [], h, _, _, _ => by
    simp [Aborts, OutOfStackFrom, UndefinedFrom]
  | t :: ts, h, htok, hle, hs => by
    obtain ⟨ht, htok'⟩ := forall_mem_cons.1 htok
    cases har : t.arity with
    | zero =>
      have hvar : t.op = .var := (arity_zero_iff ht).mp har
      have hslot : slots [t] = 1 := by simp [slots, height, har]
      have hh : (h : Int) + slots [t] = (h + 1 : Nat) := by rw [hslot]; rfl
      rw [outOfStackFrom_cons hh hle, undefinedFrom_cons hh hle]
      simp only [Aborts, har, hvar, hslot, forall_const]
      by_cases hfull : 16 ≤ h
      · have h16 : h = 16 := by omega
        simp [h16]
      by_cases hneg : map t = -1
      · simp; omega
      have hs' : Safe arity (h + 1) ts := by simpa [Safe, har] using hs
      have ih := aborts_iff map ts (h + 1) htok' (by omega) hs'
      have h17 : ¬ (h : Int) + 1 = 17 := by omega
      have h16 : h + 1 ≤ 16 := by omega
      simp [hfull, hneg, ih, h17, h16]
    | one =>
      have hnv : t.op ≠ .var := by rw [arity_one_iff.mp har]; decide
      have hslot : slots [t] = 0 := by simp [slots, height, har]
      have hh : (h : Int) + slots [t] = h := by rw [hslot]; omega
      have hs' : Safe arity h ts := by simp only [Safe, har] at hs; exact hs.2
      rw [outOfStackFrom_cons hh hle, undefinedFrom_cons hh hle]
      simp [Aborts, har, hnv, hle, aborts_iff map ts h htok' hle hs']
    | two =>
      have hnv : t.op ≠ .var := by intro hv; simp [arity, hv] at har
      have hslot : slots [t] = -1 := by simp [slots, height, har]
      obtain ⟨h2, hs'⟩ : 2 ≤ h ∧ Safe arity (h - 1) ts := by simpa [Safe, har] using hs
      have hh : (h : Int) + slots [t] = (h - 1 : Nat) := by rw [hslot]; omega
      have hle' : h - 1 ≤ 16 := by omega
      rw [outOfStackFrom_cons hh hle, undefinedFrom_cons hh hle]
      simp [Aborts, har, hnv, hle', aborts_iff map ts (h - 1) htok' hle' hs']

/-- The evaluator ran out of stack: an evaluated prefix needs a 17th slot. -/
def OutOfStack (map : TstExprTok → Int) (rpn : List TstExprTok) : Prop :=
  OutOfStackFrom map 0 rpn

/-- `map` returned −1 for a variable the evaluator reached. -/
def Undefined (map : TstExprTok → Int) (rpn : List TstExprTok) : Prop :=
  UndefinedFrom map 0 rpn

/-- **`tst_bool_expr_eval` is safe on every accepted expression**: it reads no slot it did not write
and stays inside `stack[0..15]`; it returns −1 exactly for the two documented reasons, and 0 or 1
otherwise. -/
theorem tstBoolExprEval_safe (expr : List Char) (rpn : List TstExprTok)
    (hparse : tstBoolExprParse expr = some rpn) (map : TstExprTok → Int)
    (hmap : ∀ t ∈ rpn, t.op = .var → map t = -1 ∨ map t = 0 ∨ map t = 1) :
    ∃ r, tstBoolExprEval rpn map = .ok r ∧
      (r = -1 ↔ OutOfStack map rpn ∨ Undefined map rpn) ∧ (r ≠ -1 → r = 0 ∨ r = 1) := by
  obtain ⟨e, he⟩ := derivesE_of_parseToks hparse
  have hcode : rpn = e.code := by
    have h := parseToks_of_derivesE he
    rw [tstBoolExprParse, h] at hparse
    exact (Option.some.inj hparse).symm
  subst hcode
  have hsafe := safe_code TstExprTok.arity e he.wellAr
  obtain ⟨r, hev, hab, hbit⟩ :=
    evalLoop_safe map e.code (fun _ => none) [] he.rpnTok hmap trivial (by simp) hsafe
  exact ⟨r, hev, hab.trans (aborts_iff map e.code 0 he.rpnTok (by omega) hsafe), hbit⟩

/-- `!A` with `A` undefined: the evaluator gives up, as the library's own test expects. -/
theorem tstBoolExprEval_safe_not_undefined :
    tstBoolExprEval [tokAt .var 1, tokAt .not 0] (fun _ => -1) = .ok (-1) ∧
      (OutOfStack (fun _ => -1) [tokAt .var 1, tokAt .not 0] ∨
        Undefined (fun _ => -1) [tokAt .var 1, tokAt .not 0]) := by
  obtain ⟨r, hev, hab, -⟩ := tstBoolExprEval_safe ['!', 'A'] [tokAt .var 1, tokAt .not 0]
    (by decide) (fun _ => -1) (by decide)
  have hr : tstBoolExprEval [tokAt .var 1, tokAt .not 0] (fun _ => -1) = .ok (-1) := by rfl
  have hneg : r = -1 := by injection hev with h; exact h.symm
  exact ⟨hr, hab.mp hneg⟩

end LtpDdt.BoolExpr
