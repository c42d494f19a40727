/-
BoolExpr.Expr — the parser and evaluator of `lib/tst_bool_expr.c`.

* A C string is the `List Char` before its NUL. A token keeps its offset into the
  string and its length, as the source's token points into it and is not
  NUL-terminated.
* `op_stack[]` and `out[]` with their positions are lists; the head of `opStack` is the
  top. The list linked through `next` is `out` itself.
* An error is the token whose `priv` the source sets, with the message.
* `int stack[MAX_STACK]` is a partial memory: a slot that was never written, or an
  index outside `0..15`, is a `Fault` .
-/
import LtpDdt.Rpn.Machine

namespace LtpDdt.BoolExpr

/-! ## Tokens -/

/-- `enum tst_op`. -/
inductive TstOp where
  | not
  | and
  | or
  | var
  | lpar
  | rpar
  deriving DecidableEq

/-- `struct tst_expr_tok`: an operation and its slice of the expression. -/
structure TstExprTok where
  op : TstOp
  tok : Nat
  tokLen : Nat
  deriving DecidableEq

def charToOp : Char → TstOp
  | '(' => .lpar
  | ')' => .rpar
  | '&' => .and
  | '|' => .or
  | '!' => .not
  | _ => .var

variable (expr : List Char)

/-- `new_tok`: an empty slice gives no token. -/
def newTok (tok tokLen : Nat) : List TstExprTok :=
  if tokLen = 0 then []
  else [{ op := charToOp (expr.getD tok '\x00'), tok := tok, tokLen := tokLen }]

/-- The loop of `tokenize` at index `i`: `rest` is the string from `i` on, `j` the start of the
pending word, `quoted` the inner loop of the `'"'` case, up to the closing quote or the end. -/
def tokenizeLoop (expr : List Char) (quoted : Bool) : List Char → Nat → Nat → List TstExprTok
  | [], i, j => newTok expr j (i - j)
  | c :: rest, i, j =>
    if quoted then
      tokenizeLoop expr (c != '"') rest (i + 1) j
    else match c with
      | '(' | ')' | '!' | '&' | '|' =>
        newTok expr j (i - j) ++ newTok expr i 1 ++ tokenizeLoop expr false rest (i + 1) (i + 1)
      | '\t' | ' ' =>
        newTok expr j (i - j) ++ tokenizeLoop expr false rest (i + 1) (i + 1)
      | '"' => tokenizeLoop expr true rest (i + 1) j
      | _ => tokenizeLoop expr false rest (i + 1) j

def tokenize : List TstExprTok :=
  tokenizeLoop expr false expr 0 0

/-! ## The shunting yard -/

/-- `check_one`: may the token NOT follow this one? `none` is `TST_OP_NONE`, at the start. -/
def checkOne : Option TstOp → Bool
  | some .and | some .or | some .not | none | some .lpar => false
  | _ => true

/-- `check_two`: does an operand end here? -/
def checkTwo : Option TstOp → Bool
  | some .var | some .rpar => true
  | _ => false

/-- A rejected expression: the offending token and the text its `priv`
is set to. -/
structure YardErr where
  tok : TstExprTok
  msg : String
  deriving DecidableEq

/-- The locals of `shunting_yard` between two tokens. -/
structure Yard where
  opStack : List TstExprTok
  out : List TstExprTok
  prevOp : Option TstOp
  deriving DecidableEq

/-- `while (stack_peek_op(op_stack) == TST_OP_NOT)`: move to `out`. -/
def popNots : List TstExprTok → List TstExprTok → List TstExprTok × List TstExprTok
  | [], out => ([], out)
  | op :: stk, out =>
    if op.op = .not then popNots stk (out ++ [op]) else (op :: stk, out)

/-- `pop everything till (`, for the closing parenthesis `i`. -/
def popToLpar (i : TstExprTok) : List TstExprTok → List TstExprTok →
    Except YardErr (List TstExprTok × List TstExprTok)
  | [], _ => .error ⟨i, "Missing ("⟩
  | op :: stk, out =>
    if op.op = .lpar then .ok (stk, out) else popToLpar i stk (out ++ [op])

/-- `There can be at most one binary op on the stack`: move it to `out`. -/
def popBinary : List TstExprTok → List TstExprTok → List TstExprTok × List TstExprTok
  | op :: stk, out =>
    if op.op = .and ∨ op.op = .or then (stk, out ++ [op]) else (op :: stk, out)
  | [], out => ([], out)

/-- One round of the `for` loop over the tokens. -/
def yardStep (s : Yard) (i : TstExprTok) : Except YardErr Yard :=
  match i.op with
  | .var =>
    if checkOne s.prevOp then .error ⟨i, "Expected operation"⟩
    else
      let p := popNots s.opStack (s.out ++ [i])
      .ok ⟨p.1, p.2, some .var⟩
  | .lpar =>
    if checkOne s.prevOp then .error ⟨i, "Expected operation"⟩
    else .ok ⟨i :: s.opStack, s.out, some .lpar⟩
  | .rpar =>
    if !checkTwo s.prevOp then .error ⟨i, "Expected variable or )"⟩
    else
      match popToLpar i s.opStack s.out with
      | .error e => .error e
      | .ok q =>
        let p := popNots q.1 q.2
        .ok ⟨p.1, p.2, some .rpar⟩
  | .not =>
    if checkOne s.prevOp then .error ⟨i, "Expected operation"⟩
    else .ok ⟨i :: s.opStack, s.out, some .not⟩
  | .and | .or =>
    if !checkTwo s.prevOp then .error ⟨i, "Expected variable or ("⟩
    else
      let p := popBinary s.opStack s.out
      .ok ⟨i :: p.1, p.2, some i.op⟩

def yardRun : Yard → List TstExprTok → Except YardErr Yard
  | s, [] => .ok s
  | s, i :: rest =>
    match yardStep s i with
    | .error e => .error e
    | .ok s' => yardRun s' rest

/-- `pop remaining operations`. -/
def popRemaining : List TstExprTok → List TstExprTok → Except YardErr (List TstExprTok)
  | [], out => .ok out
  | op :: stk, out =>
    if op.op = .lpar then .error ⟨op, "Missing )"⟩ else popRemaining stk (out ++ [op])

/-- `shunting_yard`. The source reads `buf[cnt-1]`, so the token buffer must not be empty. -/
def shuntingYard (toks : List TstExprTok) (h : toks ≠ []) : Except YardErr (List TstExprTok) :=
  match yardRun ⟨[], [], none⟩ toks with
  | .error e => .error e
  | .ok s =>
    if !checkTwo (some (toks.getLast h).op) then
      .error ⟨toks.getLast h, "Unfinished expression"⟩
    else popRemaining s.opStack s.out

/-- `tst_bool_expr_parse` after `tokenize`; `none` is `NULL`, for an empty or a rejected list. -/
def parseToks (toks : List TstExprTok) : Option (List TstExprTok) :=
  if h : toks = [] then none
  else match shuntingYard toks h with
    | .error _ => none
    | .ok rpn => some rpn

def tstBoolExprParse : Option (List TstExprTok) :=
  parseToks (tokenize expr)

/-! ## The evaluator -/

/-- `MAX_STACK`. -/
def maxStack : Int := 16

/-- What undefined behaviour of the evaluator would look like. -/
inductive Fault where
  | outOfBounds (idx : Int)
  | notWritten (idx : Int)
  deriving DecidableEq

/-- `int stack[MAX_STACK]`, with the slots not written yet. -/
abbrev EvalMem := Int → Option Int

variable (stack : EvalMem)

def readSlot (k : Int) : Except Fault Int :=
  if 0 ≤ k ∧ k < maxStack then
    match stack k with
    | some v => .ok v
    | none => .error (.notWritten k)
  else .error (.outOfBounds k)

def writeSlot (k : Int) (v : Int) : Except Fault EvalMem :=
  if 0 ≤ k ∧ k < maxStack then .ok (fun k' => if k' = k then some v else stack k')
  else .error (.outOfBounds k)

/-- C's `!v`. -/
def cNot (v : Int) : Int := if v = 0 then 1 else 0

/-- `stack[pos] || stack[pos-1]`; the right side may not be read. -/
def cOr (pos : Int) : Except Fault Int := do
  let v ← readSlot stack pos
  if v ≠ 0 then return 1
  let u ← readSlot stack (pos - 1)
  return if u ≠ 0 then 1 else 0

/-- `stack[pos] && stack[pos-1]`, with the same short cut. -/
def cAnd (pos : Int) : Except Fault Int := do
  let v ← readSlot stack pos
  if v = 0 then return 0
  let u ← readSlot stack (pos - 1)
  return if u ≠ 0 then 1 else 0

/-- The loop of `tst_bool_expr_eval` over the RPN list. -/
def evalLoop (map : TstExprTok → Int) : List TstExprTok → EvalMem → Int → Except Fault Int
  | [], stack, _ => readSlot stack 0
  | i :: rest, stack, pos =>
    match i.op with
    | .not => do
        let v ← readSlot stack pos
        let stack ← writeSlot stack pos (cNot v)
        evalLoop map rest stack pos
    | .or => do
        let v ← cOr stack pos
        let stack ← writeSlot stack (pos - 1) v
        evalLoop map rest stack (pos - 1)
    | .and => do
        let v ← cAnd stack pos
        let stack ← writeSlot stack (pos - 1) v
        evalLoop map rest stack (pos - 1)
    | .var =>
      -- "Eval out of stack!"
      if pos + 1 ≥ maxStack then .ok (-1)
      else do
        let stack ← writeSlot stack (pos + 1) (map i)
        if (← readSlot stack (pos + 1)) = -1 then return -1
        evalLoop map rest stack (pos + 1)
    | _ => evalLoop map rest stack pos

def tstBoolExprEval (rpn : List TstExprTok) (map : TstExprTok → Int) : Except Fault Int :=
  evalLoop map rpn (fun _ => none) (-1)

end LtpDdt.BoolExpr
