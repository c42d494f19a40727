/-
Metaparse.Parse — the arrays of `metadata/metaparse.c`.

* `ftell` and `fseek` keep and restore what is left of a file.
* The macros are the table of `hsearch` when the array is read.
* A `NULL` string is `none`. A loop has a bound on its rounds, more than the bytes that
  are left, since a round consumes a token.
* The counters of `parse_get_array_len` change by at most one in a round; for a text
  below 2 GiB an `int` holds them (`LenState.read_within`, `parseGetArrayLen_le`).
-/
import LtpDdt.Metaparse.Lexer

namespace LtpDdt.Metaparse

open DataStorage
open CTypes (asc ascii)

/-- A result, and what is left of the file. -/
abbrev Out (α : Type) := α × List UInt8

variable (inp : List UInt8)

/-- `next_token(f, NULL)` -/
def nextTok : Except Stop (Out (Option (List UInt8))) := do
  let r ← nextToken none inp
  .ok (r.1, r.2.1)

/-! ## Macros -/

/-- The table of `hsearch`. -/
abbrev Macros := List (List UInt8 × List UInt8)

def tryApplyMacro (macros : Macros) (res : List UInt8) : List UInt8 :=
  (macros.lookup res).getD res

/-! ## Arrays -/

/-- `data_node_hash_add`; `id` may be no string, and is looked at only if there is room. -/
def hashAddId (node : DataNode) (id : Option (List UInt8)) (payload : DataNode) :
    Except Stop DataNode :=
  match node, id with
  | .hash elems, none => if elems.length = maxElems then .ok node else .error .fault
  | _, none => .ok node
  | _, some id => .ok (dataNodeHashAdd node id payload)

/-- `id+1`, which is no string if `id` is empty. -/
def idTail : List UInt8 → Option (List UInt8)
  | [] => none
  | _ :: id => some id

/-- `finalize_array_entry`: the node and the new `id`; the new `val` is
`NULL`. -/
def finalizeArrayEntry (val id : Option (List UInt8)) (node : DataNode) :
    Except Stop (DataNode × Option (List UInt8)) :=
  match val, id with
  | none, id => .ok (node, id)
  | some val, none => .ok (dataNodeArrayAdd node (.string val), none)
  | some val, some id => do
      let node ← hashAddId node (idTail id) (.string val)
      .ok (node, none)

def strAppend (res : Option (List UInt8)) (append : List UInt8) : List UInt8 :=
  res.getD [] ++ append

/-- The inner loop of `array_is_hash`: the file behind the closing brace, or `none`. -/
def skipNested : Nat → Nat → List UInt8 → Except Stop (Option (List UInt8))
  | 0, _, _ => .error .fuel
  | n + 1, level, inp => do
      let (token, inp) ← nextTok inp
      match token with
      | none => .ok none
      | some token =>
        let level := if token = ascii "\x7b" then level + 1 else level
        let level := if token = ascii "\x7d" then level - 1 else level
        if level = 0 then .ok (some inp) else skipNested n level inp

/-- The loop of `array_is_hash`, which returns `elem_seen && has_ids`. -/
def arrayIsHashLoop : Nat → Bool → Bool → Bool → List UInt8 → Except Stop Bool
  | 0, _, _, _, _ => .error .fuel
  | n + 1, elemSeen, commaLast, inId, inp => do
      let (token, inp) ← nextTok inp
      match token with
      | none => .ok elemSeen
      | some token =>
        if token = ascii "\x7d" then .ok (elemSeen && !(inId && !commaLast))
        else if token = ascii "\x7b" then
          if inId then .ok false
          else do
            match ← skipNested n 1 inp with
            | none => .ok true
            | some inp => arrayIsHashLoop n true commaLast inId inp
        else if token = ascii "," then
          if inId then .ok false else arrayIsHashLoop n true true true inp
        else if token = ascii "=" then arrayIsHashLoop n true commaLast false inp
        else arrayIsHashLoop n true false inId inp

def arrayIsHash : Except Stop Bool :=
  arrayIsHashLoop (inp.length + 1) false false true inp

variable (isHash : Bool)

/-- The node `parse_array` starts with. -/
def emptyNode : DataNode := if isHash then .hash [] else .array []

/-- What `parse_array` does with the node of a nested array. -/
def addNested (ret : DataNode) (id : Option (List UInt8)) (sub : DataNode) : Except Stop DataNode :=
  if dataNodeIsEmpty sub then .ok ret
  else if isHash then hashAddId ret (id.bind idTail) sub
  else .ok (dataNodeArrayAdd ret sub)

/-- What it does with `NULL`. -/
def addNull (ret : DataNode) (id : Option (List UInt8)) : Except Stop DataNode :=
  if isHash then hashAddId ret id .null else .ok (dataNodeArrayAdd ret .null)

/-- The `NULL` at the end of an array is removed. -/
def dropNull (ret : DataNode) : DataNode :=
  if isHash then ret
  else
    match dataNodeArrayLast ret with
    | some .null => dataNodeArrayLastRem ret
    | _ => ret

/-- The loop of `parse_array`: whether the closing brace was found, and the
node. -/
def parseArrayLoop (macros : Macros) : Nat → Bool → DataNode → Option (List UInt8) →
    Option (List UInt8) → Int → List UInt8 → Except Stop (Out (Bool × DataNode))
  | 0, _, _, _, _, _, _ => .error .fuel
  | n + 1, isHash, ret, val, id, parentCnt, inp => do
      let (token, inp) ← nextTok inp
      match token with
      | none => .ok ((false, ret), inp)
      | some token =>
        if token = ascii "\x7b" then do
          let subHash ← arrayIsHash inp
          let (sub, inp) ← parseArrayLoop macros n subHash (emptyNode subHash) none none 0 inp
          let ret ← addNested isHash ret id sub.2
          parseArrayLoop macros n isHash ret none none parentCnt inp
        else if token = ascii "\x7d" then do
          let (ret, _) ← finalizeArrayEntry val id ret
          .ok ((true, dropNull isHash ret), inp)
        else if isHash = true ∧ token = ascii "=" ∧ id = none then
          parseArrayLoop macros n isHash ret none val parentCnt inp
        else if token = ascii "," ∧ parentCnt ≤ 0 then do
          let (ret, id) ← finalizeArrayEntry val id ret
          parseArrayLoop macros n isHash ret none id parentCnt inp
        else if token = ascii "NULL" then do
          let ret ← addNull isHash ret id
          parseArrayLoop macros n isHash ret val id parentCnt inp
        else
          let parentCnt := if token = ascii "(" then parentCnt + 1 else parentCnt
          let parentCnt := if token = ascii ")" then parentCnt - 1 else parentCnt
          let val := strAppend val (tryApplyMacro macros token)
          parseArrayLoop macros n isHash ret (some val) id parentCnt inp

def parseArray (macros : Macros) (inp : List UInt8) : Except Stop (Out (Bool × DataNode)) := do
  let isHash ← arrayIsHash inp
  parseArrayLoop macros (inp.length + 1) isHash (emptyNode isHash) none none 0 inp

/-! ## Lengths of arrays -/

/-- The locals of `parse_get_array_len`. -/
structure LenState where
  cnt : Int := 0
  depth : Int := 0
  prevComma : Bool := false

/-- The three `if`s for a token. -/
def LenState.read (st : LenState) (token : List UInt8) : LenState :=
  let depth := if token = ascii "\x7b" then st.depth + 1 else st.depth
  let st : LenState :=
    if token = ascii "\x7d" then ⟨st.cnt, depth - 1, st.prevComma⟩ else ⟨st.cnt, depth, false⟩
  if token = ascii "," ∧ st.depth = 0 then ⟨st.cnt + 1, st.depth, true⟩ else st

def getArrayLenLoop : Nat → LenState → List UInt8 → Except Stop (Out Int)
  | 0, _, _ => .error .fuel
  | n + 1, st, inp => do
      let (token, inp) ← nextTok inp
      match token with
      | none => .ok (0, inp)
      | some token =>
        let st := st.read token
        if st.depth < 0 then .ok (st.cnt + if st.prevComma then 0 else 1, inp)
        else getArrayLenLoop n st inp

def parseGetArrayLen : Except Stop (Out Int) := do
  let (token, inp) ← nextTok inp
  match token with
  | none => .ok (0, inp)
  | some token =>
    if token ≠ ascii "\x7b" then .ok (0, inp)
    else getArrayLenLoop (inp.length + 1) {} inp

end LtpDdt.Metaparse
