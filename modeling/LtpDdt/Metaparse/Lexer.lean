/-
Metaparse.Lexer — the tokens of `metadata/metaparse.c`.

* A `FILE` is the list of the bytes left in it; `ungetc` puts a byte back. At the end
  `getc` returns `EOF` as often as it is called.
* `remove_to_newline` and `multiline_comment` do not test for `EOF`: at the end of the
  file they never return (`Stop.hang`).
* A token is the C string in `buf`. The write index `i` is the length of what was
  stored. Words are stored without a look at `buf_len`; when `i` passes it the next
  write, of a byte or of the terminating NUL, is outside of `buf` (`Stop.overrun`).
* The documentation node is an array node or `NULL`, that is `none`.
-/
import LtpDdt.CTypes.CString
import LtpDdt.DataStorage.Node

namespace LtpDdt.Metaparse

open DataStorage
open CTypes (asc ascii cstr isSpaceByte)

inductive Stop where
  /-- a loop that reads on behind the end of the file -/
  | hang
  /-- a write behind the end of a buffer -/
  | overrun
  /-- a use of an invalid pointer or of an array that was not written -/
  | fault
  /-- more rounds than the model allows for; no run needs them -/
  | fuel
  deriving DecidableEq

/-! ## Comments -/

def removeToNewline : List UInt8 → Except Stop (List UInt8)
  | [] => .error .hang
  | c :: inp => if c = asc '\n' then .ok inp else removeToNewline inp

def eatAsteriskSpace (s : List UInt8) : List UInt8 :=
  match s.dropWhile isSpaceByte with
  | [] => s
  | c :: rest =>
    if c = asc '*' then
      match rest with
      | [] => []
      | d :: rest => if isSpaceByte d then rest else d :: rest
    else s

/-- The loop of `multiline_comment`: `star` is `state`, `buf` what was stored. -/
def multilineComment : Option DataNode → Bool → List UInt8 → List UInt8 →
    Except Stop (List UInt8 × Option DataNode)
  | _, _, _, [] => .error .hang
  | none, star, buf, c :: inp =>
    if star ∧ c = asc '/' then .ok (inp, none)
    else multilineComment none (c == asc '*') buf inp
  | some doc, star, buf, c :: inp =>
    if c = asc '\n' then
      let line := DataNode.string (eatAsteriskSpace (cstr buf))
      multilineComment (some (dataNodeArrayAdd doc line)) star [] inp
    else if 4096 ≤ buf.length + 1 then multilineComment (some doc) star buf inp
    else if star ∧ c = asc '/' then .ok (inp, some doc)
    else multilineComment (some doc) (c == asc '*') (buf ++ [c]) inp

/-- `doc_prefix` -/
def docPrefix : List UInt8 := [asc '\\', asc '\n']

/-- `maybe_doc_comment`, with what is left of `doc_prefix`. -/
def maybeDocComment (doc : Option DataNode) : List UInt8 → List UInt8 →
    Except Stop (List UInt8 × Option DataNode)
  | [], inp => multilineComment doc false [] inp
  | _ :: _, [] => .error .hang
  | p :: pre, c :: inp =>
    if c = p then maybeDocComment doc pre inp
    else do
      let r ← multilineComment none false [] (if c = asc '*' then c :: inp else inp)
      .ok (r.1, doc)

def maybeComment (doc : Option DataNode) : List UInt8 → Except Stop (List UInt8 × Option DataNode)
  | [] => .ok ([], doc)
  | c :: inp =>
    if c = asc '/' then do
      let rest ← removeToNewline inp
      .ok (rest, doc)
    else if c = asc '*' then maybeDocComment doc docPrefix inp
    else .ok (c :: inp, doc)

/-! ## Tokens -/

def isPunct (c : UInt8) : Bool := (ascii "\x7b\x7d;()=,[]#|+*%").contains c

def isWord (c : UInt8) : Bool :=
  (asc '0' ≤ c && c ≤ asc '9') || (asc 'a' ≤ c && c ≤ asc 'z') ||
    (asc 'A' ≤ c && c ≤ asc 'Z') || c == asc '.' || c == asc '_' || c == asc '-'

/-- A token or `NULL`, what is left of the file, and the documentation. -/
abbrev Token := Option (List UInt8) × List UInt8 × Option DataNode

/-- The code behind the label `exit`. -/
def tokenExit (inStr : Bool) (buf inp : List UInt8) (doc : Option DataNode) : Token :=
  (if buf = [] ∧ inStr = false then none else some (cstr buf), inp, doc)

/-- The loop of `next_token2`, with at most `n` rounds. `bufLen` is `buf_len` after the
decrement. -/
def tokenLoop (bufLen : Nat) : Nat → Option DataNode → Bool → List UInt8 → List UInt8 →
    Except Stop Token
  | 0, _, _, _, _ => .error .fuel
  | _ + 1, doc, inStr, buf, [] => .ok (tokenExit inStr buf [] doc)
  | n + 1, doc, true, buf, c :: inp =>
    if c = asc '"' ∧ buf.getLast? ≠ some (asc '\\') then .ok (tokenExit true buf inp doc)
    else tokenLoop bufLen n doc true (if buf.length < bufLen then buf ++ [c] else buf) inp
  | n + 1, doc, false, buf, c :: inp =>
    if isPunct c then
      if buf ≠ [] then .ok (tokenExit false buf (c :: inp) doc)
      else .ok (tokenExit false (if buf.length < bufLen then [c] else []) inp doc)
    else if isWord c then
      if buf.length < bufLen then tokenLoop bufLen n doc false (buf ++ [c]) inp
      else .error .overrun
    else if c = asc '/' then do
      let r ← maybeComment doc inp
      tokenLoop bufLen n r.2 false buf r.1
    else if c = asc '"' then tokenLoop bufLen n doc true buf inp
    else if c = asc ' ' ∨ c = asc '\n' ∨ c = asc '\t' then
      if buf ≠ [] then .ok (tokenExit false buf inp doc) else tokenLoop bufLen n doc false buf inp
    else tokenLoop bufLen n doc false buf inp

def nextToken2 (bufSize : Nat) (doc : Option DataNode) (inp : List UInt8) : Except Stop Token :=
  tokenLoop (bufSize - 1) (inp.length + 1) doc false [] inp

def nextToken (doc : Option DataNode) (inp : List UInt8) : Except Stop Token :=
  nextToken2 4096 doc inp

end LtpDdt.Metaparse
