/-
RunShell.Extract — `extract_metadata` of
`testcases/lib/tst_run_shell.c`: the text of the `env` blocks of a shell test.

* The file is the list of its bytes, and `line` the array that `fgets` fills;
  its first content is a parameter.
* `tst_brk` ends the run with the data of its message.
* `metadata` is the string that `metadata_append` has put together.
-/
import LtpDdt.Bytes.Lines
import LtpDdt.CTypes.Decimal
import LtpDdt.RunShell.Metadata

namespace LtpDdt.RunShell

open Bytes CTypes

/-- `enum parser_state` -/
inductive ParserState where
  | none
  | esc
  | doc
  | env
  deriving DecidableEq

/-- The calls of `tst_brk`. -/
inductive Broken where
  | unknownBlock (lineno : UInt32) (line : List UInt8)
  | unexpectedEnd (lineno : UInt32)

def Broken.message (path : List UInt8) : Broken → List UInt8
  | .unknownBlock lineno line =>
    path ++ ascii ": " ++ CTypes.decimal lineno.toNat ++ ascii ": Unknown comment block " ++ line
  | .unexpectedEnd lineno =>
    path ++ ascii ": " ++ CTypes.decimal lineno.toNat ++
      ascii ": Unexpected end of comment block!"

/-- The locals of `extract_metadata`, and `metadata`. -/
structure Extract where
  state : ParserState := .none
  lineno : UInt32 := 1
  line : List UInt8
  metadata : List UInt8 := []

/-- A round of the loop, after `fgets` has read `piece`. -/
def extractLine (s : Extract) (piece : List UInt8) : Except Broken Extract :=
  let array := store s.line piece
  let line := cstr array
  let next : Extract := { s with line := array, lineno := s.lineno + 1 }
  match s.state with
  | .none => if line = ascii "# ---\n" then .ok { next with state := .esc } else .ok next
  | .esc =>
    if line = ascii "# env\n" then .ok { next with state := .env }
    else if line = ascii "# doc\n" then .ok { next with state := .doc }
    else .error (.unknownBlock s.lineno line)
  | .env =>
    if array.head? ≠ some 0x23 then .error (.unexpectedEnd s.lineno)
    else if line = ascii "# ---\n" then .ok { next with state := .none }
    else .ok { next with metadata := s.metadata ++ cstr (array.drop 2) }
  | .doc =>
    if array.head? ≠ some 0x23 then .error (.unexpectedEnd s.lineno)
    else if line = ascii "# ---\n" then .ok { next with state := .none }
    else .ok next

def extractMetadata (junk file : List UInt8) : Except Broken (List UInt8) := do
  let s ← (fgetsAll 4095 [] file).foldlM extractLine { line := junk }
  .ok s.metadata

end LtpDdt.RunShell
