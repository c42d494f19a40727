/-
Ujson.Writer — the JSON writer of `libs/ujson/ujson_writer.c`.

* The output function does not fail: `out` is what it was given so far. The branches
  for its failure are left out.
* `true` is a non-zero return value. `none` stands for a call that does not return or
  reads outside a string, which only `out_esc_str` does.
* The bit arrays are functions; a bit is set at a depth below `UJSON_RECURSION_MAX`
  only. `depth` is an `unsigned int`.
* In `out_esc_str` the string has its terminating zero, `val` is an index into it. The
  offset `i` is an integer, since -1 is added to it: a negative one is an index before
  `val`, and a length beyond the end of every string.
* What `snprintf` prints for a `double` is an argument.
-/
import LtpDdt.CTypes.Decimal
import LtpDdt.Ujson.Utf

namespace LtpDdt.Ujson

open CTypes (printInt)

/-! ## Strings -/

def escText (ch : UInt8) : Option (List UInt8) :=
  if ch = 0x22 then some [0x5c, 0x22]
  else if ch = 0x5c then some [0x5c, 0x5c]
  else if ch = 0x2f then some [0x5c, 0x2f]
  else if ch = 0x08 then some [0x5c, 0x62]
  else if ch = 0x0c then some [0x5c, 0x66]
  else if ch = 0x0a then some [0x5c, 0x6e]
  else if ch = 0x0d then some [0x5c, 0x72]
  else if ch = 0x09 then some [0x5c, 0x74]
  else none

/-- It returns what it has printed, it reads outside the string, or it has not returned in so many
rounds. -/
inductive EscRun where
  | done (out : List UInt8)
  | outside
  | more
  deriving DecidableEq

variable (str : List UInt8)

/-- `ujson_utf8_next_chsz(val, i)` -/
def chszAt (val : Nat) (i : Int) : Option Int :=
  if val + i < 0 then none else ujsonUtf8NextChsz str (val + i).toNat

/-- `val[i]` -/
def charAt (val : Nat) (i : Int) : Option UInt8 :=
  if val + i < 0 then none else str[(val + i).toNat]?

/-- `out(self, val, i)` -/
def outSlice (val : Nat) (i : Int) : Option (List UInt8) :=
  if i < 0 ∨ str.length < val + i then none else some ((str.drop val).take i.toNat)

def outEscStrLoop (str : List UInt8) : Nat → Nat → Int → List UInt8 → EscRun
  | 0, _, _, _ => .more
  | n + 1, val, i, out =>
    match chszAt str val i with
    | none => .outside
    | some nextChsz =>
      if nextChsz = 1 then
        match charAt str val i with
        | none => .outside
        | some ch =>
          match escText ch with
          | some esc =>
            match outSlice str val i with
            | none => .outside
            | some bytes => outEscStrLoop str n (val + (i.toNat + 1)) 0 (out ++ bytes ++ esc)
          | none => outEscStrLoop str n val (i + nextChsz) out
      else if nextChsz = 0 then
        match outSlice str val i with
        | none => .outside
        | some bytes => .done (out ++ bytes ++ [0x22])
      else outEscStrLoop str n val (i + nextChsz) out

/-- The first `n` rounds for a string without its terminating zero. -/
def outEscStrRun (n : Nat) (val : List UInt8) : EscRun :=
  outEscStrLoop (val ++ [0]) n 0 0 [0x22]

/-- What is printed; a round for each byte is enough, if any number is. -/
def outEscStr (val : List UInt8) : Option (List UInt8) :=
  match outEscStrRun (val.length + 1) val with
  | .done out => some out
  | _ => none

/-! ## The writer -/

/-- The messages of `err`. -/
inductive WriterErr where
  /-- "Object/Array has to be started first" -/
  | notStarted
  /-- "Array entries can't have id" -/
  | arrayId
  /-- "Object entries must have id" -/
  | objectNoId
  /-- "Top level object cannot have id" -/
  | topObjectId
  /-- "Top level array cannot have id" -/
  | topArrayId
  /-- "Not in object!" -/
  | notInObject
  /-- "Not in array!" -/
  | notInArray
  /-- "Recursion too deep" -/
  | tooDeep
  /-- "Objects and/or Arrays not finished" -/
  | notFinished
  deriving DecidableEq

/-- `struct ujson_writer`, with what was written. -/
structure Writer where
  depth : Nat := 0
  depthType : Nat → Bool := fun _ => false
  depthFirst : Nat → Bool := fun _ => false
  err : Option WriterErr := none
  out : List UInt8 := []

namespace Writer

variable (self : Writer)

def fail (e : WriterErr) : Writer := { self with err := some e }

def put (bytes : List UInt8) : Writer := { self with out := self.out ++ bytes }

/-- `self->depth - 1`, an `unsigned int` -/
def depthBefore : Nat := (self.depth + (2 ^ 32 - 1)) % 2 ^ 32

def getDepthBit (mask : Nat → Bool) : Int :=
  if self.depthBefore ≥ 2 ^ 31 then -1
  else if mask self.depthBefore then 1
  else 0

def setDepthBit (val : Bool) : Writer :=
  { self with
    depthType := Function.update self.depthType self.depth val
    depthFirst := Function.update self.depthFirst self.depth true
    depth := (self.depth + 1) % 2 ^ 32 }

def clearDepthBit : Writer := { self with depth := self.depthBefore }

def inArr : Bool := self.getDepthBit self.depthType = 0

def inObj : Bool := self.getDepthBit self.depthType ≠ 0

def clearDepthFirst : Writer :=
  { self with depthFirst := Function.update self.depthFirst self.depthBefore false }

def isFirst : Int × Writer :=
  let ret := self.getDepthBit self.depthFirst
  (ret, if ret = 1 then self.clearDepthFirst else self)

def doPadd : Writer := self.put (List.replicate self.depth 0x20)

def newline : Writer := (self.put [0x0a]).doPadd

def addCommon (id : Option (List UInt8)) : Option (Bool × Writer) :=
  if self.err.isSome then some (true, self)
  else if self.depth = 0 then some (true, self.fail .notStarted)
  else if self.inArr && id.isSome then some (true, self.fail .arrayId)
  else if !self.inArr && id.isNone then some (true, self.fail .objectNoId)
  else
    let (first, self) := self.isFirst
    let self := if first = 0 then self.put [0x2c] else self
    let self := self.newline
    match id with
    | none => some (false, self)
    | some id => do
        let text ← outEscStr id
        some (false, self.put (text ++ [0x3a, 0x20]))

end Writer

open Writer

def ujsonObjStart (self : Writer) (id : Option (List UInt8)) : Option (Bool × Writer) :=
  -- the error is not set here
  if self.depth ≥ ujsonRecursionMax then some (true, self)
  else if self.depth = 0 && id.isSome then some (true, self.fail .topObjectId)
  else do
    let (ret, self) ← if self.depth = 0 then some (false, self) else self.addCommon id
    if ret then some (true, self)
    else some (false, (self.put [0x7b]).setDepthBit true)

def ujsonArrStart (self : Writer) (id : Option (List UInt8)) : Option (Bool × Writer) :=
  if self.depth ≥ ujsonRecursionMax then some (true, self.fail .tooDeep)
  else if self.depth = 0 && id.isSome then some (true, self.fail .topArrayId)
  else do
    let (ret, self) ← if self.depth = 0 then some (false, self) else self.addCommon id
    if ret then some (true, self)
    else some (false, (self.put [0x5b]).setDepthBit false)

def finishWith (self : Writer) (ch : UInt8) : Writer :=
  let (first, self) := self.isFirst
  let self := self.clearDepthBit
  let self := if first = 0 then self.newline else self
  self.put [ch]

def ujsonObjFinish (self : Writer) : Bool × Writer :=
  if self.err.isSome then (true, self)
  else if !self.inObj then (true, self.fail .notInObject)
  else (false, finishWith self 0x7d)

def ujsonArrFinish (self : Writer) : Bool × Writer :=
  if self.err.isSome then (true, self)
  else if !self.inArr then (true, self.fail .notInArray)
  else (false, finishWith self 0x5d)

/-- An add function that prints `text` for the value. -/
def addText (self : Writer) (id : Option (List UInt8)) (text : Option (List UInt8)) :
    Option (Bool × Writer) := do
  let (ret, self) ← self.addCommon id
  if ret then some (true, self)
  else do
    let text ← text
    some (false, self.put text)

def ujsonNullAdd (self : Writer) (id : Option (List UInt8)) : Option (Bool × Writer) :=
  addText self id (some Json.nullText)

def ujsonIntAdd (self : Writer) (id : Option (List UInt8)) (val : Int) : Option (Bool × Writer) :=
  addText self id (some (printInt val))

def ujsonBoolAdd (self : Writer) (id : Option (List UInt8)) (val : Bool) : Option (Bool × Writer) :=
  addText self id (some (if val then Json.trueText else Json.falseText))

def ujsonStrAdd (self : Writer) (id : Option (List UInt8)) (val : List UInt8) :
    Option (Bool × Writer) :=
  addText self id (outEscStr val)

/-- `buf` is what `%lg` prints. -/
def ujsonFloatAdd (self : Writer) (id : Option (List UInt8)) (buf : List UInt8) :
    Option (Bool × Writer) :=
  addText self id (some buf)

def ujsonWriterFinish (self : Writer) : Bool × Writer :=
  if self.err.isSome then (true, self)
  else if self.depth ≠ 0 then (true, self.fail .notFinished)
  else (false, self.newline)

end LtpDdt.Ujson
