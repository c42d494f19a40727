/-
Ujson.Calls — sequences of calls of the writer, in any order.

`CallOk` and `FinishOk` are conditions on the writer before a call. They
name what the writer lets pass: `ujson_obj_finish` outside of everything,
`ujson_obj_start` at the greatest depth without an error, a start behind an
error or behind a finished value, an end without a value; and texts that
are printed as they are, although JSON does not have them.
-/
import LtpDdt.Json.Tree
import LtpDdt.Ujson.Writer

namespace LtpDdt.Ujson

open Json

/-- A call of the writer; `id` is `none` for `NULL`. -/
inductive WriterCall where
  | objStart (id : Option (List UInt8))
  | objFinish
  | arrStart (id : Option (List UInt8))
  | arrFinish
  | nullAdd (id : Option (List UInt8))
  | intAdd (id : Option (List UInt8)) (val : Int)
  | boolAdd (id : Option (List UInt8)) (val : Bool)
  | strAdd (id : Option (List UInt8)) (val : List UInt8)
  | floatAdd (id : Option (List UInt8)) (buf : List UInt8)

variable (self : Writer)

def WriterCall.run : WriterCall → Option (Bool × Writer)
  | .objStart id => ujsonObjStart self id
  | .objFinish => some (ujsonObjFinish self)
  | .arrStart id => ujsonArrStart self id
  | .arrFinish => some (ujsonArrFinish self)
  | .nullAdd id => ujsonNullAdd self id
  | .intAdd id val => ujsonIntAdd self id val
  | .boolAdd id val => ujsonBoolAdd self id val
  | .strAdd id val => ujsonStrAdd self id val
  | .floatAdd id buf => ujsonFloatAdd self id buf

/-- The calls one after the other: their return values and the writer. -/
def runCalls (self : Writer) : List WriterCall → Option (List Bool × Writer)
  | [] => some ([], self)
  | call :: calls => do
      let (ret, self) ← call.run self
      let (rets, self) ← runCalls self calls
      some (ret :: rets, self)

/-! ## Conditions -/

/-- UTF-8 without a control character that is not escaped. -/
def TextOk (s : List UInt8) : Prop := IsUtf8 s ∧ ∀ b ∈ s, b < 0x20 → (escText b).isSome = true

def IdOk (id : Option (List UInt8)) : Prop := ∀ s, id = some s → TextOk s

/-- A value is started inside of another one, or it is the first. -/
def StartOk (id : Option (List UInt8)) : Prop :=
  IdOk id ∧ (self.depth = 0 ∧ id = none → self.err = none ∧ self.out = [])

def CallOk : WriterCall → Prop
  | .objStart id => StartOk self id ∧ self.depth < ujsonRecursionMax
  | .objFinish => self.depth ≠ 0
  | .arrStart id => StartOk self id
  | .arrFinish => True
  | .nullAdd id => IdOk id
  | .intAdd id _ => IdOk id
  | .boolAdd id _ => IdOk id
  | .strAdd id val => IdOk id ∧ TextOk val
  | .floatAdd id buf => IdOk id ∧ ∃ n : Number, n.text = buf

def FinishOk : Prop := self.out ≠ []

/-- Every call meets its condition, and so does `ujson_writer_finish` behind
them. -/
def CallsOk (self : Writer) : List WriterCall → Prop
  | [] => FinishOk self
  | call :: calls => CallOk self call ∧ ∀ ret self', call.run self = some (ret, self') →
      CallsOk self' calls

/-! ## What a sequence of calls should do -/

def Sticky (rets : List Bool) : Prop := rets.Pairwise fun a b => a = true → b = true

def OneValue (out : List UInt8) : Prop := ∃ v : Value, IsUtf8 v.text ∧ out = v.text ++ [0x0a]

/-- All calls return; a failure stays up to `ujson_writer_finish`; if that succeeds one value has
been written; the depth is in range. -/
structure WriterHolds (calls : List WriterCall) (rets : List Bool) (w : Writer) : Prop where
  runs : runCalls {} calls = some (rets, w)
  sticky : Sticky rets
  final : true ∈ rets → (ujsonWriterFinish w).1 = true
  value : (ujsonWriterFinish w).1 = false → OneValue (ujsonWriterFinish w).2.out
  depth : ∀ n rets' w', runCalls {} (calls.take n) = some (rets', w') → w'.depth ≤ ujsonRecursionMax

end LtpDdt.Ujson
