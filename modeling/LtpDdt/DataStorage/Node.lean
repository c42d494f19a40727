/-
DataStorage.Node — `struct data_node` of `metadata/data_storage.h`
and its print as JSON (`data_to_json`).

* A C string is the list of its bytes before the terminating NUL.
* `elems_used` and `array_used` are the lengths of the lists. The loops
  compare an index with them as `unsigned int`.
* Whether `char` is signed is a parameter.
* A `FILE` is what is written to it. The warning about a dropped byte goes to
  `stderr` and is left out.
-/
import LtpDdt.CTypes.Decimal

namespace LtpDdt.DataStorage

open CTypes

inductive DataNode where
  | array (elems : List DataNode)
  | hash (elems : List (List UInt8 × DataNode))
  | string (val : List UInt8)
  | int (val : Int)
  | null

/-! ## Nodes

The functions that add an element return whether it was added; nobody acts on
that, and an element that finds no room is lost. -/

/-- `MAX_ELEMS` -/
def maxElems : Nat := 100

def dataNodeHashAdd : DataNode → List UInt8 → DataNode → DataNode
  | .hash elems, id, payload =>
    if elems.length = maxElems then .hash elems else .hash (elems ++ [(id, payload)])
  | self, _, _ => self

def dataNodeArrayAdd : DataNode → DataNode → DataNode
  | .array elems, payload =>
    if elems.length = maxElems then .array elems else .array (elems ++ [payload])
  | self, _ => self

def dataNodeArrayLen : DataNode → Nat
  | .array elems => elems.length
  | _ => 0

def dataNodeArrayLast : DataNode → Option DataNode
  | .array elems => elems.getLast?
  | _ => none

def dataNodeArrayLastRem : DataNode → DataNode
  | .array elems => .array elems.dropLast
  | self => self

def dataNodeIsEmpty : DataNode → Bool
  | .array elems => elems.isEmpty
  | .hash elems => elems.isEmpty
  | _ => false

/-! ## Output -/

/-- `while (padd-- > 0) putc(' ', f)` -/
def padding (padd : UInt32) : List UInt8 := List.replicate padd.toNat 0x20

def dataFprintf (padd : UInt32) (text : List UInt8) : List UInt8 := padding padd ++ text

/-- The `switch` of `data_fprintf_esc`. -/
def escByte (signed : Bool) (c : UInt8) : List UInt8 :=
  if c = 0x5c then [0x5c, 0x5c]
  else if c = 0x22 then [0x5c, 0x22]
  else if c = 0x09 then List.replicate 8 0x20
  else if 0x20 ≤ charVal signed c then [c]
  else []

def dataFprintfEsc (signed : Bool) (padd : UInt32) (str : List UInt8) : List UInt8 :=
  padding padd ++ (0x22 :: (str.flatMap (escByte signed) ++ [0x22]))

/-- `if (i < used - 1)`: a comma and a newline, else the newline. -/
def separator (i used : UInt32) : List UInt8 := if i < used - 1 then [0x2c, 0x0a] else [0x0a]

mutual

def dataToJson_ (signed : Bool) : DataNode → UInt32 → Bool → List UInt8
  | .int val, padd, doPadd => dataFprintf (if doPadd then padd else 0) (printInt val)
  | .string val, padd, doPadd => dataFprintfEsc signed (if doPadd then padd else 0) val
  | .null, padd, doPadd => dataFprintf (if doPadd then padd else 0) [0x6e, 0x75, 0x6c, 0x6c]
  | .hash elems, padd, doPadd =>
    dataFprintf (if doPadd then padd else 0) [0x7b, 0x0a] ++
      (hashLoop signed elems 0 (UInt32.ofNat elems.length) padd ++ dataFprintf padd [0x7d])
  | .array elems, padd, doPadd =>
    dataFprintf (if doPadd then padd else 0) [0x5b, 0x0a] ++
      (arrayLoop signed elems 0 (UInt32.ofNat elems.length) padd ++ dataFprintf padd [0x5d])

/-- The loop over the entries of a hash, from index `i` on. -/
def hashLoop (signed : Bool) : List (List UInt8 × DataNode) → UInt32 → UInt32 → UInt32 → List UInt8
  | [], _, _, _ => []
  | (id, node) :: elems, i, used, padd =>
    dataFprintf (padd + 1) (0x22 :: (id ++ [0x22, 0x3a, 0x20])) ++
      (dataToJson_ signed node (padd + 1) false ++
        (separator i used ++ hashLoop signed elems (i + 1) used padd))

def arrayLoop (signed : Bool) : List DataNode → UInt32 → UInt32 → UInt32 → List UInt8
  | [], _, _, _ => []
  | node :: elems, i, used, padd =>
    dataToJson_ signed node (padd + 1) true ++
      (separator i used ++ arrayLoop signed elems (i + 1) used padd)

end

def dataToJson (signed : Bool) (self : DataNode) (padd : UInt32) : List UInt8 :=
  dataToJson_ signed self padd false

end LtpDdt.DataStorage
