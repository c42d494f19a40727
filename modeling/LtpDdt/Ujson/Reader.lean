/-
Ujson.Reader — the pull parser of `libs/ujson/ujson_reader.c`: a position in a byte
string, a depth and an error.

Every function takes the reader and returns it behind the C return value.

* The loops run over the remaining bytes: recursions with a bound that no run exceeds,
  since each round consumes a byte (or looks one byte further).
* `ujson_err` sets the error, `ujson_warn` does the same in strict mode and nothing otherwise.
* A `NULL` string buffer is a `none` size.
* `long` arithmetic in `get_int` wraps around at 64 bits.
* `getb` and the `peekb` functions return 0 at the end of the text.
-/
import LtpDdt.Json.Grammar

namespace LtpDdt.Ujson

open Json (isWs isDigit hexVal)

/-! ## `ujson_utf.h` -/

def ujsonUtf8Bytes (unicode : Nat) : Nat :=
  if unicode < 0x0080 then 1
  else if unicode < 0x0800 then 2
  else if unicode < 0x10000 then 3
  else 4

/-- The bytes `ujson_to_utf8` writes. -/
def ujsonToUtf8 (unicode : Nat) : List UInt8 :=
  if unicode < 0x0080 then [UInt8.ofNat (unicode &&& 0x007f)]
  else if unicode < 0x0800 then
    [UInt8.ofNat (0xc0 ||| (0x1f &&& (unicode >>> 6))), UInt8.ofNat (0x80 ||| (0x3f &&& unicode))]
  else if unicode < 0x10000 then
    [UInt8.ofNat (0xe0 ||| (0x0f &&& (unicode >>> 12))),
      UInt8.ofNat (0x80 ||| (0x3f &&& (unicode >>> 6))), UInt8.ofNat (0x80 ||| (0x3f &&& unicode))]
  else
    [UInt8.ofNat (0xf0 ||| (0x07 &&& (unicode >>> 18))),
      UInt8.ofNat (0x80 ||| (0x3f &&& (unicode >>> 12))),
      UInt8.ofNat (0x80 ||| (0x3f &&& (unicode >>> 6))), UInt8.ofNat (0x80 ||| (0x3f &&& unicode))]

/-! ## Reader and value -/

/-- `enum ujson_type` -/
inductive UType where
  | void | int | float | bool | null | str | obj | arr
  deriving DecidableEq

/-- The messages of `ujson_err` and `ujson_warn`. -/
inductive ReaderErr where
  /-- "Expected four hexadecimal digits" -/
  | expectedHex
  /-- "String buffer too short!" -/
  | bufferTooShort
  /-- "Unterminated string" -/
  | unterminatedString
  /-- "Invalid string character 0x%02x" -/
  | invalidChar (b : UInt8)
  /-- "Invalid escape \\%c" -/
  | invalidEscape (b : UInt8)
  /-- "Unterminated ID string" -/
  | unterminatedId
  /-- "ID string too long" -/
  | idTooLong
  /-- "Expected ID string" -/
  | expectedId
  /-- "Expected ':' after ID string" -/
  | expectedColon
  /-- "Expected digit(s)" -/
  | expectedDigits
  /-- "Leading zero in number!" -/
  | leadingZeroNumber
  /-- "Leading zero in float" -/
  | leadingZeroFloat
  /-- "Expected 'false'" -/
  | expectedFalse
  /-- "Expected 'true'" -/
  | expectedTrue
  /-- "Expected 'null'" -/
  | expectedNull
  /-- "Unexpected end" -/
  | unexpectedEnd
  /-- "Expected object, array, number or string" -/
  | expectedValue
  /-- "JSON can start only with array or object" -/
  | badStart
  /-- "Expected ','" -/
  | expectedComma
  /-- "Expected '%c'" -/
  | expectedByte (b : UInt8)
  /-- "Recursion too deep" -/
  | tooDeep
  /-- "Wrong '%s' type expected %s" -/
  | wrongType (key : List UInt8) (type : UType)
  /-- "Unexpected key '%s'" -/
  | unexpectedKey (id : List UInt8)
  /-- "Garbage after JSON string!" -/
  | garbage
  /-- a message of the reader's user -/
  | user (msg : String)
  deriving DecidableEq

def ujsonIdMax : Nat := 64

def ujsonRecursionMax : Nat := 128

/-- `struct ujson_reader`; the length is the length of `json`, and `depth` an `unsigned int`. -/
structure Reader where
  json : List UInt8
  off : Nat := 0
  subOff : Nat := 0
  depth : Nat := 0
  maxDepth : Nat := ujsonRecursionMax
  strict : Bool := false
  err : Option ReaderErr := none
  deriving DecidableEq

/-- The union in `struct ujson_val`. -/
inductive Payload where
  | unset
  | bool (b : Bool)
  | int (v : Int)
  | str (s : List UInt8)
  deriving DecidableEq

/-- `struct ujson_val`: `bufSize` is `none` for `NULL`, `idx` for `(size_t)-1`. -/
structure Val where
  type : UType := .void
  bufSize : Option Nat := none
  idx : Option Nat := none
  val : Payload := .unset
  id : List UInt8 := []
  deriving DecidableEq

variable (r : Reader)

/-- `ujson_err` -/
def Reader.fail (e : ReaderErr) : Reader := { r with err := some e }

/-- `ujson_warn` -/
def Reader.warn (e : ReaderErr) : Reader := if r.strict then r.fail e else r

/-! ## Bytes -/

namespace Reader

def bufEmpty : Bool := r.off ≥ r.json.length

def peekbOff (off : Nat) : UInt8 := r.json.getD (r.off + off) 0

def peekb : UInt8 := r.json.getD r.off 0

def getb : UInt8 × Reader :=
  if r.bufEmpty then (0, r) else (r.peekb, { r with off := r.off + 1 })

def eatwsLoop : Nat → Reader → Reader
  | 0, r => r
  | n + 1, r =>
    if r.bufEmpty then r
    else if isWs r.peekb then eatwsLoop n { r with off := r.off + 1 }
    else r

/-- Also tells whether the text has ended. -/
def eatws : Bool × Reader :=
  let r := eatwsLoop (r.json.length - r.off) r
  (r.bufEmpty, r)

def eatb (ch : UInt8) : Bool × Reader :=
  if r.peekb ≠ ch then (false, r) else (true, r.getb.2)

def eatb2 (ch₁ ch₂ : UInt8) : Bool × Reader :=
  if r.peekb ≠ ch₁ ∧ r.peekb ≠ ch₂ then (false, r) else (true, r.getb.2)

def eatstr : Reader → List UInt8 → Bool × Reader
  | r, [] => (true, r)
  | r, ch :: str =>
    match r.eatb ch with
    | (false, r) => (false, r)
    | (true, r) => eatstr r str

end Reader

/-! ## Strings -/

def parseUcodeCpLoop : Nat → Nat → Reader → Option Nat × Reader
  | 0, ret, r => (some ret, r)
  | n + 1, ret, r =>
    let (b, r) := r.getb
    match hexVal b with
    | none => (none, r.fail .expectedHex)
    | some v => parseUcodeCpLoop n (ret * 16 + v) r

/-- `none` is -1. -/
def parseUcodeCp : Option Nat × Reader := parseUcodeCpLoop 4 0 r

variable (str : Option Nat)

/-- The return value, the bytes stored at `str + off`, the reader. Without a buffer the code point
is returned. -/
def parseUcodeEsc (off : Nat) : Nat × List UInt8 × Reader :=
  match parseUcodeCp r with
  | (none, r) => (0, [], r)
  | (some ucode, r) =>
    match str with
    | none => (ucode, [], r)
    | some len =>
      if ujsonUtf8Bytes ucode + 1 ≥ len - off then (0, [], r.fail .bufferTooShort)
      else ((ujsonToUtf8 ucode).length, ujsonToUtf8 ucode, r)

/-- The byte that a backslash and `b` stand for. -/
def unescape (b : UInt8) : Option UInt8 :=
  if b = 0x22 ∨ b = 0x5c ∨ b = 0x2f then some b
  else if b = 0x62 then some 0x08
  else if b = 0x66 then some 0x0c
  else if b = 0x6e then some 0x0a
  else if b = 0x72 then some 0x0d
  else if b = 0x74 then some 0x09
  else none

/-- `if (str && b) { … str[pos++] = b; }`: `none` if the buffer is too short. -/
def putByte (pos : Nat) (b : UInt8) : Option (Nat × List UInt8) :=
  match str with
  | none => some (pos, [])
  | some len => if pos + 1 ≥ len then none else some (pos + 1, [b])

/-- The loop of `copy_str`; `out` is the content of the buffer. -/
def copyStrLoop : Nat → Reader → Option Nat → Nat → Bool → List UInt8 → Option (List UInt8) × Reader
  | 0, r, _, _, _, _ => (none, r)
  | n + 1, r, str, pos, esc, out =>
    if r.bufEmpty then (none, r.fail .unterminatedString)
    else if !esc && r.peekb == 0x22 then (some out, r.getb.2)
    else
      let (b, r) := r.getb
      if b < 0x20 then
        (none, r.fail (if r.peekb = 0 then .unterminatedString else .invalidChar b))
      else if !esc && b == 0x5c then copyStrLoop n r str pos true out
      else if esc && b == 0x75 then
        match parseUcodeEsc r str pos with
        | (0, _, r) => (none, r)
        | (l + 1, bs, r) => copyStrLoop n r str (pos + (l + 1)) false (out ++ bs)
      else
        match if esc then unescape b else some b with
        | none => (none, r.fail (.invalidEscape b))
        | some b =>
          match putByte str pos b with
          | none => (none, r.fail .bufferTooShort)
          | some (pos, bs) => copyStrLoop n r str pos false (out ++ bs)

/-- `none` is the non-zero return value. -/
def copyStr : Option (List UInt8) × Reader :=
  let (_, r) := r.eatb 0x22
  copyStrLoop (r.json.length - r.off + 1) r str 0 false []

def copyIdStrLoop : Nat → Reader → List UInt8 → Option (List UInt8) × Reader
  | 0, r, _ => (none, r)
  | n + 1, r, out =>
    if r.bufEmpty then (none, r.fail .unterminatedId)
    else if r.peekb = 0x22 then (some out, r.getb.2)
    else if out.length ≥ ujsonIdMax - 1 then (none, r.fail .idTooLong)
    else
      let (b, r) := r.getb
      copyIdStrLoop n r (out ++ [b])

/-- The name of a member, up to and including the colon. -/
def copyIdStr : Option (List UInt8) × Reader :=
  match r.eatws with
  | (true, r) => (none, r.fail .expectedId)
  | (false, r) =>
    match r.eatb 0x22 with
    | (false, r) => (none, r.fail .expectedId)
    | (true, r) =>
      match copyIdStrLoop (r.json.length - r.off + 1) r [] with
      | (none, r) => (none, r)
      | (some id, r) =>
        match r.eatws with
        | (true, r) => (none, r.fail .expectedColon)
        | (false, r) =>
          match r.eatb 0x3a with
          | (false, r) => (none, r.fail .expectedColon)
          | (true, r) => (some id, r)

/-! ## Numbers, booleans, null -/

/-- A `long`. -/
def wrapLong (v : Int) : Int := Int.bmod v (2 ^ 64)

def getIntLoop : Nat → Int → Reader → Int × Reader
  | 0, val, r => (val, r)
  | n + 1, val, r =>
    if isDigit r.peekb then
      let (b, r) := r.getb
      getIntLoop n (wrapLong (wrapLong (val * 10) + ((b.toNat : Int) - 0x30))) r
    else (val, r)

/-- `none` is the non-zero return value. -/
def getInt : Option Int × Reader :=
  let (neg, r) := r.eatb 0x2d
  if neg && !isDigit r.peekb then (none, r.fail .expectedDigits)
  else if r.peekb = 0x30 ∧ isDigit (r.peekbOff 1) = true then (none, r.fail .leadingZeroNumber)
  else
    let (val, r) := getIntLoop (r.json.length - r.off) 0 r
    (some (if neg then wrapLong (-val) else val), r)

def eatDigitsLoop : Nat → Reader → Reader
  | 0, r => r
  | n + 1, r => if isDigit r.peekb then eatDigitsLoop n r.getb.2 else r

/-- `false` is the non-zero return value. -/
def eatDigits : Bool × Reader :=
  if !isDigit r.peekb then (false, r.fail .expectedDigits)
  else (true, eatDigitsLoop (r.json.length - r.off) r)

/-- The exponent of `get_float`, after the letter. -/
def eatExponent : Bool × Reader := eatDigits (r.eatb2 0x2b 0x2d).2

def getFloat : Bool × Reader :=
  let (_, r) := r.eatb 0x2d
  if r.peekb = 0x30 ∧ isDigit (r.peekbOff 1) = true then (false, r.fail .leadingZeroFloat)
  else
    match eatDigits r with
    | (false, r) => (false, r)
    | (true, r) =>
      let (b, r) := r.getb
      if b = 0x2e then
        match eatDigits r with
        | (false, r) => (false, r)
        | (true, r) =>
          match r.eatb2 0x65 0x45 with
          | (false, r) => (true, r)
          | (true, r) => eatExponent r
      else if b = 0x65 ∨ b = 0x45 then eatExponent r
      else (true, r)

/-- The boolean read, if any; `false` first is the non-zero return value. -/
def getBool : Bool × Option Bool × Reader :=
  if r.peekb = 0x66 then
    match r.eatstr Json.falseText with
    | (false, r) => (false, none, r.fail .expectedFalse)
    | (true, r) => (true, some false, r)
  else if r.peekb = 0x74 then
    match r.eatstr Json.trueText with
    | (false, r) => (false, none, r.fail .expectedTrue)
    | (true, r) => (true, some true, r)
  else (true, none, r)

def getNull : Bool × Reader :=
  match r.eatstr Json.nullText with
  | (false, r) => (false, r.fail .expectedNull)
  | (true, r) => (true, r)

/-! ## Values -/

def nextNumTypeLoop : Nat → Nat → Reader → UType
  | 0, _, _ => .void
  | n + 1, off, r =>
    let b := r.peekbOff off
    if b = 0 ∨ b = 0x2c then .int
    else if b = 0x2e ∨ b = 0x65 ∨ b = 0x45 then .float
    else nextNumTypeLoop n (off + 1) r

def nextNumType : UType := nextNumTypeLoop (r.json.length - r.off + 1) 0 r

def ujsonNextType : UType × Reader :=
  match r.eatws with
  | (true, r) => (.void, r.fail .unexpectedEnd)
  | (false, r) =>
    let b := r.peekb
    if b = 0x7b then (.obj, r)
    else if b = 0x5b then (.arr, r)
    else if b = 0x22 then (.str, r)
    else if b = 0x2d ∨ isDigit b = true then (nextNumType r, r)
    else if b = 0x66 ∨ b = 0x74 then (.bool, r)
    else if b = 0x6e then (.null, r)
    else (.void, r.fail .expectedValue)

def ujsonReaderStart : UType × Reader :=
  match ujsonNextType r with
  | (.arr, r) => (.arr, r)
  | (.obj, r) => (.obj, r)
  | (.void, r) => (.void, r)
  | (_, r) => (.void, r.fail .badStart)

variable (res : Val)

def getValue : Bool × Reader × Val :=
  match ujsonNextType r with
  | (.str, r) =>
    match copyStr r res.bufSize with
    | (none, r) => (false, r, { res with type := .void })
    | (some s, r) => (true, r, { res with type := .str, val := .str s })
  | (.int, r) =>
    match getInt r with
    | (none, r) => (false, r, { res with type := .void })
    | (some v, r) => (true, r, { res with type := .int, val := .int v })
  | (.float, r) =>
    match getFloat r with
    | (false, r) => (false, r, { res with type := .void })
    | (true, r) => (true, r, { res with type := .float })
  | (.bool, r) =>
    match getBool r with
    | (false, _, r) => (false, r, { res with type := .void })
    | (true, none, r) => (true, r, { res with type := .bool })
    | (true, some b, r) => (true, r, { res with type := .bool, val := .bool b })
  | (.null, r) =>
    match getNull r with
    | (false, r) => (false, r, { res with type := .void })
    | (true, r) => (true, r, { res with type := .null })
  | (.void, r) => (false, r, { res with type := .void })
  | (.arr, r) => (true, { r with subOff := r.off }, { res with type := .arr })
  | (.obj, r) => (true, { r with subOff := r.off }, { res with type := .obj })

/-! ## Members -/

/-- `true` is the non-zero return value of `pre_next` and `check_end`. -/
def preNext : Bool × Reader × Val :=
  match r.eatb 0x2c with
  | (false, r) => (true, r.fail .expectedComma, { res with type := .void })
  | (true, r) =>
    match r.eatws with
    | (true, r) => (true, r.fail .unexpectedEnd, { res with type := .void })
    | (false, r) => (false, r, res)

def checkEnd (b : UInt8) : Bool × Reader × Val :=
  match r.eatws with
  | (true, r) => (true, r.fail .unexpectedEnd, res)
  | (false, r) =>
    match r.eatb b with
    | (false, r) => (false, r, res)
    | (true, r) =>
      let (_, r) := r.eatws
      let (_, r) := r.eatb 0
      (true, { r with depth := (r.depth + (2 ^ 32 - 1)) % 2 ^ 32 }, { res with type := .void })

def objNext : Bool × Reader × Val :=
  match copyIdStr r with
  | (none, r) => (false, r, res)
  | (some id, r) => getValue r { res with id := id }

def objPreNext : Bool × Reader × Val :=
  if r.err.isSome then (true, r, res)
  else
    match checkEnd r res 0x7d with
    | (true, r, res) => (true, r, res)
    | (false, r, res) => preNext r res

def ujsonObjNext : Bool × Reader × Val :=
  if r.err.isSome then (false, r, { res with type := .void })
  else
    match objPreNext r res with
    | (true, r, res) => (false, r, res)
    | (false, r, res) => objNext r res

/-- `true` is the non-zero return value. -/
def anyFirst (b : UInt8) : Bool × Reader :=
  match r.eatws with
  | (true, r) => (true, r.fail .unexpectedEnd)
  | (false, r) =>
    match r.eatb b with
    | (false, r) => (true, r.fail (.expectedByte b))
    | (true, r) =>
      let r := { r with depth := (r.depth + 1) % 2 ^ 32 }
      if r.depth > r.maxDepth then (true, r.fail .tooDeep) else (false, r)

def ujsonObjFirst : Bool × Reader × Val :=
  if r.err.isSome then (false, r, { res with type := .void })
  else
    match anyFirst r 0x7b with
    | (true, r) => (false, r, res)
    | (false, r) =>
      match checkEnd r res 0x7d with
      | (true, r, res) => (false, r, res)
      | (false, r, res) => objNext r res

def arrNext : Bool × Reader × Val := getValue r res

def ujsonArrFirst : Bool × Reader × Val :=
  if r.err.isSome then (false, r, { res with type := .void })
  else
    match anyFirst r 0x5b with
    | (true, r) => (false, r, res)
    | (false, r) =>
      match checkEnd r res 0x5d with
      | (true, r, res) => (false, r, res)
      | (false, r, res) => arrNext r res

def ujsonArrNext : Bool × Reader × Val :=
  if r.err.isSome then (false, r, { res with type := .void })
  else
    match checkEnd r res 0x5d with
    | (true, r, res) => (false, r, res)
    | (false, r, res) =>
      match preNext r res with
      | (true, r, res) => (false, r, res)
      | (false, r, res) => arrNext r res

end LtpDdt.Ujson
