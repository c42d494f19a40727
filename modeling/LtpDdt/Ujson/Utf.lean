/-
Ujson.Utf — the UTF-8 helpers of `include/ujson_utf.h` and `libs/ujson/ujson_utf.c`
(`ujson_utf8_bytes` and `ujson_to_utf8` are in `Ujson.Reader`).

* A string is the list of its bytes with the terminating zero, an offset an index, and
  a pointer that a function moves the bytes from there on. Reading outside is `none`.
* What is read is masked, so the sign of a `char` has no effect: characters are bytes.
* An `int8_t` size is an integer, -1 for a failure.
-/
import LtpDdt.Ujson.Reader

namespace LtpDdt.Ujson

/-! ## Bytes -/

variable (ch : UInt8)

def ujsonUtf8IsAscii : Bool := ch &&& 0x80 == 0

def ujsonUtf8IsNByte : Bool := ch &&& 0xc0 == 0x80

def ujsonUtf8Is2Byte : Bool := ch &&& 0xe0 == 0xc0

def ujsonUtf8Is3Byte : Bool := ch &&& 0xf0 == 0xe0

def ujsonUtf8Is4Byte : Bool := ch &&& 0xf8 == 0xf0

def ujsonUtf8NByteMask : UInt8 := 0x3f

/-! ## Characters -/

/-- The character and the string behind it; the character is 0 on a
failure. -/
def ujsonUtf8Next : List UInt8 → Option (Nat × List UInt8)
  | [] => none
  | s0 :: str =>
    if ujsonUtf8IsAscii s0 then some (s0.toNat, str)
    else
      match str with
      | [] => none
      | s1 :: str' =>
        if !ujsonUtf8IsNByte s1 then some (0, str)
        else
          let s1 := s1 &&& ujsonUtf8NByteMask
          if ujsonUtf8Is2Byte s0 then
            some ((s0 &&& 0x1f).toNat <<< 6 ||| s1.toNat, str')
          else
            match str' with
            | [] => none
            | s2 :: str'' =>
              if !ujsonUtf8IsNByte s2 then some (0, str')
              else
                let s2 := s2 &&& ujsonUtf8NByteMask
                if ujsonUtf8Is3Byte s0 then
                  some ((s0 &&& 0x0f).toNat <<< 12 ||| s1.toNat <<< 6 ||| s2.toNat, str'')
                else
                  -- the pointer is moved before the last byte is read
                  match str''.drop 1 with
                  | [] => none
                  | s3 :: _ =>
                    -- and the byte that is checked is the third, without its mark
                    if !ujsonUtf8IsNByte s2 then some (0, str''.drop 1)
                    else
                      let s3 := s3 &&& ujsonUtf8NByteMask
                      if ujsonUtf8Is4Byte s0 then
                        some ((s0 &&& 0x07).toNat <<< 18 ||| s1.toNat <<< 12 |||
                          s2.toNat <<< 6 ||| s3.toNat, str''.drop 1)
                      else some (0, str''.drop 1)

variable (str : List UInt8)

/-- The checks behind the label `ret`. -/
def nextChszRet (off len : Nat) : Option Int := do
  let c1 ← str[off + 1]?
  if !ujsonUtf8IsNByte c1 then some (-1)
  else if len > 2 then
    let c2 ← str[off + 2]?
    if !ujsonUtf8IsNByte c2 then some (-1)
    else if len > 3 then
      let c3 ← str[off + 3]?
      if !ujsonUtf8IsNByte c3 then some (-1) else some len
    else some len
  else some len

def ujsonUtf8NextChsz (off : Nat) : Option Int := do
  let ch ← str[off]?
  if ch = 0 then some 0
  else if ujsonUtf8IsAscii ch then some 1
  else if ujsonUtf8Is2Byte ch then nextChszRet str off 2
  else if ujsonUtf8Is3Byte ch then nextChszRet str off 3
  else if ujsonUtf8Is4Byte ch then nextChszRet str off 4
  else some (-1)

def ujsonUtf8PrevChsz (off : Nat) : Option Int :=
  if off = 0 then some 0
  else do
    let ch ← str[off - 1]?
    if ujsonUtf8IsAscii ch then some 1
    else if !ujsonUtf8IsNByte ch then some (-1)
    else if off - 1 < 1 then some (-1)
    else
      let ch ← str[off - 2]?
      if ujsonUtf8Is2Byte ch then some 2
      else if !ujsonUtf8IsNByte ch then some (-1)
      else if off - 2 < 1 then some (-1)
      else
        let ch ← str[off - 3]?
        if ujsonUtf8Is3Byte ch then some 3
        else if !ujsonUtf8IsNByte ch then some (-1)
        else if off - 3 < 1 then some (-1)
        else
          let ch ← str[off - 4]?
          if ujsonUtf8Is4Byte ch then some 4 else some (-1)

/-- The loop of `ujson_utf8_strlen`; each round reads a byte. -/
def strlenLoop : Nat → List UInt8 → Nat → Option Nat
  | 0, _, _ => none
  | n + 1, str, cnt => do
      let (ch, str) ← ujsonUtf8Next str
      if ch = 0 then some cnt else strlenLoop n str (cnt + 1)

def ujsonUtf8Strlen : Option Nat := strlenLoop (str.length + 1) str 0

/-! ## Encoded strings -/

def encode (cps : List Nat) : List UInt8 := cps.flatMap ujsonToUtf8

def encodeStr (cps : List Nat) : List UInt8 := encode cps ++ [0]

def ReadsBack (cp : Nat) : Prop :=
  (ujsonToUtf8 cp).length = ujsonUtf8Bytes cp ∧
    ∀ rest, ujsonUtf8Next (ujsonToUtf8 cp ++ rest) = some (cp, rest)

/-- From each boundary the next one is found, and from there the first. -/
def Bounds (cps : List Nat) : Prop :=
  ∀ a cp b, cps = a ++ cp :: b →
    ujsonUtf8NextChsz (encodeStr cps) (encode a).length = some (ujsonUtf8Bytes cp : Int) ∧
      ujsonUtf8PrevChsz (encodeStr cps) ((encode a).length + ujsonUtf8Bytes cp) =
        some (ujsonUtf8Bytes cp : Int)

structure Utf8Laws (cps : List Nat) : Prop where
  next : ∀ cp ∈ cps, ReadsBack cp
  strlen : ujsonUtf8Strlen (encodeStr cps) = some cps.length
  bounds : Bounds cps
  atEnd : ujsonUtf8NextChsz (encodeStr cps) (encode cps).length = some 0
  atStart : ujsonUtf8PrevChsz (encodeStr cps) 0 = some 0

end LtpDdt.Ujson
