/-
Json.Grammar — JSON texts as RFC 8259 defines them, byte by byte.

A text is given by the tree of its grammar, white space and spelling included; `text`
prints it. The tokens carry their own well-formedness, so every value of these types is
a JSON text and every JSON text whose top-level value is a container is the print of
one.

A container is the `Seq` of its members, indexed by its kind: the members of an object
have a key. A member is a scalar or a container, so the recursion over a text is the
recursion over one type.

The meaning is read off the tree: `Number.value`, and `strValue` for the UTF-8 bytes of
a string. `strDecode` takes every `\u` escape for a code point of its own.
-/
import Mathlib.Data.BitVec

namespace LtpDdt.Json

open List Option

/-! ## Tokens -/

variable (b : UInt8)

/-- Space, tab, line feed, carriage return. -/
def isWs : Bool := b == 0x20 || b == 0x09 || b == 0x0a || b == 0x0d

def Ws : Type := { bs : List UInt8 // ∀ b ∈ bs, isWs b = true }

def Ws.empty : Ws := ⟨[], nofun⟩

def isDigit : Bool := 0x30 ≤ b && b ≤ 0x39

structure Digits where
  bytes : List UInt8
  ne : bytes ≠ []
  digit : ∀ b ∈ bytes, isDigit b = true

def digitVal : Nat := b.toNat - 0x30

/-- The value of a row of digits read after `acc`. -/
def digitsVal : List UInt8 → Nat → Nat
  | [], acc => acc
  | b :: bs, acc => digitsVal bs (acc * 10 + digitVal b)

/-- `exp`: the letter, the sign and the digits. -/
structure Exponent where
  upper : Bool
  sign : Option Bool
  digits : Digits

/-- A number. Only `0` starts with a zero. -/
structure Number where
  neg : Bool
  int : Digits
  noLeadingZero : int.bytes.head? = some 0x30 → int.bytes.length = 1
  frac : Option Digits
  exp : Option Exponent

variable (n : Number)

def Number.isInt : Bool := n.frac.isNone && n.exp.isNone

def Number.value : Int :=
  if n.neg then -(digitsVal n.int.bytes 0 : Int) else (digitsVal n.int.bytes 0 : Int)

def signText : Option Bool → List UInt8
  | none => []
  | some false => [0x2b]
  | some true => [0x2d]

def Exponent.text (e : Exponent) : List UInt8 :=
  (if e.upper then 0x45 else 0x65) :: (signText e.sign ++ e.digits.bytes)

def fracText : Option Digits → List UInt8
  | none => []
  | some ds => 0x2e :: ds.bytes

def expText : Option Exponent → List UInt8
  | none => []
  | some e => e.text

def Number.tailText : List UInt8 := fracText n.frac ++ expText n.exp

def Number.text : List UInt8 :=
  (if n.neg then [0x2d] else []) ++ (n.int.bytes ++ n.tailText)

/-- The letter after a backslash, `u` apart. -/
inductive Escape where
  | quote | backslash | slash | b | f | n | r | t
  deriving DecidableEq

def Escape.letter : Escape → UInt8
  | .quote => 0x22
  | .backslash => 0x5c
  | .slash => 0x2f
  | .b => 0x62
  | .f => 0x66
  | .n => 0x6e
  | .r => 0x72
  | .t => 0x74

def Escape.byte : Escape → UInt8
  | .quote => 0x22
  | .backslash => 0x5c
  | .slash => 0x2f
  | .b => 0x08
  | .f => 0x0c
  | .n => 0x0a
  | .r => 0x0d
  | .t => 0x09

def hexVal : Option Nat :=
  if 0x30 ≤ b && b ≤ 0x39 then some (b.toNat - 0x30)
  else if 0x61 ≤ b && b ≤ 0x66 then some (b.toNat - 0x61 + 10)
  else if 0x41 ≤ b && b ≤ 0x46 then some (b.toNat - 0x41 + 10)
  else none

def Hex : Type := { b : UInt8 // (hexVal b).isSome = true }

def Hex.zero : Hex := ⟨0x30, rfl⟩

def Hex.val (h : Hex) : Nat := (hexVal h.1).getD 0

lemma Hex.val_eq (h : Hex) : hexVal h.1 = some h.val := by
  have := h.2
  unfold Hex.val
  cases hv : hexVal h.1 with
  | none => simp [hv] at this
  | some => rfl

lemma Hex.val_lt (h : Hex) : h.val < 16 := by
  have hv := h.val_eq
  unfold hexVal at hv
  simp only [UInt8.le_iff_toNat_le] at hv
  split at hv
  · rename_i hr; simp at hr; simp at hv; omega
  split at hv
  · rename_i hr; simp at hr; simp at hv; omega
  split at hv
  · rename_i hr; simp at hr; simp at hv; omega
  · cases hv

def isPlain : Bool := 0x20 ≤ b && b != 0x22 && b != 0x5c

inductive StrElem where
  | plain (b : UInt8) (h : isPlain b = true)
  | esc (e : Escape)
  | ucode (h₁ h₂ h₃ h₄ : Hex)

def StrElem.text : StrElem → List UInt8
  | .plain b _ => [b]
  | .esc e => [0x5c, e.letter]
  | .ucode h₁ h₂ h₃ h₄ => [0x5c, 0x75, h₁.1, h₂.1, h₃.1, h₄.1]

def codePoint (h₁ h₂ h₃ h₄ : Hex) : Nat :=
  ((h₁.val * 16 + h₂.val) * 16 + h₃.val) * 16 + h₄.val

lemma codePoint_lt (h₁ h₂ h₃ h₄ : Hex) : codePoint h₁ h₂ h₃ h₄ < 0x10000 := by
  have e₁ := h₁.val_lt
  have e₂ := h₂.val_lt
  have e₃ := h₃.val_lt
  have e₄ := h₄.val_lt
  unfold codePoint
  omega

/-- UTF-8 of a code point below 0x10000. -/
def utf8 (cp : Nat) : List UInt8 :=
  if cp < 0x80 then [UInt8.ofNat cp]
  else if cp < 0x800 then [UInt8.ofNat (0xc0 + cp / 64), UInt8.ofNat (0x80 + cp % 64)]
  else [UInt8.ofNat (0xe0 + cp / 4096), UInt8.ofNat (0x80 + cp / 64 % 64),
    UInt8.ofNat (0x80 + cp % 64)]

def StrElem.decode : StrElem → List UInt8
  | .plain b _ => [b]
  | .esc e => [e.byte]
  | .ucode h₁ h₂ h₃ h₄ => utf8 (codePoint h₁ h₂ h₃ h₄)

def strText (s : List StrElem) : List UInt8 := s.flatMap StrElem.text

def strDecode (s : List StrElem) : List UInt8 := s.flatMap StrElem.decode

/-! ## Surrogate pairs -/

/-- Half of a code point above 0xffff, with its ten bits. -/
inductive Half where
  | high (bits : Nat)
  | low (bits : Nat)

def StrElem.half : StrElem → Option Half
  | .ucode h₁ h₂ h₃ h₄ =>
    let cp := codePoint h₁ h₂ h₃ h₄
    if 0xd800 ≤ cp ∧ cp < 0xdc00 then some (.high (cp - 0xd800))
    else if 0xdc00 ≤ cp ∧ cp < 0xe000 then some (.low (cp - 0xdc00))
    else none
  | _ => none

def utf8Pair (high low : Nat) : List UInt8 :=
  let cp := 0x10000 + high * 1024 + low
  [UInt8.ofNat (0xf0 + cp / 262144), UInt8.ofNat (0x80 + cp / 4096 % 64),
    UInt8.ofNat (0x80 + cp / 64 % 64), UInt8.ofNat (0x80 + cp % 64)]

/-- The bytes of `s` behind the high half `pending`. A half that stands alone has none. -/
def strValueFrom : List StrElem → Option Nat → Option (List UInt8)
  | [], none => some []
  | [], some _ => none
  | x :: s, none =>
    match x.half with
    | none => (strValueFrom s none).map (x.decode ++ ·)
    | some (.high bits) => strValueFrom s (some bits)
    | some (.low _) => none
  | x :: s, some high =>
    match x.half with
    | some (.low bits) => (strValueFrom s none).map (utf8Pair high bits ++ ·)
    | _ => none

def strValue (s : List StrElem) : Option (List UInt8) := strValueFrom s none

variable {x : StrElem} {s : List StrElem} {pending : Option Nat} {bs : List UInt8}

lemma StrElem.decode_half (h : x.half ≠ none) : x.decode.length = 3 := by
  cases x with
  | plain | esc => exact absurd rfl h
  | ucode h₁ h₂ h₃ h₄ =>
    have hcp : 0xd800 ≤ codePoint h₁ h₂ h₃ h₄ := by
      by_contra hlt
      refine h ?_
      simp only [StrElem.half]
      rw [if_neg (by omega), if_neg (by omega)]
    simp only [StrElem.decode, utf8]
    rw [if_neg (by omega), if_neg (by omega)]
    rfl

lemma strValue_of_noHalf (h : ∀ x ∈ s, x.half = none) : strValue s = some (strDecode s) := by
  induction s with
  | nil => rfl
  | cons x s ih =>
    simp only [mem_cons, forall_eq_or_imp] at h
    have ih' : strValueFrom s none = some (strDecode s) := ih h.2
    simp only [strValue, strValueFrom, h.1, ih']
    rfl

lemma strValueFrom_length (h : strValueFrom s pending = some bs) :
    bs.length ≤ (strDecode s).length + pending.isSome.toNat ∧
      ((∃ x ∈ s, x.half ≠ none) → bs.length < (strDecode s).length + 2 * pending.isSome.toNat) := by
  induction s generalizing pending bs with
  | nil =>
    cases pending with
    | none => cases h; simp
    | some => cases h
  | cons x s ih =>
    have hlen : (strDecode (x :: s)).length = x.decode.length + (strDecode s).length := by
      simp [strDecode]
    cases pending with simp only [strValueFrom] at h
    | none =>
      cases hx : x.half with
      | none =>
        simp only [hx, map_eq_some_iff] at h
        obtain ⟨_, h', rfl⟩ := h
        obtain ⟨hle, hlt⟩ := ih h'
        simp only [length_append] at hle hlt ⊢
        refine ⟨by omega, ?_⟩
        rintro ⟨y, hy, hne⟩
        rcases mem_cons.mp hy with rfl | hy
        · exact absurd hx hne
        · have := hlt ⟨y, hy, hne⟩
          omega
      | some half =>
        have h3 := StrElem.decode_half (x := x) (by rw [hx]; nofun)
        cases half with
        | high =>
          simp only [hx] at h
          have := (ih h).1
          simp only [isSome_some, Bool.toNat_true] at this ⊢
          exact ⟨by omega, fun _ => by omega⟩
        | low => simp [hx] at h
    | some high =>
      cases hx : x.half with
      | none => simp [hx] at h
      | some half =>
        have h3 := StrElem.decode_half (x := x) (by rw [hx]; nofun)
        cases half with
        | high => simp [hx] at h
        | low bits =>
          simp only [hx, map_eq_some_iff] at h
          obtain ⟨_, h', rfl⟩ := h
          have := (ih h').1
          have h4 : (utf8Pair high bits).length = 4 := rfl
          simp only [length_append, isSome_some, isSome_none, Bool.toNat_true,
            Bool.toNat_false] at this ⊢
          exact ⟨by omega, fun _ => by omega⟩

lemma strValue_eq_strDecode_iff : strValue s = some (strDecode s) ↔ ∀ x ∈ s, x.half = none := by
  refine ⟨fun h x hx => ?_, strValue_of_noHalf⟩
  by_contra hne
  have := (strValueFrom_length h).2 ⟨x, hx, hne⟩
  simp at this

lemma mem_strValueFrom {b} (h : strValueFrom s pending = some bs) (hx : x ∈ s)
    (hhalf : x.half = none) (hb : b ∈ x.decode) : b ∈ bs := by
  induction s generalizing pending bs with
  | nil => cases hx
  | cons y s ih =>
    cases pending with simp only [strValueFrom] at h
    | none =>
      cases hy : y.half with
      | none =>
        simp only [hy, map_eq_some_iff] at h
        obtain ⟨_, h', rfl⟩ := h
        rcases mem_cons.mp hx with rfl | hx
        · exact mem_append_left _ hb
        · exact mem_append_right _ (ih h' hx)
      | some half =>
        have hx' : x ∈ s := (mem_cons.mp hx).resolve_left (by rintro rfl; simp [hhalf] at hy)
        cases half with
        | high => simp only [hy] at h; exact ih h hx'
        | low => simp [hy] at h
    | some high =>
      cases hy : y.half with
      | none => simp [hy] at h
      | some half =>
        have hx' : x ∈ s := (mem_cons.mp hx).resolve_left (by rintro rfl; simp [hhalf] at hy)
        cases half with
        | high => simp [hy] at h
        | low =>
          simp only [hy, map_eq_some_iff] at h
          obtain ⟨_, h', rfl⟩ := h
          exact mem_append_right _ (ih h' hx')

lemma noHalf_of_ascii (h : strValueFrom s pending = some bs) (hbs : ∀ b ∈ bs, b < 0x80) :
    pending = none ∧ ∀ x ∈ s, x.half = none := by
  induction s generalizing pending bs with
  | nil =>
    cases pending with
    | none => exact ⟨rfl, nofun⟩
    | some => cases h
  | cons x s ih =>
    cases pending with simp only [strValueFrom] at h
    | none =>
      cases hx : x.half with
      | none =>
        simp only [hx, map_eq_some_iff] at h
        obtain ⟨_, h', rfl⟩ := h
        have := (ih h' fun b hb => hbs b (mem_append_right _ hb)).2
        exact ⟨rfl, forall_mem_cons.mpr ⟨hx, this⟩⟩
      | some half =>
        cases half with
        | high => simp only [hx] at h; exact absurd (ih h hbs).1 nofun
        | low => simp [hx] at h
    | some high =>
      cases hx : x.half with
      | none => simp [hx] at h
      | some half =>
        cases half with
        | high => simp [hx] at h
        | low bits =>
          -- the last byte of a pair is a continuation byte
          simp only [hx, map_eq_some_iff] at h
          obtain ⟨_, _, rfl⟩ := h
          have hlast := hbs (UInt8.ofNat (0x80 + (0x10000 + high * 1024 + bits) % 64))
            (by simp [utf8Pair])
          rw [UInt8.lt_iff_toNat_lt, UInt8.toNat_ofNat', show (0x80 : UInt8).toNat = 128 from rfl]
            at hlast
          omega

/-! ## Values -/

inductive Scalar where
  | num (n : Number)
  | bool (b : Bool)
  | null
  | str (s : List StrElem)

def trueText : List UInt8 := [0x74, 0x72, 0x75, 0x65]

def falseText : List UInt8 := [0x66, 0x61, 0x6c, 0x73, 0x65]

def nullText : List UInt8 := [0x6e, 0x75, 0x6c, 0x6c]

def Scalar.text : Scalar → List UInt8
  | .num n => n.text
  | .bool true => trueText
  | .bool false => falseText
  | .null => nullText
  | .str s => 0x22 :: (strText s ++ [0x22])

inductive Kind where
  | arr
  | obj
  deriving DecidableEq

def Kind.opening : Kind → UInt8
  | .arr => 0x5b
  | .obj => 0x7b

def Kind.closing : Kind → UInt8
  | .arr => 0x5d
  | .obj => 0x7d

/-- Before a member's value: in an object the name, with white space around the colon. -/
inductive Key : Kind → Type where
  | elem : Key .arr
  | name (s : List StrElem) (beforeColon afterColon : Ws) : Key .obj

def Key.text : {k : Kind} → Key k → List UInt8
  | _, .elem => []
  | _, .name s ws₁ ws₂ => 0x22 :: (strText s ++ (0x22 :: (ws₁.1 ++ (0x3a :: ws₂.1))))

/-- The members of a container: `sep` is the white space before the comma (a first member has none),
`lead` that before the member. -/
inductive Seq : Kind → Type where
  | nil {k : Kind} (ws : Ws) : Seq k
  | scalar {k : Kind} (sep lead : Ws) (key : Key k) (v : Scalar) (next : Seq k) : Seq k
  | sub {k : Kind} (sep lead : Ws) (key : Key k) (k' : Kind) (inner : Seq k') (next : Seq k) : Seq k

def sepText (first : Bool) (sep : Ws) : List UInt8 :=
  if first then [] else sep.1 ++ [0x2c]

/-- The text from a member on to the closing bracket. -/
def Seq.text : {k : Kind} → Seq k → Bool → List UInt8
  | k, .nil ws, _ => ws.1 ++ [k.closing]
  | _, .scalar sep lead key v next, first =>
    sepText first sep ++ (lead.1 ++ (key.text ++ (v.text ++ next.text false)))
  | _, .sub sep lead key k' inner next, first =>
    sepText first sep ++ (lead.1 ++ (key.text ++
      (k'.opening :: (inner.text true ++ next.text false))))

/-- A member of a container, without the white space around it. -/
inductive Member (k : Kind) where
  | scalar (key : Key k) (v : Scalar)
  | sub (key : Key k) (k' : Kind) (inner : Seq k')

def Member.key {k : Kind} : Member k → Key k
  | .scalar key _ => key
  | .sub key _ _ => key

def Seq.uncons : {k : Kind} → Seq k → Option (Member k × Seq k)
  | _, .nil _ => none
  | _, .scalar _ _ key v next => some (.scalar key v, next)
  | _, .sub _ _ key k' inner next => some (.sub key k' inner, next)

def Seq.members : {k : Kind} → Seq k → List (Member k)
  | _, .nil _ => []
  | _, .scalar _ _ key v next => .scalar key v :: next.members
  | _, .sub _ _ key k' inner next => .sub key k' inner :: next.members

/-- Every name at any depth satisfies `K`, every scalar `V`. -/
def Seq.All (K : ∀ k : Kind, Key k → Prop) (V : Scalar → Prop) : {k : Kind} → Seq k → Prop
  | _, .nil _ => True
  | k, .scalar _ _ key v next => (K k key ∧ V v) ∧ next.All K V
  | k, .sub _ _ key _ inner next => K k key ∧ inner.All K V ∧ next.All K V

def Member.All (K : ∀ k : Kind, Key k → Prop) (V : Scalar → Prop) {k : Kind} : Member k → Prop
  | .scalar key v => K k key ∧ V v
  | .sub key _ inner => K k key ∧ inner.All K V

def Member.ValueAll (K : ∀ k : Kind, Key k → Prop) (V : Scalar → Prop) {k : Kind} : Member k → Prop
  | .scalar _ v => V v
  | .sub _ _ inner => inner.All K V

variable {V V' : Scalar → Prop} {k : Kind} {K K' : ∀ k : Kind, Key k → Prop}

lemma Member.all_iff (m : Member k) : m.All K V ↔ K k m.key ∧ m.ValueAll K V := by cases m <;> rfl

lemma Seq.All.and {s : Seq k} (h : s.All K V) (h' : s.All K' V') :
    s.All (fun k key => K k key ∧ K' k key) (fun v => V v ∧ V' v) := by
  induction s with
  | nil => trivial
  | scalar sep lead key v next ih => exact ⟨⟨⟨h.1.1, h'.1.1⟩, h.1.2, h'.1.2⟩, ih h.2 h'.2⟩
  | sub sep lead key k' inner next ihi ihn =>
    exact ⟨⟨h.1, h'.1⟩, ihi h.2.1 h'.2.1, ihn h.2.2 h'.2.2⟩

lemma Seq.All.imp {s : Seq k} (hK : ∀ k key, K k key → K' k key) (hV : ∀ v, V v → V' v)
    (h : s.All K V) : s.All K' V' := by
  induction s with
  | nil => trivial
  | scalar sep lead key v next ih => exact ⟨⟨hK _ _ h.1.1, hV _ h.1.2⟩, ih h.2⟩
  | sub sep lead key k' inner next ihi ihn => exact ⟨hK _ _ h.1, ihi h.2.1, ihn h.2.2⟩

lemma Seq.all_iff_members (s : Seq k) : s.All K V ↔ ∀ m ∈ s.members, m.All K V := by
  induction s with
  | nil => simp [Seq.All, Seq.members]
  | scalar sep lead key v next ih => simp [Seq.All, Seq.members, Member.All, ih]
  | sub sep lead key k' inner next _ ih => simp [Seq.All, Seq.members, Member.All, ih, and_assoc]

def Seq.depth : {k : Kind} → Seq k → Nat
  | _, .nil _ => 0
  | _, .scalar _ _ _ _ next => next.depth
  | _, .sub _ _ _ _ inner next => max (inner.depth + 1) next.depth

def Member.depth {k : Kind} : Member k → Nat
  | .scalar _ _ => 0
  | .sub _ _ inner => inner.depth + 1

lemma Seq.depth_le {n} (s : Seq k) (h : ∀ m ∈ s.members, m.depth ≤ n) : s.depth ≤ n := by
  induction s with
  | nil => exact Nat.zero_le n
  | scalar sep lead key v next ih => exact ih (forall_mem_cons.1 h).2
  | sub sep lead key k' inner next _ ih =>
    have hinner : inner.depth + 1 ≤ n := h (.sub key k' inner) (by simp [Seq.members])
    exact Nat.max_le.mpr ⟨hinner, ih (forall_mem_cons.1 h).2⟩

/-! ## The value of a member -/

def Member.name? : Member .obj → Option (List UInt8)
  | m => match m.key with
    | .name s _ _ => strValue s

def Member.text? {k : Kind} : Member k → Option (List UInt8)
  | .scalar _ (.str s) => strValue s
  | _ => none

def Member.int? {k : Kind} : Member k → Option Int
  | .scalar _ (.num n) => if n.isInt then some n.value else none
  | _ => none

def Member.bool? {k : Kind} : Member k → Option Bool
  | .scalar _ (.bool b) => some b
  | _ => none

def Member.isNull {k : Kind} : Member k → Bool
  | .scalar _ .null => true
  | _ => false

def Member.array? {k : Kind} : Member k → Option (Seq .arr)
  | .sub _ .arr inner => some inner
  | _ => none

def Member.object? {k : Kind} : Member k → Option (Seq .obj)
  | .sub _ .obj inner => some inner
  | _ => none

/-- A whole text. -/
structure Doc where
  lead : Ws
  kind : Kind
  items : Seq kind
  trail : Ws

def Doc.text (d : Doc) : List UInt8 :=
  d.lead.1 ++ (d.kind.opening :: (d.items.text true ++ d.trail.1))

def Doc.nesting (d : Doc) : Nat := d.items.depth + 1

end LtpDdt.Json
