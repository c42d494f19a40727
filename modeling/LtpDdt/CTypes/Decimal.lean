/-
CTypes.Decimal — decimal numbers in C strings: what `%d` prints and
what `atoi` reads.

`atoi` reads a printed number back, if what follows it is no digit
(`atoi_decimal`).
-/
import LtpDdt.CTypes.Ints

namespace LtpDdt.CTypes

open List UInt8

/-- `isdigit` and `isspace` -/
def isDigitByte (b : UInt8) : Bool := 0x30 ≤ b && b ≤ 0x39
def isSpaceByte (b : UInt8) : Bool := b == 0x20 || (0x09 ≤ b && b ≤ 0x0d)

def decimal (n : Nat) : List UInt8 :=
  if n < 10 then [UInt8.ofNat (0x30 + n)] else decimal (n / 10) ++ [UInt8.ofNat (0x30 + n % 10)]

/-- `%d` -/
def printInt (x : Int) : List UInt8 :=
  if x < 0 then 0x2d :: decimal (-x).toNat else decimal x.toNat

/-- The number that the digits at the begin of a text stand for. -/
def leadingDigits : Nat → List UInt8 → Nat
  | acc, [] => acc
  | acc, b :: bs => if isDigitByte b then leadingDigits (acc * 10 + (b.toNat - 0x30)) bs else acc

/-- `strtol` to base 10 -/
def strtol (s : List UInt8) : Int :=
  let s := s.dropWhile isSpaceByte
  let v : Int := match s with
    | 0x2d :: t => -(leadingDigits 0 t : Int)
    | 0x2b :: t => leadingDigits 0 t
    | _ => leadingDigits 0 s
  max (-9223372036854775808) (min 9223372036854775807 v)

def atoi (s : List UInt8) : Int := int32 (strtol s)

lemma printInt_natCast (n : Nat) : printInt n = decimal n := by
  rw [printInt, if_neg (by omega), Int.toNat_natCast]

/-! ## Digits -/

lemma isDigitByte_iff (b : UInt8) : isDigitByte b ↔ 48 ≤ b.toNat ∧ b.toNat ≤ 57 := by
  simp [isDigitByte, le_iff_toNat_le]

lemma digit_byte {d} (h : d < 10) :
    isDigitByte (ofNat (0x30 + d)) ∧ (ofNat (0x30 + d)).toNat = 0x30 + d := by
  have hval : (ofNat (0x30 + d)).toNat = 0x30 + d := by
    rw [toNat_ofNat', Nat.mod_eq_of_lt (by omega)]
  refine ⟨?_, hval⟩
  rw [isDigitByte_iff]
  omega

lemma isDigitByte_decimal (n : Nat) : ∀ b ∈ decimal n, isDigitByte b := by
  induction n using decimal.induct with intro b hb
  | case1 n h =>
    rw [decimal, if_pos h, mem_singleton] at hb
    rw [hb]
    exact (digit_byte h).1
  | case2 n h ih =>
    rw [decimal, if_neg h, mem_append, mem_singleton] at hb
    rcases hb with hb | rfl
    · exact ih b hb
    · exact (digit_byte (Nat.mod_lt n (by decide))).1

lemma decimal_ne_nil (n : Nat) : decimal n ≠ [] := by
  rw [decimal]
  split <;> simp

lemma decimal_head {n} (h : 0 < n) : (decimal n).head? ≠ some 0x30 := by
  induction n using decimal.induct with
  | case1 n hlt =>
    rw [decimal, if_pos hlt]
    intro he
    have hval := (digit_byte hlt).2
    rw [Option.some.inj he] at hval
    simp only [reduceToNat] at hval
    omega
  | case2 n hge ih =>
    rw [decimal, if_neg hge, head?_append_of_ne_nil _ (decimal_ne_nil _)]
    exact ih (by omega)

lemma decimal_length_le : ∀ {n k}, n < 10 ^ (k + 1) → (decimal n).length ≤ k + 1
  | n, 0, h => by rw [decimal, if_pos (by simpa using h)]; simp
  | n, k + 1, h => by
    rw [decimal]
    split
    · simp
    · have := decimal_length_le (n := n / 10) (k := k) (by rw [Nat.pow_succ] at h; omega)
      simpa using this

lemma leadingDigits_append : ∀ ds, (∀ b ∈ ds, isDigitByte b) → ∀ acc t,
      leadingDigits acc (ds ++ t) = leadingDigits (leadingDigits acc ds) t
  | [], _, _, _ => rfl
  | b :: ds, h, acc, t => by
    have hb := h b (by simp)
    simp only [cons_append, leadingDigits, hb]
    exact leadingDigits_append ds (fun x hx => h x (by simp [hx])) _ t

lemma leadingDigits_decimal (n : Nat) : leadingDigits 0 (decimal n) = n := by
  induction n using decimal.induct with
  | case1 n h =>
    obtain ⟨hd, _⟩ := digit_byte h
    rw [decimal, if_pos h]
    simp only [leadingDigits, hd, if_true]
    omega
  | case2 n h =>
    obtain ⟨hd, _⟩ := digit_byte (Nat.mod_lt n (by decide : 0 < 10))
    rw [decimal, if_neg h, leadingDigits_append _ (isDigitByte_decimal _)]
    simp only [leadingDigits, hd, if_true]
    omega

lemma strtol_digit {b} (hb : isDigitByte b) (t : List UInt8)
    (hle : (leadingDigits 0 (b :: t) : Int) ≤ intMax) :
    strtol (b :: t) = leadingDigits 0 (b :: t) := by
  have hrange := (isDigitByte_iff b).mp hb
  have hne : ∀ c, c.toNat < 48 → b ≠ c := fun c hc h => by subst h; omega
  have hspace : isSpaceByte b = false := by
    simp [isSpaceByte, le_iff_toNat_le, hne 0x20 (by decide)]
    omega
  have hdrop : (b :: t).dropWhile isSpaceByte = b :: t := by simp [hspace]
  simp only [strtol, hdrop]
  split
  · next h => exact absurd (cons.inj h).1 (hne 0x2d (by decide))
  · next h => exact absurd (cons.inj h).1 (hne 0x2b (by decide))
  · unfold intMax at hle
    omega

lemma atoi_decimal {n : Nat} (hn : (n : Int) ≤ intMax) {b : UInt8} (hb : isDigitByte b = false)
    (t : List UInt8) : atoi (decimal n ++ b :: t) = n := by
  have hlead : leadingDigits 0 (decimal n ++ b :: t) = n := by
    rw [leadingDigits_append _ (isDigitByte_decimal n), leadingDigits_decimal]
    simp [leadingDigits, hb]
  obtain ⟨d, _, hds⟩ := exists_cons_of_ne_nil (decimal_ne_nil n)
  have hd := isDigitByte_decimal n d (by simp [hds])
  rw [hds, cons_append] at hlead ⊢
  rw [atoi, strtol_digit hd _ (by omega), hlead, int32_of_range (by omega) hn]

end LtpDdt.CTypes
