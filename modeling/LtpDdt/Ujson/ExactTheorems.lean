/-
Ujson.ExactTheorems — when the reader stores what a token means.

Integers: `get_int` accumulates in a `long` and has no check for overflow,
so the value is stored modulo 2^64 (`getInt_at`); it is the value of the
token for the tokens in the range of a `long` and for no others.
-/
import LtpDdt.Json.Encoding
import LtpDdt.Ujson.Walk

namespace LtpDdt.Ujson

open Json List

/-! ## Integers -/

lemma wrapLong_eq_iff {v} : wrapLong v = v ↔ -2 ^ 63 ≤ v ∧ v < 2 ^ 63 := by
  refine ⟨fun h => ?_, fun h => wrapLong_of_lt h.1 h.2⟩
  unfold wrapLong at h
  have hlo := @Int.le_bmod v (2 ^ 64) (by decide)
  have hhi := @Int.bmod_lt v (2 ^ 64) (by decide)
  omega

/-- `get_int` has stored `v` or set the error. -/
def IntStored (v : Int) (out : Option Int × Reader) : Prop :=
  out.1 = some v ∨ out.2.err ≠ none

/-- **An integer token is stored exactly if it is in the range of a `long`.** -/
theorem getInt_exact_iff {r : Reader} {e : Env} {d : Nat} {n : Number} {t : List UInt8}
    (hint : n.isInt = true) (ht : NoDigit t) (h : r.At e d (n.text ++ t)) :
    IntStored n.value (getInt r) ↔ -2 ^ 63 ≤ n.value ∧ n.value ≤ 2 ^ 63 - 1 := by
  obtain ⟨_, hget, h'⟩ := getInt_at hint ht h
  have hiff : IntStored n.value (getInt r) ↔ wrapLong n.value = n.value := by
    rw [hget]
    refine ⟨fun hstored => ?_, fun heq => .inl (congrArg some heq)⟩
    rcases hstored with hval | herr
    · exact Option.some.inj hval
    · exact absurd h'.err herr
  rw [hiff, wrapLong_eq_iff]
  omega

/-- `LONG_MIN`. -/
def longMin : Number where
  neg := true
  int := ⟨[0x39, 0x32, 0x32, 0x33, 0x33, 0x37, 0x32, 0x30, 0x33, 0x36, 0x38, 0x35, 0x34, 0x37,
    0x37, 0x35, 0x38, 0x30, 0x38], by decide, all_eq_true.1 rfl⟩
  noLeadingZero := nofun
  frac := none
  exp := none

theorem getInt_exact_longMin : IntStored (-2 ^ 63) (getInt { json := longMin.text }) := by
  have hat : Reader.At { json := longMin.text } ⟨longMin.text, false⟩ 0 (longMin.text ++ []) := by
    exact .init _ _
  exact (getInt_exact_iff rfl (fun b hb => by cases hb) hat).2 (by decide)

/-- One more than `LONG_MAX` is stored as `LONG_MIN`, without an error. -/
theorem getInt_wraps : { longMin with neg := false }.value = 2 ^ 63 ∧
      getInt { json := { longMin with neg := false }.text } =
        (some (-2 ^ 63), { json := { longMin with neg := false }.text, off := 19 }) := by
  decide +kernel

/-! ## Strings -/

/-- What a UTF-8 literal stands for is UTF-8, without surrogates. The bytes `p` are of a character
that has been read in part. -/
lemma isUtf8_decode (s : List StrElem) (p : List UInt8) (hs : ∀ x ∈ s, x.half = none)
    (h : IsUtf8 (p ++ strText s)) : IsUtf8 (p ++ strDecode s) := by
  induction s generalizing p with
  | nil => exact h
  | cons x s ih =>
    obtain ⟨hx, hrest⟩ := forall_mem_cons.1 hs
    cases x with
    | plain b =>
      have hb' := ih (p ++ [b]) hrest (by rw [append_assoc]; exact h)
      rw [append_assoc] at hb'
      exact hb'
    | esc c =>
      obtain ⟨hp, htail⟩ := isUtf8_split (b := 0x5c) (by decide) h
      have hletter : c.letter.toNat ≤ 127 := by cases c <;> decide
      have hbyte : c.byte.toNat ≤ 127 := by cases c <;> decide
      have hs' := ih [] hrest (isUtf8_split (a := []) hletter htail).2
      exact hp.append ((isUtf8_ascii (isAscii_iff.2 (forall_mem_singleton.2 hbyte))).append hs')
    | ucode h₁ h₂ h₃ h₄ =>
      obtain ⟨hp, htail⟩ := isUtf8_split (b := 0x5c) (by decide) h
      have hu := (isUtf8_split (a := []) (by decide) htail).2
      have ha₁ := (isUtf8_split (a := []) h₁.toNat_le hu).2
      have ha₂ := (isUtf8_split (a := []) h₂.toNat_le ha₁).2
      have ha₃ := (isUtf8_split (a := []) h₃.toNat_le ha₂).2
      have hs' := ih [] hrest (isUtf8_split (a := []) h₄.toNat_le ha₃).2
      exact hp.append ((isUtf8_ucode hx).append hs')

/-- `copy_str` has stored the UTF-8 of the string. -/
def StrStored (value : List UInt8) (out : Option (List UInt8) × Reader) : Prop :=
  out.1 = some value ∧ IsUtf8 value

/-- **A string literal is stored exactly if no surrogate is escaped in it.** `value` has pairs taken
together. -/
theorem copyStr_exact_iff {r : Reader} {e : Env} {d len : Nat} {s : List StrElem}
    {t value : List UInt8} (hutf : IsUtf8 (strText s)) (hvalue : strValue s = some value)
    (hlen : Fits s len) (h : r.At e d (0x22 :: (strText s ++ 0x22 :: t))) :
    StrStored value (copyStr r (some len)) ↔ ∀ x ∈ s, x.half = none := by
  have hreads : StrReads s (some len) := hlen
  obtain ⟨_, hcopy, -⟩ := copyStr_reads hreads h
  rw [← strValue_eq_strDecode_iff, hvalue, hcopy]
  constructor
  · rintro ⟨hstored, -⟩
    exact hstored.symm
  intro heq
  refine ⟨heq.symm, ?_⟩
  rw [← hvalue, strValue_eq_strDecode_iff] at heq
  rw [strValue_of_noHalf heq] at hvalue
  rw [← Option.some.inj hvalue]
  exact isUtf8_decode s [] heq hutf

/-- An e with an acute accent, escaped. -/
theorem copyStr_exact_accent :
    StrStored [0x68, 0xc3, 0xa9] (copyStr { json := [0x22, 0x68, 0x5c, 0x75, 0x30, 0x30, 0x65,
      0x39, 0x22] } (some 8)) := by
  refine (copyStr_exact_iff (s := [.plain 0x68 rfl, .ucode .zero .zero ⟨0x65, rfl⟩
    ⟨0x39, rfl⟩]) (t := []) (isUtf8_ascii rfl) rfl (Nat.lt_of_sub_eq_succ rfl) (.init _ false)).2 ?_
  exact forall_mem_cons.2 ⟨rfl, forall_mem_singleton.2 rfl⟩

def pairElems : List StrElem :=
  [.ucode ⟨0x64, rfl⟩ ⟨0x38, rfl⟩ ⟨0x33, rfl⟩ ⟨0x64, rfl⟩,
    .ucode ⟨0x64, rfl⟩ ⟨0x65, rfl⟩ .zero .zero]

/-- Its halves are stored one by one. -/
theorem copyStr_splits_pair :
    IsUtf8 (strText pairElems) ∧ strValue pairElems = some [0xf0, 0x9f, 0x98, 0x80] ∧
      (copyStr { json := 0x22 :: (strText pairElems ++ [0x22]) } (some 64)).1 =
        some [0xed, 0xa0, 0xbd, 0xed, 0xb8, 0x80] :=
  ⟨isUtf8_ascii rfl, rfl, rfl⟩

end LtpDdt.Ujson
