/-
Json.Encoding — which parts of a JSON text are UTF-8.

All tokens are ASCII but strings, so a text is UTF-8 if its strings are. An
ASCII byte stands between characters (`isUtf8_split`); so UTF-8 can be cut
at escapes, and what a `\u` escape stands for is a character if it is no
surrogate (`isUtf8_utf8`).
-/
import LtpDdt.Json.Layout

namespace LtpDdt.Json

open List

/-! ## Characters -/

lemma isUtf8_split {a c} {b : UInt8} (hb : b.toNat ≤ 127) (h : IsUtf8 (a ++ b :: c)) :
    IsUtf8 a ∧ IsUtf8 c := by
  obtain ⟨cs, hcs⟩ := h
  induction cs generalizing a with
  | nil => exact absurd hcs (by simp)
  | cons x cs ih =>
    rcases append_eq_append_iff.1 hcs with ⟨v, hx, hrest⟩ | ⟨v, ha, hrest⟩
    · -- `b` is in the character, or right behind it
      cases v with
      | nil =>
        rw [append_nil] at hx
        refine ⟨⟨[x], by rw [flatMap_singleton, hx]⟩, ?_⟩
        exact (ih (a := []) hrest).2
      | cons b' v =>
        obtain ⟨rfl, hc⟩ := cons.inj hrest
        rcases utf8EncodeChar_cases x with ⟨_, hb', -⟩ | hhigh
        · rw [hb'] at hx
          obtain ⟨rfl, rfl⟩ : a = [] ∧ v = [] := by
            have hlen := congrArg length hx
            simp only [length_append, length_cons, length_nil] at hlen
            exact ⟨eq_nil_of_length_eq_zero (by omega), eq_nil_of_length_eq_zero (by omega)⟩
          exact ⟨isUtf8_nil, ⟨cs, hc⟩⟩
        · have := hhigh b (by rw [hx]; simp)
          omega
    · obtain ⟨hv, hc⟩ := ih hrest.symm
      rw [ha]
      exact ⟨IsUtf8.append ⟨[x], by rw [flatMap_singleton]⟩ hv, hc⟩

lemma isUtf8_utf8 {cp} (hcp : cp < 0x10000) (hsur : ¬ (0xd800 ≤ cp ∧ cp < 0xe000)) :
    IsUtf8 (utf8 cp) := by
  have hvalid : cp.isValidChar := by
    rcases Nat.lt_or_ge cp 0xd800 with hlo | _
    · exact .inl hlo
    · exact .inr ⟨by omega, by omega⟩
  refine ⟨[Char.ofNat cp], ?_⟩
  have hval : (Char.ofNat cp).val.toNat = cp := by
    rw [Char.ofNat, dif_pos hvalid]
    rfl
  rw [flatMap_singleton, String.utf8EncodeChar, hval, utf8]
  by_cases h₁ : cp < 0x80
  · rw [if_pos h₁, if_pos (show cp ≤ 127 by omega)]
  rw [if_neg h₁, if_neg (show ¬ cp ≤ 127 by omega)]
  by_cases h₂ : cp < 0x800
  · rw [if_pos h₂, if_pos (show cp ≤ 2047 by omega)]
    rw [show 0xc0 + cp / 64 = cp / 64 % 32 + 192 by omega, Nat.add_comm 0x80]
  rw [if_neg h₂, if_neg (show ¬ cp ≤ 2047 by omega), if_pos (show cp ≤ 65535 by omega)]
  rw [show 0xe0 + cp / 4096 = cp / 4096 % 16 + 224 by omega, Nat.add_comm 0x80, Nat.add_comm 0x80]

lemma isUtf8_ucode {h₁ h₂ h₃ h₄} (hx : (StrElem.ucode h₁ h₂ h₃ h₄).half = none) :
    IsUtf8 (utf8 (codePoint h₁ h₂ h₃ h₄)) := by
  refine isUtf8_utf8 (codePoint_lt h₁ h₂ h₃ h₄) fun hsur => ?_
  simp only [StrElem.half] at hx
  split_ifs at hx
  all_goals omega

/-! ## Tokens -/

lemma isUtf8_ws (w : Ws) : IsUtf8 w.1 := by
  refine isUtf8_ascii (isAscii_iff.2 fun b hb => ?_)
  have hw := w.2 b hb
  simp only [isWs, Bool.or_eq_true, beq_iff_eq] at hw
  rcases hw with ((rfl | rfl) | rfl) | rfl <;> decide

lemma isUtf8_byte {b : UInt8} (hb : b.toNat ≤ 127) {t} (ht : IsUtf8 t) : IsUtf8 (b :: t) := by
  have hascii : IsUtf8 [b] := isUtf8_ascii (isAscii_iff.2 (forall_mem_singleton.2 hb))
  exact hascii.append ht

lemma isUtf8_number (n : Number) : IsUtf8 n.text := by
  refine isUtf8_ascii (isAscii_iff.2 fun b hb => ?_)
  have hnum := n.numBytes b hb
  simp only [isNumByte, Bool.or_eq_true, beq_iff_eq] at hnum
  rcases hnum with ((((hd | rfl) | rfl) | rfl) | rfl) | rfl
  · simp only [isDigit, Bool.and_eq_true, decide_eq_true_eq, UInt8.le_iff_toNat_le,
      UInt8.reduceToNat] at hd
    omega
  all_goals decide

lemma isUtf8_str {s} (hs : IsUtf8 (strText s)) : IsUtf8 (Scalar.str s).text :=
  isUtf8_byte (by decide) (hs.append (isUtf8_ascii rfl))

lemma isUtf8_name {s} (hs : IsUtf8 (strText s)) (w₁ w₂ : Ws) : IsUtf8 (Key.name s w₁ w₂).text :=
  isUtf8_byte (by decide) (hs.append (isUtf8_byte (by decide)
    ((isUtf8_ws w₁).append (isUtf8_byte (by decide) (isUtf8_ws w₂)))))

/-! ## Containers -/

lemma isUtf8_closing (k : Kind) : IsUtf8 [k.closing] := by cases k <;> exact isUtf8_ascii rfl

lemma opening_le (k : Kind) : k.opening.toNat ≤ 127 := by cases k <;> decide

lemma isUtf8_sep (first : Bool) (sep : Ws) : IsUtf8 (sepText first sep) := by
  cases first with
  | true => exact isUtf8_nil
  | false => exact (isUtf8_ws sep).append (isUtf8_ascii rfl)

end LtpDdt.Json
