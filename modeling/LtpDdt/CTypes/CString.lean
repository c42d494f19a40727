/-
CTypes.CString — functions of `<string.h>`, `<ctype.h>` and `<stdio.h>` on texts.

A C string is the list of the characters before its NUL, a pointer into it
the list from there on. The characters are bytes, or `Char` where a source is
about ASCII texts only (`CChar`).
-/
import Mathlib.Data.BitVec
import Mathlib.Data.List.TakeWhile

namespace LtpDdt.CTypes

open List

/-- `isspace` in the C locale. -/
def isSpace (c : Char) : Bool := c == ' ' || ('\t' ≤ c && c ≤ '\r')

/-- `isalnum` in the C locale. -/
def isAlnum (c : Char) : Bool :=
  ('A' ≤ c && c ≤ 'Z') || ('a' ≤ c && c ≤ 'z') || ('0' ≤ c && c ≤ '9')

/-- `strstr`: the text from the first occurrence on. -/
def strstr (needle : List Char) : List Char → Option (List Char)
  | [] => if needle.isPrefixOf [] then some [] else none
  | c :: text => if needle.isPrefixOf (c :: text) then some (c :: text) else strstr needle text

/-- What a character of C can be modelled by. -/
class CChar (α : Type) where
  nul : α
  newline : α

instance : CChar Char := ⟨'\x00', '\n'⟩

instance : CChar UInt8 := ⟨0, 0x0a⟩

@[simp] lemma nul_uint8 : (CChar.nul : UInt8) = 0 := rfl

@[simp] lemma newline_uint8 : (CChar.newline : UInt8) = 0x0a := rfl

def asc (c : Char) : UInt8 := UInt8.ofNat c.toNat

/-- The bytes of a literal of the source. -/
def ascii (s : String) : List UInt8 := s.toList.map asc

section Scan
variable {α : Type} {p : α → Bool}

lemma takeWhile_append_stop {as} (h : ∀ a ∈ as, p a) {b} (hb : p b = false) (bs : List α) :
    (as ++ b :: bs).takeWhile p = as := by
  rw [takeWhile_append_of_pos h, takeWhile_cons_of_neg (by simp [hb]), append_nil]

lemma dropWhile_append_stop {as} (h : ∀ a ∈ as, p a) {b} (hb : p b = false) (bs : List α) :
    (as ++ b :: bs).dropWhile p = b :: bs := by
  rw [dropWhile_append_of_pos h, dropWhile_cons_of_neg (by simp [hb])]

lemma scan_split (p : α → Bool) (r : List α) : ∃ pre post, r = pre ++ post ∧
    r.takeWhile p = pre ∧ r.dropWhile p = post ∧ (∀ a ∈ pre, p a) ∧
    ∀ b bs, post = b :: bs → p b = false := by
  refine ⟨r.takeWhile p, r.dropWhile p, takeWhile_append_dropWhile.symm, rfl, rfl, ?_, ?_⟩
  · exact fun a ha => by simpa using all_eq_true.1 all_takeWhile a ha
  intro b _ h
  have hhead := head?_dropWhile_not p r
  rw [h] at hhead
  simpa using hhead

end Scan

section Text
variable {α : Type} [DecidableEq α] [CChar α]

/-- The C string in a buffer, and what stands behind it. -/
def cstr (buf : List α) : List α := buf.takeWhile (· ≠ CChar.nul)

def behindCstr (buf : List α) : List α := buf.dropWhile (· ≠ CChar.nul)

lemma cstr_append_nul {s : List α} (h : CChar.nul ∉ s) (t : List α) :
    cstr (s ++ CChar.nul :: t) = s ∧ behindCstr (s ++ CChar.nul :: t) = CChar.nul :: t := by
  have hs : ∀ c ∈ s, decide (c ≠ CChar.nul) := fun c hc =>
    decide_eq_true fun he => h (he ▸ hc)
  exact ⟨takeWhile_append_stop hs (by simp) t, dropWhile_append_stop hs (by simp) t⟩

lemma cstr_append {s : List α} (h : CChar.nul ∉ s) (t : List α) : cstr (s ++ t) = s ++ cstr t :=
  takeWhile_append_of_pos fun _ hc => decide_eq_true fun he => h (he ▸ hc)

lemma cstr_of_not_mem {s : List α} (h : CChar.nul ∉ s) : cstr s = s :=
  takeWhile_eq_self_iff.2 fun _ hc => decide_eq_true fun he => h (he ▸ hc)

lemma nul_not_mem_cstr (buf : List α) : CChar.nul ∉ cstr buf :=
  fun h => by simpa using mem_takeWhile_imp h

lemma exists_cstr_append {buf : List α} (h : CChar.nul ∈ buf) :
    ∃ t, buf = cstr buf ++ CChar.nul :: t := by
  obtain ⟨pre, post, hbuf, hpre, -, -, hpost⟩ := scan_split (fun c => decide (c ≠ CChar.nul)) buf
  cases post with
  | nil =>
    rw [append_nil] at hbuf
    have hself : cstr buf = buf := hpre.trans hbuf.symm
    rw [← hself] at h
    exact absurd h (nul_not_mem_cstr buf)
  | cons b t =>
    obtain rfl : b = CChar.nul := by simpa using hpost b t rfl
    exact ⟨t, by rw [cstr, hpre, hbuf]⟩

/-! ## `fgets` -/

/-- What a call of `fgets` reads of a text, with an array for `n` characters and the NUL. -/
def fgets : Nat → List α → List α
  | 0, _ => []
  | _ + 1, [] => []
  | n + 1, c :: text => if c = CChar.newline then [c] else c :: fgets n text

/-- What its calls read, one after the other; `cur` is what the running call has read. -/
def fgetsAll (n : Nat) : List α → List α → List (List α)
  | cur, [] => if cur = [] then [] else [cur]
  | cur, c :: text =>
    if c = CChar.newline ∨ n ≤ cur.length + 1 then (cur ++ [c]) :: fgetsAll n [] text
    else fgetsAll n (cur ++ [c]) text

/-- The array after the call: what was read, its NUL, and what was there before. -/
def store (array piece : List α) : List α := piece ++ CChar.nul :: array.drop (piece.length + 1)

lemma fgets_eq_take (n : Nat) (text : List α) :
    fgets n text = (text.take n).take (text.idxOf CChar.newline + 1) := by
  induction text generalizing n with
  | nil => cases n <;> rfl
  | cons c text ih =>
    cases n with
    | zero => rfl
    | succ n =>
      rw [fgets, idxOf_cons, take_succ_cons]
      split
      case isTrue h => simp [h]
      case isFalse h =>
        have hne : (c == CChar.newline) = false := beq_eq_false_iff_ne.2 h
        rw [hne, cond_false, take_succ_cons, ih]

/-- A piece is what one call reads. -/
lemma fgetsAll_eq (n : Nat) {cur text : List α} (hcur : cur.length < n) (hne : text ≠ []) :
    fgetsAll n cur text = (cur ++ fgets (n - cur.length) text) ::
      fgetsAll n [] (text.drop (fgets (n - cur.length) text).length) := by
  induction text generalizing cur with
  | nil => exact absurd rfl hne
  | cons c text ih =>
    obtain ⟨m, hm⟩ : ∃ m, n - cur.length = m + 1 := ⟨n - cur.length - 1, by omega⟩
    rw [fgetsAll, hm, fgets]
    by_cases hc : c = CChar.newline
    · simp [hc]
    rw [if_neg hc]
    by_cases hn : n ≤ cur.length + 1
    · obtain rfl : m = 0 := by omega
      simp [hn, fgets]
    have hgo : ¬ (c = CChar.newline ∨ n ≤ cur.length + 1) := by simp [hc, hn]
    rw [if_neg hgo]
    cases text with
    | nil => cases m <;> simp [fgetsAll, fgets]
    | cons d text =>
      have hm' : n - (cur ++ [c]).length = m := by
        rw [length_append, length_singleton]
        omega
      rw [ih (by rw [length_append, length_singleton]; omega) (cons_ne_nil d text), hm']
      simp

lemma fgetsAll_line {n : Nat} {line : List α} (hnl : CChar.newline ∉ line) (text : List α) :
    ∀ cur, cur.length + line.length + 1 ≤ n →
    fgetsAll n cur (line ++ CChar.newline :: text) =
      (cur ++ line ++ [CChar.newline]) :: fgetsAll n [] text := by
  induction line with
  | nil =>
    intro cur _
    rw [nil_append, fgetsAll, if_pos (.inl rfl), append_nil]
  | cons c line ih =>
    intro cur hlen
    rw [mem_cons, not_or] at hnl
    rw [length_cons] at hlen
    have hgo : ¬ (c = CChar.newline ∨ n ≤ cur.length + 1) := by
      rintro (rfl | h)
      · exact hnl.1 rfl
      · omega
    rw [cons_append, fgetsAll, if_neg hgo, ih hnl.2 (cur ++ [c])]
    · simp
    · rw [length_append, length_singleton]
      omega

lemma cstr_store {piece : List α} (h : CChar.nul ∉ piece) (array : List α) :
    cstr (store array piece) = piece := (cstr_append_nul h _).1

end Text

end LtpDdt.CTypes
