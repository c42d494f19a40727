/-
Ujson.ScanTheorems — what the token functions do on a well-formed token.

`Reader.At` is the only view of the reader: the bytes to come, the depth, and no
error. Each function succeeds at a token followed by `t` and then stands at `t`.
-/
import LtpDdt.Ujson.Reader

namespace LtpDdt.Ujson

open Json List StrElem

variable {d : Nat} {t : List UInt8} {r : Reader} {w : Ws}

lemma ne_zero_of_all {s : List UInt8} (h : s.all (· != 0)) : ∀ b ∈ s, b ≠ 0 :=
  fun b hb => bne_iff_ne.1 (all_eq_true.1 h b hb)

/-! ## The position -/

/-- What does not change while a text is read. -/
structure Env where
  json : List UInt8
  strict : Bool

variable {e : Env}

/-- The reader stands before `t`, at depth `d`, without an error. -/
structure Reader.At (r : Reader) (e : Env) (d : Nat) (t : List UInt8) : Prop where
  json : r.json = e.json
  strict : r.strict = e.strict
  maxDepth : r.maxDepth = ujsonRecursionMax
  rest : r.json.drop r.off = t
  off : r.off + t.length = r.json.length
  depth : r.depth = d
  depth_le : d ≤ ujsonRecursionMax
  err : r.err = none

section Bytes

variable {r : Reader} {e : Env} {d : Nat} {b : UInt8} {t : List UInt8}

lemma Reader.At.noErr (h : r.At e d t) : r.err.isSome = false := by
  rw [h.err]
  rfl

lemma Reader.At.getD (h : r.At e d t) (i : Nat) : r.json.getD (r.off + i) 0 = t.getD i 0 := by
  rw [← h.rest, getD_eq_getElem?_getD, getD_eq_getElem?_getD, getElem?_drop]

lemma Reader.At.peekbOff (h : r.At e d t) (i : Nat) : r.peekbOff i = t.getD i 0 := h.getD i

lemma Reader.At.peekb (h : r.At e d (b :: t)) : r.peekb = b := by
  have := h.getD 0
  simpa [Reader.peekb] using this

lemma Reader.At.peekb_nil (h : r.At e d []) : r.peekb = 0 := by
  have := h.getD 0
  simpa [Reader.peekb] using this

lemma Reader.At.bufEmpty (h : r.At e d t) : r.bufEmpty = t.isEmpty := by
  have := h.off
  unfold Reader.bufEmpty
  cases t with
  | nil | cons => simp at this ⊢; omega

section

variable (h : r.At e d (b :: t))

include h

lemma Reader.At.next : Reader.At { r with off := r.off + 1 } e d t := by
  refine ⟨h.json, h.strict, h.maxDepth, ?_, ?_, h.depth, h.depth_le, h.err⟩
  · have := h.rest
    rw [← drop_drop, this]
    rfl
  have := h.off
  simp only [length_cons] at this
  show r.off + 1 + t.length = r.json.length
  omega

lemma Reader.At.getb : r.getb = (b, { r with off := r.off + 1 }) := by
  unfold Reader.getb
  rw [h.bufEmpty, h.peekb]
  rfl

/-- The byte that is next is eaten. -/
lemma Reader.At.eatb : ∃ r', r.eatb b = (true, r') ∧ r'.At e d t := by
  unfold Reader.eatb
  rw [h.peekb, h.getb]
  exact ⟨_, by simp, h.next⟩

lemma Reader.At.eatb_ne {ch} (hne : b ≠ ch) : r.eatb ch = (false, r) := by
  unfold Reader.eatb
  rw [h.peekb, if_pos hne]

lemma Reader.At.eatb2_left (ch : UInt8) : ∃ r', r.eatb2 b ch = (true, r') ∧ r'.At e d t := by
  unfold Reader.eatb2
  rw [h.peekb, h.getb]
  exact ⟨_, by simp, h.next⟩

lemma Reader.At.eatb2_right (ch : UInt8) : ∃ r', r.eatb2 ch b = (true, r') ∧ r'.At e d t := by
  unfold Reader.eatb2
  rw [h.peekb, h.getb]
  exact ⟨_, by simp, h.next⟩

end

/-- The word that is next is eaten. -/
lemma Reader.At.eatstr : ∀ s {r : Reader}, r.At e d (s ++ t) →
    ∃ r', r.eatstr s = (true, r') ∧ r'.At e d t
  | [], r, h => ⟨r, rfl, h⟩
  | c :: s, r, h => by
    obtain ⟨_, he, h₁⟩ := h.eatb
    obtain ⟨r', he', h'⟩ := Reader.At.eatstr s h₁
    exact ⟨r', by simp [Reader.eatstr, he, he'], h'⟩

end Bytes

/-! ## White space -/

def NoWs (t : List UInt8) : Prop := ∀ b, t.head? = some b → isWs b = false

lemma eatwsLoop_at (hn : NoWs t) : ∀ (w : List UInt8) n {r : Reader},
    (∀ b ∈ w, isWs b) → r.At e d (w ++ t) →
      w.length + t.length ≤ n → ∃ r', r.eatwsLoop n = r' ∧ r'.At e d t
  | [], n, r, _, h, hle => by
    refine ⟨r, ?_, h⟩
    cases n with
    | zero => rfl
    | succ =>
      cases t with
      | nil => simp [Reader.eatwsLoop, h.bufEmpty]
      | cons b =>
        have := hn b rfl
        simp [Reader.eatwsLoop, h.peekb, this]
  | b :: w, 0, r, _, _, hle => by simp at hle
  | b :: w, n + 1, r, hw, h, hle => by
    have hb := hw b (by simp)
    simp only [length_cons] at hle
    obtain ⟨r', he, h'⟩ := eatwsLoop_at hn w n (fun c hc => hw c (by simp [hc])) (h.next) (by omega)
    refine ⟨r', ?_, h'⟩
    simpa [Reader.eatwsLoop, h.bufEmpty, h.peekb, hb] using he

/-- White space is eaten. -/
lemma Reader.At.eatws {w} (h : r.At e d (w ++ t)) (hw : ∀ b ∈ w, isWs b) (hn : NoWs t) :
    ∃ r', r.eatws = (t.isEmpty, r') ∧ r'.At e d t := by
  have hoff := h.off
  rw [length_append] at hoff
  obtain ⟨r', he, h'⟩ := eatwsLoop_at hn w (r.json.length - r.off) hw h (by omega)
  refine ⟨r', ?_, h'⟩
  unfold Reader.eatws
  rw [he]
  simp [h'.bufEmpty]

lemma Reader.At.eatws_cons {b} (h : r.At e d (w.1 ++ b :: t)) (hb : isWs b = false) :
    ∃ r', r.eatws = (false, r') ∧ r'.At e d (b :: t) := by
  refine h.eatws w.2 ?_
  intro c hc
  cases hc
  exact hb

/-! ## Escapes -/

lemma or_and_eq {a k u} (i : Nat) (ha : a = 2 ^ i * k) :
    a ||| ((2 ^ i - 1) &&& u) = a + u % 2 ^ i := by
  rw [Nat.and_comm, Nat.and_two_pow_sub_one_eq_mod, ha]
  exact (Nat.two_pow_add_eq_or_of_lt (Nat.mod_lt _ (Nat.two_pow_pos i)) k).symm

/-- The bytes of a character. -/
lemma ujsonToUtf8_eq {cp} (h : cp < 0x10000) : ujsonToUtf8 cp = utf8 cp := by
  unfold ujsonToUtf8 utf8
  have h7 : cp &&& 0x7f = cp % 128 := Nat.and_two_pow_sub_one_eq_mod cp 7
  have hc : ∀ u, 0xc0 ||| (0x1f &&& u) = 0xc0 + u % 32 := fun u => or_and_eq (k := 6) 5 rfl
  have he : ∀ u, 0xe0 ||| (0x0f &&& u) = 0xe0 + u % 16 := fun u => or_and_eq (k := 14) 4 rfl
  have h8 : ∀ u, 0x80 ||| (0x3f &&& u) = 0x80 + u % 64 := fun u => or_and_eq (k := 2) 6 rfl
  simp only [h7, hc, he, h8, Nat.shiftRight_eq_div_pow]
  split
  · rw [Nat.mod_eq_of_lt (by omega)]
  split
  · rw [Nat.mod_eq_of_lt (show cp / 64 < 32 by omega)]
  · rw [Nat.mod_eq_of_lt (show cp / 4096 < 16 by omega)]

lemma utf8_length {cp} (h : cp < 0x10000) : (utf8 cp).length = ujsonUtf8Bytes cp := by
  unfold utf8 ujsonUtf8Bytes
  split
  · rfl
  split
  · rfl
  · rfl

lemma ujsonUtf8Bytes_pos (cp : Nat) : 0 < ujsonUtf8Bytes cp := by
  unfold ujsonUtf8Bytes
  split
  · omega
  split
  · omega
  · split <;> omega

/-- Four hex digits are read. -/
lemma parseUcodeCp_at (h₁ h₂ h₃ h₄ : Hex) (h : r.At e d (h₁.1 :: h₂.1 :: h₃.1 :: h₄.1 :: t)) :
    ∃ r', parseUcodeCp r = (some (codePoint h₁ h₂ h₃ h₄), r') ∧ r'.At e d t := by
  have a₁ := h.next
  have a₂ := Reader.At.next a₁
  have a₃ := Reader.At.next a₂
  refine ⟨_, ?_, Reader.At.next a₃⟩
  simp only [parseUcodeCp, parseUcodeCpLoop, h.getb, Reader.At.getb a₁,
    Reader.At.getb a₂, Reader.At.getb a₃, Hex.val_eq, codePoint]
  simp

lemma unescape_letter (c : Escape) : unescape c.letter = some c.byte := by cases c <;> rfl

lemma letter_facts (c : Escape) : ¬ c.letter < 0x20 ∧ c.letter ≠ 0x75 := by cases c <;> decide

lemma isPlain_iff (b : UInt8) : isPlain b ↔ ¬ b < 0x20 ∧ b ≠ 0x22 ∧ b ≠ 0x5c := by
  simp [isPlain, and_assoc]

/-! ## Strings -/

/-- The byte that a `\u` escape asks for beyond what it needs. -/
def margin : StrElem → Nat
  | .ucode .. => 1
  | _ => 0

lemma decode_pos (x : StrElem) : 0 < x.decode.length := by
  cases x with
  | plain | esc => simp [decode]
  | ucode h₁ h₂ h₃ h₄ =>
    rw [decode, utf8_length (codePoint_lt h₁ h₂ h₃ h₄)]
    exact ujsonUtf8Bytes_pos _

lemma putByte_some (len pos : Nat) (b : UInt8) :
    putByte (some len) pos b = if pos + 1 < len then some (pos + 1, [b]) else none := by
  simp only [putByte, ge_iff_le, ← Nat.not_lt, ite_not]

lemma parseUcodeEsc_at (len pos : Nat)
    (h₁ h₂ h₃ h₄ : Hex) (h : r.At e d (h₁.1 :: h₂.1 :: h₃.1 :: h₄.1 :: t)) :
    ∃ r', r'.At e d t ∧ parseUcodeEsc r (some len) pos =
        if pos + (utf8 (codePoint h₁ h₂ h₃ h₄)).length + 1 < len then
          ((utf8 (codePoint h₁ h₂ h₃ h₄)).length, utf8 (codePoint h₁ h₂ h₃ h₄), r')
        else (0, [], r'.fail .bufferTooShort) := by
  obtain ⟨r', he, h'⟩ := parseUcodeCp_at h₁ h₂ h₃ h₄ h
  have hcp := codePoint_lt h₁ h₂ h₃ h₄
  refine ⟨r', h', ?_⟩
  simp only [parseUcodeEsc, he, ujsonToUtf8_eq hcp, utf8_length hcp]
  by_cases hlen : pos + ujsonUtf8Bytes (codePoint h₁ h₂ h₃ h₄) + 1 < len
  · rw [if_pos hlen, if_neg (by omega)]
  · rw [if_neg hlen, if_pos (by omega)]

/-- **One element is copied, or refused.** -/
lemma copyStrLoop_elem (len : Nat)
    (x : StrElem) (pos : Nat) (out : List UInt8) (h : r.At e d (x.text ++ t)) :
    ∃ r' k, r'.At e d t ∧ k ≤ x.text.length ∧ ∀ n, copyStrLoop (n + k) r (some len) pos false out =
        if pos + x.decode.length + margin x < len then
          copyStrLoop n r' (some len) (pos + x.decode.length) false (out ++ x.decode)
        else (none, r'.fail .bufferTooShort) := by
  cases x with
  | plain b hb =>
    obtain ⟨hlo, hq, hbs⟩ := (isPlain_iff b).mp hb
    refine ⟨_, 1, h.next, by simp [text], fun n => ?_⟩
    simp only [text] at h
    simp only [copyStrLoop, h.bufEmpty, h.peekb, h.getb, hlo, putByte_some]
    simp only [beq_eq_false_iff_ne.mpr hq, beq_eq_false_iff_ne.mpr hbs]
    by_cases hlen : pos + 1 < len <;> simp [margin, decode, hlen]
  | esc c =>
    obtain ⟨hlo, hu⟩ := letter_facts c
    simp only [text] at h
    have h₁ := h.next
    refine ⟨_, 2, h₁.next, by simp [text], fun n => ?_⟩
    simp only [copyStrLoop, h.bufEmpty, h.peekb, h.getb, h₁.bufEmpty, h₁.getb, hlo, putByte_some]
    by_cases hlen : pos + 1 < len <;>
      simp [margin, decode, hlen, hu, unescape_letter]
  | ucode a₁ a₂ a₃ a₄ =>
    simp only [text] at h
    have h₁ := h.next
    obtain ⟨r', h', he⟩ := parseUcodeEsc_at len pos a₁ a₂ a₃ a₄ h₁.next
    refine ⟨r', 2, h', by simp [text], fun n => ?_⟩
    have hpos := decode_pos (.ucode a₁ a₂ a₃ a₄)
    simp only [decode] at hpos
    obtain ⟨l, hl⟩ := Nat.exists_eq_succ_of_ne_zero (Nat.ne_of_gt hpos)
    simp only [copyStrLoop, h.bufEmpty, h.peekb, h.getb, h₁.bufEmpty, h₁.getb, he]
    by_cases hlen : pos + (l + 1) + 1 < len <;>
      simp [margin, decode, hlen, hl]

/-- The string ends in a `\u` escape. -/
def endsInUcode (s : List StrElem) : Bool :=
  match s.getLast? with
  | some (.ucode ..) => true
  | _ => false

/-- It fits `n` bytes with its terminating zero and, if it ends in a `\u` escape, one byte is
left. -/
def Fits (s : List StrElem) (n : Nat) : Prop :=
  (strDecode s).length + (endsInUcode s).toNat < n

variable {s : List StrElem} {x : StrElem} {bs : List UInt8}

lemma Fits.tail {n} (hx : x.decode.length + margin x < n) :
    Fits (x :: s) n ↔ Fits s (n - x.decode.length) := by
  simp only [Fits, strDecode, flatMap_cons, length_append]
  cases s with
  | nil =>
    cases x <;> (simp only [endsInUcode, margin, getLast?_singleton, getLast?_nil, flatMap_nil,
        length_nil, Bool.toNat_true, Bool.toNat_false] at hx ⊢; omega)
  | cons =>
    simp only [endsInUcode, getLast?_cons_cons]
    omega

lemma Fits.not_of_refused {n} (hx : ¬ x.decode.length + margin x < n) : ¬ Fits (x :: s) n := by
  simp only [Fits, strDecode]
  cases s with
  | nil => cases x <;> simp [endsInUcode, margin] at hx ⊢ <;> omega
  | cons y =>
    have hy := decode_pos y
    have hm : margin x ≤ 1 := by cases x <;> simp [margin]
    simp only [flatMap_cons, length_append]
    omega

/-- The loop of `copy_str`. The induction is over the elements; a refused element leaves the error
set. -/
lemma copyStrLoop_str (len : Nat) : ∀ s n pos out {r : Reader},
      r.At e d (strText s ++ 0x22 :: t) → (strText s).length < n → pos < len → (Fits s (len - pos) →
        ∃ r', copyStrLoop n r (some len) pos false out = (some (out ++ strDecode s), r') ∧
          r'.At e d t) ∧
      (¬ Fits s (len - pos) →
        ∃ r', copyStrLoop n r (some len) pos false out = (none, r') ∧ r'.err ≠ none)
  | [], 0, _, _, _, _, hn, _ => by simp at hn
  | [], n + 1, pos, out, r, h, _, hlen => by
    have hfit : Fits [] (len - pos) := by
      simp only [Fits, strDecode, flatMap_nil, length_nil, endsInUcode,
        getLast?_nil, Bool.toNat_false]
      omega
    refine ⟨fun _ => ⟨_, ?_, h.next⟩, fun hn => absurd hfit hn⟩
    simp [copyStrLoop, h.bufEmpty, h.peekb, h.getb, strDecode]
  | x :: s, n, pos, out, r, h, hn, _ => by
    have htext : strText (x :: s) = x.text ++ strText s := rfl
    have hdec : strDecode (x :: s) = x.decode ++ strDecode s := rfl
    rw [htext, append_assoc] at h
    rw [htext, length_append] at hn
    obtain ⟨_, k, h₁, hk, hstep⟩ := copyStrLoop_elem len x pos out h
    obtain ⟨m, rfl⟩ : ∃ m, n = m + k := ⟨n - k, by omega⟩
    rw [hstep m]
    split_ifs with hfit
    · rw [Fits.tail (by omega), Nat.sub_sub, hdec, ← append_assoc]
      exact copyStrLoop_str len s m (pos + x.decode.length) (out ++ x.decode) h₁
        (by omega) (by omega)
    · have hno : ¬ Fits (x :: s) (len - pos) := Fits.not_of_refused (by omega)
      exact ⟨fun hf => absurd hf hno, fun _ => ⟨_, rfl, by simp [Reader.fail]⟩⟩

/-- A `\u` escape for the code point 0. -/
def isZero : StrElem → Bool
  | .ucode h₁ h₂ h₃ h₄ => codePoint h₁ h₂ h₃ h₄ == 0
  | _ => false

lemma copyStrLoop_skip_elem (x : StrElem) (pos : Nat) (out : List UInt8) (hz : isZero x = false)
    (h : r.At e d (x.text ++ t)) :
    ∃ r' k p, r'.At e d t ∧ k ≤ x.text.length ∧ ∀ n,
      copyStrLoop (n + k) r none pos false out = copyStrLoop n r' none p false out := by
  cases x with
  | plain b hb =>
    obtain ⟨hlo, hq, hbs⟩ := (isPlain_iff b).mp hb
    refine ⟨_, 1, pos, h.next, by simp [text], fun n => ?_⟩
    simp only [text] at h
    simp [copyStrLoop, h.bufEmpty, h.peekb, h.getb, hlo, hq, hbs, putByte]
  | esc c =>
    obtain ⟨hlo, hu⟩ := letter_facts c
    simp only [text] at h
    have h₁ := h.next
    refine ⟨_, 2, pos, h₁.next, by simp [text], fun n => ?_⟩
    simp [copyStrLoop, h.bufEmpty, h.peekb, h.getb, h₁.bufEmpty, h₁.getb, hlo, hu, putByte,
      unescape_letter]
  | ucode a₁ a₂ a₃ a₄ =>
    simp only [text] at h
    have h₁ := h.next
    obtain ⟨r', he, h'⟩ := parseUcodeCp_at a₁ a₂ a₃ a₄ h₁.next
    have hcp : codePoint a₁ a₂ a₃ a₄ ≠ 0 := by simpa [isZero] using hz
    obtain ⟨l, hl⟩ := Nat.exists_eq_succ_of_ne_zero hcp
    refine ⟨r', 2, pos + (l + 1), h', by simp [text], fun n => ?_⟩
    simp [copyStrLoop, h.bufEmpty, h.peekb, h.getb, h₁.bufEmpty, h₁.getb, parseUcodeEsc, he, hl]

/-- Without a buffer the loop looks for the end of the string. It takes the code point of a `\u`
escape for a length: zero stops it. -/
lemma copyStrLoop_skip : ∀ s n pos out {r : Reader},
      (∀ x ∈ s, isZero x = false) → r.At e d (strText s ++ 0x22 :: t) → (strText s).length < n →
      ∃ r', copyStrLoop n r none pos false out = (some out, r') ∧ r'.At e d t
  | [], 0, _, _, _, _, _, hn => by simp at hn
  | [], n + 1, pos, out, r, _, h, _ => by
    refine ⟨_, ?_, h.next⟩
    simp [copyStrLoop, h.bufEmpty, h.peekb, h.getb]
  | x :: s, n, pos, out, r, hz, h, hn => by
    have htext : strText (x :: s) = x.text ++ strText s := rfl
    rw [htext, append_assoc] at h
    rw [htext, length_append] at hn
    obtain ⟨_, k, p, h₁, _, hstep⟩ := copyStrLoop_skip_elem x pos out (hz x (by simp)) h
    obtain ⟨m, rfl⟩ : ∃ m, n = m + k := ⟨n - k, by omega⟩
    rw [hstep m]
    exact copyStrLoop_skip s m p out (forall_mem_cons.1 hz).2 h₁ (by omega)

lemma Reader.At.fuel (h : r.At e d t) : r.json.length - r.off = t.length := by
  have := h.off
  omega

/-- What `copy_str` makes of a string. -/
def StrReads (s : List StrElem) : Option Nat → Prop
  | some len => Fits s len
  | none => ∀ x ∈ s, isZero x = false

def strStored (s : List StrElem) : Option Nat → List UInt8
  | some _ => strDecode s
  | none => []

section Str

variable {r : Reader} {e : Env} {d : Nat} {t : List UInt8} {s : List StrElem}

/-- **A string that fits is copied.** -/
lemma copyStr_reads {buf : Option Nat} (hs : StrReads s buf)
    (h : r.At e d (0x22 :: (strText s ++ 0x22 :: t))) :
    ∃ r', copyStr r buf = (some (strStored s buf), r') ∧ r'.At e d t := by
  obtain ⟨r₁, he, h₁⟩ := h.eatb
  have hn : (strText s).length < r₁.json.length - r₁.off + 1 := by
    rw [h₁.fuel, length_append]
    omega
  simp only [copyStr, he]
  cases buf with
  | some len =>
    have hlen : 0 < len := by simp only [StrReads, Fits] at hs; omega
    exact (copyStrLoop_str len s _ 0 [] h₁ hn hlen).1 hs
  | none => exact copyStrLoop_skip s _ 0 [] hs h₁ hn

/-- A string that does not fit is refused. -/
lemma copyStr_short {len} (hlen : 0 < len) (hs : ¬ StrReads s (some len))
    (h : r.At e d (0x22 :: (strText s ++ 0x22 :: t))) :
    ∃ r', copyStr r (some len) = (none, r') ∧ r'.err ≠ none := by
  obtain ⟨r₁, he, h₁⟩ := h.eatb
  have hn : (strText s).length < r₁.json.length - r₁.off + 1 := by
    rw [h₁.fuel, length_append]
    omega
  simp only [copyStr, he]
  exact (copyStrLoop_str len s _ 0 [] h₁ hn hlen).2 hs

end Str

/-! ## Names -/

lemma copyIdStrLoop_at : ∀ (bs : List UInt8) n (out : List UInt8) {r : Reader},
    (∀ b ∈ bs, b ≠ 0x22) →
      r.At e d (bs ++ 0x22 :: t) → bs.length < n → out.length + bs.length < ujsonIdMax →
      ∃ r', copyIdStrLoop n r out = (some (out ++ bs), r') ∧ r'.At e d t
  | _, 0, _, _, _, _, hn, _ => by simp at hn
  | [], n + 1, out, r, _, h, _, _ => by
    refine ⟨_, ?_, h.next⟩
    simp [copyIdStrLoop, h.bufEmpty, h.peekb, h.getb]
  | b :: bs, n + 1, out, r, hq, h, hn, hmax => by
    have hb := hq b (by simp)
    simp only [length_cons] at hn hmax
    obtain ⟨r', he, h'⟩ := copyIdStrLoop_at bs n (out ++ [b])
      (fun c hc => hq c (by simp [hc])) (h.next) (by omega)
      (by rw [length_append, length_singleton]; omega)
    refine ⟨r', ?_, h'⟩
    have hmax' : ¬ out.length ≥ ujsonIdMax - 1 := by omega
    rw [copyIdStrLoop]
    simp [h.bufEmpty, h.peekb, h.getb, hb, hmax', he]

lemma copyIdStrLoop_long : ∀ (bs : List UInt8) n (out : List UInt8) {r : Reader},
    (∀ b ∈ bs, b ≠ 0x22) → r.At e d (bs ++ t) → bs.length ≤ n → out.length < ujsonIdMax →
      ujsonIdMax ≤ out.length + bs.length → ∃ r', copyIdStrLoop n r out = (none, r') ∧ r'.err ≠ none
  | [], _, out, _, _, _, _, hlt, hle => by
    simp only [length_nil] at hle
    omega
  | _ :: _, 0, _, _, _, _, hn, _, _ => by simp at hn
  | b :: bs, n + 1, out, r, hq, h, hn, hlt, hle => by
    have hb := hq b (by simp)
    simp only [length_cons] at hn hle
    by_cases hmax : out.length ≥ ujsonIdMax - 1
    · refine ⟨r.fail .idTooLong, ?_, by simp [Reader.fail]⟩
      rw [copyIdStrLoop]
      simp [h.bufEmpty, h.peekb, hb, hmax]
    obtain ⟨r', he, h'⟩ := copyIdStrLoop_long bs n (out ++ [b])
      (fun c hc => hq c (by simp [hc])) (h.next) (by omega)
      (by rw [length_append, length_singleton]; omega)
      (by rw [length_append, length_singleton]; omega)
    refine ⟨r', ?_, h'⟩
    rw [copyIdStrLoop]
    simp [h.bufEmpty, h.peekb, h.getb, hb, hmax, he]

/-- A short key is copied. -/
lemma copyIdStr_at {w₁ : Ws} (hq : ∀ b ∈ bs, b ≠ 0x22) (hmax : bs.length < ujsonIdMax)
    (h : r.At e d (w.1 ++ 0x22 :: (bs ++ 0x22 :: (w₁.1 ++ 0x3a :: t)))) :
    ∃ r', copyIdStr r = (some bs, r') ∧ r'.At e d t := by
  obtain ⟨_, he₁, h₁⟩ := h.eatws_cons rfl
  obtain ⟨r₂, he₂, h₂⟩ := h₁.eatb
  obtain ⟨_, he₃, h₃⟩ := copyIdStrLoop_at bs (r₂.json.length - r₂.off + 1) [] hq h₂
    (by rw [h₂.fuel, length_append]; omega) (by simpa using hmax)
  obtain ⟨_, he₄, h₄⟩ := h₃.eatws_cons rfl
  obtain ⟨r₅, he₅, h₅⟩ := h₄.eatb
  exact ⟨r₅, by simp [copyIdStr, he₁, he₂, he₃, he₄, he₅], h₅⟩

/-- A long key is refused. -/
lemma copyIdStr_long (hq : ∀ b ∈ bs, b ≠ 0x22) (hmax : ujsonIdMax ≤ bs.length)
    (h : r.At e d (w.1 ++ 0x22 :: (bs ++ t))) : ∃ r', copyIdStr r = (none, r') ∧ r'.err ≠ none := by
  obtain ⟨_, he₁, h₁⟩ := h.eatws_cons rfl
  obtain ⟨r₂, he₂, h₂⟩ := h₁.eatb
  obtain ⟨r₃, he₃, h₃⟩ := copyIdStrLoop_long bs (r₂.json.length - r₂.off + 1) [] hq h₂
    (by rw [h₂.fuel, length_append]; omega) (by decide) (by simpa using hmax)
  exact ⟨r₃, by simp [copyIdStr, he₁, he₂, he₃], h₃⟩

end LtpDdt.Ujson
