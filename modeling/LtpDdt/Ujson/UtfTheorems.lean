/-
Ujson.UtfTheorems — the UTF-8 helpers agree on code points below 0x10000 only.

`Chunk` is a character as the helpers see it. `ujson_to_utf8` writes chunks, and
the size functions step over them. `ujson_utf8_next` checks the third byte of a
chunk of four once more, without its mark, and so returns 0.

`out_esc_str` returns for rows of chunks only. On a chunk the loop steps over it, else
one byte back; so the cursor never gets past the first byte that starts no chunk
(`chunks_stay`).
-/
import LtpDdt.Ujson.ScanTheorems
import LtpDdt.Ujson.Writer

namespace LtpDdt.Ujson

open Json List UInt8 Bool

variable {b : UInt8} {cp : Nat} {cps : List Nat}

/-! ## Bytes -/

/-- A property of bytes is checked at each of the 256. -/
lemma byte_cases {p : UInt8 → Prop} (h : ∀ n : Fin 256, p (UInt8.ofNat n)) (b : UInt8) : p b := by
  have hb := h ⟨b.toNat, b.toNat_lt⟩
  rwa [UInt8.ofNat_toNat] at hb

lemma isAscii_byte_iff : ∀ b : UInt8, ujsonUtf8IsAscii b ↔ b.toNat < 0x80 :=
  byte_cases (by decide +kernel)

lemma isNByte_iff : ∀ b : UInt8, ujsonUtf8IsNByte b ↔ 0x80 ≤ b.toNat ∧ b.toNat < 0xc0 :=
  byte_cases (by decide +kernel)

lemma is2Byte_iff : ∀ b : UInt8, ujsonUtf8Is2Byte b ↔ 0xc0 ≤ b.toNat ∧ b.toNat < 0xe0 :=
  byte_cases (by decide +kernel)

lemma is3Byte_iff : ∀ b : UInt8, ujsonUtf8Is3Byte b ↔ 0xe0 ≤ b.toNat ∧ b.toNat < 0xf0 :=
  byte_cases (by decide +kernel)

lemma is4Byte_iff : ∀ b : UInt8, ujsonUtf8Is4Byte b ↔ 0xf0 ≤ b.toNat ∧ b.toNat < 0xf8 :=
  byte_cases (by decide +kernel)

lemma isNByte_masked : ∀ b : UInt8, ujsonUtf8IsNByte (b &&& ujsonUtf8NByteMask) = false :=
  byte_cases (by decide +kernel)

/-! ## Chunks -/

inductive Chunk : List UInt8 → Prop
  | one {b : UInt8} (h0 : b ≠ 0) (hb : ujsonUtf8IsAscii b = true) : Chunk [b]
  | two {b c : UInt8} (hb : ujsonUtf8Is2Byte b = true) (hc : ujsonUtf8IsNByte c = true) :
      Chunk [b, c]
  | three {b c c' : UInt8} (hb : ujsonUtf8Is3Byte b = true) (hc : ujsonUtf8IsNByte c = true)
      (hc' : ujsonUtf8IsNByte c' = true) : Chunk [b, c, c']
  | four {b c c' c'' : UInt8} (hb : ujsonUtf8Is4Byte b = true) (hc : ujsonUtf8IsNByte c = true)
      (hc' : ujsonUtf8IsNByte c' = true) (hc'' : ujsonUtf8IsNByte c'' = true) :
      Chunk [b, c, c', c'']

lemma high_byte (hb : 0x80 ≤ b.toNat) : b ≠ 0 ∧ ujsonUtf8IsAscii b = false := by
  refine ⟨?_, ?_⟩
  · rintro rfl
    exact absurd hb (by decide)
  · rw [eq_false_iff, Ne, isAscii_byte_iff]
    omega

lemma Leads.three (hb : ujsonUtf8Is3Byte b) : 0x80 ≤ b.toNat ∧ ujsonUtf8Is2Byte b = false := by
  rw [is3Byte_iff] at hb
  rw [eq_false_iff, Ne, is2Byte_iff]
  omega

lemma Leads.four (hb : ujsonUtf8Is4Byte b) :
    0x80 ≤ b.toNat ∧ ujsonUtf8Is2Byte b = false ∧ ujsonUtf8Is3Byte b = false := by
  rw [is4Byte_iff] at hb
  rw [eq_false_iff, eq_false_iff, Ne, Ne, is2Byte_iff, is3Byte_iff]
  omega

lemma nByte_high (hb : ujsonUtf8IsNByte b) :
    ujsonUtf8IsAscii b = false ∧ ujsonUtf8Is2Byte b = false ∧ ujsonUtf8Is3Byte b = false := by
  rw [isNByte_iff] at hb
  rw [eq_false_iff, eq_false_iff, eq_false_iff, Ne, Ne, Ne, isAscii_byte_iff,
    is2Byte_iff, is3Byte_iff]
  omega

/-- At the start of a character its length is returned. -/
lemma nextChsz_chunk (a : List UInt8) {c : List UInt8} (hc : Chunk c) (rest : List UInt8) :
    ujsonUtf8NextChsz (a ++ (c ++ rest)) a.length = some (c.length : Int) := by
  cases hc with
  | one h0 hb => simp [ujsonUtf8NextChsz, h0, hb]
  | two hb hc =>
    obtain ⟨h0, hascii⟩ := high_byte (Nat.le_trans (by decide) ((is2Byte_iff _).1 hb).1)
    simp [ujsonUtf8NextChsz, nextChszRet, h0, hascii, hb, hc]
  | three hb hc hc' =>
    obtain ⟨hhigh, h2⟩ := Leads.three hb
    obtain ⟨h0, hascii⟩ := high_byte hhigh
    simp [ujsonUtf8NextChsz, nextChszRet, h0, hascii, h2, hb, hc, hc']
  | four hb hc hc' hc'' =>
    obtain ⟨hhigh, h2, h3⟩ := Leads.four hb
    obtain ⟨h0, hascii⟩ := high_byte hhigh
    simp [ujsonUtf8NextChsz, nextChszRet, h0, hascii, h2, h3, hb, hc, hc', hc'']

/-- At the end of a character its length is returned. -/
lemma prevChsz_chunk (a : List UInt8) {c : List UInt8} (hc : Chunk c) (rest : List UInt8) :
    ujsonUtf8PrevChsz (a ++ (c ++ rest)) (a.length + c.length) = some (c.length : Int) := by
  cases hc with
  | one h0 hb => simp [ujsonUtf8PrevChsz, hb]
  | two hb hc =>
    obtain ⟨hascii, -, -⟩ := nByte_high hc
    simp [ujsonUtf8PrevChsz, hascii, hb, hc]
  | three hb hc hc' =>
    obtain ⟨hascii', -, -⟩ := nByte_high hc'
    obtain ⟨-, h2, -⟩ := nByte_high hc
    simp [ujsonUtf8PrevChsz, hascii', h2, hb, hc, hc']
  | four hb hc hc' hc'' =>
    obtain ⟨hascii, -, -⟩ := nByte_high hc''
    obtain ⟨-, h2', -⟩ := nByte_high hc'
    obtain ⟨-, -, h3⟩ := nByte_high hc
    simp [ujsonUtf8PrevChsz, hascii, h2', h3, hb, hc, hc', hc'']

/-! ## What `ujson_to_utf8` writes -/

lemma toNat_ofNat_lt {n : Nat} (h : n < 256) : (UInt8.ofNat n).toNat = n := by
  rw [UInt8.toNat_ofNat', Nat.mod_eq_of_lt h]

/-- Six bits with the mark `10` are a following byte. -/
lemma nByte_ofNat (u : Nat) : ujsonUtf8IsNByte (ofNat (0x80 + u % 64)) := by
  rw [isNByte_iff, toNat_ofNat_lt (by omega)]
  omega

lemma toUtf8_four (hlo : 0x10000 ≤ cp) (hhi : cp ≤ 0x10ffff) :
    ujsonToUtf8 cp = [UInt8.ofNat (0xf0 + cp / 262144), UInt8.ofNat (0x80 + cp / 4096 % 64),
      UInt8.ofNat (0x80 + cp / 64 % 64), UInt8.ofNat (0x80 + cp % 64)] := by
  have hf : ∀ u, 0xf0 ||| (0x07 &&& u) = 0xf0 + u % 8 := fun u => or_and_eq (k := 30) 3 rfl
  have h8 : ∀ u, 0x80 ||| (0x3f &&& u) = 0x80 + u % 64 := fun u => or_and_eq (k := 2) 6 rfl
  unfold ujsonToUtf8
  rw [if_neg (by omega), if_neg (by omega), if_neg (by omega), hf, h8, h8, h8]
  simp only [Nat.shiftRight_eq_div_pow]
  rw [show cp / 2 ^ 18 % 8 = cp / 262144 by omega]

/-- What is written is one character of the right length. -/
lemma toUtf8_chunk (h : 1 ≤ cp ∧ cp ≤ 0x10ffff) :
    Chunk (ujsonToUtf8 cp) ∧ (ujsonToUtf8 cp).length = ujsonUtf8Bytes cp := by
  by_cases h4 : 0x10000 ≤ cp
  · have hb : ujsonUtf8Is4Byte (UInt8.ofNat (0xf0 + cp / 262144)) := by
      rw [is4Byte_iff, toNat_ofNat_lt (by omega)]
      omega
    rw [toUtf8_four h4 h.2, ujsonUtf8Bytes, if_neg (by omega), if_neg (by omega), if_neg (by omega)]
    exact ⟨.four hb (nByte_ofNat _) (nByte_ofNat _) (nByte_ofNat _), rfl⟩
  have hlt : cp < 0x10000 := Nat.lt_of_not_le h4
  rw [ujsonToUtf8_eq hlt]
  refine ⟨?_, utf8_length hlt⟩
  unfold utf8
  split_ifs with h1 h2
  · have hb : (UInt8.ofNat cp).toNat = cp := toNat_ofNat_lt (by omega)
    refine .one ?_ ?_
    · intro h0
      rw [h0] at hb
      have : cp = 0 := hb.symm
      omega
    · rw [isAscii_byte_iff, hb]
      exact h1
  · refine .two ?_ (nByte_ofNat _)
    rw [is2Byte_iff, toNat_ofNat_lt (by omega)]
    omega
  · refine .three ?_ (nByte_ofNat _) (nByte_ofNat _)
    rw [is3Byte_iff, toNat_ofNat_lt (by omega)]
    omega

/-! ## Decoding -/

/-- A mask of `i` ones is a remainder. -/
lemma mask_toNat {n : Nat} (hn : n < 256) (i : Nat) {m : UInt8} (hm : m.toNat = 2 ^ i - 1) :
    (UInt8.ofNat n &&& m).toNat = n % 2 ^ i := by
  rw [UInt8.toNat_and, toNat_ofNat_lt hn, hm, Nat.and_two_pow_sub_one_eq_mod]

lemma nByte_toNat (u : Nat) :
    (UInt8.ofNat (0x80 + u % 64) &&& ujsonUtf8NByteMask).toNat = u % 64 := by
  rw [mask_toNat (by omega) 6 rfl]
  omega

/-- Shift and or are a multiplication and a sum. -/
lemma shift_or {x y} (i : Nat) (hy : y < 2 ^ i) : x <<< i ||| y = x * 2 ^ i + y := by
  rw [← Nat.shiftLeft_add_eq_or_of_lt hy, Nat.shiftLeft_eq]

/-- Below `0x10000` a character is read back. -/
lemma next_small (hlt : cp < 0x10000) (rest : List UInt8) :
    ujsonUtf8Next (ujsonToUtf8 cp ++ rest) = some (cp, rest) := by
  rw [ujsonToUtf8_eq hlt, utf8]
  split_ifs with h1 h2
  · have hb : (UInt8.ofNat cp).toNat = cp := toNat_ofNat_lt (by omega)
    have hascii : ujsonUtf8IsAscii (UInt8.ofNat cp) := by
      rw [isAscii_byte_iff, hb]
      exact h1
    simp [ujsonUtf8Next, hascii, hb]
  · have hb : (UInt8.ofNat (0xc0 + cp / 64)).toNat = 0xc0 + cp / 64 := toNat_ofNat_lt (by omega)
    have h2' : ujsonUtf8Is2Byte (UInt8.ofNat (0xc0 + cp / 64)) := by
      rw [is2Byte_iff]
      omega
    obtain ⟨-, hascii⟩ := high_byte (b := UInt8.ofNat (0xc0 + cp / 64)) (by omega)
    simp only [ujsonUtf8Next, cons_append, hascii, nByte_ofNat, h2',
      nByte_toNat, mask_toNat (show 0xc0 + cp / 64 < 256 by omega) 5 (m := 0x1f) rfl,
      Bool.not_true, Bool.false_eq_true, if_false, if_true]
    rw [shift_or 6 (by omega)]
    congr 2
    omega
  · have hb : (UInt8.ofNat (0xe0 + cp / 4096)).toNat = 0xe0 + cp / 4096 := toNat_ofNat_lt (by omega)
    have h3 : ujsonUtf8Is3Byte (UInt8.ofNat (0xe0 + cp / 4096)) := by
      rw [is3Byte_iff]
      omega
    obtain ⟨hhigh, h2'⟩ := Leads.three h3
    obtain ⟨-, hascii⟩ := high_byte hhigh
    simp only [ujsonUtf8Next, cons_append, hascii, nByte_ofNat, h2', h3,
      nByte_toNat, mask_toNat (show 0xe0 + cp / 4096 < 256 by omega) 4 (m := 0x0f) rfl,
      Bool.not_true, Bool.false_eq_true, if_false, if_true]
    have hmid : cp / 64 % 64 * 2 ^ 6 < 2 ^ 12 := by omega
    rw [Nat.shiftLeft_eq (cp / 64 % 64), shift_or 12 hmid,
      show (0xe0 + cp / 4096) % 2 ^ 4 * 2 ^ 12 + cp / 64 % 64 * 2 ^ 6 = (cp / 64) <<< 6 by
        omega,
      shift_or 6 (by omega)]
    congr 2
    omega

/-- Four bytes are read as a 0, and all of them are left out. -/
lemma next_four (hlo : 0x10000 ≤ cp) (hhi : cp ≤ 0x10ffff) (b : UInt8) (rest : List UInt8) :
    ujsonUtf8Next (ujsonToUtf8 cp ++ b :: rest) = some (0, b :: rest) := by
  have hb : ujsonUtf8Is4Byte (UInt8.ofNat (0xf0 + cp / 262144)) := by
    rw [is4Byte_iff, toNat_ofNat_lt (by omega)]
    omega
  obtain ⟨hhigh, h2, h3⟩ := Leads.four hb
  obtain ⟨-, hascii⟩ := high_byte hhigh
  rw [toUtf8_four hlo hhi]
  simp only [ujsonUtf8Next, cons_append, nil_append, hascii, h2, h3, nByte_ofNat,
    isNByte_masked, drop_succ_cons, drop_zero, Bool.not_true, Bool.not_false,
    Bool.false_eq_true, if_false, if_true]

/-- **Which characters are read back.** -/
lemma readsBack_iff (h : 1 ≤ cp ∧ cp ≤ 0x10ffff) : ReadsBack cp ↔ cp < 0x10000 := by
  refine ⟨fun hback => ?_, fun hlt => ⟨(toUtf8_chunk h).2, next_small hlt⟩⟩
  by_contra hge
  have hread := hback.2 [0]
  rw [next_four (Nat.le_of_not_lt hge) h.2] at hread
  have : 0 = cp := congrArg Prod.fst (Option.some.inj hread)
  omega

/-! ## Strings -/

lemma encodeStr_cons (cp : Nat) (cps : List Nat) :
    encodeStr (cp :: cps) = ujsonToUtf8 cp ++ encodeStr cps := by simp [encodeStr, encode]

lemma encodeStr_split (a : List Nat) (cp : Nat) (b : List Nat) :
    encodeStr (a ++ cp :: b) = encode a ++ (ujsonToUtf8 cp ++ encodeStr b) := by
  simp [encodeStr, encode]

/-- The loop counts the characters. -/
lemma strlenLoop_encode (h : ∀ cp ∈ cps, 1 ≤ cp ∧ cp < 0x10000) (n cnt : Nat)
    (hn : cps.length < n) : strlenLoop n (encodeStr cps) cnt = some (cnt + cps.length) := by
  induction cps generalizing n cnt with
  | nil =>
    rcases n with _ | n
    · omega
    rfl
  | cons cp cps ih =>
    obtain ⟨hcp, hcps⟩ := forall_mem_cons.1 h
    rw [length_cons] at hn
    rcases n with _ | n
    · omega
    have hne : cp ≠ 0 := by omega
    rw [encodeStr_cons, strlenLoop, next_small hcp.2]
    simp only [Option.bind_eq_bind, Option.bind_some, if_neg hne]
    rw [ih hcps n (cnt + 1) (by omega), length_cons]
    congr 1
    omega

lemma length_le_encodeStr (h : ∀ cp ∈ cps, 1 ≤ cp ∧ cp ≤ 0x10ffff) :
    cps.length ≤ (encodeStr cps).length := by
  induction cps with
  | nil => exact Nat.zero_le _
  | cons cp cps ih =>
    obtain ⟨hcp, hcps⟩ := forall_mem_cons.1 h
    have hpos := ujsonUtf8Bytes_pos cp
    have := ih hcps
    rw [encodeStr_cons, length_append, (toUtf8_chunk hcp).2, length_cons]
    omega

/-- Steps over a written text land between its characters. -/
lemma bounds_encode (h : ∀ cp ∈ cps, 1 ≤ cp ∧ cp ≤ 0x10ffff) : Bounds cps := by
  rintro a cp b rfl
  obtain ⟨hchunk, hlen⟩ := toUtf8_chunk (h cp (by simp))
  rw [encodeStr_split, ← hlen]
  exact ⟨nextChsz_chunk _ hchunk _, prevChsz_chunk _ hchunk _⟩

/-- **The helpers agree exactly on code points below 0x10000.** -/
theorem utf8Laws_iff {cps : List Nat} (h : ∀ cp ∈ cps, 1 ≤ cp ∧ cp ≤ 0x10ffff) :
    Utf8Laws cps ↔ ∀ cp ∈ cps, cp < 0x10000 := by
  refine ⟨fun hlaws cp hcp => (readsBack_iff (h cp hcp)).1 (hlaws.next cp hcp), fun hlt => ?_⟩
  refine ⟨fun cp hcp => (readsBack_iff (h cp hcp)).2 (hlt cp hcp), ?_, bounds_encode h, ?_, rfl⟩
  · have hall : ∀ cp ∈ cps, 1 ≤ cp ∧ cp < 0x10000 := fun cp hcp => ⟨(h cp hcp).1, hlt cp hcp⟩
    rw [ujsonUtf8Strlen, strlenLoop_encode hall _ 0 (Nat.lt_succ_of_le (length_le_encodeStr h)),
      Nat.zero_add]
  · simp [ujsonUtf8NextChsz, encodeStr]

/-- An ASCII letter, an e with an accent and a euro sign. -/
theorem utf8Laws_euro : Utf8Laws [0x61, 0xe9, 0x20ac] :=
  (utf8Laws_iff (by decide)).2 (by decide)

/-- A character outside the basic plane is decoded as 0, and a string of it and a letter has length
0. -/
theorem next_fails_four : ujsonToUtf8 0x1f600 = [0xf0, 0x9f, 0x98, 0x80] ∧
      ujsonUtf8Next (encodeStr [0x1f600, 0x61]) = some (0, encodeStr [0x61]) ∧
      ujsonUtf8Strlen (encodeStr [0x1f600, 0x61]) = some 0 ∧ ¬ Utf8Laws [0x1f600, 0x61] := by
  refine ⟨by decide, by decide, by decide, fun hlaws => ?_⟩
  have hlen := hlaws.strlen
  exact absurd hlen (by decide)

variable {c s : List UInt8}

/-! ## Rows of chunks -/

inductive Chunks : List UInt8 → Prop
  | nil : Chunks []
  | cons {c s : List UInt8} (hc : Chunk c) (hs : Chunks s) : Chunks (c ++ s)

lemma Chunk.pos (hc : Chunk c) : 0 < c.length := by cases hc <;> exact Nat.succ_pos _

lemma Chunk.high (hc : Chunk c) (hlen : c.length ≠ 1) : ∀ b ∈ c, 0x80 ≤ b.toNat := by
  have hn : ∀ {x : UInt8}, ujsonUtf8IsNByte x → 0x80 ≤ x.toNat := fun hx =>
    ((isNByte_iff _).1 hx).1
  cases hc with
  | one => exact absurd rfl hlen
  | two hb hc =>
    have := ((is2Byte_iff _).1 hb).1
    exact forall_mem_cons.2 ⟨by omega, forall_mem_singleton.2 (hn hc)⟩
  | three hb hc hc' =>
    have := (Leads.three hb).1
    exact forall_mem_cons.2 ⟨by omega, forall_mem_cons.2 ⟨hn hc, forall_mem_singleton.2 (hn hc')⟩⟩
  | four hb hc hc' hc'' =>
    have := (Leads.four hb).1
    exact forall_mem_cons.2 ⟨by omega, forall_mem_cons.2 ⟨hn hc, forall_mem_cons.2
      ⟨hn hc', forall_mem_singleton.2 (hn hc'')⟩⟩⟩

lemma nextChsz_append (a l : List UInt8) (q : Nat) :
    ujsonUtf8NextChsz (a ++ l) (a.length + q) = ujsonUtf8NextChsz l q := by
  have hat : ∀ i, (a ++ l)[a.length + i]? = l[i]? := fun i => by
    rw [getElem?_append_right (Nat.le_add_right _ _), Nat.add_sub_cancel_left]
  simp [ujsonUtf8NextChsz, nextChszRet, Nat.add_assoc, hat]

/-- Inside a character there is no length. -/
lemma nextChsz_inside (hc : Chunk c) (rest : List UInt8) {q} (h0 : 0 < q) (hq : q < c.length) :
    ujsonUtf8NextChsz (c ++ rest) q = some (-1) := by
  have hbyte : ∀ {x : UInt8}, ujsonUtf8IsNByte x → (c ++ rest)[q]? = some x →
      ujsonUtf8NextChsz (c ++ rest) q = some (-1) := by
    intro x hx hat
    obtain ⟨hascii, h2, h3⟩ := nByte_high hx
    have h4 : ujsonUtf8Is4Byte x = false := by
      rw [isNByte_iff] at hx
      rw [Bool.eq_false_iff, Ne, is4Byte_iff]
      omega
    have hx0 := (high_byte ((isNByte_iff x).1 hx).1).1
    simp [ujsonUtf8NextChsz, hat, hx0, hascii, h2, h3, h4]
  cases hc with
  | one =>
    rw [length_singleton] at hq
    omega
  | two hb hc =>
    obtain rfl : q = 1 := by
      simp only [length_cons, length_nil] at hq
      omega
    exact hbyte hc rfl
  | three hb hc hc' =>
    simp only [length_cons, length_nil] at hq
    obtain rfl | rfl : q = 1 ∨ q = 2 := by omega
    · exact hbyte hc rfl
    · exact hbyte hc' rfl
  | four hb hc hc' hc'' =>
    simp only [length_cons, length_nil] at hq
    obtain rfl | rfl | rfl : q = 1 ∨ q = 2 ∨ q = 3 := by omega
    · exact hbyte hc rfl
    · exact hbyte hc' rfl
    · exact hbyte hc'' rfl

/-- No step leaves a text of whole characters. -/
lemma chunks_stay {a : List UInt8} (ha : Chunks a) (rest : List UInt8) {p} (hp : p < a.length) :
    ∃ k, ujsonUtf8NextChsz (a ++ rest) p = some k ∧ k ≠ 0 ∧ p + k ≤ a.length := by
  induction ha generalizing p with
  | nil => exact absurd hp (Nat.not_lt_zero _)
  | @cons c s hc hs ih =>
    rw [append_assoc]
    rw [length_append] at hp ⊢
    rcases Nat.lt_or_ge p c.length with hlt | hge
    · rcases Nat.eq_zero_or_pos p with rfl | h0
      · exact ⟨c.length, nextChsz_chunk [] hc _, by omega, by omega⟩
      · exact ⟨-1, nextChsz_inside hc _ h0 hlt, by decide, by omega⟩
    obtain ⟨k, hk, hne, _⟩ := ih (p := p - c.length) (by omega)
    have hshift := nextChsz_append c (s ++ rest) (p - c.length)
    rw [Nat.add_sub_cancel' hge] at hshift
    exact ⟨k, by rw [hshift, hk], hne, by omega⟩

lemma nByte_or (t : List UInt8) : (∃ c t', t = c :: t' ∧ ujsonUtf8IsNByte c) ∨
    ∃ c, (t ++ [0])[0]? = some c ∧ ujsonUtf8IsNByte c = false := by
  cases t with
  | nil => exact .inr ⟨0, rfl, rfl⟩
  | cons c t =>
    cases hc : ujsonUtf8IsNByte c with
    | true => exact .inl ⟨c, t, rfl, hc⟩
    | false => exact .inr ⟨c, rfl, hc⟩

section ret

variable {b c c₁ c₂ : UInt8} {s : List UInt8} {len : Nat}

lemma nextChszRet_first (hat : s[0]? = some c) (hc : ujsonUtf8IsNByte c = false) :
    nextChszRet (b :: s) 0 len = some (-1) := by simp [nextChszRet, hat, hc]

lemma nextChszRet_second (hlen : len > 2) (hat : s[0]? = some c)
    (hc : ujsonUtf8IsNByte c = false) : nextChszRet (b :: c₁ :: s) 0 len = some (-1) := by
  simp [nextChszRet, hat, hc, if_pos hlen]

lemma nextChszRet_third (hlen : len > 3) (hat : s[0]? = some c) (hc : ujsonUtf8IsNByte c = false) :
    nextChszRet (b :: c₁ :: c₂ :: s) 0 len = some (-1) := by
  simp [nextChszRet, hat, hc, if_pos hlen, if_pos (Nat.lt_of_succ_lt hlen)]

end ret

/-- A byte starts a character or has no length. -/
lemma chunk_or_bad {b} (hb : b ≠ 0) (t : List UInt8) :
    (∃ c s, Chunk c ∧ b :: t = c ++ s) ∨ ujsonUtf8NextChsz (b :: (t ++ [0])) 0 = some (-1) := by
  by_cases hascii : ujsonUtf8IsAscii b
  · exact .inl ⟨[b], t, .one hb hascii, rfl⟩
  rw [ujsonUtf8NextChsz, getElem?_cons_zero, Option.bind_eq_bind, Option.bind_some,
    if_neg hb, if_neg hascii]
  by_cases h2 : ujsonUtf8Is2Byte b
  · rw [if_pos h2]
    rcases nByte_or t with ⟨c, t, rfl, hc⟩ | ⟨c, hat, hc⟩
    · exact .inl ⟨[b, c], t, .two h2 hc, rfl⟩
    · exact .inr (nextChszRet_first hat hc)
  rw [if_neg h2]
  by_cases h3 : ujsonUtf8Is3Byte b
  · rw [if_pos h3]
    rcases nByte_or t with ⟨c, t, rfl, hc⟩ | ⟨c, hat, hc⟩
    · rcases nByte_or t with ⟨c', t, rfl, hc'⟩ | ⟨c', hat, hc'⟩
      · exact .inl ⟨[b, c, c'], t, .three h3 hc hc', rfl⟩
      · exact .inr (nextChszRet_second (by decide) hat hc')
    · exact .inr (nextChszRet_first hat hc)
  rw [if_neg h3]
  by_cases h4 : ujsonUtf8Is4Byte b
  · rw [if_pos h4]
    rcases nByte_or t with ⟨c, t, rfl, hc⟩ | ⟨c, hat, hc⟩
    · rcases nByte_or t with ⟨c', t, rfl, hc'⟩ | ⟨c', hat, hc'⟩
      · rcases nByte_or t with ⟨c'', t, rfl, hc''⟩ | ⟨c'', hat, hc''⟩
        · exact .inl ⟨[b, c, c', c''], t, .four h4 hc hc' hc'', rfl⟩
        · exact .inr (nextChszRet_third (by decide) hat hc'')
      · exact .inr (nextChszRet_second (by decide) hat hc')
    · exact .inr (nextChszRet_first hat hc)
  · exact .inr (if_neg h4)

/-- A text is made of characters or has a first bad byte. -/
lemma chunks_or_bad (s : List UInt8) (hs : ∀ b ∈ s, b ≠ 0) :
    Chunks s ∨ ∃ a r, s = a ++ r ∧ Chunks a ∧
      ujsonUtf8NextChsz (s ++ [0]) a.length = some (-1) := by
  induction hn : s.length using Nat.strongRecOn generalizing s with
  | _ n ih =>
    cases s with
    | nil => exact .inl .nil
    | cons b t =>
      rcases chunk_or_bad (hs b mem_cons_self) t with ⟨c, s, hc, heq⟩ | hbad
      · rw [heq] at hs hn ⊢
        have hpos := hc.pos
        rw [length_append] at hn
        rcases ih s.length (by omega) s (fun b hb => hs b (mem_append_right _ hb)) rfl with
          hgood | ⟨a, r, rfl, ha, hbad⟩
        · exact .inl (.cons hc hgood)
        · refine .inr ⟨c ++ a, r, (append_assoc _ _ _).symm, .cons hc ha, ?_⟩
          rw [append_assoc, length_append, nextChsz_append, hbad]
      · exact .inr ⟨[], b :: t, rfl, .nil, hbad⟩

/-! ## The loop -/

def escByte (ch : UInt8) : List UInt8 := (escText ch).getD [ch]

/-- What is printed for a string, between the quotes. -/
def escape (s : List UInt8) : List UInt8 := s.flatMap escByte

lemma escape_append (s s' : List UInt8) : escape (s ++ s') = escape s ++ escape s' := flatMap_append

lemma escText_high {b : UInt8} (hb : 0x80 ≤ b.toNat) : escText b = none := by
  have hne : ∀ c, c.toNat < 0x80 → b ≠ c := by
    rintro c _ rfl
    omega
  unfold escText
  simp [hne 0x22 (by decide), hne 0x5c (by decide), hne 0x2f (by decide),
    hne 0x08 (by decide), hne 0x0c (by decide), hne 0x0a (by decide), hne 0x0d (by decide),
    hne 0x09 (by decide)]

/-- Bytes over 127 are not escaped. -/
lemma escape_high (hc : ∀ b ∈ c, 0x80 ≤ b.toNat) : escape c = c := by
  induction c with
  | nil => rfl
  | cons b c ih =>
    obtain ⟨hb, hc⟩ := forall_mem_cons.1 hc
    rw [escape, flatMap_cons, ← escape, ih hc, escByte, escText_high hb]
    rfl

section slices

variable (pre cur rest : List UInt8)

lemma chszAt_eq : chszAt (pre ++ (cur ++ rest)) pre.length cur.length =
    ujsonUtf8NextChsz rest 0 := by
  have hcast : ((pre.length : Int) + cur.length).toNat = (pre ++ cur).length + 0 := by
    rw [length_append]
    omega
  rw [chszAt, if_neg (by omega), hcast, ← append_assoc, nextChsz_append]

lemma charAt_eq (b : UInt8) :
    charAt (pre ++ (cur ++ b :: rest)) pre.length cur.length = some b := by
  have hcast : ((pre.length : Int) + cur.length).toNat = (pre ++ cur).length := by
    rw [length_append]
    omega
  rw [charAt, if_neg (by omega), hcast]
  simp

lemma outSlice_eq : outSlice (pre ++ (cur ++ rest)) pre.length cur.length = some cur := by
  rw [outSlice, if_neg]
  · simp
  · simp only [length_append]
    omega

lemma outSlice_some {str bytes : List UInt8} {val i} (h : outSlice str val i = some bytes) :
    ¬ (i < 0 ∨ str.length < val + i) := by
  intro hout
  rw [outSlice, if_pos hout] at h
  cases h

end slices

/-- The loop writes a good text, escaped. -/
lemma outEscStrLoop_chunks (hs : Chunks s) : ∀ (pre cur out : List UInt8) n, s.length < n →
      outEscStrLoop (pre ++ (cur ++ (s ++ [0]))) n pre.length cur.length out =
        .done (out ++ cur ++ escape s ++ [0x22])  := by
  induction hs with intro pre cur out n hn
  | nil =>
    obtain ⟨n, rfl⟩ : ∃ m, n = m + 1 := ⟨n - 1, by simp at hn; omega⟩
    rw [outEscStrLoop, chszAt_eq, outSlice_eq]
    simp [ujsonUtf8NextChsz, escape]
  | @cons c s hc hs ih =>
    have hpos := hc.pos
    rw [length_append] at hn
    obtain ⟨n, rfl⟩ : ∃ m, n = m + 1 := ⟨n - 1, by omega⟩
    have hnext : ujsonUtf8NextChsz (c ++ s ++ [0]) 0 = some (c.length : Int) := by
      rw [append_assoc]
      exact nextChsz_chunk [] hc (s ++ [0])
    -- the cursor goes on, nothing is printed
    have hgo : escape c = c → outEscStrLoop (pre ++ (cur ++ (c ++ s ++ [0]))) n pre.length
        ((cur.length : Int) + (c.length : Int)) out =
          .done (out ++ cur ++ escape (c ++ s) ++ [0x22]) := by
      intro hesc
      have hloop := ih pre (cur ++ c) out n (by omega)
      rw [length_append, Int.natCast_add] at hloop
      rw [escape_append, hesc]
      simpa only [append_assoc] using hloop
    rw [outEscStrLoop, chszAt_eq, hnext]
    by_cases h1 : c.length = 1
    · cases hc with
      | @one b h0 hb =>
        simp only [cons_append, nil_append, charAt_eq] at hgo ⊢
        cases hesc : escText b with
        | none =>
          refine hgo ?_
          rw [escape, flatMap_singleton, escByte, hesc]
          rfl
        | some text =>
          have hloop := ih (pre ++ (cur ++ [b])) [] (out ++ cur ++ text) n
            (by simp only [length_singleton] at hn; omega)
          simp only [outSlice_eq]
          have hb : escape [b] = text := by
            rw [escape, flatMap_singleton, escByte, hesc]
            rfl
          rw [show b :: s = [b] ++ s from rfl, escape_append, hb]
          simpa [append_assoc] using hloop
      | two | three | four => cases h1
    · dsimp only
      rw [if_neg (by omega), if_neg (by omega)]
      exact hgo (escape_high (hc.high h1))

lemma outEscStrRun_chunks (hs : Chunks s) {n} (hn : s.length < n) :
    outEscStrRun n s = .done (0x22 :: (escape s ++ [0x22])) := by
  have hloop := outEscStrLoop_chunks hs [] [] [0x22] n hn
  simpa [outEscStrRun] using hloop

/-- **A good text is written, escaped and quoted.** -/
lemma outEscStr_chunks (hs : Chunks s) : outEscStr s = some (0x22 :: (escape s ++ [0x22])) := by
  rw [outEscStr, outEscStrRun_chunks hs (Nat.lt_succ_self _)]

/-- With a bad byte in the text the loop never returns. -/
lemma outEscStrLoop_bad {a r : List UInt8} (ha : Chunks a)
    (hbad : ujsonUtf8NextChsz (a ++ r) a.length = some (-1)) :
    ∀ (n val : Nat) (i : Int) (out : List UInt8), val + i ≤ a.length →
      ∀ res, outEscStrLoop (a ++ r) n val i out ≠ .done res := by
  have hstay : ∀ p ≤ a.length, ∃ k, ujsonUtf8NextChsz (a ++ r) p = some k ∧ k ≠ 0 ∧
      p + k ≤ a.length := by
    intro p hp
    rcases Nat.lt_or_eq_of_le hp with hlt | rfl
    · exact chunks_stay ha r hlt
    · exact ⟨-1, hbad, by decide, by omega⟩
  intro n
  induction n with
  | zero =>
    intro val i out _ res h
    cases h
  | succ n ih =>
    intro val i out hle res h
    rw [outEscStrLoop, chszAt] at h
    by_cases hneg : val + i < 0
    · rw [if_pos hneg] at h
      cases h
    rw [if_neg hneg] at h
    obtain ⟨k, hk, hne, hle'⟩ := hstay (val + i).toNat (by omega)
    simp only [hk] at h
    split at h
    · split at h
      · cases h
      split at h
      · split at h
        · cases h
        rename_i hslice
        have hi := (not_or.1 (outSlice_some hslice)).1
        exact ih _ _ _ (by omega) res h
      · exact ih _ _ _ (by omega) res h
    · exact ih _ _ _ (by omega) res h

/-! ## Whole runs -/

lemma outEscStrLoop_succ (str : List UInt8) : ∀ n val i out, outEscStrLoop str n val i out ≠ .more →
      outEscStrLoop str (n + 1) val i out = outEscStrLoop str n val i out  := by
  intro n
  induction n with intro val i _ h
  | zero =>
    exact absurd rfl h
  | succ n ih =>
    rw [outEscStrLoop] at h
    rw [outEscStrLoop, outEscStrLoop]
    cases hk : chszAt str val i with
    | none => rfl
    | some =>
      simp only [hk] at h ⊢
      split_ifs at h ⊢ with h1 h0
      · cases hch : charAt str val i with
        | none => rfl
        | some ch =>
          simp only [hch] at h ⊢
          cases hesc : escText ch with simp only [hesc] at h ⊢
          | none =>
            exact ih _ _ _ h
          | some =>
            cases hslice : outSlice str val i with
            | none => rfl
            | some =>
              simp only [hslice] at h ⊢
              exact ih _ _ _ h
      · rfl
      · exact ih _ _ _ h

/-- More fuel gives the same end. -/
lemma outEscStrRun_mono {n m} (hnm : n ≤ m) (h : outEscStrRun n s ≠ .more) :
    outEscStrRun m s = outEscStrRun n s := by
  induction hnm with
  | refl => rfl
  | step hm ih =>
    rw [← ih] at h
    rw [← ih]
    exact outEscStrLoop_succ _ _ _ _ _ h

/-- `out_esc_str` returns with a quoted string, and stays inside of the string. -/
def EscOk (s : List UInt8) : Prop :=
  (∃ n body, outEscStrRun n s = .done (0x22 :: (body ++ [0x22]))) ∧ ∀ n, outEscStrRun n s ≠ .outside

/-- **`out_esc_str` works exactly on rows of chunks.** -/
theorem escOk_iff {s : List UInt8} (hs : ∀ b ∈ s, b ≠ 0) : EscOk s ↔ Chunks s := by
  constructor
  · rintro ⟨⟨n, _, hdone⟩, -⟩
    rcases chunks_or_bad s hs with hgood | ⟨a, r, rfl, ha, hbad⟩
    · exact hgood
    rw [append_assoc] at hbad
    rw [outEscStrRun, append_assoc] at hdone
    exact absurd hdone (outEscStrLoop_bad ha hbad n 0 0 [0x22] (by omega) _)
  intro hgood
  refine ⟨⟨s.length + 1, escape s, outEscStrRun_chunks hgood (Nat.lt_succ_self _)⟩, ?_⟩
  intro n hout
  -- more rounds would end outside the string too
  have hmono := outEscStrRun_mono (m := max n (s.length + 1)) (Nat.le_max_left _ _)
    (by rw [hout]; nofun)
  rw [hout, outEscStrRun_chunks hgood (Nat.lt_of_lt_of_le (Nat.lt_succ_self _)
    (Nat.le_max_right _ _))] at hmono
  cases hmono

/-- A quote and a euro sign. -/
theorem escOk_euro : EscOk [0x22, 0xe2, 0x82, 0xac] :=
  (escOk_iff (ne_zero_of_all rfl)).2 (.cons (c := [0x22]) (.one (by decide) rfl)
    (.cons (c := [0xe2, 0x82, 0xac]) (.three rfl rfl rfl) .nil))

/-- At a stray continuation byte the cursor goes before the string; behind a letter back and
forth. -/
theorem outEscStr_malformed :
    outEscStrRun 2 [0x80] = .outside ∧ ∀ n, outEscStrRun n [0x61, 0x80] = .more := by
  refine ⟨rfl, fun n => ?_⟩
  have hloop : ∀ n, outEscStrLoop [0x61, 0x80, 0] n 0 0 [0x22] = .more ∧
      outEscStrLoop [0x61, 0x80, 0] n 0 1 [0x22] = .more := by
    intro n
    induction n with
    | zero => exact ⟨rfl, rfl⟩
    | succ n ih => exact ⟨ih.2, ih.1⟩
  exact (hloop n).1

end LtpDdt.Ujson
