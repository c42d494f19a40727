/-
Ujson.ValueTheorems — what `get_value` does on a scalar.

`next_num_type` looks for a point or an exponent up to the next comma, across
closing brackets: `numEnd` says that what follows a number is harmless, `NoDigit`
that it ends where its digits end.
-/
import LtpDdt.Ujson.ScanTheorems

namespace LtpDdt.Ujson

open Json List Number

variable {r : Reader} {e : Env} {d : Nat} {t : List UInt8} {b : UInt8} {ds : Digits} {n : Number}

/-! ## Numbers -/

def NoDigit (t : List UInt8) : Prop := ∀ b, t.head? = some b → isDigit b = false

lemma Reader.At.peekb_noDigit (h : r.At e d t) (ht : NoDigit t) : isDigit r.peekb = false := by
  cases t with
  | nil => rw [h.peekb_nil]; rfl
  | cons b => rw [h.peekb]; exact ht b rfl

lemma wrapLong_of_lt {v} (hlo : -2 ^ 63 ≤ v) (hhi : v < 2 ^ 63) : wrapLong v = v := by
  unfold wrapLong
  rw [Int.bmod_eq_of_le] <;> omega

lemma isDigit_iff (b : UInt8) : isDigit b ↔ 0x30 ≤ b.toNat ∧ b.toNat ≤ 0x39 := by
  simp [isDigit, UInt8.le_iff_toNat_le]

lemma wrapLong_neg (v : Int) : wrapLong (-wrapLong v) = wrapLong (-v) := Int.bmod_neg_bmod

lemma wrapLong_digit (acc : Nat) (hb : isDigit b) :
    wrapLong (wrapLong (wrapLong acc * 10) + ((b.toNat : Int) - 0x30))
      = wrapLong ((acc * 10 + digitVal b : Nat) : Int) := by
  have hc := ((isDigit_iff b).mp hb).1
  have hd : ((b.toNat : Int) - 0x30) = (digitVal b : Int) := by unfold digitVal; omega
  unfold wrapLong
  rw [Int.bmod_mul_bmod, Int.bmod_add_bmod, hd, Int.natCast_add]
  rfl

/-- The digits are summed up, modulo 2^64. -/
lemma getIntLoop_at (ht : NoDigit t) :
    ∀ (ds : List UInt8) (n acc : Nat) {r : Reader}, (∀ b ∈ ds, isDigit b) →
      r.At e d (ds ++ t) → ds.length ≤ n →
      ∃ r', getIntLoop n (wrapLong acc) r = (wrapLong (digitsVal ds acc : Nat), r') ∧ r'.At e d t
  | [], 0, acc, r, _, h, _ => ⟨r, rfl, h⟩
  | [], n + 1, acc, r, _, h, _ => by
    refine ⟨r, ?_, h⟩
    simp [getIntLoop, h.peekb_noDigit ht, digitsVal]
  | _ :: _, 0, _, _, _, _, hn => by simp at hn
  | b :: ds, n + 1, acc, r, hd, h, hn => by
    have hb := hd b (by simp)
    obtain ⟨r', he, h'⟩ := getIntLoop_at ht ds n (acc * 10 + digitVal b)
      (fun c hc => hd c (by simp [hc])) (h.next) (Nat.le_of_succ_le_succ hn)
    refine ⟨r', ?_, h'⟩
    rw [getIntLoop]
    simp only [h.peekb, hb, h.getb, wrapLong_digit acc hb]
    exact he

section Numbers

variable {r : Reader} {e : Env} {d : Nat} {t : List UInt8}

lemma Reader.At.peekb_digits (h : r.At e d (ds.bytes ++ t)) : isDigit r.peekb := by
  obtain ⟨b, _, hb⟩ := exists_cons_of_ne_nil ds.ne
  rw [hb] at h
  rw [h.peekb]
  exact ds.digit b (by simp [hb])

lemma Reader.At.eatSign {neg : Bool}
    (h : r.At e d ((if neg then [0x2d] else []) ++ (ds.bytes ++ t))) :
    ∃ r', r.eatb 0x2d = (neg, r') ∧ r'.At e d (ds.bytes ++ t) := by
  cases neg with
  | true => exact h.eatb
  | false =>
    have hd := h.peekb_digits
    refine ⟨r, ?_, h⟩
    rw [Reader.eatb, if_pos]
    intro h0
    simp [h0, isDigit] at hd

lemma Reader.At.noLeadingZero (ht : NoDigit t) (h : r.At e d (n.int.bytes ++ t)) :
    ¬ (r.peekb = 0x30 ∧ isDigit (r.peekbOff 1)) := by
  rintro ⟨h0, h1⟩
  obtain ⟨b, bs, hb⟩ := exists_cons_of_ne_nil n.int.ne
  rw [hb] at h
  rw [h.peekb] at h0
  have hlen := n.noLeadingZero (by rw [hb, h0]; rfl)
  obtain rfl : bs = [] := by simpa [hb] using hlen
  rw [h.peekbOff] at h1
  cases t with
  | nil => simp [isDigit] at h1
  | cons c =>
    have := ht c rfl
    simp [this] at h1

/-- An integer is read. -/
lemma getInt_at (hint : n.isInt) (ht : NoDigit t) (h : r.At e d (n.text ++ t)) :
    ∃ r', getInt r = (some (wrapLong n.value), r') ∧ r'.At e d t := by
  have htail : n.tailText = [] := by
    simp only [isInt, Bool.and_eq_true, Option.isNone_iff_eq_none] at hint
    simp [tailText, hint.1, hint.2, fracText, expText]
  rw [text, htail, append_nil, append_assoc] at h
  obtain ⟨r₁, he₁, h₁⟩ := h.eatSign
  obtain ⟨r', he', h'⟩ := getIntLoop_at ht n.int.bytes (r₁.json.length - r₁.off) 0
    n.int.digit h₁ (by rw [h₁.fuel]; simp)
  refine ⟨r', ?_, h'⟩
  have h0 : wrapLong ((0 : Nat) : Int) = 0 := by decide
  rw [h0] at he'
  simp only [getInt, he₁, h₁.peekb_digits, if_neg (h₁.noLeadingZero ht), Bool.not_true,
    Bool.and_false, Bool.false_eq_true, if_false]
  rw [he', value]
  cases n.neg with
  | true => simp [wrapLong_neg]
  | false => simp

lemma eatDigitsLoop_at {e d t} (ht : NoDigit t) : ∀ (ds : List UInt8)
    n {r : Reader}, (∀ b ∈ ds, isDigit b) →
      r.At e d (ds ++ t) → ds.length ≤ n → (eatDigitsLoop n r).At e d t
  | [], 0, _, _, h, _ => h
  | [], n + 1, r, _, h, _ => by
    simpa [eatDigitsLoop, h.peekb_noDigit ht] using h
  | _ :: _, 0, _, _, _, hn => by simp at hn
  | b :: ds, n + 1, r, hd, h, hn => by
    have ih := eatDigitsLoop_at ht ds n (fun c hc => hd c (by simp [hc])) (h.next)
      (Nat.le_of_succ_le_succ hn)
    simpa [eatDigitsLoop, h.peekb, h.getb, hd b (by simp)] using ih

lemma eatDigits_at (ht : NoDigit t) (h : r.At e d (ds.bytes ++ t)) :
    ∃ r', eatDigits r = (true, r') ∧ r'.At e d t := by
  refine ⟨_, ?_, eatDigitsLoop_at ht ds.bytes (r.json.length - r.off) ds.digit h
    (by rw [h.fuel]; simp)⟩
  simp [eatDigits, h.peekb_digits]

lemma eatExponent_at {x : Exponent} (ht : NoDigit t)
    (h : r.At e d (signText x.sign ++ (x.digits.bytes ++ t))) :
    ∃ r', eatExponent r = (true, r') ∧ r'.At e d t := by
  obtain ⟨_, sign, _⟩ := x
  unfold eatExponent
  match sign, h with
  | none, h =>
    have hd := h.peekb_digits
    have hne : r.eatb2 0x2b 0x2d = (false, r) := by
      rw [Reader.eatb2, if_pos]
      constructor <;> intro h0 <;> simp [h0, isDigit] at hd
    rw [hne]
    exact eatDigits_at ht h
  | some false, h =>
    obtain ⟨_, he, h₁⟩ := h.eatb2_left 0x2d
    rw [he]
    exact eatDigits_at ht h₁
  | some true, h =>
    obtain ⟨_, he, h₁⟩ := h.eatb2_right 0x2b
    rw [he]
    exact eatDigits_at ht h₁

/-- Up to the next comma there is neither a point nor an exponent. -/
def numEnd : List UInt8 → Bool
  | [] => true
  | b :: t =>
    if b = 0 ∨ b = 0x2c then true
    else if b = 0x2e ∨ b = 0x65 ∨ b = 0x45 then false
    else numEnd t

lemma nextNumTypeLoop_at : ∀ (t : List UInt8) n off {r : Reader},
    (∀ i, r.peekbOff (off + i) = t.getD i 0) → t.length < n →
      nextNumTypeLoop n off r = if numEnd t then .int else .float
  | _, 0, _, _, _, hn => by simp at hn
  | [], n + 1, off, r, hp, _ => by
    have h0 := hp 0
    simp only [Nat.add_zero] at h0
    simp [nextNumTypeLoop, h0, numEnd]
  | b :: t, n + 1, off, r, hp, hn => by
    have h0 := hp 0
    simp only [Nat.add_zero, getD_cons_zero] at h0
    have ih := nextNumTypeLoop_at t n (off + 1) (r := r)
      (fun i => by rw [Nat.add_assoc, Nat.add_comm 1 i, hp (i + 1), getD_cons_succ])
      (Nat.lt_of_succ_lt_succ hn)
    simp only [nextNumTypeLoop, h0, numEnd, ih]
    split
    · rfl
    · split <;> rfl

lemma nextNumType_at (h : r.At e d t) : nextNumType r = if numEnd t then .int else .float :=
  nextNumTypeLoop_at t _ 0 (fun i => by rw [Nat.zero_add]; exact h.peekbOff i)
    (by rw [h.fuel]; exact Nat.lt_succ_self _)

lemma numEnd_digits {ds} (hd : ∀ b ∈ ds, isDigit b) (t : List UInt8) :
    numEnd (ds ++ t) = numEnd t := by
  induction ds with
  | nil => rfl
  | cons b ds ih =>
    have hb := hd b (by simp)
    have h0 : ¬ (b = 0 ∨ b = 0x2c) := by rintro (rfl | rfl) <;> simp [isDigit] at hb
    have h1 : ¬ (b = 0x2e ∨ b = 0x65 ∨ b = 0x45) := by
      rintro (rfl | rfl | rfl) <;> simp [isDigit] at hb
    rw [cons_append, numEnd, if_neg h0, if_neg h1]
    exact ih (forall_mem_cons.1 hd).2

lemma numEnd_number (n : Number) (t : List UInt8) :
    numEnd (n.text ++ t) = (n.isInt && numEnd t) := by
  have hsign : numEnd (n.text ++ t) = numEnd (n.tailText ++ t) := by
    rw [text, append_assoc, append_assoc]
    cases n.neg
    · exact numEnd_digits n.int.digit _
    · exact numEnd_digits n.int.digit _
  rw [hsign, tailText, isInt]
  cases hf : n.frac with
  | some => simp [fracText, numEnd]
  | none =>
    cases hx : n.exp with
    | none => simp [fracText, expText]
    | some x => cases hu : x.upper <;> simp [fracText, expText, Exponent.text, numEnd, hu]

lemma NoDigit.cons (hb : isDigit b = false) (t : List UInt8) : NoDigit (b :: t) := by
  intro c hc
  cases hc
  exact hb

lemma NoDigit.expText {t} (ht : NoDigit t) (x : Option Exponent) : NoDigit (expText x ++ t) := by
  cases x with
  | none => exact ht
  | some x => exact NoDigit.cons (by cases x.upper <;> rfl) _

lemma eatb2_exponent {x : Option Exponent} (hend : numEnd t) (ht : NoDigit t)
    (h : r.At e d (expText x ++ t)) :
    ∃ r', r'.At e d t ∧ (match r.eatb2 0x65 0x45 with
        | (false, r) => (true, r)
        | (true, r) => eatExponent r) = (true, r') := by
  cases x with
  | none =>
    refine ⟨r, h, ?_⟩
    have hne : r.peekb ≠ 0x65 ∧ r.peekb ≠ 0x45 := by
      cases t with
      | nil => rw [h.peekb_nil]; decide
      | cons =>
        rw [h.peekb]
        constructor <;> rintro rfl <;> simp [numEnd] at hend
    rw [Reader.eatb2, if_pos hne]
  | some x =>
    have h' : r.At e d ((if x.upper then 0x45 else 0x65) ::
        (signText x.sign ++ (x.digits.bytes ++ t))) := by
      simpa [expText, Exponent.text] using h
    obtain ⟨r₁, he, h₁⟩ : ∃ r₁, r.eatb2 0x65 0x45 = (true, r₁) ∧
        r₁.At e d (signText x.sign ++ (x.digits.bytes ++ t)) := by
      cases hu : x.upper with
      | true => rw [hu] at h'; exact h'.eatb2_right 0x65
      | false => rw [hu] at h'; exact h'.eatb2_left 0x45
    obtain ⟨r₂, he₂, h₂⟩ := eatExponent_at ht h₁
    refine ⟨r₂, h₂, ?_⟩
    rw [he]
    exact he₂

/-- A float is passed. -/
lemma getFloat_at (hint : n.isInt = false) (hend : numEnd t) (ht : NoDigit t)
    (h : r.At e d (n.text ++ t)) : ∃ r', getFloat r = (true, r') ∧ r'.At e d t := by
  rw [text, tailText, append_assoc, append_assoc, append_assoc] at h
  obtain ⟨_, he₁, h₁⟩ := h.eatSign
  cases hf : n.frac with
  | some ds =>
    rw [hf] at h₁
    have hnd : NoDigit (fracText (some ds) ++ (expText n.exp ++ t)) := NoDigit.cons rfl _
    obtain ⟨r₂, he₂, h₂⟩ := eatDigits_at hnd h₁
    obtain ⟨_, he₃, h₃⟩ := eatDigits_at (ht.expText n.exp) h₂.next
    obtain ⟨r', h', he'⟩ := eatb2_exponent hend ht h₃
    refine ⟨r', ?_, h'⟩
    have hget := h₂.getb
    simp only [getFloat, he₁, if_neg (h₁.noLeadingZero hnd), he₂, hget, he₃]
    exact he'
  | none =>
    cases hx : n.exp with
    | none => simp [isInt, hf, hx] at hint
    | some x =>
      rw [hf, hx] at h₁
      have hnd : NoDigit (fracText none ++ (expText (some x) ++ t)) := ht.expText (some x)
      obtain ⟨r₂, he₂, h₂⟩ := eatDigits_at hnd h₁
      have h₂' : r₂.At e d ((if x.upper then 0x45 else 0x65) ::
          (signText x.sign ++ (x.digits.bytes ++ t))) := by
        simpa [fracText, expText, Exponent.text] using h₂
      obtain ⟨r', he', h'⟩ := eatExponent_at ht h₂'.next
      refine ⟨r', ?_, h'⟩
      simp only [getFloat, he₁, if_neg (h₁.noLeadingZero hnd), he₂, h₂'.getb]
      cases x.upper <;> simpa using he'

end Numbers

/-! ## Values -/

/-- The type `get_value` reports for a scalar. -/
def scalarType : Scalar → UType
  | .num n => if n.isInt then .int else .float
  | .bool _ => .bool
  | .null => .null
  | .str _ => .str

def kindType : Kind → UType
  | .arr => .arr
  | .obj => .obj

/-- What `get_value` stores in the union; a float is not modelled. -/
def scalarVal (buf : Option Nat) : Scalar → Payload → Payload
  | .num n, old => if n.isInt then .int (wrapLong n.value) else old
  | .bool b, _ => .bool b
  | .null, old => old
  | .str s, _ => .str (strStored s buf)

def storeScalar (v : Scalar) (res : Val) : Val :=
  { res with type := scalarType v, val := scalarVal res.bufSize v res.val }

def ScalarReads (buf : Option Nat) : Scalar → Prop
  | .str s => StrReads s buf
  | _ => True

lemma number_head (n : Number) : ∃ b bs, n.text = b :: bs ∧ (b = 0x2d ∨ isDigit b) := by
  unfold text
  cases n.neg with
  | true => exact ⟨0x2d, _, rfl, .inl rfl⟩
  | false =>
    obtain ⟨b, bs, hb⟩ := exists_cons_of_ne_nil n.int.ne
    exact ⟨b, bs ++ n.tailText, by simp [hb], .inr (n.int.digit b (by simp [hb]))⟩

lemma numStart_facts (h : b = 0x2d ∨ isDigit b) :
    isWs b = false ∧ b ≠ 0x7b ∧ b ≠ 0x5b ∧ b ≠ 0x22 := by
  have hne : ∀ c, c ≠ 0x2d → isDigit c = false → b ≠ c := by
    rintro c hc hcd rfl
    rcases h with h | h
    · exact hc h
    · simp [hcd] at h
  refine ⟨?_, hne _ (by decide) rfl, hne _ (by decide) rfl, hne _ (by decide) rfl⟩
  simp [isWs, hne 0x20 (by decide) rfl, hne 0x09 (by decide) rfl, hne 0x0a (by decide) rfl,
    hne 0x0d (by decide) rfl]

/-- The type of a scalar. -/
lemma nextType_scalar {w : Ws} {v : Scalar} (hend : numEnd t)
    (h : r.At e d (w.1 ++ (v.text ++ t))) :
    ∃ r', ujsonNextType r = (scalarType v, r') ∧ r'.At e d (v.text ++ t) := by
  cases v with
  | num n =>
    obtain ⟨b, _, hb, hbd⟩ := number_head n
    simp only [Scalar.text, hb] at h
    obtain ⟨hws, h1, h2, h3⟩ := numStart_facts hbd
    obtain ⟨r', he, h'⟩ := h.eatws_cons hws
    have hat : r'.At e d (n.text ++ t) := by rw [hb]; exact h'
    have htype := nextNumType_at hat
    rw [numEnd_number, hend] at htype
    exact ⟨r', by simp [ujsonNextType, he, h'.peekb, h1, h2, h3, hbd, htype, scalarType], hat⟩
  | bool b =>
    cases b with
    | true | false =>
      obtain ⟨r', he, h'⟩ := h.eatws_cons rfl
      exact ⟨r', by simp [ujsonNextType, he, h'.peekb, scalarType, isDigit], h'⟩
  | null | str =>
    obtain ⟨r', he, h'⟩ := h.eatws_cons rfl
    exact ⟨r', by simp [ujsonNextType, he, h'.peekb, scalarType, isDigit], h'⟩

lemma getBool_at {b} (h : r.At e d ((Scalar.bool b).text ++ t)) :
    ∃ r', getBool r = (true, some b, r') ∧ r'.At e d t := by
  cases b with
  | true =>
    obtain ⟨r', he, h'⟩ := Reader.At.eatstr trueText h
    exact ⟨r', by simp [getBool, h.peekb, he], h'⟩
  | false =>
    obtain ⟨r', he, h'⟩ := Reader.At.eatstr falseText h
    exact ⟨r', by simp [getBool, h.peekb, he], h'⟩

section Value

variable {r : Reader} {e : Env} {d : Nat} {w : Ws} {t : List UInt8} {v : Scalar} {res : Val}

/-- **Scalars are read back**: type, value and the place where the value
ends. -/
theorem getValue_scalar (res : Val) (hv : ScalarReads res.bufSize v) (hend : numEnd t)
    (ht : NoDigit t) (h : r.At e d (w.1 ++ (v.text ++ t))) :
    ∃ r', getValue r res = (true, r', storeScalar v res) ∧ r'.At e d t := by
  obtain ⟨_, he₁, h₁⟩ := nextType_scalar hend h
  cases v with
  | num n =>
    cases hint : n.isInt with
    | true =>
      obtain ⟨r', he, h'⟩ := getInt_at hint ht h₁
      exact ⟨r', by simp [getValue, he₁, scalarType, hint, he, storeScalar, scalarVal], h'⟩
    | false =>
      obtain ⟨r', he, h'⟩ := getFloat_at hint hend ht h₁
      exact ⟨r', by simp [getValue, he₁, scalarType, hint, he, storeScalar, scalarVal], h'⟩
  | bool =>
    obtain ⟨r', he, h'⟩ := getBool_at h₁
    exact ⟨r', by simp [getValue, he₁, scalarType, he, storeScalar, scalarVal], h'⟩
  | null =>
    obtain ⟨r', he, h'⟩ := Reader.At.eatstr nullText h₁
    exact ⟨r', by simp [getValue, he₁, scalarType, getNull, he, storeScalar, scalarVal], h'⟩
  | str =>
    simp only [Scalar.text, cons_append, append_assoc] at h₁
    obtain ⟨r', he, h'⟩ := copyStr_reads hv h₁
    exact ⟨r', by simp [getValue, he₁, scalarType, he, storeScalar, scalarVal], h'⟩

/-- A string that does not fit is refused. -/
lemma getValue_short {len : Nat} (hbuf : res.bufSize = some len) (hlen : 0 < len)
    (hv : ¬ ScalarReads (some len) v) (hend : numEnd t) (h : r.At e d (w.1 ++ (v.text ++ t))) :
    ∃ r', getValue r res = (false, r', { res with type := .void }) ∧ r'.err ≠ none := by
  obtain ⟨_, he₁, h₁⟩ := nextType_scalar hend h
  cases v with
  | str =>
    simp only [Scalar.text, cons_append, append_assoc] at h₁
    obtain ⟨r', he, h'⟩ := copyStr_short hlen hv h₁
    exact ⟨r', by simp [getValue, he₁, scalarType, hbuf, he], h'⟩
  | num | bool | null => exact absurd trivial hv

lemma getValue_container {k : Kind} (res : Val) (h : r.At e d (w.1 ++ k.opening :: t)) :
    ∃ r', getValue r res = (true, r', { res with type := kindType k }) ∧
      r'.At e d (k.opening :: t) ∧ r'.subOff = r'.off := by
  have hws : isWs k.opening = false := by cases k <;> rfl
  obtain ⟨r₁, he, h₁⟩ := h.eatws_cons hws
  refine ⟨{ r₁ with subOff := r₁.off }, ?_,
    ⟨h₁.json, h₁.strict, h₁.maxDepth, h₁.rest, h₁.off, h₁.depth, h₁.depth_le, h₁.err⟩, rfl⟩
  cases k <;> simp [getValue, ujsonNextType, he, h₁.peekb, kindType, Kind.opening]

end Value

/-- Whatever the value is, the name of the member stays. -/
lemma getValue_id (r : Reader) (res : Val) : (getValue r res).2.2.id = res.id := by
  rw [getValue]
  rcases ujsonNextType r with ⟨_ | _ | _ | _ | _ | _ | _ | _, r₁⟩ <;> dsimp only
  · rcases getInt r₁ with ⟨_ | _, _⟩ <;> rfl
  · rcases getFloat r₁ with ⟨_ | _, _⟩ <;> rfl
  · rcases getBool r₁ with ⟨_ | _, _ | _, _⟩ <;> rfl
  · rcases getNull r₁ with ⟨_ | _, _⟩ <;> rfl
  · rcases copyStr r₁ res.bufSize with ⟨_ | _, _⟩ <;> rfl

end LtpDdt.Ujson
