/-
Ujson.SweepTheorems — a walk that ends without an error has read an object or
an array. The bytes are any, and the tree is built from what the calls have done
(`Got`, `MemberRead`, `Called`), provided that the bytes meet the condition of
`Sweep`; every other outcome has set the error, and an error stays.
-/
import LtpDdt.Json.Encoding
import LtpDdt.Ujson.Sweep

namespace LtpDdt.Ujson

open Json List

variable {t : List UInt8} {x : Reader × Val} {w : Ws} {r : Reader}

/-! ## Strings as `Sweep` sees them -/

lemma hex_isPlain (h : Hex) : isPlain h.1 := by
  have hrange := h.range
  have hne : ∀ b, h.1 = b → h.1.toNat = b.toNat := fun b hb => by rw [hb]
  rw [isPlain_iff, UInt8.lt_iff_toNat_lt]
  refine ⟨by simp only [UInt8.reduceToNat]; omega, fun h0 => ?_, fun h0 => ?_⟩
  · have := hne _ h0
    simp only [UInt8.reduceToNat] at this
    omega
  have := hne _ h0
  simp only [UInt8.reduceToNat] at this
  omega

lemma stringAt_plain {b} (hb : isPlain b) (t : List UInt8) :
    stringAt (b :: t) = b :: stringAt t := by
  obtain ⟨hq, hback⟩ := isPlain_ne hb
  cases t with
  | nil => exact if_neg hq
  | cons => rw [stringAt, if_neg hq, if_neg hback]

/-- An element of a string is kept whole. -/
lemma stringAt_elem (x : StrElem) (t : List UInt8) :
    stringAt (x.text ++ t) = x.text ++ stringAt t := by
  cases x with
  | plain b hb => exact stringAt_plain hb t
  | esc => rfl
  | ucode h₁ h₂ h₃ h₄ =>
    change 0x5c :: 0x75 :: stringAt (h₁.1 :: h₂.1 :: h₃.1 :: h₄.1 :: t) = _
    rw [stringAt_plain (hex_isPlain h₁), stringAt_plain (hex_isPlain h₂),
      stringAt_plain (hex_isPlain h₃), stringAt_plain (hex_isPlain h₄)]
    rfl

lemma strText_cons (x : StrElem) (s : List StrElem) : strText (x :: s) = x.text ++ strText s :=
  flatMap_cons

variable (s : List StrElem)

lemma stringAt_append (t : List UInt8) : stringAt (strText s ++ t) = strText s ++ stringAt t := by
  induction s with
  | nil => rfl
  | cons x s ih => rw [strText_cons, append_assoc, stringAt_elem, ih, append_assoc]

/-- The bytes up to the closing quote. -/
lemma stringAt_string (t : List UInt8) : stringAt (strText s ++ 0x22 :: t) = strText s := by
  have hend : stringAt (0x22 :: t) = [] := by cases t <;> rfl
  rw [stringAt_append, hend, append_nil]

lemma hasZero_plain {b} (hb : isPlain b) (t : List UInt8) : hasZero (b :: t) = hasZero t := by
  cases t with
  | nil => rfl
  | cons => rw [hasZero, if_neg (isPlain_ne hb).2]

lemma hasZero_elem (x : StrElem) (ht : hasZero t) : hasZero (x.text ++ t) := by
  cases x with
  | plain b hb =>
    change hasZero (b :: t)
    rwa [hasZero_plain hb]
  | esc c =>
    change hasZero (0x5c :: c.letter :: t)
    rw [hasZero, if_pos rfl, ht, Bool.or_true]
  | ucode h₁ h₂ h₃ h₄ =>
    change hasZero (0x5c :: 0x75 :: h₁.1 :: h₂.1 :: h₃.1 :: h₄.1 :: t)
    rw [hasZero, if_pos rfl, hasZero_plain (hex_isPlain h₁), hasZero_plain (hex_isPlain h₂),
      hasZero_plain (hex_isPlain h₃), hasZero_plain (hex_isPlain h₄), ht, Bool.or_true]

/-- An escaped zero is found behind any text. -/
lemma hasZero_append (ht : hasZero t) : hasZero (strText s ++ t) := by
  induction s with
  | nil => exact ht
  | cons x s ih =>
    rw [strText_cons, append_assoc]
    exact hasZero_elem x ih

lemma hex_zero {h : Hex} (hz : h.val = 0) : h.1 = 0x30 := by
  have hrange := h.range
  refine UInt8.toNat_inj.1 ?_
  simp only [UInt8.reduceToNat]
  omega

lemma hasZero_zero {x : StrElem} (hx : isZero x) (t : List UInt8) : hasZero (x.text ++ t) := by
  cases x with
  | plain | esc => cases hx
  | ucode h₁ h₂ h₃ h₄ =>
    have hcp : codePoint h₁ h₂ h₃ h₄ = 0 := eq_of_beq hx
    have hz : h₁.val = 0 ∧ h₂.val = 0 ∧ h₃.val = 0 ∧ h₄.val = 0 := by
      unfold codePoint at hcp
      omega
    change hasZero (0x5c :: 0x75 :: h₁.1 :: h₂.1 :: h₃.1 :: h₄.1 :: t)
    rw [hex_zero hz.1, hex_zero hz.2.1, hex_zero hz.2.2.1, hex_zero hz.2.2.2]
    rfl

/-! ## Values -/

/-- What `get_value` has read at `t`. -/
inductive Got (e : Env) (d : Nat) (buf : Option Nat) (t : List UInt8) (x : Reader × Val) : Prop
  | failed (herr : x.1.err ≠ none)
  | scalar (lead : Ws) (v : Scalar) (w : Ws) (u : List UInt8)
      (ht : t = lead.1 ++ (v.text ++ (w.1 ++ u))) (hutf : IsUtf8 v.text)
      (hvoid : x.2.type ≠ .void) (hkind : x.2.type.kind? = none) (hbuf : x.2.bufSize = buf)
      (h : x.1.At e d u)
  | sub (lead : Ws) (k : Kind) (u : List UInt8) (ht : t = lead.1 ++ k.opening :: u)
      (htype : x.2.type = kindType k) (hbuf : x.2.bufSize = buf)
      (h : x.1.At e d (k.opening :: u))

variable {buf : Option Nat} {out : Reader}

variable (res : Val)

section values

variable {r r₁ : Reader} {e : Env} {d : Nat} {t u : List UInt8} {b : UInt8}

lemma ws_append (w w' : Ws) : ∃ w'' : Ws, w''.1 = w.1 ++ w'.1 :=
  ⟨⟨w.1 ++ w'.1, forall_mem_append.2 ⟨w.2, w'.2⟩⟩, rfl⟩

lemma Got.lead (h : Got e d buf t x) (w : Ws) : Got e d buf (w.1 ++ t) x := by
  cases h with
  | failed herr => exact .failed herr
  | scalar lead v w₁ u ht hutf hvoid hkind hbuf h =>
    obtain ⟨lead', hlead⟩ := ws_append w lead
    exact .scalar lead' v w₁ u (by rw [hlead, ht, append_assoc]) hutf hvoid hkind hbuf h
  | sub lead k u ht htype hbuf h =>
    obtain ⟨lead', hlead⟩ := ws_append w lead
    exact .sub lead' k u (by rw [hlead, ht, append_assoc]) htype hbuf h

lemma Got.ends (v : Scalar) (ht : t = v.text ++ u) (hutf : IsUtf8 v.text)
    (hvoid : x.2.type ≠ .void) (hkind : x.2.type.kind? = none) (hbuf : x.2.bufSize = buf)
    (h : x.1.At e d u) : Got e d buf t x := .scalar .empty v .empty u ht hutf hvoid hkind hbuf h

/-- A word is eaten, or the call fails. -/
lemma eatstr_read : ∀ s {r : Reader} {t}, (∀ c ∈ s, c ≠ 0) → r.At e d t → (r.eatstr s).1 = false ∨
      ∃ u r', t = s ++ u ∧ r.eatstr s = (true, r') ∧ r'.At e d u
  | [], r, t, _, h => .inr ⟨t, r, rfl, rfl, h⟩
  | c :: s, r, t, hs, h => by
    obtain ⟨hc, hs⟩ := forall_mem_cons.1 hs
    rcases eatb_cases h c hc with ⟨u, _, rfl, heat, h₁⟩ | ⟨heat, -⟩
    · rw [Reader.eatstr, heat]
      rcases eatstr_read s hs h₁ with hfail | ⟨v, r', rfl, heat', h'⟩
      · exact .inl hfail
      · exact .inr ⟨v, r', rfl, heat', h'⟩
    · rw [Reader.eatstr, heat]
      exact .inl rfl

/-- A string that is got was one. -/
lemma got_str (hty : ujsonNextType r = (.str, r₁)) (hok : StringOk res.bufSize u)
    (h : r₁.At e d (0x22 :: u)) : Got e d res.bufSize (0x22 :: u) (getValue r res).2 := by
  obtain ⟨hutf, hzero⟩ := hok
  simp only [getValue, hty]
  rcases copyStr_read res.bufSize h with
    ⟨hnone, herr⟩ | ⟨s, v, str, r', rfl, hcopy, h'⟩ | ⟨hbuf, s, x, v, r', rfl, hx, hcopy, h'⟩
  · rcases hcopy : copyStr r₁ res.bufSize with ⟨out, _⟩
    rw [hcopy] at hnone herr
    obtain rfl : out = _ := hnone
    exact .failed herr
  · rw [hcopy]
    rw [stringAt_string] at hutf
    refine .ends (.str s) ?_ (isUtf8_str hutf) (by simp) rfl rfl h'
    simp [Scalar.text]
  -- the loop would have stopped at the zero escape
  have hhas : hasZero (stringAt (strText s ++ (x.text ++ v))) := by
    rw [stringAt_append, stringAt_elem]
    exact hasZero_append s (hasZero_zero hx _)
  rw [hzero hbuf] at hhas
  cases hhas

/-- An integer that is got was one. -/
lemma got_int (hty : ujsonNextType r = (.int, r₁)) (ht : NumStart t)
    (h : r₁.At e d t) : Got e d res.bufSize t (getValue r res).2 := by
  simp only [getValue, hty]
  rcases getInt_read ht h with ⟨hnone, herr⟩ | ⟨n, u, v, _, -, rfl, -, hget, h'⟩
  · rcases hget : getInt r₁ with ⟨out, _⟩
    rw [hget] at hnone herr
    obtain rfl : out = _ := hnone
    exact .failed herr
  · rw [hget]
    exact .ends (.num n) rfl (isUtf8_number n) (by simp) rfl rfl h'

/-- A float that is got was one. -/
lemma got_float (hty : ujsonNextType r = (.float, r₁)) (ht : NumStart t)
    (hnum : numEnd t = false) (hok : numberOk t) (h : r₁.At e d t) :
    Got e d res.bufSize t (getValue r res).2 := by
  simp only [getValue, hty]
  rcases getFloat_read ht hnum h with
    ⟨hfalse, herr⟩ | ⟨n, u, r', rfl, hget, h'⟩ | ⟨n, x, u, r', hint, hx, rfl, hget, h'⟩
  · rcases hget : getFloat r₁ with ⟨out, _⟩
    rw [hget] at hfalse herr
    obtain rfl : out = false := hfalse
    exact .failed herr
  · rw [hget]
    exact .ends (.num n) rfl (isUtf8_number n) (by simp) rfl rfl h'
  -- the byte behind the integer is white space
  obtain ⟨hdig, hpoint, he, hE⟩ := hx
  rw [numEnd_number, hint, Bool.true_and] at hnum
  have hws : isWs x := by
    rw [numberOk, afterInt_number hint (NoDigit.cons hdig u)] at hok
    simpa [hpoint, he, hE, hnum] using hok
  rw [hget]
  refine .scalar .empty (.num n) ⟨[x], forall_mem_singleton.2 hws⟩ u rfl (isUtf8_number n)
    (by simp) rfl rfl h'

lemma fail_ne {r : Reader} {x : ReaderErr} : (r.fail x).err ≠ none := nofun

/-- A boolean that is got was one. -/
lemma got_bool (hty : ujsonNextType r = (.bool, r₁)) (hb : b = 0x66 ∨ b = 0x74)
    (h : r₁.At e d (b :: u)) : Got e d res.bufSize (b :: u) (getValue r res).2 := by
  simp only [getValue, hty, getBool, h.peekb]
  rcases hb with rfl | rfl
  · rw [if_pos rfl]
    rcases eatstr_read falseText (ne_zero_of_all rfl) h with hfail | ⟨v, _, hv, heat, h'⟩
    · rcases heat : r₁.eatstr falseText with ⟨out, _⟩
      rw [heat] at hfail
      obtain rfl : out = false := hfail
      exact .failed fail_ne
    · rw [heat]
      exact .ends (.bool false) hv (isUtf8_ascii rfl) (by simp) rfl rfl h'
  rw [if_pos rfl]
  rcases eatstr_read trueText (ne_zero_of_all rfl) h with hfail | ⟨v, _, hv, heat, h'⟩
  · rcases heat : r₁.eatstr trueText with ⟨out, _⟩
    rw [heat] at hfail
    obtain rfl : out = false := hfail
    exact .failed fail_ne
  · rw [heat]
    exact .ends (.bool true) hv (isUtf8_ascii rfl) (by simp) rfl rfl h'

/-- A null that is got was one. -/
lemma got_null (hty : ujsonNextType r = (.null, r₁)) (h : r₁.At e d t) :
    Got e d res.bufSize t (getValue r res).2 := by
  simp only [getValue, hty, getNull]
  rcases eatstr_read nullText (ne_zero_of_all rfl) h with hfail | ⟨v, _, hv, heat, h'⟩
  · rcases heat : r₁.eatstr nullText with ⟨out, _⟩
    rw [heat] at hfail
    obtain rfl : out = _ := hfail
    exact .failed fail_ne
  · rw [heat]
    exact .ends .null hv (isUtf8_ascii rfl) (by simp) rfl rfl h'

/-- **A value that is got stood in the text.** -/
lemma getValue_got (hok : ValueOk res.bufSize t) (h : r.At e d t) :
    Got e d res.bufSize t (getValue r res).2 := by
  obtain ⟨w, u, r₁, rfl, hu, hws, h₁⟩ := eatws_split h
  rw [ValueOk, skipWs_append w hu] at hok
  cases u with
  | nil =>
    simp only [getValue, ujsonNextType, hws]
    exact .failed fail_ne
  | cons b u =>
    have hnext : ∀ {ty : UType}, (if b = 0x7b then (UType.obj, r₁)
        else if b = 0x5b then (.arr, r₁)
        else if b = 0x22 then (.str, r₁)
        else if b = 0x2d ∨ isDigit b = true then (nextNumType r₁, r₁)
        else if b = 0x66 ∨ b = 0x74 then (.bool, r₁)
        else if b = 0x6e then (.null, r₁)
        else (.void, r₁.fail .expectedValue)) = (ty, r₁) → ujsonNextType r = (ty, r₁) := by
      intro _ hif
      simp only [ujsonNextType, hws, isEmpty_cons, h₁.peekb]
      exact hif
    refine Got.lead ?_ w
    dsimp only at hok
    by_cases hobj : b = 0x7b
    · subst hobj
      have hty := hnext (if_pos rfl)
      simp only [getValue, hty]
      exact .sub .empty .obj u rfl rfl rfl
        ⟨h₁.json, h₁.strict, h₁.maxDepth, h₁.rest, h₁.off, h₁.depth, h₁.depth_le, h₁.err⟩
    rw [if_neg hobj] at hnext
    by_cases harr : b = 0x5b
    · subst harr
      have hty := hnext (if_pos rfl)
      simp only [getValue, hty]
      exact .sub .empty .arr u rfl rfl rfl
        ⟨h₁.json, h₁.strict, h₁.maxDepth, h₁.rest, h₁.off, h₁.depth, h₁.depth_le, h₁.err⟩
    rw [if_neg harr] at hnext
    by_cases hstr : b = 0x22
    · subst hstr
      exact got_str res (hnext (if_pos rfl)) hok h₁
    rw [if_neg hstr] at hnext hok
    by_cases hnum : b = 0x2d ∨ isDigit b
    · rw [if_pos hnum, nextNumType_at h₁] at hnext
      rw [if_pos hnum] at hok
      cases hend : numEnd (b :: u) with rw [hend] at hnext
      | true =>
        exact got_int res (hnext rfl) ⟨b, u, rfl, hnum⟩ h₁
      | false =>
        exact got_float res (hnext rfl) ⟨b, u, rfl, hnum⟩ hend hok h₁
    rw [if_neg hnum] at hnext
    by_cases hbool : b = 0x66 ∨ b = 0x74
    · exact got_bool res (hnext (if_pos hbool)) hbool h₁
    rw [if_neg hbool] at hnext
    by_cases hnull : b = 0x6e
    · exact got_null res (hnext (if_pos hnull)) h₁
    have hty : ujsonNextType r = (.void, r₁.fail .expectedValue) := by
      simp [ujsonNextType, hws, h₁.peekb, hobj, harr, hstr, hnum, hbool, hnull]
    simp only [getValue, hty]
    exact .failed fail_ne

end values

/-! ## Members -/

/-- What has been read of a member at `m`. -/
inductive MemberRead (e : Env) (d : Nat) (k : Kind) (buf : Option Nat) (m : List UInt8)
    (x : Reader × Val) : Prop
  | failed (herr : x.1.err ≠ none)
  | scalar (lead : Ws) (key : Key k) (v : Scalar) (w : Ws) (u : List UInt8)
      (hm : m = lead.1 ++ (key.text ++ (v.text ++ (w.1 ++ u)))) (hkey : IsUtf8 key.text)
      (hutf : IsUtf8 v.text) (hvoid : x.2.type ≠ .void) (hkind : x.2.type.kind? = none)
      (hbuf : x.2.bufSize = buf) (h : x.1.At e d u)
  | sub (lead : Ws) (key : Key k) (k' : Kind) (u : List UInt8)
      (hm : m = lead.1 ++ (key.text ++ k'.opening :: u)) (hkey : IsUtf8 key.text)
      (htype : x.2.type = kindType k') (hbuf : x.2.bufSize = buf)
      (h : x.1.At e d (k'.opening :: u))

/-- What `first` (behind the bracket) or `next` has read: the end of the container, or a member and
what is in front of it. -/
inductive Called (e : Env) (d : Nat) (k : Kind) (buf : Option Nat) (first : Bool)
    (t : List UInt8) (x : Reader × Val) : Prop
  | failed (herr : x.1.err ≠ none)
  | closed (ws w : Ws) (u : List UInt8) (ht : t = ws.1 ++ k.closing :: (w.1 ++ u))
      (hvoid : x.2.type = .void) (h : x.1.At e d u)
  | member (sep : Ws) (m : List UInt8) (ht : t = sepText first sep ++ m)
      (h : MemberRead e (d + 1) k buf m x)

section members

variable {r : Reader} {e : Env} {d : Nat} {k : Kind} {t u m : List UInt8} {buf : Option Nat}

lemma MemberRead.lead (h : MemberRead e d k buf m x) (w : Ws) :
    MemberRead e d k buf (w.1 ++ m) x := by
  cases h with
  | failed herr => exact .failed herr
  | scalar lead key v w₁ u hm hkey hutf hvoid hkind hbuf h =>
    obtain ⟨lead', hlead⟩ := ws_append w lead
    exact .scalar lead' key v w₁ u (by rw [hlead, hm, append_assoc]) hkey hutf hvoid hkind hbuf h
  | sub lead key k' u hm hkey htype hbuf h =>
    obtain ⟨lead', hlead⟩ := ws_append w lead
    exact .sub lead' key k' u (by rw [hlead, hm, append_assoc]) hkey htype hbuf h

lemma memberOk_ws (hu : NoWs u) (h : MemberOk k buf (w.1 ++ u)) : MemberOk k buf u := by
  have hskip : skipWs (w.1 ++ u) = skipWs u := by
    rw [skipWs_append w hu]
    exact (skipWs_append .empty hu).symm
  cases k with
  | arr => simpa only [MemberOk, ValueOk, hskip] using h
  | obj => simpa only [MemberOk, nameAt, afterName, hskip] using h

/-- **A member that is read stood in the text.** -/
lemma memberNext_read (hok : MemberOk k res.bufSize m) (h : r.At e d m) :
    MemberRead e d k res.bufSize m (memberNext k r res).2 := by
  cases k with
  | arr =>
    cases getValue_got res hok h with
    | failed herr => exact .failed herr
    | scalar lead v w u ht hutf hvoid hkind hbuf h' =>
      exact .scalar lead .elem v w u ht isUtf8_nil hutf hvoid hkind hbuf h'
    | sub lead k' u ht htype hbuf h' => exact .sub lead .elem k' u ht isUtf8_nil htype hbuf h'
  | obj =>
    rcases copyIdStr_read h with ⟨hnone, herr⟩ | ⟨w, w₁, _, u, _, hbs, rfl, hcopy, h'⟩
    · simp only [memberNext, objNext]
      rcases hcopy : copyIdStr r with ⟨out, _⟩
      rw [hcopy] at hnone herr
      obtain rfl : out = _ := hnone
      exact .failed herr
    obtain ⟨hname, hafter⟩ := nameAt_eq w w₁ hbs u
    simp only [MemberOk, hname, hafter] at hok
    obtain ⟨⟨⟨s, rfl⟩, hutf⟩, hval⟩ := hok
    simp only [memberNext, objNext, hcopy]
    cases getValue_got { res with id := strText s } hval h' with
    | failed herr => exact .failed herr
    | scalar lead v w₂ u' ht hutf' hvoid hkind hbuf h'' =>
      refine .scalar w (.name s w₁ lead) v w₂ u' ?_ (isUtf8_name hutf w₁ lead) hutf' hvoid
        hkind hbuf h''
      rw [ht]
      simp [Key.text]
    | sub lead k' u' ht htype hbuf h'' =>
      refine .sub w (.name s w₁ lead) k' u' ?_ (isUtf8_name hutf w₁ lead) htype hbuf h''
      rw [ht]
      simp [Key.text]

/-- The end that is found, or another member. -/
lemma checkEnd_read (hok : EndOr k buf t m) (h : r.At e (d + 1) t) :
    (∃ r' res', checkEnd r res k.closing = (true, r', res') ∧ r'.err ≠ none) ∨
    (∃ (ws w : Ws) (u : List UInt8) (r' : Reader), t = ws.1 ++ k.closing :: (w.1 ++ u) ∧
      checkEnd r res k.closing = (true, r', { res with type := .void }) ∧ r'.At e d u) ∨
    ∃ (w : Ws) (b : UInt8) (u : List UInt8) (r' : Reader), t = w.1 ++ b :: u ∧ isWs b = false ∧
      checkEnd r res k.closing = (false, r', res) ∧ r'.At e (d + 1) (b :: u) ∧
      MemberOk k buf m := by
  obtain ⟨w, u, r₁, rfl, hu, hws, -⟩ := eatws_split h
  rw [EndOr, skipWs_append w hu] at hok
  cases u with
  | nil =>
    refine .inl ⟨r₁.fail .unexpectedEnd, res, ?_, fail_ne⟩
    simp [checkEnd, hws]
  | cons b u =>
    have hb := hu b rfl
    dsimp only at hok
    by_cases hclose : b = k.closing
    · subst hclose
      rw [if_pos rfl] at hok
      obtain ⟨w₁, v, rfl, hv⟩ := ws_split u
      rw [skipWs_append w₁ hv] at hok
      have hafter : AfterClose v := fun c hc => ⟨hv c hc, fun h0 => hok (h0 ▸ hc)⟩
      obtain ⟨r', hend, h'⟩ := checkEnd_close res hb hafter (Nat.succ_pos d) h
      exact .inr (.inl ⟨w, w₁, v, r', rfl, hend, h'⟩)
    · rw [if_neg hclose] at hok
      obtain ⟨r', hopen, h'⟩ := checkEnd_open res hb hclose h
      exact .inr (.inr ⟨w, b, u, r', rfl, hb, hopen, h', hok⟩)

lemma anyFirst_read (h : r.At e d (k.opening :: t)) :
    (∃ r', anyFirst r k.opening = (true, r') ∧ r'.err ≠ none) ∨
      ∃ r', anyFirst r k.opening = (false, r') ∧ r'.At e (d + 1) t := by
  by_cases hd : d < 128
  · exact .inr (anyFirst_at (w := .empty) (isWs_opening k) hd h)
  obtain ⟨_, he₁, h₁⟩ := Reader.At.eatws_cons (w := .empty) h (isWs_opening k)
  obtain ⟨r₂, he₂, h₂⟩ := h₁.eatb
  refine .inl ⟨Reader.fail { r₂ with depth := d + 1 } .tooDeep, ?_, fail_ne⟩
  have hle := h₂.depth_le
  have hmod : (d + 1) % 2 ^ 32 = d + 1 := by unfold ujsonRecursionMax at hle; omega
  have hgt : d + 1 > ujsonRecursionMax := by unfold ujsonRecursionMax; omega
  simp only [anyFirst, he₁, he₂, h₂.depth, h₂.maxDepth, hmod, if_pos hgt]

/-- What the first call of a loop read. -/
lemma firstOf_called (hok : FirstOk k res.bufSize (k.opening :: t))
    (h : r.At e d (k.opening :: t)) : Called e d k res.bufSize true t (firstOf k r res).2 := by
  rw [firstOf_eq k r res h.err]
  rcases anyFirst_read h with ⟨_, hany, herr⟩ | ⟨_, hany, h₁⟩
  · rw [hany]
    exact .failed herr
  rw [hany]
  have hok' : EndOr k res.bufSize t t := hok
  rcases checkEnd_read res hok' h₁ with
    ⟨r', res', hend, herr⟩ | ⟨ws, w, u, r', ht, hend, h'⟩ | ⟨w, b, u, r', ht, hb, hend, h', hm⟩
  · simp only [hend]
    exact .failed herr
  · simp only [hend]
    exact .closed ws w u ht rfl h'
  simp only [hend]
  have hno : NoWs (b :: u) := fun c hc => by
    cases hc
    exact hb
  have hm' : MemberOk k res.bufSize (w.1 ++ b :: u) := ht ▸ hm
  refine .member .empty t rfl ?_
  rw [ht]
  exact (memberNext_read res (memberOk_ws hno hm') h').lead w

/-- What a later call of a loop read. -/
lemma nextOf_called (hok : NextOk k res.bufSize t) (h : r.At e (d + 1) t) :
    Called e d k res.bufSize false t (nextOf k r res).2 := by
  rw [nextOf_eq k r res h.err]
  rcases checkEnd_read res hok h with
    ⟨r', res', hend, herr⟩ | ⟨ws, w, u, r', ht, hend, h'⟩ | ⟨w, b, u, r', ht, hb, hend, h', hm⟩
  · rw [hend]
    exact .failed herr
  · rw [hend]
    exact .closed ws w u ht rfl h'
  rw [hend]
  rw [ht, skipWs_cons w hb] at hm
  rcases eatb_cases h' 0x2c (by decide) with ⟨v, _, hv, heat, h₁⟩ | ⟨heat, -⟩
  · obtain ⟨rfl, rfl⟩ := cons.inj hv
    obtain ⟨w₁, v, _, rfl, hno, hws, h₂⟩ := eatws_split h₁
    cases v with simp only [preNext, heat, hws]
    | nil =>
      exact .failed fail_ne
    | cons c v =>
      refine .member w (w₁.1 ++ c :: v) ?_ ?_
      · rw [ht, sepText, if_neg (by decide), append_assoc]
        rfl
      · exact (memberNext_read res (memberOk_ws hno hm) h₂).lead w₁
  · simp only [preNext, heat]
    exact .failed fail_ne

end members

/-! ## The loops -/

/-- A loop that ends without an error has read the members, the closing bracket and the white space
behind it. -/
def LoopReads (e : Env) (d : Nat) (k : Kind) (first : Bool) (t : List UInt8) (out : Reader) :
    Prop :=
  out.err = none → ∃ (s : Seq k) (w : Ws) (u : List UInt8), t = s.text first ++ (w.1 ++ u) ∧
    IsUtf8 (s.text first) ∧ out.At e d u

lemma sepText_length (first : Bool) (sep : Ws) : (!first).toNat ≤ (sepText first sep).length := by
  cases first <;> simp [sepText]

lemma text_addWs {k : Kind} (w : Ws) (s : Seq k) : ∃ s' : Seq k,
    s'.text false = w.1 ++ s.text false := by
  cases s with
  | nil ws =>
    obtain ⟨ws', hws⟩ := ws_append w ws
    exact ⟨.nil ws', by simp [Seq.text, hws]⟩
  | scalar sep lead key v next =>
    obtain ⟨sep', hsep⟩ := ws_append w sep
    exact ⟨.scalar sep' lead key v next, by simp [Seq.text, sepText, hsep]⟩
  | sub sep lead key k' inner next =>
    obtain ⟨sep', hsep⟩ := ws_append w sep
    exact ⟨.sub sep' lead key k' inner next, by simp [Seq.text, sepText, hsep]⟩

section loops

variable {e : Env} {d : Nat} {k : Kind} {t u : List UInt8} {buf : Option Nat} {first : Bool}
  {x : Reader × Val}

/-- Every call makes the rest shorter. -/
lemma Called.shorter (h : Called e d k buf first t x) (herr : x.1.err = none) :
    x.1.ahead.length + (!first).toNat ≤ t.length := by
  have hbit : (!first).toNat ≤ 1 := by cases first <;> decide
  cases h with
  | failed herr' => exact absurd herr herr'
  | closed ws w u ht hvoid h =>
    rw [h.ahead, ht]
    simp only [length_append, length_cons]
    omega
  | member sep m ht h =>
    have hsep := sepText_length first sep
    cases h with
    | failed herr' => exact absurd herr herr'
    | scalar lead key v w u hm hkey hutf hvoid hkind hbuf h
    | sub lead key k' u hm hkey htype hbuf h =>
      rw [h.ahead, ht, hm]
      simp only [length_append]
      omega

variable (visit : Reader → Val → Visit)

lemma sweepLoop_void (n : Nat) (k : Kind) (h : x.2.type = .void) : sweepLoop visit n k x = x.1 := by
  cases n with
  | zero => rfl
  | succ => rw [sweepLoop, if_pos h]

lemma skipOf_eq (k : Kind) (r : Reader) :
    skipOf k r = skipLoop (r.json.length + 1) k (firstOf k r {}).2 := by cases k <;> rfl

lemma skipOf_err (k : Kind) (h : r.err ≠ none) : (skipOf k r).2 = r := by
  rw [skipOf_eq, firstOf_err k _ h, skipLoop_eq, walkLoop_void none _ k rfl]

/-- With an error set the loop stops. -/
lemma sweepLoop_err (n : Nat) (k : Kind) (h : x.1.err ≠ none) : sweepLoop visit n k x = x.1 := by
  cases n with
  | zero => rfl
  | succ n =>
    obtain ⟨r, res⟩ := x
    have hnext : sweepLoop visit n k (nextOf k r res).2 = r := by
      rw [nextOf_err k res h, sweepLoop_void visit n k rfl]
    rw [sweepLoop]
    split
    · rfl
    split
    · rename_i k' hkind
      cases visit r res with
      | foreach =>
        dsimp only
        rw [firstOf_err k' _ h, sweepLoop_void visit n k' rfl]
        exact hnext
      | skip =>
        rw [skipOf_err k' h]
        exact hnext
    · exact hnext

lemma loopReads_err (n : Nat) (h : x.1.err ≠ none) :
    LoopReads e d k first t (sweepLoop visit n k x) := by
  intro herr
  rw [sweepLoop_err visit n k h] at herr
  exact absurd herr h

/-- A scalar in front of what the loop read. -/
lemma LoopReads.scalar {sep lead : Ws} {key : Key k} {v : Scalar} (hkey : IsUtf8 key.text)
    (hutf : IsUtf8 v.text) (h : LoopReads e d k false u out) :
    LoopReads e d k first (sepText first sep ++ (lead.1 ++ (key.text ++ (v.text ++ (w.1 ++ u)))))
      out := by
  intro herr
  obtain ⟨s, w', u', rfl, hs, hat⟩ := h herr
  obtain ⟨s', hs'⟩ := text_addWs w s
  refine ⟨.scalar sep lead key v s', w', u', ?_, ?_, hat⟩
  · simp [Seq.text, hs']
  simp only [Seq.text, hs']
  exact (isUtf8_sep first sep).append ((isUtf8_ws lead).append
    (hkey.append (hutf.append ((isUtf8_ws w).append hs))))

/-- An inner object or array in front of what the loop read. -/
lemma LoopReads.sub {sep lead : Ws} {key : Key k} {k' : Kind} {inner : Seq k'}
    (hkey : IsUtf8 key.text) (hinner : IsUtf8 (inner.text true)) (h : LoopReads e d k false u out) :
    LoopReads e d k first (sepText first sep ++ (lead.1 ++ (key.text ++
      (k'.opening :: (inner.text true ++ (w.1 ++ u)))))) out := by
  intro herr
  obtain ⟨s, w', u', rfl, hs, hat⟩ := h herr
  obtain ⟨s', hs'⟩ := text_addWs w s
  refine ⟨.sub sep lead key k' inner s', w', u', ?_, ?_, hat⟩
  · simp [Seq.text, hs', cons_append]
  simp only [Seq.text, hs']
  exact (isUtf8_sep first sep).append ((isUtf8_ws lead).append (hkey.append
    (isUtf8_byte (opening_le k') (hinner.append ((isUtf8_ws w).append hs)))))

/-- What `ujson_obj_skip` and `ujson_arr_skip` read, where a loop body calls
them. -/
def SkipReads : Prop :=
  ∀ (r : Reader) (res : Val), visit r res = .skip → ∀ (e : Env) (d : Nat) (k : Kind)
    (u : List UInt8), r.At e d (k.opening :: u) → FirstOk k none (k.opening :: u) →
    SkipOk (r.json.length + 1) k (firstOf k r {}).2 → LoopReads e d k true u (skipOf k r).2

/-- **A sweep that ends without an error read a list of members.** -/
lemma sweepLoop_reads (hskip : SkipReads visit) (n : Nat) : ∀ {d} {k} {first} {t} {buf}
    {x : Reader × Val}, (x.1.err = none → x.1.ahead.length < n) → Called e d k buf first t x →
      SweepLoopOk visit n k x → LoopReads e d k first t (sweepLoop visit n k x)  := by
  induction n with
  | zero =>
    intro d k first t _ x hn hcall _ herr
    exact absurd (hn herr) (Nat.not_lt_zero _)
  | succ n ih =>
    intro d k first t _ x hn hcall hok
    cases hcall with
    | failed herr => exact loopReads_err visit (n + 1) herr
    | closed ws w u ht hvoid h =>
      intro _
      rw [sweepLoop_void visit (n + 1) k hvoid]
      refine ⟨.nil ws, w, u, ?_, (isUtf8_ws ws).append (isUtf8_closing k), h⟩
      rw [ht, Seq.text, append_assoc]
      rfl
    | member sep m ht hm =>
      obtain ⟨r, res⟩ := x
      -- the call behind this member, and the loop from there on
      have hafter : ∀ {r' : Reader} {u : List UInt8}, r'.At e (d + 1) u → u.length ≤ n →
          NextOk k res.bufSize r'.ahead → SweepLoopOk visit n k (nextOf k r' res).2 →
          LoopReads e d k false u (sweepLoop visit n k (nextOf k r' res).2) := by
        intro r' u h' hlen hnext hloop
        rw [h'.ahead] at hnext
        have hcall := nextOf_called res hnext h'
        refine ih (fun herr => ?_) hcall hloop
        have := hcall.shorter herr
        simp only [Bool.not_false, Bool.toNat_true] at this
        omega
      subst ht
      cases hm with
      | failed herr => exact loopReads_err visit (n + 1) herr
      | scalar lead key v w u hm hkey hutf hvoid hkind hbuf h =>
        subst hm
        have hlen := hn h.err
        rw [h.ahead] at hlen
        simp only [SweepLoopOk, hvoid, hkind] at hok
        simp only [sweepLoop, hvoid, hkind]
        exact .scalar hkey hutf (hafter h (Nat.le_of_lt_succ hlen) hok.1 hok.2)
      | sub lead key k' u hm hkey htype hbuf h =>
        subst hm
        have hlen := hn h.err
        rw [h.ahead, length_cons] at hlen
        obtain ⟨hvoid, hkind⟩ := kindType_kind k'
        rw [← htype] at hvoid hkind
        simp only [SweepLoopOk, hvoid, hkind] at hok
        simp only [sweepLoop, hvoid, hkind]
        -- the loop inside, whichever it is, and then the rest
        have hrest : ∀ {r' : Reader}, LoopReads e (d + 1) k' true u r' →
            NextOk k res.bufSize r'.ahead → SweepLoopOk visit n k (nextOf k r' res).2 →
            LoopReads e d k first (sepText first sep ++ (lead.1 ++ (key.text ++
              k'.opening :: u))) (sweepLoop visit n k (nextOf k r' res).2) := by
          intro r' hin hnext hloop
          by_cases herr : r'.err = none
          · obtain ⟨_, w, u', rfl, hinner, h'⟩ := hin herr
            have hle : u'.length ≤ n := by
              simp only [length_append] at hlen
              omega
            exact .sub hkey hinner (hafter h' hle hnext hloop)
          · rw [nextOf_err k res herr]
            exact loopReads_err visit n herr
        cases hvisit : visit r res
        all_goals
          simp only [hvisit] at hok ⊢
          obtain ⟨⟨hfirst, hin⟩, hnext, hloop⟩ := hok
          rw [h.ahead] at hfirst
        case foreach buf' =>
          have hcall := firstOf_called { bufSize := buf' } hfirst h
          refine hrest (ih (fun herr => ?_) hcall hin) hnext hloop
          have := hcall.shorter herr
          simp only at this
          omega
        case skip =>
          exact hrest (hskip r res hvisit e (d + 1) k' u h hfirst hin) hnext hloop

end loops

/-! ## Skipping -/

/-- Skipping is a sweep that visits nothing. -/
lemma skipLoop_sweep (n : Nat) (k : Kind) (x : Reader × Val) :
    (skipLoop n k x).2 = sweepLoop (fun _ _ => .foreach none) n k x := by
  induction n generalizing k x with
  | zero => rfl
  | succ n ih =>
    obtain ⟨r, res⟩ := x
    by_cases hv : res.type = .void
    · simp [skipLoop, sweepLoop, hv]
    cases hk : res.type.kind? with
    | none =>
      simp only [skipLoop, sweepLoop, hv, hk]
      exact ih k _
    | some k' =>
      simp only [skipLoop, sweepLoop, hv, hk, if_false, ← ih]
      rw [skipLoop_eq n k' (firstOf k' r {}).2]

lemma SkipOk.sweep {n k} (h : SkipOk n k x) : SweepLoopOk (fun _ _ => .foreach none) n k x := by
  induction n generalizing k x with
  | zero => trivial
  | succ n ih =>
    obtain ⟨r, res⟩ := x
    by_cases hv : res.type = .void
    · simp [SweepLoopOk, hv]
    cases hk : res.type.kind? with simp only [SkipOk, hv, hk] at h
    | none =>
      simp only [SweepLoopOk, hv, hk]
      exact ⟨h.1, ih h.2⟩
    | some =>
      simp only [SweepLoopOk, hv, hk, ← skipLoop_sweep]
      exact ⟨⟨h.1.1, ih h.1.2⟩, h.2.1, ih h.2.2⟩

/-- What is skipped is a list of members. -/
lemma skipReads (visit : Reader → Val → Visit) : SkipReads visit := by
  intro r _ _ e d k u h hfirst hskip
  have hcall := firstOf_called {} hfirst h
  rw [skipOf_eq, skipLoop_sweep]
  -- that walk skips nothing
  have hnone : SkipReads fun _ _ => .foreach none := fun _ _ hvisit => nomatch hvisit
  refine sweepLoop_reads _ hnone _ (fun herr => ?_) hcall hskip.sweep
  have hshort := hcall.shorter herr
  have hoff := h.off
  rw [length_cons] at hoff
  omega

/-! ## The whole walk -/

/-- The type of the root. -/
lemma readerStart_read {e d} (h : r.At e d t) :
    (∃ r', ujsonReaderStart r = (.void, r') ∧ r'.err ≠ none) ∨
      ∃ (w : Ws) (k : Kind) (u : List UInt8) (r' : Reader), t = w.1 ++ k.opening :: u ∧
        ujsonReaderStart r = (kindType k, r') ∧ r'.At e d (k.opening :: u) := by
  obtain ⟨w, u, r₁, rfl, -, hws, h₁⟩ := eatws_split h
  cases u with
  | nil =>
    refine .inl ⟨r₁.fail .unexpectedEnd, ?_, fail_ne⟩
    simp [ujsonReaderStart, ujsonNextType, hws]
  | cons b u =>
    by_cases hobj : b = 0x7b
    · subst hobj
      obtain ⟨r', hstart, h'⟩ := readerStart_at (k := .obj) h
      exact .inr ⟨w, .obj, u, r', rfl, hstart, h'⟩
    by_cases harr : b = 0x5b
    · subst harr
      obtain ⟨r', hstart, h'⟩ := readerStart_at (k := .arr) h
      exact .inr ⟨w, .arr, u, r', rfl, hstart, h'⟩
    -- any other value is refused
    left
    simp only [ujsonReaderStart, ujsonNextType, hws, isEmpty_cons, h₁.peekb]
    split_ifs
    · exact ⟨_, rfl, fail_ne⟩
    · rw [nextNumType_at h₁]
      cases numEnd (b :: u) <;> exact ⟨_, rfl, fail_ne⟩
    · exact ⟨_, rfl, fail_ne⟩
    · exact ⟨_, rfl, fail_ne⟩
    · exact ⟨_, rfl, fail_ne⟩

/-- What was read is the text in front. -/
lemma Reader.At.consumed {e : Env} {d s u} (h : r.At e d u) (hjson : e.json = s ++ u) :
    r.json.take r.off = s := by
  have hsplit := take_append_drop r.off r.json
  rw [h.rest, h.json, hjson] at hsplit
  rw [h.json, hjson]
  exact append_cancel_right hsplit

end LtpDdt.Ujson
