/-
Ujson.Sweep — walks over any bytes, whose loop bodies recurse into containers or
skip them, and the places where the reader takes bytes that are no JSON.

`sweepLoop` is the loop of `UJSON_OBJ_FOREACH` and `UJSON_ARR_FOREACH`. A `visit` says
what the body does with each container, so that a statement for every `visit` is one
about every walk.

`FirstOk` and `NextOk` are about the bytes before a call. The reader takes a name for
what is in front of the next quote (`copy_id_str`); it reads an integer as a float if
a point or an `e` comes before the next comma, and then takes the byte behind it too
(`get_float`); it stops at a `\u0000` in a string without a buffer without an error
(`parse_ucode_esc`); and it reads over a NUL behind a closing bracket (`check_end`).

Each token function gets one lemma: if it has set no error, it has read a token of
the grammar, or one of these bytes.
-/
import LtpDdt.Json.Tree
import LtpDdt.Ujson.ForeachTheorems

namespace LtpDdt.Ujson

open Json

/-! ## The walk -/

/-- What a loop body does with a container: loop over it with string buffers of the size, or skip
it. -/
inductive Visit where
  | foreach (bufSize : Option Nat)
  | skip

section walk

variable (visit : Reader → Val → Visit)

/-- The loop over a container of kind `k`, from a value on. -/
def sweepLoop : Nat → Kind → Reader × Val → Reader
  | 0, _, (r, _) => r
  | n + 1, k, (r, res) =>
    if res.type = .void then r
    else
      match res.type.kind? with
      | some k' =>
        let r := match visit r res with
          | .foreach buf => sweepLoop n k' (firstOf k' r { bufSize := buf }).2
          | .skip => (skipOf k' r).2
        sweepLoop n k (nextOf k r res).2
      | none => sweepLoop n k (nextOf k r res).2

def sweep (buf : Option Nat) (r : Reader) : Reader :=
  match ujsonReaderStart r with
  | (type, r) =>
    match type.kind? with
    | some k => sweepLoop visit (r.json.length + 1) k (firstOf k r { bufSize := buf }).2
    | none => r

end walk

/-- The walk has consumed an object or an array, and every loop has ended at its closing bracket. -/
def ReadsValid (r : Reader) : Prop :=
  r.depth = 0 ∧ IsUtf8 (r.json.take r.off) ∧ ∃ doc : Doc, doc.text = r.json.take r.off

/-! ## The bytes in front of a call -/

def Reader.ahead (r : Reader) : List UInt8 := r.json.drop r.off

variable (t : List UInt8)

def skipWs : List UInt8 := t.dropWhile isWs

/-- The name at `t`, as `copy_id_str` sees it. -/
def nameAt : List UInt8 := ((skipWs t).drop 1).takeWhile (· != 0x22)

def afterName : List UInt8 :=
  (skipWs ((((skipWs t).drop 1).dropWhile (· != 0x22)).drop 1)).drop 1

/-- The string at `t`, up to its closing quote. -/
def stringAt : List UInt8 → List UInt8
  | [] => []
  | [b] => if b = 0x22 then [] else [b]
  | b :: c :: t =>
    if b = 0x22 then []
    else if b = 0x5c then b :: c :: stringAt t
    else b :: stringAt (c :: t)

/-- There is a `\u0000` in the string. -/
def hasZero : List UInt8 → Bool
  | [] => false
  | [_] => false
  | b :: c :: t =>
    if b = 0x5c then (c == 0x75 && t.take 4 == [0x30, 0x30, 0x30, 0x30]) || hasZero t
    else hasZero (c :: t)

variable (buf : Option Nat)

def StringOk (t : List UInt8) : Prop :=
  IsUtf8 (stringAt t) ∧ (buf = none → hasZero (stringAt t) = false)

def afterInt : List UInt8 :=
  (if t.head? = some 0x2d then t.drop 1 else t).dropWhile isDigit

/-- An integer is followed by white space, or `next_num_type` sees that it is
one. -/
def numberOk : Bool :=
  match afterInt t with
  | [] => true
  | x :: t => x == 0x2e || x == 0x65 || x == 0x45 || isWs x || numEnd (x :: t)

def ValueOk (t : List UInt8) : Prop :=
  match skipWs t with
  | [] => True
  | b :: t =>
    if b = 0x22 then StringOk buf t
    else if b = 0x2d ∨ isDigit b = true then numberOk (b :: t) = true
    else True

def MemberOk : Kind → Option Nat → List UInt8 → Prop
  | .arr, buf, t => ValueOk buf t
  | .obj, buf, t =>
    ((∃ s : List StrElem, strText s = nameAt t) ∧ IsUtf8 (nameAt t)) ∧ ValueOk buf (afterName t)

/-- The container ends at `t` and no NUL follows, or there is a member at
`m`. -/
def EndOr (k : Kind) (buf : Option Nat) (t m : List UInt8) : Prop :=
  match skipWs t with
  | [] => True
  | b :: t => if b = k.closing then (skipWs t).head? ≠ some 0 else MemberOk k buf m

/-- Before `ujson_obj_first` and `ujson_arr_first`, at the opening bracket. -/
def FirstOk (k : Kind) (buf : Option Nat) (t : List UInt8) : Prop :=
  EndOr k buf (t.drop 1) (t.drop 1)

/-- Before `ujson_obj_next` and `ujson_arr_next`: a member is behind a comma. -/
def NextOk (k : Kind) (buf : Option Nat) (t : List UInt8) : Prop :=
  EndOr k buf t ((skipWs t).drop 1)

/-! ## The calls of a walk -/

/-- The calls of `ujson_obj_skip` and `ujson_arr_skip`. -/
def SkipOk : Nat → Kind → Reader × Val → Prop
  | 0, _, _ => True
  | n + 1, k, (r, res) =>
    if res.type = .void then True
    else
      match res.type.kind? with
      | some k' =>
        (FirstOk k' none r.ahead ∧ SkipOk n k' (firstOf k' r {}).2) ∧
          (NextOk k res.bufSize (skipLoop n k' (firstOf k' r {}).2).2.ahead ∧
            SkipOk n k (nextOf k (skipLoop n k' (firstOf k' r {}).2).2 res).2)
      | none => NextOk k res.bufSize r.ahead ∧ SkipOk n k (nextOf k r res).2

section calls

variable (visit : Reader → Val → Visit)

def SweepLoopOk : Nat → Kind → Reader × Val → Prop
  | 0, _, _ => True
  | n + 1, k, (r, res) =>
    if res.type = .void then True
    else
      match res.type.kind? with
      | some k' =>
        match visit r res with
        | .foreach buf =>
          let x := (firstOf k' r { bufSize := buf }).2
          let r' := sweepLoop visit n k' x
          (FirstOk k' buf r.ahead ∧ SweepLoopOk n k' x) ∧
            (NextOk k res.bufSize r'.ahead ∧ SweepLoopOk n k (nextOf k r' res).2)
        | .skip =>
          let r' := (skipOf k' r).2
          (FirstOk k' none r.ahead ∧ SkipOk (r.json.length + 1) k' (firstOf k' r {}).2) ∧
            (NextOk k res.bufSize r'.ahead ∧ SweepLoopOk n k (nextOf k r' res).2)
      | none => NextOk k res.bufSize r.ahead ∧ SweepLoopOk n k (nextOf k r res).2

/-- Every call of the walk is made in front of such bytes. -/
def SweepOk (buf : Option Nat) (r : Reader) : Prop :=
  match ujsonReaderStart r with
  | (type, r) =>
    match type.kind? with
    | some k =>
      FirstOk k buf r.ahead ∧
        SweepLoopOk visit (r.json.length + 1) k (firstOf k r { bufSize := buf }).2
    | none => True

end calls

open List

variable {b : UInt8} {u : List UInt8} {n : Nat}

/-! ## White space and single bytes -/

lemma skipWs_append (w : Ws) {t} (ht : NoWs t) : skipWs (w.1 ++ t) = t := by
  rw [skipWs, dropWhile_append_of_pos w.2]
  cases t with
  | nil => rfl
  | cons b =>
    have hb := ht b rfl
    rw [dropWhile_cons_of_neg (by rw [hb]; decide)]

lemma skipWs_cons (w : Ws) (hb : isWs b = false) (t : List UInt8) :
    skipWs (w.1 ++ b :: t) = b :: t :=
  skipWs_append w fun c hc => by
    cases hc
    exact hb

lemma ws_split (t : List UInt8) : ∃ (w : Ws) (u : List UInt8), t = w.1 ++ u ∧ NoWs u := by
  refine ⟨⟨t.takeWhile isWs, all_eq_true.1 all_takeWhile⟩, t.dropWhile isWs,
    takeWhile_append_dropWhile.symm, fun b hb => ?_⟩
  have hne : t.dropWhile isWs ≠ [] := by
    intro h
    rw [h] at hb
    cases hb
  have hhead := head_dropWhile_not isWs hne
  rw [head?_eq_some_head hne] at hb
  rwa [Option.some.inj hb] at hhead

section leaves

variable {r : Reader} {e : Env} {d : Nat} {t : List UInt8}

lemma Reader.At.ahead (h : r.At e d t) : r.ahead = t := h.rest

lemma eatws_split (h : r.At e d t) : ∃ (w : Ws) (u : List UInt8) (r' : Reader),
    t = w.1 ++ u ∧ NoWs u ∧ r.eatws = (u.isEmpty, r') ∧ r'.At e d u := by
  obtain ⟨w, u, rfl, hu⟩ := ws_split t
  obtain ⟨r', he, h'⟩ := h.eatws w.2 hu
  exact ⟨w, u, r', rfl, hu, he, h'⟩

lemma eatb_cases (h : r.At e d t) (ch : UInt8) (hch : ch ≠ 0) :
    (∃ u r', t = ch :: u ∧ r.eatb ch = (true, r') ∧ r'.At e d u) ∨
      r.eatb ch = (false, r) ∧ t.head? ≠ some ch := by
  cases t with
  | nil =>
    refine .inr ⟨?_, nofun⟩
    rw [Reader.eatb, h.peekb_nil, if_pos (Ne.symm hch)]
  | cons b u =>
    by_cases hb : b = ch
    · subst hb
      obtain ⟨r', he, h'⟩ := h.eatb
      exact .inl ⟨u, r', rfl, he, h'⟩
    refine .inr ⟨h.eatb_ne hb, fun hc => hb ?_⟩
    cases hc
    rfl

/-- A function has set the error and returned without a result. -/
def Fails {α : Type} (out : Option α × Reader) : Prop := out.1 = none ∧ out.2.err ≠ none

lemma fails_fail {α} (r : Reader) (x : ReaderErr) : Fails ((none : Option α), r.fail x) :=
  ⟨rfl, nofun⟩

/-! ## Strings -/

inductive BadElem : List UInt8 → Prop
  | control {b : UInt8} {u : List UInt8} (hb : b < 0x20) : BadElem (b :: u)
  | open : BadElem [0x5c]
  | escape {c : UInt8} {u : List UInt8} (hc : c ≠ 0x75) (hnone : unescape c = none) :
      BadElem (0x5c :: c :: u)
  | hex {u : List UInt8}
      (hu : ∀ (h₁ h₂ h₃ h₄ : Hex) (v : List UInt8), u ≠ h₁.1 :: h₂.1 :: h₃.1 :: h₄.1 :: v) :
      BadElem (0x5c :: 0x75 :: u)

lemma unescape_some {c} (h : unescape c = some b) : ∃ x : Escape, x.letter = c := by
  unfold unescape at h
  split at h
  · rename_i hc
    rcases hc with rfl | rfl | rfl
    · exact ⟨.quote, rfl⟩
    · exact ⟨.backslash, rfl⟩
    · exact ⟨.slash, rfl⟩
  split at h
  · exact ⟨.b, by rename_i hc; exact hc.symm⟩
  split at h
  · exact ⟨.f, by rename_i hc; exact hc.symm⟩
  split at h
  · exact ⟨.n, by rename_i hc; exact hc.symm⟩
  split at h
  · exact ⟨.r, by rename_i hc; exact hc.symm⟩
  split at h
  · exact ⟨.t, by rename_i hc; exact hc.symm⟩
  · cases h

lemma elem_or_bad (b : UInt8) (u : List UInt8) (hb : b ≠ 0x22) :
    (∃ (x : StrElem) (v : List UInt8), b :: u = x.text ++ v) ∨ BadElem (b :: u) := by
  by_cases hlo : b < 0x20
  · exact .inr (.control hlo)
  by_cases hback : b = 0x5c
  · subst hback
    cases u with
    | nil => exact .inr .open
    | cons c v =>
      by_cases hu : c = 0x75
      · subst hu
        by_cases hex : ∃ (h₁ h₂ h₃ h₄ : Hex) (v' : List UInt8),
            v = h₁.1 :: h₂.1 :: h₃.1 :: h₄.1 :: v'
        · obtain ⟨h₁, h₂, h₃, h₄, v', rfl⟩ := hex
          exact .inl ⟨.ucode h₁ h₂ h₃ h₄, v', rfl⟩
        · exact .inr (.hex fun h₁ h₂ h₃ h₄ v' hv => hex ⟨h₁, h₂, h₃, h₄, v', hv⟩)
      · cases hesc : unescape c with
        | none => exact .inr (.escape hu hesc)
        | some =>
          obtain ⟨x, rfl⟩ := unescape_some hesc
          exact .inl ⟨.esc x, v, rfl⟩
  · exact .inl ⟨.plain b ((isPlain_iff b).mpr ⟨hlo, hb, hback⟩), u, rfl⟩

lemma parseUcodeCpLoop_cases : ∀ n ret {r : Reader} {u}, r.At e d u →
    (∃ (hs : List Hex) (v : List UInt8), hs.length = n ∧ u = hs.map (·.1) ++ v) ∨
      Fails (parseUcodeCpLoop n ret r)
  | 0, _, _, u, _ => .inl ⟨[], u, rfl, rfl⟩
  | n + 1, ret, r, [], h => by
    rw [parseUcodeCpLoop, Reader.getb, h.bufEmpty]
    exact .inr (fails_fail r .expectedHex)
  | n + 1, ret, r, b :: u, h => by
    rw [parseUcodeCpLoop, h.getb]
    cases hb : hexVal b with simp only [hb]
    | none =>
      exact .inr (fails_fail _ _)
    | some v =>
      rcases parseUcodeCpLoop_cases n (ret * 16 + v) (h.next) with
        ⟨hs, v', hlen, rfl⟩ | hfail
      · exact .inl ⟨⟨b, by rw [hb]; rfl⟩ :: hs, v', congrArg (· + 1) hlen, rfl⟩
      · exact .inr hfail

lemma parseUcodeCp_bad (h : r.At e d u)
    (hu : ∀ (h₁ h₂ h₃ h₄ : Hex) (v : List UInt8), u ≠ h₁.1 :: h₂.1 :: h₃.1 :: h₄.1 :: v) :
    Fails (parseUcodeCp r) := by
  rcases parseUcodeCpLoop_cases 4 0 h with ⟨hs, v, hlen, heq⟩ | hfail
  · match hs, hlen with
    | [h₁, h₂, h₃, h₄], _ => exact absurd heq (hu h₁ h₂ h₃ h₄ v)
  · exact hfail

lemma copyStrLoop_bad (hu : BadElem u) (h : r.At e d u)
    (hn : u.length < n) (buf : Option Nat) (pos : Nat) (out : List UInt8) :
    Fails (copyStrLoop n r buf pos false out) := by
  obtain ⟨n, rfl⟩ : ∃ m, n = m + 1 := ⟨n - 1, by omega⟩
  cases hu with
  | control hb =>
    rename_i b u
    have hq : b ≠ 0x22 := by
      rintro rfl
      exact absurd hb (by decide)
    rw [copyStrLoop]
    simp only [h.bufEmpty, h.peekb, h.getb, hb, beq_eq_false_iff_ne.mpr hq]
    exact fails_fail _ _
  | «open» =>
    obtain ⟨n, rfl⟩ : ∃ m, n = m + 1 := ⟨n - 1, by simp at hn; omega⟩
    rw [copyStrLoop]
    simp only [h.bufEmpty, h.peekb, h.getb]
    rw [copyStrLoop, h.next.bufEmpty]
    exact fails_fail _ _
  | escape hc hnone =>
    rename_i c u
    obtain ⟨n, rfl⟩ : ∃ m, n = m + 1 := ⟨n - 1, by simp at hn; omega⟩
    rw [copyStrLoop]
    simp only [h.bufEmpty, h.peekb, h.getb]
    have h' := h.next
    rw [copyStrLoop, h'.bufEmpty]
    by_cases hlo : c < 0x20
    · simp [h'.getb, hlo, fails_fail]
    · simp [h'.getb, hlo, hc, hnone, fails_fail]
  | hex hu =>
    obtain ⟨n, rfl⟩ : ∃ m, n = m + 1 := ⟨n - 1, by simp at hn; omega⟩
    rw [copyStrLoop]
    simp only [h.bufEmpty, h.peekb, h.getb]
    have h' := h.next
    obtain ⟨hnone, herr⟩ := parseUcodeCp_bad h'.next hu
    rw [copyStrLoop, h'.bufEmpty]
    rcases hcp : parseUcodeCp { r with off := r.off + 1 + 1 } with ⟨_, _⟩
    rw [hcp] at hnone herr
    subst hnone
    simp [h'.getb, parseUcodeEsc, hcp, Fails, herr]

lemma copyStrLoop_zero {x : StrElem} (hx : isZero x) (h : r.At e d (x.text ++ u))
    (hn : (x.text ++ u).length < n) (pos : Nat) (out : List UInt8) :
    ∃ r', copyStrLoop n r none pos false out = (none, r') ∧ r'.At e d u := by
  cases x with
  | plain | esc => cases hx
  | ucode h₁ h₂ h₃ h₄ =>
    obtain ⟨n, rfl⟩ : ∃ m, n = m + 2 := ⟨n - 2, by simp [StrElem.text] at hn; omega⟩
    simp only [StrElem.text] at h
    have h' := h.next
    obtain ⟨r', hcp, hat⟩ := parseUcodeCp_at h₁ h₂ h₃ h₄ h'.next
    rw [eq_of_beq hx] at hcp
    refine ⟨r', ?_, hat⟩
    simp [copyStrLoop, h.bufEmpty, h.peekb, h.getb, h'.bufEmpty, h'.getb, parseUcodeEsc, hcp]

/-- What `copy_str` has read: a string, or its part up to a `\u0000`. -/
def StringRead (e : Env) (d : Nat) (buf : Option Nat) (t : List UInt8)
    (out : Option (List UInt8) × Reader) : Prop :=
  Fails out ∨
  (∃ (s : List StrElem) (u str : List UInt8) (r' : Reader), t = strText s ++ 0x22 :: u ∧
    out = (some str, r') ∧ r'.At e d u) ∨
  (buf = none ∧ ∃ (s : List StrElem) (x : StrElem) (u : List UInt8) (r' : Reader),
    t = strText s ++ (x.text ++ u) ∧ isZero x = true ∧ out = (none, r') ∧ r'.At e d u)

lemma StringRead.cons {buf out} (h : StringRead e d buf u out) (x : StrElem) :
    StringRead e d buf (x.text ++ u) out := by
  rcases h with hfail | ⟨s, v, str, r', rfl, hout, hat⟩ | ⟨hbuf, s, y, v, r', rfl, hy, hout, hat⟩
  · exact .inl hfail
  · exact .inr (.inl ⟨x :: s, v, str, r', (append_assoc _ _ _).symm, hout, hat⟩)
  · exact .inr (.inr ⟨hbuf, x :: s, y, v, r', (append_assoc _ _ _).symm, hy, hout, hat⟩)

variable (buf : Option Nat)

lemma copyStrLoop_one {x : StrElem}
    (h : r.At e d (x.text ++ u)) (hn : (x.text ++ u).length < n) (pos : Nat)
    (str : List UInt8) :
    StringRead e d buf (x.text ++ u) (copyStrLoop n r buf pos false str) ∨
    ∃ r' m pos' str', r'.At e d u ∧ u.length < m ∧
      copyStrLoop n r buf pos false str = copyStrLoop m r' buf pos' false str' := by
  rw [length_append] at hn
  cases buf with
  | some len =>
    obtain ⟨r', k, h', _, hstep⟩ := copyStrLoop_elem len x pos str h
    obtain ⟨m, rfl⟩ : ∃ m, n = m + k := ⟨n - k, by omega⟩
    rw [hstep m]
    split
    · exact .inr ⟨r', m, _, _, h', by omega, rfl⟩
    · exact .inl (.inl (fails_fail _ _))
  | none =>
    cases hx : isZero x with
    | true =>
      obtain ⟨r', heq, h'⟩ := copyStrLoop_zero hx h (by rwa [length_append]) pos str
      exact .inl (.inr (.inr ⟨rfl, [], x, u, r', rfl, hx, heq, h'⟩))
    | false =>
      obtain ⟨r', k, pos', h', _, hstep⟩ := copyStrLoop_skip_elem x pos str hx h
      obtain ⟨m, rfl⟩ : ∃ m, n = m + k := ⟨n - k, by omega⟩
      exact .inr ⟨r', m, pos', str, h', by omega, hstep m⟩

lemma elem_text_pos (x : StrElem) : 0 < x.text.length := by cases x <;> exact Nat.succ_pos _

lemma copyStrLoop_read : ∀ m {r : Reader} {t : List UInt8} {n pos} {str},
    t.length ≤ m → r.At e d t → t.length < n →
    StringRead e d buf t (copyStrLoop n r buf pos false str)  := by
  intro m
  induction m with intro r t n pos str hm h hn
  | zero =>
    obtain rfl := eq_nil_of_length_eq_zero (Nat.le_zero.1 hm)
    rcases n with _ | n
    · omega
    rw [copyStrLoop, h.bufEmpty]
    exact .inl (fails_fail _ _)
  | succ m ih =>
    rcases n with _ | n
    · omega
    cases t with
    | nil =>
      rw [copyStrLoop, h.bufEmpty]
      exact .inl (fails_fail _ _)
    | cons b u =>
      by_cases hq : b = 0x22
      · subst hq
        refine .inr (.inl ⟨[], u, str, { r with off := r.off + 1 }, rfl, ?_, h.next⟩)
        rw [copyStrLoop]
        simp [h.bufEmpty, h.peekb, h.getb]
      rcases elem_or_bad b u hq with ⟨x, v, hv⟩ | hbad
      · rw [hv] at h hn hm ⊢
        have hpos := elem_text_pos x
        rw [length_append] at hm
        rcases copyStrLoop_one buf h hn pos str with hread | ⟨_, _, _, _, h', hm', heq⟩
        · exact hread
        · rw [heq]
          exact (ih (by omega) h' hm').cons x
      · exact .inl (copyStrLoop_bad hbad h hn buf pos str)

lemma copyStr_read (h : r.At e d (0x22 :: t)) : StringRead e d buf t (copyStr r buf) := by
  obtain ⟨_, heat, h'⟩ := h.eatb
  rw [copyStr, heat]
  exact copyStrLoop_read buf t.length (Nat.le_refl _) h' (by rw [h'.fuel]; omega)

/-! ## Names -/

lemma copyIdStrLoop_open : ∀ {t : List UInt8} {r : Reader} n out,
    (0x22 : UInt8) ∉ t → r.At e d t → t.length < n → Fails (copyIdStrLoop n r out)
  | [], r, n + 1, out, _, h, _ => by
    rw [copyIdStrLoop, h.bufEmpty]
    exact fails_fail _ _
  | b :: t, r, n + 1, out, hq, h, hn => by
    rw [mem_cons, not_or] at hq
    rw [copyIdStrLoop]
    simp only [h.bufEmpty, h.peekb, h.getb, Ne.symm hq.1]
    by_cases hmax : out.length ≥ ujsonIdMax - 1
    · simp [hmax, fails_fail]
    · simp only [hmax]
      exact copyIdStrLoop_open n (out ++ [b]) hq.2 (h.next) (by simpa using hn)

lemma copyIdStr_read (h : r.At e d t) : Fails (copyIdStr r) ∨
    ∃ (w w₁ : Ws) (bs u : List UInt8) (r' : Reader), (0x22 : UInt8) ∉ bs ∧
      t = w.1 ++ 0x22 :: (bs ++ 0x22 :: (w₁.1 ++ 0x3a :: u)) ∧
      copyIdStr r = (some bs, r') ∧ r'.At e d u := by
  obtain ⟨w, t₁, _, rfl, -, hws, h₁⟩ := eatws_split h
  rw [copyIdStr, hws]
  cases t₁ with
  | nil => exact .inl (fails_fail _ _)
  | cons =>
    rcases eatb_cases h₁ 0x22 (by decide) with ⟨u₁, r₂, hu₁, heat, h₂⟩ | ⟨heat, -⟩
    · have hfuel : u₁.length < r₂.json.length - r₂.off + 1 := by rw [h₂.fuel]; omega
      simp only [isEmpty_cons, heat]
      by_cases hq : (0x22 : UInt8) ∈ u₁
      · obtain ⟨bs, v, rfl, hbs⟩ := eq_append_cons_of_mem hq
        rw [length_append] at hfuel
        have hne : ∀ c ∈ bs, c ≠ 0x22 := fun c hc => ne_of_mem_of_not_mem hc hbs
        by_cases hmax : bs.length < ujsonIdMax
        · obtain ⟨_, hloop, h₃⟩ := copyIdStrLoop_at bs (r₂.json.length - r₂.off + 1) [] hne h₂
            (by omega) (by simpa using hmax)
          obtain ⟨w₁, v₁, _, rfl, -, hws₁, h₄⟩ := eatws_split h₃
          simp only [hloop, hws₁]
          cases v₁ with
          | nil => exact .inl (fails_fail _ _)
          | cons =>
            rcases eatb_cases h₄ 0x3a (by decide) with
              ⟨u, r₅, hu, heat₅, h₅⟩ | ⟨heat₅, -⟩
            · simp only [isEmpty_cons, heat₅]
              exact .inr ⟨w, w₁, bs, u, r₅, hbs, by rw [hu₁, hu], by simp, h₅⟩
            · simp only [isEmpty_cons, heat₅]
              exact .inl (fails_fail _ _)
        · obtain ⟨_, hloop, herr⟩ := copyIdStrLoop_long bs
            (r₂.json.length - r₂.off + 1) [] hne h₂ (by omega) (by decide) (by simpa using hmax)
          simp only [hloop]
          exact .inl ⟨rfl, herr⟩
      · have hopen := copyIdStrLoop_open _ [] hq h₂ hfuel
        rcases hloop : copyIdStrLoop (r₂.json.length - r₂.off + 1) r₂ [] with ⟨_, _⟩
        rw [hloop] at hopen
        obtain ⟨rfl, herr⟩ := hopen
        exact .inl ⟨rfl, herr⟩
    · simp only [isEmpty_cons, heat]
      exact .inl (fails_fail _ _)

lemma nameAt_eq (w w₁ : Ws) {bs} (hbs : (0x22 : UInt8) ∉ bs) (u : List UInt8) :
    nameAt (w.1 ++ 0x22 :: (bs ++ 0x22 :: (w₁.1 ++ 0x3a :: u))) = bs ∧
      afterName (w.1 ++ 0x22 :: (bs ++ 0x22 :: (w₁.1 ++ 0x3a :: u))) = u := by
  have hne : ∀ c ∈ bs, (c != 0x22) := fun c hc =>
    bne_iff_ne.2 (ne_of_mem_of_not_mem hc hbs)
  rw [nameAt, afterName, skipWs_cons w rfl, drop_one, tail_cons,
    takeWhile_append_of_pos hne, dropWhile_append_of_pos hne,
    takeWhile_cons_of_neg (by decide), append_nil]
  refine ⟨rfl, ?_⟩
  change (skipWs (w₁.1 ++ 0x3a :: u)).drop 1 = u
  rw [skipWs_cons w₁ rfl]
  rfl

/-! ## Numbers -/

def FailsB (out : Bool × Reader) : Prop := out.1 = false ∧ out.2.err ≠ none

lemma failsB_fail (r : Reader) (x : ReaderErr) : FailsB (false, r.fail x) := ⟨rfl, nofun⟩

lemma digits_split (hb : isDigit b) (t : List UInt8) :
    ∃ (ds : Digits) (u : List UInt8), b :: t = ds.bytes ++ u ∧ NoDigit u := by
  refine ⟨⟨(b :: t).takeWhile isDigit, ?_, all_eq_true.1 all_takeWhile⟩,
    (b :: t).dropWhile isDigit, takeWhile_append_dropWhile.symm, fun c hc => ?_⟩
  · rw [takeWhile_cons_of_pos hb]
    exact cons_ne_nil _ _
  have hne : (b :: t).dropWhile isDigit ≠ [] := by
    intro h
    rw [h] at hc
    cases hc
  have hhead := head_dropWhile_not isDigit hne
  rw [head?_eq_some_head hne] at hc
  rwa [Option.some.inj hc] at hhead

lemma eatDigits_read (h : r.At e d t) : FailsB (eatDigits r) ∨
    ∃ (ds : Digits) (u : List UInt8) (r' : Reader), t = ds.bytes ++ u ∧ NoDigit u ∧
      eatDigits r = (true, r') ∧ r'.At e d u := by
  by_cases hd : isDigit r.peekb
  · cases t with
    | nil =>
      rw [h.peekb_nil] at hd
      cases hd
    | cons b t =>
      rw [h.peekb] at hd
      obtain ⟨ds, u, hsplit, hu⟩ := digits_split hd t
      rw [hsplit] at h ⊢
      obtain ⟨r', heat, h'⟩ := eatDigits_at hu h
      exact .inr ⟨ds, u, r', rfl, hu, heat, h'⟩
  · rw [eatDigits, if_pos (by simpa using hd)]
    exact .inl (failsB_fail _ _)

lemma eatExponent_read (h : r.At e d t) : FailsB (eatExponent r) ∨
    ∃ (sign : Option Bool) (ds : Digits) (u : List UInt8) (r' : Reader),
      t = signText sign ++ (ds.bytes ++ u) ∧ NoDigit u ∧
      eatExponent r = (true, r') ∧ r'.At e d u := by
  -- the sign, and then the digits
  obtain ⟨sign, t₁, r₁, rfl, hsign, h₁⟩ : ∃ (sign : Option Bool) (t₁ : List UInt8) (r₁ : Reader),
      t = signText sign ++ t₁ ∧ (r.eatb2 0x2b 0x2d).2 = r₁ ∧ r₁.At e d t₁ := by
    cases t with
    | nil =>
      refine ⟨none, [], r, rfl, ?_, h⟩
      rw [Reader.eatb2, h.peekb_nil, if_pos (by decide)]
    | cons b u =>
      by_cases hplus : b = 0x2b
      · subst hplus
        obtain ⟨r₁, heat, h₁⟩ := h.eatb2_left 0x2d
        exact ⟨some false, u, r₁, rfl, by rw [heat], h₁⟩
      by_cases hminus : b = 0x2d
      · subst hminus
        obtain ⟨r₁, heat, h₁⟩ := h.eatb2_right 0x2b
        exact ⟨some true, u, r₁, rfl, by rw [heat], h₁⟩
      · refine ⟨none, b :: u, r, rfl, ?_, h⟩
        rw [Reader.eatb2, h.peekb, if_pos ⟨hplus, hminus⟩]
  rw [eatExponent, hsign]
  rcases eatDigits_read h₁ with hfail | ⟨ds, u, r', rfl, hu, heat, h'⟩
  · exact .inl hfail
  · exact .inr ⟨sign, ds, u, r', rfl, hu, heat, h'⟩

lemma noLeadingZero_of_test {ds : Digits} (h : r.At e d (ds.bytes ++ t))
    (htest : ¬ (r.peekb = 0x30 ∧ isDigit (r.peekbOff 1))) :
    ds.bytes.head? = some 0x30 → ds.bytes.length = 1 := by
  obtain ⟨bytes, hne, hdigit⟩ := ds
  intro hhead
  match bytes, hne, hdigit, h, hhead with
  | [_], _, _, _, _ => rfl
  | b :: c :: bs, _, hdigit, h, hhead =>
    refine absurd ⟨?_, ?_⟩ htest
    · rw [h.peekb]
      exact Option.some.inj hhead
    · rw [h.peekbOff]
      exact hdigit c (mem_cons_of_mem _ mem_cons_self)

def NumStart (t : List UInt8) : Prop := ∃ b u, t = b :: u ∧ (b = 0x2d ∨ isDigit b = true)

lemma eatSign_read (ht : NumStart t) (h : r.At e d t) :
    ∃ neg u r', t = (if neg then [0x2d] else []) ++ u ∧
      (neg = false → ∃ b v, u = b :: v ∧ isDigit b) ∧
      r.eatb 0x2d = (neg, r') ∧ r'.At e d u := by
  obtain ⟨b, u, rfl, hb⟩ := ht
  rcases eatb_cases h 0x2d (by decide) with ⟨v, r', hv, heat, h'⟩ | ⟨heat, hne⟩
  · exact ⟨true, v, r', hv, nofun, heat, h'⟩
  · have hb' : isDigit b := hb.resolve_left fun h0 => hne (by rw [h0]; rfl)
    exact ⟨false, b :: u, r, rfl, fun _ => ⟨b, u, rfl, hb'⟩, heat, h⟩

def intNumber (neg : Bool) (ds : Digits)
    (hzero : ds.bytes.head? = some 0x30 → ds.bytes.length = 1) : Number :=
  { neg := neg, int := ds, noLeadingZero := hzero, frac := none, exp := none }

lemma intNumber_text (neg : Bool) (ds : Digits)
    (hzero : ds.bytes.head? = some 0x30 → ds.bytes.length = 1) (t : List UInt8) :
    (intNumber neg ds hzero).text ++ t = (if neg then [0x2d] else []) ++ (ds.bytes ++ t) := by
  cases neg <;> simp [Number.text, intNumber, Number.tailText, fracText, expText]

lemma getInt_read (ht : NumStart t) (h : r.At e d t) : Fails (getInt r) ∨
    ∃ (n : Number) (u : List UInt8) (v : Int) (r' : Reader), n.isInt ∧ t = n.text ++ u ∧
      NoDigit u ∧ getInt r = (some v, r') ∧ r'.At e d u := by
  obtain ⟨neg, t₁, r₁, rfl, hpos, heat, h₁⟩ := eatSign_read ht h
  by_cases hd : isDigit r₁.peekb
  · by_cases hzero : r₁.peekb = 0x30 ∧ isDigit (r₁.peekbOff 1)
    · rw [getInt, heat]
      dsimp only
      rw [if_neg (by simp [hd]), if_pos hzero]
      exact .inl (fails_fail _ _)
    cases t₁ with
    | nil =>
      rw [h₁.peekb_nil] at hd
      cases hd
    | cons b t₁ =>
      rw [h₁.peekb] at hd
      obtain ⟨ds, u, hsplit, hu⟩ := digits_split hd t₁
      rw [hsplit] at h h₁ ⊢
      have hnlz := noLeadingZero_of_test h₁ hzero
      rw [← intNumber_text neg ds hnlz] at h ⊢
      obtain ⟨r', hget, h'⟩ := getInt_at (n := intNumber neg ds hnlz) rfl hu h
      exact .inr ⟨_, u, _, r', rfl, rfl, hu, hget, h'⟩
  · have hneg : neg := by
      cases neg with
      | true => rfl
      | false =>
        obtain ⟨b, v, rfl, hb⟩ := hpos rfl
        rw [h₁.peekb] at hd
        exact absurd hb hd
    rw [getInt, heat]
    simp only [hneg, Bool.eq_false_iff.2 hd, if_true]
    exact .inl (fails_fail _ _)

lemma exponent_read (hb : b = 0x65 ∨ b = 0x45) (h : r.At e d t) :
    FailsB (eatExponent r) ∨ ∃ (x : Exponent) (u : List UInt8) (r' : Reader),
      b :: t = x.text ++ u ∧ eatExponent r = (true, r') ∧ r'.At e d u := by
  rcases eatExponent_read h with hfail | ⟨sign, ds, u, r', rfl, -, heat, h'⟩
  · exact .inl hfail
  · refine .inr ⟨⟨b == 0x45, sign, ds⟩, u, r', ?_, heat, h'⟩
    rcases hb with rfl | rfl <;> simp [Exponent.text]

lemma maybeExponent_read (h : r.At e d t) : FailsB (match r.eatb2 0x65 0x45 with
      | (false, r) => (true, r)
      | (true, r) => eatExponent r) ∨
    ∃ (x : Option Exponent) (u : List UInt8) (r' : Reader), t = expText x ++ u ∧
      (match r.eatb2 0x65 0x45 with
        | (false, r) => (true, r)
        | (true, r) => eatExponent r) = (true, r') ∧ r'.At e d u := by
  cases t with
  | nil =>
    rw [Reader.eatb2, h.peekb_nil]
    exact .inr ⟨none, [], r, rfl, rfl, h⟩
  | cons b u =>
    by_cases hb : b = 0x65 ∨ b = 0x45
    · have heat : r.eatb2 0x65 0x45 = (true, { r with off := r.off + 1 }) := by
        rw [Reader.eatb2, h.peekb, h.getb, if_neg]
        rintro ⟨h₁, h₂⟩
        exact hb.elim h₁ h₂
      rw [heat]
      rcases exponent_read hb h.next with hfail | ⟨x, v, r', hx, hexp, h'⟩
      · exact .inl hfail
      · exact .inr ⟨some x, v, r', hx, hexp, h'⟩
    · rw [not_or] at hb
      rw [Reader.eatb2, h.peekb, if_pos hb]
      exact .inr ⟨none, b :: u, r, rfl, rfl, h⟩

def endsInt (x : UInt8) : Prop := isDigit x = false ∧ x ≠ 0x2e ∧ x ≠ 0x65 ∧ x ≠ 0x45

lemma getFloat_read (ht : NumStart t) (hnum : numEnd t = false) (h : r.At e d t) :
    FailsB (getFloat r) ∨
    (∃ (n : Number) (u : List UInt8) (r' : Reader), t = n.text ++ u ∧
      getFloat r = (true, r') ∧ r'.At e d u) ∨
    ∃ (n : Number) (x : UInt8) (u : List UInt8) (r' : Reader), n.isInt ∧ endsInt x ∧
      t = n.text ++ x :: u ∧ getFloat r = (true, r') ∧ r'.At e d u := by
  obtain ⟨neg, _, r₁, rfl, -, heat, h₁⟩ := eatSign_read ht h
  rw [getFloat, heat]
  dsimp only
  by_cases hzero : r₁.peekb = 0x30 ∧ isDigit (r₁.peekbOff 1)
  · rw [if_pos hzero]
    exact .inl (failsB_fail _ _)
  rw [if_neg hzero]
  rcases eatDigits_read h₁ with hfail | ⟨ds, u, r₂, rfl, hu, heat₂, h₂⟩
  · rcases heat₂ : eatDigits r₁ with ⟨ok, r₂⟩
    rw [heat₂] at hfail
    obtain ⟨rfl, herr⟩ := hfail
    exact .inl ⟨rfl, herr⟩
  have hnlz := noLeadingZero_of_test h₁ hzero
  rw [heat₂]
  dsimp only
  cases u with
  | nil =>
    rw [← intNumber_text neg ds hnlz, numEnd_number] at hnum
    cases hnum
  | cons x u =>
    rw [h₂.getb]
    by_cases hpoint : x = 0x2e
    · subst hpoint
      rcases eatDigits_read h₂.next with hfail | ⟨frac, v, r₃, rfl, -, heat₃, h₃⟩
      · rcases heat₃ : eatDigits { r₂ with off := r₂.off + 1 } with ⟨ok, r₃⟩
        rw [heat₃] at hfail
        obtain ⟨rfl, herr⟩ := hfail
        exact .inl ⟨rfl, herr⟩
      rw [heat₃]
      rcases maybeExponent_read h₃ with hfail | ⟨exp, v', r', rfl, hmatch, h'⟩
      · exact .inl hfail
      · refine .inr (.inl ⟨⟨neg, ds, hnlz, some frac, exp⟩, v', r', ?_, hmatch, h'⟩)
        cases neg <;> simp [Number.text, Number.tailText, fracText]
    · rw [if_neg hpoint]
      by_cases hexp : x = 0x65 ∨ x = 0x45
      · rw [if_pos hexp]
        rcases exponent_read hexp h₂.next with hfail | ⟨exp, v, r', hx, heat₃, h'⟩
        · exact .inl hfail
        refine .inr (.inl ⟨⟨neg, ds, hnlz, none, some exp⟩, v, r', ?_, heat₃, h'⟩)
        rw [hx]
        cases neg <;> simp [Number.text, Number.tailText, fracText, expText]
      · rw [if_neg hexp]
        refine .inr (.inr ⟨intNumber neg ds hnlz, x, u, _, rfl, ⟨hu x rfl, hpoint, ?_, ?_⟩,
          (intNumber_text neg ds hnlz _).symm, rfl, h₂.next⟩)
        · exact fun h0 => hexp (.inl h0)
        · exact fun h0 => hexp (.inr h0)

lemma afterInt_number {n : Number} (hint : n.isInt) (hu : NoDigit u) :
    afterInt (n.text ++ u) = u := by
  obtain ⟨neg, ds, hnlz, frac, exp⟩ := n
  obtain ⟨rfl, rfl⟩ : frac = none ∧ exp = none := by simpa [Number.isInt] using hint
  have hdrop : (ds.bytes ++ u).dropWhile isDigit = u := by
    rw [dropWhile_append_of_pos ds.digit]
    cases u with
    | nil => rfl
    | cons b =>
      have hb := hu b rfl
      rw [dropWhile_cons_of_neg (by rw [hb]; decide)]
  have htext := intNumber_text neg ds hnlz u
  rw [intNumber] at htext
  rw [htext, afterInt]
  cases neg with
  | true => exact hdrop
  | false =>
    obtain ⟨b, _, hb⟩ := exists_cons_of_ne_nil ds.ne
    have hhead : ((if false = true then [0x2d] else [] : List UInt8) ++ (ds.bytes ++ u)).head? ≠
        some 0x2d := by
      intro h0
      rw [hb] at h0
      have hd := ds.digit b (by rw [hb]; exact mem_cons_self)
      rw [Option.some.inj h0] at hd
      cases hd
    rw [if_neg hhead]
    exact hdrop

end leaves

end LtpDdt.Ujson
