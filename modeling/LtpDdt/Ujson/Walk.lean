/-
Ujson.Walk — the walk over a whole text with `UJSON_OBJ_FOREACH` and
`UJSON_ARR_FOREACH`, and what it should see.

`walkLoop` is the `for` loop of the macros: while the value is valid, record it, descend
into it if it is a container, ask for the next one. The recursion is bounded by the
number of bytes, which no walk exceeds.

`seqMeaning` is what a walk should record, read off the grammar tree.

`Arrived`: at the end of the container, at a scalar just read, before the bracket
of a container inside, or with the error set because a name or string was refused.
From then on every call leaves the value void, so all the loops end and the error
stays. Else the walk sees what the text says.

Main result: `walk_reads_iff`.
-/
import LtpDdt.Ujson.ValueTheorems

namespace LtpDdt.Ujson

open Json

/-- The members in order, each with its id (none in an array), its type and, for integers, booleans
and strings, its value. -/
inductive Seen where
  | nil
  | scalar (id : List UInt8) (type : UType) (val : Payload) (next : Seen)
  | sub (id : List UInt8) (kind : Kind) (inner next : Seen)
  deriving DecidableEq

/-- The value of a `struct ujson_val`, as far as its type says it has one. -/
def Val.payload (res : Val) : Payload :=
  match res.type with
  | .int | .bool | .str => res.val
  | _ => .unset

def firstOf : Kind → Reader → Val → Bool × Reader × Val
  | .arr => ujsonArrFirst
  | .obj => ujsonObjFirst

def nextOf : Kind → Reader → Val → Bool × Reader × Val
  | .arr => ujsonArrNext
  | .obj => ujsonObjNext

def UType.kind? : UType → Option Kind
  | .arr => some .arr
  | .obj => some .obj
  | _ => none

/-- The id as a loop over a container of kind `k` sees it. -/
def Val.idIn (res : Val) : Kind → List UInt8
  | .arr => []
  | .obj => res.id

/-- The loop over a container, from a value on, with string buffers of the given size. -/
def walkLoop (buf : Option Nat) : Nat → Kind → Reader × Val → Seen × Reader
  | 0, _, (r, _) => (.nil, r)
  | n + 1, k, (r, res) =>
    if res.type = .void then (.nil, r)
    else
      match res.type.kind? with
      | some k' =>
        let (inner, r) := walkLoop buf n k' (firstOf k' r { bufSize := buf }).2
        let (next, r) := walkLoop buf n k (nextOf k r res).2
        (.sub (res.idIn k) k' inner next, r)
      | none =>
        let (next, r) := walkLoop buf n k (nextOf k r res).2
        (.scalar (res.idIn k) res.type res.payload next, r)

/-- The walk over a text: the type of the text, what was seen, and the
reader. -/
def walk (buf : Option Nat) (r : Reader) : UType × Seen × Reader :=
  match ujsonReaderStart r with
  | (type, r) =>
    match type.kind? with
    | some k =>
      let (seen, r) := walkLoop buf (r.json.length + 1) k (firstOf k r { bufSize := buf }).2
      (type, seen, r)
    | none => (type, .nil, r)

/-! ## What there is to see -/

def scalarMeaning : Scalar → Payload
  | .num n => if n.isInt then .int n.value else .unset
  | .bool b => .bool b
  | .null => .unset
  | .str s => .str (strDecode s)

def keyMeaning : {k : Kind} → Key k → List UInt8
  | _, .elem => []
  | _, .name s _ _ => strDecode s

def seqMeaning : {k : Kind} → Seq k → Seen
  | _, .nil _ => .nil
  | _, .scalar _ _ key v next =>
    .scalar (keyMeaning key) (scalarType v) (scalarMeaning v) (seqMeaning next)
  | _, .sub _ _ key k' inner next => .sub (keyMeaning key) k' (seqMeaning inner) (seqMeaning next)

/-! ## The texts -/

/-- A `\u` escape that is neither zero nor a surrogate. -/
def UcodeOk : StrElem → Prop
  | .ucode h₁ h₂ h₃ h₄ =>
    let cp := codePoint h₁ h₂ h₃ h₄
    0 < cp ∧ ¬ (0xd800 ≤ cp ∧ cp ≤ 0xdfff)
  | _ => True

def longMax : Nat := 2 ^ 63 - 1

/-- In the reader's range, with a buffer of `len` bytes for strings and their terminating zero. -/
def ScalarLimits (len : Nat) : Scalar → Prop
  | .num n => n.isInt = true → n.value.natAbs ≤ longMax
  | .str s => (strDecode s).length < len ∧ ∀ x ∈ s, UcodeOk x
  | _ => True

def isPlainElem : StrElem → Bool
  | .plain .. => true
  | _ => false

def KeyLimits : {k : Kind} → Key k → Prop
  | _, .elem => True
  | _, .name s _ _ => (∀ x ∈ s, isPlainElem x = true) ∧ (strDecode s).length ≤ 63

/-- Ids of at most 63 bytes without backslashes, integers up to `LONG_MAX`, strings that fit `len`
bytes. -/
def SeqLimits (len : Nat) : {k : Kind} → Seq k → Prop
  | _, .nil _ => True
  | _, .scalar _ _ key v next => KeyLimits key ∧ ScalarLimits len v ∧ SeqLimits len next
  | _, .sub _ _ key _ inner next => KeyLimits key ∧ SeqLimits len inner ∧ SeqLimits len next

/-- It ends in a `\u` escape and fills the buffer with its terminating zero. -/
def ScalarFills (len : Nat) : Scalar → Prop
  | .str s => endsInUcode s = true ∧ (strDecode s).length + 1 = len
  | _ => False

def SeqFills (len : Nat) : {k : Kind} → Seq k → Prop
  | _, .nil _ => False
  | _, .scalar _ _ _ v next => ScalarFills len v ∨ SeqFills len next
  | _, .sub _ _ _ _ inner next => SeqFills len inner ∨ SeqFills len next

structure DocLimits (len : Nat) (doc : Doc) : Prop where
  nesting : doc.nesting ≤ 128
  items : SeqLimits len doc.items

/-- A walk over the text records its members, in order and with their
values, leaves no error, ends at depth 0 and consumes the text. -/
def WalkReads (len : Nat) (strict : Bool) (doc : Doc) : Prop :=
  ∃ r, walk (some len) { json := doc.text, strict := strict } =
      (kindType doc.kind, seqMeaning doc.items, r) ∧
    r.err = none ∧ r.depth = 0 ∧ r.off = doc.text.length

open List

/-! ## Steps of the reader between members -/

section Steps

variable {r : Reader} {e : Env} {d : Nat} {b c : UInt8} {w wt : Ws} {t : List UInt8}

/-- The end, or a byte that is neither white space nor zero. -/
def AfterClose (t : List UInt8) : Prop := ∀ b, t.head? = some b → isWs b = false ∧ b ≠ 0

lemma Reader.At.withDepth (h : r.At e d t) {d' : Nat} (hd : d' ≤ ujsonRecursionMax) :
    Reader.At { r with depth := d' } e d' t :=
  ⟨h.json, h.strict, h.maxDepth, h.rest, h.off, rfl, hd, h.err⟩

/-- Below the limit `depth` counts without a wrap-around. -/
lemma depth_up (h : d < 128) : (d + 1) % 2 ^ 32 = d + 1 := by omega

lemma depth_down (hpos : 0 < d) (h : d ≤ ujsonRecursionMax) :
    (d + (2 ^ 32 - 1)) % 2 ^ 32 = d - 1 := by
  unfold ujsonRecursionMax at h
  omega

lemma afterClose_nil : AfterClose [] := by
  intro b hb
  simp at hb

/-- Behind a closing bracket a zero is only met at the end. -/
lemma Reader.At.eatb_zero (h : r.At e d t) (ht : AfterClose t) : ∃ b, r.eatb 0 = (b, r) := by
  cases t with
  | nil =>
    refine ⟨true, ?_⟩
    have hempty := h.bufEmpty
    simp [Reader.eatb, h.peekb_nil, Reader.getb, hempty]
  | cons b => exact ⟨false, h.eatb_ne (ht b rfl).2⟩

/-- At the closing bracket the container is left. -/
lemma checkEnd_close (res : Val) (hb : isWs b = false) (ht : AfterClose t) (hpos : 0 < d)
    (h : r.At e d (w.1 ++ b :: (wt.1 ++ t))) :
    ∃ r', checkEnd r res b = (true, r', { res with type := .void }) ∧ r'.At e (d - 1) t := by
  obtain ⟨_, he₁, h₁⟩ := h.eatws_cons hb
  obtain ⟨_, he₂, h₂⟩ := h₁.eatb
  obtain ⟨_, he₃, h₃⟩ := h₂.eatws wt.2 (fun c hc => (ht c hc).1)
  obtain ⟨z, hz⟩ := h₃.eatb_zero ht
  refine ⟨_, ?_, h₃.withDepth ((Nat.sub_le d 1).trans h₃.depth_le)⟩
  simp only [checkEnd, he₁, he₂, he₃, hz, h₃.depth, depth_down hpos h₃.depth_le]

/-- Before another byte `check_end` goes on. -/
lemma checkEnd_open (res : Val) (hc : isWs c = false) (hne : c ≠ b) (h : r.At e d (w.1 ++ c :: t)) :
    ∃ r', checkEnd r res b = (false, r', res) ∧ r'.At e d (c :: t) := by
  obtain ⟨r₁, he₁, h₁⟩ := h.eatws_cons hc
  exact ⟨r₁, by simp [checkEnd, he₁, h₁.eatb_ne hne], h₁⟩

/-- A comma is passed. -/
lemma preNext_at (res : Val) (hc : isWs c = false) (h : r.At e d (0x2c :: (w.1 ++ c :: t))) :
    ∃ r', preNext r res = (false, r', res) ∧ r'.At e d (c :: t) := by
  obtain ⟨_, he₁, h₁⟩ := h.eatb
  obtain ⟨r₂, he₂, h₂⟩ := h₁.eatws_cons hc
  exact ⟨r₂, by simp [preNext, he₁, he₂], h₂⟩

/-- An opening bracket is passed, one level down. -/
lemma anyFirst_at (hb : isWs b = false) (hd : d < 128) (h : r.At e d (w.1 ++ b :: t)) :
    ∃ r', anyFirst r b = (false, r') ∧ r'.At e (d + 1) t := by
  obtain ⟨_, he₁, h₁⟩ := h.eatws_cons hb
  obtain ⟨_, he₂, h₂⟩ := h₁.eatb
  refine ⟨_, ?_, h₂.withDepth hd⟩
  have hle : ¬ d + 1 > ujsonRecursionMax := by unfold ujsonRecursionMax; omega
  simp only [anyFirst, he₁, he₂, h₂.depth, h₂.maxDepth, depth_up hd, if_neg hle]

end Steps

/-! ## The two kinds of container -/

/-- `obj_next` and `arr_next`. -/
def memberNext : Kind → Reader → Val → Bool × Reader × Val
  | .arr => arrNext
  | .obj => objNext

lemma isWs_closing (k : Kind) : isWs k.closing = false := by cases k <;> rfl

lemma isWs_opening (k : Kind) : isWs k.opening = false := by cases k <;> rfl

/-- The first call on a container, without an error. -/
lemma firstOf_eq (k : Kind) (r : Reader) (res : Val) (h : r.err = none) : firstOf k r res =
      match anyFirst r k.opening with
      | (true, r) => (false, r, res)
      | (false, r) =>
        match checkEnd r res k.closing with
        | (true, r, res) => (false, r, res)
        | (false, r, res) => memberNext k r res := by
  cases k <;> simp only [firstOf, ujsonArrFirst, ujsonObjFirst, h] <;> rfl

/-- A later call, without an error. -/
lemma nextOf_eq (k : Kind) (r : Reader) (res : Val) (h : r.err = none) : nextOf k r res =
      match checkEnd r res k.closing with
      | (true, r, res) => (false, r, res)
      | (false, r, res) =>
        match preNext r res with
        | (true, r, res) => (false, r, res)
        | (false, r, res) => memberNext k r res := by
  cases k with
  | arr => simp only [nextOf, ujsonArrNext, h]; rfl
  | obj =>
    simp only [nextOf, ujsonObjNext, objPreNext, h, Kind.closing]
    rcases checkEnd r res 0x7d with ⟨_ | _, r₁, res₁⟩
    · rcases hp : preNext r₁ res₁ with ⟨_ | _, _, _⟩ <;> simp [hp, memberNext]
    · rfl

variable {r : Reader} {u : List UInt8} {k : Kind}

/-- With an error nothing is read. -/
lemma firstOf_err (k : Kind) (res : Val) (h : r.err ≠ none) :
    firstOf k r res = (false, r, { res with type := .void }) := by
  have hs : r.err.isSome := Option.isSome_iff_ne_none.mpr h
  cases k <;> simp [firstOf, ujsonArrFirst, ujsonObjFirst, hs]

/-- With an error nothing is read. -/
lemma nextOf_err (k : Kind) (res : Val) (h : r.err ≠ none) :
    nextOf k r res = (false, r, { res with type := .void }) := by
  have hs : r.err.isSome := Option.isSome_iff_ne_none.mpr h
  cases k <;> simp [nextOf, ujsonArrNext, ujsonObjNext, hs]

/-! ## Keys and values -/

/-- A value starts here: in an array that is not the closing bracket. -/
def ValueStart (t : List UInt8) : Prop := ∃ c u, t = c :: u ∧ isWs c = false ∧ c ≠ 0x5d

lemma ValueStart.scalar (v : Scalar) (t : List UInt8) : ValueStart (v.text ++ t) := by
  cases v with
  | num n =>
    obtain ⟨b, bs, hb, hbd⟩ := number_head n
    refine ⟨b, bs ++ t, by simp [Scalar.text, hb], (numStart_facts hbd).1, ?_⟩
    rintro rfl
    simp [isDigit] at hbd
  | bool b => cases b <;> exact ⟨_, _, rfl, rfl, by decide⟩
  | null | str => exact ⟨_, _, rfl, rfl, by decide⟩

lemma ValueStart.container (k : Kind) (t : List UInt8) : ValueStart (k.opening :: t) :=
  ⟨_, _, rfl, isWs_opening k, by cases k <;> decide⟩

def keyId : {k : Kind} → Key k → List UInt8
  | _, .elem => []
  | _, .name s _ _ => strText s

def KeyClean : {k : Kind} → Key k → Prop
  | _, .elem => True
  | _, .name s _ _ => ∀ b ∈ strText s, b ≠ 0x22

def KeyReads {k : Kind} (key : Key k) : Prop := (keyId key).length < ujsonIdMax

def storeKey : {k : Kind} → Key k → Val → Val
  | _, .elem, res => res
  | _, .name s _ _, res => { res with id := strText s }

section Members

variable {r : Reader} {e : Env} {d : Nat} {k : Kind} {w lead : Ws} {key : Key k}
  {t : List UInt8} {res : Val}

/-- What a member begins with is neither white space nor the end. -/
lemma key_start (key : Key k) (hv : ValueStart t) :
    ∃ c u, key.text ++ t = c :: u ∧ isWs c = false ∧ c ≠ k.closing := by
  cases key with
  | elem => exact hv
  | name => exact ⟨_, _, rfl, rfl, by decide⟩

/-- A name that is short enough is read. -/
lemma copyIdStr_key {key : Key .obj} (hc : KeyClean key) (hk : KeyReads key)
    (h : r.At e d (key.text ++ t)) :
    ∃ (r' : Reader) (w : Ws), copyIdStr r = (some (keyId key), r') ∧ r'.At e d (w.1 ++ t) := by
  rcases key with _ | ⟨s, ws₁, ws₂⟩
  have h' : r.At e d (Ws.empty.1 ++ 0x22 ::
      (strText s ++ 0x22 :: (ws₁.1 ++ 0x3a :: (ws₂.1 ++ t)))) := by
    simpa [Key.text, Ws.empty] using h
  obtain ⟨r₁, he, h₁⟩ := copyIdStr_at hc hk h'
  exact ⟨r₁, ws₂, he, h₁⟩

/-- A name that is too long is an error. -/
lemma copyIdStr_longKey {key : Key .obj} (hc : KeyClean key) (hk : ¬ KeyReads key)
    (h : r.At e d (key.text ++ t)) : ∃ r', copyIdStr r = (none, r') ∧ r'.err ≠ none := by
  rcases key with _ | ⟨s, ws₁, ws₂⟩
  have h' : r.At e d (Ws.empty.1 ++ 0x22 ::
      (strText s ++ 0x22 :: (ws₁.1 ++ 0x3a :: (ws₂.1 ++ t)))) := by
    simpa [Key.text, Ws.empty] using h
  exact copyIdStr_long hc (Nat.le_of_not_lt hk) h'

/-- Behind its key the value of a member is read. -/
lemma memberNext_key (hc : KeyClean key) (hk : KeyReads key)
    (h : r.At e d (key.text ++ t)) (res : Val) :
    ∃ (r' : Reader) (w : Ws), memberNext k r res = getValue r' (storeKey key res) ∧
      r'.At e d (w.1 ++ t) := by
  cases key with
  | elem => exact ⟨r, .empty, rfl, h⟩
  | name =>
    obtain ⟨r₁, w, he, h₁⟩ := copyIdStr_key hc hk h
    exact ⟨r₁, w, by simp [memberNext, objNext, he, storeKey, keyId], h₁⟩

/-- A key that is too long is an error. -/
lemma memberNext_longKey (hc : KeyClean key) (hk : ¬ KeyReads key)
    (h : r.At e d (key.text ++ t)) (res : Val) :
    ∃ r', memberNext k r res = (false, r', res) ∧ r'.err ≠ none := by
  cases key with
  | elem => exact absurd (Nat.zero_lt_succ 63) hk
  | name =>
    obtain ⟨r₁, he, h₁⟩ := copyIdStr_longKey hc hk h
    exact ⟨r₁, by simp [memberNext, objNext, he], h₁⟩

lemma first_open {c} (hd : d < 128) (hws : isWs c = false) (hne : c ≠ k.closing)
    (h : r.At e d (w.1 ++ k.opening :: (lead.1 ++ c :: u))) (res : Val) :
    ∃ r₁ r', anyFirst r k.opening = (false, r₁) ∧ checkEnd r₁ res k.closing = (false, r', res) ∧
      r'.At e (d + 1) (c :: u) := by
  obtain ⟨r₁, he₁, h₁⟩ := anyFirst_at (isWs_opening k) hd h
  obtain ⟨r₂, he₂, h₂⟩ := checkEnd_open res hws hne h₁
  exact ⟨r₁, r₂, he₁, he₂, h₂⟩

/-- The way to the first member. -/
lemma first_steps (hd : d < 128) (hv : ValueStart t)
    (h : r.At e d (w.1 ++ k.opening :: (lead.1 ++ (key.text ++ t)))) (res : Val) :
    ∃ r₁ r', anyFirst r k.opening = (false, r₁) ∧ checkEnd r₁ res k.closing = (false, r', res) ∧
      r'.At e (d + 1) (key.text ++ t) := by
  obtain ⟨c, u, hcu, hws, hne⟩ := key_start key hv
  rw [hcu] at h ⊢
  exact first_open hd hws hne h res

lemma next_open {c} (hws : isWs c = false) (h : r.At e d (w.1 ++ 0x2c :: (lead.1 ++ c :: u)))
    (res : Val) :
    ∃ r₁ r', checkEnd r res k.closing = (false, r₁, res) ∧ preNext r₁ res = (false, r', res) ∧
      r₁.err = none ∧ r'.At e d (c :: u) := by
  obtain ⟨r₁, he₁, h₁⟩ := checkEnd_open (b := k.closing) res rfl (by cases k <;> decide) h
  obtain ⟨r₂, he₂, h₂⟩ := preNext_at res hws h₁
  exact ⟨r₁, r₂, he₁, he₂, h₁.err, h₂⟩

/-- The way to the next member. -/
lemma next_steps (hv : ValueStart t)
    (h : r.At e d (w.1 ++ 0x2c :: (lead.1 ++ (key.text ++ t)))) (res : Val) :
    ∃ r₁ r', checkEnd r res k.closing = (false, r₁, res) ∧ preNext r₁ res = (false, r', res) ∧
      r₁.err = none ∧ r'.At e d (key.text ++ t) := by
  obtain ⟨c, u, hcu, hws, -⟩ := key_start key hv
  rw [hcu] at h ⊢
  exact next_open hws h res

/-- The first call comes to the first member. -/
lemma firstOf_member (hd : d < 128) (hv : ValueStart t)
    (h : r.At e d (w.1 ++ k.opening :: (lead.1 ++ (key.text ++ t)))) (res : Val) :
    ∃ r', firstOf k r res = memberNext k r' res ∧ r'.At e (d + 1) (key.text ++ t) := by
  obtain ⟨_, r', he₁, he₂, h'⟩ := first_steps hd hv h res
  exact ⟨r', by simp [firstOf_eq k r res h.err, he₁, he₂], h'⟩

/-- A later call comes to the next member. -/
lemma nextOf_member (hv : ValueStart t)
    (h : r.At e d (w.1 ++ 0x2c :: (lead.1 ++ (key.text ++ t)))) (res : Val) :
    ∃ r', nextOf k r res = memberNext k r' res ∧ r'.At e d (key.text ++ t) := by
  obtain ⟨_, r', he₁, he₂, -, h'⟩ := next_steps hv h res
  exact ⟨r', by simp [nextOf_eq k r res h.err, he₁, he₂], h'⟩

/-- An empty container is left at once. -/
lemma firstOf_close {wt : Ws} (hd : d < 128) (ht : AfterClose t)
    (h : r.At e d (w.1 ++ k.opening :: (lead.1 ++ k.closing :: (wt.1 ++ t)))) (res : Val) :
    ∃ r', firstOf k r res = (false, r', { res with type := .void }) ∧ r'.At e d t := by
  obtain ⟨_, he₁, h₁⟩ := anyFirst_at (isWs_opening k) hd h
  obtain ⟨r₂, he₂, h₂⟩ := checkEnd_close res (isWs_closing k) ht (Nat.succ_pos d) h₁
  exact ⟨r₂, by simp [firstOf_eq k r res h.err, he₁, he₂], h₂⟩

/-- Behind the last member the container is left. -/
lemma nextOf_close {wt : Ws} (ht : AfterClose t) (hpos : 0 < d)
    (h : r.At e d (w.1 ++ k.closing :: (wt.1 ++ t))) (res : Val) :
    ∃ r', nextOf k r res = (false, r', { res with type := .void }) ∧ r'.At e (d - 1) t := by
  obtain ⟨r₁, he₁, h₁⟩ := checkEnd_close res (isWs_closing k) ht hpos h
  exact ⟨r₁, by simp [nextOf_eq k r res h.err, he₁], h₁⟩

end Members

/-! ## The text behind a member -/

/-- White space before the separator or the closing bracket. -/
def seqLead : {k : Kind} → Seq k → Ws
  | _, .nil ws => ws
  | _, .scalar sep _ _ _ _ => sep
  | _, .sub sep _ _ _ _ _ => sep

/-- The rest, from the separator or the closing bracket on. -/
def seqBody : {k : Kind} → Seq k → List UInt8
  | k, .nil _ => [k.closing]
  | _, .scalar _ lead key v next => 0x2c :: (lead.1 ++ (key.text ++ (v.text ++ next.text false)))
  | _, .sub _ lead key k' inner next =>
    0x2c :: (lead.1 ++ (key.text ++ (k'.opening :: (inner.text true ++ next.text false))))

variable (s : Seq k)

lemma text_eq_lead_body : s.text false = (seqLead s).1 ++ seqBody s := by
  cases s <;> simp [Seq.text, seqLead, seqBody, sepText]

lemma seqBody_head : ∃ c u, seqBody s = c :: u ∧ (c = 0x2c ∨ (c = k.closing ∧ u = [])) := by
  cases s with
  | nil => exact ⟨_, _, rfl, .inr ⟨rfl, rfl⟩⟩
  | scalar | sub => exact ⟨_, _, rfl, .inl rfl⟩

/-- What follows a member inside of a container. -/
lemma afterClose_body (t : List UInt8) : AfterClose (seqBody s ++ t) := by
  obtain ⟨c, u, hs, hc⟩ := seqBody_head s
  rintro b hb
  rw [hs] at hb
  cases hb
  rcases hc with rfl | ⟨rfl, -⟩
  · decide
  · cases k <;> decide

lemma isWs_facts {b} (h : isWs b) :
    isDigit b = false ∧ ¬ (b = 0 ∨ b = 0x2c) ∧ ¬ (b = 0x2e ∨ b = 0x65 ∨ b = 0x45) := by
  simp only [isWs, Bool.or_eq_true, beq_iff_eq] at h
  rcases h with ((rfl | rfl) | rfl) | rfl <;> decide

/-- White space behind a number does not matter. -/
lemma numEnd_ws {w} (hw : ∀ b ∈ w, isWs b) (t : List UInt8) : numEnd (w ++ t) = numEnd t := by
  induction w with
  | nil => rfl
  | cons b w ih =>
    obtain ⟨-, h0, h1⟩ := isWs_facts (hw b (by simp))
    rw [cons_append, numEnd, if_neg h0, if_neg h1]
    exact ih (forall_mem_cons.1 hw).2

lemma numEnd_seq {t} (ht : numEnd t) : numEnd (s.text false ++ t) := by
  rw [text_eq_lead_body, append_assoc, numEnd_ws (seqLead s).2]
  obtain ⟨c, u, hs, hc⟩ := seqBody_head s
  rw [hs]
  rcases hc with rfl | ⟨rfl, rfl⟩
  · simp [numEnd]
  · cases k <;> simpa [numEnd, Kind.closing] using ht

lemma noDigit_seq (t : List UInt8) : NoDigit (s.text false ++ t) := by
  rw [text_eq_lead_body]
  rcases hl : (seqLead s).1 with _ | ⟨b, w⟩
  · obtain ⟨c, u, hs, hc⟩ := seqBody_head s
    rw [hs]
    refine NoDigit.cons ?_ _
    rcases hc with rfl | ⟨rfl, -⟩
    · rfl
    · cases k <;> rfl
  · exact NoDigit.cons (isWs_facts ((seqLead s).2 b (by simp [hl]))).1 _

/-! ## Getting to a member -/

/-- The value after a member of the given type was read. -/
structure Announced {k : Kind} (buf : Option Nat) (key : Key k) (type : UType) (res : Val) :
    Prop where
  type : res.type = type
  id : res.idIn k = keyId key
  buf : res.bufSize = buf

def scalarSeen (buf : Option Nat) (v : Scalar) : Payload := scalarVal buf v .unset

/-- The reader gets past a value or complains: with no buffer `\u0000` stops it without an error. -/
def Audible (buf : Option Nat) (v : Scalar) : Prop :=
  ScalarReads buf v ∨ ∃ len, 0 < len ∧ buf = some len

/-- The reader and the value when a loop has got to `s`; `wt` and `t` come behind the container. -/
def Arrived (buf : Option Nat) (e : Env) (d : Nat) (wt : Ws) (t : List UInt8) :
    {k : Kind} → Seq k → Reader × Val → Prop
  | _, .nil _, x => x.2.type = .void ∧ x.2.bufSize = buf ∧ x.1.At e (d - 1) t
  | _, .scalar _ _ key v next, x =>
    (KeyReads key ∧ ScalarReads buf v ∧ Announced buf key (scalarType v) x.2 ∧
      x.2.payload = scalarSeen buf v ∧ x.1.At e d (next.text false ++ (wt.1 ++ t))) ∨
    (¬ (KeyReads key ∧ ScalarReads buf v) ∧ x.1.err ≠ none)
  | _, .sub _ _ key k' inner next, x =>
    (KeyReads key ∧ Announced buf key (kindType k') x.2 ∧ x.1.subOff = x.1.off ∧
      x.1.At e d (k'.opening :: (inner.text true ++ (next.text false ++ (wt.1 ++ t))))) ∨
    (¬ KeyReads key ∧ x.1.err ≠ none)

lemma storeScalar_payload (v : Scalar) (res : Val) :
    (storeScalar v res).payload = scalarSeen res.bufSize v := by
  cases v with
  | num n =>
    cases h : n.isInt <;> simp [storeScalar, Val.payload, scalarType, scalarSeen, scalarVal, h]
  | bool | null | str => rfl

/-- The first member of `s` can be read, or sets the error. -/
def HeadClean (buf : Option Nat) : {k : Kind} → Seq k → Prop
  | _, .nil _ => True
  | _, .scalar _ _ key v _ => KeyClean key ∧ Audible buf v
  | _, .sub _ _ key _ _ _ => KeyClean key

section Entering

variable {r : Reader} {e : Env} {d : Nat} {k : Kind} {w wt : Ws} {t : List UInt8} {res : Val}
  {buf : Option Nat}

lemma storeKey_fields (key : Key k) (res : Val) :
    (storeKey key res).bufSize = res.bufSize ∧ (storeKey key res).idIn k = keyId key := by
  cases key with
  | elem | name => exact ⟨rfl, rfl⟩

/-- **A scalar member** is read, or sets the error. -/
lemma memberNext_scalar {key : Key k} {v : Scalar} (hc : KeyClean key) (hv : Audible buf v)
    (hbuf : res.bufSize = buf) (hend : numEnd t) (ht : NoDigit t)
    (h : r.At e d (key.text ++ (v.text ++ t))) :
    (KeyReads key ∧ ScalarReads buf v ∧ Announced buf key (scalarType v) (memberNext k r res).2.2 ∧
        (memberNext k r res).2.2.payload = scalarSeen buf v ∧
        (memberNext k r res).2.1.At e d t) ∨
      (¬ (KeyReads key ∧ ScalarReads buf v) ∧ (memberNext k r res).2.1.err ≠ none) := by
  by_cases hk : KeyReads key
  · obtain ⟨_, w, he₁, h₁⟩ := memberNext_key hc hk h res
    obtain ⟨hbuf', hid⟩ := storeKey_fields key res
    rw [hbuf] at hbuf'
    rw [he₁]
    by_cases hread : ScalarReads buf v
    · rw [← hbuf'] at hread
      obtain ⟨_, he, h'⟩ := getValue_scalar _ hread hend ht h₁
      rw [hbuf'] at hread
      rw [he]
      exact .inl ⟨hk, hread, ⟨rfl, hid, hbuf'⟩, (storeScalar_payload v _).trans (by rw [hbuf']), h'⟩
    · obtain ⟨_, hlen, rfl⟩ := hv.resolve_left hread
      obtain ⟨_, he, herr⟩ := getValue_short hbuf' hlen hread hend h₁
      rw [he]
      exact .inr ⟨fun hb => hread hb.2, herr⟩
  · obtain ⟨_, he, herr⟩ := memberNext_longKey hc hk h res
    rw [he]
    exact .inr ⟨fun hb => hk hb.1, herr⟩

/-- **A container as a member** is announced, or sets the error. -/
lemma memberNext_sub {key : Key k} {k' : Kind} (hc : KeyClean key) (hbuf : res.bufSize = buf)
    (h : r.At e d (key.text ++ (k'.opening :: t))) :
    (KeyReads key ∧ Announced buf key (kindType k') (memberNext k r res).2.2 ∧
        (memberNext k r res).2.1.subOff = (memberNext k r res).2.1.off ∧
        (memberNext k r res).2.1.At e d (k'.opening :: t)) ∨
      (¬ KeyReads key ∧ (memberNext k r res).2.1.err ≠ none) := by
  by_cases hk : KeyReads key
  · obtain ⟨_, w, he₁, h₁⟩ := memberNext_key hc hk h res
    obtain ⟨hbuf', hid⟩ := storeKey_fields key res
    obtain ⟨_, he, h', hsub⟩ := getValue_container (storeKey key res) h₁
    rw [he₁, he]
    exact .inl ⟨hk, ⟨rfl, hid, hbuf'.trans hbuf⟩, hsub, h'⟩
  · obtain ⟨_, he, herr⟩ := memberNext_longKey hc hk h res
    rw [he]
    exact .inr ⟨hk, herr⟩

/-- The first call arrives at the head of the members. -/
lemma firstOf_arrived {s : Seq k} (res : Val) (hs : HeadClean buf s) (hbuf : res.bufSize = buf)
    (hd : d < 128) (hend : numEnd t) (ht : AfterClose t)
    (h : r.At e d (w.1 ++ k.opening :: (s.text true ++ (wt.1 ++ t)))) :
    Arrived buf e (d + 1) wt t s (firstOf k r res).2 := by
  have hend' : numEnd (wt.1 ++ t) := by rw [numEnd_ws wt.2, hend]
  cases s with
  | nil =>
    simp only [Seq.text, append_assoc] at h
    obtain ⟨_, he, h'⟩ := firstOf_close hd ht h res
    rw [he]
    exact ⟨rfl, hbuf, h'⟩
  | scalar sep lead key v next =>
    simp only [Seq.text, append_assoc] at h
    obtain ⟨_, he, h'⟩ := firstOf_member hd (.scalar v _) h res
    rw [he]
    exact memberNext_scalar hs.1 hs.2 hbuf (numEnd_seq next hend') (noDigit_seq next _) h'
  | sub sep lead key k' =>
    simp only [Seq.text, append_assoc, cons_append] at h
    obtain ⟨_, he, h'⟩ := firstOf_member hd (.container k' _) h res
    rw [he]
    exact memberNext_sub hs hbuf h'

/-- A later call arrives at the head of the members that are left. -/
lemma nextOf_arrived {s : Seq k} (hs : HeadClean buf s) (hbuf : res.bufSize = buf)
    (hend : numEnd t) (ht : AfterClose t) (hpos : 0 < d)
    (h : r.At e d (w.1 ++ (seqBody s ++ (wt.1 ++ t)))) :
    Arrived buf e d wt t s (nextOf k r res).2 := by
  have hend' : numEnd (wt.1 ++ t) := by rw [numEnd_ws wt.2, hend]
  cases s with
  | nil =>
    obtain ⟨_, he, h'⟩ := nextOf_close ht hpos h res
    rw [he]
    exact ⟨rfl, hbuf, h'⟩
  | scalar sep lead key v next =>
    simp only [seqBody, append_assoc, cons_append] at h
    obtain ⟨_, he, h'⟩ := nextOf_member (.scalar v _) h res
    rw [he]
    exact memberNext_scalar hs.1 hs.2 hbuf (numEnd_seq next hend') (noDigit_seq next _) h'
  | sub sep lead key k' =>
    simp only [seqBody, append_assoc, cons_append] at h
    obtain ⟨_, he, h'⟩ := nextOf_member (.container k' _) h res
    rw [he]
    exact memberNext_sub hs hbuf h'

end Entering

variable {k : Kind} {buf : Option Nat} {s : Seq k} {x : Reader × Val} {len : Nat} {v : Scalar}

/-! ## The loop over a container -/

/-- Rounds of the loops over `s`, the deepest nest of them. -/
def seqRounds : {k : Kind} → Seq k → Nat
  | _, .nil _ => 1
  | _, .scalar _ _ _ _ next => seqRounds next + 1
  | _, .sub _ _ _ _ inner next => max (seqRounds inner) (seqRounds next) + 1

/-- The text is longer than the loops have rounds. -/
lemma seqRounds_le (s : Seq k) (first : Bool) : seqRounds s ≤ (s.text first).length := by
  induction s generalizing first with
  | nil => simp [seqRounds, Seq.text]
  | scalar sep lead key v next ih =>
    obtain ⟨c, u, hcu, -⟩ := ValueStart.scalar v []
    have hv : 1 ≤ v.text.length := by
      rw [append_nil] at hcu
      simp [hcu]
    have := ih false
    simp only [seqRounds, Seq.text, length_append]
    omega
  | sub sep lead key k' inner next ihi ihn =>
    have := ihi true
    have := ihn false
    simp only [seqRounds, Seq.text, length_append, length_cons]
    omega

/-- The reader gets through all of `s`, or complains. -/
def SeqClean (buf : Option Nat) : {k : Kind} → Seq k → Prop
  | _, .nil _ => True
  | _, .scalar _ _ key v next => (KeyClean key ∧ Audible buf v) ∧ SeqClean buf next
  | _, .sub _ _ key _ inner next => KeyClean key ∧ SeqClean buf inner ∧ SeqClean buf next

lemma SeqClean.head (h : SeqClean buf s) : HeadClean buf s := by
  cases s with
  | nil => trivial
  | scalar | sub => exact h.1

def SeqReads (buf : Option Nat) : {k : Kind} → Seq k → Prop
  | _, .nil _ => True
  | _, .scalar _ _ key v next => (KeyReads key ∧ ScalarReads buf v) ∧ SeqReads buf next
  | _, .sub _ _ key _ inner next => KeyReads key ∧ SeqReads buf inner ∧ SeqReads buf next

/-- What the walk records of `s`. -/
def seqSeen (buf : Option Nat) : {k : Kind} → Seq k → Seen
  | _, .nil _ => .nil
  | _, .scalar _ _ key v next =>
    .scalar (keyId key) (scalarType v) (scalarSeen buf v) (seqSeen buf next)
  | _, .sub _ _ key k' inner next => .sub (keyId key) k' (seqSeen buf inner) (seqSeen buf next)

/-- The loop ends at void. -/
lemma walkLoop_void (buf : Option Nat) (n : Nat) (k : Kind)
    (h : x.2.type = .void) : walkLoop buf n k x = (.nil, x.1) := by
  cases n with
  | zero => rfl
  | succ => rw [walkLoop, if_pos h]

lemma scalarType_kind (v : Scalar) : scalarType v ≠ .void ∧ (scalarType v).kind? = none := by
  cases v with
  | num n => cases h : n.isInt <;> simp [scalarType, h, UType.kind?]
  | bool | null | str => simp [scalarType, UType.kind?]

lemma kindType_kind (k : Kind) : kindType k ≠ .void ∧ (kindType k).kind? = some k := by
  cases k <;> simp [kindType, UType.kind?]

lemma walkLoop_scalar (buf : Option Nat) (n : Nat) (k : Kind)
    (hv : x.2.type ≠ .void) (hk : x.2.type.kind? = none) :
    walkLoop buf (n + 1) k x =
      (.scalar (x.2.idIn k) x.2.type x.2.payload (walkLoop buf n k (nextOf k x.1 x.2).2).1,
        (walkLoop buf n k (nextOf k x.1 x.2).2).2) := by
  obtain ⟨r, _⟩ := x
  rw [walkLoop, if_neg hv]
  simp [hk]

variable {r : Reader} {t : List UInt8}

lemma walkLoop_sub (buf : Option Nat) (n : Nat) (k k' : Kind) {inner} (hv : x.2.type ≠ .void)
    (hk : x.2.type.kind? = some k')
    (hin : walkLoop buf n k' (firstOf k' x.1 { bufSize := buf }).2 = (inner, r)) :
    walkLoop buf (n + 1) k x = (.sub (x.2.idIn k) k' inner (walkLoop buf n k (nextOf k r x.2).2).1,
        (walkLoop buf n k (nextOf k r x.2).2).2) := by
  obtain ⟨r, _⟩ := x
  rw [walkLoop, if_neg hv]
  simp [hk, hin]

/-- An error ends the loop. -/
lemma walkLoop_err (buf : Option Nat) (n : Nat) (k : Kind)
    (h : x.1.err ≠ none) : (walkLoop buf n k x).2 = x.1 := by
  cases n with
  | zero => rfl
  | succ n =>
    by_cases hv : x.2.type = .void
    · rw [walkLoop_void buf _ k hv]
    cases hk : x.2.type.kind? with
    | none => rw [walkLoop_scalar buf n k hv hk, nextOf_err k _ h, walkLoop_void _ _ _ rfl]
    | some k' =>
      have hin : walkLoop buf n k' (firstOf k' x.1 { bufSize := buf }).2 = (.nil, x.1) := by
        rw [firstOf_err k' _ h, walkLoop_void _ _ _ rfl]
      rw [walkLoop_sub buf n k k' hv hk hin, nextOf_err k _ h, walkLoop_void _ _ _ rfl]

lemma numEnd_body (s : Seq k) (wt : Ws) (ht : numEnd t) : numEnd (seqBody s ++ (wt.1 ++ t)) := by
  have := numEnd_seq s (t := wt.1 ++ t) (by rw [numEnd_ws wt.2, ht])
  rwa [text_eq_lead_body, append_assoc, numEnd_ws (seqLead s).2] at this

/-- The loop over the members. The induction is over `s`; a container inside is walked with what
follows it as its tail. -/
lemma walkLoop_seq {e} (s : Seq k) (n d : Nat) (wt : Ws) (t : List UInt8) (x : Reader × Val)
    (hs : SeqClean buf s) (hpos : 0 < d) (hd : d + s.depth ≤ 128) (hn : seqRounds s ≤ n)
    (hend : numEnd t) (ht : AfterClose t) (h : Arrived buf e d wt t s x) :
    (SeqReads buf s →
        (walkLoop buf n k x).1 = seqSeen buf s ∧ (walkLoop buf n k x).2.At e (d - 1) t) ∧
      (¬ SeqReads buf s → (walkLoop buf n k x).2.err ≠ none) := by
  induction s generalizing n d wt t x with
  | nil =>
    obtain ⟨hvoid, -, hat⟩ := h
    rw [walkLoop_void buf n _ hvoid]
    exact ⟨fun _ => ⟨rfl, hat⟩, fun hn => absurd trivial hn⟩
  | scalar sep lead key v next ih =>
    rcases n with _ | n
    · simp only [seqRounds] at hn; omega
    rcases h with ⟨hk, hv, hann, hpay, hat⟩ | ⟨hbad, herr⟩
    · rw [text_eq_lead_body, append_assoc] at hat
      have hnext := nextOf_arrived hs.2.head hann.buf hend ht hpos hat
      obtain ⟨hgood, hbad⟩ := ih n d wt t _ hs.2 hpos hd (Nat.le_of_succ_le_succ hn) hend ht
        hnext
      have hty := scalarType_kind v
      rw [← hann.type] at hty
      rw [walkLoop_scalar buf n _ hty.1 hty.2]
      refine ⟨fun hr => ?_, fun hr => hbad fun h => hr ⟨⟨hk, hv⟩, h⟩⟩
      obtain ⟨hseen, hat'⟩ := hgood hr.2
      exact ⟨by rw [hseen, hann.id, hann.type, hpay]; rfl, hat'⟩
    · rw [walkLoop_err _ _ _ herr]
      exact ⟨fun hr => absurd hr.1 hbad, fun _ => herr⟩
  | sub sep lead key k' inner next ihi ihn =>
    rcases n with _ | n
    · simp only [seqRounds] at hn; omega
    obtain ⟨-, hsi, hsn⟩ := hs
    rcases h with ⟨hk, hann, -, hat⟩ | ⟨hbad, herr⟩
    · simp only [Seq.depth, seqRounds] at hd hn
      rw [text_eq_lead_body next, append_assoc] at hat
      have hend' := numEnd_body next wt hend
      have hfirst := firstOf_arrived (w := .empty) { bufSize := buf } hsi.head rfl (by omega) hend'
        (afterClose_body next _) hat
      obtain ⟨hgoodi, hbadi⟩ := ihi n (d + 1) _ _ _ hsi (Nat.succ_pos d) (by omega) (by omega) hend'
        (afterClose_body next _) hfirst
      have hty := kindType_kind k'
      rw [← hann.type] at hty
      rcases hin : walkLoop buf n k' (firstOf k' x.1 { bufSize := buf }).2 with ⟨out, _⟩
      rw [hin] at hbadi hgoodi
      rw [walkLoop_sub buf n _ k' hty.1 hty.2 hin]
      by_cases hri : SeqReads buf inner
      · obtain ⟨hseeni, hati⟩ := hgoodi hri
        have hnext := nextOf_arrived (w := .empty) hsn.head hann.buf hend ht hpos hati
        obtain ⟨hgoodn, hbadn⟩ := ihn n d wt t _ hsn hpos (by omega) (by omega) hend ht hnext
        refine ⟨fun hr => ?_, fun hr => hbadn fun h => hr ⟨hk, hri, h⟩⟩
        obtain ⟨hseen, hat'⟩ := hgoodn hr.2.2
        exact ⟨by rw [hseen, hann.id, show out = seqSeen buf inner from hseeni]; rfl, hat'⟩
      · -- the error ends this loop too
        rw [nextOf_err _ _ (hbadi hri), walkLoop_void _ _ _ rfl]
        exact ⟨fun hr => absurd hr.2.1 hri, fun _ => hbadi hri⟩
    · rw [walkLoop_err _ _ _ herr]
      exact ⟨fun hr => absurd hr.1 hbad, fun _ => herr⟩

/-! ## The whole walk -/

/-- The reader starts at the opening bracket. -/
lemma readerStart_at {e d} {w : Ws} (h : r.At e d (w.1 ++ k.opening :: t)) :
    ∃ r', ujsonReaderStart r = (kindType k, r') ∧ r'.At e d (k.opening :: t) := by
  obtain ⟨r', he, h'⟩ := h.eatws_cons (isWs_opening k)
  refine ⟨r', ?_, h'⟩
  cases k <;> simp [ujsonReaderStart, ujsonNextType, he, h'.peekb, kindType, Kind.opening]

/-- A new reader stands before the whole text. -/
lemma Reader.At.init (json : List UInt8) (strict : Bool) :
    Reader.At { json := json, strict := strict } ⟨json, strict⟩ 0 json :=
  ⟨rfl, rfl, rfl, drop_zero, Nat.zero_add _, rfl, Nat.zero_le _, rfl⟩

/-- **The walk over a document.** -/
lemma walk_doc (strict : Bool) {doc : Doc} (hnest : doc.nesting ≤ 128)
    (hs : SeqClean buf doc.items) :
    ∃ seen r, walk buf { json := doc.text, strict := strict } = (kindType doc.kind, seen, r) ∧
      (SeqReads buf doc.items → seen = seqSeen buf doc.items ∧ r.At ⟨doc.text, strict⟩ 0 []) ∧
      (¬ SeqReads buf doc.items → r.err ≠ none) := by
  obtain ⟨lead, k, items, trail⟩ := doc
  simp only [Doc.nesting] at hnest
  obtain ⟨r₁, he₁, h₁⟩ := readerStart_at (Reader.At.init (Doc.text ⟨lead, k, items, trail⟩) strict)
  rw [← append_nil trail.1] at h₁
  have hfirst := firstOf_arrived (w := .empty) { bufSize := buf } hs.head rfl (by omega) rfl
    afterClose_nil h₁
  have hrounds : seqRounds items ≤ r₁.json.length + 1 := by
    have hle := seqRounds_le items true
    have hlen := h₁.off
    simp only [length_cons, length_append] at hlen
    omega
  have hloop := walkLoop_seq items (r₁.json.length + 1) 1 trail [] _ hs Nat.one_pos (by omega)
    hrounds rfl afterClose_nil hfirst
  refine ⟨_, _, ?_, hloop⟩
  simp [walk, he₁, (kindType_kind k).2]

/-! ## Texts within the limits -/

/-- Plain text is decoded as it is. -/
lemma plain_text : ∀ {s}, (∀ x ∈ s, isPlainElem x) →
    strText s = strDecode s ∧ ∀ b ∈ strText s, b ≠ 0x22
  | [], _ => ⟨rfl, by simp [strText]⟩
  | x :: s, h => by
    obtain ⟨ht, hq⟩ := plain_text (forall_mem_cons.1 h).2
    cases x with
    | plain b hb =>
      refine ⟨congrArg (b :: ·) ht, ?_⟩
      intro c hc
      rcases mem_cons.mp hc with rfl | hc
      · exact ((isPlain_iff c).mp hb).2.1
      · exact hq c hc
    | esc c => exact absurd (h (.esc c) (by simp)) Bool.false_ne_true
    | ucode a₁ a₂ a₃ a₄ => exact absurd (h (.ucode a₁ a₂ a₃ a₄) (by simp)) Bool.false_ne_true

/-- Keys within the limits are read as they are meant. -/
lemma KeyLimits.reads {key : Key k} (h : KeyLimits key) :
    KeyClean key ∧ KeyReads key ∧ keyId key = keyMeaning key := by
  cases key with
  | elem => exact ⟨trivial, Nat.zero_lt_succ 63, rfl⟩
  | name s =>
    obtain ⟨htext, hq⟩ := plain_text h.1
    have hlen : (strText s).length < ujsonIdMax := by rw [htext]; exact Nat.lt_succ_of_le h.2
    exact ⟨hq, hlen, htext⟩

section

variable (h : ScalarLimits len v)

include h

lemma ScalarLimits.audible : Audible (some len) v := by
  cases v with
  | str => exact .inr ⟨len, Nat.lt_of_le_of_lt (Nat.zero_le _) h.1, rfl⟩
  | num | bool | null => exact .inl trivial

lemma ScalarLimits.reads_iff : ScalarReads (some len) v ↔ ¬ ScalarFills len v := by
  cases v with
  | str s =>
    have hlen := h.1
    cases hu : endsInUcode s <;>
      simp only [ScalarReads, StrReads, Fits, ScalarFills, hu, Bool.toNat_true]
    · simpa using hlen
    · simp only [true_and]
      omega
  | num | bool | null => simp [ScalarReads, ScalarFills]

lemma ScalarLimits.seen : scalarSeen (some len) v = scalarMeaning v := by
  cases v with
  | num n =>
    cases hint : n.isInt with
    | true =>
      have hv : n.value.natAbs ≤ longMax := h hint
      unfold longMax at hv
      simp only [scalarSeen, scalarVal, scalarMeaning]
      rw [wrapLong_of_lt (by omega) (by omega)]
    | false => simp [scalarSeen, scalarVal, scalarMeaning, hint]
  | bool | null | str => rfl

end

/-- Members within the limits are clean. -/
lemma SeqLimits.clean (h : SeqLimits len s) : SeqClean (some len) s := by
  induction s with
  | nil => trivial
  | scalar sep lead key v next ih => exact ⟨⟨h.1.reads.1, h.2.1.audible⟩, ih h.2.2⟩
  | sub sep lead key k' inner next ihi ihn => exact ⟨h.1.reads.1, ihi h.2.1, ihn h.2.2⟩

/-- They are read unless a string fills the buffer. -/
lemma SeqLimits.reads_iff (h : SeqLimits len s) : SeqReads (some len) s ↔ ¬ SeqFills len s := by
  induction s with
  | nil => simp [SeqReads, SeqFills]
  | scalar sep lead key v next ih =>
    simp [SeqReads, SeqFills, ih h.2.2, h.2.1.reads_iff, h.1.reads.2.1]
  | sub sep lead key k' inner next ihi ihn =>
    simp [SeqReads, SeqFills, ihi h.2.1, ihn h.2.2, h.1.reads.2.1]

/-- What is read of them is what they mean. -/
lemma SeqLimits.seen (h : SeqLimits len s) : seqSeen (some len) s = seqMeaning s := by
  induction s with
  | nil => rfl
  | scalar sep lead key v next ih =>
    simp [seqSeen, seqMeaning, h.1.reads.2.2, h.2.1.seen, ih h.2.2]
  | sub sep lead key k' inner next ihi ihn =>
    simp [seqSeen, seqMeaning, h.1.reads.2.2, ihi h.2.1, ihn h.2.2]

/-- **The reader reads a text, unless a string fills its buffer.** Over a
text within the limits, the walk visits the members in order, with id, type
and value, sets no error, returns to depth 0 and consumes the text, exactly
if no string value that ends in a `\u` escape fills the caller's buffer. -/
theorem walk_reads_iff (len : Nat) (strict : Bool) (doc : Doc) (h : DocLimits len doc) :
    WalkReads len strict doc ↔ ¬ SeqFills len doc.items := by
  obtain ⟨seen, r, hwalk, hgood, hbad⟩ := walk_doc strict h.nesting h.items.clean
  rw [h.items.reads_iff, h.items.seen] at hgood
  rw [h.items.reads_iff] at hbad
  constructor
  · rintro ⟨_, hwalk', herr, -⟩ hf
    rw [hwalk] at hwalk'
    cases hwalk'
    exact hbad (not_not_intro hf) herr
  · intro hf
    obtain ⟨rfl, hat⟩ := hgood hf
    exact ⟨r, hwalk, hat.err, hat.depth, hat.off.trans (congrArg List.length hat.json)⟩

/-- The letter `A`, written as an escape. -/
def escapedA : List StrElem :=
  [.ucode .zero .zero ⟨0x34, rfl⟩ ⟨0x31, rfl⟩]

/-- `["\u0041"]` -/
def docA : Doc where
  lead := .empty
  kind := .arr
  items := .scalar .empty .empty .elem (.str escapedA) (.nil .empty)
  trail := .empty

lemma docA_limits (h : 1 < len) : DocLimits len docA := by
  refine ⟨by decide, trivial, ⟨h, ?_⟩, trivial⟩
  intro x hx
  obtain rfl := mem_singleton.mp hx
  exact ⟨by decide, by decide⟩

theorem walk_reads_iff_docA :
    DocLimits 3 docA ∧ (WalkReads 3 true docA ↔ ¬ SeqFills 3 docA.items) :=
  ⟨docA_limits (by decide), walk_reads_iff 3 true docA (docA_limits (by decide))⟩

/-- One letter and the terminating zero fit two bytes, but are refused. -/
theorem walk_refuses_docA : DocLimits 2 docA ∧ ¬ WalkReads 2 true docA := by
  refine ⟨docA_limits (by decide), ?_⟩
  rintro ⟨r, hwalk, herr, -⟩
  have hshort : (walk (some 2) { json := docA.text, strict := true }).2.2.err
      = some .bufferTooShort := by
    decide
  rw [hwalk] at hshort
  simp [herr] at hshort

end LtpDdt.Ujson
