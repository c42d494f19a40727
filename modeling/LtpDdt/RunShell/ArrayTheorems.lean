/-
RunShell.ArrayTheorems — what the functions for arrays store.

`Stores`: code that gets an accepted value stores the right thing just if the
value fits, or the error is set. `twoPasses_ends` turns it from a statement about
one element into one about the array.

The elements of some arrays have a meaning of their own: mount flags, tags, and paths
to save. These are told apart by their place, so the state of the loop says which one
is next.
-/
import LtpDdt.RunShell.Schema

namespace LtpDdt.RunShell

open Json Ujson List

variable {ms : List (Member .arr)}

/-! ## Outcomes -/

variable {buf : Option Nat} {bs : List UInt8} {r r₁ : Reader} {Good : Member .arr → Prop}

section Outcomes

variable {k : Kind} {α β σ : Type} {e : Env} {d : Nat} {m : Member k} {w : Ws} {u : List UInt8}
  {r : Reader} {val : Val} {sp : Spec k α}

/-- The reader has announced `m`; behind it are `w` and `u`. -/
structure Reached (e : Env) (d : Nat) (m : Member k) (w : Ws) (u : List UInt8) (r : Reader)
    (val : Val) : Prop where
  reads : MemberReads (some strBufSize) m
  ann : Announces (some strBufSize) m val
  numEnd : numEnd u = true
  afterClose : AfterClose u
  stands : StandsAt e d m (w.1 ++ u) r

/-- How a round for `m` ends; `put x` is the state with `x` stored. -/
def Stores (sp : Spec k α) (m : Member k) (put : α → σ) (e : Env) (d : Nat) (u : List UInt8)
    (f : Flow σ) : Prop :=
  (∃ (r' : Reader) (val' : Val) (x : α) (w' : Ws), f = .next r' val' (put x) ∧
      (sp.is m x ↔ sp.fits m) ∧ val'.bufSize = some strBufSize ∧ r'.At e d (w'.1 ++ u)) ∨
    (¬ sp.fits m ∧ Failed f)

lemma Reached.at_sub {key : Key k} {k' : Kind} {s : Seq k'}
    (h : Reached e d (.sub key k' s) w u r val) :
    r.At e d (Ws.empty.1 ++ k'.opening :: (s.text true ++ (w.1 ++ u))) ∧ r.subOff = r.off := by
  refine ⟨by simpa [pendingText, Ws.empty] using h.stands.at_, h.stands.sub ?_⟩
  simp [memberType, (kindType_kind k').2]

/-- A scalar needs no more reading. -/
lemma Stores.scalar {put : α → σ} {x : α} (hm : ∃ key v, m = .scalar key v)
    (h : Reached e d m w u r val) (hx : sp.is m x ↔ sp.fits m) :
    Stores sp m put e d u (.next r val (put x)) := by
  obtain ⟨_, v, rfl⟩ := hm
  exact .inl ⟨r, val, x, w, rfl, hx, h.ann.buf, h.stands.at_⟩

lemma err_ne (r : Reader) (msg : String) : (err r msg).err ≠ none := nofun

/-- An error is in order for what does not fit. -/
lemma Stores.refuse {put : α → σ} {s msg} (h : ¬ sp.fits m) :
    Stores sp m put e d u (.next (err r msg) val s) := .inr ⟨h, err_ne r msg⟩

/-- What is stored may be put into a larger state. -/
lemma Stores.map {put : α → σ} {x} (h : Stores sp m id e d u (.next r val x)) :
    Stores sp m put e d u (.next r val (put x)) := by
  rcases h with ⟨_, _, _, w', heq, h⟩ | ⟨hf, herr⟩
  · cases heq
    exact .inl ⟨_, _, _, w', rfl, h⟩
  · exact .inr ⟨hf, herr⟩

end Outcomes

/-! ## Scalars -/

section Scalars

variable {k : Kind} {m : Member k} {val : Val}

/-- The string in the buffer is the decoded one. -/
lemma announced_str {buf : Nat} {key : Key k} {s}
    (h : Announces (some buf) (.scalar key (.str s)) val) :
    val.type = .str ∧ valStr val = strDecode s := by
  have ht : val.type = .str := h.type
  have hp := h.payload
  simp only [Val.payload, ht] at hp
  exact ⟨ht, by rw [valStr, hp]; rfl⟩

lemma announced_int {v} (hm : m.int? = some v) (h : Announces buf m val) :
    valInt val = wrapLong v := by
  obtain ⟨_, n, rfl, hint, rfl⟩ := int_cases hm
  have ht : val.type = .int := by simpa [memberType, scalarType, hint] using h.type
  have hp := h.payload
  simp only [Val.payload, ht] at hp
  rw [valInt, hp]
  simp [memberVal, scalarSeen, scalarVal, hint]

lemma announced_bool {b} (hm : m.bool? = some b) (h : Announces buf m val) : valBool val = b := by
  obtain ⟨_, rfl⟩ := bool_cases hm
  have ht : val.type = .bool := h.type
  have hp := h.payload
  simp only [Val.payload, ht] at hp
  rw [valBool, hp]
  rfl

/-- The copy is the text just if that fits. -/
lemma text_is_iff (hm : m.text? = some bs) (hr : MemberReads (some strBufSize) m)
    (h : Announces (some strBufSize) m val) :
    textSpec.is m (some (strdup (valStr val))) ↔ StrFits m := by
  obtain ⟨_, s, rfl, hs⟩ := text_cases hm
  rw [(announced_str h).2]
  show some (strdup (strDecode s)).1 = strValue s ↔ _ ∧ _
  rw [hs, Option.some.injEq, strdup_eq_iff hs]
  exact (and_iff_right hr.2).symm

lemma shortName_str (hm : m.text? = some bs) (hbs : ShortName bs)
    (h : Announces (some strBufSize) m val) : (strdup (valStr val)).1 = bs := by
  obtain ⟨_, s, rfl, hs⟩ := text_cases hm
  rw [(announced_str h).2]
  exact (strdup_eq_iff hs).mpr (strFits_of_shortName hm hbs).2

end Scalars

/-! ## The first pass -/

section Passes

variable {α : Type} {elem : Spec .arr α} {type : UType} {n : Nat} {e : Env} {d : Nat}

/-- The body of a loop over accepted and clean elements. -/
abbrev ElemHandles {σ : Type} (elem : Spec .arr α) (body : Reader → Val → σ → Flow σ)
    (Step : Member .arr → σ → σ → Prop) (e : Env) (d : Nat) : Prop :=
  Handles body (fun m => elem.accepts m ∧ Clean m) (MemberReads (some strBufSize))
    (Announces (some strBufSize)) (fun m _ => elem.fits m) Step (some strBufSize) e d

def CountStep (_ : Member .arr) (c c' : Nat) : Prop := c' = c + 1

/-- The counting pass over scalars. -/
lemma countBody_scalar (hl : elem.Lawful type n) (htype : type.kind? = none) (msg : String) :
    ElemHandles elem (countBody type msg id) CountStep e d where
  member {m w u r val} c hm hgood hann _ _ hst := by
    have ht : val.type = type := hann.type.trans (hl.type hm.1)
    refine .inl ⟨r, val, c + 1, w, ?_, rfl, hann.buf, ?_⟩
    · rw [countBody, if_neg (not_not_intro ht)]
      rfl
    have hk : (memberType m).kind? = none := by rw [hl.type hm.1, htype]
    cases m with
    | scalar => exact hst.at_
    | sub key k' => simp [memberType, (kindType_kind k').2] at hk
  err {r} val c h := by
    unfold countBody
    split
    · exact err_ne r msg
    · exact h

lemma skipOf_err (k : Kind) (h : r.err ≠ none) : skipOf k r = (false, r) := by
  have hf := firstOf_err k {} h
  cases k with
  | arr => rw [skipOf, ujsonArrSkip, show ujsonArrFirst r {} = _ from hf]; rfl
  | obj => rw [skipOf, ujsonObjSkip, show ujsonObjFirst r {} = _ from hf]; rfl

lemma seqReads_none {k k' : Kind} {key : Key k} {inner : Seq k'} (hc : Clean (.sub key k' inner))
    (hr : Reads (.sub key k' inner)) : SeqReads none inner :=
  seqReads_of_all ((hc.and hr).imp (fun _ _ h => h.2) fun _ h => h.1)

/-- The counting pass skips containers. -/
lemma countBody_container (k' : Kind) (hl : elem.Lawful (kindType k') n) (hd : d + n ≤ 128)
    (msg : String) :
    ElemHandles elem (countBody (kindType k') msg fun r => (skipOf k' r).2) CountStep e d where
  member {m w u r val} c hm hgood hann hend ht hst := by
    have htype := hl.type hm.1
    have hv : val.type = kindType k' := hann.type.trans htype
    cases m with
    | scalar key v =>
      have hk := (scalarType_kind v).2
      rw [show scalarType v = kindType k' from htype, (kindType_kind k').2] at hk
      cases hk
    | sub key k₀ inner =>
      obtain rfl : k₀ = k' := by cases k₀ <;> cases k' <;> first | rfl | cases htype
      have hdep : inner.depth + 1 ≤ n := hl.depth hm.1
      have hat : r.At e d (Ws.empty.1 ++ k₀.opening :: (inner.text true ++ (w.1 ++ u))) := by
        simpa [pendingText, Ws.empty] using hst.at_
      obtain ⟨r', he, hok, hbad⟩ := skipOf_seq (seqClean_of_all hm.2) (by omega) hend ht hat
      rw [countBody, if_neg (not_not_intro hv)]
      simp only [he]
      by_cases hreads : SeqReads none inner
      · exact .inl ⟨r', val, c + 1, .empty, rfl, rfl, hann.buf, hok hreads⟩
      · exact .inr ⟨fun hf => hreads (seqReads_none hm.2 (hl.reads hm.1 hf)), hbad hreads⟩
  err {r} val c h := by
    unfold countBody
    split
    · exact err_ne r msg
    · simp only [skipOf_err k' h]
      exact h

/-- The first pass counts the elements. -/
lemma steps_count {c c'} (h : Steps (fun m s s' => Good m ∧ CountStep m s s') ms c c') :
    c' = c + ms.length := by
  induction h with
  | nil => rfl
  | cons hstep _ ih =>
    rw [ih, hstep.2, length_cons]
    omega

/-! ## The second pass -/

def FillStep (elem : Spec .arr α) (m : Member .arr) (s s' : List α × Nat) : Prop :=
  ∃ y, s' = (s.1.set s.2 y, s.2 + 1) ∧ (elem.is m y ↔ elem.fits m)

/-- The second pass fills the array in order. -/
lemma steps_fill {s s' : List α × Nat}
    (h : Steps (fun m s s' => Good m ∧ FillStep elem m s s') ms s s')
    (hlen : s.2 + ms.length ≤ s.1.length) :
    ∃ ys, Forall₂ (fun m y => elem.is m y ↔ elem.fits m) ms ys ∧
      s' = (s.1.take s.2 ++ (ys ++ s.1.drop (s.2 + ms.length)), s.2 + ms.length) := by
  induction h with
  | nil => exact ⟨[], .nil, by simp⟩
  | @cons m ms s s₁ s' hstep _ ih =>
    obtain ⟨y, rfl, hy⟩ := hstep.2
    simp only [length_cons, length_set] at hlen ih
    obtain ⟨ys, hys, rfl⟩ := ih (by omega)
    refine ⟨y :: ys, .cons hy hys, ?_⟩
    have htake : (s.1.set s.2 y).take (s.2 + 1) = s.1.take s.2 ++ [y] := by
      rw [take_succ_eq_append_getElem (by simp; omega), take_set_of_le le_rfl]
      simp
    have hdrop : (s.1.set s.2 y).drop (s.2 + 1 + ms.length) = s.1.drop (s.2 + (ms.length + 1)) := by
      rw [drop_set_of_lt (by omega)]
      congr 1
      omega
    simp only [htake, hdrop, append_assoc, cons_append, nil_append, length_cons,
      Prod.mk.injEq, true_and]
    omega

/-! ## Both passes -/

/-- Behind the first pass the reader goes back to the array. -/
lemma stateLoad_at {d₁ t t₁} (h : r.At e d t) (hsub : r.subOff = r.off) (h₁ : r₁.At e d₁ t₁) :
    (ujsonReaderStateLoad r₁ (ujsonReaderStateSave r)).At e d t := by
  have hjson : r₁.json = r.json := h₁.json.trans h.json.symm
  have hno : r₁.err.isSome = false := by rw [h₁.err]; rfl
  unfold ujsonReaderStateLoad ujsonReaderStateSave
  simp only [hno, hsub]
  refine ⟨h₁.json, h₁.strict, h₁.maxDepth, ?_, ?_, h.depth, h.depth_le, h₁.err⟩
  · show r₁.json.drop r.off = t
    rw [hjson, h.rest]
  · show r.off + t.length = r₁.json.length
    rw [hjson, h.off]

lemma stateLoad_err (state : ReaderState) (h : r.err ≠ none) :
    ujsonReaderStateLoad r state = r := by
  unfold ujsonReaderStateLoad
  rw [if_pos (Option.isSome_iff_ne_none.mpr h)]

section Two

variable {count : Reader → Val → Nat → Flow Nat} {alloc : Nat → List α}
  {fill : Reader → Val → List α × Nat → Flow (List α × Nat)} {r : Reader} {val : Val}

/-- An error in the first pass stays. -/
lemma twoPasses_failed_first (h : Failed (arrForeach count r val 0)) :
    (twoPasses count alloc fill r val).2.1.err ≠ none := by
  unfold twoPasses
  cases hc : arrForeach count r val 0 with
  | ret => rw [hc] at h; exact h
  | next r₁ =>
    rw [hc] at h
    have h : r₁.err ≠ none := h
    simp only [stateLoad_err _ h, arrForeach_err _ _ _ h]
    exact h

/-- An error in the second pass stays. -/
lemma twoPasses_failed_second {val₁ : Val} {c : Nat}
    (hc : arrForeach count r val 0 = .next r₁ val₁ c)
    (h : Failed (arrForeach fill (ujsonReaderStateLoad r₁ (ujsonReaderStateSave r)) val₁
      (alloc c, 0))) :
    (twoPasses count alloc fill r val).2.1.err ≠ none := by
  unfold twoPasses
  simp only [hc]
  cases hf : arrForeach fill (ujsonReaderStateLoad r₁ (ujsonReaderStateSave r)) val₁
      (alloc c, 0) with
  | ret r₂ val₂ s => rw [hf] at h; exact h
  | next r₂ val₂ s => rw [hf] at h; exact h

lemma twoPasses_err (val : Val) (h : r.err ≠ none) :
    (twoPasses count alloc fill r val).2.1.err ≠ none :=
  twoPasses_failed_first (by rw [arrForeach_err _ _ _ h]; exact h)

lemma memberReads_elem {m : Member .arr} (h : Reads m) : MemberReads (some strBufSize) m := by
  cases m with
  | scalar key => exact ⟨keyReads_elem key, h⟩
  | sub key => exact keyReads_elem key

lemma memberClean_elem (m : Member .arr) : MemberClean (some strBufSize) m := by
  cases m with
  | scalar key => exact ⟨keyClean_elem key, .inr ⟨strBufSize, by decide, rfl⟩⟩
  | sub key => exact keyClean_elem key

/-- A loop stops only at an element that does not fit. -/
lemma exists_unfit {σ : Type} {Step : Member .arr → σ → σ → Prop}
    {s : σ} (hl : elem.Lawful type n) (hacc : ∀ x ∈ ms, elem.accepts x)
    (h : Stops (fun m _ => MemberReads (some strBufSize) m ∧ elem.fits m) Step ms s) :
    ∃ x ∈ ms, ¬ elem.fits x := by
  obtain ⟨x, hx, hbad⟩ := h.exists_bad
  exact ⟨x, hx, fun hf => hbad ⟨memberReads_elem (hl.reads (hacc x hx) hf), hf⟩⟩

variable {k : Kind} {key : Key k} {seq : Seq .arr} {w : Ws} {u : List UInt8} {terminator : α}

/-- The elements are right just if all of them fit. -/
lemma forall₂_iff {ys} (h : Forall₂ (fun m y => elem.is m y ↔ elem.fits m) ms ys) :
    Forall₂ elem.is ms ys ↔ ∀ m ∈ ms, elem.fits m := by
  induction h with
  | nil => simp
  | cons hy _ ih => simp [hy, ih]

lemma arraySpec_is_iff {ys} (h : Forall₂ (fun m y => elem.is m y ↔ elem.fits m) seq.members ys) :
    (arraySpec elem terminator).is (.sub key .arr seq) (some (ys ++ [terminator])) ↔
      (arraySpec elem terminator).fits (.sub key .arr seq) := by
  constructor
  · rintro ⟨_, ys', hseq, heq, his⟩ _ hseq''
    cases hseq
    cases hseq''
    obtain rfl : ys = ys' := append_cancel_right (Option.some.inj heq)
    exact (forall₂_iff h).mp his
  · intro hf
    exact ⟨seq, ys, rfl, rfl, (forall₂_iff h).mpr (hf seq rfl)⟩

variable (hl : elem.Lawful type n) (hcount : ElemHandles elem count CountStep e (d + 1))
  (hfill : ElemHandles elem fill (FillStep elem) e (d + 1))
  (halloc : ∀ c, ∃ front, alloc c = front ++ [terminator] ∧ front.length = c) (hd : d < 128)

include hl hcount hfill halloc hd

/-- **Two passes over an array.** The elements are stored in order before the terminating one, each
right just if it fits; or one does not fit and the error is set. -/
theorem twoPasses_ends (hacc : ∀ x ∈ seq.members, elem.accepts x)
    (hclean : ∀ x ∈ seq.members, Clean x)
    (h : Reached e d (.sub key .arr seq) w u r val) :
    (∃ r' val' ys, twoPasses count alloc fill r val =
        (some (ys ++ [terminator], seq.members.length), r', val') ∧
        Forall₂ (fun m y => elem.is m y ↔ elem.fits m) seq.members ys ∧
        val'.bufSize = some strBufSize ∧ r'.At e d u) ∨
      ((∃ x ∈ seq.members, ¬ elem.fits x) ∧ (twoPasses count alloc fill r val).2.1.err ≠ none) := by
  obtain ⟨hat, hsub⟩ := h.at_sub
  have hP : ∀ m ∈ seq.members, elem.accepts m ∧ Clean m := fun m hm => ⟨hacc m hm, hclean m hm⟩
  rcases arrForeach_seq (fun m _ => memberClean_elem m) hcount h.numEnd h.afterClose hP hd
      h.ann.buf 0 hat with ⟨_, _, c, hc, hsteps, hbuf₁, hat₁⟩ | ⟨hstops, hf⟩
  · obtain rfl : c = seq.members.length := by rw [steps_count hsteps, Nat.zero_add]
    have hload := stateLoad_at hat hsub hat₁
    obtain ⟨_, hfront, hlen⟩ := halloc seq.members.length
    rcases arrForeach_seq (fun m _ => memberClean_elem m) hfill h.numEnd h.afterClose hP hd hbuf₁
        (alloc seq.members.length, 0) hload with
      ⟨r₂, val₂, s, hs, hsteps₂, hbuf₂, hat₂⟩ | ⟨hstops, hf⟩
    · obtain ⟨ys, hys, rfl⟩ := steps_fill hsteps₂ (by rw [hfront, length_append]; omega)
      refine .inl ⟨r₂, val₂, ys, ?_, hys, hbuf₂, hat₂⟩
      have hdrop : (alloc seq.members.length).drop seq.members.length = [terminator] := by
        rw [hfront, ← hlen, drop_left]
      simp [twoPasses, hc, hs, hdrop]
    · exact .inr ⟨exists_unfit hl hacc hstops, twoPasses_failed_second hc hf⟩
  · exact .inr ⟨exists_unfit hl hacc hstops, twoPasses_failed_first hf⟩

/-- **Both passes** store the array, or set the error. -/
lemma array_stores {m : Member k} (hm : (arraySpec elem terminator).accepts m) (hclean : Clean m)
    (h : Reached e d m w u r val) {p : Option (List α)}
    (hp : ∀ front c, (twoPasses count alloc fill r val).1 = some (front ++ [terminator], c) →
      front.length = c → p = some (front ++ [terminator])) :
    Stores (arraySpec elem terminator) m id e d u
      (.next (twoPasses count alloc fill r val).2.1 (twoPasses count alloc fill r val).2.2 p) := by
  obtain ⟨seq, hseq, hacc⟩ := hm
  obtain ⟨_, rfl⟩ := array_cases hseq
  rcases twoPasses_ends hl hcount hfill halloc hd hacc (clean_of_array hclean) h with
    ⟨r', val', ys, heq, hys, hbuf, hat⟩ | ⟨⟨x, hx, hbad⟩, herr⟩
  · obtain rfl := hp ys _ (by rw [heq]) hys.length_eq.symm
    rw [heq]
    exact .inl ⟨r', val', _, .empty, rfl, arraySpec_is_iff hys, hbuf, hat⟩
  · exact .inr ⟨fun hf => hbad (hf seq rfl x hx), herr⟩

/-- The value that a parsing function returns, as the end of a round. -/
def Flow.of {β : Type} (x : β × Reader × Val) : Flow β := .next x.2.1 x.2.2 x.1

def filled (x : Option (List α × Nat) × Reader × Val) : Option (List α) × Reader × Val :=
  (x.1.map Prod.fst, x.2)

lemma filled_stores {m : Member k} (hm : (arraySpec elem terminator).accepts m) (hclean : Clean m)
    (h : Reached e d m w u r val) :
    Stores (arraySpec elem terminator) m id e d u
      (Flow.of (filled (twoPasses count alloc fill r val))) := by
  refine array_stores hl hcount hfill halloc hd hm hclean h fun front c hx _ => ?_
  rw [filled, hx]
  rfl

end Two

end Passes

/-! ## Arrays of strings -/

section Strings

variable {k : Kind} {e : Env} {d : Nat} {m : Member k} {w : Ws} {u : List UInt8} {r : Reader}
  {val : Val}

lemma strarrFill_handles : ElemHandles textSpec strarrFill (FillStep textSpec) e d where
  member {m w u r val} s hm hgood hann _ _ hst := by
    obtain ⟨_, hbs, -⟩ := hm.1
    obtain ⟨_, _, rfl, -⟩ := text_cases hbs
    exact .inl ⟨r, val, _, w, rfl, ⟨_, rfl, text_is_iff hbs hgood hann⟩, hann.buf, hst.at_⟩
  err _ _ h := h

/-- An array of strings. -/
lemma parseStrarr_stores (hd : d < 128) (hm : strarrSpec.accepts m) (hclean : Clean m)
    (h : Reached e d m w u r val) :
    Stores strarrSpec m id e d u (Flow.of (parseStrarr r val)) := by
  have hstores := array_stores textSpec_lawful
    (countBody_scalar textSpec_lawful rfl "Expected string!") strarrFill_handles
    (fun c => ⟨replicate c none, replicate_succ', length_replicate⟩) hd hm hclean h
    (p := (parseStrarr r val).1) ?_
  · unfold parseStrarr at hstores ⊢
    rcases hx : twoPasses _ _ _ r val with ⟨_ | ⟨_, i⟩, _, _⟩
    · rw [hx] at hstores; exact hstores
    · rw [hx] at hstores; exact hstores
  intro _ c hx hlen
  unfold parseStrarr
  rcases hx' : twoPasses _ _ _ r val with ⟨_ | ⟨_, i⟩, _, _⟩
  · rw [hx'] at hx; cases hx
  rw [hx'] at hx
  cases hx
  simp [← hlen]

lemma parseStrarr_err (val : Val) (h : r.err ≠ none) : (parseStrarr r val).2.1.err ≠ none := by
  have : (twoPasses (countBody .str "Expected string!" id)
      (fun cnt => replicate (cnt + 1) none) strarrFill r val).2.1.err ≠ none :=
    twoPasses_err val h
  unfold parseStrarr
  rcases hx : twoPasses _ _ _ r val with ⟨_ | ⟨_, i⟩, _, _⟩
  · rw [hx] at this; exact this
  · rw [hx] at this; exact this

end Strings

variable {e : Env} {d : Nat} {w : Ws} {u : List UInt8} {r : Reader} {val : Val}

/-! ## Mount flags -/

variable {bs t : List UInt8} {f : UInt32} {ms : List (Member .arr)} {k : Kind} {key : Key .arr}
  {seq : Seq .arr} {path flags : Member .arr} {m : Member k}

lemma mntFlagsBody_eq (ht : val.type = .str) (hbs : (strdup (valStr val)).1 = bs)
    (hf : mntFlag bs = some f) (ret : UInt32) :
    mntFlagsBody r val ret = .next r val (ret ||| f) := by
  unfold mntFlagsBody
  rw [if_neg (not_not_intro ht)]
  simp only [hbs, strcmp_eq]
  unfold mntFlag at hf
  split_ifs at hf ⊢ <;> cases hf <;> rfl

def MntFlagStep (m : Member .arr) (s s' : UInt32) : Prop :=
  ∃ f, m.text?.bind mntFlag = some f ∧ s' = s ||| f

lemma mntFlagsBody_handles : Handles mntFlagsBody (fun m => (m.text?.bind mntFlag).isSome)
      (MemberReads (some strBufSize)) (Announces (some strBufSize)) (fun _ _ => True) MntFlagStep
      (some strBufSize) e d where
  member {m w u r val} s hm _ hann _ _ hst := by
    obtain ⟨_, f, hbs, hf⟩ := flag_text hm
    have hstr := shortName_str hbs (mntFlag_shortName hf) hann
    obtain ⟨_, _, rfl, -⟩ := text_cases hbs
    refine .inl ⟨r, val, s ||| f, w, mntFlagsBody_eq hann.type hstr hf s, ⟨f, ?_, rfl⟩, hann.buf,
      hst.at_⟩
    rw [hbs]
    exact hf
  err {r} val s h := by
    unfold mntFlagsBody
    split_ifs <;> first | exact h | exact err_ne _ _

/-- The flags are put together. -/
lemma steps_mntFlags {Good : Member .arr → Prop} {s s'}
    (h : Steps (fun m s s' => Good m ∧ MntFlagStep m s s') ms s s') :
    s' = (ms.filterMap fun x => x.text?.bind mntFlag).foldl (· ||| ·) s := by
  induction h with
  | nil => rfl
  | cons hstep _ ih =>
    obtain ⟨f, hf, rfl⟩ := hstep.2
    simp only [filterMap_cons, hf]
    exact ih

/-- The mount flags. -/
lemma parseMntFlags_stores (hd : d < 128) (hm : mntFlagsSpec.accepts m)
    (h : Reached e d m w u r val) :
    Stores mntFlagsSpec m id e d u (Flow.of (parseMntFlags r val)) := by
  obtain ⟨seq, hseq, hflags⟩ := hm
  obtain ⟨_, rfl⟩ := array_cases hseq
  rcases arrForeach_seq (fun m _ => memberClean_elem m) mntFlagsBody_handles h.numEnd h.afterClose
      hflags hd h.ann.buf 0 h.at_sub.1 with ⟨r', val', ret, heq, hsteps, hbuf, hat⟩ | ⟨hstops, -⟩
  · refine .inl ⟨r', val', ret, .empty, ?_, ?_, hbuf, hat⟩
    · simp only [parseMntFlags, heq]
      rfl
    · exact iff_of_true ⟨seq, rfl, steps_mntFlags hsteps⟩ trivial
  -- the names of flags are always read
  obtain ⟨x, hx, hbad⟩ := hstops.exists_bad
  obtain ⟨_, f, hbs, hf⟩ := flag_text (hflags x hx)
  have hreads := reads_of_strFits (scalar_of_text hbs)
    (strFits_of_shortName hbs (mntFlag_shortName hf))
  exact absurd ⟨memberReads_elem hreads, trivial⟩ hbad

lemma parseMntFlags_err (val : Val) (h : r.err ≠ none) : (parseMntFlags r val).2.1.err ≠ none := by
  simp only [parseMntFlags, arrForeach_err _ _ _ h]
  exact h

/-! ## Tags -/

def TagOk (_ : Member .arr) (tag : TstTag) : Prop := tag.name = none ∨ tag.value = none

def TagStep (m : Member .arr) (tag tag' : TstTag) : Prop :=
  ∃ c, (textSpec.is m (some c) ↔ StrFits m) ∧
    ((tag.name = none ∧ tag' = { tag with name := some c }) ∨
      (tag.name ≠ none ∧ tag.value = none ∧ tag' = { tag with value := some c }))

lemma tagBody_handles :
    Handles tagBody (fun m => textSpec.accepts m) (MemberReads (some strBufSize))
      (Announces (some strBufSize)) TagOk TagStep (some strBufSize) e d where
  member {m w u r val} tag hm hgood hann _ _ hst := by
    obtain ⟨_, hbs, -⟩ := hm
    have his := text_is_iff hbs hgood hann
    obtain ⟨_, str, rfl, -⟩ := text_cases hbs
    have ht : val.type = .str := hann.type
    unfold tagBody
    rw [if_neg (not_not_intro ht)]
    rcases tag with ⟨_ | _, value⟩
    · exact .inl ⟨r, val, _, w, rfl, ⟨_, his, .inl ⟨rfl, rfl⟩⟩, hann.buf, hst.at_⟩
    cases value with
    | none => exact .inl ⟨r, val, _, w, rfl, ⟨_, his, .inr ⟨nofun, rfl, rfl⟩⟩, hann.buf, hst.at_⟩
    | some => exact .inr ⟨by simp [TagOk], err_ne _ _⟩
  err {r} val s h := by
    unfold tagBody
    split_ifs <;> first | exact h | exact err_ne _ _

lemma unfit_of_unread {m : Member .arr} (hm : textSpec.accepts m)
    (h : ¬ MemberReads (some strBufSize) m) : ¬ StrFits m := fun hf =>
  h (memberReads_elem (textSpec_lawful.reads hm hf))

/-- The two strings of a tag. -/
lemma tag_loop (hlen : ms.length ≤ 2) (hacc : ∀ x ∈ ms, textSpec.accepts x) {f}
    (h : LoopEnds (MemberReads (some strBufSize)) TagOk TagStep (some strBufSize) e d t ms {} f) :
    (∃ r' val' tag, f = .next r' val' tag ∧ (TagIs ms tag ↔ ∀ x ∈ ms, StrFits x) ∧
        val'.bufSize = some strBufSize ∧ r'.At e d t) ∨
      ((∃ x ∈ ms, ¬ StrFits x) ∧ Failed f) := by
  rcases h with ⟨r', val', tag, heq, hsteps, hbuf, hat⟩ | ⟨hstops, hf⟩
  · refine .inl ⟨r', val', tag, heq, ?_, hbuf, hat⟩
    rcases hsteps with _ | ⟨⟨-, c, hc, h₁⟩, hsteps⟩
    · simp [TagIs]
    obtain ⟨-, rfl⟩ := h₁.resolve_right fun h => h.1 rfl
    rcases hsteps with _ | ⟨⟨-, _, hc', h₂⟩, hsteps⟩
    · simp [TagIs, hc]
    obtain ⟨-, -, rfl⟩ := h₂.resolve_left (by simp)
    rcases hsteps with _ | ⟨-, -⟩
    · simp [TagIs, hc, hc']
    · simp at hlen
  · refine .inr ⟨?_, hf⟩
    rcases hstops with ⟨hbad⟩ | ⟨⟨-, c, -, h₁⟩, hstops⟩
    · exact ⟨_, by simp, unfit_of_unread (hacc _ (by simp)) fun h => hbad ⟨h, .inl rfl⟩⟩
    obtain ⟨-, rfl⟩ := h₁.resolve_right fun h => h.1 rfl
    rcases hstops with ⟨hbad⟩ | ⟨-, hstops⟩
    · exact ⟨_, by simp, unfit_of_unread (hacc _ (by simp)) fun h => hbad ⟨h, .inr rfl⟩⟩
    · rcases hstops with ⟨-⟩ | ⟨-, -⟩ <;> simp at hlen

lemma tagSpec_is_iff {tag} (h : TagIs seq.members tag ↔ ∀ x ∈ seq.members, StrFits x) :
    tagSpec.is (.sub key .arr seq) tag ↔ tagSpec.fits (.sub key .arr seq) := by
  constructor
  · rintro ⟨_, hseq, his⟩ _ hseq''
    cases hseq
    cases hseq''
    exact h.mp his
  · intro hf
    exact ⟨seq, rfl, h.mpr (hf seq rfl)⟩

lemma tagFill_handles (hd : d < 128) : ElemHandles tagSpec tagFill (FillStep tagSpec) e d where
  member {m w u r val} s hm hgood hann hend ht hst := by
    obtain ⟨seq, hseq, hlen, hacc⟩ := hm.1
    obtain ⟨_, rfl⟩ := array_cases hseq
    have h : Reached e d _ w u r val := ⟨hgood, hann, hend, ht, hst⟩
    rcases tag_loop hlen hacc (arrForeach_seq (fun m _ => memberClean_elem m) tagBody_handles hend
      ht hacc hd hann.buf {} h.at_sub.1) with
      ⟨r', val', tag, heq, his, hbuf, hat⟩ | ⟨⟨x, hx, hbad⟩, hf⟩
    · refine .inl ⟨r', val', _, .empty, ?_, ⟨tag, rfl, tagSpec_is_iff his⟩, hbuf, hat⟩
      simp [tagFill, heq]
    refine .inr ⟨fun hfit => hbad (hfit seq rfl x hx), ?_⟩
    unfold tagFill
    cases hloop : arrForeach tagBody r val {} with
    | ret | next => rw [hloop] at hf; exact hf
  err val s h := by
    simp only [tagFill, arrForeach_err _ _ _ h]
    exact h

lemma parseTags_eq (r : Reader) (val : Val) : parseTags r val = filled (twoPasses
      (countBody .arr "Expected array!" fun r => (ujsonArrSkip r).2)
      (fun cnt => replicate (cnt + 1) {}) tagFill r val) := by
  unfold parseTags
  rcases twoPasses _ _ _ r val with ⟨_ | ⟨_, i⟩, _, _⟩ <;> rfl

lemma parseTags_err (val : Val) (h : r.err ≠ none) : (parseTags r val).2.1.err ≠ none := by
  rw [parseTags_eq]
  exact twoPasses_err val h

/-- The tags. -/
lemma parseTags_stores (hd : d + 2 ≤ 128) (hm : (arraySpec tagSpec {}).accepts m)
    (hclean : Clean m) (h : Reached e d m w u r val) :
    Stores (arraySpec tagSpec {}) m id e d u (Flow.of (parseTags r val)) := by
  rw [parseTags_eq]
  exact filled_stores tagSpec_lawful
    (countBody_container .arr tagSpec_lawful (by omega) "Expected array!")
    (tagFill_handles (by omega))
    (fun c => ⟨replicate c {}, replicate_succ', length_replicate⟩) (by omega) hm
    hclean h

/-! ## Paths to save -/

def SaveOk (m : Member .arr) (v : SaveVars) : Prop :=
  (v.path = none ∧ ∃ bs, m.text? = some bs) ∨ (v.path ≠ none ∧ v.valSet = false ∧ v.pval = none ∧
      ((∃ bs, m.text? = some bs) ∨ m.isNull = true)) ∨
    (v.path ≠ none ∧ v.valSet = true ∧ v.flagsSet = false ∧ (m.text?.bind saveFlag).isSome = true)

def SaveStep (m : Member .arr) (v v' : SaveVars) : Prop :=
  SaveOk m v →
    (v.path = none ∧ ∃ c, (textSpec.is m (some c) ↔ StrFits m) ∧ v' = { v with path := some c }) ∨
    (v.path ≠ none ∧ v.valSet = false ∧ ∃ p, (textSpec.is m p ↔ StrFits m) ∧
      v' = { v with pval := p, valSet := true }) ∨
    (v.path ≠ none ∧ v.valSet = true ∧ ∃ f, m.text?.bind saveFlag = some f ∧
      v' = { v with flags := f, flagsSet := true })

/-- An element of an entry is taken, or is an error. -/
lemma saveBody_cases (r : Reader) (val : Val) (v : SaveVars) :
    (∃ v', saveBody r val v = .next r val v') ∨ Failed (saveBody r val v) := by
  unfold saveBody
  split_ifs <;> first | exact .inl ⟨_, rfl⟩ | exact .inr (err_ne _ _)

lemma isNone_of_ne_none {α : Type} {p : Option α} (h : p ≠ none) : p.isNone = false := by
  simpa using Option.isSome_iff_ne_none.mpr h

section SaveBody

variable {v : SaveVars}

lemma saveBody_path (ht : val.type = .str) (hpath : v.path = none) :
    saveBody r val v = .next r val { v with path := some (strdup (valStr val)) } := by
  simp [saveBody, hpath, ht]

lemma saveBody_str (ht : val.type = .str) (hpath : v.path.isNone = false)
    (hval : v.valSet = false) :
    saveBody r val v =
      .next r val { v with pval := some (strdup (valStr val)), valSet := true } := by
  simp [saveBody, hpath, hval, ht]

lemma saveBody_null (ht : val.type = .null) (hpath : v.path.isNone = false)
    (hval : v.valSet = false) (hpval : v.pval = none) :
    saveBody r val v = .next r val { v with pval := none, valSet := true } := by
  rw [← hpval]
  simp [saveBody, hpath, hval, ht, not_true_eq_false]

lemma saveBody_flags (ht : val.type = .str) (hbs : (strdup (valStr val)).1 = bs)
    (hf : saveFlag bs = some f) (hpath : v.path.isNone = false) (hval : v.valSet)
    (hflags : v.flagsSet = false) :
    saveBody r val v = .next r val { v with flags := f, flagsSet := true } := by
  unfold saveBody
  simp only [hpath, hval, hflags, hbs, strcmp_eq, Bool.false_eq_true, if_false, Bool.not_true,
    Bool.not_false, ne_eq]
  unfold saveFlag at hf
  split_ifs at hf ⊢ <;> cases hf <;> rfl

end SaveBody

lemma saveBody_handles :
    Handles saveBody (fun m => ∃ key v, m = .scalar key v) (MemberReads (some strBufSize))
      (Announces (some strBufSize)) SaveOk SaveStep (some strBufSize) e d where
  member {m w u r val} v hm hgood hann _ _ hst := by
    have hat : r.At e d (w.1 ++ u) := by
      obtain ⟨_, s, rfl⟩ := hm
      exact hst.at_
    have hstr : ∀ {bs}, m.text? = some bs → val.type = .str := by
      intro _ hbs
      obtain ⟨_, s, rfl, -⟩ := text_cases hbs
      exact hann.type
    by_cases hok : SaveOk m v
    · rcases id hok with ⟨hpath, _, hbs⟩ | ⟨hpath, hval, hpval, hm⟩ | ⟨hpath, hval, hfl, hflag⟩
      · exact .inl ⟨r, val, _, w, saveBody_path (hstr hbs) hpath,
          fun _ => .inl ⟨hpath, _, text_is_iff hbs hgood hann, rfl⟩, hann.buf, hat⟩
      · have hpath' := isNone_of_ne_none hpath
        rcases hm with ⟨_, hbs⟩ | hnull
        · exact .inl ⟨r, val, _, w, saveBody_str (hstr hbs) hpath' hval,
            fun _ => .inr (.inl ⟨hpath, hval, _, text_is_iff hbs hgood hann, rfl⟩), hann.buf, hat⟩
        obtain ⟨_, rfl⟩ := null_cases hnull
        exact .inl ⟨r, val, _, w, saveBody_null hann.type hpath' hval hpval,
          fun _ => .inr (.inl ⟨hpath, hval, none, iff_of_true rfl trivial, rfl⟩), hann.buf, hat⟩
      · obtain ⟨_, f, hbs, hf⟩ := flag_text hflag
        refine .inl ⟨r, val, _, w, saveBody_flags (hstr hbs)
          (shortName_str hbs (saveFlag_shortName hf) hann) hf (isNone_of_ne_none hpath) hval hfl,
          fun _ => .inr (.inr ⟨hpath, hval, f, ?_, rfl⟩), hann.buf, hat⟩
        rw [hbs]
        exact hf
    · rcases saveBody_cases r val v with ⟨v', heq⟩ | hf
      · exact .inl ⟨r, val, v', w, heq, fun h => absurd h hok, hann.buf, hat⟩
      · exact .inr ⟨hok, hf⟩
  err {r} val v h := by
    unfold saveBody
    split_ifs <;> first | exact h | exact err_ne _ _

def SaveIs (path val flags : Member .arr) (pv : TstPathVal) : Prop :=
  textSpec.is path pv.path ∧ textSpec.is val pv.val ∧ flags.text?.bind saveFlag = some pv.flags

/-- The three elements of an entry. -/
lemma save_loop {val : Member .arr} (hpath : textSpec.accepts path)
    (hval : textSpec.accepts val ∨ val.isNull)
    (hflags : (flags.text?.bind saveFlag).isSome) {f : Flow SaveVars}
    (h : LoopEnds (MemberReads (some strBufSize)) SaveOk SaveStep (some strBufSize) e d t
      [path, val, flags] {} f) :
    (∃ r' val' v, f = .next r' val' v ∧ v.path ≠ none ∧ v.flagsSet ∧
        (SaveIs path val flags ⟨v.path, v.pval, v.flags⟩ ↔
          StrFits path ∧ StrFits val ∧ StrFits flags) ∧
        val'.bufSize = some strBufSize ∧ r'.At e d t) ∨
      (¬ (StrFits path ∧ StrFits val ∧ StrFits flags) ∧ Failed f) := by
  obtain ⟨bs, hbs, -⟩ := id hpath
  have hfits : StrFits flags := by
    obtain ⟨_, _, hfs, hflag⟩ := flag_text hflags
    exact strFits_of_shortName hfs (saveFlag_shortName hflag)
  -- each element is the one that is due
  have hok₁ : SaveOk path {} := .inl ⟨rfl, bs, hbs⟩
  have hok₂ : ∀ c, SaveOk val { path := some c } := fun c =>
    .inr (.inl ⟨nofun, rfl, rfl, hval.imp_left fun ⟨vs, hvs, _⟩ => ⟨vs, hvs⟩⟩)
  have hok₃ : ∀ c p, SaveOk flags { path := some c, pval := p, valSet := true } := fun c p =>
    .inr (.inr ⟨nofun, rfl, rfl, hflags⟩)
  rcases h with ⟨r', val', v, heq, hsteps, hbuf, hat⟩ | ⟨hstops, hf⟩
  · refine .inl ⟨r', val', v, heq, ?_⟩
    rcases hsteps with _ | ⟨⟨-, h₁⟩, _ | ⟨⟨-, h₂⟩, _ | ⟨⟨-, h₃⟩, hnil⟩⟩⟩
    obtain ⟨-, c, hc, rfl⟩ := (h₁ hok₁).resolve_right (by simp)
    obtain ⟨-, -, p, hp, rfl⟩ := ((h₂ (hok₂ c)).resolve_left (by simp)).resolve_right (by simp)
    obtain ⟨-, -, _, hfl, rfl⟩ := ((h₃ (hok₃ c p)).resolve_left (by simp)).resolve_left (by simp)
    cases hnil
    refine ⟨nofun, rfl, ?_, hbuf, hat⟩
    simp [SaveIs, hc, hp, hfl, hfits]
  refine .inr ⟨fun hall => ?_, hf⟩
  have hr₁ : MemberReads (some strBufSize) path :=
    memberReads_elem (textSpec_lawful.reads hpath hall.1)
  have hr₂ : MemberReads (some strBufSize) val := memberReads_elem (reads_of_strFits (by
    rcases hval with ⟨_, hvs, -⟩ | hnull
    · exact scalar_of_text hvs
    · obtain ⟨key, rfl⟩ := null_cases hnull
      exact ⟨key, _, rfl⟩) hall.2.1)
  have hr₃ : MemberReads (some strBufSize) flags := by
    obtain ⟨_, -, hfs, -⟩ := flag_text hflags
    exact memberReads_elem (reads_of_strFits (scalar_of_text hfs) hfits)
  rcases hstops with ⟨hbad⟩ | ⟨⟨-, h₁⟩, hstops⟩
  · exact hbad ⟨hr₁, hok₁⟩
  obtain ⟨-, c, _, rfl⟩ := (h₁ hok₁).resolve_right (by simp)
  rcases hstops with ⟨hbad⟩ | ⟨⟨-, h₂⟩, hstops⟩
  · exact hbad ⟨hr₂, hok₂ c⟩
  obtain ⟨-, -, p, _, rfl⟩ := ((h₂ (hok₂ c)).resolve_left (by simp)).resolve_right (by simp)
  rcases hstops with ⟨hbad⟩ | ⟨-, hstops⟩
  · exact hbad ⟨hr₃, hok₃ c p⟩
  · cases hstops

lemma saveSpec_is_iff {val pv} (hmem : seq.members = [path, val, flags])
    (h : SaveIs path val flags pv ↔ StrFits path ∧ StrFits val ∧ StrFits flags) :
    saveSpec.is (.sub key .arr seq) pv ↔ saveSpec.fits (.sub key .arr seq) := by
  constructor
  · rintro ⟨_, _, _, _, hseq, hmem', his⟩ _ hseq''
    cases hseq
    cases hseq''
    cases hmem.symm.trans hmem'
    rw [hmem]
    simpa using h.mp his
  · intro hf
    have hall := hf seq rfl
    rw [hmem] at hall
    exact ⟨seq, path, val, flags, rfl, hmem, h.mpr (by simpa using hall)⟩

lemma saveFill_handles (hd : d < 128) : ElemHandles saveSpec saveFill (FillStep saveSpec) e d where
  member {m w u r val} s hm hgood hann hend ht hst := by
    obtain ⟨seq, _, v, _, hseq, hmem, hpath, hval, hflags⟩ := id hm.1
    have hscalar := saveSpec_scalar hm.1 hseq
    obtain ⟨_, rfl⟩ := array_cases hseq
    have h : Reached e d _ w u r val := ⟨hgood, hann, hend, ht, hst⟩
    have hloop := arrForeach_seq (fun m _ => memberClean_elem m) saveBody_handles hend
      ht hscalar hd hann.buf {} h.at_sub.1
    rw [hmem] at hloop
    rcases save_loop hpath hval hflags hloop with
      ⟨r', val', v', heq, hp, hset, his, hbuf, hat⟩ | ⟨hbad, hf⟩
    · refine .inl ⟨r', val', _, .empty, ?_, ⟨_, rfl, saveSpec_is_iff hmem his⟩, hbuf, hat⟩
      simp [saveFill, heq, hp, hset]
    refine .inr ⟨fun hfit => hbad ?_, ?_⟩
    · have hall := hfit seq rfl
      rw [hmem] at hall
      simpa using hall
    unfold saveFill
    cases hloop : arrForeach saveBody r val {} with
    | ret => rw [hloop] at hf; exact hf
    | next =>
      rw [hloop] at hf
      simp only
      split
      · exact err_ne _ _
      · exact hf
  err val s h := by
    simp only [saveFill, arrForeach_err _ _ _ h]
    exact err_ne _ _

lemma parseSaveRestore_eq (r : Reader) (val : Val) : parseSaveRestore r val = filled (twoPasses
      (countBody .arr "Expected array!" fun r => (ujsonArrSkip r).2)
      (fun cnt => replicate (cnt + 1) {}) saveFill r val) := by
  unfold parseSaveRestore
  rcases twoPasses _ _ _ r val with ⟨_ | ⟨_, i⟩, _, _⟩ <;> rfl

lemma parseSaveRestore_err (val : Val) (h : r.err ≠ none) :
    (parseSaveRestore r val).2.1.err ≠ none := by
  rw [parseSaveRestore_eq]
  exact twoPasses_err val h

/-- The entries of `save_restore`. -/
lemma parseSaveRestore_stores (hd : d + 2 ≤ 128) (hm : (arraySpec saveSpec {}).accepts m)
    (hclean : Clean m) (h : Reached e d m w u r val) :
    Stores (arraySpec saveSpec {}) m id e d u (Flow.of (parseSaveRestore r val)) := by
  rw [parseSaveRestore_eq]
  exact filled_stores saveSpec_lawful
    (countBody_container .arr saveSpec_lawful (by omega) "Expected array!")
    (saveFill_handles (by omega))
    (fun c => ⟨replicate c {}, replicate_succ', length_replicate⟩) (by omega) hm
    hclean h

end LtpDdt.RunShell
