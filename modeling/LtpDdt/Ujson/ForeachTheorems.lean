/-
Ujson.ForeachTheorems — the rule for the loop macros, and its instances.

`foreach_seq` takes what the function that gets the next member (`ArrivedAt`) and
the body do with one member, and gives what the loop does: a step for every
member (`Steps`), or it ends at one with the error set (`Stops`).

An unknown key is an error for a strict reader, so a filtered loop gets to a member
exactly if its name is found and its value is read.
-/
import LtpDdt.Ujson.Filter

namespace LtpDdt.Ujson

open Json List

variable {wt : Ws} {t : List UInt8}

/-! ## Members -/

/-- What the reader has not read of an announced member. -/
def pendingText {k : Kind} : Member k → List UInt8
  | .scalar _ _ => []
  | .sub _ k' inner => k'.opening :: inner.text true

def memberType {k : Kind} : Member k → UType
  | .scalar _ v => scalarType v
  | .sub _ k' _ => kindType k'

def memberVal {k : Kind} (buf : Option Nat) : Member k → Payload
  | .scalar _ v => scalarSeen buf v
  | .sub _ _ _ => .unset

def MemberReads {k : Kind} (buf : Option Nat) : Member k → Prop
  | .scalar key v => KeyReads key ∧ ScalarReads buf v
  | .sub key _ _ => KeyReads key

def MemberClean {k : Kind} (buf : Option Nat) : Member k → Prop
  | .scalar key v => KeyClean key ∧ Audible buf v
  | .sub key _ _ => KeyClean key

/-- The reader after it announced `m`, with `u` behind the member. -/
structure StandsAt {k : Kind} (e : Env) (d : Nat) (m : Member k) (u : List UInt8) (r : Reader) :
    Prop where
  at_ : r.At e d (pendingText m ++ u)
  sub : (memberType m).kind? ≠ none → r.subOff = r.off

/-- The value after it announced `m`. -/
structure Announces {k : Kind} (buf : Option Nat) (m : Member k) (val : Val) : Prop where
  type : val.type = memberType m
  payload : val.payload = memberVal buf m
  buf : val.bufSize = buf

lemma memberType_ne_void {k} (m : Member k) : memberType m ≠ .void := by
  cases m with
  | scalar key v => exact (scalarType_kind v).1
  | sub key k' => exact (kindType_kind k').1

/-- After getting the next member: the end of the container, a member, or the error. -/
def ArrivedAt {k : Kind} (Good : Member k → Prop) (Ann : Member k → Val → Prop)
    (buf : Option Nat) (e : Env) (d : Nat) (wt : Ws) (t : List UInt8) (s : Seq k)
    (x : Reader × Val) : Prop :=
  match s.uncons with
  | none => x.2.type = .void ∧ x.2.bufSize = buf ∧ x.1.At e (d - 1) t
  | some (m, next) =>
    (Good m ∧ Ann m x.2 ∧ StandsAt e d m (next.text false ++ (wt.1 ++ t)) x.1) ∨
    (¬ Good m ∧ x.1.err ≠ none)

lemma Arrived.arrivedAt {buf} {e : Env} {d : Nat} {k : Kind} {s : Seq k} {x}
    (h : Arrived buf e d wt t s x) :
    ArrivedAt (MemberReads buf) (Announces buf) buf e d wt t s x := by
  cases s with
  | nil => exact h
  | scalar sep lead key v =>
    rcases h with ⟨hk, hv, hann, hpay, hat⟩ | h
    · refine .inl ⟨⟨hk, hv⟩, ⟨hann.type, hpay, hann.buf⟩, hat, fun hne => ?_⟩
      exact absurd (scalarType_kind v).2 hne
    · exact .inr h
  | sub sep lead key k' =>
    rcases h with ⟨hk, hann, hsub, hat⟩ | h
    · refine .inl ⟨hk, ⟨hann.type, ?_, hann.buf⟩, ?_, fun _ => hsub⟩
      · unfold Val.payload
        rw [hann.type]
        cases k' <;> rfl
      · simpa [pendingText] using hat
    · exact .inr h

/-! ## The rule -/

section Rule

variable {σ : Type} {k : Kind}

def Flow.reader : Flow σ → Reader
  | .next r _ _ => r
  | .ret r _ _ => r

def Failed (f : Flow σ) : Prop := f.reader.err ≠ none

inductive Steps (Step : Member k → σ → σ → Prop) : List (Member k) → σ → σ → Prop
  | nil (s : σ) : Steps Step [] s s
  | cons {m : Member k} {ms : List (Member k)} {s s₁ s' : σ} :
      Step m s s₁ → Steps Step ms s₁ s' → Steps Step (m :: ms) s s'

/-- Steps up to a member that is not in order. -/
inductive Stops (Ok : Member k → σ → Prop) (Step : Member k → σ → σ → Prop) :
    List (Member k) → σ → Prop
  | here {m : Member k} {ms : List (Member k)} {s : σ} : ¬ Ok m s → Stops Ok Step (m :: ms) s
  | later {m : Member k} {ms : List (Member k)} {s s₁ : σ} :
      Step m s s₁ → Stops Ok Step ms s₁ → Stops Ok Step (m :: ms) s

lemma Stops.exists_bad {Ok : Member k → Prop} {Step : Member k → σ → σ → Prop} {ms s}
    (h : Stops (fun m _ => Ok m) Step ms s) : ∃ m ∈ ms, ¬ Ok m := by
  induction h with
  | here hbad => exact ⟨_, mem_cons_self, hbad⟩
  | later _ _ ih =>
    obtain ⟨m, hm, hbad⟩ := ih
    exact ⟨m, mem_cons_of_mem _ hm, hbad⟩

lemma Steps.forall {Step : Member k → σ → σ → Prop} {Q : Member k → Prop} {ms s s'}
    (h : Steps Step ms s s') (hQ : ∀ m s s', Step m s s' → Q m) : ∀ m ∈ ms, Q m := by
  induction h with
  | nil => nofun
  | cons hstep _ ih => exact forall_mem_cons.mpr ⟨hQ _ _ _ hstep, ih⟩

/-- What a loop over the members `ms` ends with. -/
def LoopEnds (Good : Member k → Prop) (Ok : Member k → σ → Prop) (Step : Member k → σ → σ → Prop)
    (buf : Option Nat) (e : Env) (d : Nat) (t : List UInt8) (ms : List (Member k)) (s : σ)
    (f : Flow σ) : Prop :=
  (∃ r' val' s', f = .next r' val' s' ∧ Steps (fun m s s' => Good m ∧ Step m s s') ms s s' ∧
      val'.bufSize = buf ∧ r'.At e d t) ∨
    (Stops (fun m s => Good m ∧ Ok m s) (fun m s s' => Good m ∧ Step m s s') ms s ∧ Failed f)

variable {buf : Option Nat} {e : Env} {d : Nat}
  {next : Reader → Val → Bool × Reader × Val} {body : Reader → Val → σ → Flow σ}
  {P Good : Member k → Prop} {Ann : Member k → Val → Prop} {Ok : Member k → σ → Prop}
  {Step : Member k → σ → σ → Prop}

/-- What the rule asks of the function that gets the next member. -/
structure Gets (next : Reader → Val → Bool × Reader × Val) (P Good : Member k → Prop)
    (Ann : Member k → Val → Prop) (buf : Option Nat) (e : Env) (d : Nat) : Prop where
  arrives : ∀ {s : Seq k} {w wt : Ws} {t : List UInt8} {r : Reader} {val : Val},
    (∀ m ∈ s.members, P m) → val.bufSize = buf → numEnd t = true → AfterClose t →
      r.At e d (w.1 ++ (seqBody s ++ (wt.1 ++ t))) →
      ArrivedAt Good Ann buf e d wt t s (next r val).2
  err : ∀ {r : Reader} (val : Val), r.err ≠ none → (next r val).2 = (r, { val with type := .void })
  type : ∀ {m : Member k} {val : Val}, Ann m val → val.type ≠ .void

structure Handles (body : Reader → Val → σ → Flow σ) (P Good : Member k → Prop)
    (Ann : Member k → Val → Prop) (Ok : Member k → σ → Prop) (Step : Member k → σ → σ → Prop)
    (buf : Option Nat) (e : Env) (d : Nat) : Prop where
  member : ∀ {m : Member k} {w : Ws} {u : List UInt8} {r : Reader} {val : Val} (s : σ),
    P m → Good m → Ann m val → numEnd u = true → AfterClose u → StandsAt e d m (w.1 ++ u) r →
      (∃ (r' : Reader) (val' : Val) (s' : σ) (w' : Ws),
        body r val s = .next r' val' s' ∧ Step m s s' ∧ val'.bufSize = buf ∧
          r'.At e d (w'.1 ++ u)) ∨
      (¬ Ok m s ∧ Failed (body r val s))
  err : ∀ {r : Reader} (val : Val) (s : σ), r.err ≠ none → Failed (body r val s)

lemma foreachLoop_err (hnext : ∀ {r : Reader} (val : Val), r.err ≠ none →
      (next r val).2 = (r, { val with type := .void }))
    (hb : ∀ {r : Reader} (val : Val) (s : σ), r.err ≠ none → Failed (body r val s))
    (n : Nat) {x : Reader × Val} (s : σ) (h : x.1.err ≠ none) :
    Failed (foreachLoop next body n x s) := by
  obtain ⟨r, val⟩ := x
  cases n with
  | zero => exact h
  | succ n =>
    rw [foreachLoop]
    split
    · exact h
    have hf := hb val s h
    cases hbody : body r val s with
    | ret => rw [hbody] at hf; exact hf
    | next r' val' s' =>
      rw [hbody] at hf
      have hf' : r'.err ≠ none := hf
      show Failed (foreachLoop next body n (next r' val').2 s')
      rw [hnext val' hf']
      cases n with
      | zero => exact hf
      | succ => rw [foreachLoop]; exact hf

/-- One round of the loop. -/
lemma foreachLoop_step (hg : Gets next P Good Ann buf e d)
    (hb : Handles body P Good Ann Ok Step buf e d) {m : Member k} {rest : Seq k}
    (hP : P m) (hrest : ∀ m ∈ rest.members, P m) {n : Nat}
    (hend : numEnd t) (ht : AfterClose t) {r : Reader} {val : Val} (s : σ)
    (h : (Good m ∧ Ann m val ∧ StandsAt e d m (rest.text false ++ (wt.1 ++ t)) r) ∨
      (¬ Good m ∧ r.err ≠ none)) :
    (∃ x s₁, foreachLoop next body (n + 1) (r, val) s = foreachLoop next body n x s₁ ∧
        (Good m ∧ Step m s s₁) ∧ ArrivedAt Good Ann buf e d wt t rest x) ∨
      (¬ (Good m ∧ Ok m s) ∧ Failed (foreachLoop next body (n + 1) (r, val) s)) := by
  rcases h with ⟨hgood, hann, hstand⟩ | ⟨hbad, herr⟩
  · have hne := hg.type hann
    rw [text_eq_lead_body, append_assoc] at hstand
    have hend' := numEnd_body rest wt hend
    rw [foreachLoop, if_neg hne]
    rcases hb.member s hP hgood hann hend' (afterClose_body rest _) hstand with
      ⟨r', val', s₁, w', hbody, hstep, hbuf, hat⟩ | ⟨hbad, hf⟩
    · rw [hbody]
      exact .inl ⟨_, s₁, rfl, ⟨hgood, hstep⟩, hg.arrives hrest hbuf hend ht hat⟩
    refine .inr ⟨fun h => hbad h.2, ?_⟩
    cases hbody : body r val s with
    | ret => rw [hbody] at hf; exact hf
    | next r' val' s' =>
      rw [hbody] at hf
      have hf' : r'.err ≠ none := hf
      show Failed (foreachLoop next body n (next r' val').2 s')
      rw [hg.err val' hf']
      exact foreachLoop_err hg.err hb.err n s' hf'
  · exact .inr ⟨fun h => hbad h.1, foreachLoop_err hg.err hb.err (n + 1) s herr⟩

lemma LoopEnds.cons {m ms s s₁ t f} (hstep : Good m ∧ Step m s s₁)
    (h : LoopEnds Good Ok Step buf e d t ms s₁ f) :
    LoopEnds Good Ok Step buf e d t (m :: ms) s f := by
  rcases h with ⟨r', val', s', hf, hsteps, hrest⟩ | ⟨hstops, hf⟩
  · exact .inl ⟨r', val', s', hf, .cons hstep hsteps, hrest⟩
  · exact .inr ⟨.later hstep hstops, hf⟩

/-- **The loop rule.** The induction is over the members. -/
theorem foreach_seq (hg : Gets next P Good Ann buf e d)
    (hb : Handles body P Good Ann Ok Step buf e d) (hend : numEnd t) (ht : AfterClose t)
    (seq : Seq k) : ∀ {n} {x} s,
    (∀ m ∈ seq.members, P m) → seqRounds seq ≤ n → ArrivedAt Good Ann buf e d wt t seq x →
      LoopEnds Good Ok Step buf e (d - 1) t seq.members s (foreachLoop next body n x s)  := by
  induction seq with
  | nil =>
    rintro n ⟨r, val⟩ s - hn ⟨hvoid, hbuf, hat⟩
    rcases n with _ | n
    · simp only [seqRounds] at hn; omega
    rw [foreachLoop, if_pos hvoid]
    exact .inl ⟨r, val, s, rfl, .nil s, hbuf, hat⟩
  | scalar sep lead key v rest ih | sub sep lead key k' inner rest _ ih =>
    rintro n ⟨r, _⟩ s hP hn h
    rcases n with _ | n
    · simp only [seqRounds] at hn; omega
    simp only [Seq.members, mem_cons, forall_eq_or_imp] at hP
    simp only [seqRounds] at hn
    rcases foreachLoop_step hg hb hP.1 hP.2 hend ht s h with ⟨x, s₁, heq, hstep, harr⟩ | ⟨hbad, hf⟩
    · rw [heq]
      exact (ih hg hb (n := n) s₁ hP.2 (by omega) harr).cons hstep
    · exact .inr ⟨.here hbad, hf⟩

end Rule

variable {k : Kind} {rest : Seq k}

/-! ## Skipping -/

lemma skipLoop_eq (n : Nat) (k : Kind) (x : Reader × Val) :
    skipLoop n k x = (false, (walkLoop none n k x).2) := by
  induction n generalizing k x with
  | zero => rfl
  | succ n ih =>
    obtain ⟨r, res⟩ := x
    rw [skipLoop]
    split_ifs with hv
    · rw [walkLoop_void none (n + 1) k hv]
    cases hk : res.type.kind? with
    | none => rw [walkLoop_scalar none n k hv hk, ih]
    | some k' =>
      rcases hin : walkLoop none n k' (firstOf k' r {}).2 with ⟨_, _⟩
      simp only [ih, hin]
      rw [walkLoop_sub none n k k' hv hk hin]

/-- `ujson_arr_skip` and `ujson_obj_skip` -/
def skipOf : Kind → Reader → Bool × Reader
  | .arr => ujsonArrSkip
  | .obj => ujsonObjSkip

variable {r : Reader} {s : Seq k} {t : List UInt8} {wt : Ws}

lemma Reader.At.rounds {e d} {w : Ws} (h : r.At e d (w.1 ++ k.opening :: (s.text true ++ t))) :
    seqRounds s ≤ r.json.length + 1 := by
  have hle := seqRounds_le s true
  have hlen := h.off
  simp only [length_cons, length_append] at hlen
  omega

section Skip

variable {r : Reader} {e : Env} {d : Nat} {w wt : Ws} {t : List UInt8}

/-- An object or array is skipped whole. -/
lemma skipOf_seq (hs : SeqClean none s) (hd : d + 1 + s.depth ≤ 128) (hend : numEnd t)
    (ht : AfterClose t) (h : r.At e d (w.1 ++ k.opening :: (s.text true ++ (wt.1 ++ t)))) :
    ∃ r', skipOf k r = (false, r') ∧ (SeqReads none s → r'.At e d t) ∧
      (¬ SeqReads none s → r'.err ≠ none) := by
  have hfirst := firstOf_arrived {} hs.head rfl (by omega) hend ht h
  obtain ⟨hgood, hbad⟩ := walkLoop_seq s (r.json.length + 1) (d + 1) wt t _ hs (Nat.succ_pos d) hd
    h.rounds hend ht
    hfirst
  refine ⟨(walkLoop none (r.json.length + 1) k (firstOf k r {}).2).2, ?_, fun h => (hgood h).2,
    hbad⟩
  cases k <;> exact skipLoop_eq _ _ _

lemma skipObjVal_scalar {v : Scalar} (hv : ScalarReads none v) (hend : numEnd t) (ht : NoDigit t)
    (h : r.At e d (w.1 ++ (v.text ++ t))) : ∃ r', skipObjVal r = (true, r') ∧ r'.At e d t := by
  obtain ⟨r', he, h'⟩ := getValue_scalar {} hv hend ht h
  refine ⟨r', ?_, h'⟩
  simp only [skipObjVal, he]
  cases v with
  | num n => cases hint : n.isInt <;> simp [storeScalar, scalarType, hint]
  | bool | null | str => rfl

lemma skipObjVal_sub (hs : SeqClean none s) (hd : d + 1 + s.depth ≤ 128) (hend : numEnd t)
    (ht : AfterClose t) (h : r.At e d (w.1 ++ k.opening :: (s.text true ++ (wt.1 ++ t)))) :
    ∃ r', skipObjVal r = (true, r') ∧ (SeqReads none s → r'.At e d t) ∧
      (¬ SeqReads none s → r'.err ≠ none) := by
  obtain ⟨r₁, he₁, h₁, -⟩ := getValue_container {} h
  obtain ⟨r₂, he₂, hgood, hbad⟩ := skipOf_seq (w := .empty) hs hd hend ht h₁
  refine ⟨r₂, ?_, hgood, hbad⟩
  cases k with
  | arr => simp only [skipObjVal, he₁, show ujsonArrSkip r₁ = _ from he₂]; rfl
  | obj => simp only [skipObjVal, he₁, show ujsonObjSkip r₁ = _ from he₂]; rfl

end Skip

/-! ## Arrays -/

lemma headClean_of_members {buf} (h : ∀ m ∈ s.members, MemberClean buf m) : HeadClean buf s := by
  cases s with
  | nil => trivial
  | scalar sep lead key v => exact h (.scalar key v) (by simp [Seq.members])
  | sub sep lead key k' inner => exact h (.sub key k' inner) (by simp [Seq.members])

section Arrays

variable {σ : Type} {buf : Option Nat} {e : Env} {d : Nat} {P : Member .arr → Prop}
  {body : Reader → Val → σ → Flow σ} {Ok : Member .arr → σ → Prop}
  {Step : Member .arr → σ → σ → Prop}

lemma gets_arr (hP : ∀ m, P m → MemberClean buf m) :
    Gets ujsonArrNext P (MemberReads buf) (Announces buf) buf e (d + 1) where
  arrives hm hbuf hend ht h :=
    (nextOf_arrived (headClean_of_members fun m hmem => hP m (hm m hmem)) hbuf hend ht
      (Nat.succ_pos d) h).arrivedAt
  err val h := congrArg Prod.snd (nextOf_err .arr val h)
  type h := by rw [h.type]; exact memberType_ne_void _

/-- **The loop over an array** handles its members in order. -/
lemma arrForeach_seq (hP : ∀ m, P m → MemberClean buf m)
    (hb : Handles body P (MemberReads buf) (Announces buf) Ok Step buf e (d + 1)) {w : Ws}
    (hend : numEnd t) (ht : AfterClose t) {seq : Seq .arr} (hm : ∀ m ∈ seq.members, P m)
    (hd : d < 128) {val : Val} (hbuf : val.bufSize = buf) (s : σ)
    (h : r.At e d (w.1 ++ Kind.opening .arr :: (seq.text true ++ (wt.1 ++ t)))) :
    LoopEnds (MemberReads buf) Ok Step buf e d t seq.members s (arrForeach body r val s) := by
  have hfirst := firstOf_arrived val (headClean_of_members fun m hmem => hP m (hm m hmem)) hbuf hd
    hend ht h
  exact foreach_seq (gets_arr hP) hb hend ht seq s hm h.rounds hfirst.arrivedAt

lemma arrForeach_err (body : Reader → Val → σ → Flow σ) (val : Val) (s : σ) (h : r.err ≠ none) :
    arrForeach body r val s = .next r { val with type := .void } s := by
  have he : ujsonArrFirst r val = _ := firstOf_err .arr val h
  unfold arrForeach
  rw [he, foreachLoop, if_pos rfl]

end Arrays

/-! ## Objects with a table -/

def valueText {k : Kind} : Member k → List UInt8
  | .scalar _ v => v.text
  | .sub _ k' inner => k'.opening :: inner.text true

/-- The index that the name of a member has in the table. -/
def memberIdx (attrs : List ObjAttr) (m : Member .obj) : Option Nat :=
  ujsonLookup attrs (keyId m.key)

def FilterReads (attrs : List ObjAttr) (buf : Option Nat) (m : Member .obj) : Prop :=
  MemberReads buf m ∧ (memberIdx attrs m).isSome = true

structure FilterAnnounces (attrs : List ObjAttr) (buf : Option Nat) (m : Member .obj) (val : Val) :
    Prop where
  base : Announces buf m val
  idx : val.idx = memberIdx attrs m

/-- The value can be skipped at depth `d`, or sets the error. -/
def SkipClean (d : Nat) : Member .obj → Prop
  | .scalar _ v => ScalarReads none v
  | .sub _ _ inner => SeqClean none inner ∧ d + 1 + inner.depth ≤ 128

/-- What the reader needs to know about a member: its type is the one in the
table. -/
structure FilterClean (attrs : List ObjAttr) (buf : Option Nat) (d : Nat) (m : Member .obj) :
    Prop where
  clean : MemberClean buf m
  accepts : ∀ i, memberIdx attrs m = some i →
    (attrs.getD i ⟨[], .void⟩).accepts (memberType m) = true
  skip : SkipClean d m

lemma Reader.warn_err (x : ReaderErr) (h : r.strict ∨ r.err ≠ none) : (r.warn x).err ≠ none := by
  unfold Reader.warn
  cases hs : r.strict with
  | true => simp [Reader.fail]
  | false => simpa [hs] using h

lemma objPreNext_err (res : Val) (h : r.err ≠ none) : objPreNext r res = (true, r, res) := by
  unfold objPreNext
  rw [if_pos (Option.isSome_iff_ne_none.mpr h)]

lemma ujsonEmptyObj_any (id : List UInt8) :
    (ujsonEmptyObj.any fun attrs => (ujsonLookup attrs id).isNone) := rfl

section Filter

variable {attrs : List ObjAttr} {buf : Option Nat} {e : Env} {d : Nat} {r : Reader} {res : Val}
  {m : Member .obj} {w : Ws} {u : List UInt8}

lemma skipObjVal_member {w' : Ws} (hm : SkipClean d m) (hend : numEnd u) (ht : AfterClose u)
    (hd : NoDigit (w.1 ++ u)) (h : r.At e d (w'.1 ++ (valueText m ++ (w.1 ++ u)))) :
    ∃ r', skipObjVal r = (true, r') ∧ (r'.strict = e.strict ∨ r'.err ≠ none) := by
  cases m with
  | scalar =>
    obtain ⟨r', he, h'⟩ := skipObjVal_scalar hm (by rw [numEnd_ws w.2, hend]) hd h
    exact ⟨r', he, .inl h'.strict⟩
  | sub key k' inner =>
    obtain ⟨r', he, hgood, hbad⟩ := skipObjVal_sub hm.1 hm.2 hend ht h
    refine ⟨r', he, ?_⟩
    by_cases hr : SeqReads none inner
    · exact .inl (hgood hr).strict
    · exact .inr (hbad hr)

lemma getValue_member {w' : Ws} (res : Val) (hc : MemberClean buf m) (hbuf : res.bufSize = buf)
    (hk : KeyReads m.key) (hend : numEnd u) (hd : NoDigit (w.1 ++ u))
    (h : r.At e d (w'.1 ++ (valueText m ++ (w.1 ++ u)))) :
    (MemberReads buf m ∧ ∃ r' val, getValue r res = (true, r', val) ∧ Announces buf m val ∧
        val.idx = res.idx ∧ StandsAt e d m (w.1 ++ u) r') ∨
      (¬ MemberReads buf m ∧ ∃ r' val, getValue r res = (false, r', val) ∧ r'.err ≠ none) := by
  cases m with
  | scalar key v =>
    have hend' : numEnd (w.1 ++ u) := by rw [numEnd_ws w.2, hend]
    by_cases hread : ScalarReads buf v
    · rw [← hbuf] at hread
      obtain ⟨r', he, h'⟩ := getValue_scalar _ hread hend' hd h
      rw [hbuf] at hread
      refine .inl ⟨⟨hk, hread⟩, r', _, he, ⟨rfl, ?_, hbuf⟩, rfl, h', fun hne => ?_⟩
      · rw [storeScalar_payload, hbuf]
        rfl
      · exact absurd (scalarType_kind v).2 hne
    · obtain ⟨_, hlen, rfl⟩ := hc.2.resolve_left hread
      obtain ⟨r', he, herr⟩ := getValue_short hbuf hlen hread hend' h
      exact .inr ⟨fun hm => hread hm.2, r', _, he, herr⟩
  | sub key k' =>
    obtain ⟨r', he, h', hsub⟩ := getValue_container res h
    refine .inl ⟨hk, r', _, he, ⟨rfl, ?_, hbuf⟩, rfl, ?_, fun _ => hsub⟩
    · cases k' <;> rfl
    · simpa [pendingText] using h'

/-- A member passes the filter or is skipped. -/
lemma objNextFilter_member (n : Nat) (hstrict : e.strict) (hm : FilterClean attrs buf d m)
    (hbuf : res.bufSize = buf) (hend : numEnd u) (ht : AfterClose u) (hd : NoDigit (w.1 ++ u))
    (h : r.At e d (m.key.text ++ (valueText m ++ (w.1 ++ u)))) :
    (FilterReads attrs buf m ∧
        FilterAnnounces attrs buf m (objNextFilter (some attrs) ujsonEmptyObj (n + 1) r res).2.2 ∧
        StandsAt e d m (w.1 ++ u) (objNextFilter (some attrs) ujsonEmptyObj (n + 1) r res).2.1) ∨
      (¬ FilterReads attrs buf m ∧
        (objNextFilter (some attrs) ujsonEmptyObj (n + 1) r res).2.1.err ≠ none) := by
  have hclean : KeyClean m.key := by
    cases m with
    | scalar => exact hm.clean.1
    | sub => exact hm.clean
  by_cases hk : KeyReads m.key
  · obtain ⟨_, _, he₁, h₁⟩ := copyIdStr_key hclean hk h
    cases hidx : memberIdx attrs m with
    | none =>
      obtain ⟨_, he₂, h₂⟩ := skipObjVal_member hm.skip hend ht hd h₁
      rw [hstrict] at h₂
      refine .inr ⟨fun hr => by simp [FilterReads, hidx] at hr, ?_⟩
      have hl : ujsonLookup attrs (keyId m.key) = none := hidx
      have herr := Reader.warn_err (.unexpectedKey (keyId m.key)) h₂
      simp only [objNextFilter, he₁, Option.bind_some, hl, he₂, ujsonEmptyObj_any, if_true,
        objPreNext_err _ herr]
      exact herr
    | some i =>
      have hl : ujsonLookup attrs (keyId m.key) = some i := hidx
      rcases getValue_member { res with id := keyId m.key, idx := some i } hm.clean hbuf
        hk hend hd h₁ with ⟨hr, r', val, he, hann, hvi, hst⟩ | ⟨hr, r', val, he, herr⟩
      · have hacc := hm.accepts i hidx
        rw [← hann.type] at hacc
        refine .inl ⟨⟨hr, by rw [hidx]; rfl⟩, ?_⟩
        simp only [objNextFilter, he₁, Option.bind_some, hl, he, Option.getD_some, hacc]
        exact ⟨⟨hann, hvi.trans hidx.symm⟩, hst⟩
      · refine .inr ⟨fun h => hr h.1, ?_⟩
        simp only [objNextFilter, he₁, Option.bind_some, hl, he]
        exact herr
  · obtain ⟨_, he₁, herr⟩ := copyIdStr_longKey hclean hk h
    refine .inr ⟨fun hr => hk ?_, ?_⟩
    · have hr := hr.1
      cases m with
      | scalar => exact hr.1
      | sub => exact hr
    · simp only [objNextFilter, he₁]
      exact herr

lemma seqBody_member {m : Member k} (h : s.uncons = some (m, rest)) :
    ∃ lead : Ws, s.text true = lead.1 ++ (m.key.text ++ (valueText m ++ rest.text false)) ∧
      seqBody s = 0x2c :: (lead.1 ++ (m.key.text ++ (valueText m ++ rest.text false))) := by
  cases s with
  | nil => cases h
  | scalar sep lead =>
    cases h
    exact ⟨lead, by simp [Seq.text, sepText, Member.key, valueText], rfl⟩
  | sub sep lead =>
    cases h
    exact ⟨lead, by simp [Seq.text, sepText, Member.key, valueText], by
      simp [seqBody, Member.key, valueText]⟩

lemma uncons_none (h : s.uncons = none) : ∃ ws, s = .nil ws := by
  cases s with
  | nil ws => exact ⟨ws, rfl⟩
  | scalar | sub => cases h

lemma uncons_members {m} (h : s.uncons = some (m, rest)) : s.members = m :: rest.members := by
  cases s with
  | nil => cases h
  | scalar | sub => cases h; rfl

lemma uncons_depth {m : Member k} (h : s.uncons = some (m, rest)) :
    s.depth = max m.depth rest.depth := by
  cases s with
  | nil => cases h
  | scalar
  | sub => cases h; simp [Seq.depth, Member.depth]

lemma uncons_mem {m} (h : s.uncons = some (m, rest)) : m ∈ s.members := by
  rw [uncons_members h]
  exact mem_cons_self

lemma ValueStart.member (m : Member k) (t : List UInt8) : ValueStart (valueText m ++ t) := by
  cases m with
  | scalar key v => exact .scalar v t
  | sub key k' => exact .container k' _

/-! The calls at the end and in front of the first member of `s`. -/

section calls

variable {s rest : Seq .obj} {w wt : Ws} {t : List UInt8} (val : Val)

lemma objPreNext_end (hs : s.uncons = none) (ht : AfterClose t) (hpos : 0 < d)
    (h : r.At e d (w.1 ++ (seqBody s ++ (wt.1 ++ t)))) :
    ∃ r', objPreNext r val = (true, r', { val with type := .void }) ∧ r'.At e (d - 1) t := by
  have hno := h.noErr
  obtain ⟨_, rfl⟩ := uncons_none hs
  obtain ⟨r', he, h'⟩ := checkEnd_close val rfl ht hpos h
  refine ⟨r', ?_, h'⟩
  simp only [objPreNext, hno, Bool.false_eq_true, if_false]
  rw [show checkEnd r val 0x7d = _ from he]

lemma objPreNext_member (hs : s.uncons = some (m, rest))
    (h : r.At e d (w.1 ++ (seqBody s ++ (wt.1 ++ t)))) :
    ∃ r', objPreNext r val = (false, r', val) ∧
      r'.At e d (m.key.text ++ (valueText m ++ (rest.text false ++ (wt.1 ++ t)))) := by
  have hno := h.noErr
  obtain ⟨_, -, hbody⟩ := seqBody_member hs
  rw [hbody] at h
  simp only [cons_append, append_assoc] at h
  obtain ⟨_, r', he₁, he₂, -, h'⟩ := next_steps (.member m _) h val
  refine ⟨r', ?_, h'⟩
  simp only [objPreNext, hno]
  rw [show checkEnd r val 0x7d = _ from he₁]
  exact he₂

variable (obj ign : Option (List ObjAttr))

lemma firstFilter_end (hd : d < 128) (hs : s.uncons = none) (ht : AfterClose t)
    (h : r.At e d (w.1 ++ Kind.opening .obj :: (s.text true ++ (wt.1 ++ t)))) :
    ∃ r', ujsonObjFirstFilter r val obj ign = (false, r', { val with type := .void }) ∧
      r'.At e d t := by
  have hno := h.noErr
  obtain ⟨_, rfl⟩ := uncons_none hs
  simp only [Seq.text, append_assoc] at h
  obtain ⟨r₁, he₁, h₁⟩ := anyFirst_at rfl hd h
  obtain ⟨r', he, h'⟩ := checkEnd_close val rfl ht (Nat.succ_pos d) h₁
  refine ⟨r', ?_, h'⟩
  simp only [ujsonObjFirstFilter, hno, Bool.false_eq_true, if_false]
  rw [show anyFirst r 0x7b = _ from he₁]
  simp only
  rw [show checkEnd r₁ val 0x7d = _ from he]

lemma firstFilter_member (hd : d < 128) (hs : s.uncons = some (m, rest))
    (h : r.At e d (w.1 ++ Kind.opening .obj :: (s.text true ++ (wt.1 ++ t)))) :
    ∃ r', ujsonObjFirstFilter r val obj ign = objNextFilter obj ign (r'.json.length + 1) r' val ∧
      r'.At e (d + 1) (m.key.text ++ (valueText m ++ (rest.text false ++ (wt.1 ++ t)))) := by
  have hno := h.noErr
  obtain ⟨_, htext, -⟩ := seqBody_member hs
  rw [htext] at h
  simp only [append_assoc] at h
  obtain ⟨r₁, r', he₁, he₂, h'⟩ := first_steps hd (.member m _) h val
  refine ⟨r', ?_, h'⟩
  simp only [ujsonObjFirstFilter, hno, Bool.false_eq_true, if_false]
  rw [show anyFirst r 0x7b = _ from he₁]
  simp only
  rw [show checkEnd r₁ val 0x7d = _ from he₂]

end calls

lemma filter_arrived {s rest : Seq .obj} (n : Nat) (hstrict : e.strict)
    (hs : s.uncons = some (m, rest)) (hm : FilterClean attrs buf d m) (hbuf : res.bufSize = buf)
    (hend : numEnd t)
    (h : r.At e d (m.key.text ++ (valueText m ++ (rest.text false ++ (wt.1 ++ t))))) :
    ArrivedAt (FilterReads attrs buf) (FilterAnnounces attrs buf) buf e d wt t s
      (objNextFilter (some attrs) ujsonEmptyObj (n + 1) r res).2 := by
  have hd := noDigit_seq rest (wt.1 ++ t)
  rw [text_eq_lead_body, append_assoc] at h hd
  have := objNextFilter_member n hstrict hm hbuf (numEnd_body rest wt hend) (afterClose_body rest _)
    hd h
  rw [← append_assoc, ← text_eq_lead_body] at this
  unfold ArrivedAt
  rw [hs]
  exact this

variable {σ : Type} {P : Member .obj → Prop} {body : Reader → Val → σ → Flow σ}
  {Ok : Member .obj → σ → Prop} {Step : Member .obj → σ → σ → Prop}

lemma gets_filter (hstrict : e.strict) (hP : ∀ m, P m → FilterClean attrs buf (d + 1) m) :
    Gets (fun r val => ujsonObjNextFilter r val (some attrs) ujsonEmptyObj) P
      (FilterReads attrs buf) (FilterAnnounces attrs buf) buf e (d + 1) where
  arrives {s w wt t r val} hm hbuf hend ht h := by
    have hno := h.noErr
    simp only [ujsonObjNextFilter, hno]
    cases hs : s.uncons with
    | none =>
      obtain ⟨_, he, h'⟩ := objPreNext_end val hs ht (Nat.succ_pos d) h
      rw [he]
      obtain ⟨_, rfl⟩ := uncons_none hs
      exact ⟨rfl, hbuf, h'⟩
    | some x =>
      obtain ⟨m, _⟩ := x
      obtain ⟨_, he, h'⟩ := objPreNext_member val hs h
      rw [he]
      exact filter_arrived _ hstrict hs (hP m (hm m (uncons_mem hs))) hbuf hend h'
  err {r} val h := by simp [ujsonObjNextFilter, Option.isSome_iff_ne_none.mpr h]
  type h := by rw [h.base.type]; exact memberType_ne_void _

/-- **The loop over an object, with a filter.** -/
lemma objForeachFilter_seq (hstrict : e.strict) (hP : ∀ m, P m → FilterClean attrs buf (d + 1) m)
    (hb : Handles body P (FilterReads attrs buf) (FilterAnnounces attrs buf) Ok Step buf e (d + 1))
    {w : Ws} (hend : numEnd t) (ht : AfterClose t) {seq : Seq .obj} (hm : ∀ m ∈ seq.members, P m)
    (hd : d < 128) {r : Reader} {val : Val} (hbuf : val.bufSize = buf) (s : σ)
    (h : r.At e d (w.1 ++ Kind.opening .obj :: (seq.text true ++ (wt.1 ++ t)))) :
    LoopEnds (FilterReads attrs buf) Ok Step buf e d t seq.members s
      (objForeachFilter (some attrs) ujsonEmptyObj body r val s) := by
  have hrounds := h.rounds
  have hfirst : ArrivedAt (FilterReads attrs buf) (FilterAnnounces attrs buf) buf e (d + 1) wt t seq
      (ujsonObjFirstFilter r val (some attrs) ujsonEmptyObj).2 := by
    cases hs : seq.uncons with
    | none =>
      obtain ⟨_, he, h'⟩ := firstFilter_end val (some attrs) ujsonEmptyObj hd hs ht h
      rw [he]
      obtain ⟨_, rfl⟩ := uncons_none hs
      exact ⟨rfl, hbuf, h'⟩
    | some x =>
      obtain ⟨m, _⟩ := x
      obtain ⟨_, he, h'⟩ := firstFilter_member val (some attrs) ujsonEmptyObj hd hs h
      rw [he]
      exact filter_arrived _ hstrict hs (hP m (hm m (uncons_mem hs))) hbuf hend h'
  exact foreach_seq (gets_filter hstrict hP) hb hend ht seq s hm hrounds hfirst

lemma objForeachFilter_err (obj ign : Option (List ObjAttr)) (body : Reader → Val → σ → Flow σ)
    (val : Val) (s : σ) (h : r.err ≠ none) :
    objForeachFilter obj ign body r val s = .next r { val with type := .void } s := by
  simp only [objForeachFilter, ujsonObjFirstFilter, Option.isSome_iff_ne_none.mpr h, if_true]
  rw [foreachLoop, if_pos rfl]

end Filter

end LtpDdt.Ujson
