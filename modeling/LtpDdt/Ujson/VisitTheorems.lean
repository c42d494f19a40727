/-
Ujson.VisitTheorems — which members a filtered loop visits when the reader is
not strict.

The value of a known key is read before the type is looked at; an object or array
of the wrong type is only announced, and its bracket is taken for the separator.
The values of unknown keys are skipped.
-/
import LtpDdt.Ujson.ForeachTheorems
import LtpDdt.Ujson.SweepTheorems

namespace LtpDdt.Ujson

open Json List Option

variable {m : Member .obj} {i : Nat} {s : Seq .obj} {r : Reader}

/-! ## What there is to visit -/

/-- What can stand behind a container of a document. -/
inductive Behind : List UInt8 → Prop
  | top (ws : Ws) : Behind ws.1
  | inside {k : Kind} (next : Seq k) {u : List UInt8} (h : Behind u) : Behind (next.text false ++ u)

lemma Behind.split {u} (h : Behind u) :
    ∃ (wt : Ws) (t : List UInt8), u = wt.1 ++ t ∧ numEnd t ∧ AfterClose t := by
  induction h with
  | top ws => exact ⟨ws, [], (append_nil _).symm, rfl, afterClose_nil⟩
  | inside next h ih =>
    obtain ⟨wt, t, rfl, hend, -⟩ := ih
    refine ⟨seqLead next, seqBody next ++ (wt.1 ++ t), ?_, numEnd_body next wt hend,
      afterClose_body next _⟩
    rw [text_eq_lead_body, append_assoc]

def nameIdx (attrs : List ObjAttr) (m : Member .obj) : Option Nat :=
  attrs.findIdx? fun attr => m.name? == some attr.key

/-- The same if the table has the type of the member with the name. -/
def listed (attrs : List ObjAttr) (m : Member .obj) : Option Nat :=
  (nameIdx attrs m).filter fun i => (attrs.getD i ⟨[], .void⟩).accepts (memberType m)

structure Visited where
  idx : Option Nat
  id : List UInt8
  type : UType
  payload : Payload
  deriving DecidableEq

def Val.visited (val : Val) : Visited := ⟨val.idx, val.id, val.type, val.payload⟩

def shown (attrs : List ObjAttr) (buf : Option Nat) (m : Member .obj) : Option Visited :=
  (listed attrs m).map fun i => ⟨some i, m.name?.getD [], memberType m, memberVal buf m⟩

/-- Take note of the member, and read it if it is a container. -/
def visitBody (consume : Reader → Val → Reader) (r : Reader) (val : Val) (seen : List Visited) :
    Flow (List Visited) :=
  .next (consume r val) val (seen ++ [val.visited])

/-- The loop visits the members that are listed, in order, and ends without an
error. -/
def VisitsListed (attrs : List ObjAttr) (ign : Option (List ObjAttr))
    (consume : Reader → Val → Reader) (r : Reader) (val : Val) (ms : List (Member .obj)) : Prop :=
  ∃ r' val', objForeachFilter (some attrs) ign (visitBody consume) r val [] =
    .next r' val' (ms.filterMap (shown attrs val.bufSize)) ∧ r'.err = none

def writtenIdx (attrs : List ObjAttr) (m : Member .obj) : Option Nat :=
  attrs.findIdx? fun attr => keyId m.key == attr.key

/-- A container at a known key has the type in the table. -/
def ContainerFits (attrs : List ObjAttr) (m : Member .obj) : Prop :=
  (memberType m).kind? ≠ none → nameIdx attrs m ≠ none → listed attrs m ≠ none

/-- The reader takes the member or complains: no quote in a name, the name in the table as it is
written exactly if it is as it is meant, and no `\u0000` in what is skipped. -/
def Legible (attrs : List ObjAttr) (buf : Option Nat) (m : Member .obj) : Prop :=
  (KeyClean m.key ∧ writtenIdx attrs m = nameIdx attrs m) ∧ match m with
    | .scalar _ v => Audible (if (nameIdx attrs m).isSome then buf else none) v
    | .sub _ _ inner => nameIdx attrs m = none → SeqClean none inner

/-- Names are short enough, also those of a container that is skipped, a string at a known key has
room in the buffer, and a container at a known key has the type in the table. -/
def Suits (attrs : List ObjAttr) (buf : Option Nat) (m : Member .obj) : Prop :=
  KeyReads m.key ∧ (match m with
    | .scalar _ v => nameIdx attrs m ≠ none → ScalarReads buf v
    | .sub _ _ inner => nameIdx attrs m = none → SeqReads none inner) ∧ ContainerFits attrs m

/-- A listed member is behind the reader after the body has had it. -/
def Consumes (consume : Reader → Val → Reader) (e : Env) (d : Nat) (m : Member .obj) : Prop :=
  ∀ {r : Reader} {val : Val} {w : Ws} {u : List UInt8}, val.type = memberType m →
    numEnd u = true → AfterClose u → StandsAt e d m (w.1 ++ u) r →
      ∃ w' : Ws, (consume r val).At e d (w'.1 ++ u)

/-! ## The table -/

lemma lookup_eq_findIdx {arr : List ObjAttr} (hs : Sorted arr) (key : List UInt8) :
    ujsonLookup arr key = arr.findIdx? fun attr => key == attr.key := by
  cases hfind : arr.findIdx? fun attr => key == attr.key with
  | some i =>
    obtain ⟨hlt, heq, -⟩ := findIdx?_eq_some_iff_getElem.1 hfind
    have hkey : listElem arr i = key := by
      rw [listElem_eq hlt]
      exact (eq_of_beq heq).symm
    rw [← hkey]
    exact ujsonLookup_sorted hs hlt
  | none =>
    rw [findIdx?_eq_none_iff] at hfind
    rw [eq_none_iff_forall_ne_some]
    intro i hi
    obtain ⟨attr, hat, rfl⟩ := ujsonLookup_some hi
    exact absurd (hfind attr (mem_of_getElem? hat)) (by simp)

variable {attrs : List ObjAttr}

lemma name_of_idx (hsame : writtenIdx attrs m = nameIdx attrs m) (h : nameIdx attrs m = some i) :
    m.name? = some (keyId m.key) := by
  obtain ⟨_, hname, -⟩ := findIdx?_eq_some_iff_getElem.1 h
  obtain ⟨_, hwritten, -⟩ := findIdx?_eq_some_iff_getElem.1 (hsame.trans h)
  rw [eq_of_beq hname, eq_of_beq hwritten]

lemma listed_eq (h : nameIdx attrs m = some i) : listed attrs m =
      if (attrs.getD i ⟨[], .void⟩).accepts (memberType m) = true then some i else none := by
  rw [listed, h]
  rfl

/-! ## One member -/

section member

variable {attrs : List ObjAttr} {buf : Option Nat} {e : Env} {d : Nat} {r : Reader} {res : Val}
  {m : Member .obj} {w : Ws} {u : List UInt8}

lemma warn_eq (h : r.At e d u) (hstrict : e.strict = false) (x : ReaderErr) : r.warn x = r := by
  rw [Reader.warn, h.strict, hstrict]
  rfl

lemma skip_member {w' : Ws} (hm : Legible attrs buf m) (hidx : nameIdx attrs m = none)
    (hkey : KeyReads m.key) (hdepth : d + m.depth ≤ 128) (hend : numEnd u) (ht : AfterClose u)
    (hd : NoDigit (w.1 ++ u)) (h : r.At e d (w'.1 ++ (valueText m ++ (w.1 ++ u)))) :
    (Suits attrs buf m ∧ ∃ (r' : Reader) (w₁ : Ws), skipObjVal r = (true, r') ∧
        r'.At e d (w₁.1 ++ u)) ∨
      (¬ Suits attrs buf m ∧ ∃ r', skipObjVal r = (true, r') ∧ r'.err ≠ none) := by
  have hfits : ContainerFits attrs m := fun _ hne => absurd hidx hne
  cases m with
  | scalar key v =>
    have hv : Audible none v := by simpa [hidx] using hm.2
    have hv : ScalarReads none v := hv.resolve_right fun ⟨_, _, h⟩ => by cases h
    obtain ⟨r', he, h'⟩ := skipObjVal_scalar hv (by rw [numEnd_ws w.2, hend]) hd h
    exact .inl ⟨⟨hkey, fun hne => absurd hidx hne, hfits⟩, r', w, he, h'⟩
  | sub key k' inner =>
    simp only [Member.depth] at hdepth
    obtain ⟨r', he, hgood, hbad⟩ := skipObjVal_sub (hm.2 hidx) (by omega) hend ht h
    by_cases hreads : SeqReads none inner
    · exact .inl ⟨⟨hkey, fun _ => hreads, hfits⟩, r', .empty, he, hgood hreads⟩
    · exact .inr ⟨fun hf => hreads (hf.2.1 hidx), r', he, hbad hreads⟩

lemma get_member (res : Val) {w' : Ws} (hm : Legible attrs buf m) (hkey : KeyReads m.key)
    (hidx : nameIdx attrs m = some i)
    (hres : res.bufSize = buf ∧ res.idx = some i ∧ res.id = keyId m.key) (hend : numEnd u)
    (hd : NoDigit (w.1 ++ u)) (h : r.At e d (w'.1 ++ (valueText m ++ (w.1 ++ u)))) :
    ((ContainerFits attrs m → Suits attrs buf m) ∧ ∃ r' val, getValue r res = (true, r', val) ∧
        StandsAt e d m (w.1 ++ u) r' ∧ val.bufSize = buf ∧
        val.visited = ⟨some i, keyId m.key, memberType m, memberVal buf m⟩) ∨
      (¬ Suits attrs buf m ∧ ∃ r' val, getValue r res = (false, r', val) ∧ r'.err ≠ none) := by
  have hne : nameIdx attrs m ≠ none := by rw [hidx]; simp
  have hclean : MemberClean buf m := by
    cases m with
    | scalar key v => exact ⟨hm.1.1, by simpa [hidx] using hm.2⟩
    | sub => exact hm.1.1
  rcases getValue_member res hclean hres.1 hkey hend hd h with
    ⟨hreads, r', val, he, hann, hvi, hst⟩ | ⟨hbad, hfail⟩
  · have hid := getValue_id r res
    rw [he] at hid
    refine .inl ⟨fun hc => ⟨hkey, ?_, hc⟩, r', val, he, hst, hann.buf, ?_⟩
    · cases m with
      | scalar => exact fun _ => hreads.2
      | sub => exact fun hnone => absurd hnone hne
    · rw [Val.visited, hvi, hres.2.1, hann.type, hann.payload, show val.id = _ from hid, hres.2.2]
  · refine .inr ⟨fun hf => hbad ?_, hfail⟩
    cases m with
    | scalar => exact ⟨hkey, hf.2.1 hne⟩
    | sub => exact hkey

lemma objPreNext_unread {k' : Kind} (res : Val) (h : r.At e d (k'.opening :: u)) :
    (objPreNext r res).1 ∧ (objPreNext r res).2.1.err ≠ none := by
  have hno := h.noErr
  obtain ⟨r₁, he₁, h₁⟩ := checkEnd_open (b := 0x7d) (w := .empty) res (isWs_opening k')
    (by cases k' <;> decide) h
  have he₂ : r₁.eatb 0x2c = (false, r₁) := h₁.eatb_ne (by cases k' <;> decide)
  simp only [objPreNext, hno, Bool.false_eq_true, if_false, he₁, preNext, he₂]
  exact ⟨trivial, by simp [Reader.fail]⟩

/-- The look for the next member, with which the filter goes on behind one that it passes over. -/
def goOn (attrs : List ObjAttr) (ign : Option (List ObjAttr)) (n : Nat) (r : Reader) (res : Val) :
    Bool × Reader × Val :=
  if (objPreNext r res).1 then (false, (objPreNext r res).2)
  else objNextFilter (some attrs) ign n (objPreNext r res).2.1 (objPreNext r res).2.2

lemma goOn_stop {n ign} (h : (objPreNext r res).1) :
    goOn attrs ign n r res = (false, (objPreNext r res).2) := if_pos h

/-- What a round of the filter does with the member `m`. -/
inductive Filtered (attrs : List ObjAttr) (ign : Option (List ObjAttr)) (buf : Option Nat) (e : Env)
    (d : Nat) (m : Member .obj) (n : Nat) (w : Ws) (u : List UInt8) : Bool × Reader × Val → Prop
  | shows {r : Reader} {val : Val} (hfits : Suits attrs buf m)
      (hshown : shown attrs buf m = some val.visited) (hbuf : val.bufSize = buf)
      (h : StandsAt e d m (w.1 ++ u) r) :
      Filtered attrs ign buf e d m n w u (true, r, val)
  | passes {r : Reader} {res : Val} {w' : Ws}
      (hpass : shown attrs buf m = none ∧ Suits attrs buf m) (hbuf : res.bufSize = buf)
      (h : r.At e d (w'.1 ++ u)) :
      Filtered attrs ign buf e d m n w u (goOn attrs ign n r res)
  | fails {x} (hbad : ¬ Suits attrs buf m) (herr : x.2.1.err ≠ none) :
      Filtered attrs ign buf e d m n w u x

section round

variable (ign : Option (List ObjAttr)) (n : Nat) (hstrict : e.strict = false)
  (hm : Legible attrs buf m) (hkey : KeyReads m.key) (hbuf : res.bufSize = buf)
  (hend : numEnd u) (hd : NoDigit (w.1 ++ u)) {r₁ : Reader} {w' : Ws}
  (he : copyIdStr r = (some (keyId m.key), r₁))
  (h : r₁.At e d (w'.1 ++ (valueText m ++ (w.1 ++ u))))

include hstrict hm hkey hbuf hend hd he h

/-- The value of a name that is not in the table is skipped. -/
lemma filter_unknown (hidx : nameIdx attrs m = none)
    (hlookup : ujsonLookup attrs (keyId m.key) = none) (hdepth : d + m.depth ≤ 128)
    (ht : AfterClose u) :
    Filtered attrs ign buf e d m n w u (objNextFilter (some attrs) ign (n + 1) r res) := by
  rcases skip_member hm hidx hkey hdepth hend ht hd h with
    ⟨hfits, r₂, w₂, he₂, h₂⟩ | ⟨hbad, r₂, he₂, herr⟩
  · have hnext : objNextFilter (some attrs) ign (n + 1) r res =
        goOn attrs ign n r₂ { res with id := keyId m.key, idx := none } := by
      simp only [objNextFilter, he, bind_some, hlookup, he₂, warn_eq h₂ hstrict, ite_self, goOn]
      rcases objPreNext r₂ _ with ⟨_ | _, _, _⟩ <;> rfl
    rw [hnext]
    exact .passes ⟨by rw [shown, listed, hidx]; rfl, hfits⟩ hbuf h₂
  · refine .fails hbad ?_
    simp only [objNextFilter, he, bind_some, hlookup, he₂]
    have hwarn (b : Bool) : (if b then r₂.warn (.unexpectedKey (keyId m.key)) else r₂).err ≠
        none := by
      cases b
      · exact herr
      · exact Reader.warn_err _ (.inr herr)
    rw [objPreNext, if_pos (isSome_iff_ne_none.mpr (hwarn _))]
    exact hwarn _

/-- The value of a known name is read before its type is looked at. -/
lemma filter_known (hidx : nameIdx attrs m = some i)
    (hlookup : ujsonLookup attrs (keyId m.key) = some i) :
    Filtered attrs ign buf e d m n w u (objNextFilter (some attrs) ign (n + 1) r res) := by
  rcases get_member { res with id := keyId m.key, idx := some i } hm hkey hidx ⟨hbuf, rfl, rfl⟩
    hend hd h with ⟨hfits, r₂, val, he₂, hst, hvbuf, hvis⟩ | ⟨hbad, r₂, val, he₂, herr⟩
  case inr =>
    refine .fails hbad ?_
    simpa only [objNextFilter, he, bind_some, hlookup, he₂] using herr
  have htype : val.type = memberType m := congrArg Visited.type hvis
  cases hacc : (attrs.getD i ⟨[], .void⟩).accepts (memberType m) with
  | true =>
    have hnext : objNextFilter (some attrs) ign (n + 1) r res = (true, r₂, val) := by
      simp only [objNextFilter, he, bind_some, hlookup, he₂, getD_some, htype, hacc, if_true]
    rw [hnext]
    refine .shows (hfits fun _ _ => by rw [listed_eq hidx, if_pos hacc]; simp) ?_ hvbuf hst
    rw [shown, listed_eq hidx, if_pos hacc, name_of_idx hm.1.2 hidx, hvis]
    rfl
  | false =>
    have hlisted : listed attrs m = none := by
      rw [listed_eq hidx, hacc]
      rfl
    have hnext : objNextFilter (some attrs) ign (n + 1) r res = goOn attrs ign n r₂ val := by
      simp only [objNextFilter, he, bind_some, hlookup, he₂, getD_some, htype, hacc,
        warn_eq hst.at_ hstrict, goOn]
      rcases objPreNext r₂ val with ⟨_ | _, _, _⟩ <;> rfl
    rw [hnext]
    -- the value of a scalar is read by now, that of a container is not
    cases m with
    | scalar key v =>
      exact .passes ⟨by rw [shown, hlisted]; rfl,
        hfits fun hk => absurd (scalarType_kind v).2 hk⟩ hvbuf hst.at_
    | sub key k' =>
      obtain ⟨hstop, herr⟩ := objPreNext_unread val hst.at_
      refine .fails (fun hf => hf.2.2 ?_ (by rw [hidx]; simp) hlisted) ?_
      · simp [memberType, (kindType_kind k').2]
      · rw [goOn_stop hstop]
        exact herr

end round

/-- **A round of the filter** stops at a member that is shown, passes over one that is not, or
fails. -/
lemma objNextFilter_one (hs : Sorted attrs) (ign : Option (List ObjAttr)) (n : Nat)
    (hstrict : e.strict = false) (hm : Legible attrs buf m) (hbuf : res.bufSize = buf)
    (hdepth : d + m.depth ≤ 128) (hend : numEnd u) (ht : AfterClose u) (hd : NoDigit (w.1 ++ u))
    (h : r.At e d (m.key.text ++ (valueText m ++ (w.1 ++ u)))) :
    Filtered attrs ign buf e d m n w u (objNextFilter (some attrs) ign (n + 1) r res) := by
  obtain ⟨hclean, hsame⟩ := hm.1
  have hlookup : ujsonLookup attrs (keyId m.key) = nameIdx attrs m := by
    rw [lookup_eq_findIdx hs, ← hsame, writtenIdx]
  by_cases hkey : KeyReads m.key
  case neg =>
    obtain ⟨r', he, herr⟩ := copyIdStr_longKey hclean hkey h
    refine .fails (fun hf => hkey hf.1) ?_
    simpa only [objNextFilter, he] using herr
  obtain ⟨_, _, he, h⟩ := copyIdStr_key hclean hkey h
  cases hidx : nameIdx attrs m with rw [hidx] at hlookup
  | none => exact filter_unknown ign n hstrict hm hkey hbuf hend hd he h hidx hlookup hdepth ht
  | some => exact filter_known ign n hstrict hm hkey hbuf hend hd he h hidx hlookup

end member

/-! ## The loop -/

lemma members_lt_rounds {k : Kind} (s : Seq k) : s.members.length < seqRounds s := by
  induction s with
  | nil => exact Nat.zero_lt_one
  | scalar sep lead key v next ih => exact Nat.succ_lt_succ ih
  | sub sep lead key k' inner next _ ih =>
    exact Nat.succ_lt_succ (Nat.lt_of_lt_of_le ih (Nat.le_max_right _ _))

section loop

variable (attrs : List ObjAttr) (buf : Option Nat) (e : Env) (d : Nat) (wt : Ws) (t : List UInt8)

/-- Where the filter has got to in the members `s`. -/
inductive Landed : Seq .obj → Reader × Val → Prop
  | fin {s : Seq .obj} {r : Reader} {val : Val} (hs : s.uncons = none) (hvoid : val.type = .void)
      (h : r.At e (d - 1) t) : Landed s (r, val)
  | here {s rest : Seq .obj} {m : Member .obj} {r : Reader} {val : Val}
      (hs : s.uncons = some (m, rest)) (hfits : Suits attrs buf m)
      (hshown : shown attrs buf m = some val.visited) (hbuf : val.bufSize = buf)
      (h : StandsAt e d m (rest.text false ++ (wt.1 ++ t)) r) : Landed s (r, val)
  | later {s rest : Seq .obj} {m : Member .obj} {x : Reader × Val}
      (hs : s.uncons = some (m, rest)) (hpass : shown attrs buf m = none ∧ Suits attrs buf m)
      (h : Landed rest x) : Landed s x
  | fails {s rest : Seq .obj} {m : Member .obj} {x : Reader × Val}
      (hs : s.uncons = some (m, rest)) (hbad : ¬ Suits attrs buf m) (h : x.1.err ≠ none) :
      Landed s x

/-- The members of `s` as the theorem wants them. -/
def Fine (s : Seq .obj) : Prop :=
  d + s.depth ≤ 128 ∧ ∀ m ∈ s.members, Legible attrs buf m

variable {attrs buf e d wt t}

lemma Fine.rest {s rest : Seq .obj} {m : Member .obj} (h : Fine attrs buf d s)
    (hs : s.uncons = some (m, rest)) :
    (d + m.depth ≤ 128 ∧ Legible attrs buf m) ∧ Fine attrs buf d rest := by
  obtain ⟨hdepth, hm⟩ := h
  rw [uncons_depth hs] at hdepth
  rw [uncons_members hs, forall_mem_cons] at hm
  exact ⟨⟨by omega, hm.1⟩, by omega, hm.2⟩

variable (hsorted : Sorted attrs) (ign : Option (List ObjAttr)) (hstrict : e.strict = false)
  (hend : numEnd t = true)
include hsorted hstrict hend

lemma landed_member {rest : Seq .obj} {n : Nat} {res : Val}
    (ih : ∀ {w : Ws} {r : Reader} {res : Val}, res.bufSize = buf →
      r.At e d (w.1 ++ (seqBody rest ++ (wt.1 ++ t))) →
        Landed attrs buf e d wt t rest (goOn attrs ign n r res).2)
    (hs : s.uncons = some (m, rest)) (hm : Legible attrs buf m) (hdepth : d + m.depth ≤ 128)
    (hbuf : res.bufSize = buf)
    (h : r.At e d (m.key.text ++ (valueText m ++ (rest.text false ++ (wt.1 ++ t))))) :
    Landed attrs buf e d wt t s (objNextFilter (some attrs) ign (n + 1) r res).2 := by
  have hd := noDigit_seq rest (wt.1 ++ t)
  rw [text_eq_lead_body, append_assoc] at h hd
  have hround := objNextFilter_one hsorted ign n hstrict hm hbuf hdepth (numEnd_body rest wt hend)
    (afterClose_body rest _) hd h
  generalize objNextFilter (some attrs) ign (n + 1) r res = x at hround ⊢
  cases hround with
  | shows hfits hshown hvbuf hst =>
    rw [← append_assoc, ← text_eq_lead_body] at hst
    exact .here hs hfits hshown hvbuf hst
  | passes hpass hbuf' h' => exact .later hs hpass (ih hbuf' h')
  | fails hbad herr => exact .fails hs hbad herr

variable (ht : AfterClose t)
include ht

lemma lands (hpos : 0 < d) (n : Nat) : ∀ {s : Seq .obj} {w : Ws} {r : Reader} {res : Val},
    s.members.length ≤ n → Fine attrs buf d s → res.bufSize = buf →
    r.At e d (w.1 ++ (seqBody s ++ (wt.1 ++ t))) →
    Landed attrs buf e d wt t s (goOn attrs ign n r res).2 := by
  intro s w r res hlen hfine hbuf h
  cases hs : s.uncons with
  | none =>
    obtain ⟨_, he, h'⟩ := objPreNext_end res hs ht hpos h
    rw [goOn, he]
    exact .fin hs rfl h'
  | some =>
    obtain ⟨_, he, h'⟩ := objPreNext_member res hs h
    have hrest := hfine.rest hs
    rw [uncons_members hs] at hlen
    rw [goOn, he]
    cases n with
    | zero => exact absurd hlen (Nat.not_succ_le_zero _)
    | succ n =>
      have ih := @lands hpos n
      exact landed_member hsorted ign hstrict hend
        (fun hbuf h => ih (Nat.le_of_succ_le_succ hlen) hrest.2 hbuf h) hs hrest.1.2 hrest.1.1 hbuf
        h'

lemma lands_from (hpos : 0 < d) {s rest : Seq .obj} {m : Member .obj} {r : Reader} {val : Val}
    (hs : s.uncons = some (m, rest)) (hfine : Fine attrs buf d s) (hbuf : val.bufSize = buf)
    (h : r.At e d (m.key.text ++ (valueText m ++ (rest.text false ++ (wt.1 ++ t))))) :
    Landed attrs buf e d wt t s (objNextFilter (some attrs) ign (r.json.length + 1) r val).2 := by
  have hrest := hfine.rest hs
  have hlen : rest.members.length ≤ r.json.length := by
    have := seqRounds_le rest false
    have := members_lt_rounds rest
    have hoff := h.off
    simp only [length_append] at hoff
    omega
  exact landed_member hsorted ign hstrict hend
    (fun hbuf h => lands hsorted ign hstrict hend ht hpos _ hlen hrest.2 hbuf h) hs hrest.1.2
    hrest.1.1 hbuf h

lemma lands_next (hpos : 0 < d) {w : Ws} {val : Val} (hfine : Fine attrs buf d s)
    (hbuf : val.bufSize = buf) (h : r.At e d (w.1 ++ (seqBody s ++ (wt.1 ++ t)))) :
    Landed attrs buf e d wt t s (ujsonObjNextFilter r val (some attrs) ign).2 := by
  have hno := h.noErr
  simp only [ujsonObjNextFilter, hno]
  cases hs : s.uncons with
  | none =>
    obtain ⟨_, he, h'⟩ := objPreNext_end val hs ht hpos h
    rw [he]
    exact .fin hs rfl h'
  | some =>
    obtain ⟨_, he, h'⟩ := objPreNext_member val hs h
    rw [he]
    exact lands_from hsorted ign hstrict hend ht hpos hs hfine hbuf h'

lemma lands_first {w : Ws} {val : Val}
    (hfine : Fine attrs buf (d + 1) s) (hd : d < 128) (hbuf : val.bufSize = buf)
    (h : r.At e d (w.1 ++ Kind.opening .obj :: (s.text true ++ (wt.1 ++ t)))) :
    Landed attrs buf e (d + 1) wt t s (ujsonObjFirstFilter r val (some attrs) ign).2 := by
  cases hs : s.uncons with
  | none =>
    obtain ⟨_, he, h'⟩ := firstFilter_end val (some attrs) ign hd hs ht h
    rw [he]
    exact .fin hs rfl h'
  | some =>
    obtain ⟨_, he, h'⟩ := firstFilter_member val (some attrs) ign hd hs h
    rw [he]
    exact lands_from hsorted ign hstrict hend ht (Nat.succ_pos d) hs hfine hbuf h'

variable {consume : Reader → Val → Reader}
  (hkeep : ∀ (r : Reader) (val : Val), r.err ≠ none → (consume r val).err ≠ none)
include hkeep

/-- **The loop visits what is shown**, or comes to a member that does not fit and fails. The
induction is over the rounds, and in a round over the members that the filter passes over. -/
theorem loop_visits (hpos : 0 < d) (n : Nat) : ∀ {s : Seq .obj} {x} seen,
    s.members.length < n → Fine attrs buf d s →
    (∀ m ∈ s.members, listed attrs m ≠ none → Consumes consume e d m) →
    Landed attrs buf e d wt t s x → ((∀ m ∈ s.members, Suits attrs buf m) ∧ ∃ r' val',
      foreachLoop (fun r val => ujsonObjNextFilter r val (some attrs) ign) (visitBody consume) n x
        seen = .next r' val' (seen ++ s.members.filterMap (shown attrs buf)) ∧ r'.err = none) ∨
    ((∃ m ∈ s.members, ¬ Suits attrs buf m) ∧
      Failed (foreachLoop (fun r val => ujsonObjNextFilter r val (some attrs) ign)
        (visitBody consume) n x seen))  := by
  induction n with
  | zero => exact fun _ hlen => absurd hlen (Nat.not_lt_zero _)
  | succ n ih =>
    intro s x seen hlen hfine hcons hland
    induction hland with
    | @fin s r val hs hvoid h =>
      obtain ⟨_, rfl⟩ := uncons_none hs
      refine .inl ⟨fun m hm => absurd hm not_mem_nil, r, val, ?_, h.err⟩
      rw [foreachLoop, if_pos hvoid]
      simp [Seq.members]
    | @here s rest m r val hs hfits hshown hbuf h =>
      have hrest := hfine.rest hs
      rw [uncons_members hs] at hlen hcons ⊢
      rw [forall_mem_cons] at hcons
      obtain ⟨i, hlisted, hvis⟩ := map_eq_some_iff.1 hshown
      have htype : val.type = memberType m := (congrArg Visited.type hvis).symm
      rw [text_eq_lead_body, append_assoc] at h
      obtain ⟨_, h'⟩ := hcons.1 (by rw [hlisted]; simp) htype (numEnd_body rest wt hend)
        (afterClose_body rest _) h
      have hland := lands_next hsorted ign hstrict hend ht hpos hrest.2 hbuf h'
      have hstep : foreachLoop (fun r val => ujsonObjNextFilter r val (some attrs) ign)
            (visitBody consume) (n + 1) (r, val) seen =
          foreachLoop (fun r val => ujsonObjNextFilter r val (some attrs) ign) (visitBody consume) n
            (ujsonObjNextFilter (consume r val) val (some attrs) ign).2
              (seen ++ [val.visited]) := by
        rw [foreachLoop, if_neg (by rw [htype]; exact memberType_ne_void m)]
        rfl
      rw [hstep, filterMap_cons_some hshown, forall_mem_cons, exists_mem_cons_iff]
      rcases ih (seen ++ [val.visited]) (Nat.lt_of_succ_lt_succ hlen) hrest.2 hcons.2 hland with
        ⟨hall, r', val', hrun, herr⟩ | ⟨hsome, hf⟩
      · refine .inl ⟨⟨hfits, hall⟩, r', val', ?_, herr⟩
        rw [hrun, append_assoc]
        rfl
      · exact .inr ⟨.inr hsome, hf⟩
    | @later s rest m x hs hpass h ihl =>
      have hrest := hfine.rest hs
      rw [uncons_members hs] at hlen hcons ⊢
      rw [forall_mem_cons] at hcons
      rw [filterMap_cons_none hpass.1, forall_mem_cons, exists_mem_cons_iff]
      rcases ihl (Nat.lt_of_succ_lt hlen) hrest.2 hcons.2 with ⟨hall, hrun⟩ | ⟨hsome, hf⟩
      · exact .inl ⟨⟨hpass.2, hall⟩, hrun⟩
      · exact .inr ⟨.inr hsome, hf⟩
    | @fails s rest m x hs hbad h =>
      refine .inr ⟨⟨m, uncons_mem hs, hbad⟩, foreachLoop_err ?_ ?_ (n + 1) seen h⟩
      · intro r val hr
        simp [ujsonObjNextFilter, isSome_iff_ne_none.mpr hr]
      · exact fun val s hr => hkeep _ val hr

end loop

/-- `{"b":[],"a":true}`, without the opening bracket. -/
def mixedObj : Seq .obj :=
  .sub .empty .empty (.name [.plain 0x62 (by decide)] .empty .empty) .arr (.nil .empty)
    (.scalar .empty .empty (.name [.plain 0x61 (by decide)] .empty .empty) (.bool true)
      (.nil .empty))

end LtpDdt.Ujson
