/-
Ujson.ValidTheorems — when the type of a value tells whether a value was
parsed.

A call that parses nothing has to set the type to void (`Valid`). It returns through
one of a few exits (`Exit`, `ends_run`), and some of them leave the value as it was.
This is in order only if the type is void already (`Call.Sets`). After a member of a
loop it never is, and the body runs once more on the old value (`stale_value_seen`).
-/
import LtpDdt.Ujson.Filter

namespace LtpDdt.Ujson

open List

/-! ## Calls -/

inductive Call where
  | objFirst
  | objNext
  | arrFirst
  | arrNext
  | objFirstFilter (obj ign : Option (List ObjAttr))
  | objNextFilter (obj ign : Option (List ObjAttr))

def Call.run : Call → Reader → Val → Bool × Reader × Val
  | .objFirst => ujsonObjFirst
  | .objNext => ujsonObjNext
  | .arrFirst => ujsonArrFirst
  | .arrNext => ujsonArrNext
  | .objFirstFilter obj ign => fun r res => ujsonObjFirstFilter r res obj ign
  | .objNextFilter obj ign => fun r res => ujsonObjNextFilter r res obj ign

/-- The type is that of a value exactly if one was parsed. -/
def Valid (out : Bool × Reader × Val) : Prop := out.1 = true ↔ out.2.2.type ≠ .void

/-! ## The exits -/

/-- The places in which a call returns without a value. -/
inductive Exit where
  /-- `check_err`, of a call on a reader with an error -/
  | failed
  /-- `any_first` does not open the container -/
  | notOpened
  /-- `check_end` at the end of the text -/
  | endOfText
  /-- `check_end` at the closing bracket -/
  | closed
  /-- `pre_next` -/
  | noSeparator
  /-- `copy_id_str` -/
  | noName
  /-- `get_value` -/
  | noValue
  /-- a filter cannot skip a value -/
  | notSkipped
  /-- a filter in strict mode, behind a member that it warns of -/
  | warned
  deriving DecidableEq

/-- Whether the type is set to void there. -/
def Exit.sets : Exit → Bool
  | .failed | .closed | .noSeparator | .noValue => true
  | .notOpened | .endOfText | .noName | .notSkipped | .warned => false

/-- How a call ends: with a value (`none`), or through an exit, to which it comes with a value of
some type. -/
abbrev Ending := Option (Exit × UType)

/-- The types that a call may leave behind are those of values that it parsed, and void. -/
def Ending.Sets (ending : Ending) : Prop := ∀ x ∈ ending, x.1.sets ∨ x.2 = .void

/-- The call that returned `out` had the ending. -/
def Ends (out : Bool × Reader × Val) : Ending → Prop
  | none => out.1 = true ∧ out.2.2.type ≠ .void
  | some (exit, type) => out.1 = false ∧ out.2.2.type = if exit.sets then .void else type

/-- What `any_first` returns to; `rest` is the ending of what the call does next. -/
def openEnding (type : UType) (b : UInt8) (rest : Reader → Ending) (r : Reader) : Ending :=
  if (anyFirst r b).1 then some (.notOpened, type) else rest (anyFirst r b).2

def closeEnding (type : UType) (b : UInt8) (rest : Reader → Ending) (r : Reader) : Ending :=
  if r.eatws.1 then some (.endOfText, type)
  else if (r.eatws.2.eatb b).1 then some (.closed, type)
  else rest r.eatws.2

def separatorEnding (type : UType) (rest : Reader → Ending) (r : Reader) : Ending :=
  if !(r.eatb 0x2c).1 || (r.eatb 0x2c).2.eatws.1 then some (.noSeparator, type)
  else rest (r.eatb 0x2c).2.eatws.2

def valueEnding (r : Reader) (res : Val) : Ending :=
  if (getValue r res).1 then none else some (.noValue, res.type)

def memberEnding (r : Reader) (res : Val) : Ending :=
  match copyIdStr r with
  | (none, _) => some (.noName, res.type)
  | (some id, r) => valueEnding r { res with id := id }

/-- `obj_pre_next` -/
def passEnding (type : UType) (rest : Reader → Ending) (r : Reader) : Ending :=
  if r.err.isSome then some (.warned, type)
  else closeEnding type 0x7d (separatorEnding type rest) r

/-- The rounds of a filter. A value of another type than the attribute stays, and is not void any
more. -/
def filterEnding (obj ign : Option (List ObjAttr)) : Nat → Val → Reader → Ending
  -- there are more rounds than bytes
  | 0, res, _ => some (.noName, res.type)
  | n + 1, res, r =>
    match copyIdStr r with
    | (none, _) => some (.noName, res.type)
    | (some id, r) =>
      let idx := obj.bind fun attrs => ujsonLookup attrs id
      let res := { res with id := id, idx := idx }
      match idx with
      | some i =>
        match getValue r res with
        | (false, _, _) => some (.noValue, res.type)
        | (true, r, res) =>
          let attr := (obj.getD []).getD i ⟨[], .void⟩
          if attr.accepts res.type then none
          else passEnding res.type (filterEnding obj ign n res)
            (r.warn (.wrongType attr.key attr.type))
      | none =>
        match skipObjVal r with
        | (false, _) => some (.notSkipped, res.type)
        | (true, r) =>
          let unexpected := ign.any fun attrs => (ujsonLookup attrs id).isNone
          passEnding res.type (filterEnding obj ign n res)
            (if unexpected then r.warn (.unexpectedKey id) else r)

def Call.ending (c : Call) (r : Reader) (res : Val) : Ending :=
  if r.err.isSome then some (.failed, res.type)
  else match c with
    | .objFirst =>
      openEnding res.type 0x7b (closeEnding res.type 0x7d fun r => memberEnding r res) r
    | .objNext =>
      closeEnding res.type 0x7d (separatorEnding res.type fun r => memberEnding r res) r
    | .arrFirst =>
      openEnding res.type 0x5b (closeEnding res.type 0x5d fun r => valueEnding r res) r
    | .arrNext =>
      closeEnding res.type 0x5d (separatorEnding res.type fun r => valueEnding r res) r
    | .objFirstFilter obj ign =>
      openEnding res.type 0x7b (closeEnding res.type 0x7d fun r =>
        filterEnding obj ign (r.json.length + 1) res r) r
    | .objNextFilter obj ign =>
      closeEnding res.type 0x7d (separatorEnding res.type fun r =>
        filterEnding obj ign (r.json.length + 1) res r) r

/-- The call ends in a place where the type is set, or void already. -/
def Call.Sets (c : Call) (r : Reader) (res : Val) : Prop := (c.ending r res).Sets

lemma Ends.valid_iff {out : Bool × Reader × Val} {ending : Ending} (h : Ends out ending) :
    Valid out ↔ ending.Sets := by
  match ending with
  | none =>
    exact iff_of_true (iff_of_true h.1 h.2) (by simp [Ending.Sets])
  | some (exit, type) =>
    obtain ⟨hout, htype⟩ := h
    rw [Valid, hout, htype]
    cases hs : exit.sets <;> simp [Ending.Sets, hs]

/-! ## The parts of a call -/

lemma ends_false (r : Reader) {res : Val} {exit : Exit} (h : exit.sets = false) :
    Ends (false, r, res) (some (exit, res.type)) := by
  simp [Ends, h]

lemma ends_void (r : Reader) (res : Val) {exit : Exit} (h : exit.sets = true) (type : UType) :
    Ends (false, r, { res with type := .void }) (some (exit, type)) := by
  simp [Ends, h]

lemma valid_getValue (r : Reader) (res : Val) : Valid (getValue r res) := by
  unfold getValue
  split <;> (try split) <;> simp [Valid]

lemma ends_getValue (r : Reader) (res : Val) : Ends (getValue r res) (valueEnding r res) := by
  have hvalid := valid_getValue r res
  rw [Valid] at hvalid
  rw [valueEnding]
  split
  case isTrue h => exact ⟨h, hvalid.1 h⟩
  case isFalse h => exact ⟨by simpa using h, by simpa [Exit.sets, h] using hvalid⟩

lemma ends_objNext (r : Reader) (res : Val) : Ends (objNext r res) (memberEnding r res) := by
  unfold objNext memberEnding
  rcases copyIdStr r with ⟨_ | id, r⟩
  · exact ends_false r rfl
  · exact ends_getValue r _

section Parts

variable {k : Reader → Val → Bool × Reader × Val} {rest : Reader → Ending} {res : Val}
  (hk : ∀ r, Ends (k r res) (rest r))

include hk

lemma ends_anyFirst (b : UInt8) (r : Reader) : Ends (match anyFirst r b with
      | (true, r) => (false, r, res)
      | (false, r) => k r res) (openEnding res.type b rest r) := by
  unfold openEnding
  rcases anyFirst r b with ⟨_ | _, r'⟩
  · exact hk r'
  · exact ends_false r' rfl

lemma ends_checkEnd (b : UInt8) (r : Reader) : Ends (match checkEnd r res b with
      | (true, r, res) => (false, r, res)
      | (false, r, res) => k r res) (closeEnding res.type b rest r) := by
  unfold closeEnding checkEnd
  rcases hws : r.eatws with ⟨_ | _, r'⟩
  · rcases hb : r'.eatb b with ⟨_ | _, r''⟩
    · have hsame : r'' = r' := by
        unfold Reader.eatb at hb
        split at hb <;> simp at hb
        exact hb.symm
      simpa [hb, hsame] using hk r'
    · simpa [hb] using ends_void _ res rfl res.type
  · exact ends_false _ rfl

lemma ends_preNext (r : Reader) : Ends (match preNext r res with
      | (true, r, res) => (false, r, res)
      | (false, r, res) => k r res) (separatorEnding res.type rest r) := by
  unfold separatorEnding preNext
  rcases hb : r.eatb 0x2c with ⟨_ | _, r'⟩
  · exact ends_void _ res rfl res.type
  rcases hws : r'.eatws with ⟨_ | _, r''⟩
  · simpa [hws] using hk r''
  · simpa [hws] using ends_void _ res rfl res.type

lemma ends_objPreNext (r : Reader) : Ends (match objPreNext r res with
      | (true, r, res) => (false, r, res)
      | (false, r, res) => k r res) (passEnding res.type rest r) := by
  unfold passEnding objPreNext
  by_cases he : r.err.isSome
  · rw [if_pos he, if_pos he]
    exact ends_false r rfl
  have h := @ends_checkEnd (fun r res => match preNext r res with
      | (true, r, res) => (false, r, res)
      | (false, r, res) => k r res) _ res (ends_preNext hk) 0x7d r
  rw [if_neg he, if_neg he]
  rcases hc : checkEnd r res 0x7d with ⟨_ | _, _, _⟩ <;> rw [hc] at h <;> exact h

end Parts

lemma ends_objNextFilter (obj ign : Option (List ObjAttr)) : ∀ n res r,
      Ends (objNextFilter obj ign n r res) (filterEnding obj ign n res r)
  | 0, res, r => ends_false r rfl
  | n + 1, res, r => by
    rw [objNextFilter, filterEnding]
    rcases copyIdStr r with ⟨_ | id, r⟩
    · exact ends_false r rfl
    dsimp only
    generalize (obj.bind fun attrs => ujsonLookup attrs id) = idx
    cases idx with dsimp only
    | none =>
      rcases skipObjVal r with ⟨_ | _, r⟩
      · exact ends_false r rfl
      · exact ends_objPreNext (fun r => ends_objNextFilter obj ign n _ r) _
    | some i =>
      have hget := valid_getValue r { res with id := id, idx := some i }
      rcases hv : getValue r { res with id := id, idx := some i } with ⟨_ | _, r, res'⟩ <;>
        rw [hv] at hget
      · exact ⟨rfl, by simpa [Valid, Exit.sets] using hget⟩
      dsimp only
      split_ifs with ha
      · exact ⟨rfl, hget.1 rfl⟩
      · exact ends_objPreNext (fun r => ends_objNextFilter obj ign n _ r) _

/-! ## The calls -/

lemma ends_checkErr {r : Reader} {res : Val} {out} {rest : Ending} (h : Ends out rest) :
    Ends (if r.err.isSome then (false, r, { res with type := .void }) else out)
      (if r.err.isSome then some (.failed, res.type) else rest) := by
  split_ifs
  · exact ends_void r res rfl res.type
  · exact h

lemma ends_checkErr_objPreNext {k : Reader → Val → Bool × Reader × Val} {rest : Reader → Ending}
    {res} (hk : ∀ r, Ends (k r res) (rest r)) (r : Reader) :
    Ends (if r.err.isSome then (false, r, { res with type := .void }) else
      match objPreNext r res with
      | (true, r, res) => (false, r, res)
      | (false, r, res) => k r res)
      (if r.err.isSome then some (.failed, res.type)
        else closeEnding res.type 0x7d (separatorEnding res.type rest) r) := by
  have h := ends_objPreNext hk r
  unfold passEnding at h
  split_ifs at h ⊢
  · exact ends_void r res rfl res.type
  · exact h

/-- Every call returns with a value, or through the exit that its ending names. -/
lemma ends_run (c : Call) (r : Reader) (res : Val) : Ends (c.run r res) (c.ending r res) := by
  have harr : ∀ r, Ends (arrNext r res) (valueEnding r res) := fun r => ends_getValue r res
  have hobj : ∀ r, Ends (objNext r res) (memberEnding r res) := fun r => ends_objNext r res
  cases c with
  | objFirst =>
    exact ends_checkErr (@ends_anyFirst (fun r res => match checkEnd r res 0x7d with
      | (true, r, res) => (false, r, res)
      | (false, r, res) => objNext r res) _ res (ends_checkEnd hobj 0x7d) 0x7b r)
  | objNext => exact ends_checkErr_objPreNext hobj r
  | arrFirst =>
    exact ends_checkErr (@ends_anyFirst (fun r res => match checkEnd r res 0x5d with
      | (true, r, res) => (false, r, res)
      | (false, r, res) => arrNext r res) _ res (ends_checkEnd harr 0x5d) 0x5b r)
  | arrNext =>
    exact ends_checkErr (@ends_checkEnd (fun r res => match preNext r res with
      | (true, r, res) => (false, r, res)
      | (false, r, res) => arrNext r res) _ res (ends_preNext harr) 0x5d r)
  | objFirstFilter obj ign =>
    exact ends_checkErr (@ends_anyFirst (fun r res => match checkEnd r res 0x7d with
      | (true, r, res) => (false, r, res)
      | (false, r, res) => objNextFilter obj ign (r.json.length + 1) r res) _ res
      (ends_checkEnd (fun r => ends_objNextFilter obj ign _ res r) 0x7d) 0x7b r)
  | objNextFilter obj ign =>
    exact @ends_checkErr_objPreNext
      (fun r res => objNextFilter obj ign (r.json.length + 1) r res) _ res
      (fun r => ends_objNextFilter obj ign _ res r) r

lemma valid_run (c : Call) (r : Reader) (res : Val) : Valid (c.run r res) ↔ c.Sets r res :=
  (ends_run c r res).valid_iff

/-! ## Loops -/

section Loops

variable {σ : Type} (next : Call) (body : Reader → Val → σ → Flow σ)

/-- Whether each call parsed a value, and whether the body was run behind it. -/
def loopCalls : Nat → Bool × Reader × Val → σ → List (Bool × Bool)
  | 0, _, _ => []
  | n + 1, (parsed, r, val), s =>
    if val.type = .void then [(parsed, false)]
    else
      (parsed, true) :: match body r val s with
        | .ret _ _ _ => []
        | .next r val s => loopCalls n (next.run r val) s

/-- Every call of the loop behind the first sets the type. -/
def LoopSets : Nat → Bool × Reader × Val → σ → Prop
  | 0, _, _ => True
  | n + 1, (_, r, val), s =>
    val.type ≠ .void → match body r val s with
      | .ret _ _ _ => True
      | .next r val s => next.Sets r val ∧ LoopSets n (next.run r val) s

lemma loopCalls_eq : ∀ n out s, Valid out →
    LoopSets next body n out s → ∀ x ∈ loopCalls next body n out s, x.1 = x.2
  | 0, _, _, _, _, x, hx => by simp [loopCalls] at hx
  | n + 1, (parsed, r, val), s, hv, hsets, x, hx => by
    rw [loopCalls] at hx
    split_ifs at hx with hvoid
    · rw [mem_singleton] at hx
      subst hx
      simpa [Valid, hvoid] using hv
    have hrest := hsets hvoid
    rcases mem_cons.mp hx with rfl | hx
    · exact hv.mpr hvoid
    cases hb : body r val s with
    | ret => simp [hb] at hx
    | next r' val' s' =>
      simp only [hb] at hx hrest
      exact loopCalls_eq n _ s' ((valid_run next r' val').mpr hrest.1) hrest.2 x hx

def Flow.state : Flow σ → σ
  | .next _ _ s => s
  | .ret _ _ s => s

def counted (r : Reader) (val : Val) (s : σ × Nat) : Flow (σ × Nat) :=
  match body r val s.1 with
  | .next r val s' => .next r val (s', s.2 + 1)
  | .ret r val s' => .ret r val (s', s.2 + 1)

lemma foreachLoop_counted : ∀ n (out : Bool × Reader × Val) s k,
    (foreachLoop next.run (counted body) n out.2 (s, k)).state.2 =
      k + (loopCalls next body n out s).countP (·.2)
  | 0, _, _, _ => rfl
  | n + 1, (parsed, r, val), s, k => by
    rw [foreachLoop, loopCalls]
    by_cases hvoid : val.type = .void
    · simp [hvoid, Flow.state]
    rw [if_neg hvoid, if_neg hvoid, counted]
    cases body r val s with
    | ret => simp [Flow.state]
    | next r' val' s' =>
      have ih := foreachLoop_counted n (next.run r' val') s' (k + 1)
      simp only [ih, countP_cons]
      simp
      omega

end Loops

/-- **When the type tells whether a value was parsed.** A call leaves the type void exactly if it
parsed nothing, exactly if it ends where the type is set; and a loop all of whose calls do so runs
its body once for each value that was parsed. -/
theorem parsed_iff_valid (c : Call) (r : Reader) (res : Val) :
    (Valid (c.run r res) ↔ c.Sets r res) ∧
      ∀ (σ : Type) (next : Call) (body : Reader → Val → σ → Flow σ) (n : Nat) (s : σ),
        c.Sets r res → LoopSets next body n (c.run r res) s →
        (∀ x ∈ loopCalls next body n (c.run r res) s, x.1 = x.2) ∧
          (foreachLoop next.run (counted body) n (c.run r res).2 (s, 0)).state.2 =
            (loopCalls next body n (c.run r res) s).countP (·.1) := by
  refine ⟨valid_run c r res, fun σ next body n s hfirst hloop => ?_⟩
  have heq := loopCalls_eq next body n (c.run r res) s ((valid_run c r res).mpr hfirst) hloop
  refine ⟨heq, ?_⟩
  rw [foreachLoop_counted, Nat.zero_add]
  exact List.countP_congr fun x hx => by rw [heq x hx]

/-- The text `{"a":1` ends after its only member. The body is run twice, the second time on the
value of the first. -/
theorem stale_value_seen : let r : Reader := { json := [0x7b, 0x22, 0x61, 0x22, 0x3a, 0x31] }
    (loopCalls .objNext (fun r val (s : Unit) => .next r val s) 7 (Call.objFirst.run r {}) () =
        [(true, true), (false, true), (false, false)]) ∧
      (foreachLoop ujsonObjNext (fun r val s => .next r val (s ++ [val.payload])) 7
        (ujsonObjFirst r {}).2 []).state = [.int 1, .int 1] := by
  decide

end LtpDdt.Ujson
