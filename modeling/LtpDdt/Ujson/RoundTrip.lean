/-
Ujson.RoundTrip — a tree that is written with the calls of the writer and read back
with the loops of the reader.

`Items` are the members of an object, each with an id, or the elements of an array.
`Items.calls` write it, `Items.seen` is what a walk over the text should record.

The writer escapes ids as it escapes strings, and the reader takes them as they are
written; `IdPlain` says that there is nothing to escape. The writer prints the other
control characters of a string as they are, and the reader refuses them; `LeafPlain`
says that there are none.

`Items.text` is what the calls write (`succeeds_items`). The walk records it up to
the first escaped id and the first bare control character (`walkLoop_items`);
there it sets the error, finds no value or records another id (`Misread`).
-/
import LtpDdt.Ujson.SweepTheorems
import LtpDdt.Ujson.WriterTheorems

namespace LtpDdt.Ujson

open Json

/-! ## Trees -/

inductive Leaf where
  | str (s : List UInt8)
  | int (v : Int)
  | bool (b : Bool)
  | null
  deriving DecidableEq

/-- The id of a member; the elements of an array have none. -/
inductive Label : Kind → Type where
  | elem : Label .arr
  | name (s : List UInt8) : Label .obj

inductive Items : Kind → Type where
  | nil {k : Kind} : Items k
  | leaf {k : Kind} (id : Label k) (v : Leaf) (next : Items k) : Items k
  | sub {k : Kind} (id : Label k) (k' : Kind) (inner : Items k') (next : Items k) : Items k

/-- Every id satisfies `I`, every leaf `V`. -/
def Items.All (I : ∀ k : Kind, Label k → Prop) (V : Leaf → Prop) : {k : Kind} → Items k → Prop
  | _, .nil => True
  | k, .leaf id v next => (I k id ∧ V v) ∧ next.All I V
  | k, .sub id _ inner next => I k id ∧ inner.All I V ∧ next.All I V

def Items.depth : {k : Kind} → Items k → Nat
  | _, .nil => 0
  | _, .leaf _ _ next => next.depth
  | _, .sub _ _ inner next => max (inner.depth + 1) next.depth

/-! ## Writing -/

def Label.arg : {k : Kind} → Label k → Option (List UInt8)
  | _, .elem => none
  | _, .name s => some s

def Leaf.call (id : Option (List UInt8)) : Leaf → WriterCall
  | .str s => .strAdd id s
  | .int v => .intAdd id v
  | .bool b => .boolAdd id b
  | .null => .nullAdd id

def startCall (id : Option (List UInt8)) : Kind → WriterCall
  | .arr => .arrStart id
  | .obj => .objStart id

def finishCall : Kind → WriterCall
  | .arr => .arrFinish
  | .obj => .objFinish

/-- The calls for the members and for the end of their container. -/
def Items.calls : {k : Kind} → Items k → List WriterCall
  | k, .nil => [finishCall k]
  | _, .leaf id v next => v.call id.arg :: next.calls
  | _, .sub id k' inner next => startCall id.arg k' :: (inner.calls ++ next.calls)

/-- `out` is what the calls for an object or array write, and none of them
fails. -/
def Writes {k : Kind} (items : Items k) (out : List UInt8) : Prop :=
  ∃ rets w, runCalls {} (startCall none k :: items.calls) = some (rets, w) ∧
    (∀ ret ∈ rets, ret = false) ∧ (ujsonWriterFinish w).1 = false ∧
    (ujsonWriterFinish w).2.out = out

/-! ## Reading -/

def Label.seen : {k : Kind} → Label k → List UInt8
  | _, .elem => []
  | _, .name s => s

def Leaf.type : Leaf → UType
  | .str _ => .str
  | .int _ => .int
  | .bool _ => .bool
  | .null => .null

def Leaf.payload : Leaf → Payload
  | .str s => .str s
  | .int v => .int v
  | .bool b => .bool b
  | .null => .unset

def Items.seen : {k : Kind} → Items k → Seen
  | _, .nil => .nil
  | _, .leaf id v next => .scalar id.seen v.type v.payload next.seen
  | _, .sub id k' inner next => .sub id.seen k' inner.seen next.seen

/-- Written and read back, with any sufficiently large buffer. -/
def RoundTrips (strict : Bool) {k : Kind} (items : Items k) : Prop :=
  ∃ out, Writes items out ∧ ∃ large, ∀ len, large ≤ len → ∃ r,
    walk (some len) { json := out, strict := strict } = (kindType k, items.seen, r) ∧ r.err = none

/-! ## Conditions -/

def IsText (s : List UInt8) : Prop := IsUtf8 s ∧ ∀ b ∈ s, b ≠ 0

def IdIn (k : Kind) (id : Label k) : Prop := IsText id.seen ∧ id.seen.length ≤ 40

/-- A string, or a `long`. -/
def LeafIn : Leaf → Prop
  | .str s => IsText s
  | .int v => -2 ^ 63 ≤ v ∧ v < 2 ^ 63
  | _ => True

def IdPlain (k : Kind) (id : Label k) : Prop := ∀ b ∈ id.seen, escText b = none

/-- No control character that the writer does not escape. -/
def LeafPlain : Leaf → Prop
  | .str s => ∀ b ∈ s, b < 0x20 → (escText b).isSome = true
  | _ => True

open CTypes List WriterCall Items

variable {v : Leaf} {s : List UInt8} {len : Nat} {k : Kind}

/-! ## The text of a tree -/

def Label.text : {k : Kind} → Label k → List UInt8
  | _, .elem => []
  | _, .name s => 0x22 :: (escape s ++ [0x22, 0x3a, 0x20])

def Leaf.text : Leaf → List UInt8
  | .str s => 0x22 :: (escape s ++ [0x22])
  | .int v => printInt v
  | .bool b => if b then trueText else falseText
  | .null => nullText

/-- From a member on to the closing bracket of the container, the `d`th that is open. -/
def Items.text (d : Nat) : {k : Kind} → Items k → Bool → List UInt8
  | k, .nil, first => (if first then [] else (indent (d - 1)).1) ++ [k.closing]
  | _, .leaf id v next, first =>
    sepText first .empty ++ ((indent d).1 ++ (id.text ++ (v.text ++ next.text d false)))
  | _, .sub id k' inner next, first =>
    sepText first .empty ++ ((indent d).1 ++ (id.text ++
      (k'.opening :: (inner.text (d + 1) true ++ next.text d false))))

/-! ## Writing -/

def Succeeds (self : Writer) (calls : List WriterCall) (w : Writer) : Prop :=
  ∃ rets, runCalls self calls = some (rets, w) ∧ ∀ ret ∈ rets, ret = false

section succeeds

variable {self w w' : Writer} {call : WriterCall} {calls calls' : List WriterCall}

lemma Succeeds.cons (h : call.run self = some (false, w)) (h' : Succeeds w calls w') :
    Succeeds self (call :: calls) w' := by
  obtain ⟨rets, hrun, hrets⟩ := h'
  refine ⟨false :: rets, ?_, forall_mem_cons.2 ⟨rfl, hrets⟩⟩
  simp [runCalls, h, hrun, Option.bind_some]

lemma Succeeds.single (h : call.run self = some (false, w)) : Succeeds self [call] w :=
  .cons h ⟨[], rfl, nofun⟩

lemma Succeeds.append (h : Succeeds self calls w) (h' : Succeeds w calls' w') :
    Succeeds self (calls ++ calls') w' := by
  induction calls generalizing self with
  | nil =>
    obtain ⟨_, hrun, -⟩ := h
    cases hrun
    exact h'
  | cons call calls ih =>
    obtain ⟨_, hrun, hrets⟩ := h
    simp only [runCalls, Option.bind_eq_bind, Option.bind_eq_some_iff, Prod.exists] at hrun
    obtain ⟨_, _, hcall, rets', _, hrest, heq⟩ := hrun
    cases heq
    obtain ⟨rfl, hrets'⟩ := forall_mem_cons.1 hrets
    exact .cons hcall (ih ⟨rets', hrest, hrets'⟩)

end succeeds

variable {id : Label k} {t : List UInt8}

section writing

variable {self : Writer} {k : Kind} {first : Bool} {stack : List (Kind × Bool)}

lemma IdIn.idText {id : Label k} (h : IdIn k id) : IdText k id.arg id.text := by
  cases id with
  | elem => exact ⟨rfl, rfl⟩
  | name s =>
    have hchunks : Chunks s := chunks_utf8 h.1.1 h.1.2
    exact ⟨s, _, rfl, outEscStr_chunks hchunks, by simp [Label.text]⟩

section

variable (h : Stacked self ((k, first) :: stack))

include h

/-- A leaf is written. -/
lemma run_leaf {id : Label k} (hid : IdIn k id) (hv : LeafIn v) : (v.call id.arg).run self =
      some (false, (withText self first stack.length id.text).put v.text) := by
  have hadd := addCommon_text h hid.idText
  cases v with
  | str s =>
    have hchunks : Chunks s := chunks_utf8 hv.1 hv.2
    simp [Leaf.call, run, ujsonStrAdd, addText, hadd, outEscStr_chunks hchunks, Leaf.text]
  | int => simp [Leaf.call, run, ujsonIntAdd, addText, hadd, Leaf.text]
  | bool => simp [Leaf.call, run, ujsonBoolAdd, addText, hadd, Leaf.text]
  | null => simp [Leaf.call, run, ujsonNullAdd, addText, hadd, Leaf.text]

/-- An object or array is opened. -/
lemma run_start {id : Label k} (hid : IdIn k id) (hlt : stack.length + 1 < ujsonRecursionMax)
    (k' : Kind) :
    (startCall id.arg k').run self =
      some (false, ((withText self first stack.length id.text).put [k'.opening]).setDepthBit
        (k' == .obj)) := by
  have hadd := addCommon_text h hid.idText
  have hdepth : self.depth = stack.length + 1 := h.depth
  have hmax : ¬ self.depth ≥ ujsonRecursionMax := by omega
  have hzero : self.depth ≠ 0 := by omega
  cases k' with
  | arr => simp [startCall, run, ujsonArrStart, hmax, hzero, hadd]; rfl
  | obj => simp [startCall, run, ujsonObjStart, hmax, hzero, hadd]; rfl

/-- An object or array is closed. -/
lemma run_finish : (finishCall k).run self = some (false, finishWith self k.closing) := by
  cases k with
  | arr => simp [finishCall, run, ujsonArrFinish, h.err, h.inArr, Kind.closing]
  | obj => simp [finishCall, run, ujsonObjFinish, h.err, h.inObj, Kind.closing]

end

/-- **The calls for a list of items succeed.** -/
lemma succeeds_items (items : Items k) (h : Stacked self ((k, first) :: stack))
    (hin : items.All IdIn LeafIn) (hd : stack.length + 1 + items.depth ≤ ujsonRecursionMax) :
    ∃ w, Succeeds self items.calls w ∧ Stacked w stack ∧
      w.out = self.out ++ items.text (stack.length + 1) first := by
  induction items generalizing self first stack with
  | nil =>
    refine ⟨_, .single (run_finish h), ?_, ?_⟩
    · rw [finishWith_eq h]
      exact ⟨h.err, rfl, by have := h.max; rw [length_cons] at this; omega, h.cleared.2.2⟩
    · rw [finishWith_eq h]
      rfl
  | leaf id v next ih =>
    obtain ⟨w, hrun, hstack, hout⟩ := ih ((h.withText id.text).put v.text) hin.2 hd
    refine ⟨w, .cons (run_leaf h hin.1.1 hin.1.2) hrun, hstack, ?_⟩
    rw [hout]
    simp [withText, Writer.put, text, h.depth]
  | sub id k' inner next ihi ihn =>
    simp only [depth] at hd
    have hlt : stack.length + 1 < ujsonRecursionMax := by omega
    have hstart := setDepthBit_stacked ((h.withText id.text).put [k'.opening])
      (show self.depth < ujsonRecursionMax by rw [h.depth]; exact hlt) k'
    obtain ⟨_, hrun₁, hstack₁, hout₁⟩ := ihi hstart hin.2.1 (by simp only [length_cons]; omega)
    obtain ⟨w, hrun, hstack, hout⟩ := ihn hstack₁ hin.2.2 (by omega)
    refine ⟨w, .cons (run_start h hin.1 hlt k') (hrun₁.append hrun), hstack, ?_⟩
    rw [hout, hout₁]
    simp [withText, Writer.put, Writer.setDepthBit, text, h.depth]

/-- **What a whole value is written as.** -/
lemma writes_text (items : Items k) (hin : items.All IdIn LeafIn)
    (hd : items.depth + 1 ≤ ujsonRecursionMax) :
    Writes items (k.opening :: (items.text 1 true ++ [0x0a])) := by
  have hinit : Stacked {} [] := ⟨rfl, rfl, Nat.zero_le _, trivial⟩
  have hstart := setDepthBit_stacked (hinit.put [k.opening])
    (show 0 < ujsonRecursionMax by decide) k
  obtain ⟨w, ⟨rets, hrun, hrets⟩, hstack, hout⟩ := succeeds_items items hstart hin
    (by simp only [length_nil]; omega)
  have hcall : (startCall none k).run {} =
      some (false, (Writer.put {} [k.opening]).setDepthBit (k == .obj)) := by
    cases k <;> rfl
  refine ⟨false :: rets, w, ?_, forall_mem_cons.2 ⟨rfl, hrets⟩, ?_, ?_⟩
  · simp [runCalls, hcall, hrun, Option.bind_some]
  · simp [ujsonWriterFinish, hstack.err, hstack.depth]
  · simp only [ujsonWriterFinish, hstack.err, hstack.depth, newline_eq, Writer.put, hout]
    simp [Writer.setDepthBit, indent]

end writing

/-! ## Escapes in names -/

lemma escByte_facts (b : UInt8) : 1 ≤ (escByte b).length ∧
    (escText b ≠ none → 2 ≤ (escByte b).length) ∧ (b ≠ 0x22 → (0x22 : UInt8) ∉ escByte b) := by
  unfold escByte
  cases hesc : escText b with
  | none =>
    exact ⟨Nat.le_refl 1, fun h => absurd rfl h, fun hb hmem => hb (mem_singleton.1 hmem).symm⟩
  | some text =>
    have htext : text.length = 2 ∧ (b ≠ 0x22 → (0x22 : UInt8) ∉ text) := by
      unfold escText at hesc
      split_ifs at hesc with hquote
      · obtain rfl := Option.some.inj hesc
        exact ⟨rfl, fun hb => absurd hquote hb⟩
      all_goals
        obtain rfl := Option.some.inj hesc
        exact ⟨rfl, fun _ => by decide⟩
    rw [Option.getD_some, htext.1]
    exact ⟨by decide, fun _ => Nat.le_refl 2, htext.2⟩

lemma escape_plain (h : ∀ b ∈ s, escText b = none) : escape s = s := by
  induction s with
  | nil => rfl
  | cons b s ih =>
    obtain ⟨hb, hs⟩ := forall_mem_cons.1 h
    rw [escape, flatMap_cons, escByte, hb, ← escape, ih hs]
    rfl

lemma escape_noQuote (h : (0x22 : UInt8) ∉ s) : (0x22 : UInt8) ∉ escape s := by
  intro hmem
  obtain ⟨b, hb, hq⟩ := mem_flatMap.1 hmem
  exact (escByte_facts b).2.2 (ne_of_mem_of_not_mem hb h) hq

/-- Escaping never makes a text shorter. -/
lemma escape_length (s : List UInt8) : s.length ≤ (escape s).length ∧
    ((∃ b ∈ s, escText b ≠ none) → s.length < (escape s).length) := by
  induction s with
  | nil => exact ⟨Nat.le_refl _, fun ⟨b, hb, _⟩ => nomatch hb⟩
  | cons b s ih =>
    obtain ⟨_, htwo, -⟩ := escByte_facts b
    rw [escape, flatMap_cons, ← escape, length_append, length_cons]
    refine ⟨by omega, ?_⟩
    rintro ⟨c, hc, hesc⟩
    rcases mem_cons.1 hc with rfl | hc
    · have := htwo hesc
      omega
    · have := ih.2 ⟨c, hc, hesc⟩
      omega

section names

variable {r : Reader} {e : Env} {d : Nat} {k : Kind} {t : List UInt8} {id : Label k}

/-- A name with an escape is refused, or another id: one with a quote is cut there, any other is
taken with its backslashes. -/
lemma copyIdStr_escaped (hs : ∃ b ∈ s, escText b ≠ none)
    (h : r.At e d (0x22 :: (escape s ++ 0x22 :: t))) :
    Fails (copyIdStr r) ∨ ∃ bs r', copyIdStr r = (some bs, r') ∧ bs ≠ s := by
  rcases copyIdStr_read h with hfail | ⟨w, _, bs, u, r', hbs, htext, heq, -⟩
  · exact .inl hfail
  refine .inr ⟨bs, r', heq, ?_⟩
  rintro rfl
  have hw : w.1 = [] := by
    rcases hw : w.1 with _ | ⟨c, _⟩
    · rfl
    rw [hw] at htext
    obtain ⟨rfl, -⟩ := cons.inj htext
    exact absurd (w.2 0x22 (by rw [hw]; exact mem_cons_self)) (by decide)
  rw [hw] at htext
  have hne : ∀ {xs : List UInt8}, (0x22 : UInt8) ∉ xs → ∀ b ∈ xs, (b != 0x22) :=
    fun hxs b hb => bne_iff_ne.2 (ne_of_mem_of_not_mem hb hxs)
  obtain ⟨hsame, -⟩ := run_unique (hne (escape_noQuote hbs)) (hne hbs) (stops_cons rfl)
    (stops_cons rfl) (cons.inj htext).2
  have hlonger := (escape_length bs).2 hs
  rw [hsame] at hlonger
  exact Nat.lt_irrefl _ hlonger

def storeLabel : {k : Kind} → Label k → Val → Val
  | _, .elem, res => res
  | _, .name s, res => { res with id := s }

lemma storeLabel_fields (id : Label k) (res : Val) :
    (storeLabel id res).bufSize = res.bufSize ∧ (storeLabel id res).idIn k = id.seen := by
  cases id <;> exact ⟨rfl, rfl⟩

lemma label_start (id : Label k) (hv : ValueStart t) :
    ∃ c u, id.text ++ t = c :: u ∧ isWs c = false ∧ c ≠ k.closing := by
  cases id with
  | elem => exact hv
  | name => exact ⟨_, _, rfl, rfl, by decide⟩

/-- A plain label is read back. -/
lemma memberNext_label (hin : IdIn k id) (hplain : IdPlain k id)
    (h : r.At e d (id.text ++ t)) (res : Val) :
    ∃ (r' : Reader) (w : Ws), memberNext k r res = getValue r' (storeLabel id res) ∧
      r'.At e d (w.1 ++ t) := by
  cases id with
  | elem => exact ⟨r, .empty, rfl, h⟩
  | name s =>
    have hquote : ∀ b ∈ s, b ≠ 0x22 := by
      rintro b hb rfl
      exact absurd (hplain _ hb) (by decide)
    have hlen : s.length < ujsonIdMax := Nat.lt_of_le_of_lt hin.2 (by decide)
    have hesc : escape s = s := escape_plain hplain
    have h' : r.At e d (Ws.empty.1 ++ 0x22 ::
      (s ++ 0x22 :: (Ws.empty.1 ++ 0x3a :: 0x20 :: t))) := by
      simpa [Label.text, hesc, Ws.empty] using h
    obtain ⟨r₁, he, h₁⟩ := copyIdStr_at hquote hlen h'
    exact ⟨r₁, ⟨[0x20], forall_mem_singleton.2 rfl⟩,
      by simp [memberNext, objNext, he, storeLabel], h₁⟩

/-- There is an error, no value, or another id. -/
def Misread (id : Label k) (x : Reader × Val) : Prop :=
  x.1.err ≠ none ∨ x.2.type = .void ∨ x.2.idIn k ≠ id.seen

/-- Any other label is misread. -/
lemma memberNext_misread (hplain : ¬ IdPlain k id) (h : r.At e d (id.text ++ t)) (res : Val) :
    Misread id (memberNext k r res).2 := by
  cases id with
  | elem => exact absurd nofun hplain
  | name s =>
    have hs : ∃ b ∈ s, escText b ≠ none := by simpa [IdPlain, Label.seen] using hplain
    have h' : r.At e d (0x22 :: (escape s ++ 0x22 :: 0x3a :: 0x20 :: t)) := by
      simpa [Label.text] using h
    rw [memberNext, objNext]
    rcases copyIdStr_escaped hs h' with ⟨hnone, herr⟩ | ⟨bs, r', heq, hne⟩
    · generalize copyIdStr r = x at hnone herr ⊢
      obtain ⟨out, _⟩ := x
      obtain rfl : out = none := hnone
      exact .inl herr
    · rw [heq]
      refine .inr (.inr fun hid => hne ?_)
      exact (getValue_id r' { res with id := bs }).symm.trans hid

end names

/-! ## Leaves -/

def LeafFits (len : Nat) : Leaf → Prop
  | .str s => s.length + 1 < len
  | _ => True

lemma ValueStart.leaf (v : Leaf) (t : List UInt8) : ValueStart (v.text ++ t) := by
  cases v with
  | str | null => exact ⟨_, _, rfl, rfl, by decide⟩
  | int v =>
    rw [Leaf.text, ← DataStorage.intNumber_text]
    exact .scalar (.num (DataStorage.intNumber v)) t
  | bool b => cases b <;> exact ⟨_, _, rfl, rfl, by decide⟩

/-- A plain leaf is written as a scalar that is read back. -/
lemma leaf_scalar (hin : LeafIn v) (hplain : LeafPlain v)
    (hfits : LeafFits len v) : ∃ sc, sc.text = v.text ∧ scalarType sc = v.type ∧
      ScalarReads (some len) sc ∧ scalarSeen (some len) sc = v.payload := by
  cases v with
  | str s =>
    obtain ⟨es, htext, hdec, -⟩ := escape_elems hplain
    refine ⟨.str es, by rw [Scalar.text, htext]; rfl, rfl, ?_, congrArg Payload.str hdec⟩
    have hlen : s.length + 1 < len := hfits
    have hle : (endsInUcode es).toNat ≤ 1 := Bool.toNat_le _
    show (strDecode es).length + (endsInUcode es).toNat < len
    rw [hdec]
    omega
  | int v =>
    have hvalue : (DataStorage.intNumber v).value = v := by
      simpa [Scalar.tree, DataStorage.intNumber, Number.isInt] using DataStorage.intNumber_tree v
    refine ⟨.num (DataStorage.intNumber v), DataStorage.intNumber_text v, rfl, trivial, ?_⟩
    show Payload.int (wrapLong (DataStorage.intNumber v).value) = .int v
    rw [hvalue, wrapLong_of_lt hin.1 hin.2]
  | bool b => exact ⟨.bool b, by cases b <;> rfl, rfl, trivial, rfl⟩
  | null => exact ⟨.null, rfl, rfl, trivial, rfl⟩

/-- A bare control byte is in no string. -/
lemma control_not_string {b} (hb : b < 0x20) {v u} : ∀ ea es,
    strText ea ++ b :: v ≠ strText es ++ 0x22 :: u
  | [], [], h => by
    obtain ⟨rfl, -⟩ := cons.inj h
    exact absurd hb (by decide)
  | [], x :: es, h => by
    rw [strText_cons] at h
    cases x with obtain ⟨rfl, -⟩ := cons.inj h
    | plain c hc =>
      exact ((isPlain_iff b).1 hc).1 hb
    | esc | ucode =>
      exact absurd hb (by decide)
  | x :: ea, [], h => by
    rw [strText_cons, append_assoc] at h
    exact x.text_ne_quote _ _ h
  | x :: ea, y :: es, h => by
    rw [strText_cons, strText_cons, append_assoc, append_assoc] at h
    exact control_not_string hb ea es (StrElem.unique h).2

lemma exists_control (h : ¬ ∀ b ∈ s, b < 0x20 → (escText b).isSome) :
    ∃ ea b v, b < 0x20 ∧ escape s = strText ea ++ b :: v := by
  induction s with
  | nil => exact absurd nofun h
  | cons c s ih =>
    by_cases hc : c < 0x20 → (escText c).isSome
    · obtain ⟨x, hx, -⟩ := escByte_elem hc
      obtain ⟨ea, b, v, hb, heq⟩ := ih fun hs => h (forall_mem_cons.2 ⟨hc, hs⟩)
      refine ⟨x :: ea, b, v, hb, ?_⟩
      rw [escape, flatMap_cons, ← escape, heq, strText_cons, hx, append_assoc]
    rw [Classical.not_imp] at hc
    have hnone : escText c = none := by simpa using hc.2
    refine ⟨[], c, escape s, hc.1, ?_⟩
    rw [escape, flatMap_cons, escByte, hnone]
    rfl

section leaves

variable {r : Reader} {e : Env} {d : Nat} {k : Kind} {w : Ws} {t : List UInt8} {id : Label k}
  {v : Leaf} {res : Val} {len : Nat}

/-- A leaf with a bare control byte is refused. -/
lemma getValue_control (hplain : ¬ LeafPlain v) (hbuf : res.bufSize = some len)
    (h : r.At e d (w.1 ++ (v.text ++ t))) : (getValue r res).2.1.err ≠ none := by
  cases v with
  | int | bool | null => exact absurd trivial hplain
  | str =>
    obtain ⟨ea, b, v, hb, hesc⟩ := exists_control hplain
    obtain ⟨r₁, he₁, h₁⟩ := h.eatws_cons rfl
    have htype : ujsonNextType r = (.str, r₁) := by simp [ujsonNextType, he₁, h₁.peekb]
    have hread := copyStr_read (some len) h₁
    rw [getValue, htype]
    dsimp only
    rw [hbuf]
    rcases hread with ⟨hnone, herr⟩ | ⟨es, u, _, _, htext, -⟩ | ⟨hbuf', -⟩
    · generalize copyStr r₁ (some len) = x at hnone herr ⊢
      obtain ⟨out, _⟩ := x
      obtain rfl : out = none := hnone
      exact herr
    · have hsame : strText ea ++ b :: (v ++ 0x22 :: t) = strText es ++ 0x22 :: u := by
        rw [← htext, hesc]
        simp
      exact absurd hsame (control_not_string hb ea es)
    · cases hbuf'

end leaves

/-! ## The text behind a member -/

/-- White space before the comma or the closing bracket. -/
def itemsLead (d : Nat) {k : Kind} : Items k → Ws
  | .nil => indent (d - 1)
  | _ => .empty

/-- The rest, from the comma or the closing bracket on. -/
def itemsBody (d : Nat) : {k : Kind} → Items k → List UInt8
  | k, .nil => [k.closing]
  | _, .leaf id v next => 0x2c :: ((indent d).1 ++ (id.text ++ (v.text ++ next.text d false)))
  | _, .sub id k' inner next =>
    0x2c :: ((indent d).1 ++ (id.text ++ (k'.opening :: (inner.text (d + 1) true ++
      next.text d false))))

section behind

variable {k : Kind} (items : Items k) (d : Nat)

lemma Items.text_eq : items.text d false = (itemsLead d items).1 ++ itemsBody d items := by
  cases items <;> simp [text, itemsLead, itemsBody, sepText]

lemma itemsBody_head :
    ∃ c u, itemsBody d items = c :: u ∧ (c = 0x2c ∨ (c = k.closing ∧ u = [])) := by
  cases items with
  | nil => exact ⟨_, _, rfl, .inr ⟨rfl, rfl⟩⟩
  | leaf | sub => exact ⟨_, _, rfl, .inl rfl⟩

lemma afterClose_items (t : List UInt8) : AfterClose (itemsBody d items ++ t) := by
  obtain ⟨c, u, hbody, hc⟩ := itemsBody_head items d
  rintro b hb
  rw [hbody] at hb
  cases hb
  rcases hc with rfl | ⟨rfl, -⟩
  · decide
  · cases k <;> decide

lemma numEnd_items (ht : numEnd t) : numEnd (itemsBody d items ++ t) := by
  obtain ⟨c, u, hbody, hc⟩ := itemsBody_head items d
  rw [hbody]
  rcases hc with rfl | ⟨rfl, rfl⟩
  · simp [numEnd]
  · cases k <;> simpa [numEnd, Kind.closing] using ht

lemma numEnd_text (ht : numEnd t) : numEnd (items.text d false ++ t) := by
  rw [text_eq, append_assoc, numEnd_ws (itemsLead d items).2]
  exact numEnd_items items d ht

lemma noDigit_text (t : List UInt8) : NoDigit (items.text d false ++ t) := by
  cases items with
  | nil | leaf | sub => exact NoDigit.cons (by decide) _

end behind

/-! ## Getting to a member -/

structure Holds (len : Nat) {k : Kind} (id : Label k) (type : UType) (res : Val) : Prop where
  type : res.type = type
  id : res.idIn k = id.seen
  buf : res.bufSize = some len

/-- The reader and the value when the loop has got to `items`; `wt` and `t` come behind the
container. -/
def Reached (len : Nat) (e : Env) (d : Nat) (wt : Ws) (t : List UInt8) :
    {k : Kind} → Items k → Reader × Val → Prop
  | _, .nil, x => x.2.type = .void ∧ x.1.At e (d - 1) t
  | k, .leaf id v next, x =>
    (IdPlain k id ∧ LeafPlain v ∧ Holds len id v.type x.2 ∧ x.2.payload = v.payload ∧
      x.1.At e d (next.text d false ++ (wt.1 ++ t))) ∨
    (¬ (IdPlain k id ∧ LeafPlain v) ∧ Misread id x)
  | k, .sub id k' inner next, x =>
    (IdPlain k id ∧ Holds len id (kindType k') x.2 ∧
      x.1.At e d (k'.opening :: (inner.text (d + 1) true ++ (next.text d false ++ (wt.1 ++ t))))) ∨
    (¬ IdPlain k id ∧ Misread id x)

section reached

variable {r : Reader} {e : Env} {d : Nat} {k : Kind} {w wt : Ws} {t : List UInt8} {id : Label k}
  {res : Val} {len : Nat}

/-- **A leaf is read back or misread.** -/
lemma memberNext_leaf (hin : IdIn k id ∧ LeafIn v) (hfits : LeafFits len v)
    (hbuf : res.bufSize = some len) (hend : numEnd t) (ht : NoDigit t)
    (h : r.At e d (id.text ++ (v.text ++ t))) :
    (IdPlain k id ∧ LeafPlain v ∧ Holds len id v.type (memberNext k r res).2.2 ∧
        (memberNext k r res).2.2.payload = v.payload ∧ (memberNext k r res).2.1.At e d t) ∨
      (¬ (IdPlain k id ∧ LeafPlain v) ∧ Misread id (memberNext k r res).2) := by
  by_cases hid : IdPlain k id
  swap
  · exact .inr ⟨fun hboth => hid hboth.1, memberNext_misread hid h res⟩
  obtain ⟨_, w, he₁, h₁⟩ := memberNext_label hin.1 hid h res
  obtain ⟨hbuf', hseen⟩ := storeLabel_fields id res
  rw [hbuf] at hbuf'
  rw [he₁]
  by_cases hv : LeafPlain v
  swap
  · exact .inr ⟨fun hboth => hv hboth.2, .inl (getValue_control hv hbuf' h₁)⟩
  obtain ⟨_, htext, htype, hreads, hpay⟩ := leaf_scalar hin.2 hv hfits
  rw [← htext] at h₁
  rw [← hbuf'] at hreads
  obtain ⟨_, he, h'⟩ := getValue_scalar _ hreads hend ht h₁
  rw [he]
  refine .inl ⟨hid, hv, ⟨htype, hseen, hbuf'⟩, ?_, h'⟩
  rw [storeScalar_payload, hbuf', hpay]

/-- An inner value is reached, or its label misread. -/
lemma memberNext_inner {k' : Kind} (hin : IdIn k id) (hbuf : res.bufSize = some len)
    (h : r.At e d (id.text ++ (k'.opening :: t))) :
    (IdPlain k id ∧ Holds len id (kindType k') (memberNext k r res).2.2 ∧
        (memberNext k r res).2.1.At e d (k'.opening :: t)) ∨
      (¬ IdPlain k id ∧ Misread id (memberNext k r res).2) := by
  by_cases hid : IdPlain k id
  swap
  · exact .inr ⟨hid, memberNext_misread hid h res⟩
  obtain ⟨_, w, he₁, h₁⟩ := memberNext_label hin hid h res
  obtain ⟨hbuf', hseen⟩ := storeLabel_fields id res
  obtain ⟨_, he, h', -⟩ := getValue_container (storeLabel id res) h₁
  rw [he₁, he]
  exact .inl ⟨hid, ⟨rfl, hseen, hbuf'.trans hbuf⟩, h'⟩

lemma firstOf_label (hd : d < 128) (hv : ValueStart t)
    (h : r.At e d (w.1 ++ k.opening :: (wt.1 ++ (id.text ++ t)))) (res : Val) :
    ∃ r', firstOf k r res = memberNext k r' res ∧ r'.At e (d + 1) (id.text ++ t) := by
  obtain ⟨c, u, hcu, hws, hne⟩ := label_start id hv
  rw [hcu] at h ⊢
  obtain ⟨_, r', he₁, he₂, h'⟩ := first_open hd hws hne h res
  exact ⟨r', by simp [firstOf_eq k r res h.err, he₁, he₂], h'⟩

lemma nextOf_label (hv : ValueStart t) (h : r.At e d (w.1 ++ 0x2c :: (wt.1 ++ (id.text ++ t))))
    (res : Val) :
    ∃ r', nextOf k r res = memberNext k r' res ∧ r'.At e d (id.text ++ t) := by
  obtain ⟨c, u, hcu, hws, -⟩ := label_start id hv
  rw [hcu] at h ⊢
  obtain ⟨_, r', he₁, he₂, -, h'⟩ := next_open (k := k) hws h res
  exact ⟨r', by simp [nextOf_eq k r res h.err, he₁, he₂], h'⟩

/-- The first call reaches the first item. -/
lemma firstOf_reached (res : Val) {items : Items k} (hin : items.All IdIn LeafIn)
    (hfits : items.All (fun _ _ => True) (LeafFits len)) (hbuf : res.bufSize = some len)
    (hd : d < 128) (hend : numEnd t) (ht : AfterClose t)
    (h : r.At e d (w.1 ++ k.opening :: (items.text (d + 1) true ++ (wt.1 ++ t)))) :
    Reached len e (d + 1) wt t items (firstOf k r res).2 := by
  have hend' : numEnd (wt.1 ++ t) := by rw [numEnd_ws wt.2, hend]
  cases items with
  | nil =>
    have h₀ : r.At e d (w.1 ++ k.opening :: (Ws.empty.1 ++ k.closing :: (wt.1 ++ t))) := h
    obtain ⟨_, he, h'⟩ := firstOf_close hd ht h₀ res
    rw [he]
    exact ⟨rfl, h'⟩
  | leaf id v next =>
    simp only [text, append_assoc] at h
    obtain ⟨_, he, h'⟩ := firstOf_label hd (.leaf v _) h res
    rw [he]
    exact memberNext_leaf hin.1 hfits.1.2 hbuf (numEnd_text next _ hend') (noDigit_text next _ _) h'
  | sub id k' =>
    simp only [text, append_assoc, cons_append] at h
    obtain ⟨_, he, h'⟩ := firstOf_label hd (.container k' _) h res
    rw [he]
    exact memberNext_inner hin.1 hbuf h'

/-- A later call reaches the next item. -/
lemma nextOf_reached {items : Items k} (hin : items.All IdIn LeafIn)
    (hfits : items.All (fun _ _ => True) (LeafFits len)) (hbuf : res.bufSize = some len)
    (hend : numEnd t) (ht : AfterClose t) (hpos : 0 < d)
    (h : r.At e d (w.1 ++ (itemsBody d items ++ (wt.1 ++ t)))) :
    Reached len e d wt t items (nextOf k r res).2 := by
  have hend' : numEnd (wt.1 ++ t) := by rw [numEnd_ws wt.2, hend]
  cases items with
  | nil =>
    obtain ⟨_, he, h'⟩ := nextOf_close ht hpos h res
    rw [he]
    exact ⟨rfl, h'⟩
  | leaf id v next =>
    simp only [itemsBody, append_assoc, cons_append] at h
    obtain ⟨_, he, h'⟩ := nextOf_label (.leaf v _) h res
    rw [he]
    exact memberNext_leaf hin.1 hfits.1.2 hbuf (numEnd_text next _ hend') (noDigit_text next _ _) h'
  | sub id k' =>
    simp only [itemsBody, append_assoc, cons_append] at h
    obtain ⟨_, he, h'⟩ := nextOf_label (.container k' _) h res
    rw [he]
    exact memberNext_inner hin.1 hbuf h'

end reached

/-! ## The walk over a tree -/

/-- Rounds of the loops over the tree, the deepest nest of them. -/
def itemsRounds : {k : Kind} → Items k → Nat
  | _, .nil => 1
  | _, .leaf _ _ next => itemsRounds next + 1
  | _, .sub _ _ inner next => max (itemsRounds inner) (itemsRounds next) + 1

variable (items : Items k)

lemma itemsRounds_le (d : Nat) (first : Bool) :
    itemsRounds items ≤ (items.text d first).length := by
  induction items generalizing d first with
  | nil => simp [itemsRounds, text]
  | leaf id v next ih =>
    have hnext := ih d false
    simp only [itemsRounds, text, length_append, indent, length_cons]
    omega
  | sub id k' inner next ihi ihn =>
    have hinner := ihi (d + 1) true
    have hnext := ihn d false
    simp only [itemsRounds, text, length_append, length_cons]
    omega

/-- Some buffer is large enough. -/
lemma fits_large : ∃ large, ∀ len, large ≤ len → items.All (fun _ _ => True) (LeafFits len) := by
  induction items with
  | nil => exact ⟨0, fun _ _ => trivial⟩
  | leaf id v next ih =>
    obtain ⟨b, hb⟩ := ih
    obtain ⟨a, ha⟩ : ∃ a, ∀ len, a ≤ len → LeafFits len v := by
      cases v with
      | str s => exact ⟨s.length + 2, fun len hlen => hlen⟩
      | int | bool | null => exact ⟨0, fun _ _ => trivial⟩
    exact ⟨max a b, fun len hlen => ⟨⟨trivial, ha len (Nat.le_trans (Nat.le_max_left a b) hlen)⟩,
      hb len (Nat.le_trans (Nat.le_max_right a b) hlen)⟩⟩
  | sub id k' inner next ihi ihn =>
    obtain ⟨a, ha⟩ := ihi
    obtain ⟨b, hb⟩ := ihn
    exact ⟨max a b, fun len hlen => ⟨trivial, ha len (Nat.le_trans (Nat.le_max_left a b) hlen),
      hb len (Nat.le_trans (Nat.le_max_right a b) hlen)⟩⟩

/-- A misread label spoils the walk. -/
lemma walkLoop_misread {x} (h : Misread id x) (buf : Option Nat) (n : Nat) :
    (walkLoop buf (n + 1) k x).2.err ≠ none ∨
      (∀ type val next, (walkLoop buf (n + 1) k x).1 ≠ .scalar id.seen type val next) ∧
        ∀ k' inner next, (walkLoop buf (n + 1) k x).1 ≠ .sub id.seen k' inner next := by
  rcases h with herr | hvoid | hid
  · rw [walkLoop_err buf _ k herr]
    exact .inl herr
  · rw [walkLoop_void buf _ k hvoid]
    exact .inr ⟨nofun, nofun⟩
  by_cases hvoid : x.2.type = .void
  · rw [walkLoop_void buf _ k hvoid]
    exact .inr ⟨nofun, nofun⟩
  cases hk : x.2.type.kind? with
  | none =>
    rw [walkLoop_scalar buf n k hvoid hk]
    exact .inr ⟨fun _ _ _ heq => hid (Seen.scalar.inj heq).1, nofun⟩
  | some k' =>
    rw [walkLoop_sub buf n k k' hvoid hk rfl]
    exact .inr ⟨nofun, fun _ _ _ heq => hid (Seen.sub.inj heq).1⟩

/-- The loop over the members. The induction is over the tree; where a member is misread, the record
differs. -/
lemma walkLoop_items {e} (n d : Nat) (wt : Ws) (t : List UInt8)
    (x : Reader × Val) (hin : items.All IdIn LeafIn)
    (hfits : items.All (fun _ _ => True) (LeafFits len)) (hpos : 0 < d)
    (hd : d + items.depth ≤ 128) (hn : itemsRounds items ≤ n) (hend : numEnd t) (ht : AfterClose t)
    (h : Reached len e d wt t items x) :
    (items.All IdPlain LeafPlain → (walkLoop (some len) n k x).1 = items.seen ∧
        (walkLoop (some len) n k x).2.At e (d - 1) t) ∧
      (¬ items.All IdPlain LeafPlain → ¬ ((walkLoop (some len) n k x).1 = items.seen ∧
        (walkLoop (some len) n k x).2.err = none)) := by
  induction items generalizing n d wt t x with
  | nil =>
    rw [walkLoop_void _ n _ h.1]
    exact ⟨fun _ => ⟨rfl, h.2⟩, fun hbad => absurd trivial hbad⟩
  | leaf id v next ih =>
    rcases n with _ | n
    · simp only [itemsRounds] at hn; omega
    rcases h with ⟨hid, hv, hold, hpay, hat⟩ | ⟨hbad, hmis⟩
    · rw [text_eq, append_assoc] at hat
      have hnext := nextOf_reached hin.2 hfits.2 hold.buf hend ht hpos hat
      obtain ⟨hgood, hbad⟩ := ih n d wt t _ hin.2 hfits.2 hpos hd (Nat.le_of_succ_le_succ hn) hend
        ht hnext
      have hty : v.type ≠ .void ∧ v.type.kind? = none := by cases v <;> exact ⟨nofun, rfl⟩
      rw [← hold.type] at hty
      rw [walkLoop_scalar _ n _ hty.1 hty.2, hold.id, hold.type, hpay]
      refine ⟨fun hall => ?_, fun hall hsame => ?_⟩
      · obtain ⟨hseen, hat'⟩ := hgood hall.2
        exact ⟨by rw [hseen]; rfl, hat'⟩
      · exact hbad (fun hrest => hall ⟨⟨hid, hv⟩, hrest⟩)
          ⟨(Seen.scalar.inj hsame.1).2.2.2, hsame.2⟩
    · refine ⟨fun hall => absurd hall.1 hbad, fun _ hsame => ?_⟩
      rcases walkLoop_misread hmis (some len) n with herr | ⟨hne, -⟩
      · exact herr hsame.2
      · exact hne _ _ _ hsame.1
  | sub id k' inner next ihi ihn =>
    rcases n with _ | n
    · simp only [itemsRounds] at hn; omega
    rcases h with ⟨hid, hold, hat⟩ | ⟨hbad, hmis⟩
    swap
    · refine ⟨fun hall => absurd hall.1 hbad, fun _ hsame => ?_⟩
      rcases walkLoop_misread hmis (some len) n with herr | ⟨-, hne⟩
      · exact herr hsame.2
      · exact hne _ _ _ hsame.1
    simp only [depth, itemsRounds] at hd hn
    rw [next.text_eq, append_assoc] at hat
    have hend' : numEnd (itemsBody d next ++ (wt.1 ++ t)) :=
      numEnd_items next d (by rw [numEnd_ws wt.2, hend])
    have hfirst := firstOf_reached (w := .empty) { bufSize := some len } hin.2.1
      hfits.2.1 rfl (by omega) hend' (afterClose_items next d _) hat
    obtain ⟨hgoodi, hbadi⟩ := ihi n (d + 1) _ _ _ hin.2.1 hfits.2.1 (Nat.succ_pos d) (by omega)
      (by omega) hend' (afterClose_items next d _) hfirst
    have hty := kindType_kind k'
    rw [← hold.type] at hty
    rcases hrun : walkLoop (some len) n k' (firstOf k' x.1 { bufSize := some len }).2 with
      ⟨out, r₁⟩
    rw [hrun] at hgoodi hbadi
    rw [walkLoop_sub _ n _ k' hty.1 hty.2 hrun, hold.id]
    by_cases hinner : inner.All IdPlain LeafPlain
    · obtain ⟨hseen, hat₁⟩ := hgoodi hinner
      have hnext := nextOf_reached (w := .empty) hin.2.2 hfits.2.2 hold.buf hend ht hpos hat₁
      obtain ⟨hgood, hbad⟩ := ihn n d wt t _ hin.2.2 hfits.2.2 hpos (by omega) (by omega) hend ht
        hnext
      refine ⟨fun hall => ?_, fun hall hsame => ?_⟩
      · obtain ⟨hseen', hat'⟩ := hgood hall.2.2
        exact ⟨by rw [hseen', show out = inner.seen from hseen]; rfl, hat'⟩
      · exact hbad (fun hrest => hall ⟨hid, hinner, hrest⟩)
          ⟨(Seen.sub.inj hsame.1).2.2.2, hsame.2⟩
    · refine ⟨fun hall => absurd hall.2.1 hinner, fun _ hsame => ?_⟩
      -- the record inside is right, so the error is set and the loop ends
      have herr : r₁.err ≠ none := fun hnone =>
        hbadi hinner ⟨(Seen.sub.inj hsame.1).2.2.1, hnone⟩
      rw [nextOf_err _ _ herr, walkLoop_void _ _ _ rfl] at hsame
      exact herr hsame.2

/-! ## The round trip -/

section roundTrip

variable {k : Kind} {items : Items k}

lemma writes_unique {out out'} (h : Writes items out) (h' : Writes items out') : out = out' := by
  obtain ⟨_, w, hrun, -, -, rfl⟩ := h
  obtain ⟨_, _, hrun', -, -, rfl⟩ := h'
  rw [hrun] at hrun'
  cases hrun'
  rfl

/-- **The walk reads back what was written, or fails.** -/
lemma walk_items (strict : Bool) (hin : items.All IdIn LeafIn)
    (hfits : items.All (fun _ _ => True) (LeafFits len)) (hd : items.depth + 1 ≤ 128) :
    ∃ seen r, walk (some len)
        { json := k.opening :: (items.text 1 true ++ [0x0a]), strict := strict }
        = (kindType k, seen, r) ∧
      (items.All IdPlain LeafPlain → seen = items.seen ∧ r.err = none) ∧
      (¬ items.All IdPlain LeafPlain → ¬ (seen = items.seen ∧ r.err = none)) := by
  obtain ⟨r₁, he₁, h₁⟩ := readerStart_at (w := .empty)
    (Reader.At.init (k.opening :: (items.text 1 true ++ [0x0a])) strict)
  have h₁' : r₁.At _ 0 (Ws.empty.1 ++ k.opening ::
    (items.text (0 + 1) true ++ ((indent 0).1 ++ []))) :=
    h₁
  have hrounds : itemsRounds items ≤ r₁.json.length + 1 := by
    have hle := itemsRounds_le items 1 true
    have hlen := h₁.off
    simp only [length_cons, length_append] at hlen
    omega
  have hfirst := firstOf_reached { bufSize := some len } hin hfits rfl (by omega) rfl
    afterClose_nil h₁'
  obtain ⟨hgood, hbad⟩ := walkLoop_items items (r₁.json.length + 1) 1 (indent 0) [] _ hin hfits
    Nat.one_pos (by omega) hrounds rfl afterClose_nil hfirst
  refine ⟨_, _, ?_, fun hall => ⟨(hgood hall).1, (hgood hall).2.err⟩, hbad⟩
  simp [walk, he₁, (kindType_kind k).2]

/-- Plain items make the round trip. -/
lemma roundTrips_of_plain (strict : Bool) (hin : items.All IdIn LeafIn)
    (hd : items.depth + 1 ≤ 128) (hplain : items.All IdPlain LeafPlain) :
    RoundTrips strict items := by
  obtain ⟨large, hlarge⟩ := fits_large items
  refine ⟨_, writes_text items hin hd, large, fun len hlen => ?_⟩
  obtain ⟨_, r, hwalk, hgood, -⟩ := walk_items strict hin (hlarge len hlen) hd
  obtain ⟨rfl, herr⟩ := hgood hplain
  exact ⟨r, hwalk, herr⟩

/-- Only plain items make the round trip. -/
lemma plain_of_roundTrips {strict} (hin : items.All IdIn LeafIn) (hd : items.depth + 1 ≤ 128)
    (h : RoundTrips strict items) : items.All IdPlain LeafPlain := by
  obtain ⟨_, hwrites, large, hread⟩ := h
  obtain rfl := writes_unique hwrites (writes_text items hin hd)
  obtain ⟨large', hlarge⟩ := fits_large items
  obtain ⟨r, hwalk, herr⟩ := hread _ (Nat.le_max_left large large')
  obtain ⟨_, _, hwalk', -, hbad⟩ := walk_items strict hin
    (hlarge _ (Nat.le_max_right large large')) hd
  rw [hwalk] at hwalk'
  cases hwalk'
  by_contra hplain
  exact hbad hplain ⟨rfl, herr⟩

end roundTrip

/-- **A tree comes back as it was written**, exactly if no id has a byte that the writer escapes and
no string a control character that it does not escape. -/
theorem roundTrips_iff (strict : Bool) {k : Kind} (items : Items k) (hin : items.All IdIn LeafIn)
    (hd : items.depth + 1 ≤ 128) :
    RoundTrips strict items ↔ items.All IdPlain LeafPlain :=
  ⟨plain_of_roundTrips hin hd, roundTrips_of_plain strict hin hd⟩

def oneMember (id str : List UInt8) : Items .obj :=
  .sub (.name id) .arr (.leaf .elem (.str str) .nil) .nil

lemma oneMember_in (id str : List UInt8) (hid : IsText id) (hlen : id.length ≤ 40)
    (hstr : IsText str) : (oneMember id str).All IdIn LeafIn :=
  ⟨⟨hid, hlen⟩, ⟨⟨⟨⟨isUtf8_nil, nofun⟩, Nat.zero_le 40⟩, hstr⟩, trivial⟩, trivial⟩

lemma isText_ascii (h : isAscii s) (h0 : s.all (· != 0)) : IsText s :=
  ⟨isUtf8_ascii h, ne_zero_of_all h0⟩

/-- The id `a` and a string with a quote and a newline. -/
theorem roundTrips_oneMember : (oneMember [0x61] [0x22, 0x0a]).All IdIn LeafIn ∧
      (oneMember [0x61] [0x22, 0x0a]).depth + 1 ≤ 128 ∧
      RoundTrips true (oneMember [0x61] [0x22, 0x0a]) := by
  have hin := oneMember_in [0x61] [0x22, 0x0a] (isText_ascii rfl rfl) (by decide)
    (isText_ascii rfl rfl)
  have hd : (oneMember [0x61] [0x22, 0x0a]).depth + 1 ≤ 128 := by decide
  refine ⟨hin, hd, (roundTrips_iff true _ hin hd).2 ?_⟩
  exact ⟨forall_mem_singleton.2 rfl, ⟨⟨nofun, forall_mem_cons.2 ⟨fun _ => rfl,
    forall_mem_singleton.2 fun _ => rfl⟩⟩, trivial⟩, trivial⟩

/-- The id `a/b` comes back as `a\/b`. -/
theorem roundTrips_slash : ¬ RoundTrips true (oneMember [0x61, 0x2f, 0x62] []) := by
  intro h
  have hin := oneMember_in [0x61, 0x2f, 0x62] [] (isText_ascii rfl rfl) (by decide)
    (isText_ascii rfl rfl)
  have hplain := plain_of_roundTrips hin (by decide) h
  exact absurd (hplain.1 0x2f (mem_cons_of_mem _ mem_cons_self)) (by decide)

end LtpDdt.Ujson
