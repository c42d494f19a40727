/-
Ujson.WriterTheorems — what a sequence of calls of the writer leaves behind.

`Open stack out`: `out` is the begin of a JSON value in which the containers of
`stack` are open; `Inv` adds the bit arrays. A call that meets its condition keeps
`Inv` or sets the error (`call_inv`), and then every call fails (`call_stuck`).
-/
import LtpDdt.DataStorage.JsonTheorems
import LtpDdt.Json.Encoding
import LtpDdt.Ujson.Calls
import LtpDdt.Ujson.UtfTheorems

namespace LtpDdt.Ujson

open Json List Writer WriterCall Function

variable {s : List UInt8} {stack : List (Kind × Bool)} {self : Writer} {k : Kind} {first : Bool}
  {calls : List WriterCall}

/-! ## Texts -/

lemma escByte_elem {b} (h : b < 0x20 → (escText b).isSome) : ∃ x : StrElem,
    x.text = escByte b ∧ x.decode = [b] ∧ x.half = none ∧ isZero x = false := by
  cases hesc : escText b with
  | none =>
    have hplain : isPlain b := by
      rw [isPlain_iff]
      refine ⟨fun hlt => ?_, ?_, ?_⟩
      · have := h hlt
        rw [hesc] at this
        cases this
      · rintro rfl
        cases hesc
      · rintro rfl
        cases hesc
    exact ⟨.plain b hplain, by rw [escByte, hesc]; rfl, rfl, rfl, rfl⟩
  | some =>
    have hbyte : ∀ c : Escape, b = c.byte → ∃ x : StrElem,
        x.text = escByte b ∧ x.decode = [b] ∧ x.half = none ∧ isZero x = false := by
      rintro c rfl
      exact ⟨.esc c, by cases c <;> rfl, rfl, rfl, rfl⟩
    unfold escText at hesc
    split_ifs at hesc with h₁ h₂ h₃ h₄ h₅ h₆ h₇ h₈
    · exact hbyte .quote h₁
    · exact hbyte .backslash h₂
    · exact hbyte .slash h₃
    · exact hbyte .b h₄
    · exact hbyte .f h₅
    · exact hbyte .n h₆
    · exact hbyte .r h₇
    · exact hbyte .t h₈

lemma escape_elems (h : ∀ b ∈ s, b < 0x20 → (escText b).isSome) :
    ∃ es, strText es = escape s ∧ strDecode es = s ∧
      ∀ x ∈ es, x.half = none ∧ isZero x = false := by
  induction s with
  | nil => exact ⟨[], rfl, rfl, forall_mem_nil _⟩
  | cons b s ih =>
    obtain ⟨hb, hs⟩ := forall_mem_cons.1 h
    obtain ⟨x, htext, hdec, hx⟩ := escByte_elem hb
    obtain ⟨es, htexts, hdecs, hes⟩ := ih hs
    refine ⟨x :: es, ?_, ?_, forall_mem_cons.2 ⟨hx, hes⟩⟩
    · rw [strText, flatMap_cons, htext, ← strText, htexts, escape, escape, flatMap_cons]
    · rw [strDecode, flatMap_cons, hdec, ← strDecode, hdecs]
      rfl

lemma chunk_char {c} (hc : ∀ b ∈ String.utf8EncodeChar c, b ≠ 0) :
    Chunk (String.utf8EncodeChar c) := by
  have hn : ∀ v, ujsonUtf8IsNByte (UInt8.ofNat (v % 64 + 128)) := fun v => by
    rw [Nat.add_comm]
    exact nByte_ofNat v
  simp only [String.utf8EncodeChar] at hc ⊢
  split_ifs at hc ⊢ with h1 h2 h3
  · refine .one (hc _ mem_cons_self) ?_
    rw [isAscii_byte_iff, toNat_ofNat_lt (by omega)]
    omega
  · refine .two ?_ (hn _)
    rw [is2Byte_iff, toNat_ofNat_lt (by omega)]
    omega
  · refine .three ?_ (hn _) (hn _)
    rw [is3Byte_iff, toNat_ofNat_lt (by omega)]
    omega
  refine .four ?_ (hn _) (hn _) (hn _)
  rw [is4Byte_iff, toNat_ofNat_lt (by omega)]
  omega

lemma chunks_utf8 (h : IsUtf8 s) (h0 : ∀ b ∈ s, b ≠ 0) : Chunks s := by
  obtain ⟨cs, rfl⟩ := h
  induction cs with
  | nil => exact .nil
  | cons c cs ih =>
    obtain ⟨hc, hcs⟩ := forall_mem_append.1 h0
    exact .cons (chunk_char hc) (ih hcs)

lemma isUtf8_escape (h : IsUtf8 s) : IsUtf8 (escape s) := by
  obtain ⟨cs, rfl⟩ := h
  induction cs with
  | nil => exact isUtf8_nil
  | cons c cs ih =>
    rw [flatMap_cons, escape_append]
    refine IsUtf8.append ?_ ih
    rcases utf8EncodeChar_cases c with ⟨b, hb, hle⟩ | hhigh
    · rw [hb, escape, flatMap_singleton, escByte]
      cases hesc : escText b with
      | none => exact isUtf8_ascii (isAscii_iff.2 (forall_mem_singleton.2 hle))
      | some =>
        unfold escText at hesc
        split_ifs at hesc
        all_goals
          obtain rfl := Option.some.inj hesc
          exact isUtf8_ascii rfl
    · rw [escape_high hhigh]
      exact ⟨[c], by rw [flatMap_singleton]⟩

lemma TextOk.ne_zero (h : TextOk s) : ∀ b ∈ s, b ≠ 0 := by
  rintro b hb rfl
  exact absurd (h.2 0 hb (by decide)) (by decide)

/-- A good text is written as a string of the grammar. -/
lemma outEscStr_text (h : TextOk s) : ∃ es,
    outEscStr s = some (Scalar.str es).text ∧ IsUtf8 (strText es) := by
  obtain ⟨es, htext, -, -⟩ := escape_elems h.2
  refine ⟨es, ?_, ?_⟩
  · rw [outEscStr_chunks (chunks_utf8 h.1 h.ne_zero), Scalar.text, htext]
  · rw [htext]
    exact isUtf8_escape h.1

/-! ## The begin of a value -/

/-- `out` is the begin of a value in which the containers are open, the innermost first; the flag
tells that there is no member yet. -/
def Open : List (Kind × Bool) → List UInt8 → Prop
  | [], out => ∃ v : Value, IsUtf8 v.text ∧ out = v.text
  | (k, first) :: stack, out =>
    ∀ s : Seq k, IsUtf8 (s.text first) → Open stack (out ++ s.text first)

section opened

variable {stack : List (Kind × Bool)} {k : Kind} {first : Bool} {out : List UInt8} {sep lead : Ws}
  {key : Key k}

lemma open_start (k : Kind) : Open [(k, true)] [k.opening] := by
  intro s hs
  refine ⟨.sub k s, ?_, rfl⟩
  exact isUtf8_byte (opening_le k) hs

variable (sep lead) in
lemma open_scalar (hkey : IsUtf8 key.text) {v : Scalar} (hv : IsUtf8 v.text)
    (h : Open ((k, first) :: stack) out) :
    Open ((k, false) :: stack) (out ++ (sepText first sep ++
      (lead.1 ++ (key.text ++ v.text)))) := by
  intro s hs
  have hnext := h (.scalar sep lead key v s) (by
    exact (isUtf8_sep first sep).append ((isUtf8_ws lead).append (hkey.append (hv.append hs))))
  simpa only [Seq.text, append_assoc] using hnext

variable (sep lead) in
lemma open_sub (hkey : IsUtf8 key.text) (k' : Kind) (h : Open ((k, first) :: stack) out) :
    Open ((k', true) :: (k, false) :: stack)
      (out ++ (sepText first sep ++ (lead.1 ++ (key.text ++ [k'.opening])))) := by
  intro inner hinner s hs
  have hnext := h (.sub sep lead key k' inner s) (by
    exact (isUtf8_sep first sep).append ((isUtf8_ws lead).append (hkey.append
      (isUtf8_byte (opening_le k') (hinner.append hs)))))
  simpa only [Seq.text, append_assoc, cons_append, nil_append] using hnext

lemma open_close (ws : Ws) (h : Open ((k, first) :: stack) out) :
    Open stack (out ++ (ws.1 ++ [k.closing])) := by
  exact h (.nil ws) ((isUtf8_ws ws).append (isUtf8_closing k))

end opened

/-! ## The stack -/

def Bits (type first : Nat → Bool) : List (Kind × Bool) → Prop
  | [] => True
  | (k, f) :: stack =>
    type stack.length = (k == .obj) ∧ first stack.length = f ∧ Bits type first stack

lemma Bits.update {type first : Nat → Bool} (h : Bits type first stack) {i}
    (hi : stack.length ≤ i) (v v' : Bool) :
    Bits (update type i v) (update first i v') stack := by
  induction stack with
  | nil => trivial
  | cons top stack ih =>
    obtain ⟨htype, hfirst, hrest⟩ := h
    rw [length_cons] at hi
    have hne : stack.length ≠ i := by omega
    exact ⟨by rw [update_of_ne hne]; exact htype,
      by rw [update_of_ne hne]; exact hfirst, ih hrest (by omega)⟩

/-- The state of a writer without an error. -/
structure Inv (w : Writer) (stack : List (Kind × Bool)) : Prop where
  err : w.err = none
  depth : w.depth = stack.length
  max : stack.length ≤ ujsonRecursionMax
  bits : Bits w.depthType w.depthFirst stack
  out : (stack = [] ∧ w.out = []) ∨ Open stack w.out

structure Stacked (w : Writer) (stack : List (Kind × Bool)) : Prop where
  err : w.err = none
  depth : w.depth = stack.length
  max : stack.length ≤ ujsonRecursionMax
  bits : Bits w.depthType w.depthFirst stack

lemma Inv.stacked {w} (h : Inv w stack) : Stacked w stack := ⟨h.err, h.depth, h.max, h.bits⟩

section top

variable {self : Writer} {k : Kind} {first : Bool} {stack : List (Kind × Bool)}

section

variable (h : Stacked self ((k, first) :: stack))

include h

lemma Stacked.depthBefore : self.depthBefore = stack.length := by
  have hmax := h.max
  rw [length_cons, ujsonRecursionMax] at hmax
  rw [Writer.depthBefore, h.depth, length_cons]
  omega

lemma Stacked.getDepthBit (mask : Nat → Bool) :
    self.getDepthBit mask = if mask stack.length then 1 else 0 := by
  have hmax := h.max
  rw [length_cons, ujsonRecursionMax] at hmax
  rw [Writer.getDepthBit, h.depthBefore, if_neg (by omega)]

lemma Stacked.inArr : self.inArr = (k == .arr) := by
  rw [Writer.inArr, h.getDepthBit, h.bits.1]
  cases k <;> rfl

lemma Stacked.inObj : self.inObj = (k == .obj) := by
  rw [Writer.inObj, h.getDepthBit, h.bits.1]
  cases k <;> rfl

lemma Stacked.isFirst : self.isFirst = (if first then 1 else 0,
      { self with depthFirst := update self.depthFirst stack.length false }) := by
  rw [Writer.isFirst, h.getDepthBit, h.bits.2.1]
  cases first with
  | true => simp [Writer.clearDepthFirst, h.depthBefore]
  | false =>
    have hsame : update self.depthFirst stack.length false = self.depthFirst := by
      rw [← h.bits.2.1, update_eq_self]
    rw [hsame]
    rfl

lemma Stacked.cleared : Bits self.depthType
    (update self.depthFirst stack.length false) ((k, false) :: stack) := by
  have hrest := h.bits.2.2.update (Nat.le_refl _) (self.depthType stack.length) false
  rw [update_eq_self] at hrest
  exact ⟨h.bits.1, update_self _ _ _, hrest⟩

end

end top

/-- The state of a writer with an error. -/
structure Stuck (w : Writer) : Prop where
  err : w.err.isSome = true
  depth : w.depth ≤ ujsonRecursionMax

lemma stuck_fail (h : self.depth ≤ ujsonRecursionMax) (e : WriterErr) :
    Stuck (self.fail e) := ⟨rfl, h⟩

/-! ## Members -/

def indent (depth : Nat) : Ws :=
  ⟨0x0a :: List.replicate depth 0x20, by
    refine forall_mem_cons.2 ⟨rfl, fun b hb => ?_⟩
    rw [eq_of_mem_replicate hb]
    rfl⟩

lemma newline_eq (self : Writer) : self.newline = self.put (indent self.depth).1 := by
  simp [newline, doPadd, put, indent]

/-- After `add_common` has printed `text`, in the container with the bits number `i`. -/
def withText (self : Writer) (first : Bool) (i : Nat) (text : List UInt8) : Writer :=
  { self with
    depthFirst := Function.update self.depthFirst i false
    out := self.out ++ (sepText first .empty ++ ((indent self.depth).1 ++ text)) }

lemma Stacked.withText (h : Stacked self ((k, first) :: stack)) (text : List UInt8) :
    Stacked (withText self first stack.length text) ((k, false) :: stack) :=
  ⟨h.err, h.depth, h.max, h.cleared⟩

def withKey (self : Writer) (first : Bool) (i : Nat) {k : Kind} (key : Key k) : Writer :=
  { self with
    depthFirst := Function.update self.depthFirst i false
    out := self.out ++ (sepText first .empty ++ ((indent self.depth).1 ++ key.text)) }

/-- What is printed for an id in a container of kind `k`. -/
def IdText : Kind → Option (List UInt8) → List UInt8 → Prop
  | .arr, id, text => id = none ∧ text = []
  | .obj, id, text => ∃ s str, id = some s ∧ outEscStr s = some str ∧ text = str ++ [0x3a, 0x20]

variable {id : Option (List UInt8)} {call : WriterCall} {rets : List Bool}

/-- A comma, an indent and a key. -/
lemma addCommon_text (h : Stacked self ((k, first) :: stack)) {text} (hid : IdText k id text) :
    self.addCommon id = some (false, withText self first stack.length text) := by
  have hdepth : self.depth ≠ 0 := by rw [h.depth]; exact Nat.succ_ne_zero _
  -- the separator and the newline
  have hlead : ∀ w : Writer,
      (if (if first then (1 : Int) else 0) = 0 then w.put [0x2c] else w).newline
      = w.put (sepText first .empty ++ (indent w.depth).1) := by
    intro w
    cases first <;> simp [newline_eq, put, sepText, Ws.empty]
  unfold addCommon
  simp only [if_neg hdepth, h.inArr, h.isFirst, hlead]
  cases k with
  | arr =>
    obtain ⟨rfl, rfl⟩ := hid
    simp [withText, put, h.err]
  | obj =>
    obtain ⟨s, _, rfl, hout, rfl⟩ := hid
    simp [hout, withText, put, h.err]

lemma addCommon_member (h : Stacked self ((k, first) :: stack)) (hid : IdOk id) :
    (∃ self', self.addCommon id = some (true, self') ∧ Stuck self') ∨
      ∃ key : Key k, IsUtf8 key.text ∧
        self.addCommon id = some (false, withKey self first stack.length key) := by
  have hdepth : self.depth ≠ 0 := by rw [h.depth]; exact Nat.succ_ne_zero _
  have hmax : self.depth ≤ ujsonRecursionMax := by rw [h.depth]; exact h.max
  -- an id where there must be none, or none where there must be one
  have hfail : (k = .arr) ≠ (id = none) →
      ∃ self', self.addCommon id = some (true, self') ∧ Stuck self' := by
    intro hne
    unfold addCommon
    simp only [h.err, if_neg hdepth, h.inArr]
    cases k with
    | arr =>
      cases id with
      | none => exact absurd (by simp) hne
      | some => exact ⟨_, rfl, stuck_fail hmax _⟩
    | obj =>
      cases id with
      | none => exact ⟨_, rfl, stuck_fail hmax _⟩
      | some => exact absurd (by simp) hne
  cases k with
  | arr =>
    cases id with
    | some => exact .inl (hfail (by simp))
    | none => exact .inr ⟨.elem, isUtf8_nil, addCommon_text h ⟨rfl, rfl⟩⟩
  | obj =>
    cases id with
    | none => exact .inl (hfail (by simp))
    | some s =>
      obtain ⟨es, hout, hutf⟩ := outEscStr_text (hid s rfl)
      refine .inr ⟨.name es .empty ⟨[0x20], forall_mem_singleton.2 rfl⟩,
        isUtf8_name hutf _ _, addCommon_text h ⟨s, _, rfl, hout, ?_⟩⟩
      simp [Key.text, Scalar.text, Ws.empty]

/-! ## Calls -/

section calls

variable {self : Writer} {k : Kind} {first : Bool} {stack : List (Kind × Bool)}
  {id : Option (List UInt8)}

def StepsTo (out : Option (Bool × Writer)) : Prop :=
  (∃ self', out = some (true, self') ∧ Stuck self') ∨
    ∃ self' stack, out = some (false, self') ∧ Inv self' stack

lemma Inv.depth_le (h : Inv self stack) : self.depth ≤ ujsonRecursionMax := by
  rw [h.depth]
  exact h.max

/-- **A scalar keeps the output well formed.** -/
lemma addText_inv (h : Inv self stack) (hid : IdOk id) (v : Scalar) (hv : IsUtf8 v.text) :
    StepsTo (addText self id (some v.text)) := by
  unfold addText
  cases stack with
  | nil =>
    have h0 : self.depth = 0 := h.depth
    refine .inl ⟨self.fail .notStarted, ?_, stuck_fail h.depth_le _⟩
    simp [addCommon, h.err, h0]
  | cons top stack =>
    obtain ⟨k, first⟩ := top
    rcases addCommon_member h.stacked hid with ⟨self', hadd, hfail⟩ | ⟨key, hkey, hadd⟩
    · exact .inl ⟨self', by simp [hadd], hfail⟩
    have hopen := h.out.resolve_left fun hout => nomatch hout.1
    have hnext := open_scalar .empty (indent self.depth) hkey hv hopen
    refine .inr ⟨(withKey self first stack.length key).put v.text, (k, false) :: stack,
      by simp [hadd], h.err, h.depth, h.max, h.stacked.cleared, .inr ?_⟩
    simpa [withKey, put] using hnext

section

variable (h : Stacked self stack)

include h

lemma setDepthBit_stacked (hlt : self.depth < ujsonRecursionMax)
    (k : Kind) : Stacked (self.setDepthBit (k == .obj)) ((k, true) :: stack) := by
  have hdepth := h.depth
  have hmod : (self.depth + 1) % 2 ^ 32 = stack.length + 1 := by
    unfold ujsonRecursionMax at hlt
    omega
  refine ⟨h.err, hmod, ?_, ?_, ?_, h.bits.update (Nat.le_of_eq hdepth.symm) (k == .obj) true⟩
  · rw [length_cons, ← hdepth]
    exact hlt
  · rw [← hdepth]
    exact update_self _ _ _
  · rw [← hdepth]
    exact update_self _ _ _

lemma Stacked.put (bytes : List UInt8) : Stacked (self.put bytes) stack :=
  ⟨h.err, h.depth, h.max, h.bits⟩

lemma setDepthBit_inv (hlt : self.depth < ujsonRecursionMax) (k : Kind)
    (hopen : Open ((k, true) :: stack) (self.out ++ [k.opening])) :
    Inv ((self.put [k.opening]).setDepthBit (k == .obj)) ((k, true) :: stack) := by
  have hnext := setDepthBit_stacked (h.put [k.opening]) hlt k
  exact ⟨hnext.err, hnext.depth, hnext.max, hnext.bits, .inr hopen⟩

end

/-- Opening keeps the output well formed. -/
lemma start_inv (h : Inv self stack) (hok : StartOk self id)
    (hlt : self.depth < ujsonRecursionMax) (hid : ¬ (self.depth = 0 ∧ id.isSome)) (k : Kind) :
    StepsTo (do
      let (ret, self) ← if self.depth = 0 then some (false, self) else self.addCommon id
      if ret then some (true, self)
      else some (false, (self.put [k.opening]).setDepthBit (k == .obj))) := by
  cases stack with
  | nil =>
    have h0 : self.depth = 0 := h.depth
    have hnone : id = none := by
      cases id with
      | none => rfl
      | some => exact absurd ⟨h0, rfl⟩ hid
    have hout := (hok.2 ⟨h0, hnone⟩).2
    refine .inr ⟨_, [(k, true)], by rw [if_pos h0]; rfl, setDepthBit_inv h.stacked hlt k ?_⟩
    rw [hout]
    exact open_start k
  | cons top stack =>
    obtain ⟨k', first⟩ := top
    have hne : self.depth ≠ 0 := by rw [h.depth]; exact Nat.succ_ne_zero _
    rw [if_neg hne]
    rcases addCommon_member h.stacked hok.1 with ⟨self', hadd, hfail⟩ | ⟨key, hkey, hadd⟩
    · exact .inl ⟨self', by simp [hadd], hfail⟩
    have hopen := h.out.resolve_left fun hout => nomatch hout.1
    have hnext := open_sub .empty (indent self.depth) hkey k hopen
    have hkeyed : Stacked (withKey self first stack.length key) ((k', false) :: stack) :=
      h.stacked.withText _
    have hset := setDepthBit_inv hkeyed hlt k (by simpa [withKey] using hnext)
    exact .inr ⟨_, (k, true) :: (k', false) :: stack, by simp [hadd], hset⟩

lemma finishWith_eq (h : Stacked self ((k, first) :: stack)) (ch : UInt8) :
    finishWith self ch = { self with
      depthFirst := update self.depthFirst stack.length false
      depth := stack.length
      out := self.out ++ ((if first then [] else (indent stack.length).1) ++ [ch]) } := by
  -- the writer behind the two bit functions
  have hclear : ∀ f, ({ self with depthFirst := f } : Writer).clearDepthBit =
      { self with depthFirst := f, depth := stack.length } := by
    intro f
    rw [← h.depthBefore]
    rfl
  simp only [finishWith, h.isFirst, hclear]
  cases first <;> simp [newline_eq, put]

/-- Closing keeps the output well formed. -/
lemma finishWith_inv (h : Inv self ((k, first) :: stack)) :
    Inv (finishWith self k.closing) stack := by
  have hopen := h.out.resolve_left fun hout => nomatch hout.1
  have hmax := h.max
  rw [length_cons] at hmax
  rw [finishWith_eq h.stacked]
  refine ⟨h.err, rfl, by omega, h.stacked.cleared.2.2, .inr ?_⟩
  cases first with
  | true => exact open_close .empty hopen
  | false => exact open_close (indent stack.length) hopen

/-- **A call that meets its condition keeps the state in order**, or sets the
error. -/
theorem call_inv (h : Inv self stack) (hok : CallOk self call) : StepsTo (call.run self) := by
  cases call with
  | objStart id =>
    obtain ⟨hstart, hlt⟩ := hok
    simp only [run, ujsonObjStart, if_neg (Nat.not_le.2 hlt)]
    by_cases hid : self.depth = 0 ∧ id.isSome
    · exact .inl ⟨self.fail .topObjectId, by simp [hid], stuck_fail h.depth_le _⟩
    · rw [if_neg (by simpa using hid)]
      exact start_inv h hstart hlt hid .obj
  | arrStart id =>
    simp only [run, ujsonArrStart]
    by_cases hlt : self.depth < ujsonRecursionMax
    · rw [if_neg (Nat.not_le.2 hlt)]
      by_cases hid : self.depth = 0 ∧ id.isSome
      · exact .inl ⟨self.fail .topArrayId, by simp [hid], stuck_fail h.depth_le _⟩
      · rw [if_neg (by simpa using hid)]
        exact start_inv h hok hlt hid .arr
    · rw [if_pos (Nat.not_lt.1 hlt)]
      exact .inl ⟨_, rfl, stuck_fail h.depth_le _⟩
  | objFinish =>
    cases stack with
    | nil => exact absurd h.depth hok
    | cons top stack =>
      obtain ⟨k, _⟩ := top
      simp only [run, ujsonObjFinish, h.err, h.stacked.inObj]
      cases k with
      | arr => exact .inl ⟨_, rfl, stuck_fail h.depth_le _⟩
      | obj =>
        have hfin := finishWith_inv h
        exact .inr ⟨_, stack, rfl, hfin⟩
  | arrFinish =>
    simp only [run, ujsonArrFinish, h.err]
    cases stack with
    | nil =>
      have hno : self.inArr = false := by
        have h0 : self.depth = 0 := h.depth
        simp [inArr, getDepthBit, depthBefore, h0]
      rw [hno]
      exact .inl ⟨_, rfl, stuck_fail h.depth_le _⟩
    | cons top stack =>
      obtain ⟨k, _⟩ := top
      rw [h.stacked.inArr]
      cases k with
      | arr =>
        have hfin := finishWith_inv h
        exact .inr ⟨_, stack, rfl, hfin⟩
      | obj => exact .inl ⟨_, rfl, stuck_fail h.depth_le _⟩
  | nullAdd => exact addText_inv h hok .null (isUtf8_ascii rfl)
  | intAdd id val =>
    have hadd := addText_inv h hok (.num (DataStorage.intNumber val)) (isUtf8_number _)
    rwa [Scalar.text, DataStorage.intNumber_text] at hadd
  | boolAdd id val =>
    cases val with
    | true => exact addText_inv h hok (.bool true) (isUtf8_ascii rfl)
    | false => exact addText_inv h hok (.bool false) (isUtf8_ascii rfl)
  | strAdd =>
    obtain ⟨es, hout, hutf⟩ := outEscStr_text hok.2
    rw [run, ujsonStrAdd, hout]
    exact addText_inv h hok.1 (.str es) (isUtf8_str hutf)
  | floatAdd =>
    obtain ⟨hid, n, rfl⟩ := hok
    exact addText_inv h hid (.num n) (isUtf8_number n)

/-- After an error every call fails. -/
lemma call_stuck (h : Stuck self) (hok : CallOk self call) :
    ∃ self', call.run self = some (true, self') ∧ Stuck self' := by
  have hadd : ∀ id, self.addCommon id = some (true, self) := fun id => by
    rw [addCommon, if_pos h.err]
  have htext : ∀ id text, addText self id text = some (true, self) := fun id text => by
    simp [addText, hadd]
  -- a start at depth 0 meets its condition only with an id
  have hstart : ∀ {id}, StartOk self id → self.depth = 0 → id.isSome := by
    intro id hid h0
    cases id with
    | some => rfl
    | none =>
      have hnone := (hid.2 ⟨h0, rfl⟩).1
      have herr := h.err
      rw [hnone] at herr
      cases herr
  cases call with
  | objStart =>
    obtain ⟨hid, hlt⟩ := hok
    simp only [run, ujsonObjStart, if_neg (Nat.not_le.2 hlt)]
    by_cases h0 : self.depth = 0
    · exact ⟨self.fail .topObjectId, by simp [h0, hstart hid h0], stuck_fail h.depth _⟩
    · exact ⟨self, by simp [h0, hadd], h⟩
  | arrStart =>
    simp only [run, ujsonArrStart]
    by_cases hlt : self.depth < ujsonRecursionMax
    · rw [if_neg (Nat.not_le.2 hlt)]
      by_cases h0 : self.depth = 0
      · exact ⟨self.fail .topArrayId, by simp [h0, hstart hok h0], stuck_fail h.depth _⟩
      · exact ⟨self, by simp [h0, hadd], h⟩
    · rw [if_pos (Nat.not_lt.1 hlt)]
      exact ⟨_, rfl, stuck_fail h.depth _⟩
  | objFinish => exact ⟨self, by rw [run, ujsonObjFinish, if_pos h.err], h⟩
  | arrFinish => exact ⟨self, by rw [run, ujsonArrFinish, if_pos h.err], h⟩
  | nullAdd | intAdd | boolAdd | strAdd
  | floatAdd => exact ⟨self, htext _ _, h⟩

/-! ## Sequences of calls -/

lemma sticky_all (h : ∀ ret ∈ rets, ret) : Sticky rets := by
  induction rets with
  | nil => exact Pairwise.nil
  | cons ret rets ih =>
    have hrest := (forall_mem_cons.1 h).2
    exact Pairwise.cons (fun ret hret _ => hrest ret hret) (ih hrest)

lemma runCalls_stuck (h : Stuck self) (hok : CallsOk self calls) :
    ∃ rets self', runCalls self calls = some (rets, self') ∧ (∀ ret ∈ rets, ret) ∧ Stuck self' := by
  induction calls generalizing self with
  | nil => exact ⟨[], self, rfl, forall_mem_nil _, h⟩
  | cons call calls ih =>
    obtain ⟨_, hrun, h₁⟩ := call_stuck h hok.1
    obtain ⟨rets, self', hruns, hall, h'⟩ := ih h₁ (hok.2 _ _ hrun)
    exact ⟨true :: rets, self', by simp [runCalls, hrun, hruns], forall_mem_cons.2 ⟨rfl, hall⟩, h'⟩

/-- **Any calls keep the output well formed**, or get stuck. -/
lemma runCalls_inv (h : Inv self stack) (hok : CallsOk self calls) :
    ∃ rets self', runCalls self calls = some (rets, self') ∧ Sticky rets ∧
      ((true ∈ rets ∧ Stuck self') ∨
        (true ∉ rets ∧ FinishOk self' ∧ ∃ stack', Inv self' stack')) := by
  induction calls generalizing self stack with
  | nil => exact ⟨[], self, rfl, Pairwise.nil, .inr ⟨not_mem_nil, hok, stack, h⟩⟩
  | cons call calls ih =>
    rcases call_inv h hok.1 with ⟨_, hrun, h₁⟩ | ⟨_, _, hrun, h₁⟩
    · obtain ⟨rets, self', hruns, hall, h'⟩ := runCalls_stuck h₁ (hok.2 _ _ hrun)
      refine ⟨true :: rets, self', by simp [runCalls, hrun, hruns], ?_, .inl ⟨mem_cons_self, h'⟩⟩
      exact Pairwise.cons (fun ret hret _ => hall ret hret) (sticky_all hall)
    obtain ⟨rets, self', hruns, hsticky, hend⟩ := ih h₁ (hok.2 _ _ hrun)
    refine ⟨false :: rets, self', by simp [runCalls, hrun, hruns],
      Pairwise.cons (fun _ _ => by simp) hsticky, ?_⟩
    simpa using hend

lemma runCalls_depth (h : (∃ stack, Inv self stack) ∨ Stuck self) (hok : CallsOk self calls)
    (n : Nat) {self' : Writer} (hrun : runCalls self (calls.take n) = some (rets, self')) :
    self'.depth ≤ ujsonRecursionMax := by
  induction calls generalizing self n rets with
  | nil =>
    obtain ⟨-, rfl⟩ : [] = rets ∧ self = self' := by simpa [runCalls] using hrun
    rcases h with ⟨stack, h⟩ | h
    · exact h.depth_le
    · exact h.depth
  | cons call calls ih =>
    cases n with
    | zero =>
      obtain ⟨-, rfl⟩ : [] = rets ∧ self = self' := by simpa [runCalls] using hrun
      rcases h with ⟨stack, h⟩ | h
      · exact h.depth_le
      · exact h.depth
    | succ n =>
      obtain ⟨ret₁, self₁, hrun₁, h₁⟩ : ∃ ret₁ self₁, call.run self = some (ret₁, self₁) ∧
          ((∃ stack, Inv self₁ stack) ∨ Stuck self₁) := by
        rcases h with ⟨_, h⟩ | h
        · rcases call_inv h hok.1 with ⟨self₁, hrun₁, h₁⟩ | ⟨self₁, stack₁, hrun₁, h₁⟩
          · exact ⟨true, self₁, hrun₁, .inr h₁⟩
          · exact ⟨false, self₁, hrun₁, .inl ⟨stack₁, h₁⟩⟩
        · obtain ⟨self₁, hrun₁, h₁⟩ := call_stuck h hok.1
          exact ⟨true, self₁, hrun₁, .inr h₁⟩
      simp only [take_succ_cons, runCalls, hrun₁, Option.bind_eq_bind,
        Option.bind_some, Option.bind_eq_some_iff] at hrun
      obtain ⟨⟨rets₂, self₂⟩, hruns, heq⟩ := hrun
      obtain ⟨-, rfl⟩ : ret₁ :: rets₂ = rets ∧ self₂ = self' := by simpa using heq
      exact ih h₁ (hok.2 _ _ hrun₁) n hruns

end calls

lemma inv_init : Inv {} [] := ⟨rfl, rfl, Nat.zero_le _, trivial, .inl ⟨rfl, rfl⟩⟩

/-- **A sequence of calls does what it should, if every call meets its
condition.** -/
theorem writer_holds (calls : List WriterCall) (hok : CallsOk {} calls) :
    ∃ rets w, WriterHolds calls rets w := by
  obtain ⟨rets, w, hrun, hsticky, hend⟩ := runCalls_inv inv_init hok
  refine ⟨rets, w, hrun, hsticky, fun hfail => ?_, fun hfin => ?_, fun n rets' w' hrun' =>
    runCalls_depth (.inl ⟨[], inv_init⟩) hok n hrun'⟩
  · rcases hend with ⟨-, hw⟩ | ⟨hnot, -⟩
    · rw [ujsonWriterFinish, if_pos hw.err]
    · exact absurd hfail hnot
  rcases hend with ⟨-, hw⟩ | ⟨-, hout, stack, hw⟩
  · rw [ujsonWriterFinish, if_pos hw.err] at hfin
    cases hfin
  have hnone : ¬ w.err.isSome = true := by rw [hw.err]; decide
  by_cases h0 : w.depth ≠ 0
  · rw [ujsonWriterFinish, if_neg hnone, if_pos h0] at hfin
    cases hfin
  -- nothing is open, and something was written
  obtain rfl : stack = [] := eq_nil_of_length_eq_zero (hw.depth ▸ not_not.1 h0)
  obtain ⟨v, hutf, hv⟩ := hw.out.resolve_left fun hempty => hout hempty.2
  refine ⟨v, hutf, ?_⟩
  rw [ujsonWriterFinish, if_neg hnone, newline_eq, not_not.1 h0, Writer.put, hv]
  rfl

/-- An object with a number in it. -/
theorem writer_holds_object :
    ∃ rets w, WriterHolds [.objStart none, .intAdd (some [0x61]) 1, .objFinish] rets w := by
  have ha : TextOk [0x61] := ⟨isUtf8_ascii rfl, forall_mem_singleton.2 (by decide)⟩
  have next : ∀ {o : Bool × Writer} {ret : Bool} {w : Writer}, some o = some (ret, w) → w = o.2 :=
    fun h => (congrArg Prod.snd (Option.some.inj h)).symm
  refine writer_holds _ ⟨⟨⟨by rintro _ ⟨⟩, fun _ => ⟨rfl, rfl⟩⟩, by decide⟩, fun ret w hrun => ?_⟩
  obtain rfl := next hrun
  refine ⟨fun s hs => by cases hs; exact ha, fun ret w hrun => ?_⟩
  obtain rfl := next hrun
  refine ⟨Nat.succ_ne_zero 0, fun ret w hrun => ?_⟩
  obtain rfl := next hrun
  show Writer.out _ ≠ []
  decide +kernel

/-- `ujson_obj_finish` at depth 0 succeeds and the depth wraps; behind an `ujson_obj_start` that
fails at the greatest depth a call succeeds; two values, or none, are written without a failure. -/
theorem writer_fails : (¬ ∃ rets w, WriterHolds [.objFinish] rets w) ∧ (¬ ∃ rets w, WriterHolds
        (List.replicate 128 (.arrStart none) ++ [.objStart none, .nullAdd none]) rets w) ∧
      (∃ w, runCalls {} [.objStart none, .objFinish, .objStart none, .objFinish] =
        some ([false, false, false, false], w) ∧ (ujsonWriterFinish w).1 = false ∧
        (ujsonWriterFinish w).2.out = [0x7b, 0x7d, 0x7b, 0x7d, 0x0a]) ∧
      (ujsonWriterFinish {}).1 = false ∧ (ujsonWriterFinish {}).2.out = [0x0a] := by
  refine ⟨fun ⟨rets, w, h⟩ => ?_, fun ⟨rets, w, h⟩ => ?_, ⟨_, rfl, rfl, rfl⟩, rfl, rfl⟩
  · have hdepth := h.depth 1 [false] (ujsonObjFinish {}).2 rfl
    exact absurd hdepth (by decide)
  have hrets : (runCalls {}
      (List.replicate 128 (.arrStart none) ++ [.objStart none, .nullAdd none])).map (·.1) =
      some (List.replicate 128 false ++ [true, false]) := by decide +kernel
  rw [h.runs] at hrets
  obtain rfl : rets = _ := Option.some.inj hrets
  have hlast := (pairwise_append.1 h.sticky).2.1
  exact absurd (rel_of_pairwise_cons hlast (mem_singleton.2 rfl) rfl) Bool.false_ne_true

end LtpDdt.Ujson
