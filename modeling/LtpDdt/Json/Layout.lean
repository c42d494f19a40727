/-
Json.Layout — JSON texts that differ in their white space, and texts that are put
together from members.

`Seq.mapWs` changes the white space of a container; `Seq.bare` takes it away: two
containers have the same `bare` exactly if they have the same members with the same
texts. A newline stands in white space only (`Seq.mapWs_text`), and other bytes are
counted the same with every layout (`Seq.count_bare`).
-/
import LtpDdt.Json.Tree

namespace LtpDdt.Json

open List Seq

variable {k : Kind} {s t : Seq k} {bs : List UInt8} {b : UInt8}

/-! ## Changing the white space -/

def Key.mapWs (f : Ws → Ws) : {k : Kind} → Key k → Key k
  | _, .elem => .elem
  | _, .name s ws₁ ws₂ => .name s (f ws₁) (f ws₂)

def Seq.mapWs (f : Ws → Ws) : {k : Kind} → Seq k → Seq k
  | _, .nil ws => .nil (f ws)
  | _, .scalar sep lead key v next => .scalar (f sep) (f lead) (key.mapWs f) v (next.mapWs f)
  | _, .sub sep lead key k' inner next =>
    .sub (f sep) (f lead) (key.mapWs f) k' (inner.mapWs f) (next.mapWs f)

def Seq.bare {k : Kind} (s : Seq k) : Seq k := s.mapWs fun _ => .empty

variable (f : Ws → Ws)

lemma Key.mapWs_mapWs (g : Ws → Ws) (key : Key k) :
    (key.mapWs f).mapWs g = key.mapWs fun ws => g (f ws) := by cases key <;> rfl

lemma Seq.mapWs_mapWs (g : Ws → Ws) (s : Seq k) :
    (s.mapWs f).mapWs g = s.mapWs fun ws => g (f ws) := by
  induction s with
  | nil => rfl
  | scalar sep lead key v next ih => rw [mapWs, mapWs, mapWs, Key.mapWs_mapWs, ih]
  | sub sep lead key k' inner next ihi ihn =>
    rw [mapWs, mapWs, mapWs, Key.mapWs_mapWs, ihi, ihn]

lemma Seq.bare_mapWs (s : Seq k) : (s.mapWs f).bare = s.bare := s.mapWs_mapWs f _

lemma Seq.bare_bare (s : Seq k) : s.bare.bare = s.bare := s.bare_mapWs _

/-! ## Bytes that are no white space -/

section count

variable {b : UInt8}

lemma Ws.count_eq (ws : Ws) (hb : isWs b = false) : ws.1.count b = 0 := by
  refine count_eq_zero.2 fun h => ?_
  rw [ws.2 b h] at hb
  cases hb

lemma Key.count_mapWs (hb : isWs b = false) (key : Key k) :
    (key.mapWs f).text.count b = key.text.count b := by
  cases key with
  | elem => rfl
  | name =>
    simp [Key.mapWs, Key.text, count_cons, Ws.count_eq _ hb]

lemma count_sepText (first : Bool) (sep : Ws) (hb : isWs b = false) :
    (sepText first sep).count b = (sepText first .empty).count b := by
  cases first with
  | true => rfl
  | false => simp [sepText, Ws.count_eq _ hb]

/-- White space counts for no other byte. -/
lemma Seq.count_mapWs (hb : isWs b = false) (s : Seq k) :
    ∀ first, ((s.mapWs f).text first).count b = (s.text first).count b := by
  induction s with intro first
  | nil =>
    simp [mapWs, text, Ws.count_eq _ hb]
  | scalar sep lead key v next ih =>
    simp [mapWs, text, Ws.count_eq _ hb, Key.count_mapWs f hb, ih, count_sepText first _ hb]
  | sub sep lead key k' inner next ihi ihn =>
    simp [mapWs, text, count_cons, Ws.count_eq _ hb,
      Key.count_mapWs f hb, ihi, ihn, count_sepText first _ hb]

lemma Seq.count_bare (hb : isWs b = false) (h : s.bare = t.bare)
    (first : Bool) : (s.text first).count b = (t.text first).count b := by
  rw [← s.count_mapWs _ hb first, ← t.count_mapWs _ hb first]
  exact congrArg (fun u : Seq k => (u.text first).count b) h

end count

/-! ## Newlines -/

lemma Digits.numBytes (ds : Digits) : ∀ b ∈ ds.bytes, isNumByte b :=
  fun b h => isNumByte_of_isDigit (ds.digit b h)

lemma Exponent.numBytes (e : Exponent) : ∀ b ∈ e.text, isNumByte b := by
  have hsign : ∀ b ∈ signText e.sign, isNumByte b := by
    match e.sign with
    | none => exact forall_mem_nil _
    | some false => exact forall_mem_singleton.2 rfl
    | some true => exact forall_mem_singleton.2 rfl
  refine forall_mem_cons.2 ⟨?_, forall_mem_append.2 ⟨hsign, e.digits.numBytes⟩⟩
  split <;> rfl

lemma Number.numBytes (n : Number) : ∀ b ∈ n.text, isNumByte b := by
  have hneg : ∀ b ∈ (if n.neg then [0x2d] else [] : List UInt8), isNumByte b := by
    split
    · exact forall_mem_singleton.2 rfl
    · exact forall_mem_nil _
  have hfrac : ∀ b ∈ fracText n.frac, isNumByte b := by
    cases n.frac with
    | none => exact forall_mem_nil _
    | some ds => exact forall_mem_cons.2 ⟨rfl, ds.numBytes⟩
  have hexp : ∀ b ∈ expText n.exp, isNumByte b := by
    cases n.exp with
    | none => exact forall_mem_nil _
    | some e => exact e.numBytes
  exact forall_mem_append.2 ⟨hneg, forall_mem_append.2 ⟨n.int.numBytes,
    forall_mem_append.2 ⟨hfrac, hexp⟩⟩⟩

lemma StrElem.noNewline (x : StrElem) : (0x0a : UInt8) ∉ x.text := by
  have hhex : ∀ h : Hex, (0x0a : UInt8) ≠ h.1 := by
    rintro ⟨b, hb⟩ rfl
    cases hb
  cases x with
  | plain b hb =>
    intro h
    rw [← mem_singleton.1 h] at hb
    cases hb
  | esc e => cases e <;> decide
  | ucode h₁ h₂ h₃ h₄ =>
    simp only [StrElem.text, mem_cons, not_mem_nil, or_false, not_or]
    exact ⟨by decide, by decide, hhex h₁, hhex h₂, hhex h₃, hhex h₄⟩

lemma strText_noNewline (s : List StrElem) : (0x0a : UInt8) ∉ strText s := by
  intro h
  obtain ⟨x, -, hx⟩ := mem_flatMap.1 h
  exact x.noNewline hx

lemma Scalar.noNewline (v : Scalar) : (0x0a : UInt8) ∉ v.text := by
  cases v with
  | num n =>
    intro h
    cases n.numBytes _ h
  | bool b => cases b <;> decide
  | null => decide
  | str s =>
    simp only [Scalar.text, mem_cons, mem_append, not_or]
    exact ⟨by decide, strText_noNewline s, by decide⟩

section newline

variable {f : Ws → Ws} {g : UInt8 → List UInt8}

variable (hg : ∀ b, b ≠ 0x0a → g b = [b])

include hg

lemma flatMap_noNewline (h : (0x0a : UInt8) ∉ bs) : bs.flatMap g = bs := by
  induction bs with
  | nil => rfl
  | cons b bs ih =>
    rw [mem_cons, not_or] at h
    rw [flatMap_cons, hg b (Ne.symm h.1), ih h.2, singleton_append]

/-- A change of white space, as a change of the text. -/
lemma Seq.mapWs_text (hf : ∀ ws, (f ws).1 = ws.1.flatMap g) (s : Seq k) : ∀ first,
    (s.mapWs f).text first = (s.text first).flatMap g := by
  have hsep : ∀ first sep, (sepText first (f sep)) = (sepText first sep).flatMap g := by
    intro first sep
    cases first with
    | true => rfl
    | false => simp [sepText, hf, hg 0x2c (by decide)]
  have hkey : ∀ {k : Kind} (key : Key k), (key.mapWs f).text = key.text.flatMap g := by
    intro k key
    cases key with
    | elem => rfl
    | name s =>
      simp [Key.mapWs, Key.text, hf, hg 0x22 (by decide), hg 0x3a (by decide),
        flatMap_noNewline hg (strText_noNewline s)]
  induction s with intro first
  | nil ws =>
    rename_i k
    have hclose : g k.closing = [k.closing] := hg _ (by cases k <;> decide)
    simp [mapWs, text, hf, hclose]
  | scalar sep lead key v next ih =>
    simp [mapWs, text, hf, hsep, hkey, ih, flatMap_noNewline hg v.noNewline]
  | sub sep lead key k' inner next ihi ihn =>
    have hopen : g k'.opening = [k'.opening] := hg _ (by cases k' <;> decide)
    simp [mapWs, text, hf, hsep, hkey, ihi, ihn, hopen]

end newline

/-! ## Putting members together -/

def Seq.isNil : {k : Kind} → Seq k → Bool
  | _, .nil _ => true
  | _, _ => false

lemma Seq.isNil_mapWs (s : Seq k) : (s.mapWs f).isNil = s.isNil := by cases s <;> rfl

def Seq.last : {k : Kind} → Seq k → Ws
  | _, .nil ws => ws
  | _, .scalar _ _ _ _ next => next.last
  | _, .sub _ _ _ _ _ next => next.last

def Seq.front : {k : Kind} → Seq k → Bool → List UInt8
  | _, .nil _, _ => []
  | _, .scalar sep lead key v next, first =>
    sepText first sep ++ (lead.1 ++ (key.text ++ (v.text ++ next.front false)))
  | _, .sub sep lead key k' inner next, first =>
    sepText first sep ++ (lead.1 ++ (key.text ++
      (k'.opening :: (inner.text true ++ next.front false))))

/-- The text ends in white space and the closing bracket. -/
lemma Seq.text_eq_front (s : Seq k) :
    ∀ first, s.text first = s.front first ++ (s.last.1 ++ [k.closing]) := by
  induction s with
  | nil => exact fun _ => rfl
  | scalar sep lead key v next ih | sub sep lead key k' inner next _ ih =>
    exact fun first => by simp [text, front, last, ih]

lemma Seq.count_front (hb : isWs b = false) (s : Seq k) (first : Bool) :
    (s.text first).count b = (s.front first).count b + [k.closing].count b := by
  rw [s.text_eq_front, count_append, count_append, Ws.count_eq _ hb, Nat.zero_add]

lemma Seq.count_front_bare (hb : isWs b = false) (s : Seq k)
    (first : Bool) : (s.bare.front first).count b = (s.front first).count b := by
  have h := count_bare hb s.bare_bare first
  rw [count_front hb, count_front hb] at h
  exact Nat.add_right_cancel h

/-- The text ends with a byte that is no white space. -/
def EndsSolid (bs : List UInt8) : Prop := ∃ init b, bs = init ++ [b] ∧ isWs b = false

lemma EndsSolid.append (h : EndsSolid bs) (as : List UInt8) : EndsSolid (as ++ bs) := by
  obtain ⟨init, b, rfl, hb⟩ := h
  exact ⟨as ++ init, b, (append_assoc _ _ _).symm, hb⟩

lemma endsSolid_of_forall (hne : bs ≠ []) (h : ∀ b ∈ bs, isWs b = false) : EndsSolid bs :=
  ⟨bs.dropLast, bs.getLast hne, (dropLast_append_getLast hne).symm, h _ (getLast_mem hne)⟩

lemma Scalar.endsSolid (v : Scalar) : EndsSolid v.text := by
  cases v with
  | num n =>
    obtain ⟨b, t, ht, -⟩ := n.head
    refine endsSolid_of_forall (by rw [Scalar.text, ht]; exact cons_ne_nil _ _) fun b hb => ?_
    cases hws : isWs b with
    | false => rfl
    | true =>
      have := n.numBytes b hb
      rw [isWs_not_isNumByte hws] at this
      cases this
  | bool b =>
    cases b with
    | true => exact ⟨[0x74, 0x72, 0x75], 0x65, rfl, rfl⟩
    | false => exact ⟨[0x66, 0x61, 0x6c, 0x73], 0x65, rfl, rfl⟩
  | null => exact ⟨[0x6e, 0x75, 0x6c], 0x6c, rfl, rfl⟩
  | str s => exact ⟨0x22 :: strText s, 0x22, rfl, rfl⟩

lemma Seq.text_endsSolid (s : Seq k) (first : Bool) : EndsSolid (s.text first) := by
  rw [s.text_eq_front, ← append_assoc]
  exact ⟨_, k.closing, rfl, k.closing_facts.1⟩

lemma EndsSolid.front {next : Seq k} {t : List UInt8} (ht : EndsSolid t)
    (ih : next.isNil = false → ∀ first, EndsSolid (next.front first)) :
    EndsSolid (t ++ next.front false) := by
  cases hnil : next.isNil with
  | false => exact (ih hnil false).append _
  | true =>
    cases next with
    | nil => simpa [Seq.front] using ht
    | scalar | sub => cases hnil

lemma Seq.front_endsSolid : s.isNil = false → ∀ first, EndsSolid (s.front first) := by
  induction s with
  | nil => exact nofun
  | scalar sep lead key v next ih =>
    intro _ _
    refine .append (.append (.append ?_ _) _) _
    exact v.endsSolid.front ih
  | sub sep lead key k' inner next _ ih =>
    intro _ _
    refine .append (.append (.append ?_ _) _) _
    rw [← singleton_append]
    refine .append ?_ _
    exact (inner.text_endsSolid true).front ih

variable (sep : Ws)

/-- The container with other white space before the comma in front of it. -/
def Seq.setSep : {k : Kind} → Seq k → Seq k
  | _, .nil ws => .nil ws
  | _, .scalar _ lead key v next => .scalar sep lead key v next
  | _, .sub _ lead key k' inner next => .sub sep lead key k' inner next

lemma Seq.setSep_true (t : Seq k) : (t.setSep sep).text true = t.text true := by cases t <;> rfl

lemma Seq.bare_setSep (t : Seq k) : (t.setSep sep).bare = t.bare := by cases t <;> rfl

lemma Seq.setSep_text (ht : t.isNil = false) (sep : Ws) :
    (t.setSep sep).text false = sep.1 ++ 0x2c :: t.text true := by
  cases t with
  | nil => cases ht
  | scalar | sub => simp [setSep, text, sepText]

lemma Seq.count_false (hb : isWs b = false) (ht : t.isNil = false) :
    (t.text false).count b = [0x2c].count b + (t.text true).count b := by
  have h := count_bare hb (t.bare_setSep .empty) false
  rw [← h, setSep_text ht, count_append, Ws.count_eq _ hb, Nat.zero_add,
    ← singleton_append, count_append]

/-- The members of `s` and then those of `t`, with `sep` before the comma. -/
def Seq.append (sep : Ws) : {k : Kind} → Seq k → Seq k → Seq k
  | _, .nil _, t => t.setSep sep
  | _, .scalar sep' lead key v next, t => .scalar sep' lead key v (next.append sep t)
  | _, .sub sep' lead key k' inner next, t => .sub sep' lead key k' inner (next.append sep t)

/-- The text of two lists in one. -/
lemma Seq.append_text (ht : t.isNil = false) (sep : Ws) : ∀ first, (s.isNil → first = false) →
    (s.append sep t).text first = s.front first ++ (sep.1 ++ 0x2c :: t.text true) := by
  induction s with
  | nil =>
    intro _ h
    rw [h rfl, append, setSep_text ht]
    rfl
  | scalar sep' lead key v next ih | sub sep' lead key k' inner next _ ih =>
    intro _ _
    simp [append, text, front, ih ht false (fun _ => rfl)]

lemma Seq.bare_append (s t : Seq k) : (s.append sep t).bare = s.bare.append .empty t.bare := by
  induction s with
  | nil => cases t <;> rfl
  | scalar sep' lead key v next ih => exact congrArg (scalar _ _ _ _) (ih t)
  | sub sep' lead key k' inner next _ ih => exact congrArg (sub _ _ _ _ _) (ih t)

lemma Seq.append_isNil (ht : t.isNil = false) : (s.append sep t).isNil = false := by
  cases s with
  | nil => cases t <;> exact ht
  | scalar | sub => rfl

lemma Seq.last_mapWs (s : Seq k) : (s.mapWs f).last = f s.last := by
  induction s with
  | nil => rfl
  | scalar sep lead key v next ih => exact ih
  | sub sep lead key k' inner next _ ih => exact ih

lemma Seq.front_mapWs {f : Ws → Ws} {g : UInt8 → List UInt8} (hg : ∀ b, b ≠ 0x0a → g b = [b])
    (hf : ∀ ws, (f ws).1 = ws.1.flatMap g) (s : Seq k) (first : Bool) :
    (s.mapWs f).front first = (s.front first).flatMap g := by
  have htext := s.mapWs_text hg hf first
  have hclose : g k.closing = [k.closing] := hg _ (by cases k <;> decide)
  rw [text_eq_front, text_eq_front, s.last_mapWs, hf, flatMap_append,
    flatMap_append, flatMap_singleton, hclose] at htext
  exact append_cancel_right htext

/-! ## The last member -/

def Seq.lastScalar : {k : Kind} → Seq k → Option (Key k × Scalar)
  | _, .nil _ => none
  | _, .scalar _ _ key v next => if next.isNil then some (key, v) else next.lastScalar
  | _, .sub _ _ _ _ _ next => next.lastScalar

lemma Seq.lastScalar_mapWs (s : Seq k) :
    (s.mapWs f).lastScalar = s.lastScalar.map fun m => (m.1.mapWs f, m.2) := by
  induction s with
  | nil => rfl
  | scalar sep lead key v next ih =>
    rw [mapWs, lastScalar, lastScalar, isNil_mapWs, ih]
    split <;> rfl
  | sub sep lead key k' inner next _ ih => exact ih

lemma Seq.lastScalar_append (ht : t.isNil = false) :
    (s.append sep t).lastScalar = t.lastScalar := by
  induction s with
  | nil => cases t <;> rfl
  | scalar sep' lead key v next ih =>
    rw [append, lastScalar, append_isNil _ ht, ih ht]
    rfl
  | sub sep' lead key k' inner next _ ih => exact ih ht

/-- The last scalar at the end of the text. -/
lemma Seq.text_lastScalar {key : Key k} {v : Scalar}
    (h : s.lastScalar = some (key, v)) : ∀ first, ∃ before,
    s.text first = before ++ (key.text ++ (v.text ++ (s.last.1 ++ [k.closing]))) := by
  induction s with
  | nil => cases h
  | scalar sep lead key' v' next ih =>
    intro first
    rw [lastScalar] at h
    cases hnil : next.isNil with rw [hnil] at h
    | true =>
      cases h
      refine ⟨sepText first sep ++ lead.1, ?_⟩
      cases next with
      | nil => simp [text, last]
      | scalar | sub => cases hnil
    | false =>
      obtain ⟨before, hb⟩ := ih h false
      refine ⟨sepText first sep ++ (lead.1 ++ (key'.text ++ (v'.text ++ before))), ?_⟩
      rw [text, hb]
      simp [last]
  | sub sep lead key' k' inner next _ ih =>
    intro first
    obtain ⟨before, hb⟩ := ih h false
    refine ⟨sepText first sep ++ (lead.1 ++ (key'.text ++
      (k'.opening :: (inner.text true ++ before)))), ?_⟩
    rw [text, hb]
    simp [last]

end LtpDdt.Json
