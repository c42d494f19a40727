/-
Json.Tree — what a JSON text stands for, and that it stands for one
thing only.

`Value.tree` reads the tree off a value of the grammar. The grammar is
unambiguous as far as the tree goes: two values with the same text have the
same tree (`Value.tree_unique`).
-/
import LtpDdt.Json.Grammar

namespace LtpDdt.Json

open List Seq

variable {k : Kind} {p : UInt8 → Bool} {b : UInt8} {r r' : List UInt8} {ds ds' : Digits}
  {c : UInt8} {bs : List UInt8}

/-! ## Trees -/

inductive Tree where
  | null
  | bool (b : Bool)
  | int (i : Int)
  | str (bs : List UInt8)
  | arr (elems : List Tree)
  | obj (members : List (List UInt8 × Tree))

/-- The tree of a container; the elements of an array come with an empty
name. -/
def Tree.container : Kind → List (List UInt8 × Tree) → Tree
  | .arr, members => .arr (members.map Prod.snd)
  | .obj, members => .obj members

/-- A number has a tree if it is an integer, a string if its surrogates come
in pairs. -/
def Scalar.tree : Scalar → Option Tree
  | .num n => if n.isInt then some (.int n.value) else none
  | .bool b => some (.bool b)
  | .null => some .null
  | .str s => (strValue s).map .str

def Key.label : {k : Kind} → Key k → Option (List UInt8)
  | _, .elem => some []
  | _, .name s _ _ => strValue s

def Seq.trees : {k : Kind} → Seq k → Option (List (List UInt8 × Tree))
  | _, .nil _ => some []
  | _, .scalar _ _ key v next => do
      let label ← key.label
      let tree ← v.tree
      let trees ← next.trees
      some ((label, tree) :: trees)
  | _, .sub _ _ key k' inner next => do
      let label ← key.label
      let members ← inner.trees
      let trees ← next.trees
      some ((label, .container k' members) :: trees)

/-- `value` of RFC 8259, without white space around it. -/
inductive Value where
  | scalar (v : Scalar)
  | sub (k : Kind) (items : Seq k)

def Value.text : Value → List UInt8
  | .scalar v => v.text
  | .sub k items => k.opening :: items.text true

def Value.tree : Value → Option Tree
  | .scalar v => v.tree
  | .sub k items => items.trees.map (.container k)

def Seq.cons {k : Kind} (lead : Ws) (key : Key k) (v : Value) (next : Seq k) : Seq k :=
  match v with
  | .scalar v => .scalar .empty lead key v next
  | .sub k' inner => .sub .empty lead key k' inner next

lemma Seq.text_cons (lead : Ws) (key : Key k) (v : Value) (next : Seq k) :
    (cons lead key v next).text true = lead.1 ++ (key.text ++ (v.text ++ next.text false)) := by
  cases v with
  | scalar => rfl
  | sub => simp [cons, text, sepText, Value.text]

lemma Seq.text_cons_false (lead : Ws) (key : Key k) (v : Value) (next : Seq k) :
    (cons lead key v next).text false = 0x2c :: (cons lead key v next).text true := by
  cases v <;> rfl

variable {key : Key k} {s' : Seq k} {o o' : Option Bool} {n n' : Number}

lemma Seq.trees_cons {lead} {v : Value} {next : Seq k} {label tree trees}
    (hkey : key.label = some label) (hv : v.tree = some tree) (hnext : next.trees = some trees) :
    (Seq.cons lead key v next).trees = some ((label, tree) :: trees) := by
  cases v with
  | scalar v =>
    have hv' : v.tree = some tree := hv
    simp [Seq.cons, Seq.trees, hkey, hv', hnext]
  | sub =>
    obtain ⟨_, hm, rfl⟩ := Option.map_eq_some_iff.1 hv
    simp [Seq.cons, Seq.trees, hkey, hm, hnext]

/-! ## Tokens end where they must -/

/-- The text does not start with a byte of this kind. -/
def Stops (p : UInt8 → Bool) (r : List UInt8) : Prop := ∀ b ∈ r.head?, p b = false

lemma stops_nil (p : UInt8 → Bool) : Stops p [] := fun b hb => by cases hb

lemma stops_cons (h : p b = false) : Stops p (b :: r) := fun c hc => by
  cases hc
  exact h

lemma Stops.mono {q : UInt8 → Bool} (h : Stops p r) (hpq : ∀ b, q b → p b) :
    Stops q r := fun b hb => by
  cases hq : q b with
  | false => rfl
  | true => exact absurd (hpq b hq) (by rw [h b hb]; decide)

lemma run_unique {xs ys} (hx : ∀ b ∈ xs, p b) (hy : ∀ b ∈ ys, p b) (hr : Stops p r)
    (hr' : Stops p r') (h : xs ++ r = ys ++ r') : xs = ys ∧ r = r' := by
  have hstop : ∀ {r}, Stops p r → r.takeWhile p = [] := by
    intro r hr
    cases r with
    | nil => rfl
    | cons b => exact takeWhile_cons_of_neg (by rw [hr b rfl]; decide)
  have hxy : xs = ys := by
    have htake := congrArg (takeWhile p) h
    rwa [takeWhile_append_of_pos hx, takeWhile_append_of_pos hy, hstop hr, hstop hr',
      append_nil, append_nil] at htake
  subst hxy
  exact ⟨rfl, append_cancel_left h⟩

lemma Ws.unique {ws ws' : Ws} (hr : Stops isWs r) (hr' : Stops isWs r')
    (h : ws.1 ++ r = ws'.1 ++ r') : r = r' := (run_unique ws.2 ws'.2 hr hr' h).2

/-! ## Strings -/

lemma Escape.letter_inj {e e' : Escape} (h : e.letter = e'.letter) : e = e' := by
  cases e <;> cases e' <;> first | rfl | exact absurd h (by decide)

lemma Escape.letter_ne_u (e : Escape) : e.letter ≠ 0x75 := by cases e <;> decide

lemma isPlain_ne (h : isPlain b) : b ≠ 0x22 ∧ b ≠ 0x5c := by
  simp only [isPlain, Bool.and_eq_true, bne_iff_ne] at h
  exact ⟨h.1.2, h.2⟩

lemma StrElem.unique {x x' : StrElem} (h : x.text ++ r = x'.text ++ r') : x = x' ∧ r = r' := by
  cases x with
  | plain b hb =>
    cases x' with
    | plain =>
      obtain ⟨rfl, hr⟩ := cons.inj h
      exact ⟨rfl, hr⟩
    | esc | ucode => exact absurd (cons.inj h).1 (isPlain_ne hb).2
  | esc e =>
    cases x' with
    | plain b' hb' => exact absurd (cons.inj h).1.symm (isPlain_ne hb').2
    | esc =>
      obtain ⟨hl, hr⟩ := cons.inj (cons.inj h).2
      exact ⟨by rw [Escape.letter_inj hl], hr⟩
    | ucode => exact absurd (cons.inj (cons.inj h).2).1 e.letter_ne_u
  | ucode =>
    cases x' with
    | plain b' hb' => exact absurd (cons.inj h).1.symm (isPlain_ne hb').2
    | esc e => exact absurd (cons.inj (cons.inj h).2).1.symm e.letter_ne_u
    | ucode =>
      simp only [StrElem.text, cons_append, cons.injEq, true_and] at h
      obtain ⟨e₁, e₂, e₃, e₄, hr⟩ := h
      rw [Subtype.ext e₁, Subtype.ext e₂, Subtype.ext e₃, Subtype.ext e₄]
      exact ⟨rfl, hr⟩

lemma StrElem.text_ne_quote (x : StrElem) (r r' : List UInt8) : x.text ++ r ≠ 0x22 :: r' := by
  intro h
  cases x with
  | plain b hb => exact (isPlain_ne hb).1 (cons.inj h).1
  | esc | ucode => exact absurd (cons.inj h).1 (by decide)

lemma strText_unique {s s'} (h : strText s ++ 0x22 :: r = strText s' ++ 0x22 :: r') :
    s = s' ∧ r = r' := by
  induction s generalizing s' with
  | nil =>
    cases s' with
    | nil => exact ⟨rfl, (cons.inj h).2⟩
    | cons x =>
      rw [strText, strText, flatMap_cons, append_assoc] at h
      exact absurd h.symm (x.text_ne_quote _ _)
  | cons x s ih =>
    rw [strText, flatMap_cons, append_assoc] at h
    cases s' with
    | nil => exact absurd h (x.text_ne_quote _ _)
    | cons =>
      rw [strText, flatMap_cons, append_assoc] at h
      obtain ⟨rfl, h'⟩ := StrElem.unique h
      obtain ⟨rfl, hr⟩ := ih h'
      exact ⟨rfl, hr⟩

/-! ## Numbers -/

def isNumByte (b : UInt8) : Bool :=
  isDigit b || b == 0x2e || b == 0x45 || b == 0x65 || b == 0x2b || b == 0x2d

lemma isNumByte_of_isDigit (h : isDigit b) : isNumByte b := by simp [isNumByte, h]

lemma Digits.ext (h : ds.bytes = ds'.bytes) : ds = ds' := by
  cases ds
  cases ds'
  cases h
  rfl

lemma Digits.head (ds : Digits) : ∃ b bs, ds.bytes = b :: bs ∧ isDigit b := by
  obtain ⟨b, bs, h⟩ := exists_cons_of_ne_nil ds.ne
  exact ⟨b, bs, h, ds.digit b (by simp [h])⟩

lemma Digits.unique (hr : Stops isDigit r)
    (hr' : Stops isDigit r') (h : ds.bytes ++ r = ds'.bytes ++ r') : ds = ds' ∧ r = r' := by
  obtain ⟨hb, hr⟩ := run_unique ds.digit ds'.digit hr hr' h
  exact ⟨Digits.ext hb, hr⟩

lemma signText_unique {b' t t'} (hb : isDigit b) (hb' : isDigit b')
    (h : signText o ++ b :: t = signText o' ++ b' :: t') : o = o' ∧ b :: t = b' :: t' := by
  have hne : ∀ {c}, isDigit c → c ≠ 0x2b ∧ c ≠ 0x2d := by
    intro c hc
    constructor
    · rintro rfl
      cases hc
    · rintro rfl
      cases hc
  rcases o with - | (_ | _)
  · rcases o' with - | (_ | _)
    · exact ⟨rfl, h⟩
    · exact absurd (cons.inj h).1 (hne hb).1
    · exact absurd (cons.inj h).1 (hne hb).2
  · rcases o' with - | (_ | _)
    · exact absurd (cons.inj h).1.symm (hne hb').1
    · exact ⟨rfl, (cons.inj h).2⟩
    · exact absurd (cons.inj h).1 (by decide)
  rcases o' with - | (_ | _)
  · exact absurd (cons.inj h).1.symm (hne hb').2
  · exact absurd (cons.inj h).1 (by decide)
  · exact ⟨rfl, (cons.inj h).2⟩

/-- A signed run of digits is read in one way. -/
lemma signed_unique (hr : Stops isDigit r) (hr' : Stops isDigit r')
    (h : signText o ++ (ds.bytes ++ r) = signText o' ++ (ds'.bytes ++ r')) :
    o = o' ∧ ds = ds' ∧ r = r' := by
  obtain ⟨b, _, hb, hd⟩ := ds.head
  obtain ⟨_, _, hb', hd'⟩ := ds'.head
  rw [hb, hb'] at h
  obtain ⟨ho, hrest⟩ := signText_unique hd hd' h
  exact ⟨ho, Digits.unique hr hr' (by rw [hb, hb']; exact hrest)⟩

/-- An exponent is read in one way. -/
lemma expText_unique {o o'} (hr : Stops isNumByte r) (hr' : Stops isNumByte r')
    (h : expText o ++ r = expText o' ++ r') : o = o' ∧ r = r' := by
  -- an exponent where the other text has none
  have hletter : ∀ (e : Exponent) {t t' : List UInt8}, Stops isNumByte t → t ≠ e.text ++ t' := by
    intro e t _ ht he
    rw [he] at ht
    have := ht _ rfl
    split at this <;> cases this
  have hdig : ∀ {t}, Stops isNumByte t → Stops isDigit t := fun ht =>
    ht.mono fun _ => isNumByte_of_isDigit
  cases o with
  | none =>
    cases o' with
    | none => exact ⟨rfl, h⟩
    | some e' => exact absurd h (hletter e' hr)
  | some e =>
    cases o' with
    | none => exact absurd h.symm (hletter e hr')
    | some e' =>
      obtain ⟨upper, _, _⟩ := e
      obtain ⟨upper', _, _⟩ := e'
      simp only [expText, Exponent.text, cons_append, append_assoc] at h
      obtain ⟨hl, hrest⟩ := cons.inj h
      obtain ⟨rfl, rfl, hr⟩ := signed_unique (hdig hr) (hdig hr') hrest
      have hupper : upper = upper' := by cases upper <;> cases upper' <;> first | rfl | cases hl
      rw [hupper]
      exact ⟨rfl, hr⟩

lemma stops_expText (o : Option Exponent) (hr : Stops isNumByte r) :
    Stops (fun b => isDigit b || b == 0x2e) (expText o ++ r) := by
  cases o with
  | none =>
    refine hr.mono fun b hb => ?_
    rcases Bool.or_eq_true _ _ ▸ hb with hb | hb
    · exact isNumByte_of_isDigit hb
    · rw [beq_iff_eq.1 hb]
      rfl
  | some =>
    refine stops_cons ?_
    split <;> rfl

/-- A fraction and an exponent are read in one way. -/
lemma tailText_unique (hr : Stops isNumByte r) (hr' : Stops isNumByte r')
    (h : n.tailText ++ r = n'.tailText ++ r') : n.frac = n'.frac ∧ n.exp = n'.exp ∧ r = r' := by
  rw [Number.tailText, Number.tailText, append_assoc, append_assoc] at h
  have hs := stops_expText n.exp hr
  have hs' := stops_expText n'.exp hr'
  have hdig : ∀ {t}, Stops (fun b => isDigit b || b == 0x2e) t → Stops isDigit t := fun ht =>
    ht.mono fun b hb => by simp [hb]
  have hpoint : ∀ {t t' : List UInt8}, Stops (fun b => isDigit b || b == 0x2e) t →
      t ≠ 0x2e :: t' := by
    rintro t _ ht rfl
    have := ht _ rfl
    cases this
  cases hf : n.frac with rw [hf] at h
  | none =>
    cases hf' : n'.frac with rw [hf'] at h
    | none =>
      exact ⟨rfl, expText_unique hr hr' h⟩
    | some =>
      exact absurd h (hpoint hs)
  | some =>
    cases hf' : n'.frac with rw [hf'] at h
    | none =>
      exact absurd h.symm (hpoint hs')
    | some =>
      obtain ⟨rfl, hrest⟩ := Digits.unique (hdig hs) (hdig hs') (cons.inj h).2
      exact ⟨rfl, expText_unique hr hr' hrest⟩

lemma stops_tailText (n : Number) (hr : Stops isNumByte r) : Stops isDigit (n.tailText ++ r) := by
  rw [Number.tailText]
  cases n.frac with
  | none => exact (stops_expText n.exp hr).mono fun b hb => by simp [hb]
  | some => exact stops_cons rfl

/-- **A number is read in one way**, whatever follows it. -/
lemma Number.unique (hr : Stops isNumByte r) (hr' : Stops isNumByte r')
    (h : n.text ++ r = n'.text ++ r') : n = n' ∧ r = r' := by
  have hsign : ∀ m : Number, (if m.neg then [0x2d] else []) =
      signText (if m.neg then some true else none) := by
    intro m
    cases m.neg <;> rfl
  simp only [Number.text, hsign, append_assoc] at h
  obtain ⟨hneg, hint, htail⟩ := signed_unique (stops_tailText n hr) (stops_tailText n' hr') h
  obtain ⟨hfrac, hexp, hrest⟩ := tailText_unique hr hr' htail
  have hneg' : n.neg = n'.neg := by
    cases hn : n.neg <;> cases hn' : n'.neg <;> first | rfl | (rw [hn, hn'] at hneg; cases hneg)
  refine ⟨?_, hrest⟩
  cases n
  cases n'
  cases hneg'
  cases hint
  cases hfrac
  cases hexp
  rfl

/-! ## Scalars -/

lemma Number.head (n : Number) : ∃ b t, n.text = b :: t ∧ (isDigit b ∨ b = 0x2d) := by
  obtain ⟨b, _, hb, hd⟩ := n.int.head
  unfold Number.text
  cases n.neg with
  | false => exact ⟨b, _, by rw [hb]; rfl, .inl hd⟩
  | true => exact ⟨0x2d, _, rfl, .inr rfl⟩

lemma Number.text_ne (n : Number) (hc : isDigit c = false ∧ c ≠ 0x2d)
    (r r' : List UInt8) : n.text ++ r ≠ c :: r' := by
  obtain ⟨b, t, ht, hb⟩ := n.head
  rw [ht]
  intro h
  rw [(cons.inj h).1] at hb
  rcases hb with hb | hb
  · rw [hc.1] at hb
    cases hb
  · exact hc.2 hb

/-- **A scalar is read in one way.** -/
lemma Scalar.unique {v v' : Scalar} (hr : Stops isNumByte r)
    (hr' : Stops isNumByte r') (h : v.text ++ r = v'.text ++ r') : v = v' ∧ r = r' := by
  cases v with
  | num n =>
    cases v' with
    | num =>
      obtain ⟨rfl, hrest⟩ := Number.unique hr hr' h
      exact ⟨rfl, hrest⟩
    | bool b => cases b <;> exact absurd h (n.text_ne (by decide) _ _)
    | null | str => exact absurd h (n.text_ne (by decide) _ _)
  | bool b =>
    cases v' with
    | num n' => cases b <;> exact absurd h.symm (n'.text_ne (by decide) _ _)
    | bool b' =>
      cases b <;> cases b' <;> first
        | exact ⟨rfl, append_cancel_left h⟩
        | exact absurd (cons.inj h).1 (by decide)
    | null | str => cases b <;> exact absurd (cons.inj h).1 (by decide)
  | null =>
    cases v' with
    | num n' => exact absurd h.symm (n'.text_ne (by decide) _ _)
    | bool b => cases b <;> exact absurd (cons.inj h).1 (by decide)
    | null => exact ⟨rfl, append_cancel_left h⟩
    | str => exact absurd (cons.inj h).1 (by decide)
  | str =>
    cases v' with
    | num n' => exact absurd h.symm (n'.text_ne (by decide) _ _)
    | bool b => cases b <;> exact absurd (cons.inj h).1 (by decide)
    | null => exact absurd (cons.inj h).1 (by decide)
    | str =>
      simp only [Scalar.text, cons_append, append_assoc] at h
      obtain ⟨rfl, hrest⟩ := strText_unique (cons.inj h).2
      exact ⟨rfl, hrest⟩

/-! ## Members -/

def isStart (b : UInt8) : Bool :=
  isDigit b || b == 0x2d || b == 0x74 || b == 0x66 || b == 0x6e || b == 0x22 || b == 0x5b ||
    b == 0x7b

def Starts (r : List UInt8) : Prop := ∃ b t, r = b :: t ∧ isStart b = true

lemma Scalar.starts (v : Scalar) (r : List UInt8) : Starts (v.text ++ r) := by
  cases v with
  | num n =>
    obtain ⟨b, t, ht, hb⟩ := n.head
    refine ⟨b, t ++ r, by rw [Scalar.text, ht]; rfl, ?_⟩
    rcases hb with hb | rfl
    · simp [isStart, hb]
    · rfl
  | bool b => cases b <;> exact ⟨_, _, rfl, rfl⟩
  | null | str => exact ⟨_, _, rfl, rfl⟩

lemma Kind.starts (k : Kind) (r : List UInt8) : Starts (k.opening :: r) := by
  cases k <;> exact ⟨_, _, rfl, rfl⟩

lemma Key.starts (key : Key k) (h : Starts r) : Starts (key.text ++ r) := by
  cases key with
  | elem => exact h
  | name => exact ⟨_, _, rfl, rfl⟩

lemma isStart_ne (hb : isStart b) (hc : isStart c = false) : b ≠ c := by
  rintro rfl
  rw [hb] at hc
  cases hc

lemma isWs_not_isStart (h : isWs b) : isStart b = false := by
  simp only [isWs, Bool.or_eq_true, beq_iff_eq] at h
  rcases h with ((rfl | rfl) | rfl) | rfl <;> rfl

lemma Starts.stops (h : Starts r) : Stops isWs r := by
  obtain ⟨b, t, rfl, hb⟩ := h
  refine stops_cons ?_
  cases hw : isWs b with
  | false => rfl
  | true => rw [isWs_not_isStart hw] at hb; cases hb

lemma Starts.ne (h : Starts r) (hc : isStart c = false) (t : List UInt8) : r ≠ c :: t := by
  obtain ⟨b, _, rfl, hb⟩ := h
  exact fun he => isStart_ne hb hc (cons.inj he).1

/-- The key of a member is read in one way. -/
lemma Key.unique {key' : Key k} (hr : Starts r) (hr' : Starts r')
    (h : key.text ++ r = key'.text ++ r') : key.label = key'.label ∧ r = r' := by
  cases key with
  | elem =>
    cases key' with
    | elem => exact ⟨rfl, h⟩
  | name =>
    cases key' with
    | name =>
      simp only [Key.text, cons_append, append_assoc] at h
      obtain ⟨rfl, hcolon⟩ := strText_unique (cons.inj h).2
      have hafter := Ws.unique (stops_cons rfl) (stops_cons rfl) hcolon
      exact ⟨rfl, Ws.unique hr.stops hr'.stops (cons.inj hafter).2⟩

/-! ## Containers -/

/-- The white space in front of the first member or of the closing bracket. -/
def Seq.lead : {k : Kind} → Seq k → Ws
  | _, .nil ws => ws
  | _, .scalar _ lead _ _ _ => lead
  | _, .sub _ lead _ _ _ _ => lead

def Seq.body : {k : Kind} → Seq k → List UInt8
  | k, .nil _ => [k.closing]
  | _, .scalar _ _ key v next => key.text ++ (v.text ++ next.text false)
  | _, .sub _ _ key k' inner next =>
    key.text ++ (k'.opening :: (inner.text true ++ next.text false))

variable (s : Seq k)

/-- The first member of a list needs no comma. -/
lemma Seq.text_true : s.text true = s.lead.1 ++ s.body := by cases s <;> rfl

/-- A later member comes behind a comma. -/
lemma Seq.text_false : (∃ ws, s = .nil ws) ∨
      ∃ sep : Ws, s.text false = sep.1 ++ (0x2c :: (s.lead.1 ++ s.body)) := by
  cases s with
  | nil ws => exact .inl ⟨ws, rfl⟩
  | scalar sep | sub sep =>
    exact .inr ⟨sep, by simp [Seq.text, sepText, Seq.lead, Seq.body]⟩

lemma Kind.closing_facts (k : Kind) :
    isWs k.closing = false ∧ isStart k.closing = false ∧ isNumByte k.closing = false ∧
      k.closing ≠ 0x2c := by cases k <;> decide

lemma stops_ws (hp : ∀ b, isWs b → p b = false) (ws : Ws) (hr : Stops p r) :
    Stops p (ws.1 ++ r) := by
  obtain ⟨bs, hbs⟩ := ws
  cases bs with
  | nil => exact hr
  | cons b => exact stops_cons (hp b (hbs b mem_cons_self))

lemma isWs_not_isNumByte (h : isWs b) : isNumByte b = false := by
  simp only [isWs, Bool.or_eq_true, beq_iff_eq] at h
  rcases h with ((rfl | rfl) | rfl) | rfl <;> rfl

/-- What follows a member ends a number. -/
lemma Seq.stops_number (r : List UInt8) : Stops isNumByte (s.text false ++ r) := by
  rcases s.text_false with ⟨ws, rfl⟩ | ⟨sep, h⟩
  · rw [text, append_assoc]
    exact stops_ws (fun _ => isWs_not_isNumByte) ws (stops_cons k.closing_facts.2.2.1)
  · rw [h, append_assoc]
    exact stops_ws (fun _ => isWs_not_isNumByte) sep (stops_cons rfl)

lemma Seq.stops_body (r : List UInt8) : Stops isWs (s.body ++ r) := by
  cases s with
  | nil => exact stops_cons k.closing_facts.1
  | scalar sep lead key v =>
    rw [body, append_assoc, append_assoc]
    exact (key.starts (v.starts _)).stops
  | sub sep lead key k' =>
    rw [body, append_assoc]
    exact (key.starts (k'.starts _)).stops

/-- The members are determined by the text behind the first white space. -/
def Seq.Unique {k : Kind} (s : Seq k) : Prop :=
  ∀ (s' : Seq k) (r r' : List UInt8), s.body ++ r = s'.body ++ r' → s.trees = s'.trees ∧ r = r'

lemma Seq.Unique.text_true {s : Seq k} (hs : s.Unique) (h : s.text true ++ r = s'.text true ++ r') :
    s.trees = s'.trees ∧ r = r' := by
  rw [Seq.text_true, Seq.text_true, append_assoc, append_assoc] at h
  exact hs s' r r' (Ws.unique (s.stops_body r) (s'.stops_body r') h)

lemma Seq.Unique.text_false {s : Seq k} (hs : s.Unique)
    (h : s.text false ++ r = s'.text false ++ r') : s.trees = s'.trees ∧ r = r' := by
  obtain ⟨hws, -, -, hcomma⟩ := k.closing_facts
  rcases s.text_false with ⟨_, rfl⟩ | ⟨_, ht⟩
  · rcases s'.text_false with ⟨_, rfl⟩ | ⟨_, ht'⟩
    · simp only [text, append_assoc] at h
      have hrest := Ws.unique (stops_cons hws) (stops_cons hws) h
      exact ⟨rfl, (cons.inj hrest).2⟩
    simp only [ht', text, append_assoc] at h
    have hrest := Ws.unique (stops_cons hws) (stops_cons rfl) h
    exact absurd (cons.inj hrest).1 hcomma
  · rcases s'.text_false with ⟨_, rfl⟩ | ⟨_, ht'⟩
    · simp only [ht, text, append_assoc] at h
      have hrest := Ws.unique (stops_cons rfl) (stops_cons hws) h
      exact absurd (cons.inj hrest).1.symm hcomma
    simp only [ht, ht', append_assoc, cons_append] at h
    have hrest := Ws.unique (stops_cons rfl) (stops_cons rfl) h
    exact hs s' r r' (Ws.unique (s.stops_body r) (s'.stops_body r') (cons.inj hrest).2)

lemma Kind.opening_inj {k' : Kind} (h : k.opening = k'.opening) : k = k' := by
  cases k <;> cases k' <;> first | rfl | exact absurd h (by decide)

lemma Scalar.text_ne_opening (v : Scalar) (k : Kind) (r r' : List UInt8) :
    v.text ++ r ≠ k.opening :: r' := by
  intro h
  cases v with
  | num n => exact n.text_ne (by cases k <;> decide) _ _ h
  | bool b => cases b <;> cases k <;> exact absurd (cons.inj h).1 (by decide)
  | null | str => cases k <;> exact absurd (cons.inj h).1 (by decide)

/-- **A list of members is read in one way.** -/
lemma Seq.unique : s.Unique := by
  -- along the members, and into the containers among them
  have hclosing (k : Kind) := k.closing_facts.2.1
  induction s with intro s' r r' h
  | nil ws =>
    cases s' with
    | nil => exact ⟨rfl, (cons.inj h).2⟩
    | scalar sep' lead' key' v' =>
      rw [body, body, append_assoc, append_assoc] at h
      exact absurd h.symm ((key'.starts (v'.starts _)).ne (hclosing _) _)
    | sub sep' lead' key' k₂ =>
      rw [body, body, append_assoc] at h
      exact absurd h.symm ((key'.starts (k₂.starts _)).ne (hclosing _) _)
  | scalar sep lead key v next ih =>
    cases s' with
    | nil =>
      rw [body, body, append_assoc, append_assoc] at h
      exact absurd h ((key.starts (v.starts _)).ne (hclosing _) _)
    | scalar sep' lead' key' v' next' =>
      simp only [body, append_assoc] at h
      obtain ⟨hlabel, hval⟩ := Key.unique (v.starts _) (v'.starts _) h
      obtain ⟨rfl, hnext⟩ := Scalar.unique (next.stops_number r) (next'.stops_number r') hval
      obtain ⟨htrees, hr⟩ := ih.text_false hnext
      exact ⟨by rw [trees, trees, hlabel, htrees], hr⟩
    | sub sep' lead' key' k₂ =>
      simp only [body, append_assoc] at h
      obtain ⟨-, hval⟩ := Key.unique (v.starts _) (k₂.starts _) h
      exact absurd hval (v.text_ne_opening k₂ _ _)
  | sub sep lead key k₁ inner next ihi ihn =>
    cases s' with
    | nil =>
      rw [body, body, append_assoc] at h
      exact absurd h ((key.starts (k₁.starts _)).ne (hclosing _) _)
    | scalar sep' lead' key' v' =>
      simp only [body, append_assoc] at h
      obtain ⟨-, hval⟩ := Key.unique (k₁.starts _) (v'.starts _) h
      exact absurd hval.symm (v'.text_ne_opening k₁ _ _)
    | sub sep' lead' key' k₂ =>
      simp only [body, append_assoc, cons_append] at h
      obtain ⟨hlabel, hval⟩ := Key.unique (k₁.starts _) (k₂.starts _) h
      obtain ⟨hopen, hin⟩ := cons.inj hval
      cases Kind.opening_inj hopen
      obtain ⟨hinner, hnext⟩ := ihi.text_true hin
      obtain ⟨htrees, hr⟩ := ihn.text_false hnext
      exact ⟨by rw [trees, trees, hlabel, hinner, htrees], hr⟩

/-- **A text stands for one tree.** -/
theorem Value.tree_unique {v v' : Value} (h : v.text = v'.text) : v.tree = v'.tree := by
  cases v with
  | scalar v =>
    cases v' with
    | scalar v' =>
      have htext : v.text ++ [] = v'.text ++ [] := congrArg (· ++ []) h
      rw [(Scalar.unique (stops_nil _) (stops_nil _) htext).1]
    | sub k' items' =>
      have htext : v.text ++ [] = k'.opening :: items'.text true := by
        rw [append_nil]
        exact h
      exact absurd htext (v.text_ne_opening k' _ _)
  | sub k items =>
    cases v' with
    | scalar v' =>
      have htext : v'.text ++ [] = k.opening :: items.text true := by
        rw [append_nil]
        exact h.symm
      exact absurd htext (v'.text_ne_opening k _ _)
    | sub k' items' =>
      obtain ⟨hopen, hin⟩ := cons.inj h
      cases Kind.opening_inj hopen
      have htext : items.text true ++ [] = items'.text true ++ [] := congrArg (· ++ []) hin
      rw [Value.tree, Value.tree, (items.unique.text_true htext).1]

/-! ## The encoding -/

def IsUtf8 (bs : List UInt8) : Prop := ∃ cs : List Char, bs = cs.flatMap String.utf8EncodeChar

lemma isUtf8_nil : IsUtf8 [] := ⟨[], rfl⟩

lemma IsUtf8.append {bs'} (h : IsUtf8 bs) (h' : IsUtf8 bs') : IsUtf8 (bs ++ bs') := by
  obtain ⟨cs, rfl⟩ := h
  obtain ⟨cs', rfl⟩ := h'
  exact ⟨cs ++ cs', flatMap_append.symm⟩

lemma utf8EncodeChar_ofNat (h : b.toNat ≤ 127) :
    String.utf8EncodeChar (Char.ofNat b.toNat) = [b] := by
  have hval : (Char.ofNat b.toNat).val.toNat = b.toNat := by
    have hv : b.toNat.isValidChar := .inl (by omega)
    rw [Char.ofNat, dif_pos hv]
    rfl
  rw [String.utf8EncodeChar]
  simp [hval, if_pos h]

def isAscii (bs : List UInt8) : Bool := bs.all fun b => b.toNat ≤ 127

lemma isAscii_iff : isAscii bs ↔ ∀ b ∈ bs, b.toNat ≤ 127 := by simp [isAscii]

/-- Ascii text is UTF-8. -/
lemma isUtf8_ascii (h : isAscii bs) : IsUtf8 bs := by
  rw [isAscii_iff] at h
  induction bs with
  | nil => exact isUtf8_nil
  | cons b bs ih =>
    have hb : IsUtf8 [b] := ⟨[Char.ofNat b.toNat], by
      rw [flatMap_singleton, utf8EncodeChar_ofNat (h b mem_cons_self)]⟩
    exact hb.append (ih (forall_mem_cons.1 h).2)

lemma Hex.range (h : Hex) : (0x30 ≤ h.1.toNat ∧ h.1.toNat ≤ 0x39 ∧ h.val = h.1.toNat - 0x30) ∨
      (0x41 ≤ h.1.toNat ∧ h.1.toNat ≤ 0x66 ∧ h.1.toNat ≠ 0x5c ∧ 0 < h.val) := by
  have hv := h.val_eq
  unfold hexVal at hv
  simp only [Bool.and_eq_true, decide_eq_true_eq, UInt8.le_iff_toNat_le, UInt8.reduceToNat] at hv
  split at hv
  · exact .inl ⟨by omega, by omega, (Option.some.inj hv).symm⟩
  split at hv
  · have := Option.some.inj hv
    exact .inr ⟨by omega, by omega, by omega, by omega⟩
  split at hv
  · have := Option.some.inj hv
    exact .inr ⟨by omega, by omega, by omega, by omega⟩
  · cases hv

lemma Hex.toNat_le (h : Hex) : h.1.toNat ≤ 127 := by
  have := h.range
  omega

/-- A character is one ascii byte or several bytes over 127. -/
lemma utf8EncodeChar_cases (c : Char) : (∃ b, String.utf8EncodeChar c = [b] ∧ b.toNat ≤ 127) ∨
      ∀ b ∈ String.utf8EncodeChar c, 128 ≤ b.toNat := by
  by_cases h : c.val.toNat ≤ 127
  · refine .inl ⟨UInt8.ofNat c.val.toNat, ?_, ?_⟩
    · rw [String.utf8EncodeChar]
      exact if_pos h
    · rw [UInt8.toNat_ofNat', Nat.mod_eq_of_lt (by omega)]
      exact h
  refine .inr fun b hb => ?_
  simp only [String.utf8EncodeChar, if_neg h] at hb
  split at hb
  · simp only [mem_cons, not_mem_nil, or_false] at hb
    rcases hb with rfl | rfl <;> rw [UInt8.toNat_ofNat'] <;> omega
  split at hb
  · simp only [mem_cons, not_mem_nil, or_false] at hb
    rcases hb with rfl | rfl | rfl <;> rw [UInt8.toNat_ofNat'] <;> omega
  · simp only [mem_cons, not_mem_nil, or_false] at hb
    rcases hb with rfl | rfl | rfl | rfl <;> rw [UInt8.toNat_ofNat'] <;> omega

end LtpDdt.Json
