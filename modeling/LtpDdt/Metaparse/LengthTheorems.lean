/-
Metaparse.LengthTheorems — the length that `parse_get_array_len` computes
for an initializer. §0 bounds the counters, §1 cuts a C text into pieces and says
which tokens they become, §2 compares the count with the elements:
`parseGetArrayLen_iff`.
-/
import LtpDdt.Metaparse.TokenTheorems

namespace LtpDdt.Metaparse

open CTypes (isSpaceByte asc ascii cstr cstr_of_not_mem ok_bind bind_eq_ok)
open List LenState

variable {buf : List UInt8} {st : LenState}

/-! ## §0 The counters -/

section counters

variable {k : Int}

/-- A token moves the counters by at most one. -/
lemma LenState.read_within (h : (0 ≤ st.cnt ∧ st.cnt ≤ k) ∧ st.depth ≤ k) (token : List UInt8) :
    (0 ≤ (st.read token).cnt ∧ (st.read token).cnt ≤ k + 1) ∧ (st.read token).depth ≤ k + 1 := by
  simp only [LenState.read]
  split_ifs <;> dsimp only <;> omega

lemma getArrayLenLoop_le (n : Nat) {inp rest : List UInt8} {len : Int}
    (h : (0 ≤ st.cnt ∧ st.cnt ≤ k) ∧ st.depth ≤ k)
    (hlen : getArrayLenLoop n st inp = .ok (len, rest)) : 0 ≤ len ∧ len ≤ k + n + 1 := by
  induction n generalizing st k inp with
  | zero => cases hlen
  | succ n ih =>
    rw [getArrayLenLoop] at hlen
    obtain ⟨⟨token, inp'⟩, -, hlen⟩ := bind_eq_ok hlen
    cases token with
    | none =>
      cases hlen
      omega
    | some token =>
      have hread := read_within h token
      dsimp only at hlen
      split at hlen
      · cases hlen
        split <;> omega
      · have hrest := ih hread hlen
        omega

/-- The length is at most the number of bytes and two. -/
theorem parseGetArrayLen_le {inp rest : List UInt8} {len : Int}
    (h : parseGetArrayLen inp = .ok (len, rest)) : 0 ≤ len ∧ len ≤ inp.length + 2 := by
  rw [parseGetArrayLen] at h
  obtain ⟨⟨token, inp'⟩, htok, h⟩ := bind_eq_ok h
  have hle : inp'.length ≤ inp.length := by
    obtain ⟨r, hscan, hr⟩ := bind_eq_ok htok
    cases hr
    exact (scan_rest (by decide) _ inp none [] r (Nat.lt_succ_self _) hscan).1.length_le
  cases token with
  | none =>
    cases h
    omega
  | some token =>
    dsimp only at h
    split at h
    · cases h
      omega
    · have hlen := getArrayLenLoop_le (inp'.length + 1) ⟨⟨le_refl 0, le_refl 0⟩, le_refl 0⟩ h
      push_cast at hlen
      omega

end counters

/-! ## §1 Pieces of a C text -/

/-- A byte outside of literals, constants and comments; one of a character constant, with its
quotes; a comment; a string literal. -/
inductive Piece where
  | byte (c : UInt8)
  | inner (c : UInt8)
  | comment (text : List UInt8)
  | literal (content : List UInt8)
  deriving DecidableEq

variable {p : Piece}

def Piece.text : Piece → List UInt8
  | .byte c => [c]
  | .inner c => [c]
  | .comment text => text
  | .literal content => asc '"' :: (content ++ [asc '"'])

def written (ps : List Piece) : List UInt8 := ps.flatMap Piece.text

def StartsComment (text : List UInt8) : Prop :=
  text.head? = some (asc '/') ∨ text.head? = some (asc '*')

def IsComment (text : List UInt8) : Prop :=
  (∃ body, asc '\n' ∉ body ∧ text = asc '/' :: asc '/' :: (body ++ [asc '\n'])) ∨
    ∃ body, ¬ closing <:+: body ++ [asc '*'] ∧ text = asc '/' :: asc '*' :: (body ++ closing)

def IsText : List Piece → Prop
  | [] => True
  | .byte c :: ps =>
    c ≠ asc '"' ∧ c ≠ asc '\'' ∧ (c = asc '/' → ¬ StartsComment (written ps)) ∧ IsText ps
  | .inner _ :: ps => IsText ps
  | .comment text :: ps => IsComment text ∧ IsText ps
  | .literal content :: ps => IsLiteral content ∧ IsText ps

/-- The tokens that `parse_get_array_len` looks for. -/
def isMark (token : List UInt8) : Bool :=
  token == ascii "\x7b" || token == ascii "\x7d" || token == ascii ","

/-- The length of a word of `n` bytes behind a byte outside of a literal. -/
def wordLen (n : Nat) (c : UInt8) : Nat :=
  if isWord c then n + 1 else if isPunct c || isBlank c then 0 else n

/-- The lexer, behind `n` bytes of a word, makes of the pieces what C does: no word is too long,
the literals are read right and spell no mark, and the constants have no mark, quote or comment
in them. -/
def Readable : Nat → List Piece → Prop
  | _, [] => True
  | n, .byte c :: ps => wordLen n c ≤ 4095 ∧ Readable (wordLen n c) ps
  | n, .inner c :: ps =>
    isMark [c] = false ∧ c ≠ asc '"' ∧ (c = asc '/' → ¬ StartsComment (written ps)) ∧
      wordLen n c ≤ 4095 ∧ Readable (wordLen n c) ps
  | n, .comment _ :: ps => Readable n ps
  | n, .literal content :: ps =>
    n + content.length ≤ 4095 ∧ (0 : UInt8) ∉ content ∧ content.getLast? ≠ some (asc '\\') ∧
      (n = 0 → isMark content = false) ∧ Readable 0 ps

/-! ### Tokens of the pieces -/

def flush (buf : List UInt8) : List (List UInt8) := if buf = [] then [] else [buf]

/-- The tokens that end with a byte, and the word it leaves. -/
def lexByte (buf : List UInt8) (c : UInt8) : List (List UInt8) × List UInt8 :=
  if isPunct c then (flush buf ++ [[c]], [])
  else if isWord c then ([], buf ++ [c])
  else if isBlank c then (flush buf, [])
  else ([], buf)

def Piece.lex (buf : List UInt8) : Piece → List (List UInt8) × List UInt8
  | .byte c => lexByte buf c
  | .inner c => lexByte buf c
  | .comment _ => ([], buf)
  | .literal content => ([buf ++ content], [])

def lexAll (buf : List UInt8) : List Piece → List (List UInt8) × List UInt8
  | [] => ([], buf)
  | p :: ps => ((p.lex buf).1 ++ (lexAll (p.lex buf).2 ps).1, (lexAll (p.lex buf).2 ps).2)

lemma lexAll_append (buf : List UInt8) (ps qs : List Piece) : lexAll buf (ps ++ qs) =
    ((lexAll buf ps).1 ++ (lexAll (lexAll buf ps).2 qs).1, (lexAll (lexAll buf ps).2 qs).2) := by
  induction ps generalizing buf with
  | nil => rfl
  | cons p ps ih => rw [cons_append, lexAll, lexAll, ih, append_assoc]

def IsPart (buf : List UInt8) : Prop := ∀ c ∈ buf, isWord c = true

/-- The word that is kept stays a word. -/
lemma lexByte_part (h : IsPart buf) (c : UInt8) : IsPart (lexByte buf c).2 := by
  rw [lexByte]
  split
  · exact nofun
  split
  · rename_i hc
    exact forall_mem_append.2 ⟨h, forall_mem_singleton.2 hc⟩
  split
  · exact nofun
  · exact h

lemma lexByte_length (buf : List UInt8) (c : UInt8) :
    (lexByte buf c).2.length = wordLen buf.length c := by
  rw [lexByte, wordLen]
  cases hp : isPunct c with
  | true =>
    have hw : isWord c = false := by
      cases hw : isWord c with
      | false => rfl
      | true => rw [isPunct_of_isWord hw] at hp; cases hp
    rw [hw]
    rfl
  | false =>
    cases isWord c with
    | true => exact length_append
    | false => cases isBlank c <;> rfl

variable {w rest : List UInt8} {bufLen : Nat} {gap : List Piece}

lemma backslashes_append (h : asc '\\' ∉ w) (s : List UInt8) :
    backslashes (w ++ s) = backslashes s := by
  have hnil : w.reverse.takeWhile (· == asc '\\') = [] := by
    refine takeWhile_eq_nil_iff.2 fun hlen => ?_
    have hmem := mem_reverse.1 (getElem_mem hlen)
    simpa using ne_of_mem_of_not_mem hmem h
  rw [backslashes, backslashes, reverse_append, takeWhile_append]
  split
  · rename_i hall
    rw [hnil, append_nil, hall]
  · rfl

lemma isWord_ne_backslash {c} (h : isWord c) : c ≠ asc '\\' := by
  rintro rfl
  cases h

lemma isWord_ne_quote {c} (h : isWord c) : c ≠ asc '"' := by
  rintro rfl
  cases h

lemma IsLiteral.part_append {s} (hs : IsLiteral s) (hw : IsPart w) : IsLiteral (w ++ s) := by
  have hback : asc '\\' ∉ w := fun h => isWord_ne_backslash (hw _ h) rfl
  refine ⟨fun pre post heq => ?_, ?_⟩
  · rcases append_eq_append_iff.1 heq with ⟨pre', rfl, hs'⟩ | ⟨post', rfl, hpost⟩
    · rw [backslashes_append hback]
      exact hs.inner pre' post hs'
    cases post' with
    | nil => exact absurd (hs.inner [] post (by simpa using hpost.symm)) (by decide)
    | cons =>
      obtain ⟨rfl, -⟩ := cons.inj hpost
      exact absurd rfl (isWord_ne_quote (hw _ (by simp)))
  · rw [backslashes_append hback]
    exact hs.closed

def EndsPunct (ps : List Piece) : Prop := ∃ init c, isPunct c = true ∧ ps = init ++ [.byte c]

lemma EndsPunct.tail {ps} (h : EndsPunct (p :: ps)) :
    (ps = [] ∧ ∃ c, isPunct c ∧ p = .byte c) ∨ EndsPunct ps := by
  obtain ⟨init, c, hc, heq⟩ := h
  cases init with
  | nil =>
    obtain ⟨rfl, rfl⟩ := cons.inj heq
    exact .inl ⟨rfl, c, hc, rfl⟩
  | cons q init => exact .inr ⟨init, c, hc, (cons.inj heq).2⟩

lemma IsPart.cstr_eq (h : IsPart buf) : cstr buf = buf :=
  cstr_of_not_mem fun h0 => isWord_ne_zero (h 0 h0) rfl

/-- A `/` that starts no comment is dropped. -/
lemma scan_division {inp} (h : ¬ StartsComment inp) :
    scan bufLen none false buf (asc '/' :: inp) = scan bufLen none false buf inp := by
  rw [scan_slash]
  cases inp with
  | nil => rfl
  | cons =>
    rw [StartsComment, not_or, head?_cons, Option.some_inj, Option.some_inj] at h
    rw [maybeComment, if_neg h.1, if_neg h.2]
    rfl

/-- A comment is dropped. -/
lemma scan_comment {text} (h : IsComment text) (buf rest : List UInt8) :
    scan bufLen none false buf (text ++ rest) = scan bufLen none false buf rest := by
  rcases h with ⟨_, hbody, rfl⟩ | ⟨_, hbody, rfl⟩
  · simpa using scan_line hbody buf rest
  · simpa using scan_block hbody buf rest

/-- What `ps` become behind the word part `buf`: the first token comes from the running scan, the
others from the next calls. -/
def Delivers (rest buf : List UInt8) (ps : List Piece) : Prop :=
  ∃ t ts mid, (lexAll buf ps).1 = t :: ts ∧
    scan 4095 none false buf (written ps ++ rest) = .ok (some t, mid, none) ∧ Toks mid ts rest

def Continues (rest : List UInt8) (ps : List Piece) : Prop :=
  Toks (written ps ++ rest) (lexAll [] ps).1 rest

lemma Delivers.continues {ps} (h : Delivers rest [] ps) : Continues rest ps := by
  obtain ⟨t, _, _, heq, hscan, htoks⟩ := h
  rw [Continues, heq]
  exact .cons (nextTok_of_scan hscan) htoks

lemma written_cons (p : Piece) (ps : List Piece) : written (p :: ps) = p.text ++ written ps :=
  flatMap_cons

lemma not_startsComment_append {ps} (hend : EndsPunct ps) (h : ¬ StartsComment (written ps)) :
    ¬ StartsComment (written ps ++ rest) := by
  have hne : written ps ≠ [] := by
    obtain ⟨_, c, -, rfl⟩ := hend
    rw [written, flatMap_append]
    exact append_ne_nil_of_right_ne_nil _ (cons_ne_nil _ _)
  rwa [StartsComment, head?_append_of_ne_nil _ hne]

section delivers

variable {rest buf : List UInt8} {ps : List Piece} {c : UInt8}

/-- A byte of the text is delivered. -/
lemma delivers_byte (htext : p.text = [c]) (hlex : ∀ buf, p.lex buf = lexByte buf c)
    (hbuf : IsPart buf) (hquote : c ≠ asc '"')
    (hslash : c = asc '/' → ¬ StartsComment (written ps ++ rest))
    (hlen : wordLen buf.length c ≤ 4095)
    (hnext : isPunct c ∨ EndsPunct ps)
    (hcont : wordLen buf.length c = 0 → Continues rest ps)
    (ih : ∀ buf', IsPart buf' → buf'.length = wordLen buf.length c → EndsPunct ps →
      Delivers rest buf' ps) : Delivers rest buf (p :: ps) := by
  have hpart := lexByte_part hbuf c
  have hlength := lexByte_length buf c
  -- the byte is only added to the word, or not looked at
  have hstay : isPunct c = false → (lexByte buf c).1 = [] →
      scan 4095 none false buf (c :: (written ps ++ rest)) =
        scan 4095 none false (lexByte buf c).2 (written ps ++ rest) →
      Delivers rest buf (p :: ps) := by
    intro hp hnil hscan
    have hend := hnext.resolve_left (by rw [hp]; exact Bool.false_ne_true)
    obtain ⟨t, ts, mid, heq, hscan', htoks⟩ := ih _ hpart hlength hend
    refine ⟨t, ts, mid, ?_, ?_, htoks⟩
    · rw [lexAll, hlex, hnil, nil_append, heq]
    · rw [written_cons, htext, append_assoc, singleton_append, hscan, hscan']
  have hexit : ∀ inp, buf ≠ [] → tokenExit false buf inp none = (some buf, inp, none) := by
    intro _ hne
    rw [tokenExit, if_neg (fun h => hne h.1), hbuf.cstr_eq]
  rcases byte_cases c with hp | ⟨hp, hw⟩ | rfl | rfl | hb | ho
  · -- punctuation
    have htail := hcont (by rw [← hlength, lexByte, if_pos hp]; rfl)
    have htok := nextTok_punct .nil hp (written ps ++ rest)
    have heq : (lexAll buf (p :: ps)).1 = flush buf ++ [c] :: (lexAll [] ps).1 := by
      rw [lexAll, hlex, lexByte, if_pos hp, append_assoc, singleton_append]
    rw [Delivers, heq, written_cons, htext, append_assoc, singleton_append]
    by_cases hne : buf = []
    · subst hne
      refine ⟨[c], _, written ps ++ rest, rfl, ?_, htail⟩
      have hc0 : c ≠ 0 := by
        rintro rfl
        cases hp
      rw [scan_punct hp, if_neg (not_not_intro rfl), if_pos (by decide), tokenExit,
        if_neg (fun h => cons_ne_nil _ _ h.1), cstr_of_not_mem]
      simpa using Ne.symm hc0
    · refine ⟨buf, [c] :: (lexAll [] ps).1, c :: (written ps ++ rest), ?_, ?_, .cons htok htail⟩
      · rw [flush, if_neg hne]
        rfl
      · rw [scan_punct hp, if_pos hne, hexit _ hne]
  · have hroom : buf.length < 4095 := by
      rw [wordLen, if_pos hw] at hlen
      omega
    have hbyte : lexByte buf c = ([], buf ++ [c]) := by
      rw [lexByte, hp, if_neg Bool.false_ne_true, if_pos hw]
    refine hstay hp (by rw [hbyte]) ?_
    rw [scan_word hp hw, if_pos hroom, hbyte]
  · exact hstay rfl rfl (scan_division (hslash rfl))
  · exact absurd rfl hquote
  · -- a blank ends the word
    have hp : isPunct c = false := by rcases isBlank_iff.1 hb with rfl | rfl | rfl <;> rfl
    have hw : isWord c = false := by rcases isBlank_iff.1 hb with rfl | rfl | rfl <;> rfl
    have hbyte : lexByte buf c = (flush buf, []) := by
      rw [lexByte, hp, hw, if_neg Bool.false_ne_true, if_neg Bool.false_ne_true, if_pos hb]
    by_cases hne : buf = []
    · subst hne
      refine hstay hp (by rw [hbyte]; rfl) ?_
      rw [scan_blank hb, if_neg (not_not_intro rfl), hbyte]
    refine ⟨buf, (lexAll [] ps).1, written ps ++ rest, ?_, ?_,
      hcont (by rw [← hlength, hbyte]; rfl)⟩
    · rw [lexAll, hlex, hbyte, flush, if_neg hne]
      rfl
    · rw [written_cons, htext, append_assoc, singleton_append, scan_blank hb,
        if_pos hne, hexit _ hne]
  · have hbyte : lexByte buf c = ([], buf) := by
      have ho' := ho
      simp only [isOther, Bool.not_eq_true', Bool.or_eq_false_iff] at ho'
      rw [lexByte, ho'.1.1.1.1, ho'.1.1.1.2, ho'.1.1.2]
      rfl
    have hp : isPunct c = false := by
      simp only [isOther, Bool.not_eq_true', Bool.or_eq_false_iff] at ho
      exact ho.1.1.1.1
    refine hstay hp (by rw [hbyte]) ?_
    rw [scan_other ho, hbyte]

/-- A string literal is delivered. -/
lemma delivers_literal {content : List UInt8} (hbuf : IsPart buf) (hlit : IsLiteral content)
    (hlen : buf.length + content.length ≤ 4095) (hnul : (0 : UInt8) ∉ content)
    (hlast : content.getLast? ≠ some (asc '\\')) (hcont : Continues rest ps) :
    Delivers rest buf (.literal content :: ps) := by
  refine ⟨buf ++ content, (lexAll [] ps).1, written ps ++ rest, rfl, ?_, hcont⟩
  have htext : written (.literal content :: ps) ++ rest =
      asc '"' :: (content ++ asc '"' :: (written ps ++ rest)) := by
    simp [written_cons, Piece.text]
  have hend : (buf ++ content).getLast? ≠ some (asc '\\') := by
    cases hc : content.getLast? with
    | none =>
      rw [getLast?_eq_none_iff.1 hc, append_nil]
      exact fun h => isWord_ne_backslash (hbuf _ (mem_of_getLast? h)) rfl
    | some =>
      rw [getLast?_append, hc]
      rwa [hc] at hlast
  have hzero : (0 : UInt8) ∉ buf ++ content := by
    rw [mem_append, not_or]
    exact ⟨fun h0 => isWord_ne_zero (hbuf 0 h0) rfl, hnul⟩
  rw [htext, scan_quote, scan_inside (hlit.part_append hbuf) _ content buf rfl
    (by rw [length_append]; exact hlen), scan_str, if_pos ⟨rfl, hend⟩, tokenExit_str,
    cstr_of_not_mem hzero]

end delivers

/-- **The lexer delivers the pieces of a text.** -/
lemma delivers (rest : List UInt8) : ∀ {ps} {buf : List UInt8}, IsPart buf →
    IsText ps → Readable buf.length ps → EndsPunct ps → Delivers rest buf ps
  | [], _, _, _, _, hend => by
    obtain ⟨_, c, -, heq⟩ := hend
    exact absurd heq.symm (append_ne_nil_of_right_ne_nil _ (cons_ne_nil _ _))
  | p :: ps, buf, hbuf, htext, hread, hend => by
    -- the pieces behind a token
    have hcont : IsText ps → Readable 0 ps → Continues rest ps := by
      intro htext hread
      rcases hend.tail with ⟨rfl, -⟩ | hend
      · exact .nil
      · exact (delivers rest (forall_mem_nil _) htext hread hend).continues
    have hbyte : ∀ c, p.text = [c] → (∀ buf, p.lex buf = lexByte buf c) → IsText ps →
        c ≠ asc '"' → (c = asc '/' → ¬ StartsComment (written ps)) →
        wordLen buf.length c ≤ 4095 → Readable (wordLen buf.length c) ps →
        isPunct c ∨ EndsPunct ps → Delivers rest buf (p :: ps) := by
      intro c hptext hlex htext hquote hslash hlen hread hnext
      refine delivers_byte hptext hlex hbuf hquote ?_ hlen hnext ?_ ?_
      · rintro rfl
        exact not_startsComment_append (hnext.resolve_left (by decide)) (hslash rfl)
      · exact fun hzero => hcont htext (hzero ▸ hread)
      · intro _ hbuf' hlen' hend
        exact delivers rest hbuf' htext (hlen' ▸ hread) hend
    match p with
    | .byte c =>
      obtain ⟨hquote, -, hslash, htext⟩ := htext
      obtain ⟨hlen, hread⟩ := hread
      refine hbyte c rfl (fun _ => rfl) htext hquote hslash hlen hread ?_
      rcases hend.tail with ⟨-, d, hd, heq⟩ | hend
      · cases heq
        exact .inl hd
      · exact .inr hend
    | .inner c =>
      obtain ⟨-, hquote, hslash, hlen, hread⟩ := hread
      refine hbyte c rfl (fun _ => rfl) htext hquote hslash hlen hread ?_
      rcases hend.tail with ⟨-, d, -, heq⟩ | hend
      · cases heq
      · exact .inr hend
    | .comment text =>
      rcases hend.tail with ⟨-, d, -, heq⟩ | hend
      · cases heq
      obtain ⟨t, ts, mid, heq, hscan, htoks⟩ := delivers rest hbuf htext.2 hread hend
      refine ⟨t, ts, mid, heq, ?_, htoks⟩
      rw [written_cons, append_assoc, Piece.text, scan_comment htext.1, hscan]
    | .literal content =>
      obtain ⟨hlen, hnul, hlast, -, hread⟩ := hread
      exact delivers_literal hbuf htext.1 hlen hnul hlast (hcont htext.2 hread)

/-! ## §2 The count -/

/-- A token that is no mark only clears the flag. -/
lemma LenState.read_plain (st : LenState) {t} (h : isMark t = false) :
    st.read t = { st with prevComma := false } := by
  simp only [isMark, Bool.or_eq_false_iff, beq_eq_false_iff_ne] at h
  obtain ⟨⟨hopen, hclose⟩, hcomma⟩ := h
  rw [read]
  rw [if_neg hopen, if_neg hclose, if_neg (fun h => hcomma h.1)]

lemma LenState.read_close (st : LenState) :
    st.read (ascii "\x7d") = { st with depth := st.depth - 1 } := rfl

lemma LenState.read_comma (st : LenState) : st.read (ascii ",") =
    if st.depth = 0 then ⟨st.cnt + 1, st.depth, true⟩ else { st with prevComma := false } := by
  have hopen : ascii "," ≠ ascii "\x7b" := by decide
  have hclose : ascii "," ≠ ascii "\x7d" := by decide
  rw [read, if_neg hopen, if_neg hclose]
  by_cases h : st.depth = 0
  · rw [if_pos ⟨rfl, h⟩, if_pos h]
  · rw [if_neg (fun h' => h h'.2), if_neg h]

def Stays {α : Type} (read : LenState → α → LenState) : LenState → List α → Prop
  | _, [] => True
  | st, a :: as => 0 ≤ (read st a).depth ∧ Stays read (read st a) as

lemma stays_append {α} {read : LenState → α → LenState} {as bs : List α} : ∀ {st},
    Stays read st (as ++ bs) ↔ Stays read st as ∧ Stays read (as.foldl read st) bs  := by
  induction as with
  | nil => exact (iff_of_eq (true_and _)).symm
  | cons a as ih =>
    intro _
    rw [cons_append, Stays, Stays, ih, foldl_cons, and_assoc]

/-- The loop reads on while it stays inside the array. -/
lemma getArrayLenLoop_stays {mid : List UInt8} {ts : List (List UInt8)} : ∀ {st}
    {inp : List UInt8} {n}, Toks inp ts mid → Stays read st ts → inp.length < n →
    ∃ m, mid.length < m ∧ getArrayLenLoop n st inp = getArrayLenLoop m (ts.foldl read st) mid  := by
  induction ts with
  | nil =>
    intro _ _ n htoks _ hn
    cases htoks
    exact ⟨n, hn, rfl⟩
  | cons t ts ih =>
    intro _ _ n htoks hstay _
    obtain ⟨inp', htok, htoks', _⟩ := htoks.uncons
    rcases n with _ | k
    · omega
    obtain ⟨m, hm, heq⟩ := ih htoks' hstay.2 (show inp'.length < k by omega)
    refine ⟨m, hm, ?_⟩
    rw [foldl_cons, ← heq, getArrayLenLoop, htok, ok_bind]
    dsimp only
    rw [if_neg (Int.not_lt.2 hstay.1)]

/-! ### Counting on the pieces -/

def Piece.visible : Piece → Bool
  | .byte c | .inner c => isPunct c || isWord c
  | .comment _ => false
  | .literal _ => true

/-- `LenState.read` on a piece, as if the word before it had ended. -/
def LenState.readPiece (st : LenState) (p : Piece) : LenState :=
  if p = .byte (asc '\x7b') then ⟨st.cnt, st.depth + 1, false⟩
  else if p = .byte (asc '\x7d') then { st with depth := st.depth - 1 }
  else if p = .byte (asc ',') then
    if st.depth = 0 then ⟨st.cnt + 1, st.depth, true⟩ else { st with prevComma := false }
  else { st with prevComma := st.prevComma && !p.visible }

/-- The state when the stored part of a word has become a token. -/
def LenState.flushed (st : LenState) (buf : List UInt8) : LenState :=
  { st with prevComma := st.prevComma && buf.isEmpty }

lemma LenState.flushed_nil (st : LenState) : st.flushed [] = st := by
  rw [flushed, isEmpty_nil, Bool.and_true]

lemma LenState.flushed_cons (st : LenState) (h : buf ≠ []) :
    st.flushed buf = { st with prevComma := false } := by
  rw [flushed, isEmpty_eq_false_iff.2 h, Bool.and_false]

lemma isMark_part (h : IsPart buf) (hne : buf ≠ []) (content : List UInt8) :
    isMark (buf ++ content) = false := by
  obtain ⟨c, buf, rfl⟩ := exists_cons_of_ne_nil hne
  have hc := h c mem_cons_self
  have hmark : ∀ d, isWord d = false → (c :: buf ++ content == [d]) = false := by
    intro d hd
    refine beq_eq_false_iff_ne.2 fun heq => ?_
    rw [(cons.inj heq).1, hd] at hc
    cases hc
  rw [isMark, Bool.or_eq_false_iff, Bool.or_eq_false_iff]
  exact ⟨⟨hmark _ rfl, hmark _ rfl⟩, hmark _ rfl⟩

lemma foldl_flush (st : LenState) (h : IsPart buf) :
    (flush buf).foldl read st = st.flushed buf := by
  by_cases hne : buf = []
  · rw [flush, hne, flushed_nil]
    rfl
  have hmark : isMark buf = false := by simpa using isMark_part h hne []
  rw [flush, if_neg hne, flushed_cons _ hne, foldl_cons, foldl_nil, read_plain _ hmark]

lemma stays_flush (hst : 0 ≤ st.depth) (h : IsPart buf) : Stays read st (flush buf) := by
  by_cases hne : buf = []
  · rw [flush, if_pos hne]
    exact trivial
  have hmark : isMark buf = false := by simpa using isMark_part h hne []
  rw [flush, if_neg hne]
  exact ⟨by rwa [read_plain _ hmark], trivial⟩

/-- The tokens of a piece move the state as the piece does. -/
structure Simulates (st : LenState) (buf : List UInt8) (p : Piece) : Prop where
  state : ((p.lex buf).1.foldl LenState.read st).flushed (p.lex buf).2 =
    (st.flushed buf).readPiece p
  stays : 0 ≤ ((st.flushed buf).readPiece p).depth → Stays LenState.read st (p.lex buf).1

/-- A mark of punctuation is read as its piece. -/
lemma simulates_punct (hst : 0 ≤ st.depth) (hbuf : IsPart buf) {c}
    (hlex : p.lex buf = (flush buf ++ [[c]], []))
    (hread : (st.flushed buf).read [c] = (st.flushed buf).readPiece p) : Simulates st buf p := by
  constructor
  · rw [hlex, foldl_append, foldl_flush st hbuf, flushed_nil, foldl_cons, foldl_nil, hread]
  intro _
  rw [hlex, stays_append, foldl_flush st hbuf]
  exact ⟨stays_flush hst hbuf, by rwa [hread], trivial⟩

/-- Any other byte is read as its piece. -/
lemma simulates_byte (hst : 0 ≤ st.depth) (hbuf : IsPart buf) {c : UInt8}
    (hlex : p.lex buf = lexByte buf c)
    (hvis : p.visible = (isPunct c || isWord c)) (hmark : isMark [c] = false)
    (hread : ∀ st : LenState, st.readPiece p =
      { st with prevComma := st.prevComma && !p.visible }) :
    Simulates st buf p := by
  cases hp : isPunct c with
  | true =>
    rw [lexByte, if_pos hp] at hlex
    refine simulates_punct hst hbuf hlex ?_
    rw [read_plain _ hmark, hread, hvis, hp, Bool.true_or, Bool.not_true, Bool.and_false]
  | false =>
    rw [lexByte, hp, if_neg Bool.false_ne_true] at hlex
    rw [hp, Bool.false_or] at hvis
    cases hw : isWord c with
    | true =>
      rw [if_pos hw] at hlex
      refine ⟨?_, fun _ => by rw [hlex]; exact trivial⟩
      rw [hlex, hread, hvis, hw, Bool.not_true, Bool.and_false,
        flushed_cons _ (append_ne_nil_of_right_ne_nil _ (cons_ne_nil _ _))]
      rfl
    | false =>
      rw [hw, if_neg Bool.false_ne_true] at hlex
      have hsame : (st.flushed buf).readPiece p = st.flushed buf := by
        rw [hread, hvis, hw, Bool.not_false, Bool.and_true]
      cases hb : isBlank c with
      | true =>
        rw [if_pos hb] at hlex
        refine ⟨?_, fun _ => by rw [hlex]; exact stays_flush hst hbuf⟩
        rw [hlex, hsame, foldl_flush st hbuf, flushed_nil]
      | false =>
        rw [hb, if_neg Bool.false_ne_true] at hlex
        refine ⟨?_, fun _ => by rw [hlex]; exact trivial⟩
        rw [hlex, hsame, foldl_nil]

lemma LenState.readPiece_plain (st : LenState) (h : ∀ c, p = .byte c → isMark [c] = false) :
    st.readPiece p = { st with prevComma := st.prevComma && !p.visible } := by
  have hne : ∀ c, isMark [c] → p ≠ .byte c := by
    rintro c hc rfl
    rw [h c rfl] at hc
    cases hc
  rw [readPiece, if_neg (hne _ rfl), if_neg (hne _ rfl), if_neg (hne _ rfl)]

/-- **One piece: tokens and pieces count alike.** -/
lemma simulates (hst : 0 ≤ st.depth) (hbuf : IsPart buf) {ps}
    (hread : Readable buf.length (p :: ps)) : Simulates st buf p := by
  match p with
  | .byte c =>
    by_cases hmark : isMark [c]
    · have hpunct : isPunct c → (Piece.byte c).lex buf = (flush buf ++ [[c]], []) := by
        intro hc
        rw [Piece.lex, lexByte, if_pos hc]
      simp only [isMark, Bool.or_eq_true, beq_iff_eq] at hmark
      rcases hmark with (hc | hc) | hc <;> obtain ⟨rfl, -⟩ := cons.inj hc
      · exact simulates_punct hst hbuf (hpunct rfl) rfl
      · exact simulates_punct hst hbuf (hpunct rfl) rfl
      · exact simulates_punct hst hbuf (hpunct rfl) (read_comma _)
    · have hmark := Bool.eq_false_iff.2 hmark
      refine simulates_byte hst hbuf rfl rfl hmark fun st => st.readPiece_plain ?_
      rintro d hd
      cases hd
      exact hmark
  | .inner c =>
    exact simulates_byte hst hbuf rfl rfl hread.1 fun st => st.readPiece_plain fun _ => nofun
  | .comment text =>
    refine ⟨?_, fun _ => trivial⟩
    rw [readPiece_plain (p := .comment text) _ fun _ => nofun, Piece.visible,
      Bool.not_false, Bool.and_true]
    rfl
  | .literal content =>
    obtain ⟨-, -, -, hspell, -⟩ := hread
    have hmark : isMark (buf ++ content) = false := by
      by_cases hne : buf = []
      · subst hne
        exact hspell rfl
      · exact isMark_part hbuf hne content
    have hread : st.read (buf ++ content) = { st with prevComma := false } := st.read_plain hmark
    refine ⟨?_, fun _ => ⟨?_, trivial⟩⟩
    · rw [readPiece_plain (p := .literal content) _ fun _ => nofun, Piece.visible,
        Bool.not_true, Bool.and_false, Piece.lex, foldl_cons, hread]
      rfl
    · rwa [hread]

lemma Readable.tail {ps} (h : Readable buf.length (p :: ps)) :
    Readable (p.lex buf).2.length ps := by
  match p with
  | .byte c => exact lexByte_length buf c ▸ h.2
  | .inner c => exact lexByte_length buf c ▸ h.2.2.2.2
  | .comment text => exact h
  | .literal content => exact h.2.2.2.2

lemma IsPart.lex (h : IsPart buf) (p : Piece) : IsPart (p.lex buf).2 := by
  match p with
  | .byte c => exact lexByte_part h c
  | .inner c => exact lexByte_part h c
  | .comment text => exact h
  | .literal content => exact forall_mem_nil _

/-- **A run of pieces: tokens and pieces count alike.** -/
lemma simulates_all : ∀ {ps qs : List Piece} {st : LenState} {buf : List UInt8}, 0 ≤ st.depth →
    IsPart buf → Readable buf.length (ps ++ qs) →
    Stays readPiece (st.flushed buf) ps →
    ((lexAll buf ps).1.foldl read st).flushed (lexAll buf ps).2 =
        ps.foldl readPiece (st.flushed buf) ∧
      Stays read st (lexAll buf ps).1 ∧ IsPart (lexAll buf ps).2
  | [], _, _, _, _, hbuf, _, _ => ⟨rfl, trivial, hbuf⟩
  | p :: ps, qs, st, buf, hst, hbuf, hread, hstay => by
    have hsim := simulates hst hbuf hread
    have hdepth : 0 ≤ ((p.lex buf).1.foldl read st).depth := by
      have := hstay.1
      rw [← hsim.state] at this
      exact this
    have hstay' := hstay.2
    rw [← hsim.state] at hstay'
    obtain ⟨hstate, hstays, hpart⟩ := simulates_all hdepth (hbuf.lex p) (hread.tail) hstay'
    rw [lexAll, foldl_append, foldl_cons, stays_append, ← hsim.state]
    exact ⟨hstate, ⟨hsim.stays hstay.1, hstays⟩, hpart⟩

/-! ### Elements -/

/-- The text between the quotes of a character constant. -/
structure IsConstant (content : List UInt8) : Prop where
  nonempty : content ≠ []
  inner : ∀ pre post, content = pre ++ asc '\'' :: post → backslashes pre % 2 = 1
  closed : backslashes content % 2 = 0

def constant (content : List UInt8) : List Piece :=
  (asc '\'' :: (content ++ [asc '\''])).map .inner

def brackets : List (UInt8 × UInt8) :=
  [(asc '\x7b', asc '\x7d'), (asc '(', asc ')'), (asc '[', asc ']')]

def isPlain (c : UInt8) : Bool := c != asc ',' && brackets.all fun b => c != b.1 && c != b.2

/-- Pieces in which the brackets match. A comma outside of them needs `commas`. -/
inductive Nested : Bool → List Piece → Prop where
  | nil {commas} : Nested commas []
  | byte {commas c ps} : isPlain c = true → Nested commas ps → Nested commas (.byte c :: ps)
  | constant {commas content ps} : IsConstant content → Nested commas ps →
      Nested commas (constant content ++ ps)
  | comment {commas text ps} : Nested commas ps → Nested commas (.comment text :: ps)
  | literal {commas content ps} : Nested commas ps → Nested commas (.literal content :: ps)
  | comma {ps} : Nested true ps → Nested true (.byte (asc ',') :: ps)
  | group {commas b inside ps} : b ∈ brackets → Nested true inside → Nested commas ps →
      Nested commas (.byte b.1 :: (inside ++ .byte b.2 :: ps))

def bareCommas : Int → List Piece → Nat
  | _, [] => 0
  | d, p :: ps =>
    if p = .byte (asc '\x7b') then bareCommas (d + 1) ps
    else if p = .byte (asc '\x7d') then bareCommas (d - 1) ps
    else if p = .byte (asc ',') ∧ d = 0 then bareCommas d ps + 1
    else bareCommas d ps

/-- An element: one initializer, with something in it that the lexer sees. -/
structure IsElement (ps : List Piece) : Prop where
  nested : Nested false ps
  seen : ∃ p ∈ ps, p.visible = true

/-- What a text adds to the count is its bare commas. -/
lemma foldl_cnt : ∀ (ps : List Piece) (st : LenState),
    (ps.foldl readPiece st).cnt = st.cnt + bareCommas st.depth ps
  | [], st => (Int.add_zero _).symm
  | p :: ps, st => by
    rw [foldl_cons, foldl_cnt ps, bareCommas]
    by_cases hopen : p = .byte (asc '\x7b')
    · rw [if_pos hopen, readPiece, if_pos hopen]
    by_cases hclose : p = .byte (asc '\x7d')
    · rw [if_neg hopen, if_pos hclose, readPiece, if_neg hopen, if_pos hclose]
    rw [if_neg hopen, if_neg hclose, readPiece, if_neg hopen, if_neg hclose]
    by_cases hcomma : p = .byte (asc ',')
    · rw [if_pos hcomma]
      by_cases hd : st.depth = 0
      · rw [if_pos hd, if_pos ⟨hcomma, hd⟩]
        dsimp only
        push_cast
        omega
      · rw [if_neg hd, if_neg (fun h => hd h.2)]
    · rw [if_neg hcomma, if_neg (fun h => hcomma h.1)]

/-- What pieces do inside of the braces: the depth is the same again, and a comma is remembered only
if it was before or the pieces may end with one. -/
structure Keeps (closed : Prop) (st : LenState) (ps : List Piece) : Prop where
  stays : Stays LenState.readPiece st ps
  depth : (ps.foldl LenState.readPiece st).depth = st.depth
  comma : closed → (ps.foldl LenState.readPiece st).prevComma = true →
    st.prevComma = true ∧ ∀ p ∈ ps, p.visible = false

section keeps

variable {closed : Prop} {st : LenState} {ps : List Piece}

lemma Keeps.nil : Keeps closed st [] := ⟨trivial, rfl, fun _ h => ⟨h, forall_mem_nil _⟩⟩

lemma Keeps.cons_plain (hst : 0 ≤ st.depth) (hp : ∀ c, p = .byte c → isMark [c] = false)
    (h : Keeps closed { st with prevComma := st.prevComma && !p.visible } ps) :
    Keeps closed st (p :: ps) := by
  have hread := st.readPiece_plain hp
  rw [← hread] at h
  refine ⟨⟨?_, h.stays⟩, ?_, fun hclosed hcomma => ?_⟩
  · rwa [hread]
  · rw [foldl_cons, h.depth, hread]
  obtain ⟨hprev, hps⟩ := h.comma hclosed hcomma
  rw [hread, Bool.and_eq_true, Bool.not_eq_true'] at hprev
  exact ⟨hprev.1, forall_mem_cons.2 ⟨hprev.2, hps⟩⟩

lemma Keeps.inner {d} (hd : 0 ≤ d) (h : ∀ st, st.depth = d → Keeps closed st ps) :
    ∀ (content : List UInt8) (st : LenState), st.depth = d →
    Keeps closed st (content.map .inner ++ ps)
  | [], st, hst => h st hst
  | _ :: content, st, hst => by
    rw [map_cons]
    refine .cons_plain (by rwa [hst]) (fun _ => nofun) (Keeps.inner hd h content _ hst)

/-- What stands between brackets comes back to its depth. -/
lemma Keeps.group {o c} {inside : List Piece} (ho : 0 ≤ (st.readPiece o).depth)
    (hin : Stays readPiece (st.readPiece o) inside) {st' : LenState}
    (hst' : (inside.foldl readPiece (st.readPiece o)).readPiece c = st')
    (hst : 0 ≤ st.depth) (hdepth : st'.depth = st.depth) (hprev : st'.prevComma = false)
    (h : Keeps closed st' ps) : Keeps closed st (o :: (inside ++ c :: ps)) := by
  refine ⟨⟨ho, stays_append.2 ⟨hin, ?_, ?_⟩⟩, ?_, fun hclosed hcomma => ?_⟩
  · rwa [hst', hdepth]
  · rw [hst']
    exact h.stays
  · rw [foldl_cons, foldl_append, foldl_cons, hst', h.depth, hdepth]
  rw [foldl_cons, foldl_append, foldl_cons, hst'] at hcomma
  have := (h.comma hclosed hcomma).1
  rw [hprev] at this
  cases this

end keeps

lemma isMark_of_isPlain {c} (h : isPlain c) : isMark [c] = false := by
  simp only [isPlain, brackets, all_cons, Bool.and_eq_true, bne_iff_ne] at h
  obtain ⟨hcomma, ⟨hopen, hclose⟩, -⟩ := h
  have hne : ∀ d, c ≠ d → ([c] == [d]) = false :=
    fun d hd => beq_eq_false_iff_ne.2 fun heq => hd (cons.inj heq).1
  rw [isMark, Bool.or_eq_false_iff, Bool.or_eq_false_iff]
  exact ⟨⟨hne _ hopen, hne _ hclose⟩, hne _ hcomma⟩

lemma LenState.readPiece_bracket (st : LenState) {c} (hmark : isMark [c] = false)
    (hc : isPunct c) : st.readPiece (.byte c) = { st with prevComma := false } := by
  rw [st.readPiece_plain, Piece.visible, hc, Bool.true_or, Bool.not_true, Bool.and_false]
  rintro d hd
  cases hd
  exact hmark

/-- Nested text comes back to the depth it started at. -/
lemma Nested.keeps {commas ps} (h : Nested commas ps) :
    ∀ d, 0 ≤ d → ∀ st, st.depth = d → Keeps (commas = false ∨ 0 < d) st ps := by
  induction h with
  | nil => exact fun d hd st hst => .nil
  | @byte commas c ps hc _ ih =>
    intro d hd st hst
    refine .cons_plain (by rwa [hst]) ?_ (ih d hd _ hst)
    rintro e he
    cases he
    exact isMark_of_isPlain hc
  | constant _ _ ih => exact fun d hd st hst => .inner hd (ih d hd) _ st hst
  | comment _ ih | literal _ ih =>
    exact fun d hd st hst => .cons_plain (by rwa [hst]) (fun _ => nofun) (ih d hd _ hst)
  | @comma ps _ ih =>
    intro d hd st hst
    have hread : st.readPiece (.byte (asc ',')) = if st.depth = 0 then
        ⟨st.cnt + 1, st.depth, true⟩ else { st with prevComma := false } := rfl
    have hdepth : (st.readPiece (.byte (asc ','))).depth = d := by
      rw [hread, ← hst]
      split <;> rfl
    have hkeeps := ih d hd _ hdepth
    refine ⟨⟨by rwa [hdepth], hkeeps.stays⟩, ?_, fun hclosed hcomma => ?_⟩
    · rw [foldl_cons, hkeeps.depth, hdepth, hst]
    -- in braces, where the comma is forgotten
    have hpos : 0 < d := hclosed.resolve_left (by decide)
    have hprev := (hkeeps.comma (.inr hpos) hcomma).1
    rw [hread, if_neg (by omega)] at hprev
    cases hprev
  | @group commas b inside ps hb _ _ ihin ih =>
    intro d hd st hst
    simp only [brackets, mem_cons, not_mem_nil, or_false] at hb
    rcases hb with rfl | hb
    · have hopen : (st.readPiece (.byte (asc '\x7b'))).depth = d + 1 := by
        rw [← hst]
        rfl
      have hkeeps := ihin (d + 1) (by omega) _ hopen
      have hdepth := hkeeps.depth
      rw [hopen] at hdepth
      have hend : (readPiece ((inside.foldl readPiece
          (st.readPiece (.byte (asc '\x7b'))))) (.byte (asc '\x7d'))).depth = d := by
        change depth _ - 1 = d
        rw [hdepth, Int.add_sub_cancel]
      have hroom : 0 ≤ (st.readPiece (.byte (asc '\x7b'))).depth := by omega
      refine .group hroom hkeeps.stays rfl (by omega) (hend.trans hst.symm) ?_ (ih d hd _ hend)
      refine Bool.eq_false_iff.2 fun hprev => ?_
      cases (hkeeps.comma (.inr (by omega)) hprev).1
    · have hopen : isMark [b.1] = false ∧ isPunct b.1 := by
        rcases hb with rfl | rfl <;> exact ⟨rfl, rfl⟩
      have hclose : isMark [b.2] = false ∧ isPunct b.2 := by
        rcases hb with rfl | rfl <;> exact ⟨rfl, rfl⟩
      have hread := st.readPiece_bracket hopen.1 hopen.2
      have hstart : (st.readPiece (.byte b.1)).depth = d := by rw [hread, ← hst]
      have hkeeps := ihin d hd _ hstart
      have hend := readPiece_bracket
        (inside.foldl readPiece (st.readPiece (.byte b.1))) hclose.1 hclose.2
      refine .group (by omega) hkeeps.stays hend (by omega) ?_ rfl (ih d hd _ ?_)
      · exact hkeeps.depth.trans (hstart.trans hst.symm)
      · exact hkeeps.depth.trans hstart

/-- The elements with the commas between them, and the one behind the last. -/
def elements : List (List Piece) → Bool → List Piece
  | [], _ => []
  | e :: es, comma =>
    e ++ ((if es ≠ [] ∨ comma = true then [.byte (asc ',')] else []) ++ elements es comma)

/-- Behind an element the depth is 0 again. -/
lemma IsElement.foldl_eq {e : List Piece} (h : IsElement e) (hst : st.depth = 0) :
    Stays readPiece st e ∧ e.foldl readPiece st = ⟨st.cnt + bareCommas 0 e, 0, false⟩ := by
  have hkeeps := h.nested.keeps 0 le_rfl st hst
  have hcnt := foldl_cnt e st
  have hdepth := hkeeps.depth
  have hprev : (e.foldl readPiece st).prevComma = false := by
    refine Bool.eq_false_iff.2 fun hprev => ?_
    obtain ⟨p, hp, hvis⟩ := h.seen
    rw [(hkeeps.comma (.inl rfl) hprev).2 p hp] at hvis
    cases hvis
  rw [hst] at hcnt hdepth
  exact ⟨hkeeps.stays, by rw [← hcnt, ← hdepth, ← hprev]⟩

/-- The elements are counted one by one. -/
lemma foldl_elements (comma : Bool) : ∀ (es : List (List Piece)) (st : LenState),
    (∀ e ∈ es, IsElement e) → st.depth = 0 →
    Stays readPiece st (elements es comma) ∧
      ∃ cnt prev, (elements es comma).foldl readPiece st = ⟨cnt, 0, prev⟩ ∧
        (es = [] → cnt = st.cnt ∧ prev = st.prevComma) ∧
        (es ≠ [] → cnt + (if prev then 0 else 1) = st.cnt + (es.map (bareCommas 0)).sum + es.length)
  | [], st, _, hst => ⟨trivial, st.cnt, st.prevComma, by rw [← hst]; rfl, fun _ => ⟨rfl, rfl⟩,
      fun h => absurd rfl h⟩
  | e :: es, st, hes, hst => by
    obtain ⟨he, hes⟩ := forall_mem_cons.1 hes
    obtain ⟨hstay, heq⟩ := he.foldl_eq hst
    rw [elements, stays_append, foldl_append, heq]
    split_ifs with hmore
    · obtain ⟨hstay', cnt, prev, heq', hnil, hcons⟩ := foldl_elements comma es
        ⟨st.cnt + bareCommas 0 e + 1, 0, true⟩ hes rfl
      refine ⟨⟨hstay, le_rfl, hstay'⟩, cnt, prev, heq', nofun, fun _ => ?_⟩
      rw [map_cons, sum_cons, length_cons]
      by_cases hes : es = []
      · obtain ⟨rfl, rfl⟩ := hnil hes
        rw [hes]
        simp
      have := hcons hes
      dsimp only at this
      push_cast at this ⊢
      omega
    · rw [not_or, not_not] at hmore
      rw [hmore.1]
      refine ⟨⟨hstay, trivial⟩, _, false, rfl, nofun, fun _ => ?_⟩
      simp

def Piece.isGap : Piece → Bool
  | .byte c => isSpaceByte c
  | .comment _ => true
  | _ => false

lemma isSpace_plain {c} (h : isSpaceByte c) : isPunct c = false ∧ isWord c = false := by
  rcases isSpace_cases h with hb | ho
  · rcases isBlank_iff.1 hb with rfl | rfl | rfl <;> exact ⟨rfl, rfl⟩
  · simp only [isOther, Bool.not_eq_true', Bool.or_eq_false_iff] at ho
    exact ⟨ho.1.1.1.1, ho.1.1.1.2⟩

lemma readPiece_gap (st : LenState) (h : p.isGap) : st.readPiece p = st := by
  have hmark : ∀ c, p = .byte c → isMark [c] = false := by
    rintro c rfl
    refine Bool.eq_false_iff.2 fun hmark => ?_
    simp only [isMark, Bool.or_eq_true, beq_iff_eq] at hmark
    rcases hmark with (hc | hc) | hc <;> obtain ⟨rfl, -⟩ := cons.inj hc <;> cases h
  have hvis : p.visible = false := by
    cases p with
    | byte =>
      rw [Piece.visible, (isSpace_plain h).1, (isSpace_plain h).2]
      rfl
    | inner => cases h
    | comment => rfl
    | literal => cases h
  rw [st.readPiece_plain hmark, hvis, Bool.not_false, Bool.and_true]

/-- White space and comments change nothing. -/
lemma foldl_gap (h : ∀ p ∈ gap, p.isGap) (hst : 0 ≤ st.depth) :
    Stays readPiece st gap ∧ gap.foldl readPiece st = st := by
  induction gap with
  | nil => exact ⟨trivial, rfl⟩
  | cons p gap ih =>
    obtain ⟨hp, hgap⟩ := forall_mem_cons.1 h
    rw [Stays, foldl_cons, readPiece_gap st hp]
    exact ⟨⟨hst, (ih hgap).1⟩, (ih hgap).2⟩

lemma lexAll_gap (h : ∀ p ∈ gap, p.isGap) : lexAll [] gap = ([], []) := by
  induction gap with
  | nil => rfl
  | cons p gap ih =>
    obtain ⟨hp, hgap⟩ := forall_mem_cons.1 h
    have hlex : p.lex [] = ([], []) := by
      cases p with
      | byte =>
        rw [Piece.lex, lexByte, (isSpace_plain hp).1, (isSpace_plain hp).2,
          if_neg Bool.false_ne_true, if_neg Bool.false_ne_true]
        split <;> rfl
      | inner => cases hp
      | comment => rfl
      | literal => cases hp
    rw [lexAll, hlex, ih hgap]
    rfl

lemma Readable.drop {qs} : ∀ ps (buf : List UInt8),
    Readable buf.length (ps ++ qs) → Readable (lexAll buf ps).2.length qs
  | [], _, h => h
  | p :: ps, buf, h => Readable.drop ps (p.lex buf).2 h.tail

/-! ### Initializers -/

/-- The elements in braces, with white space and comments before them and before the closing
brace. -/
def initializer (lead gap : List Piece) (elems : List (List Piece)) (comma : Bool) : List Piece :=
  lead ++ .byte (asc '\x7b') :: ((elements elems comma ++ gap) ++ [.byte (asc '\x7d')])

section initializer

variable {lead gap : List Piece} {elems : List (List Piece)} {comma : Bool}

/-- The tokens of an initializer. -/
lemma lexAll_initializer (hlead : ∀ p ∈ lead, p.isGap) :
    (lexAll [] (initializer lead gap elems comma)).1 =
      ascii "\x7b" :: ((lexAll [] (elements elems comma ++ gap)).1 ++
        flush (lexAll [] (elements elems comma ++ gap)).2) ++ [ascii "\x7d"] := by
  rw [initializer, lexAll_append, lexAll_gap hlead, lexAll]
  change [ascii "\x7b"] ++ (lexAll [] _).1 = _
  rw [lexAll_append]
  change [ascii "\x7b"] ++ (_ ++ ((flush _ ++ [ascii "\x7d"]) ++ [])) = _
  simp

/-- **What the length of an initializer comes out as.** -/
lemma parseGetArrayLen_eq (hlead : ∀ p ∈ lead, p.isGap) (hgap : ∀ p ∈ gap, p.isGap)
    (helems : ∀ e ∈ elems, IsElement e) (htext : IsText (initializer lead gap elems comma))
    (hread : Readable 0 (initializer lead gap elems comma)) (rest : List UInt8) :
    parseGetArrayLen (written (initializer lead gap elems comma) ++ rest) =
      .ok (if elems = [] then 1 else ((elems.map (bareCommas 0)).sum + elems.length : Int),
        rest) := by
  have hend : EndsPunct (initializer lead gap elems comma) :=
    ⟨lead ++ .byte (asc '\x7b') :: (elements elems comma ++ gap), asc '\x7d', rfl, by
      simp [initializer]⟩
  have htoks := (delivers rest (forall_mem_nil _) htext hread hend).continues
  rw [Continues, lexAll_initializer hlead] at htoks
  generalize written (initializer lead gap elems comma) ++ rest = inp at htoks
  obtain ⟨_, htoks', hlast⟩ := toks_append.1 htoks
  obtain ⟨_, htok, hbody, -⟩ := htoks'.uncons
  obtain ⟨_, htok', hnil, -⟩ := hlast.uncons
  cases hnil
  -- the state before the closing brace
  obtain ⟨hstay, cnt, prev, heq, hno, hsome⟩ := foldl_elements comma elems {} helems rfl
  have hstay' : Stays readPiece {} (elements elems comma ++ gap) := by
    rw [stays_append, heq]
    exact ⟨hstay, (foldl_gap hgap le_rfl).1⟩
  have hfold : (elements elems comma ++ gap).foldl readPiece {} = ⟨cnt, 0, prev⟩ := by
    rw [foldl_append, heq, (foldl_gap hgap le_rfl).2]
  have hread' : Readable ([] : List UInt8).length
      ((elements elems comma ++ gap) ++ [.byte (asc '\x7d')]) := by
    have := Readable.drop lead [] hread
    exact this.tail
  rw [← flushed_nil {}] at hstay' hfold
  obtain ⟨hstate, hstays, hpart⟩ := simulates_all le_rfl (forall_mem_nil _) hread' hstay'
  rw [hfold] at hstate
  have hdepth : ((lexAll [] (elements elems comma ++ gap)).1.foldl read {}).depth = 0 :=
    congrArg depth hstate
  obtain ⟨m, _, hloop⟩ := getArrayLenLoop_stays hbody
    (stays_append.2 ⟨hstays, stays_flush hdepth.ge hpart⟩) (Nat.lt_succ_self _)
  rw [foldl_append, foldl_flush _ hpart, hstate] at hloop
  rcases m with _ | k
  · omega
  rw [parseGetArrayLen, htok, ok_bind]
  dsimp only
  rw [if_neg (not_not_intro rfl), hloop, getArrayLenLoop, htok', ok_bind]
  dsimp only
  rw [read_close, if_pos (show (0 : Int) - 1 < 0 by decide)]
  by_cases hnone : elems = []
  · obtain ⟨rfl, rfl⟩ := hno hnone
    rw [if_pos hnone]
    rfl
  · rw [if_neg hnone, hsome hnone, Int.zero_add]

end initializer

/-- The length is right, unless there are no elements or one has a comma in parentheses or
brackets. -/
theorem parseGetArrayLen_iff (lead gap : List Piece) (elems : List (List Piece)) (comma : Bool)
    (hlead : ∀ p ∈ lead, p.isGap = true) (hgap : ∀ p ∈ gap, p.isGap = true)
    (helems : ∀ e ∈ elems, IsElement e) (htext : IsText (initializer lead gap elems comma))
    (hread : Readable 0 (initializer lead gap elems comma)) (rest : List UInt8) :
    parseGetArrayLen (written (initializer lead gap elems comma) ++ rest) =
        .ok (elems.length, rest) ↔
      elems ≠ [] ∧ ∀ e ∈ elems, bareCommas 0 e = 0 := by
  rw [parseGetArrayLen_eq hlead hgap helems htext hread rest, Except.ok.injEq, Prod.mk.injEq]
  by_cases hnone : elems = []
  · rw [hnone]
    simp
  rw [if_neg hnone]
  have hsum : (elems.map (bareCommas 0)).sum = 0 ↔ ∀ e ∈ elems, bareCommas 0 e = 0 := by
    rw [List.sum_eq_zero_iff_forall_eq_nat, forall_mem_map]
  rw [← hsum]
  constructor
  · intro h
    exact ⟨hnone, by omega⟩
  · intro h
    exact ⟨by omega, rfl⟩

theorem parseGetArrayLen_iff_nested :
    parseGetArrayLen (ascii " \x7b\"a\", \x7b1, 2\x7d,\x7d" ++ ascii ";") = .ok (2, ascii ";") := by
  let inside : List Piece := (ascii "1, 2").map .byte
  let elems : List (List Piece) :=
    [[.literal (ascii "a")], .byte (asc ' ') :: .byte (asc '\x7b') ::
      (inside ++ [.byte (asc '\x7d')])]
  have hinside : Nested true inside := .byte rfl (.comma (.byte rfl (.byte rfl .nil)))
  have helems : ∀ e ∈ elems, IsElement e := by
    intro e he
    rcases mem_pair.1 he with rfl | rfl
    · exact ⟨.literal .nil, _, mem_cons_self, rfl⟩
    · exact ⟨.byte rfl (.group (b := (asc '\x7b', asc '\x7d')) (by decide) hinside .nil),
        .byte (asc '\x7b'), by decide, rfl⟩
  have hlit : PlainLiteral (ascii "a") :=
    plainLiteral_of_not_mem (by decide) (by decide) (by decide) (by decide)
  refine (parseGetArrayLen_iff [.byte (asc ' ')] [] elems true (by decide) nofun helems ?_ ?_
    (ascii ";")).2 ⟨cons_ne_nil _ _, by decide⟩
  · refine ⟨by decide, by decide, nofun, by decide, by decide, nofun, hlit.literal, ?_⟩
    repeat refine ⟨by decide, by decide, nofun, ?_⟩
    exact trivial
  refine ⟨by decide, by decide, by decide, hlit.noNul, hlit.noBackslash, by decide, ?_⟩
  repeat refine ⟨by decide, ?_⟩
  exact trivial

/-- No elements, and a comma among the arguments of a macro. -/
theorem parseGetArrayLen_empty : parseGetArrayLen (ascii " \x7b\x7d;") = .ok (1, ascii ";") ∧
      parseGetArrayLen (ascii " \x7bF(1, 2)\x7d;") = .ok (2, ascii ";") :=
  ⟨rfl, rfl⟩

end LtpDdt.Metaparse
