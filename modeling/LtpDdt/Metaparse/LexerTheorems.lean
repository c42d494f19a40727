/-
Metaparse.LexerTheorems — where comments and string literals end.

§1 The functions leave an end of the file, and the bound on the rounds of
   `next_token2` is no restriction (`scan`).
§2 With a documentation node `multiline_comment` does not see newlines and the
   end of long lines (`multilineComment_same_iff`).
§3 A quote ends a literal if the byte before it is no backslash, where C asks
   for an even number of them (`nextToken2_literal_iff`).
§4 Words are stored without a look at the buffer (`nextToken2_index_iff`).
-/
import LtpDdt.Metaparse.Lexer
import LtpDdt.CTypes.Result
import Mathlib.Data.List.TakeWhile

namespace LtpDdt.Metaparse

open DataStorage List Nat
open CTypes (asc ascii cstr cstr_append cstr_of_not_mem nul_not_mem_cstr)
open CTypes (ok_bind error_bind bind_eq_ok bind_eq_error)

/-! ## §1 What is left of the file -/

variable {inp rest buf content : List UInt8} {doc : Option DataNode} {star : Bool}
  {r : List UInt8 × Option DataNode} {e : Stop}

/-- A line comment ends at its newline. -/
lemma removeToNewline_suffix (h : removeToNewline inp = .ok rest) :
    ∃ line, inp = line ++ asc '\n' :: rest ∧ asc '\n' ∉ line := by
  induction inp with
  | nil => cases h
  | cons c inp ih =>
    rw [removeToNewline] at h
    split_ifs at h with hc
    · cases h
      exact ⟨[], by rw [hc, nil_append], not_mem_nil⟩
    obtain ⟨line, rfl, hline⟩ := ih h
    exact ⟨c :: line, rfl, by simpa [hline] using Ne.symm hc⟩

/-- A block comment takes something off the input. -/
lemma multilineComment_suffix (h : multilineComment doc star buf inp = .ok r) :
    r.1 <:+ inp ∧ r.1.length < inp.length := by
  induction inp generalizing doc star buf with
  | nil => cases doc <;> cases h
  | cons c inp ih =>
    have step : ∀ {doc star buf}, multilineComment doc star buf inp = .ok r →
        r.1 <:+ c :: inp ∧ r.1.length < (c :: inp).length := by
      intro doc _ _ h'
      obtain ⟨hsuf, hlt⟩ := ih h'
      exact ⟨hsuf.trans (suffix_cons c inp), lt_succ_of_lt hlt⟩
    have stop : r.1 = inp → r.1 <:+ c :: inp ∧ r.1.length < (c :: inp).length := by
      intro heq
      exact ⟨heq ▸ suffix_cons c inp, heq ▸ lt_succ_self _⟩
    cases doc with rw [multilineComment] at h
    | none =>
      split at h
      · cases h
        exact stop rfl
      · exact step h
    | some =>
      split at h
      · exact step h
      split at h
      · exact step h
      split at h
      · cases h
        exact stop rfl
      · exact step h

lemma maybeDocComment_suffix {pre} (h : maybeDocComment doc pre inp = .ok r) : r.1 <:+ inp := by
  induction pre generalizing inp with
  | nil => exact (multilineComment_suffix h).1
  | cons p pre ih =>
    cases inp with
    | nil => cases h
    | cons c inp =>
      rw [maybeDocComment] at h
      split at h
      · exact (ih h).trans (suffix_cons c inp)
      obtain ⟨_, hr', h⟩ := bind_eq_ok h
      cases h
      have := (multilineComment_suffix hr').1
      split at this
      · exact this
      · exact this.trans (suffix_cons c inp)

lemma maybeComment_suffix (h : maybeComment doc inp = .ok r) : r.1 <:+ inp := by
  cases inp with
  | nil =>
    cases h
    exact suffix_refl _
  | cons c inp =>
    rw [maybeComment] at h
    split at h
    · obtain ⟨_, hrest, h⟩ := bind_eq_ok h
      cases h
      obtain ⟨line, rfl, -⟩ := removeToNewline_suffix hrest
      exact ⟨c :: (line ++ [asc '\n']), by simp⟩
    split at h
    · exact (maybeDocComment_suffix h).trans (suffix_cons c inp)
    · cases h
      exact suffix_refl _

/-- Any fuel over the length gives the same result. -/
lemma tokenLoop_bound (bufLen : Nat) : ∀ n m doc inStr (buf inp : List UInt8),
    inp.length < n → inp.length < m →
    tokenLoop bufLen n doc inStr buf inp = tokenLoop bufLen m doc inStr buf inp
  | n + 1, m + 1, doc, inStr, buf, [], _, _ => by cases inStr <;> rfl
  | n + 1, m + 1, doc, true, buf, c :: inp, hn, hm => by
    have ih := fun buf => tokenLoop_bound bufLen n m doc true buf inp (lt_of_succ_lt_succ hn)
      (lt_of_succ_lt_succ hm)
    rw [tokenLoop, tokenLoop, ih]
  | n + 1, m + 1, doc, false, buf, c :: inp, hn, hm => by
    have ih := fun doc inStr buf => tokenLoop_bound bufLen n m doc inStr buf inp
      (lt_of_succ_lt_succ hn) (lt_of_succ_lt_succ hm)
    rw [tokenLoop, tokenLoop, ih doc false, ih doc true, ih doc false]
    -- only the rest of a comment is another file
    have hcomment : (maybeComment doc inp >>= fun r => tokenLoop bufLen n r.2 false buf r.1) =
        (maybeComment doc inp >>= fun r => tokenLoop bufLen m r.2 false buf r.1) := by
      cases hr : maybeComment doc inp with
      | error => rfl
      | ok r =>
        have hle := (maybeComment_suffix hr).length_le
        rw [length_cons] at hn hm
        rw [ok_bind, ok_bind, tokenLoop_bound bufLen n m r.2 false buf r.1 (by omega) (by omega)]
    rw [hcomment]

/-- The loop of `next_token2`, without a bound on the rounds. -/
def scan (bufLen : Nat) (doc : Option DataNode) (inStr : Bool) (buf inp : List UInt8) :
    Except Stop Token :=
  tokenLoop bufLen (inp.length + 1) doc inStr buf inp

section scan

variable {bufLen : Nat} {doc : Option DataNode} {buf inp : List UInt8} {c : UInt8}

lemma scan_nil (inStr : Bool) :
    scan bufLen doc inStr buf [] = .ok (tokenExit inStr buf [] doc) := by cases inStr <;> rfl

/-- One byte of a string. -/
lemma scan_str : scan bufLen doc true buf (c :: inp) =
    if c = asc '"' ∧ buf.getLast? ≠ some (asc '\\') then .ok (tokenExit true buf inp doc)
    else scan bufLen doc true (if buf.length < bufLen then buf ++ [c] else buf) inp := rfl

/-- A mark of punctuation ends a word. -/
lemma scan_punct (hc : isPunct c) : scan bufLen doc false buf (c :: inp) =
    if buf ≠ [] then .ok (tokenExit false buf (c :: inp) doc)
    else .ok (tokenExit false (if buf.length < bufLen then [c] else []) inp doc) := by
  rw [scan, tokenLoop, if_pos hc]

/-- A byte of a word. -/
lemma scan_word (hp : isPunct c = false) (hc : isWord c) : scan bufLen doc false buf (c :: inp) =
      if buf.length < bufLen then scan bufLen doc false (buf ++ [c]) inp else .error .overrun := by
  rw [scan, tokenLoop, hp, if_pos hc]
  rfl

/-- A `/` may start a comment. -/
lemma scan_slash : scan bufLen doc false buf (asc '/' :: inp) =
    (maybeComment doc inp >>= fun r => scan bufLen r.2 false buf r.1) := by
  rw [scan, tokenLoop, if_pos rfl]
  cases hr : maybeComment doc inp with
  | error => rfl
  | ok r =>
    have hle := (maybeComment_suffix hr).length_le
    exact tokenLoop_bound bufLen _ _ r.2 false buf r.1 (by rw [length_cons]; omega) (lt_succ_self _)

lemma scan_quote : scan bufLen doc false buf (asc '"' :: inp) = scan bufLen doc true buf inp := by
  rfl

def isBlank (c : UInt8) : Bool := c == asc ' ' || c == asc '\n' || c == asc '\t'

lemma isBlank_iff : isBlank c ↔ c = asc ' ' ∨ c = asc '\n' ∨ c = asc '\t' := by
  simp [isBlank, or_assoc]

/-- White space ends a word. -/
lemma scan_blank (hc : isBlank c) : scan bufLen doc false buf (c :: inp) =
    if buf ≠ [] then .ok (tokenExit false buf inp doc) else scan bufLen doc false buf inp := by
  rw [scan, tokenLoop]
  rcases isBlank_iff.1 hc with rfl | rfl | rfl <;>
    rw [if_neg (by decide), if_neg (by decide), if_neg (by decide), if_neg (by decide)] <;> rfl

def isOther (c : UInt8) : Bool :=
  !(isPunct c || isWord c || isBlank c || c == asc '/' || c == asc '"')

/-- Any other byte is dropped. -/
lemma scan_other (hc : isOther c) : scan bufLen doc false buf (c :: inp) =
    scan bufLen doc false buf inp := by
  simp only [isOther, Bool.not_eq_true', Bool.or_eq_false_iff, beq_eq_false_iff_ne] at hc
  obtain ⟨⟨⟨⟨hp, hw⟩, hb⟩, hs⟩, hq⟩ := hc
  rw [scan, tokenLoop, hp, hw, if_neg Bool.false_ne_true, if_neg Bool.false_ne_true, if_neg hs,
    if_neg hq, if_neg (by rw [← isBlank_iff, hb]; exact Bool.false_ne_true)]
  rfl

/-- The kinds of bytes the lexer tells apart. -/
lemma byte_cases (c : UInt8) : isPunct c ∨ (isPunct c = false ∧ isWord c) ∨
    c = asc '/' ∨ c = asc '"' ∨ isBlank c ∨ isOther c := by
  cases hp : isPunct c <;> cases hw : isWord c <;> cases hb : isBlank c <;>
    simp [isOther, hp, hw, hb]
  by_cases hs : c = asc '/'
  · exact .inl hs
  by_cases hq : c = asc '"'
  · exact .inr (.inl hq)
  · exact .inr (.inr ⟨hs, hq⟩)

end scan

/-! ## §2 Comments -/

def closing : List UInt8 := [asc '*', asc '/']

def splitEnd : List UInt8 → Option (List UInt8 × List UInt8)
  | [] => none
  | c :: inp =>
    if c = asc '*' ∧ inp.head? = some (asc '/') then some ([], inp.tail)
    else (splitEnd inp).map fun r => (c :: r.1, r.2)

def orHang {α : Type} : Option α → Except Stop α
  | some a => .ok a
  | none => .error .hang

/-- Outside a doc comment nothing is stored. -/
lemma multilineComment_none (inp : List UInt8) : ∀ star buf,
    (multilineComment none star buf inp).map (·.1) =
      if star ∧ inp.head? = some (asc '/') then .ok inp.tail
      else orHang ((splitEnd inp).map (·.2)) := by
  induction inp with intro _ _
  | nil =>
    simp [multilineComment, splitEnd, orHang, Except.map]
  | cons c inp ih =>
    rw [multilineComment]
    simp only [head?_cons, Option.some_inj]
    split
    · rfl
    rw [ih, splitEnd]
    simp only [beq_iff_eq]
    split
    · rfl
    · rw [Option.map_map]
      rfl

/-- The bytes that the `switch` sees when lines are collected: no newlines, and nothing behind the
4095th byte of a line, of which `k` are read. -/
def stored : Nat → List UInt8 → List UInt8
  | _, [] => []
  | k, c :: text =>
    if c = asc '\n' then stored 0 text
    else if 4095 ≤ k then stored (k + 1) text
    else c :: stored (k + 1) text

/-- The number of bytes behind the last newline of a text. -/
def column : Nat → List UInt8 → Nat
  | k, [] => k
  | k, c :: text => column (if c = asc '\n' then 0 else k + 1) text

/-- What is left of the file when the lines are collected. -/
def docEnd : Bool → Nat → List UInt8 → Option (List UInt8)
  | _, _, [] => none
  | star, k, c :: inp =>
    if c = asc '\n' then docEnd star 0 inp
    else if 4095 ≤ k then docEnd star (k + 1) inp
    else if star ∧ c = asc '/' then some inp
    else docEnd (c == asc '*') (k + 1) inp

/-- In a doc comment the stored bytes decide. -/
lemma multilineComment_some (inp : List UInt8) : ∀ doc star (buf : List UInt8) k,
    buf.length = min k 4095 →
    (multilineComment (some doc) star buf inp).map (·.1) = orHang (docEnd star k inp)  := by
  induction inp with intro _ _ _ k _
  | nil =>
    rfl
  | cons c inp ih =>
    rw [multilineComment, docEnd]
    split
    · exact ih _ _ _ _ rfl
    by_cases hk : 4095 ≤ k
    · rw [if_pos (by omega), if_pos hk]
      exact ih _ _ _ _ (by omega)
    rw [if_neg (by omega)]
    split
    · rfl
    · exact ih _ _ _ _ (by rw [length_append, length_singleton]; omega)

def starText (star : Bool) : List UInt8 := if star then [asc '*'] else []

/-- A body with no end in it is passed. -/
lemma docEnd_append (body rest : List UInt8) : ∀ star k,
    ¬ closing <:+: starText star ++ stored k body →
    ∃ star', docEnd star k (body ++ rest) = docEnd star' (column k body) rest := by
  induction body with
  | nil => exact fun star k _ => ⟨star, rfl⟩
  | cons c body ih =>
    intro star k hno
    rw [stored] at hno
    rw [cons_append, docEnd, column]
    split
    · rename_i hc
      rw [if_pos hc] at hno
      exact ih star 0 hno
    rename_i hc
    rw [if_neg hc] at hno
    split
    · rename_i hk
      rw [if_pos hk] at hno
      exact ih star (k + 1) hno
    rename_i hk
    rw [if_neg hk] at hno
    split_ifs with hend
    · refine absurd ⟨[], stored (k + 1) body, ?_⟩ hno
      rw [hend.1, hend.2]
      rfl
    refine ih _ _ fun hin => hno ?_
    -- the last byte stays in sight
    refine hin.trans ?_
    cases hstar : (c == asc '*') with
    | true =>
      rw [beq_iff_eq.1 hstar]
      exact (suffix_append (starText star) _).isInfix
    | false => exact (suffix_cons c _).isInfix.trans (suffix_append _ _).isInfix

/-- A body with an end in it is cut. -/
lemma docEnd_early (body rest : List UInt8) : ∀ star k,
    closing <:+: starText star ++ stored k body →
    ∃ left, docEnd star k (body ++ rest) = some (left ++ rest) := by
  induction body with intro star k hin
  | nil =>
    have := hin.length_le
    cases star <;> simp [starText, stored, closing] at this
  | cons c body ih =>
    rw [stored] at hin
    rw [cons_append, docEnd]
    split
    · rename_i hc
      rw [if_pos hc] at hin
      exact ih star 0 hin
    rename_i hc
    rw [if_neg hc] at hin
    split
    · rename_i hk
      rw [if_pos hk] at hin
      exact ih star (k + 1) hin
    rename_i hk
    rw [if_neg hk] at hin
    split
    · exact ⟨body, rfl⟩
    rename_i hend
    refine ih _ _ ?_
    have hin' : closing <:+: c :: stored (k + 1) body := by
      cases star with
      | false => exact hin
      | true =>
        refine (infix_cons_iff.1 hin).resolve_left fun hpre => hend ⟨rfl, ?_⟩
        obtain ⟨t, ht⟩ := hpre
        exact (cons.inj (cons.inj ht).2).1.symm
    rcases infix_cons_iff.1 hin' with hpre | htail
    · obtain ⟨t, ht⟩ := hpre
      have hc : c = asc '*' := (cons.inj ht).1.symm
      exact ⟨[], t, ht.trans (by rw [hc]; rfl)⟩
    · exact htail.trans (suffix_append _ _).isInfix

lemma docEnd_length : ∀ {star k}, docEnd star k inp = some rest → rest.length < inp.length := by
  induction inp with
  | nil => exact nofun
  | cons c inp ih =>
    intro _ k h
    rw [docEnd] at h
    split at h
    · exact lt_succ_of_lt (ih h)
    split at h
    · exact lt_succ_of_lt (ih h)
    split at h
    · cases h
      exact lt_succ_self _
    · exact lt_succ_of_lt (ih h)

lemma splitEnd_eq_some {r : List UInt8 × List UInt8} (h : splitEnd inp = some r) :
    inp = r.1 ++ (closing ++ r.2) := by
  induction inp generalizing r with
  | nil => cases h
  | cons c inp ih =>
    rw [splitEnd] at h
    split_ifs at h with hc
    · cases inp with
      | nil => exact absurd hc.2 nofun
      | cons =>
        cases h
        rw [hc.1, Option.some_inj.1 hc.2]
        rfl
    · obtain ⟨_, hr', rfl⟩ := Option.map_eq_some_iff.1 h
      rw [ih hr']
      rfl

/-- What is seen of the comment has no star and slash, and the ones that end it are seen. -/
def CommentPlain (inp : List UInt8) : Prop :=
  match splitEnd inp with
  | some r => ¬ closing <:+: stored 0 r.1 ∧ column 0 r.1 + 1 < 4095
  | none => ¬ closing <:+: stored 0 inp

/-- An end is seen while the buffer has room. -/
lemma docEnd_closing (star : Bool) (k : Nat) (rest : List UInt8) :
    docEnd star k (closing ++ rest) = some rest ↔ k + 1 < 4095 := by
  rw [closing, cons_append, cons_append, docEnd, if_neg (by decide)]
  by_cases hk : 4095 ≤ k
  · rw [if_pos hk, docEnd, if_neg (by decide), if_pos (by omega)]
    refine iff_of_false (fun h => ?_) (by omega)
    exact absurd (docEnd_length h) (lt_irrefl _)
  rw [if_neg hk, if_neg (by simp only [not_and]; exact fun _ => by decide), docEnd,
    if_neg (by decide)]
  by_cases hk' : 4095 ≤ k + 1
  · rw [if_pos hk']
    refine iff_of_false (fun h => ?_) (by omega)
    exact absurd (docEnd_length h) (lt_irrefl _)
  · rw [if_neg hk']
    exact iff_of_true rfl (by omega)

/-- **When a doc comment ends at its first end.** -/
lemma docEnd_eq_splitEnd_iff (inp : List UInt8) :
    docEnd false 0 inp = (splitEnd inp).map (·.2) ↔ CommentPlain inp := by
  unfold CommentPlain
  cases hsplit : splitEnd inp with
  | none =>
    rw [Option.map_none]
    constructor
    · intro h hin
      obtain ⟨_, hleft⟩ := docEnd_early inp [] false 0 hin
      rw [append_nil, h] at hleft
      cases hleft
    intro hno
    obtain ⟨_, hend⟩ := docEnd_append inp [] false 0 hno
    rw [append_nil] at hend
    rw [hend, docEnd]
  | some r =>
    rw [Option.map_some, splitEnd_eq_some hsplit]
    by_cases hin : closing <:+: stored 0 r.1
    · refine iff_of_false (fun h => ?_) (fun h => h.1 hin)
      obtain ⟨_, hleft⟩ := docEnd_early r.1 (closing ++ r.2) false 0 hin
      have := congrArg length (Option.some_inj.1 (hleft.symm.trans h))
      simp only [closing, length_append, length_cons] at this
      omega
    · obtain ⟨_, hend⟩ := docEnd_append r.1 (closing ++ r.2) false 0 hin
      rw [hend, docEnd_closing]
      exact ⟨fun h => ⟨hin, h⟩, fun h => h.2⟩

lemma orHang_inj {α : Type} {a b : Option α} (h : orHang a = orHang b) : a = b := by
  cases a <;> cases b <;> cases h <;> rfl

/-- Both kinds of `multiline_comment` read up to the first star and slash, exactly for comments that
look the same without newlines and ends of long lines. -/
theorem multilineComment_same_iff (doc : DataNode) (inp : List UInt8) :
    ((multilineComment (some doc) false [] inp).map (·.1) = orHang ((splitEnd inp).map (·.2)) ∧
      (multilineComment none false [] inp).map (·.1) = orHang ((splitEnd inp).map (·.2))) ↔
    CommentPlain inp := by
  have hnone : (multilineComment none false [] inp).map (·.1) =
      orHang ((splitEnd inp).map (·.2)) := by
    rw [multilineComment_none, if_neg (fun h => Bool.false_ne_true h.1)]
  rw [multilineComment_some inp doc false [] 0 rfl, and_iff_left hnone, ← docEnd_eq_splitEnd_iff]
  exact ⟨orHang_inj, fun h => by rw [h]⟩

/-- A star at the end of a line and a slash at the start of the next one. -/
theorem multilineComment_star_newline :
    (multilineComment (some (.array [])) false [] (ascii " *\n/x*/")).map (·.1) =
        .ok (ascii "x*/") ∧
      (multilineComment none false [] (ascii " *\n/x*/")).map (·.1) = .ok [] :=
  ⟨rfl, rfl⟩

/-! ## §3 String literals -/

def backslashes (text : List UInt8) : Nat := (text.reverse.takeWhile (· == asc '\\')).length

/-- Between the quotes of a literal: quotes are escaped, the one behind is not. -/
structure IsLiteral (content : List UInt8) : Prop where
  inner : ∀ pre post, content = pre ++ asc '"' :: post → backslashes pre % 2 = 1
  closed : backslashes content % 2 = 0

lemma getLast?_of_backslashes {text : List UInt8} (h : backslashes text % 2 = 1) :
    text.getLast? = some (asc '\\') := by
  rw [← head?_reverse]
  rw [backslashes] at h
  cases hrev : text.reverse with
  | nil =>
    rw [hrev] at h
    cases h
  | cons c rev =>
    rw [hrev, takeWhile_cons] at h
    split at h
    · rename_i hc
      rw [head?_cons, beq_iff_eq.1 hc]
    · cases h

section literal

variable {bufLen : Nat} {doc : Option DataNode}

/-- Inside a literal all bytes are kept. -/
lemma scan_inside (hlit : IsLiteral content) (rest : List UInt8) :
    ∀ mid pre, content = pre ++ mid → content.length ≤ bufLen →
    scan bufLen doc true pre (mid ++ rest) = scan bufLen doc true content rest
  | [], pre, heq, _ => by
    rw [heq, append_nil, nil_append]
  | c :: mid, pre, heq, hlen => by
    have hroom : pre.length < bufLen := by
      rw [heq, length_append, length_cons] at hlen
      omega
    have hquote : ¬ (c = asc '"' ∧ pre.getLast? ≠ some (asc '\\')) := by
      rintro ⟨rfl, hne⟩
      exact hne (getLast?_of_backslashes (hlit.inner pre mid heq))
    rw [cons_append, scan_str, if_neg hquote, if_pos hroom]
    exact scan_inside hlit rest mid (pre ++ [c]) (by simpa using heq) hlen

variable (bufLen doc) in
lemma scan_str_ok : ∀ (inp buf : List UInt8), ∃ b rest,
    scan bufLen doc true buf inp = .ok (tokenExit true b rest doc) ∧ buf <+: b ∧
      (buf.length ≤ bufLen → b.length ≤ bufLen) ∧ rest <:+ inp
  | [], buf => ⟨buf, [], scan_nil true, prefix_refl _, id, suffix_refl _⟩
  | c :: inp, buf => by
    rw [scan_str]
    split
    · exact ⟨buf, inp, rfl, prefix_refl _, id, suffix_cons c inp⟩
    split_ifs with hroom
    · obtain ⟨b, rest, hscan, hpre, hlen, hrest⟩ := scan_str_ok inp (buf ++ [c])
      refine ⟨b, rest, hscan, (prefix_append _ _).trans hpre, fun _ => hlen ?_,
        hrest.trans (suffix_cons c inp)⟩
      rw [length_append, length_singleton]
      omega
    · obtain ⟨b, rest, hscan, hpre, hlen, hrest⟩ := scan_str_ok inp buf
      exact ⟨b, rest, hscan, hpre, hlen, hrest.trans (suffix_cons c inp)⟩

/-- A full buffer that ends in a backslash takes the rest of the input. -/
lemma scan_stuck (hfull : bufLen ≤ buf.length) (hlast : buf.getLast? = some (asc '\\')) : ∀ inp,
    scan bufLen doc true buf inp = .ok (tokenExit true buf [] doc)
  | [] => scan_nil true
  | c :: inp => by
    rw [scan_str, if_neg (fun h => h.2 hlast), if_neg (by omega)]
    exact scan_stuck hfull hlast inp

lemma tokenExit_str (buf rest : List UInt8) :
    tokenExit true buf rest doc = (some (cstr buf), rest, doc) := by
  rw [tokenExit, if_neg (fun h => Bool.false_ne_true h.2.symm)]

/-- No NUL, not too long, and no backslash before the closing quote. (One that fills the buffer runs
on to the end of the file; there may be nothing in between.) -/
def LiteralOk (bufLen : Nat) (content rest : List UInt8) : Prop :=
  (0 : UInt8) ∉ content ∧ content.length ≤ bufLen ∧
    (content.getLast? ≠ some (asc '\\') ∨ content.length = bufLen ∧ rest = [])

/-- **When a literal is read whole.** -/
lemma scan_literal_iff (hlit : IsLiteral content) (rest : List UInt8) :
    scan bufLen doc true [] (content ++ asc '"' :: rest) = .ok (some content, rest, doc) ↔
      LiteralOk bufLen content rest := by
  by_cases hnul : (0 : UInt8) ∈ content
  · obtain ⟨b, _, hscan, -⟩ := scan_str_ok bufLen doc (content ++ asc '"' :: rest) []
    refine iff_of_false (fun h => ?_) (fun h => h.1 hnul)
    rw [hscan, tokenExit_str] at h
    injection h with h
    rw [← Option.some_inj.1 (Prod.mk.inj h).1] at hnul
    exact nul_not_mem_cstr b hnul
  by_cases hlen : content.length ≤ bufLen
  · rw [scan_inside hlit _ content [] rfl hlen, scan_str]
    by_cases hlast : content.getLast? = some (asc '\\')
    · rw [if_neg (fun h => h.2 hlast)]
      by_cases hroom : content.length < bufLen
      · -- the quote is stored
        obtain ⟨b, _, hscan, ⟨t, rfl⟩, -⟩ := scan_str_ok bufLen doc rest
          (content ++ [asc '"'])
        refine iff_of_false (fun h => ?_) (fun h => h.2.2.elim (fun h => h hlast) (by omega))
        rw [if_pos hroom, hscan, tokenExit_str] at h
        injection h with h
        have hcut := Option.some_inj.1 (Prod.mk.inj h).1
        have hquote : (0 : UInt8) ∉ content ++ [asc '"'] := by simpa [hnul] using by decide
        rw [cstr_append hquote] at hcut
        have := congrArg length hcut
        simp only [length_append, length_singleton] at this
        omega
      · rw [if_neg hroom, scan_stuck (by omega) hlast, tokenExit_str, cstr_of_not_mem hnul]
        constructor
        · intro h
          injection h with h
          exact ⟨hnul, hlen, .inr ⟨by omega, (Prod.mk.inj (Prod.mk.inj h).2).1.symm⟩⟩
        · rintro ⟨-, -, h⟩
          rw [(h.resolve_left (fun h => h hlast)).2]
    · rw [if_pos ⟨rfl, hlast⟩, tokenExit_str, cstr_of_not_mem hnul]
      exact iff_of_true rfl ⟨hnul, hlen, .inl hlast⟩
  · obtain ⟨b, _, hscan, -, hb, -⟩ := scan_str_ok bufLen doc (content ++ asc '"' :: rest) []
    refine iff_of_false (fun h => ?_) (fun h => hlen h.2.1)
    rw [hscan, tokenExit_str] at h
    injection h with h
    have hcut := Option.some_inj.1 (Prod.mk.inj h).1
    have hle : (cstr b).length ≤ b.length := ( takeWhile_prefix _).length_le
    rw [hcut] at hle
    exact hlen (le_trans hle (hb (zero_le _)))

end literal

/-! ## §4 Words and comments before the token ends -/

/-- A token takes something off the input. -/
lemma scan_rest {bufLen} (hlen : 0 < bufLen) (n : Nat) : ∀ (inp : List UInt8) doc buf
    (r : Token), inp.length < n → scan bufLen doc false buf inp = .ok r →
    r.2.1 <:+ inp ∧ (buf = [] → r.1 ≠ none → r.2.1.length < inp.length) ∧
      (r.1 = none → r.2.1 = [])  := by
  induction n with
  | zero => exact fun inp doc buf r hn => absurd hn (not_lt_zero _)
  | succ n ih =>
    intro inp doc buf r hn h
    cases inp with
    | nil =>
      cases h
      refine ⟨suffix_refl _, fun hbuf hne => absurd ?_ hne, fun _ => rfl⟩
      rw [tokenExit, if_pos ⟨hbuf, rfl⟩]
    | cons c inp =>
      rw [length_cons] at hn
      -- the rest of a shorter file
      have shorter : ∀ {rest : List UInt8}, rest <:+ inp → (r.1 = none → r.2.1 = []) →
          r.2.1 <:+ rest → r.2.1 <:+ c :: inp ∧
            (buf = [] → r.1 ≠ none → r.2.1.length < (c :: inp).length) ∧
            (r.1 = none → r.2.1 = []) := by
        intro rest hrest hnone hsuf
        have hsuf' := hsuf.trans hrest
        exact ⟨hsuf'.trans (suffix_cons c inp), fun _ _ => lt_succ_of_le hsuf'.length_le, hnone⟩
      have again : ∀ {doc' buf' rest}, rest <:+ inp →
          scan bufLen doc' false buf' rest = .ok r → r.2.1 <:+ c :: inp ∧
            (buf = [] → r.1 ≠ none → r.2.1.length < (c :: inp).length) ∧
            (r.1 = none → r.2.1 = []) := by
        intro doc' buf' rest hrest h'
        obtain ⟨hsuf, -, hnone⟩ := ih rest doc' buf' r (by have := hrest.length_le; omega) h'
        exact shorter hrest hnone hsuf
      rcases byte_cases c with hp | ⟨hp, hw⟩ | rfl | rfl | hb | ho
      · rw [scan_punct hp] at h
        split at h
        · rename_i hbuf
          cases h
          refine ⟨suffix_refl _, fun h => absurd h hbuf, fun h => ?_⟩
          rw [tokenExit, if_neg (fun h => hbuf h.1)] at h
          cases h
        · cases h
          refine ⟨suffix_cons c inp, fun _ _ => lt_succ_self _, fun h => ?_⟩
          rw [tokenExit, if_neg] at h
          · cases h
          rename_i hbuf
          rw [not_not.1 hbuf, length_nil, if_pos hlen]
          exact fun h => cons_ne_nil _ _ h.1
      · rw [scan_word hp hw] at h
        split at h
        · exact again (suffix_refl _) h
        · cases h
      · rw [scan_slash] at h
        obtain ⟨_, hr', h⟩ := bind_eq_ok h
        exact again (maybeComment_suffix hr') h
      · rw [scan_quote] at h
        obtain ⟨b, rest, hscan, -, -, hrest⟩ := scan_str_ok bufLen doc inp buf
        rw [hscan] at h
        cases h
        refine shorter hrest (fun h => ?_) (suffix_refl _)
        rw [tokenExit_str] at h
        cases h
      · rw [scan_blank hb] at h
        split_ifs at h with hbuf
        · cases h
          refine shorter (suffix_refl _) (fun h => ?_) (suffix_refl _)
          rw [tokenExit, if_neg (fun h => hbuf h.1)] at h
          cases h
        · exact again (suffix_refl _) h
      · rw [scan_other ho] at h
        exact again (suffix_refl _) h

/-- Every call takes something off the input. -/
lemma nextToken2_rest {size : Nat} (hsize : 2 ≤ size) {r : Token}
    (h : nextToken2 size doc inp = .ok r) :
    r.2.1 <:+ inp ∧ (r.1 ≠ none → r.2.1.length < inp.length) ∧ (r.1 = none → r.2.1 = []) := by
  obtain ⟨hsuf, hlt, hnone⟩ := scan_rest (show 0 < size - 1 by omega) (inp.length + 1) inp doc []
    r (lt_succ_self _) h
  exact ⟨hsuf, hlt rfl, hnone⟩

/-- The documentation, the write index, and what is left of the file. -/
abbrev Outside := Option DataNode × Nat × List UInt8

/-- A round of the loop that goes on outside of a literal. -/
inductive Moves (bufLen : Nat) : Outside → Outside → Prop where
  | word {doc i c inp} : isWord c = true → i < bufLen →
      Moves bufLen (doc, i, c :: inp) (doc, i + 1, inp)
  | other {doc i c inp} : isOther c = true → Moves bufLen (doc, i, c :: inp) (doc, i, inp)
  | blank {doc c inp} : isBlank c = true → Moves bufLen (doc, 0, c :: inp) (doc, 0, inp)
  | comment {doc i inp r} : maybeComment doc inp = .ok r →
      Moves bufLen (doc, i, asc '/' :: inp) (r.2, i, r.1)

/-- The places the loop comes to. -/
abbrev Reaches (bufLen : Nat) : Outside → Outside → Prop := Relation.ReflTransGen (Moves bufLen)

/-- A byte of a word for which there is no room, and a comment that does not
end. -/
inductive FailsAt (bufLen : Nat) : Stop → Outside → Prop where
  | overrun {doc c inp} : isWord c = true → FailsAt bufLen .overrun (doc, bufLen, c :: inp)
  | hang {doc i inp} : maybeComment doc inp = .error .hang →
      FailsAt bufLen .hang (doc, i, asc '/' :: inp)

lemma isPunct_of_isWord {c} (h : isWord c) : isPunct c = false := by
  cases hp : isPunct c with
  | false => rfl
  | true =>
    have hlist : (ascii "\x7b\x7d;()=,[]#|+*%").all (fun c => !isWord c) := rfl
    have := all_eq_true.1 hlist c (contains_iff_mem.1 hp)
    rw [h] at this
    cases this

lemma removeToNewline_error (h : removeToNewline inp = .error e) : e = .hang := by
  induction inp with
  | nil =>
    cases h
    rfl
  | cons c inp ih =>
    rw [removeToNewline] at h
    split at h
    · cases h
    · exact ih h

lemma multilineComment_error (h : multilineComment doc star buf inp = .error e) : e = .hang := by
  induction inp generalizing doc star buf with
  | nil => cases doc <;> cases h <;> rfl
  | cons c inp ih =>
    cases doc with rw [multilineComment] at h
    | none =>
      split at h
      · cases h
      · exact ih h
    | some =>
      split at h
      · exact ih h
      split at h
      · exact ih h
      split at h
      · cases h
      · exact ih h

lemma maybeComment_error (h : maybeComment doc inp = .error e) : e = .hang := by
  have hdoc : ∀ {pre inp}, maybeDocComment doc pre inp = .error e → e = .hang := by
    intro pre
    induction pre with
    | nil => exact multilineComment_error
    | cons p pre ih =>
      intro inp h
      cases inp with
      | nil =>
        cases h
        rfl
      | cons =>
        rw [maybeDocComment] at h
        split at h
        · exact ih h
        rcases bind_eq_error h with h | ⟨r, -, h⟩
        · exact multilineComment_error h
        · cases h
  cases inp with
  | nil => cases h
  | cons =>
    rw [maybeComment] at h
    split at h
    · rcases bind_eq_error h with h | ⟨r, -, h⟩
      · exact removeToNewline_error h
      · cases h
    split at h
    · exact hdoc h
    · cases h

section moves

variable {bufLen : Nat} {s s' : Outside} {e : Stop}

/-- One move of the lexer. -/
lemma Moves.scan_eq (h : Moves bufLen s s') (hbuf : buf.length = s.2.1) :
    ∃ buf', buf'.length = s'.2.1 ∧
      scan bufLen s.1 false buf s.2.2 = scan bufLen s'.1 false buf' s'.2.2 := by
  cases h with
  | word hw hi =>
    refine ⟨_, ?_, (scan_word (isPunct_of_isWord hw) hw).trans (if_pos (by rw [hbuf]; exact hi))⟩
    rw [length_append, hbuf, length_singleton]
  | other ho => exact ⟨buf, hbuf, scan_other ho⟩
  | blank hb =>
    refine ⟨buf, hbuf, (scan_blank hb).trans (if_neg (not_not_intro ?_))⟩
    exact eq_nil_of_length_eq_zero hbuf
  | comment hc => exact ⟨buf, hbuf, by rw [scan_slash, hc, ok_bind]⟩

/-- Moves of the lexer. -/
lemma Reaches.scan_eq (h : Reaches bufLen s s') (hbuf : buf.length = s.2.1) :
    ∃ buf', buf'.length = s'.2.1 ∧
      scan bufLen s.1 false buf s.2.2 = scan bufLen s'.1 false buf' s'.2.2 := by
  induction h with
  | refl => exact ⟨buf, hbuf, rfl⟩
  | tail _ hmove ih =>
    obtain ⟨_, hbuf', heq⟩ := ih
    obtain ⟨buf'', hbuf'', heq'⟩ := hmove.scan_eq hbuf'
    exact ⟨buf'', hbuf'', heq.trans heq'⟩

lemma FailsAt.scan_eq (h : FailsAt bufLen e s) (hbuf : buf.length = s.2.1) :
    scan bufLen s.1 false buf s.2.2 = .error e := by
  cases h with
  | overrun hw =>
    rw [scan_word (isPunct_of_isWord hw) hw, if_neg]
    rw [hbuf]
    exact lt_irrefl _
  | hang hc => rw [scan_slash, hc, error_bind]

/-- **The lexer does what its moves say.** -/
lemma reaches_of_scan (n : Nat) : ∀ (inp : List UInt8) doc (buf : List UInt8),
    inp.length < n → buf.length ≤ bufLen → scan bufLen doc false buf inp = .error e →
    ∃ s, Reaches bufLen (doc, buf.length, inp) s ∧ FailsAt bufLen e s  := by
  induction n with
  | zero => exact fun inp doc buf hn => absurd hn (not_lt_zero _)
  | succ n ih =>
    intro inp doc buf hn hbuf h
    cases inp with
    | nil =>
      cases h
    | cons c inp =>
      rw [length_cons] at hn
      -- one round, and the rest by induction
      have step : ∀ {doc' inp'} {buf' : List UInt8},
          Moves bufLen (doc, buf.length, c :: inp) (doc', buf'.length, inp') →
          inp'.length ≤ inp.length → buf'.length ≤ bufLen →
          scan bufLen doc' false buf' inp' = .error e →
          ∃ s, Reaches bufLen (doc, buf.length, c :: inp) s ∧ FailsAt bufLen e s := by
        intro doc' inp' buf' hmove hle hbuf' h'
        obtain ⟨s, hs, hfail⟩ := ih inp' doc' buf' (by omega) hbuf' h'
        exact ⟨s, .head hmove hs, hfail⟩
      rcases byte_cases c with hp | ⟨hp, hw⟩ | rfl | rfl | hb | ho
      · rw [scan_punct hp] at h
        split at h <;> cases h
      · rw [scan_word hp hw] at h
        split_ifs at h with hi
        · have hlen : (buf ++ [c]).length = buf.length + 1 := by simp
          have hmove : Moves bufLen (doc, buf.length, c :: inp) (doc, (buf ++ [c]).length, inp) :=
            hlen ▸ .word hw hi
          exact step hmove (le_refl _) (by rw [hlen]; omega) h
        · cases h
          rw [show buf.length = bufLen by omega]
          exact ⟨_, .refl, .overrun hw⟩
      · rw [scan_slash] at h
        rcases bind_eq_error h with hc | ⟨r, hr, h⟩
        · cases maybeComment_error hc
          exact ⟨_, .refl, .hang hc⟩
        · exact step (.comment hr) (maybeComment_suffix hr).length_le hbuf h
      · rw [scan_quote] at h
        obtain ⟨b, _, hscan, -⟩ := scan_str_ok bufLen doc inp buf
        rw [hscan] at h
        cases h
      · rw [scan_blank hb] at h
        split at h
        · cases h
        rename_i hnil
        rw [not_not.1 hnil] at h ⊢
        obtain ⟨s, hs, hfail⟩ := ih inp doc [] (by omega) (zero_le _) h
        exact ⟨s, .head (.blank hb) hs, hfail⟩
      · rw [scan_other ho] at h
        exact step (.other ho) (le_refl _) hbuf h

/-- When the lexer fails. -/
lemma nextToken2_error_iff (size : Nat) (doc : Option DataNode) (inp : List UInt8) :
    nextToken2 size doc inp = .error e ↔
      ∃ s, Reaches (size - 1) (doc, 0, inp) s ∧ FailsAt (size - 1) e s := by
  constructor
  · exact reaches_of_scan (inp.length + 1) inp doc [] (lt_succ_self _) (zero_le _)
  rintro ⟨s, hs, hfail⟩
  obtain ⟨_, hbuf, heq⟩ := hs.scan_eq (show ([] : List UInt8).length = _ from rfl)
  exact heq.trans (hfail.scan_eq hbuf)

end moves

/-- More bytes of a word than the buffer holds, with only comments and ignored bytes between
them. -/
def LongWord (bufLen : Nat) (doc : Option DataNode) (inp : List UInt8) : Prop :=
  ∃ doc' c inp', Reaches bufLen (doc, 0, inp) (doc', bufLen, c :: inp') ∧ isWord c = true

/-- **The buffer is overrun just by a long word.** -/
lemma nextToken2_overrun_iff (size : Nat) (doc : Option DataNode) (inp : List UInt8) :
    nextToken2 size doc inp = .error .overrun ↔ LongWord (size - 1) doc inp := by
  rw [nextToken2_error_iff]
  constructor
  · rintro ⟨s, hs, hfail⟩
    cases hfail with
    | overrun hw => exact ⟨_, _, _, hs, hw⟩
  · rintro ⟨_, c, _, hs, hw⟩
    exact ⟨_, hs, .overrun hw⟩

/-- The literal that `next_token2` comes to is the token, and the file is left behind its closing
quote, exactly for literals that are read right; and the write index stays in the buffer, exactly
where no word is too long. -/
theorem nextToken2_exact_iff (size : Nat) (doc doc' : Option DataNode)
    (inp content rest : List UInt8)
    (hreach : Reaches (size - 1) (doc, 0, inp) (doc', 0, asc '"' :: (content ++ asc '"' :: rest)))
    (hlit : IsLiteral content) :
    (nextToken2 size doc inp = .ok (some content, rest, doc') ↔ LiteralOk (size - 1) content rest) ∧
    ∀ text, nextToken2 size doc text ≠ .error .overrun ↔ ¬ LongWord (size - 1) doc text := by
  refine ⟨?_, fun text => not_congr (nextToken2_overrun_iff size doc text)⟩
  obtain ⟨_, hbuf, heq⟩ := hreach.scan_eq (show ([] : List UInt8).length = _ from rfl)
  rw [eq_nil_of_length_eq_zero hbuf, scan_quote] at heq
  rw [← scan_literal_iff hlit rest, ← heq]
  rfl

theorem nextToken2_exact_iff_blank :
    nextToken2 4096 none (ascii " \"a b\",") = .ok (some (ascii "a b"), ascii ",", none) := by
  refine ((nextToken2_exact_iff 4096 none none (ascii " \"a b\",") (ascii "a b") (ascii ",")
    (.single (.blank rfl)) ⟨?_, rfl⟩).1).2 ⟨by decide, by decide, .inl (by decide)⟩
  intro _ _ heq
  have : asc '"' ∈ ascii "a b" := by rw [heq]; simp
  exact absurd this (by decide)

lemma reaches_word (bufLen m : Nat) : ∀ k, k ≤ bufLen →
    Reaches bufLen (none, 0, replicate (k + m) (asc 'a')) (none, k, replicate m (asc 'a'))
  | 0, _ => (Nat.zero_add m).symm ▸ .refl
  | k + 1, hk => by
    have ih := reaches_word bufLen (m + 1) k (by omega)
    rw [Nat.add_right_comm]
    exact ih.tail (.word rfl (by omega))

/-- Two backslashes before the closing quote, and a word that fills the
buffer. -/
theorem nextToken2_two_backslashes : nextToken2 4096 none (ascii "\"a\\\\\", \"b\"") =
        .ok (some (ascii "a\\\\\", "), ascii "b\"", none) ∧
      IsLiteral (ascii "a\\\\") ∧
      nextToken2 4096 none (List.replicate 4096 (asc 'a')) = .error .overrun := by
  refine ⟨rfl, ⟨?_, rfl⟩, ?_⟩
  · intro _ _ heq
    have : asc '"' ∈ ascii "a\\\\" := by rw [heq]; simp
    exact absurd this (by decide)
  · exact (nextToken2_error_iff 4096 none _).2
      ⟨_, reaches_word 4095 1 4095 (Nat.le_refl _), .overrun rfl⟩

end LtpDdt.Metaparse
