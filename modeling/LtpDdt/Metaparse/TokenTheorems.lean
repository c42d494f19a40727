/-
Metaparse.TokenTheorems — from the text of a C source to its tokens.

A text is lexemes with white space and comments between them (`Source`); words
are followed by punctuation, as the lexer joins two words that only a comment
separates. `next_token` delivers them one by one (`Source.toks`), literals
without their quotes.
-/
import LtpDdt.Metaparse.LexerTheorems
import LtpDdt.Metaparse.Parse
import Mathlib.Tactic.IntervalCases

namespace LtpDdt.Metaparse

open CTypes (isSpaceByte asc cstr cstr_of_not_mem ok_bind error_bind bind_eq_ok)
open List

variable {r : List UInt8 × List UInt8}

/-! ## White space and comments -/

/-- What may stand between two lexemes. -/
inductive Gap : List UInt8 → Prop where
  | nil : Gap []
  | space {c g} : isSpaceByte c = true → Gap g → Gap (c :: g)
  | line {body g} : asc '\n' ∉ body → Gap g → Gap (asc '/' :: asc '/' :: (body ++ asc '\n' :: g))
  | block {body g} : ¬ closing <:+: body ++ [asc '*'] → Gap g →
      Gap (asc '/' :: asc '*' :: (body ++ (closing ++ g)))

lemma removeToNewline_eq {body} (h : asc '\n' ∉ body) (rest : List UInt8) :
    removeToNewline (body ++ asc '\n' :: rest) = .ok rest := by
  induction body with
  | nil => rfl
  | cons c body ih =>
    rw [mem_cons, not_or] at h
    rw [cons_append, removeToNewline, if_neg (Ne.symm h.1), ih h.2]

lemma splitEnd_eq {body} (h : ¬ closing <:+: body ++ [asc '*']) (rest : List UInt8) :
    splitEnd (body ++ (closing ++ rest)) = some (body, rest) := by
  induction body with
  | nil => rfl
  | cons c body ih =>
    rw [cons_append, infix_cons_iff, not_or] at h
    rw [cons_append, splitEnd, if_neg, ih h.2]
    · rfl
    rintro ⟨rfl, hhead⟩
    refine h.1 ?_
    cases body with
    | nil => exact absurd (Option.some_inj.1 hhead) (by decide)
    | cons d body =>
      rw [cons_append, head?_cons, Option.some_inj] at hhead
      rw [hhead]
      exact ⟨body ++ [asc '*'], rfl⟩

variable {buf text : List UInt8}

lemma multilineComment_none_doc {star inp} {r : List UInt8 × Option DataStorage.DataNode}
    (h : multilineComment none star buf inp = .ok r) : r.2 = none := by
  induction inp generalizing star with
  | nil => cases h
  | cons c inp ih =>
    rw [multilineComment] at h
    split at h
    · cases h
      rfl
    · exact ih h

lemma multilineComment_none_eq {inp} (h : splitEnd inp = some r) :
    multilineComment none false [] inp = .ok (r.2, none) := by
  have hmap := multilineComment_none inp false []
  rw [h] at hmap
  cases hres : multilineComment none false [] inp with
  | error =>
    rw [hres] at hmap
    cases hmap
  | ok =>
    have hdoc := multilineComment_none_doc hres
    rw [hres] at hmap
    injection hmap with hmap
    dsimp only at hmap
    rw [← hmap, ← hdoc]

lemma splitEnd_tail {c inp} (hc : c ≠ asc '*') (h : splitEnd (c :: inp) = some r) :
    ∃ r', splitEnd inp = some r' ∧ r'.2 = r.2 := by
  rw [splitEnd, if_neg (fun h => hc h.1)] at h
  obtain ⟨r', hr', rfl⟩ := Option.map_eq_some_iff.1 h
  exact ⟨r', hr', rfl⟩

lemma notDoc_eq {c inp} (h : splitEnd (c :: inp) = some r) :
    (multilineComment none false [] (if c = asc '*' then c :: inp else inp) >>= fun r =>
      (Except.ok (r.1, none) : Except Stop (List UInt8 × Option DataStorage.DataNode))) =
      .ok (r.2, none) := by
  split
  · rw [multilineComment_none_eq h, ok_bind]
  rename_i hc
  obtain ⟨_, hr', heq⟩ := splitEnd_tail hc h
  rw [multilineComment_none_eq hr', ok_bind, heq]

lemma maybeDocComment_none_eq (h : splitEnd text = some r) :
    maybeDocComment none docPrefix text = .ok (r.2, none) := by
  cases text with
  | nil => cases h
  | cons c text =>
    rw [docPrefix, maybeDocComment]
    split
    · rename_i hc
      obtain ⟨_, h', hr'⟩ := splitEnd_tail (by rw [hc]; decide) h
      cases text with
      | nil => cases h'
      | cons d text =>
        rw [maybeDocComment]
        split
        · rename_i hd
          obtain ⟨_, h'', hr''⟩ := splitEnd_tail (by rw [hd]; decide) h'
          rw [maybeDocComment, multilineComment_none_eq h'', hr'', hr']
        · rw [notDoc_eq h', hr']
    · exact notDoc_eq h

section gaps

variable {bufLen : Nat}

lemma scan_line {body} (h : asc '\n' ∉ body) (buf rest : List UInt8) :
    scan bufLen none false buf (asc '/' :: asc '/' :: (body ++ asc '\n' :: rest)) =
      scan bufLen none false buf rest := by
  rw [scan_slash, maybeComment, removeToNewline_eq h]
  rfl

lemma scan_block {body} (h : ¬ closing <:+: body ++ [asc '*']) (buf rest : List UInt8) :
    scan bufLen none false buf (asc '/' :: asc '*' :: (body ++ (closing ++ rest))) =
      scan bufLen none false buf rest := by
  rw [scan_slash, maybeComment, maybeDocComment_none_eq (splitEnd_eq h rest)]
  rfl

lemma isSpace_cases {c} (h : isSpaceByte c) : isBlank c ∨ isOther c := by
  simp only [isSpaceByte, Bool.or_eq_true, Bool.and_eq_true, beq_iff_eq, decide_eq_true_eq] at h
  rcases h with rfl | ⟨hlo, hhi⟩
  · exact .inl rfl
  have hlo : 9 ≤ c.toNat := hlo
  have hhi : c.toNat ≤ 13 := hhi
  have hc : c ∈ [9, 10, 11, 12, 13] := by
    rw [← UInt8.ofNat_toNat (x := c)]
    generalize c.toNat = k at hlo hhi
    interval_cases k <;> decide
  have hall : [(9 : UInt8), 10, 11, 12, 13].all (fun c => isBlank c || isOther c) := rfl
  simpa using all_eq_true.1 hall c hc

lemma Gap.scan_eq {g} (hg : Gap g) (rest : List UInt8) :
    scan bufLen none false [] (g ++ rest) = scan bufLen none false [] rest := by
  induction hg with
  | nil => rfl
  | space hc _ ih =>
    rw [cons_append]
    rcases isSpace_cases hc with hb | ho
    · rw [scan_blank hb, if_neg (not_not_intro rfl), ih]
    · rw [scan_other ho, ih]
  | line hbody _ ih =>
    rw [cons_append, cons_append, append_assoc, cons_append, scan_line hbody, ih]
  | block hbody _ ih =>
    rw [cons_append, cons_append, append_assoc, append_assoc, scan_block hbody, ih]

lemma Gap.scan_word_eq {g} (hg : Gap g) (bufLen : Nat) (hbuf : buf ≠ []) {c} (hc : isPunct c)
    (rest : List UInt8) :
    ∃ g', Gap g' ∧ scan bufLen none false buf (g ++ c :: rest) =
      .ok (some (cstr buf), g' ++ c :: rest, none) := by
  have hexit : ∀ inp, tokenExit false buf inp none = (some (cstr buf), inp, none) := by
    intro _
    rw [tokenExit, if_neg (fun h => hbuf h.1)]
  induction hg with
  | nil =>
    refine ⟨[], .nil, ?_⟩
    rw [nil_append, scan_punct hc, if_pos hbuf, hexit]
  | @space d g hd hg ih =>
    rw [cons_append]
    rcases isSpace_cases hd with hb | ho
    · refine ⟨g, hg, ?_⟩
      rw [scan_blank hb, if_pos hbuf, hexit]
    · rw [scan_other ho]
      exact ih
  | line hbody _ ih =>
    rw [cons_append, cons_append, append_assoc, cons_append, scan_line hbody]
    exact ih
  | block hbody _ ih =>
    rw [cons_append, cons_append, append_assoc, append_assoc, scan_block hbody]
    exact ih

lemma scan_word_append {w : List UInt8} (hw : ∀ c ∈ w, isWord c) (rest : List UInt8) :
    ∀ buf, buf.length + w.length ≤ bufLen →
    scan bufLen none false buf (w ++ rest) = scan bufLen none false (buf ++ w) rest := by
  induction w with
  | nil =>
    intro _ _
    rw [nil_append, append_nil]
  | cons c w ih =>
    intro _ hlen
    obtain ⟨hc, hw⟩ := forall_mem_cons.1 hw
    rw [length_cons] at hlen
    rw [cons_append, scan_word (isPunct_of_isWord hc) hc, if_pos (by omega), ih hw,
      append_assoc, singleton_append]
    rw [length_append, length_singleton]
    omega

end gaps

/-! ## Lexemes -/

inductive Lexeme where
  | punct (c : UInt8)
  | word (w : List UInt8)
  | literal (content : List UInt8)

/-- What `next_token` returns for a lexeme. -/
def Lexeme.token : Lexeme → List UInt8
  | .punct c => [c]
  | .word w => w
  | .literal content => content

/-- A word that fits into `buf`. -/
structure IsName (w : List UInt8) : Prop where
  nonempty : w ≠ []
  bytes : ∀ c ∈ w, isWord c = true
  fits : w.length ≤ 4095

/-- A literal that is read right, whatever follows it. -/
structure PlainLiteral (content : List UInt8) : Prop where
  literal : IsLiteral content
  noNul : (0 : UInt8) ∉ content
  fits : content.length ≤ 4095
  noBackslash : content.getLast? ≠ some (asc '\\')

lemma plainLiteral_of_not_mem {content : List UInt8} (hquote : asc '"' ∉ content)
    (hback : asc '\\' ∉ content) (hnul : (0 : UInt8) ∉ content) (hlen : content.length ≤ 4095) :
    PlainLiteral content := by
  refine ⟨⟨fun pre post heq => ?_, ?_⟩, hnul, hlen, fun h => hback (mem_of_getLast? h)⟩
  · exact absurd (by rw [heq]; simp) hquote
  rw [backslashes, takeWhile_eq_nil_iff.2]
  · rfl
  intro h
  have hmem := mem_reverse.1 (getElem_mem h)
  simpa using ne_of_mem_of_not_mem hmem hback

inductive Source : List Lexeme → List UInt8 → Prop where
  | nil : Source [] []
  | punct {g c ls t} : Gap g → isPunct c = true → Source ls t →
      Source (.punct c :: ls) (g ++ c :: t)
  | word {g w g' c ls t} : Gap g → IsName w → Gap g' → isPunct c = true → Source ls t →
      Source (.word w :: .punct c :: ls) (g ++ (w ++ (g' ++ c :: t)))
  | literal {g content ls t} : Gap g → PlainLiteral content → Source ls t →
      Source (.literal content :: ls) (g ++ asc '"' :: (content ++ asc '"' :: t))

/-- The tokens that are read one by one, and what is left then. -/
inductive Toks : List UInt8 → List (List UInt8) → List UInt8 → Prop where
  | nil {inp} : Toks inp [] inp
  | cons {inp t inp' ts rest} : nextTok inp = .ok (some t, inp') → Toks inp' ts rest →
      Toks inp (t :: ts) rest

lemma isWord_ne_zero {c} (h : isWord c) : c ≠ 0 := by
  rintro rfl
  cases h

lemma nextTok_of_scan {inp inp' t} (h : scan 4095 none false [] inp = .ok (t, inp', none)) :
    nextTok inp = .ok (t, inp') := by
  change (scan 4095 none false [] inp >>= fun r => Except.ok (r.1, r.2.1)) = _
  rw [h, ok_bind]

lemma nextTok_punct {g} (hg : Gap g) {c} (hc : isPunct c) (rest : List UInt8) :
    nextTok (g ++ c :: rest) = .ok (some [c], rest) := by
  have hne : c ≠ 0 := by
    rintro rfl
    cases hc
  apply nextTok_of_scan
  rw [hg.scan_eq, scan_punct hc, if_neg (not_not_intro rfl), if_pos (by decide),
    tokenExit, if_neg (fun h => cons_ne_nil _ _ h.1), cstr_of_not_mem]
  simpa using Ne.symm hne

lemma nextTok_word {g w g'} (hg : Gap g) (hw : IsName w) (hg' : Gap g') {c} (hc : isPunct c)
    (rest : List UInt8) :
    ∃ g'', Gap g'' ∧ nextTok (g ++ (w ++ (g' ++ c :: rest))) = .ok (some w, g'' ++ c :: rest) := by
  obtain ⟨g'', hg'', heq⟩ := hg'.scan_word_eq 4095 hw.nonempty hc rest
  refine ⟨g'', hg'', nextTok_of_scan ?_⟩
  rw [hg.scan_eq, scan_word_append hw.bytes _ [] (by simpa using hw.fits), nil_append, heq,
    cstr_of_not_mem]
  exact fun h => isWord_ne_zero (hw.bytes 0 h) rfl

lemma nextTok_literal {g content} (hg : Gap g) (hlit : PlainLiteral content) (rest : List UInt8) :
    nextTok (g ++ asc '"' :: (content ++ asc '"' :: rest)) = .ok (some content, rest) := by
  apply nextTok_of_scan
  rw [hg.scan_eq]
  exact (scan_literal_iff hlit.literal rest).2 ⟨hlit.noNul, hlit.fits, .inl hlit.noBackslash⟩

lemma Source.toks {ls : List Lexeme} (h : Source ls text) (rest : List UInt8) :
    Toks (text ++ rest) (ls.map (·.token)) rest := by
  induction h with
  | nil => exact .nil
  | punct hg hc _ ih =>
    rw [append_assoc]
    exact .cons (nextTok_punct hg hc _) ih
  | word hg hw hg' hc _ ih =>
    rw [append_assoc, append_assoc, append_assoc]
    obtain ⟨_, hg'', heq⟩ := nextTok_word hg hw hg' hc (_ ++ rest)
    exact .cons heq (.cons (nextTok_punct hg'' hc _) ih)
  | literal hg hlit _ ih =>
    rw [append_assoc, cons_append, append_assoc]
    exact .cons (nextTok_literal hg hlit _) ih

lemma nextTok_lt {inp inp' t : List UInt8} (h : nextTok inp = .ok (some t, inp')) :
    inp'.length < inp.length := by
  obtain ⟨⟨_, _, _⟩, hr, heq⟩ := bind_eq_ok h
  injection heq with heq
  obtain ⟨rfl, rfl⟩ := Prod.mk.inj heq
  exact (nextToken2_rest (by decide) hr).2.1 nofun

lemma Toks.uncons {inp rest t : List UInt8} {ts} (h : Toks inp (t :: ts) rest) :
    ∃ inp', nextTok inp = .ok (some t, inp') ∧ Toks inp' ts rest ∧ inp'.length < inp.length := by
  cases h with
  | cons htok h => exact ⟨_, htok, h, nextTok_lt htok⟩

lemma toks_append {inp rest ts us} :
    Toks inp (ts ++ us) rest ↔ ∃ mid, Toks inp ts mid ∧ Toks mid us rest := by
  constructor
  · intro h
    induction ts generalizing inp with
    | nil => exact ⟨inp, .nil, h⟩
    | cons t ts ih =>
      obtain ⟨_, htok, h', -⟩ := h.uncons
      obtain ⟨mid, hts, hus⟩ := ih h'
      exact ⟨mid, .cons htok hts, hus⟩
  · rintro ⟨_, hts, hus⟩
    induction hts with
    | nil => exact hus
    | cons htok _ ih => exact .cons htok (ih hus)

end LtpDdt.Metaparse
