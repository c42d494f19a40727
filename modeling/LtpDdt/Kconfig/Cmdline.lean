/-
Kconfig.Cmdline — `tst_kcmdline_parse` of `lib/tst_kconfig.c`.

* `line` is the whole array that `fgets` writes to: the text, a NUL, and what was there
  before. A read behind it is a `Fault`. `seen` is the largest index looked at.
* `buf` is the text before `b_pos`, `var_id` is `none` where it is -1.
* The table has less than 2³¹ entries, so that its indices fit `int`.

`textLoop` is the loop without indices. The two agree (`cmdlineLoop_agrees`) but
for a last word that is too long for `buf`: its loop stops at the NUL, and
`l_pos++` steps over it (`cmdlineParse_in_line_iff`).

What a word does to the table depends on its pieces before a `=` (`getElem?_afterWord`). The line
is parsed right where every word that names a key is the plain `key=value` (`Plain`).
-/
import LtpDdt.Kconfig.Read

namespace LtpDdt.Kconfig

/-- `struct tst_kcmdline_var` -/
structure TstKcmdlineVar where
  key : List Char
  value : List Char := []
  found : Bool := false
  deriving DecidableEq

/-- The locals of the loop that depend on the text, and the table. -/
structure CmdState where
  buf : List Char
  varId : Option Nat
  params : List TstKcmdlineVar
  deriving DecidableEq

/-- `case '='`: the loop over the table. -/
def matchKey (buf : List Char) : List TstKcmdlineVar → Nat → Option Nat →
    Option Nat × List TstKcmdlineVar
  | [], _, varId => (varId, [])
  | v :: params, i, varId =>
    if buf = v.key then
      let r := matchKey buf params (i + 1) (some i)
      (r.1, { v with found := true } :: r.2)
    else
      let r := matchKey buf params (i + 1) varId
      (r.1, v :: r.2)

def CmdState.atEq (st : CmdState) : CmdState :=
  let r := matchKey st.buf st.params 0 st.varId
  ⟨[], r.1, r.2⟩

/-- `case ' '`, `case '\n'` -/
def CmdState.atSep (st : CmdState) : CmdState :=
  match st.varId with
  | none => ⟨[], none, st.params⟩
  | some i =>
    if i < st.params.length then ⟨[], none, st.params.modify i fun v => { v with value := st.buf }⟩
    else ⟨[], none, st.params⟩

/-- `while (line[l_pos] != '\0' && line[l_pos] != ' ' && line[l_pos] != '\n')` -/
def skipWord : List Char → Nat → Except Fault Nat
  | [], _ => .error .access
  | c :: rest, i => if c ≠ '\x00' ∧ c ≠ ' ' ∧ c ≠ '\n' then skipWord rest (i + 1) else .ok i

structure CmdEnd where
  lPos : Nat
  seen : Nat
  params : List TstKcmdlineVar
  deriving DecidableEq

/-- The loop, with at most `n` rounds. -/
def cmdlineLoop (line : List Char) : Nat → Nat → Nat → CmdState → Except Fault CmdEnd
  | 0, _, _, _ => .error .access
  | n + 1, lPos, seen, st =>
    match (line)[lPos]? with
    | none => .error .access
    | some c =>
      let seen := max seen lPos
      if c = '\x00' then .ok ⟨lPos, seen, st.params⟩
      else if c = '=' then cmdlineLoop line n (lPos + 1) seen st.atEq
      else if c = ' ' ∨ c = '\n' then cmdlineLoop line n (lPos + 1) seen st.atSep
      else if st.buf.length + 1 ≥ 256 then do
        let stop ← skipWord (line.drop lPos) lPos
        let lPos := if line.getD stop '\x00' ≠ '\x00' then stop - 1 else stop
        cmdlineLoop line n (lPos + 1) (max seen stop) ⟨[], none, st.params⟩
      else cmdlineLoop line n (lPos + 1) seen ⟨st.buf ++ [c], st.varId, st.params⟩

def cmdlineParse (line : List Char) (params : List TstKcmdlineVar) : Except Fault CmdEnd :=
  cmdlineLoop line (line.length + 1) 0 0 ⟨[], none, params⟩

/-- `none` is `tst_brk`: nothing can be read. -/
def tstKcmdlineParse (junk file : List Char) (params : List TstKcmdlineVar) :
    Option (Except Fault (List TstKcmdlineVar)) :=
  match CTypes.fgets 1023 file with
  | [] => none
  | c :: text => some do
      let r ← cmdlineParse (c :: text ++ '\x00' :: junk) params
      .ok r.params

open CTypes List TstKcmdlineVar

variable {w : List Char} {words : List (List Char)}

/-! ## The loop over the text -/

def isSep (c : Char) : Bool := c == ' ' || c == '\n'

lemma isSep_iff (c : Char) : isSep c ↔ c = ' ' ∨ c = '\n' := by simp [isSep]

/-- The loop over the text; `skip` is the inner loop, `none` if that comes to the end. -/
def textLoop : Bool → List Char → CmdState → Option CmdState
  | false, [], st => some st
  | true, [], _ => none
  | true, c :: rest, st => if isSep c then textLoop false rest st.atSep else textLoop true rest st
  | false, c :: rest, st =>
    if c = '=' then textLoop false rest st.atEq
    else if isSep c then textLoop false rest st.atSep
    else if st.buf.length + 1 ≥ 256 then textLoop true rest ⟨[], none, st.params⟩
    else textLoop false rest ⟨st.buf ++ [c], st.varId, st.params⟩

lemma getD_length_append (pre rest : List Char) (b d : Char) :
    (pre ++ b :: rest).getD pre.length d = b := by simp

/-- A word that is too long is skipped. -/
lemma textLoop_skip (hw : ∀ c ∈ w, isSep c = false) {s} (hs : isSep s) (rest : List Char)
    (params : List TstKcmdlineVar) :
    textLoop true (w ++ s :: rest) ⟨[], none, params⟩ =
      textLoop false (s :: rest) ⟨[], none, params⟩ := by
  induction w with
  | nil =>
    have hne : s ≠ '=' := by
      rintro rfl
      cases hs
    simp [textLoop, hs, hne]
  | cons c w ih =>
    obtain ⟨hc, hw⟩ := forall_mem_cons.1 hw
    rw [cons_append, textLoop, hc, if_neg Bool.false_ne_true, ih hw]

lemma textLoop_skip_end (hw : ∀ c ∈ w, isSep c = false) (st : CmdState) :
    textLoop true w st = none := by
  induction w with
  | nil => rfl
  | cons c w ih =>
    obtain ⟨hc, hw⟩ := forall_mem_cons.1 hw
    rw [textLoop, hc, if_neg Bool.false_ne_true, ih hw]

/-! ## The loop over the line -/

/-- The inner loop stops at the next separator or `NUL`. -/
lemma skipWord_eq (hw : ∀ c ∈ w, isSep c = false ∧ c ≠ '\x00') {b} (hb : isSep b ∨ b = '\x00')
    (rest : List Char) (i : Nat) : skipWord (w ++ b :: rest) i = .ok (i + w.length) := by
  induction w generalizing i with
  | nil =>
    rw [nil_append, skipWord, if_neg, length_nil, Nat.add_zero]
    rintro ⟨h0, h1, h2⟩
    rcases hb with hb | hb
    · exact ((isSep_iff b).1 hb).elim h1 h2
    · exact h0 hb
  | cons c w ih =>
    obtain ⟨⟨hc, h0⟩, hw⟩ := forall_mem_cons.1 hw
    have hsep : ¬ (c = ' ' ∨ c = '\n') := by rw [← isSep_iff, hc]; exact Bool.false_ne_true
    rw [cons_append, skipWord, if_pos ⟨h0, fun h => hsep (.inl h), fun h => hsep (.inr h)⟩,
      ih hw, length_cons]
    congr 1
    omega

/-- What is read never goes back. -/
lemma le_seen {line} : ∀ {n lPos seen} {st} {r : CmdEnd},
    cmdlineLoop line n lPos seen st = .ok r → seen ≤ r.seen ∧ lPos ≤ r.seen
  | n + 1, lPos, seen, st, r, h => by
    rw [cmdlineLoop] at h
    split at h
    · cases h
    dsimp only at h
    split at h
    · cases h
      exact ⟨le_max_left _ _, le_max_right _ _⟩
    have key : ∀ {lPos' seen' st'}, max seen lPos ≤ seen' →
        cmdlineLoop line n lPos' seen' st' = .ok r → seen ≤ r.seen ∧ lPos ≤ r.seen := by
      intro _ _ _ _ h'
      have := (le_seen h').1
      omega
    split at h
    · exact key le_rfl h
    split at h
    · exact key le_rfl h
    split at h
    · cases hskip : skipWord (line.drop lPos) lPos with
      | error => rw [hskip] at h; cases h
      | ok =>
        rw [hskip] at h
        exact key (le_max_left _ _) h
    · exact key le_rfl h

/-- One character of the line. -/
lemma cmdlineLoop_cons {pre rest : List Char} {c} (hc : c ≠ '\x00') (n seen : Nat)
    (hseen : seen ≤ pre.length) (st : CmdState) :
    cmdlineLoop (pre ++ c :: rest) (n + 1) pre.length seen st =
      if c = '=' then cmdlineLoop (pre ++ c :: rest) n (pre.length + 1) pre.length st.atEq
      else if isSep c then cmdlineLoop (pre ++ c :: rest) n (pre.length + 1) pre.length st.atSep
      else if st.buf.length + 1 ≥ 256 then do
        let stop ← skipWord (c :: rest) pre.length
        let lPos := if (pre ++ c :: rest).getD stop '\x00' ≠ '\x00' then stop - 1 else stop
        cmdlineLoop (pre ++ c :: rest) n (lPos + 1) (max pre.length stop) ⟨[], none, st.params⟩
      else cmdlineLoop (pre ++ c :: rest) n (pre.length + 1) pre.length
        ⟨st.buf ++ [c], st.varId, st.params⟩ := by
  have hat : (pre ++ c :: rest)[pre.length]? = some c := by simp
  have hsep : (c = ' ' ∨ c = '\n') = (isSep c) := propext (isSep_iff c).symm
  rw [cmdlineLoop, hat]
  dsimp only
  rw [if_neg hc, Nat.max_eq_right hseen, drop_left]
  simp [hsep]

/-- What the loop over the line makes of a text of `n` characters whose loop
ends with `t`. -/
def Agrees (n : Nat) (t : Option CmdState) (r : Except Fault CmdEnd) : Prop :=
  match t with
  | some st => r = .ok ⟨n, n, st.params⟩
  | none => ∀ e, r = .ok e → n < e.seen

/-- The rest of a line is one word, or a word and more. -/
lemma word_split (rest : List Char) : (∀ c ∈ rest, isSep c = false) ∨
      ∃ w s tail, rest = w ++ s :: tail ∧ (∀ c ∈ w, isSep c = false) ∧ isSep s := by
  induction rest with
  | nil => exact .inl (forall_mem_nil _)
  | cons c rest ih =>
    cases hc : isSep c with
    | true => exact .inr ⟨[], c, rest, rfl, forall_mem_nil _, hc⟩
    | false =>
      rcases ih with h | ⟨w, s, tail, rfl, hw, hs⟩
      · exact .inl (forall_mem_cons.2 ⟨hc, h⟩)
      · exact .inr ⟨c :: w, s, tail, rfl, forall_mem_cons.2 ⟨hc, hw⟩, hs⟩

/-- **The loop over the buffer is the loop over the text**, while it stays in it. -/
lemma cmdlineLoop_agrees (junk : List Char) : ∀ n (pre rest : List Char) st seen,
    '\x00' ∉ rest → rest.length < n → seen ≤ pre.length →
    Agrees (pre.length + rest.length) (textLoop false rest st)
      (cmdlineLoop (pre ++ (rest ++ '\x00' :: junk)) n pre.length seen st)
  | n + 1, pre, [], st, seen, _, _, hseen => by
    have hat : (pre ++ ('\x00' :: junk))[pre.length]? = some '\x00' := by simp
    rw [nil_append, textLoop, cmdlineLoop, hat]
    simp [Agrees, Nat.max_eq_right hseen]
  | n + 1, pre, c :: rest, st, seen, h0, hn, hseen => by
    have hc : c ≠ '\x00' := (ne_of_not_mem_cons h0).symm
    replace h0 := not_mem_of_not_mem_cons h0
    rw [length_cons] at hn
    -- every branch but one goes on with the next character
    have next : ∀ st', Agrees (pre.length + (c :: rest).length) (textLoop false rest st')
        (cmdlineLoop (pre ++ c :: (rest ++ '\x00' :: junk)) n (pre.length + 1) pre.length st') := by
      intro st'
      have := cmdlineLoop_agrees junk n (pre ++ [c]) rest st' pre.length h0 (by omega) (by simp)
      rwa [length_append, length_singleton, append_assoc, Nat.add_assoc, Nat.add_comm 1] at this
    rw [cons_append, cmdlineLoop_cons (hc) n seen hseen, textLoop]
    split
    · exact next _
    split
    · exact next _
    rename_i hsep
    split
    · have hc' : isSep c = false ∧ c ≠ '\x00' := ⟨by simpa using hsep, hc⟩
      rcases word_split rest with hw | ⟨w, s, tail, rfl, hw, hs⟩
      · -- the word is the last one, and the step over it leaves the text
        have hskip := skipWord_eq (w := c :: rest) (b := '\x00')
          (forall_mem_cons.2 ⟨hc', fun d hd => ⟨hw d hd, ne_of_mem_of_not_mem hd h0⟩⟩)
          (.inr rfl) junk pre.length
        have hat : (pre ++ c :: (rest ++ '\x00' :: junk)).getD
            (pre.length + (c :: rest).length) '\x00' = '\x00' := by
          rw [← cons_append, ← append_assoc, ← length_append, getD_length_append]
        rw [textLoop_skip_end hw]
        intro e he
        rw [← cons_append, hskip, cons_append, ok_bind, hat] at he
        exact (le_seen he).2
      · -- a separator follows, and is looked at again
        have hs0 : s ≠ '\x00' := by
          rintro rfl
          cases hs
        have hskip := skipWord_eq (w := c :: w) (b := s) (forall_mem_cons.2 ⟨hc', fun d hd =>
            ⟨hw d hd, ne_of_mem_of_not_mem (mem_append_left _ hd) h0⟩⟩)
          (.inl hs) (tail ++ '\x00' :: junk) pre.length
        have hline : pre ++ c :: (w ++ s :: tail ++ '\x00' :: junk) =
            (pre ++ c :: w) ++ (s :: tail ++ '\x00' :: junk) := by simp
        have hat : ((pre ++ c :: w) ++ (s :: tail ++ '\x00' :: junk)).getD
            (pre.length + (c :: w).length) '\x00' = s := by
          rw [← length_append, cons_append, getD_length_append]
        have hrest : c :: (w ++ s :: tail ++ '\x00' :: junk) =
            c :: w ++ s :: (tail ++ '\x00' :: junk) := by simp
        have := cmdlineLoop_agrees junk n (pre ++ c :: w) (s :: tail) ⟨[], none, st.params⟩
          (pre ++ c :: w).length (fun h => h0 (mem_append_right _ h))
          (by simp only [length_append] at hn ⊢; omega) (Nat.le_refl _)
        rw [textLoop_skip hw hs, hrest, hskip, ok_bind, ← hrest, hline, hat, if_pos hs0]
        simp only [length_append, length_cons] at this ⊢
        rw [Nat.max_eq_right (by omega)]
        rwa [Nat.add_assoc, Nat.add_right_comm w.length 1] at this
    · exact next _

/-! ## Lines whose end is stepped over -/

/-- The last word has 256 characters in a row without a `=`, one more than `buf` holds. -/
def Overrun (text : List Char) : Prop :=
  ∃ pre run tail, text = pre ++ (run ++ tail) ∧ 256 ≤ run.length ∧ '=' ∉ run ∧
    ∀ c ∈ run ++ tail, isSep c = false

lemma overrun_cons_iff {b rest : List Char} {s} (hs : isSep s ∨ s = '=' ∧ b.length ≤ 255) :
    Overrun (b ++ s :: rest) ↔ Overrun rest := by
  have hin : ∀ {a run tail : List Char}, run ++ tail = a ++ s :: rest → a.length ≤ b.length →
      256 ≤ run.length → '=' ∉ run → ¬ ∀ c ∈ run ++ tail, isSep c = false := by
    intro a run tail heq _ hrun heqs hsep
    rcases hs with hs | ⟨rfl, _⟩
    · have := hsep s (by simp [heq])
      rw [hs] at this
      cases this
    have hlt : a.length < run.length := by omega
    have hat : (run ++ tail)[a.length]? = some '=' := by rw [heq]; simp
    rw [getElem?_append_left hlt] at hat
    exact heqs (mem_of_getElem? hat)
  constructor
  · rintro ⟨pre, run, tail, heq, hrun, heqs, hsep⟩
    rcases append_eq_append_iff.1 heq with ⟨a, rfl, ha⟩ | ⟨a, rfl, ha⟩
    · cases a with
      | nil => exact absurd hsep (hin (a := []) ha.symm (Nat.zero_le _) hrun heqs)
      | cons d a =>
        rw [cons_append, cons.injEq] at ha
        exact ⟨a, run, tail, ha.2, hrun, heqs, hsep⟩
    · exact absurd hsep (hin ha (by simp) hrun heqs)
  · rintro ⟨pre, run, tail, rfl, hrun, heqs, hsep⟩
    exact ⟨b ++ s :: pre, run, tail, by simp, hrun, heqs, hsep⟩

lemma CmdState.atSep_buf (st : CmdState) : st.atSep.buf = [] := by
  rw [CmdState.atSep]
  split
  · rfl
  · split <;> rfl

/-- The loop leaves the text just at an overlong last word. -/
lemma textLoop_eq_none (rest : List Char) :
    (∀ st, st.buf.length ≤ 255 → '=' ∉ st.buf → (∀ c ∈ st.buf, isSep c = false) →
      (textLoop false rest st = none ↔ Overrun (st.buf ++ rest))) ∧
    ∀ (st : CmdState) (run tail : List Char), 256 ≤ run.length → '=' ∉ run →
      (∀ c ∈ run ++ tail, isSep c = false) →
      (textLoop true rest st = none ↔ Overrun (run ++ tail ++ rest)) := by
  induction rest with
  | nil =>
    refine ⟨fun st hlen _ _ => ?_, fun st run tail hrun heqs hsep => ?_⟩
    · refine iff_of_false (by rw [textLoop]; exact Option.some_ne_none _) ?_
      rintro ⟨_, run, tail, heq, hrun, -⟩
      have := congrArg length heq
      simp only [append_nil, length_append] at this
      omega
    · refine iff_of_true rfl ⟨[], run, tail, ?_, hrun, heqs, hsep⟩
      rw [append_nil, nil_append]
  | cons c rest ih =>
    refine ⟨fun st hlen heqs hsep => ?_, fun st run tail hrun heqs hsep => ?_⟩
    · rw [textLoop]
      split
      · rename_i hc
        rw [overrun_cons_iff (.inr ⟨hc, hlen⟩)]
        exact ih.1 st.atEq (Nat.zero_le _) not_mem_nil (forall_mem_nil _)
      rename_i hc
      split
      · rename_i hs
        rw [overrun_cons_iff (.inl hs)]
        have := ih.1 st.atSep
        rw [st.atSep_buf] at this
        exact this (Nat.zero_le _) not_mem_nil (forall_mem_nil _)
      rename_i hs
      have heqs' : '=' ∉ st.buf ++ [c] := by simpa [heqs] using Ne.symm hc
      have hsep' : ∀ d ∈ st.buf ++ [c], isSep d = false := by
        intro d hd
        rcases mem_append.1 hd with hd | hd
        · exact hsep d hd
        · rw [mem_singleton.1 hd]
          simpa using hs
      rw [append_cons st.buf c rest]
      split_ifs with hfull
      · have := ih.2 ⟨[], none, st.params⟩ (st.buf ++ [c]) [] (by simpa using hfull) heqs'
          (by simpa using hsep')
        rwa [append_nil] at this
      · exact ih.1 ⟨st.buf ++ [c], st.varId, st.params⟩
          (by rw [length_append, length_singleton]; omega) heqs' hsep'
    · rw [textLoop]
      split_ifs with hs
      · rw [overrun_cons_iff (.inl hs)]
        have := ih.1 st.atSep
        rw [st.atSep_buf] at this
        exact this (Nat.zero_le _) not_mem_nil (forall_mem_nil _)
      have := ih.2 st run (tail ++ [c]) hrun heqs (by
        intro d hd
        rw [← append_assoc] at hd
        rcases mem_append.1 hd with hd | hd
        · exact hsep d hd
        · rw [mem_singleton.1 hd]
          simpa using hs)
      rw [append_cons, append_assoc run tail]
      exact this

/-- The function and the loop over the text agree. -/
lemma cmdlineParse_agrees {text : List Char} (h0 : '\x00' ∉ text) (junk : List Char)
    (params : List TstKcmdlineVar) :
    Agrees text.length (textLoop false text ⟨[], none, params⟩)
      (cmdlineParse (text ++ '\x00' :: junk) params) := by
  have := cmdlineLoop_agrees junk ((text ++ '\x00' :: junk).length + 1) [] text
    ⟨[], none, params⟩ 0 h0 (by rw [length_append]; omega) (Nat.zero_le _)
  rwa [length_nil, Nat.zero_add] at this

/-- The scan stops at the NUL of its line and looks at nothing behind it, unless the last word
overruns `buf`. -/
theorem cmdlineParse_in_line_iff (text junk : List Char) (h0 : '\x00' ∉ text)
    (params : List TstKcmdlineVar) :
    (∃ r, cmdlineParse (text ++ '\x00' :: junk) params = .ok r ∧ r.lPos = text.length ∧
      r.seen ≤ text.length) ↔ ¬ Overrun text := by
  have hnone := (textLoop_eq_none text).1 ⟨[], none, params⟩ (Nat.zero_le _) not_mem_nil
    (forall_mem_nil _)
  have hline := cmdlineParse_agrees h0 junk params
  rw [nil_append] at hnone
  rw [← hnone]
  cases htext : textLoop false text ⟨[], none, params⟩ with rw [htext] at hline
  | none =>
    refine iff_of_false ?_ (not_not_intro rfl)
    rintro ⟨r, hr, -, _⟩
    have := hline r hr
    omega
  | some =>
    exact iff_of_true ⟨_, hline, rfl, Nat.le_refl _⟩ (Option.some_ne_none _)

theorem cmdlineParse_in_line_iff_quiet :
    (∃ r, cmdlineParse ("quiet".toList ++ '\x00' :: ['x']) [] = .ok r ∧
      r.lPos = "quiet".toList.length ∧ r.seen ≤ "quiet".toList.length) ↔
    ¬ Overrun "quiet".toList :=
  cmdlineParse_in_line_iff "quiet".toList ['x'] (by decide) []

/-- A word that fills `line`: the scan leaves the array. With less in the line it goes on in what is
left on the stack. -/
theorem cmdlineParse_overrun :
    cmdlineParse (List.replicate 1023 'a' ++ ['\x00']) [] = .error .access ∧
      cmdlineParse (List.replicate 256 'a' ++ '\x00' :: ['b', '\x00']) [] = .ok ⟨258, 258, []⟩ := by
  decide +kernel

/-! ## A word -/

/-- The pieces of a word that a `=` follows, with `b` read already. -/
def names : List Char → List Char → List (List Char)
  | _, [] => []
  | b, c :: w => if c = '=' then b :: names [] w else names (b ++ [c]) w

/-- What follows the last `=` of a word. -/
def lastPiece : List Char → List Char → List Char
  | b, [] => b
  | b, c :: w => if c = '=' then lastPiece [] w else lastPiece (b ++ [c]) w

def lastIdx : List (List Char) → List Char → Option Nat
  | [], _ => none
  | k :: keys, name =>
    match lastIdx keys name with
    | some i => some (i + 1)
    | none => if name = k then some 0 else none

/-- The place of the last name that is a key of the table. -/
def choose (keys : List (List Char)) : List (List Char) → Option Nat
  | [] => none
  | name :: rest => (choose keys rest).or (lastIdx keys name)

def TstKcmdlineVar.mark (ns : List (List Char)) (v : TstKcmdlineVar) : TstKcmdlineVar :=
  { v with found := v.found || ns.contains v.key }

/-- The last entry of the name is the one that is set. -/
lemma matchKey_eq (buf : List Char) (params : List TstKcmdlineVar) (i : Nat) (varId : Option Nat) :
    matchKey buf params i varId = (((lastIdx (params.map (·.key)) buf).map (i + ·)).or varId,
        params.map (.mark [buf])) := by
  induction params generalizing i varId with
  | nil => rfl
  | cons v params ih =>
    have hmark : v.mark [buf] = if buf = v.key then { v with found := true } else v := by
      rw [mark]
      split_ifs with h
      · simp [h]
      · simp [Ne.symm h]
    rw [matchKey, ih, ih, map_cons, map_cons, lastIdx, hmark]
    cases lastIdx (params.map (·.key)) buf with
    | some => split <;> simp [Nat.add_assoc, Nat.add_comm 1]
    | none => split <;> simp

/-- The characters of a word, none of which is a separator. -/
def CmdState.read (st : CmdState) (w : List Char) : CmdState :=
  w.foldl (fun st c => if c = '=' then st.atEq else ⟨st.buf ++ [c], st.varId, st.params⟩) st

/-- A short word is read as it stands. -/
lemma textLoop_read (hw : ∀ c ∈ w, isSep c = false) (rest : List Char)
    (st : CmdState) (hlen : st.buf.length + w.length ≤ 255) :
    textLoop false (w ++ rest) st = textLoop false rest (st.read w) := by
  induction w generalizing st with
  | nil => rfl
  | cons c w ih =>
    obtain ⟨hc, hw⟩ := forall_mem_cons.1 hw
    rw [length_cons] at hlen
    have hroom : ¬ st.buf.length + 1 ≥ 256 := by omega
    rw [cons_append, textLoop, CmdState.read, foldl_cons, if_neg (Bool.eq_false_iff.1 hc)]
    split
    · exact ih hw _ (by change 0 + w.length ≤ 255; omega)
    · exact ih hw _ (by rw [length_append, length_singleton]; omega)

lemma TstKcmdlineVar.mark_mark (ns ms : List (List Char)) (v : TstKcmdlineVar) :
    (v.mark ns).mark ms = v.mark (ns ++ ms) := by simp [mark, Bool.or_assoc]

lemma TstKcmdlineVar.mark_nil : mark [] = id := by
  funext v
  simp [mark]

/-- What one word does to the parameters. -/
lemma read_eq (w b : List Char) (varId : Option Nat) (params : List TstKcmdlineVar) :
    CmdState.read ⟨b, varId, params⟩ w =
      ⟨lastPiece b w, (choose (params.map (·.key)) (names b w)).or varId,
        params.map (.mark (names b w))⟩ := by
  induction w generalizing b varId params with
  | nil => simp [CmdState.read, lastPiece, names, choose, mark_nil]
  | cons c w ih =>
    rw [CmdState.read, foldl_cons, ← CmdState.read, lastPiece, names]
    split
    · have hkeys : (params.map (mark [b])).map (·.key) = params.map (·.key) := by
        rw [map_map]
        rfl
      rw [CmdState.atEq, matchKey_eq]
      rw [ih, hkeys, choose, Option.or_assoc]
      simp [mark_mark]
    · exact ih _ _ _

lemma CmdState.atSep_eq (st : CmdState) : st.atSep = ⟨[], none, st.atSep.params⟩ := by
  rw [CmdState.atSep]
  split
  · rfl
  · split <;> rfl

/-! ## A line -/

/-- The text of a line: the words with blanks between them, and a newline. -/
def lineText : List (List Char) → List Char
  | [] => ['\n']
  | [w] => w ++ ['\n']
  | w :: words => w ++ ' ' :: lineText words

/-- The words within the first `n` characters, with the separator behind them, and the begin of a
word that is left. -/
def readPart : Nat → List (List Char) → List (List Char) × List Char
  | _, [] => ([], [])
  | n, w :: words =>
    if w.length < n then
      let r := readPart (n - (w.length + 1)) words
      (w :: r.1, r.2)
    else ([], w.take n)

variable (params : List TstKcmdlineVar)

def afterWord (w : List Char) : List TstKcmdlineVar :=
  (CmdState.read ⟨[], none, params⟩ w).atSep.params

/-- A word of a parameter, no longer than 255 characters. -/
def IsWord (w : List Char) : Prop :=
  w.length ≤ 255 ∧ ∀ c ∈ w, isSep c = false ∧ c ≠ '\x00'

lemma lineText_cons (w : List Char) (words : List (List Char)) :
    ∃ s rest, isSep s ∧ s ≠ '\x00' ∧ lineText (w :: words) = w ++ s :: rest ∧
      (rest = lineText words ∨ words = [] ∧ rest = []) := by
  cases words with
  | nil => exact ⟨'\n', [], rfl, by decide, rfl, .inr ⟨rfl, rfl⟩⟩
  | cons w' words => exact ⟨' ', lineText (w' :: words), rfl, by decide, rfl, .inl rfl⟩

lemma textLoop_read_end (hw : ∀ c ∈ w, isSep c = false)
    (params : List TstKcmdlineVar) (hlen : w.length ≤ 255) :
    (textLoop false w ⟨[], none, params⟩).map (·.params) =
      some (params.map (.mark (names [] w))) := by
  have := textLoop_read hw [] ⟨[], none, params⟩ (by simpa using hlen)
  rw [append_nil, read_eq] at this
  rw [this]
  rfl

/-- **What a whole line does to the parameters.** -/
lemma textLoop_line (words : List (List Char)) (hw : ∀ w ∈ words, IsWord w) (n : Nat)
    (params : List TstKcmdlineVar) :
    (textLoop false ((lineText words).take n) ⟨[], none, params⟩).map (·.params) =
      some (((readPart n words).1.foldl afterWord params).map
        (.mark (names [] (readPart n words).2))) := by
  induction words generalizing n params with
  | nil => cases n <;> simp [lineText, readPart, textLoop, names, mark_nil, isSep, CmdState.atSep]
  | cons w words ih =>
    obtain ⟨⟨hlen, hsep⟩, hw⟩ := forall_mem_cons.1 hw
    obtain ⟨s, _, hs, -, htext, hrest⟩ := lineText_cons w words
    rw [htext, readPart, take_append]
    split_ifs with hn
    · -- the word and its separator are read
      obtain ⟨m, rfl⟩ : ∃ m, n = w.length + 1 + m := ⟨n - (w.length + 1), by omega⟩
      have hne : s ≠ '=' := by
        rintro rfl
        cases hs
      rw [take_of_length_le (by omega), Nat.add_assoc, Nat.add_sub_cancel_left,
        Nat.add_comm 1, take_succ_cons,
        textLoop_read (fun c hc => (hsep c hc).1) _ _ (by simpa using hlen), textLoop,
        if_neg hne, if_pos hs, CmdState.atSep_eq]
      rw [← Nat.add_assoc, Nat.add_right_comm, Nat.add_sub_cancel_left]
      rcases hrest with rfl | ⟨rfl, rfl⟩
      · exact ih hw m _
      · simp [textLoop, readPart, names, mark_nil, afterWord]
    · rw [Nat.sub_eq_zero_of_le (by omega), take_zero, append_nil]
      exact textLoop_read_end (fun c hc => (hsep c (mem_of_mem_take hc)).1) params
        (Nat.le_trans (length_take_le' _ _) hlen)

/-! ## The table -/

/-- The text before and after the first `=` of a parameter. -/
def keyValue : List Char → Option (List Char × List Char)
  | [] => none
  | c :: w => if c = '=' then some ([], w) else (keyValue w).map fun kv => (c :: kv.1, kv.2)

/-- The value of the last of the words that is a parameter with this key. -/
def lastGiven (words : List (List Char)) (key : List Char) : Option (List Char) :=
  words.reverse.findSome? fun w => (keyValue w).bind fun kv =>
    if kv.1 = key then some kv.2 else none

def expected (words : List (List Char)) (params : List TstKcmdlineVar) : List TstKcmdlineVar :=
  params.map fun v =>
    match lastGiven words v.key with
    | some value => { v with value := value, found := true }
    | none => v

/-- The end of the last word with the key of entry `i` before its last `=` that follows a key of the
table. -/
def lastSet (keys : List (List Char)) (i : Nat) (words : List (List Char)) : Option (List Char) :=
  words.reverse.findSome? fun w =>
    if choose keys (names [] w) = some i then some (lastPiece [] w) else none

/-- At a separator the chosen entry gets its value. -/
lemma getElem?_atSep (b : List Char) (varId : Option Nat) (params : List TstKcmdlineVar) (i : Nat) :
    (CmdState.atSep ⟨b, varId, params⟩).params[i]? =
      params[i]?.map fun v => { v with value := if varId = some i then b else v.value } := by
  rw [CmdState.atSep]
  cases varId with
  | none => simp
  | some j =>
    dsimp only
    split
    · by_cases hj : j = i
      · simp [hj]
      · simp [hj]
    rename_i hlen
    cases hat : params[i]? with
    | none => rfl
    | some =>
      have hne : j ≠ i := by
        rintro rfl
        exact hlen (List.getElem?_eq_some_iff.1 hat).1
      simp [hne]

/-- One entry after one word. -/
lemma getElem?_afterWord (w : List Char) (i : Nat) :
    (afterWord params w)[i]? = params[i]?.map fun v =>
      { v.mark (names [] w) with
        value := if choose (params.map (·.key)) (names [] w) = some i then lastPiece [] w
          else v.value } := by
  rw [afterWord, read_eq, Option.or_none, getElem?_atSep, getElem?_map, Option.map_map]
  rfl

lemma afterWord_keys (w : List Char) : (afterWord params w).map (·.key) = params.map (·.key) := by
  apply ext_getElem?
  intro i
  rw [getElem?_map, getElem?_afterWord, Option.map_map, getElem?_map]
  rfl

/-- One entry after all words. -/
lemma getElem?_afterWords (words : List (List Char)) (params : List TstKcmdlineVar) (i : Nat) :
    (words.foldl afterWord params)[i]? = params[i]?.map fun v =>
      { v with
        found := v.found || words.any fun w => (names [] w).contains v.key
        value := (lastSet (params.map (·.key)) i words).getD v.value } := by
  induction words generalizing params with
  | nil => simp [lastSet]
  | cons w words ih =>
    rw [foldl_cons, ih, afterWord_keys, getElem?_afterWord, Option.map_map]
    congr 1
    funext v
    have hset : (lastSet (params.map (·.key)) i (w :: words)) =
        (lastSet (params.map (·.key)) i words).or
          (if choose (params.map (·.key)) (names [] w) = some i then some (lastPiece [] w)
            else none) := by
      rw [lastSet, reverse_cons, findSome?_append, ← lastSet, findSome?_singleton]
    rw [hset]
    simp only [Function.comp_apply, mark, Bool.or_assoc]
    cases lastSet (params.map (·.key)) i words with
    | some => rfl
    | none => split <;> rfl

lemma lineText_body (hw : ∀ w ∈ words, IsWord w) :
    ∃ body, lineText words = body ++ ['\n'] ∧ '\n' ∉ body ∧ '\x00' ∉ body := by
  induction words with
  | nil => exact ⟨[], rfl, not_mem_nil, not_mem_nil⟩
  | cons w words ih =>
    obtain ⟨⟨-, hsep⟩, hw⟩ := forall_mem_cons.1 hw
    have hnl : '\n' ∉ w := fun h => absurd (hsep _ h).1 (by decide)
    have h0 : '\x00' ∉ w := fun h => (hsep _ h).2 rfl
    cases words with
    | nil => exact ⟨w, rfl, hnl, h0⟩
    | cons =>
      obtain ⟨body, htext, hbody, hbody0⟩ := ih hw
      refine ⟨w ++ ' ' :: body, ?_, ?_, ?_⟩
      · rw [lineText, htext, append_assoc, cons_append]
        exact cons_ne_nil _ _
      · simp [hnl, hbody]
      · simp [h0, hbody0]

/-- `fgets` reads the line up to its size. -/
lemma fgets_line {body : List Char} (hbody : '\n' ∉ body) (n : Nat) :
    fgets n (body ++ ['\n']) = (body ++ ['\n']).take n := by
  have hidx : (body ++ ['\n']).idxOf CChar.newline + 1 = (body ++ ['\n']).length := by
    rw [show (CChar.newline : Char) = '\n' from rfl, idxOf_append_of_notMem hbody]
    simp
  rw [fgets_eq_take, hidx, take_of_length_le (by simp)]

/-- The function at a line of words. -/
lemma tstKcmdlineParse_line (hw : ∀ w ∈ words, IsWord w)
    (junk : List Char) (params : List TstKcmdlineVar) :
    tstKcmdlineParse junk (lineText words) params =
      some (.ok (((readPart 1023 words).1.foldl afterWord params).map
        (.mark (names [] (readPart 1023 words).2)))) := by
  obtain ⟨_, htext, hnl, h0⟩ := lineText_body hw
  have hread : fgets 1023 (lineText words) = (lineText words).take 1023 := by
    rw [htext]
    exact fgets_line hnl 1023
  have h0' : '\x00' ∉ (lineText words).take 1023 := by
    intro h
    have := mem_of_mem_take h
    rw [htext, mem_append] at this
    exact this.elim h0 (by decide)
  have hline := cmdlineParse_agrees h0' junk params
  have hloop := textLoop_line words hw 1023 params
  obtain ⟨_, hst, hparams⟩ := Option.map_eq_some_iff.1 hloop
  rw [hst] at hline
  rw [tstKcmdlineParse, hread]
  cases hcut : (lineText words).take 1023 with
  | nil => simp [htext] at hcut
  | cons c text =>
    rw [hcut] at hline
    dsimp only
    rw [show cmdlineParse (c :: text ++ '\x00' :: junk) params = _ from hline, ok_bind, hparams]

lemma lastGiven_eq_none {key} :
    lastGiven words key = none ↔ ¬ ∃ w ∈ words, ∃ value, keyValue w = some (key, value) := by
  simp only [lastGiven, findSome?_eq_none_iff, mem_reverse, Option.bind_eq_none_iff,
    ite_eq_right_iff, reduceCtorEq, Prod.forall, not_exists, not_and]
  constructor
  · intro h w hw value hv
    exact h w hw key value hv rfl
  · rintro h w hw k value hv rfl
    exact h w hw value hv

/-- When an entry is left as it should be: its key is found before a `=` of what is read exactly if
it is the key of a parameter, and the words that set the entry end like its parameters. -/
structure EntryRight (words : List (List Char)) (params : List TstKcmdlineVar) (i : Nat)
    (v : TstKcmdlineVar) : Prop where
  found : v.found = true ∨
    ((∃ w ∈ (readPart 1023 words).1 ++ [(readPart 1023 words).2], v.key ∈ names [] w) ↔
      ∃ w ∈ words, ∃ value, keyValue w = some (v.key, value))
  value : (lastSet (params.map (·.key)) i (readPart 1023 words).1).getD v.value =
    (lastGiven words v.key).getD v.value

/-- When an entry of the table is right. -/
lemma entryRight_iff (words : List (List Char)) (params : List TstKcmdlineVar) (i : Nat)
    (v : TstKcmdlineVar) :
    EntryRight words params i v ↔ mark (names [] (readPart 1023 words).2)
        { v with
          found := v.found || (readPart 1023 words).1.any fun w => (names [] w).contains v.key
          value := (lastSet (params.map (·.key)) i (readPart 1023 words).1).getD v.value } =
      match lastGiven words v.key with
      | some value => { v with value := value, found := true }
      | none => v := by
  obtain ⟨key, value, found⟩ := v
  have hnames : (found || (readPart 1023 words).1.any (fun w => (names [] w).contains key) ||
      (names [] (readPart 1023 words).2).contains key) ↔ found ∨
      ∃ w ∈ (readPart 1023 words).1 ++ [(readPart 1023 words).2], key ∈ names [] w := by
    simp [or_assoc]
  have hright : EntryRight words params i ⟨key, value, found⟩ ↔
      (lastSet (params.map (·.key)) i (readPart 1023 words).1).getD value =
        (lastGiven words key).getD value ∧
      (found ∨ ((∃ w ∈ (readPart 1023 words).1 ++ [(readPart 1023 words).2], key ∈ names [] w) ↔
          lastGiven words key ≠ none)) := by
    rw [Ne, lastGiven_eq_none, not_not]
    exact ⟨fun h => ⟨h.value, h.found⟩, fun h => ⟨h.2, h.1⟩⟩
  rw [hright, mark]
  generalize (∃ w ∈ (readPart 1023 words).1 ++ [(readPart 1023 words).2], key ∈ names [] w) = p
    at hnames
  cases lastGiven words key with rw [mk.injEq]
  | none =>
    refine ⟨fun ⟨hv, hf⟩ => ⟨rfl, hv, ?_⟩, fun ⟨_, hv, hf⟩ => ⟨hv, ?_⟩⟩
    · rw [Bool.eq_iff_iff, hnames]
      exact or_iff_left_of_imp fun hp => hf.resolve_right fun h => h.1 hp rfl
    dsimp only at hf
    rw [hf] at hnames
    exact or_iff_not_imp_left.2 fun hn => iff_of_false (fun hp => hn (hnames.2 (.inr hp)))
      (not_not_intro rfl)
  | some =>
    refine ⟨fun ⟨hv, hf⟩ => ⟨rfl, hv, ?_⟩, fun ⟨_, hv, hf⟩ => ⟨hv, ?_⟩⟩
    · exact hnames.2 (hf.imp_right fun h => h.2 (Option.some_ne_none _))
    · exact (hnames.1 hf).imp_right fun hp => iff_of_true hp (Option.some_ne_none _)

/-- **When all entries are right.** -/
lemma parse_right_iff (words : List (List Char)) (hw : ∀ w ∈ words, IsWord w)
    (junk : List Char) (params : List TstKcmdlineVar) :
    tstKcmdlineParse junk (lineText words) params = some (.ok (expected words params)) ↔
      ∀ i v, params[i]? = some v → EntryRight words params i v := by
  rw [tstKcmdlineParse_line hw, Option.some_inj, Except.ok.injEq]
  constructor
  · intro heq i v hv
    have := congrArg (·[i]?) heq
    simp only [expected, getElem?_map, getElem?_afterWords, hv, Option.map_some,
      Option.some_inj] at this
    exact (entryRight_iff words params i v).2 this
  intro hall
  apply ext_getElem?
  intro i
  rw [expected, getElem?_map, getElem?_afterWords, getElem?_map]
  cases hv : params[i]? with
  | none => rfl
  | some v =>
    rw [Option.map_some, Option.map_some, Option.map_some, Option.some_inj]
    exact (entryRight_iff words params i v).1 (hall i v hv)

/-! ## The condition -/

lemma findSome?_congr_mem {α β : Type} {l : List α} {f g : α → Option β}
    (h : ∀ x ∈ l, f x = g x) : l.findSome? f = l.findSome? g := by
  induction l with
  | nil => rfl
  | cons x l ih =>
    rw [findSome?_cons, findSome?_cons, h x mem_cons_self,
      ih fun y hy => h y (mem_cons_of_mem x hy)]

section

variable {keys : List (List Char)} {key value : List Char} {i : Nat}

/-- The names of a word `key=value`. -/
lemma names_of_keyValue (h : keyValue w = some (key, value)) (b : List Char) :
    names b w = (b ++ key) :: names [] value ∧ lastPiece b w = lastPiece [] value := by
  induction w generalizing b key with
  | nil => cases h
  | cons c w ih =>
    rw [keyValue] at h
    rw [names, lastPiece]
    split at h
    case isTrue heq =>
      cases h
      rw [if_pos heq, if_pos heq, append_nil]
      exact ⟨rfl, rfl⟩
    case isFalse hne =>
      obtain ⟨⟨key', value'⟩, hkv, hcons⟩ := Option.map_eq_some_iff.1 h
      cases hcons
      rw [if_neg hne, if_neg hne, (ih hkv _).1, (ih hkv _).2, append_assoc]
      exact ⟨rfl, rfl⟩

/-- A word with no `=` names nothing. -/
lemma names_of_not_mem (h : '=' ∉ w) (b : List Char) : names b w = [] ∧ lastPiece b w = b ++ w := by
  induction w generalizing b with
  | nil => simp [names, lastPiece]
  | cons c w ih =>
    have hne : c ≠ '=' := fun hc => h (hc ▸ mem_cons_self)
    rw [names, lastPiece, if_neg hne, if_neg hne, (ih (fun hm => h (mem_cons_of_mem c hm)) _).1,
      (ih (fun hm => h (mem_cons_of_mem c hm)) _).2, append_assoc]
    exact ⟨rfl, rfl⟩

lemma not_mem_lastPiece (w : List Char) {b} (hb : '=' ∉ b) : '=' ∉ lastPiece b w := by
  induction w generalizing b with
  | nil => exact hb
  | cons c w ih =>
    rw [lastPiece]
    split
    · exact ih not_mem_nil
    · rename_i hne
      exact ih (by simp [hb, Ne.symm hne])

lemma lastIdx_eq_none : lastIdx keys key = none ↔ key ∉ keys := by
  induction keys with
  | nil => simp [lastIdx]
  | cons k keys ih =>
    rw [lastIdx, mem_cons, not_or, ← ih]
    cases lastIdx keys key <;> simp

/-- The last index of a key. -/
lemma lastIdx_eq_some : lastIdx keys key = some i ↔
    keys[i]? = some key ∧ key ∉ keys.drop (i + 1) := by
  induction keys generalizing i with
  | nil => simp [lastIdx]
  | cons k keys ih =>
    have hnone : lastIdx keys key = none ↔ key ∉ keys := lastIdx_eq_none
    rw [lastIdx]
    cases hl : lastIdx keys key with rw [hl] at ih hnone
    | none =>
      have hnot := hnone.1 rfl
      cases i with
      | zero => simp [eq_comm, hnot]
      | succ i =>
        refine iff_of_false (by dsimp only; split <;> simp) fun hat => hnot ?_
        exact mem_of_getElem? (by simpa using hat.1)
    | some j =>
      cases i with
      | zero => simp at hnone; simp [hnone]
      | succ i => simpa using ih (i := i)

lemma mem_of_choose {ns : List (List Char)} (h : choose keys ns = some i) :
    ∃ name ∈ ns, lastIdx keys name = some i := by
  induction ns with
  | nil => cases h
  | cons name rest ih =>
    rw [choose, Option.or_eq_some_iff] at h
    rcases h with h | ⟨-, h⟩
    · obtain ⟨n, hn, hi⟩ := ih h
      exact ⟨n, mem_cons_of_mem _ hn, hi⟩
    · exact ⟨name, mem_cons_self, h⟩

end

/-- What the line has of the key of an entry: a parameter within the first 1023 characters that
names it before a `=` has it as its key, has no other `=`, and gives a value that a later entry with
the same key does not get instead; a parameter behind that does not have it. -/
structure Plain (words : List (List Char)) (params : List TstKcmdlineVar) (i : Nat)
    (v : TstKcmdlineVar) : Prop where
  whole : ∀ w ∈ (readPart 1023 words).1, v.key ∈ names [] w →
    ∃ value, keyValue w = some (v.key, value) ∧ '=' ∉ value ∧
      (value = v.value ∨ v.key ∉ (params.map (·.key)).drop (i + 1))
  cut : v.key ∉ names [] (readPart 1023 words).2
  unread : ∀ w ∈ words.drop (readPart 1023 words).1.length, ∀ value,
    keyValue w ≠ some (v.key, value)

section

variable {params : List TstKcmdlineVar} {i : Nat} {v : TstKcmdlineVar} {key value : List Char}

lemma readPart_append (n : Nat) (words : List (List Char)) :
    (readPart n words).1 ++ words.drop (readPart n words).1.length = words := by
  induction words generalizing n with
  | nil => rfl
  | cons w words ih =>
    rw [readPart]
    split
    · simpa using ih _
    · rfl

lemma key_mem_names (h : keyValue w = some (key, value)) :
    key ∈ names [] w := by
  rw [(names_of_keyValue h []).1]
  exact mem_cons_self

/-- The entry that is chosen is named in the word. -/
lemma choose_mem (hv : params[i]? = some v)
    (h : choose (params.map (·.key)) (names [] w) = some i) :
    v.key ∈ names [] w ∧ v.key ∉ (params.map (·.key)).drop (i + 1) := by
  obtain ⟨name, hname, hidx⟩ := mem_of_choose h
  obtain ⟨hat, hlast⟩ := lastIdx_eq_some.1 hidx
  rw [getElem?_map, hv] at hat
  cases hat
  exact ⟨hname, hlast⟩

lemma given_eq_some : ((keyValue w).bind fun kv =>
    if kv.1 = key then some kv.2 else none) = some value ↔ keyValue w = some (key, value) := by
  rw [Option.bind_eq_some_iff]
  constructor
  · rintro ⟨⟨_, _⟩, hkv, h⟩
    split at h
    · rename_i heq
      cases h
      rw [hkv, ← heq]
    · cases h
  · intro h
    exact ⟨_, h, if_pos rfl⟩

lemma lastGiven_mem (h : lastGiven words key = some value) :
    ∃ w ∈ words, keyValue w = some (key, value) := by
  obtain ⟨w, hw, hgiven⟩ := exists_of_findSome?_eq_some h
  exact ⟨w, mem_reverse.1 hw, given_eq_some.1 hgiven⟩

/-- A plain line is parsed right for the entry: the words that set it are those with its key. -/
lemma Plain.entryRight (h : Plain words params i v) (hv : params[i]? = some v) :
    EntryRight words params i v := by
  obtain ⟨hwhole, hcut, hunread⟩ := h
  have hsplit := readPart_append 1023 words
  refine ⟨.inr ⟨?_, ?_⟩, ?_⟩
  · rintro ⟨w, hw, hk⟩
    rcases mem_append.1 hw with hw | hw
    · obtain ⟨value, hkv, -⟩ := hwhole w hw hk
      rw [← hsplit]
      exact ⟨w, mem_append_left _ hw, value, hkv⟩
    · rw [mem_singleton.1 hw] at hk
      exact absurd hk hcut
  · rintro ⟨w, hw, value, hkv⟩
    rw [← hsplit] at hw
    rcases mem_append.1 hw with hw | hw
    · exact ⟨w, mem_append_left _ hw, key_mem_names hkv⟩
    · exact absurd hkv (hunread w hw value)
  have hgiven : lastGiven words v.key = lastGiven (readPart 1023 words).1 v.key := by
    have hnone : lastGiven (words.drop (readPart 1023 words).1.length) v.key = none :=
      lastGiven_eq_none.2 fun ⟨w, hw, value, hkv⟩ => hunread w hw value hkv
    conv_lhs => rw [← hsplit, lastGiven, reverse_append, findSome?_append]
    rw [← lastGiven, hnone, Option.none_or]
    rfl
  rw [hgiven]
  by_cases hlast : v.key ∉ (params.map (·.key)).drop (i + 1)
  · rw [lastSet, lastGiven]
    congr 1
    refine findSome?_congr_mem fun w hw => ?_
    by_cases hk : v.key ∈ names [] w
    · obtain ⟨value, hkv, hne, -⟩ := hwhole w (mem_reverse.1 hw) hk
      obtain ⟨hnames, hpiece⟩ := names_of_keyValue hkv []
      have hidx : lastIdx (params.map (·.key)) v.key = some i :=
        lastIdx_eq_some.2 ⟨by rw [getElem?_map, hv]; rfl, hlast⟩
      rw [given_eq_some.2 hkv, hnames, hpiece, (names_of_not_mem hne []).1,
        (names_of_not_mem hne []).2, choose, choose, Option.none_or, nil_append, nil_append,
        if_pos hidx]
    · rw [if_neg fun hc => hk (choose_mem hv hc).1, eq_comm, Option.eq_none_iff_forall_ne_some]
      exact fun value hg => hk (key_mem_names (given_eq_some.1 hg))
  · have hset : lastSet (params.map (·.key)) i (readPart 1023 words).1 = none :=
      findSome?_eq_none_iff.2 fun w _ => if_neg fun hc => hlast (choose_mem hv hc).2
    rw [hset]
    cases hl : lastGiven (readPart 1023 words).1 v.key with
    | none => rfl
    | some value =>
      obtain ⟨w, hw, hkv⟩ := lastGiven_mem hl
      obtain ⟨value', hkv', -, hval⟩ := hwhole w hw (key_mem_names hkv)
      rw [hkv] at hkv'
      cases hkv'
      exact (hval.resolve_right hlast).symm

/-- The key is on the line at most once, with another value than the entry has. -/
structure NamedOnce (words : List (List Char)) (v : TstKcmdlineVar) : Prop where
  unfound : v.found = false
  once : (words.filter (v.key ∈ names [] ·)).length ≤ 1
  fresh : ∀ w ∈ words, keyValue w ≠ some (v.key, v.value)

lemma mem_naming (hw : w ∈ words) (hk : v.key ∈ names [] w) :
    w ∈ words.filter (v.key ∈ names [] ·) :=
  mem_filter.2 ⟨hw, decide_eq_true hk⟩

/-- One word alone names the entry. -/
lemma NamedOnce.unique (ho : NamedOnce words v) {w w' : List Char} (hw : w ∈ words)
    (hw' : w' ∈ words) (hk : v.key ∈ names [] w) (hk' : v.key ∈ names [] w') : w = w' := by
  have hmem := mem_naming hw hk
  have hmem' := mem_naming hw' hk'
  have honce := ho.once
  generalize words.filter (v.key ∈ names [] ·) = l at *
  rcases l with _ | ⟨u, _ | ⟨_, _⟩⟩
  · cases hmem
  · rw [mem_singleton.1 hmem, mem_singleton.1 hmem']
  · simp at honce

/-- The entry is not named on both sides of the cut. -/
lemma NamedOnce.not_both (ho : NamedOnce words v) {n : Nat} {w w' : List Char}
    (hw : w ∈ (readPart n words).1) (hw' : w' ∈ words.drop (readPart n words).1.length)
    (hk : v.key ∈ names [] w) (hk' : v.key ∈ names [] w') : False := by
  have honce := ho.once
  have hpos := length_pos_of_mem (mem_naming hw hk)
  have hpos' := length_pos_of_mem (mem_naming hw' hk')
  rw [← readPart_append n words, filter_append, length_append] at honce
  omega

lemma names_take (w b : List Char) (n : Nat) : names b (w.take n) ⊆ names b w := by
  induction w generalizing b n with
  | nil => simp
  | cons c w ih =>
    cases n with
    | zero => exact fun _ h => absurd h not_mem_nil
    | succ n =>
      rw [take_succ_cons, names, names]
      split
      · exact cons_subset_cons _ (ih _ _)
      · exact ih _ _

/-- A name in the cut word is a name of the word. -/
lemma readPart_cut (n : Nat) (words : List (List Char)) (h : key ∈ names [] (readPart n words).2) :
    ∃ w ∈ words.drop (readPart n words).1.length, key ∈ names [] w := by
  induction words generalizing n with
  | nil => cases h
  | cons w words ih =>
    rw [readPart] at h ⊢
    split at h
    · rename_i hlt
      rw [if_pos hlt]
      exact ih _ h
    · rename_i hlt
      rw [if_neg hlt]
      exact ⟨w, mem_cons_self, names_take w [] n h⟩

/-- A parameter with the key that is parsed right is whole, and has one `=`. -/
lemma NamedOnce.set (ho : NamedOnce words v) (hv : params[i]? = some v)
    (h : EntryRight words params i v)
    (hgiven : ∃ w ∈ words, ∃ value, keyValue w = some (v.key, value)) :
    ∃ w ∈ (readPart 1023 words).1, ∃ value, keyValue w = some (v.key, value) ∧ '=' ∉ value ∧
      v.key ∉ (params.map (·.key)).drop (i + 1) := by
  obtain ⟨value, hlast⟩ := Option.ne_none_iff_exists'.1
    (mt lastGiven_eq_none.1 (not_not_intro hgiven))
  obtain ⟨w, hw, hkv⟩ := lastGiven_mem hlast
  have hne : value ≠ v.value := fun heq => ho.fresh w hw (heq ▸ hkv)
  have hval := h.value
  rw [hlast, Option.getD_some] at hval
  cases hset : lastSet (params.map (·.key)) i (readPart 1023 words).1 with rw [hset] at hval
  | none => exact absurd hval.symm hne
  | some value' =>
    obtain rfl : value' = value := hval
    obtain ⟨u, hu, hchoose⟩ := exists_of_findSome?_eq_some hset
    split at hchoose
    case isFalse => cases hchoose
    case isTrue hc =>
      obtain ⟨hk, hlater⟩ := choose_mem hv hc
      have hpiece : lastPiece [] u = value' := Option.some.inj hchoose
      have hu := mem_reverse.1 hu
      -- both have the key, so they are the same word
      have huw : u = w := ho.unique (by
        rw [← readPart_append 1023 words]
        exact mem_append_left _ hu)
        hw hk (key_mem_names hkv)
      refine ⟨u, hu, value', huw ▸ hkv, ?_, hlater⟩
      rw [← hpiece]
      exact not_mem_lastPiece u not_mem_nil

/-- Where the key is on the line once, only plain lines are parsed right. -/
lemma NamedOnce.plain (ho : NamedOnce words v) (hv : params[i]? = some v)
    (h : EntryRight words params i v) : Plain words params i v := by
  have hfound := h.found.resolve_left (by rw [ho.unfound]; simp)
  refine ⟨fun w hw hk => ?_, fun hk => ?_, fun w hw value hkv => ?_⟩
  · obtain ⟨u, hu, value, hkv, hne, hlater⟩ :=
      ho.set hv h (hfound.1 ⟨w, mem_append_left _ hw, hk⟩)
    have hsub := fun {x} (hx : x ∈ (readPart 1023 words).1) =>
      readPart_append 1023 words ▸ mem_append_left (words.drop (readPart 1023 words).1.length) hx
    obtain rfl := ho.unique (hsub hw) (hsub hu) hk (key_mem_names hkv)
    exact ⟨value, hkv, hne, .inr hlater⟩
  · obtain ⟨u, hu, value, hkv, -⟩ :=
      ho.set hv h (hfound.1 ⟨_, mem_append_right _ (mem_singleton.2 rfl), hk⟩)
    obtain ⟨w, hw, hk'⟩ := readPart_cut 1023 words hk
    exact ho.not_both hu hw (key_mem_names hkv) hk'
  · have hmem : w ∈ words := mem_of_mem_drop hw
    obtain ⟨u, hu, value', hkv', -⟩ := ho.set hv h ⟨w, hmem, value, hkv⟩
    exact ho.not_both hu hw (key_mem_names hkv') (key_mem_names hkv)

end

/-- **Where the line is parsed right**: if it is plain for every entry, and only then if it has the
keys once. -/
theorem tstKcmdlineParse_right (words : List (List Char)) (hw : ∀ w ∈ words, IsWord w)
    (junk : List Char) (params : List TstKcmdlineVar) :
    ((∀ i v, params[i]? = some v → Plain words params i v) →
        tstKcmdlineParse junk (lineText words) params = some (.ok (expected words params))) ∧
      ((∀ v ∈ params, NamedOnce words v) →
        tstKcmdlineParse junk (lineText words) params = some (.ok (expected words params)) →
        ∀ i v, params[i]? = some v → Plain words params i v) := by
  rw [parse_right_iff words hw]
  exact ⟨fun h i v hv => (h i v hv).entryRight hv,
    fun ho h i v hv => (ho v (mem_of_getElem? hv)).plain hv (h i v hv)⟩

/-- A bare word and two parameters, each for an entry. -/
theorem tstKcmdlineParse_right_quiet :
    tstKcmdlineParse [] (lineText ["quiet".toList, "ro=1".toList, "tty=S0".toList])
        [⟨"ro".toList, [], false⟩, ⟨"tty".toList, [], false⟩] =
      some (.ok [⟨"ro".toList, "1".toList, true⟩, ⟨"tty".toList, "S0".toList, true⟩]) := by
  have hread : readPart 1023 ["quiet".toList, "ro=1".toList, "tty=S0".toList] =
      (["quiet".toList, "ro=1".toList, "tty=S0".toList], []) := by decide +kernel
  refine (tstKcmdlineParse_right _ ?_ [] _).1 ?_
  · simp [IsWord, isSep]
  · have hplain {i : Nat} {v : TstKcmdlineVar} (h : ∀ w ∈ ["quiet".toList, "ro=1".toList,
        "tty=S0".toList], v.key ∈ names [] w → ∃ value, keyValue w = some (v.key, value) ∧
          '=' ∉ value ∧ (value = v.value ∨ v.key ∉ ["ro".toList, "tty".toList].drop (i + 1))) :
        Plain ["quiet".toList, "ro=1".toList, "tty=S0".toList]
          [⟨"ro".toList, [], false⟩, ⟨"tty".toList, [], false⟩] i v := by
      refine ⟨?_, ?_, ?_⟩ <;> rw [hread]
      · exact h
      · exact not_mem_nil
      · exact fun _ h => absurd h not_mem_nil
    rintro (_ | _ | i) v hv
    · cases hv
      refine hplain ?_
      simp only [forall_mem_cons]
      exact ⟨fun h => absurd h (by decide), fun _ => ⟨"1".toList, by decide⟩,
        fun h => absurd h (by decide), fun _ h => absurd h not_mem_nil⟩
    · cases hv
      refine hplain ?_
      simp only [forall_mem_cons]
      exact ⟨fun h => absurd h (by decide), fun h => absurd h (by decide),
        fun _ => ⟨"S0".toList, by decide⟩, fun _ h => absurd h not_mem_nil⟩
    · simp at hv

/-- The value of `root=UUID=x` is cut at its own `=`. -/
theorem tstKcmdlineParse_cuts_value :
    tstKcmdlineParse [] "root=UUID=x\n".toList [⟨"root".toList, [], false⟩] =
        some (.ok [⟨"root".toList, "x".toList, true⟩]) ∧
      lineText ["root=UUID=x".toList] = "root=UUID=x\n".toList ∧
      expected ["root=UUID=x".toList] [⟨"root".toList, [], false⟩] =
        [⟨"root".toList, "UUID=x".toList, true⟩] := by
  decide +kernel

end LtpDdt.Kconfig
