/-
MetaparseSh.Shell — `metadata/metaparse-sh.c`: the `doc` and `env` blocks of a shell
test, printed as JSON.

* The file is the list of its bytes, and `line` the array that `fgets` fills; its first
  content is a parameter. The two blanks written to it before a line of an `env` block
  is printed are overwritten by the next `fgets`, and not kept.
* `line[strlen(line)-1]` is in front of the array if the line starts with a NUL; the
  run ends with `none` then.
* `stdout` is what is written to it.
* `basename` is that of a path without a slash at its end.

§1 cuts a test into parts, §2 runs `extract_metadata` over them and §3
`parse_shell`, which ends an `env` block at its `# }` and takes the `# ---`
behind it for the start of a block: `sameBlocks_iff`.
-/
import LtpDdt.Metaparse.Lexer
import LtpDdt.CTypes.Result
import LtpDdt.Json.Layout
import LtpDdt.RunShell.Extract

namespace LtpDdt.MetaparseSh

open Bytes CTypes DataStorage

/-- `enum state` -/
inductive State where
  | none
  | start
  | docFirst
  | doc
  | envStart
  | envFirst
  | env
  deriving DecidableEq

structure Shell where
  state : State := .none
  started : Bool := false
  out : List UInt8 := []

variable (path : List UInt8)

def basename : List UInt8 := (path.reverse.takeWhile (· != 0x2f)).reverse

def jsonStart (s : Shell) : Shell :=
  if s.started then s
  else { s with
    started := true
    out := s.out ++ (ascii "   \"" ++ (basename path ++ ascii "\": \x7b\n")) }

def jsonFinish (s : Shell) : List UInt8 :=
  if s.started then
    s.out ++ (ascii "   \"fname\": \"" ++ (path ++ ascii "\"\n") ++ ascii "  \x7d")
  else s.out

/-- The `switch`: `text` is the string at `line+2`, `blanked` the line with blanks for its first two
bytes. -/
def parseLine (signed : Bool) (path line text blanked : List UInt8) (s : Shell) : Shell :=
  match s.state with
  | .none => if line = ascii "# ---" then { s with state := .start } else s
  | .start =>
    if line = ascii "# doc" then
      let s := jsonStart path s
      { s with state := .docFirst, out := s.out ++ ascii "   \"doc\": [\n" }
    else if line = ascii "# env" then { jsonStart path s with state := .envStart }
    else { s with state := .none }
  | .doc | .docFirst =>
    if line = ascii "# ---" then { s with state := .none, out := s.out ++ ascii "\n   ],\n" }
    else
      { s with
        state := .doc
        out := s.out ++ ((if s.state = .docFirst then [] else ascii ",\n") ++
          dataFprintfEsc signed 4 text) }
  | .envStart => if line = ascii "# \x7b" then { s with state := .envFirst } else s
  | .env | .envFirst =>
    if line = ascii "# \x7d" then { s with state := .none, out := s.out ++ ascii ",\n" }
    else
      { s with
        state := .env
        out := s.out ++ ((if s.state = .envFirst then [] else ascii "\n") ++ blanked) }

/-- A round of the loop, after `fgets` has read `piece`. -/
def readLine (signed : Bool) (path : List UInt8) (s : Shell × List UInt8) (piece : List UInt8) :
    Option (Shell × List UInt8) :=
  let line := store s.2 piece
  match (cstr line).length with
  | 0 => none
  | n + 1 =>
    let line := line.set n 0
    some (parseLine signed path (cstr line) (cstr (line.drop 2))
      (cstr ((line.set 0 0x20).set 1 0x20)) s.1, line)

def parseShell (signed : Bool) (path junk file : List UInt8) : Option (List UInt8) := do
  let s ← (fgetsAll 4095 [] file).foldlM (readLine signed path) ({}, junk)
  some (jsonFinish path s.1)

open RunShell List
open Json (Seq)

variable {as : List (List UInt8)} {st : ParserState} {line : List UInt8}

/-! ## §1 Shell tests -/

inductive Block where
  | doc
  | env
  deriving DecidableEq

variable {o : Option Block}

structure IsBlockLine (line : List UInt8) : Prop where
  marked : line.head? = some 0x23
  notEnd : line ≠ ascii "# ---"

/-- The text between the braces, when the lines of a block are put together. -/
def objectText (lines : List (List UInt8)) : List UInt8 :=
  0x0a :: lines.flatMap fun line => line.drop 2 ++ [0x0a]

/-- A line outside of blocks, a `doc` block with its lines, an `env` block with the lines between
its braces and its object. -/
inductive Part where
  | other (line : List UInt8) (notStart : line ≠ ascii "# ---")
  | doc (lines : List (List UInt8)) (marked : ∀ line ∈ lines, IsBlockLine line)
  | env (lines : List (List UInt8)) (marked : ∀ line ∈ lines, IsBlockLine line)
      (object : Seq .obj) (holds : object.text true = objectText lines ++ [0x7d])

variable {parts : List Part}

def Part.lines : Part → List (List UInt8)
  | .other line _ => [line]
  | .doc lines _ => ascii "# ---" :: ascii "# doc" :: (lines ++ [ascii "# ---"])
  | .env lines _ _ _ =>
    ascii "# ---" :: ascii "# env" :: ascii "# \x7b" ::
      (lines ++ [ascii "# \x7d", ascii "# ---"])

/-- For each line of a part, the block that it opens. -/
def Part.opens : Part → List (Option Block)
  | .other _ _ => [none]
  | .doc lines _ => none :: some .doc :: List.replicate (lines.length + 1) none
  | .env lines _ _ _ => none :: some .env :: List.replicate (lines.length + 3) none

def shellTest (parts : List Part) : List UInt8 := linesText (parts.flatMap Part.lines)

/-- What `fgets` reads from it. -/
def withNewline (lines : List (List UInt8)) : List (List UInt8) := lines.map (· ++ [0x0a])

/-! ### Found blocks -/

def opened : ParserState → ParserState → Option Block
  | .esc, .doc => some .doc
  | .esc, .env => some .env
  | _, _ => none

/-- The blocks that `extract_metadata` finds, line by line. -/
def extractBlocks : Extract → List (List UInt8) → List (Option Block)
  | _, [] => []
  | s, piece :: pieces =>
    match extractLine s piece with
    | .ok s' => opened s.state s'.state :: extractBlocks s' pieces
    | .error _ => []

def shellOpened : State → State → Option Block
  | .start, .docFirst => some .doc
  | .start, .envStart => some .env
  | _, _ => none

/-- The blocks that `parse_shell` finds. -/
def shellBlocks (signed : Bool) (path : List UInt8) :
    Shell × List UInt8 → List (List UInt8) → List (Option Block)
  | _, [] => []
  | s, piece :: pieces =>
    match readLine signed path s piece with
    | some s' => shellOpened s.1.state s'.1.state :: shellBlocks signed path s' pieces
    | none => []

/-! ## §2 `extract_metadata` -/

lemma withNewline_append (as bs : List (List UInt8)) :
    withNewline (as ++ bs) = withNewline as ++ withNewline bs := map_append

variable {s : Extract} {st₁ st₂ : ParserState} {os : List (Option Block)}
  {lines : List (List UInt8)}

lemma extractBlocks_append {s'} (bs : List (List UInt8)) (h : as.foldlM extractLine s = .ok s') :
    extractBlocks s (as ++ bs) = extractBlocks s as ++ extractBlocks s' bs := by
  induction as generalizing s with
  | nil =>
    cases h
    rfl
  | cons piece as ih =>
    obtain ⟨_, h₁, h'⟩ := CTypes.bind_eq_ok h
    rw [cons_append, extractBlocks, extractBlocks, h₁]
    exact congrArg (_ :: ·) (ih h')

/-- A run over some lines: from which state to which, and the blocks that are
opened. -/
def Extracts (state : ParserState) (lines : List (List UInt8)) (state' : ParserState)
    (opens : List (Option Block)) : Prop :=
  ∀ s : Extract, s.state = state → ∃ s' : Extract, s'.state = state' ∧
    (withNewline lines).foldlM extractLine s = .ok s' ∧ extractBlocks s (withNewline lines) = opens

lemma Extracts.nil (state : ParserState) : Extracts state [] state [] :=
  fun s hs => ⟨s, hs, rfl, rfl⟩

lemma Extracts.append {bs os'} (h : Extracts st as st₁ os) (h' : Extracts st₁ bs st₂ os') :
    Extracts st (as ++ bs) st₂ (os ++ os') := by
  intro s hs
  obtain ⟨s₁, hs₁, hf₁, hb₁⟩ := h s hs
  obtain ⟨s₂, hs₂, hf₂, hb₂⟩ := h' s₁ hs₁
  refine ⟨s₂, hs₂, ?_, ?_⟩
  · rw [withNewline_append, foldlM_append]
    exact (congrArg (· >>= _) hf₁).trans hf₂
  · rw [withNewline_append, extractBlocks_append _ hf₁, hb₁, hb₂]

lemma Extracts.cons (h : Extracts st [line] st₁ [o]) (h' : Extracts st₁ lines st₂ os) :
    Extracts st (line :: lines) st₂ (o :: os) := h.append h'

lemma line_eq_iff (w : String) : line ++ [0x0a] = ascii (w ++ "\n") ↔ line = ascii w := by
  have happ : ascii (w ++ "\n") = ascii w ++ [0x0a] := by
    rw [ascii, String.toList_append, map_append]
    rfl
  rw [happ]
  exact append_left_inj _

def parserNext (line : List UInt8) : ParserState → Option ParserState
  | .none => some (if line = ascii "# ---" then .esc else .none)
  | .esc =>
    if line = ascii "# env" then some .env else if line = ascii "# doc" then some .doc else none
  | st =>
    if line.head? ≠ some 0x23 then none
    else some (if line = ascii "# ---" then .none else st)

lemma head?_newline (line : List UInt8) :
    (line ++ [0x0a]).head? = some 0x23 ↔ line.head? = some 0x23 := by
  cases line with
  | nil => decide
  | cons => rfl

/-- One line of the extractor. -/
lemma extractLine_next (hnul : (0 : UInt8) ∉ line) (h : parserNext line s.state = some st) :
    ∃ s', s'.state = st ∧ extractLine s (line ++ [0x0a]) = .ok s' := by
  have hstr : cstr (store s.line (line ++ [0x0a])) = line ++ [0x0a] :=
    cstr_store (by simpa using hnul) _
  have hhead : (store s.line (line ++ [0x0a])).head? ≠ some 0x23 ↔ line.head? ≠ some 0x23 := by
    rw [store, head?_append_of_ne_nil _ (by simp), Ne, head?_newline]
  have hdash : line ++ [0x0a] = ascii "# ---\n" ↔ line = ascii "# ---" := line_eq_iff "# ---"
  have henv : line ++ [0x0a] = ascii "# env\n" ↔ line = ascii "# env" := line_eq_iff "# env"
  have hdoc : line ++ [0x0a] = ascii "# doc\n" ↔ line = ascii "# doc" := line_eq_iff "# doc"
  rw [extractLine]
  simp only [hstr, hhead, hdash, henv, hdoc]
  cases hs : s.state with
  | none =>
    rw [hs, parserNext, Option.some_inj] at h
    subst h
    split
    · exact ⟨_, rfl, rfl⟩
    · exact ⟨_, rfl, rfl⟩
  | esc =>
    rw [hs, parserNext] at h
    split at h
    · rename_i hline
      cases h
      exact ⟨_, rfl, if_pos hline⟩
    rename_i hline
    split at h
    · rename_i hline'
      cases h
      exact ⟨_, rfl, (if_neg hline).trans (if_pos hline')⟩
    · cases h
  | doc | env =>
    rw [hs, parserNext] at h
    · dsimp only
      split at h
      · cases h
      rw [Option.some_inj] at h
      subst h
      rename_i hmark
      split
      · exact ⟨_, rfl, rfl⟩
      · exact ⟨_, rfl, rfl⟩
    · exact nofun
    · exact nofun

lemma Extracts.single (hnul : (0 : UInt8) ∉ line) {st'} (h : parserNext line st = some st') :
    Extracts st [line] st' [opened st st'] := by
  intro s hs
  obtain ⟨s', hs', heq⟩ := extractLine_next hnul (hs ▸ h : parserNext line s.state = some st')
  refine ⟨s', hs', ?_, ?_⟩
  · simp [withNewline, heq]
  · simp [withNewline, extractBlocks, heq, hs, hs']

lemma Extracts.inside (hst : st = .doc ∨ st = .env) (hmark : ∀ line ∈ lines, IsBlockLine line)
    (hnul : ∀ line ∈ lines, (0 : UInt8) ∉ line) :
    Extracts st lines st (replicate lines.length none) := by
  induction lines with
  | nil => exact .nil st
  | cons line lines ih =>
    obtain ⟨hm, hmark⟩ := forall_mem_cons.1 hmark
    obtain ⟨hn, hnul⟩ := forall_mem_cons.1 hnul
    have hnext : parserNext line st = some st := by
      rcases hst with rfl | rfl <;>
        simp [parserNext, hm.marked, hm.notEnd]
    have hopen : opened st st = none := by rcases hst with rfl | rfl <;> rfl
    have hone := Extracts.single hn hnext
    rw [hopen] at hone
    exact hone.cons (ih hmark hnul)

/-- One part of the file. -/
lemma Part.extracts (p : Part) (hnul : ∀ line ∈ p.lines, (0 : UInt8) ∉ line) :
    Extracts .none p.lines .none p.opens := by
  have hdash : Extracts .none [ascii "# ---"] .esc [none] := .single (by decide) rfl
  cases p with
  | other line hline =>
    have hnext : parserNext line .none = some .none := by simp [parserNext, hline]
    exact .single (hnul line (by simp [Part.lines])) hnext
  | doc lines hmark =>
    have hopen : Extracts .esc [ascii "# doc"] .doc [some .doc] := .single (by decide) rfl
    have hin := Extracts.inside (.inl rfl) hmark fun l hl => hnul l (by simp [Part.lines, hl])
    have hclose : Extracts .doc [ascii "# ---"] .none [none] := .single (by decide) rfl
    rw [Part.opens, replicate_succ']
    exact hdash.cons (hopen.cons (hin.append hclose))
  | env lines hmark =>
    have hopen : Extracts .esc [ascii "# env"] .env [some .env] := .single (by decide) rfl
    have hleft : Extracts .env [ascii "# \x7b"] .env [none] := .single (by decide) rfl
    have hin := Extracts.inside (.inr rfl) hmark fun l hl => hnul l (by simp [Part.lines, hl])
    have hright : Extracts .env [ascii "# \x7d"] .env [none] := .single (by decide) rfl
    have hclose : Extracts .env [ascii "# ---"] .none [none] := .single (by decide) rfl
    rw [Part.opens, replicate_succ, replicate_add]
    exact hdash.cons (hopen.cons (hleft.cons (hin.append (hright.cons hclose))))

lemma extracts_parts (hnul : ∀ line ∈ parts.flatMap Part.lines, (0 : UInt8) ∉ line) :
    Extracts .none (parts.flatMap Part.lines) .none (parts.flatMap Part.opens) := by
  induction parts with
  | nil => exact .nil .none
  | cons p parts ih =>
    rw [flatMap_cons, forall_mem_append] at hnul
    exact (p.extracts hnul.1).append (ih hnul.2)

/-! ## §3 `parse_shell` -/

/-- `parse_line`, on a line without a NUL. -/
def shellLine (signed : Bool) (path : List UInt8) (s : Shell) (line : List UInt8) : Shell :=
  parseLine signed path line (line.drop 2) (ascii "  " ++ line.drop 2) s

def State.outside : State → Bool
  | .none | .start => true
  | _ => false

lemma cstr_append_zero (hnul : (0 : UInt8) ∉ line) (t : List UInt8) :
    cstr (line ++ 0 :: t) = line :=
  (cstr_append_nul hnul t).1

/-- One line of the parser. -/
lemma readLine_eq (signed : Bool) (path : List UInt8) (hnul : (0 : UInt8) ∉ line) {s : Shell}
    (h : line ≠ [] ∨ s.state.outside) (array : List UInt8) :
    ∃ array', readLine signed path (s, array) (line ++ [0x0a]) =
      some (shellLine signed path s line, array') := by
  have hstr : cstr (store array (line ++ [0x0a])) = line ++ [0x0a] :=
    cstr_store (by simpa using hnul) _
  have hset : (store array (line ++ [0x0a])).set line.length 0 =
      line ++ 0 :: 0 :: array.drop (line.length + 2) := by
    rw [store, append_assoc]
    simp
  rw [readLine]
  rw [hstr, length_append, length_singleton]
  dsimp only
  rw [hset]
  refine ⟨_, congrArg some (Prod.ext ?_ rfl)⟩
  rw [cstr_append_zero hnul]
  cases line with
  | nil =>
    have hout := h.resolve_left (not_not_intro rfl)
    have hcases : s.state = .none ∨ s.state = .start := by
      cases hs : s.state <;> simp [hs, State.outside] at hout ⊢
    rcases hcases with hs | hs <;> simp [shellLine, parseLine, hs]
  | cons c line =>
    rw [mem_cons, not_or] at hnul
    cases line with
    | nil => rfl
    | cons d line =>
      rw [mem_cons, not_or] at hnul
      have hrest := cstr_append_zero hnul.2.2 (0 :: array.drop ((c :: d :: line).length + 2))
      have hblank : cstr ((0x20 :: 0x20 :: line) ++
          0 :: 0 :: array.drop ((c :: d :: line).length + 2)) = 0x20 :: 0x20 :: line :=
        cstr_append_zero (by simpa using hnul.2.2) _
      exact congr (congrArg (parseLine signed path (c :: d :: line)) hrest) hblank ▸ rfl

lemma shellBlocks_append {signed path s s'} (bs : List (List UInt8))
    (h : as.foldlM (readLine signed path) s = some s') :
    shellBlocks signed path s (as ++ bs) =
      shellBlocks signed path s as ++ shellBlocks signed path s' bs := by
  induction as generalizing s with
  | nil =>
    cases h
    rfl
  | cons piece as ih =>
    obtain ⟨_, h₁, h'⟩ := Option.bind_eq_some_iff.1 h
    rw [cons_append, shellBlocks, shellBlocks, h₁]
    exact congrArg (_ :: ·) (ih h')

/-- A run over some lines, and the blocks that are opened. -/
def Runs (signed : Bool) (path : List UInt8) (s : Shell) (lines : List (List UInt8)) (s' : Shell)
    (opens : List (Option Block)) : Prop :=
  ∀ array, ∃ array', (withNewline lines).foldlM (readLine signed path) (s, array) =
    some (s', array') ∧
    shellBlocks signed path (s, array) (withNewline lines) = opens

section runs

variable {signed : Bool} {path : List UInt8} {s s₁ s₂ : Shell} {as bs : List (List UInt8)}
  {line : List UInt8} {os os' : List (Option Block)}

lemma Runs.nil : Runs signed path s [] s [] := fun array => ⟨array, rfl, rfl⟩

lemma Runs.append (h : Runs signed path s as s₁ os) (h' : Runs signed path s₁ bs s₂ os') :
    Runs signed path s (as ++ bs) s₂ (os ++ os') := by
  intro array
  obtain ⟨array₁, hf₁, hb₁⟩ := h array
  obtain ⟨array₂, hf₂, hb₂⟩ := h' array₁
  refine ⟨array₂, ?_, ?_⟩
  · rw [withNewline_append, foldlM_append]
    exact (congrArg (· >>= _) hf₁).trans hf₂
  · rw [withNewline_append, shellBlocks_append _ hf₁, hb₁, hb₂]

lemma Runs.cons (h : Runs signed path s [line] s₁ [o])
    (h' : Runs signed path s₁ bs s₂ os) : Runs signed path s (line :: bs) s₂ (o :: os) :=
      h.append h'

lemma Runs.single (hnul : (0 : UInt8) ∉ line) (h : line ≠ [] ∨ s.state.outside)
    (hline : shellLine signed path s line = s₁) (hopen : shellOpened s.state s₁.state = o) :
    Runs signed path s [line] s₁ [o] := by
  intro array
  obtain ⟨array', heq⟩ := readLine_eq signed path hnul h array
  rw [hline] at heq
  refine ⟨array', ?_, ?_⟩
  · simp [withNewline, heq]
  · simp [withNewline, shellBlocks, heq, hopen]

/-! ### The lines of the blocks -/

variable {started : Bool} {out : List UInt8} {lines : List (List UInt8)}

/-- What is printed for the lines of a block, if `text` is printed for one. -/
def blockOut (text : Bool → List UInt8 → List UInt8) : Bool → List (List UInt8) → List UInt8
  | _, [] => []
  | first, line :: lines => text first line ++ blockOut text false lines

def docText (signed first : Bool) (line : List UInt8) : List UInt8 :=
  (if first then [] else ascii ",\n") ++ dataFprintfEsc signed 4 (line.drop 2)

def envText (first : Bool) (line : List UInt8) : List UInt8 :=
  (if first then [] else ascii "\n") ++ (ascii "  " ++ line.drop 2)

def docState (first : Bool) : State := if first then .docFirst else .doc

def envState (first : Bool) : State := if first then .envFirst else .env

lemma IsBlockLine.ne_nil (h : IsBlockLine line) : line ≠ [] := by
  rintro rfl
  cases h.marked

/-- The loop over lines that are printed: `st true` is the state before the first of them. -/
lemma runs_block {st : Bool → State} {text : Bool → List UInt8 → List UInt8}
    (hst : ∀ first, shellOpened (st first) (st false) = none)
    (hmark : ∀ l ∈ lines, IsBlockLine l) (hnul : ∀ l ∈ lines, (0 : UInt8) ∉ l)
    (hline : ∀ l ∈ lines, ∀ first out, shellLine signed path ⟨st first, started, out⟩ l =
      ⟨st false, started, out ++ text first l⟩) :
    ∀ first out, Runs signed path ⟨st first, started, out⟩ lines
      ⟨st (first && lines.isEmpty), started, out ++ blockOut text first lines⟩
      (replicate lines.length none) := by
  induction lines with intro first out
  | nil =>
    rw [isEmpty_nil, Bool.and_true, blockOut, append_nil]
    exact .nil
  | cons line lines ih =>
    obtain ⟨hm, hmark⟩ := forall_mem_cons.1 hmark
    obtain ⟨hn, hnul⟩ := forall_mem_cons.1 hnul
    obtain ⟨hl, hline⟩ := forall_mem_cons.1 hline
    have hrest := ih hmark hnul hline false (out ++ text first line)
    rw [isEmpty_cons, Bool.and_false, blockOut, ← append_assoc]
    exact (Runs.single hn (.inl hm.ne_nil) (hl first out) (hst first)).cons hrest

/-- The lines of a doc block. -/
lemma runs_doc (hmark : ∀ l ∈ lines, IsBlockLine l) (hnul : ∀ l ∈ lines, (0 : UInt8) ∉ l)
    (first : Bool) (out : List UInt8) :
    Runs signed path ⟨docState first, started, out⟩ lines
      ⟨docState (first && lines.isEmpty), started, out ++ blockOut (docText signed) first lines⟩
      (replicate lines.length none) := by
  refine runs_block (fun first => by cases first <;> rfl) hmark hnul ?_ first out
  intro l hl first _
  cases first <;> simp [shellLine, parseLine, docState, docText, (hmark l hl).notEnd]

/-- The lines of an env block. -/
lemma runs_env (hmark : ∀ l ∈ lines, IsBlockLine l) (hnul : ∀ l ∈ lines, (0 : UInt8) ∉ l)
    (hno : ascii "# \x7d" ∉ lines) (first : Bool) (out : List UInt8) :
    Runs signed path ⟨envState first, started, out⟩ lines
      ⟨envState (first && lines.isEmpty), started, out ++ blockOut envText first lines⟩
      (replicate lines.length none) := by
  refine runs_block (fun first => by cases first <;> rfl) hmark hnul ?_ first out
  intro l hl first _
  have hne : l ≠ ascii "# \x7d" := fun h => hno (h ▸ hl)
  cases first <;> simp [shellLine, parseLine, envState, envText, hne]

lemma runs_none (hmark : ∀ l ∈ lines, l ≠ ascii "# ---") (hnul : ∀ l ∈ lines, (0 : UInt8) ∉ l) :
    Runs signed path ⟨.none, started, out⟩ lines ⟨.none, started, out⟩
      (replicate lines.length none) := by
  induction lines with
  | nil => exact .nil
  | cons line lines ih =>
    obtain ⟨hm, hmark⟩ := forall_mem_cons.1 hmark
    obtain ⟨hn, hnul⟩ := forall_mem_cons.1 hnul
    have hline : shellLine signed path ⟨.none, started, out⟩ line = ⟨.none, started, out⟩ := by
      simp [shellLine, parseLine, hm]
    exact (Runs.single hn (.inr rfl) hline rfl).cons (ih hmark hnul)

/-! ### Parts -/

def header (path : List UInt8) (started : Bool) : List UInt8 :=
  if started then [] else ascii "   \"" ++ (basename path ++ ascii "\": \x7b\n")

/-- What is printed for a block. The loop stops at the first `# }`. -/
def Part.printed (signed : Bool) : Part → List UInt8
  | .other _ _ => []
  | .doc lines _ =>
    ascii "   \"doc\": [\n" ++ (blockOut (docText signed) true lines ++ ascii "\n   ],\n")
  | .env lines _ _ _ =>
    blockOut envText true (lines.takeWhile (· ≠ ascii "# \x7d")) ++ ascii ",\n"

lemma jsonStart_eq (s : Shell) : jsonStart path s =
    ⟨s.state, true, s.out ++ header path s.started⟩ := by
  obtain ⟨_, started, _⟩ := s
  cases started with
  | true => simp [jsonStart, header]
  | false => rfl

lemma runs_dash : Runs signed path ⟨.none, started, out⟩ [ascii "# ---"] ⟨.start, started, out⟩
    [none] := .single (by decide) (.inr rfl) rfl rfl

lemma runs_doc_part (hmark : ∀ l ∈ lines, IsBlockLine l)
    (hnul : ∀ l ∈ (Part.doc lines hmark).lines, (0 : UInt8) ∉ l) :
    Runs signed path ⟨.none, started, out⟩ (Part.doc lines hmark).lines
      ⟨.none, true, out ++ (header path started ++ (Part.doc lines hmark).printed signed)⟩
      (Part.doc lines hmark).opens := by
  have hopen : Runs signed path ⟨.start, started, out⟩ [ascii "# doc"]
      ⟨.docFirst, true, out ++ header path started ++ ascii "   \"doc\": [\n"⟩ [some .doc] := by
    refine .single (by decide) (.inr rfl) ?_ rfl
    rw [shellLine, parseLine]
    rw [if_pos rfl, jsonStart_eq]
  have hnul' : ∀ l ∈ lines, (0 : UInt8) ∉ l := fun l hl => hnul l (by simp [Part.lines, hl])
  have hclose : ∀ first out, Runs signed path ⟨docState first, true, out⟩ [ascii "# ---"]
      ⟨.none, true, out ++ ascii "\n   ],\n"⟩ [none] := by
    intro first _
    cases first <;> exact .single (by decide) (.inl (by decide)) rfl rfl
  have hrun := runs_dash.cons (hopen.cons ((runs_doc hmark hnul' true _).append (hclose _ _)))
  rw [Part.opens, replicate_succ']
  simpa [Part.lines, Part.printed] using hrun

lemma takeWhile_brace (lines : List (List UInt8)) : ∃ behind, lines ++ [ascii "# \x7d"] =
      lines.takeWhile (· ≠ ascii "# \x7d") ++ ascii "# \x7d" :: behind ∧
    ∀ l ∈ behind, l ∈ lines ∨ l = ascii "# \x7d" := by
  induction lines with
  | nil => exact ⟨[], rfl, nofun⟩
  | cons line lines ih =>
    obtain ⟨behind, heq, hmem⟩ := ih
    by_cases h : line = ascii "# \x7d"
    · subst h
      refine ⟨lines ++ [ascii "# \x7d"], ?_, fun l hl => ?_⟩
      · rw [takeWhile_cons_of_neg (by simp)]
        rfl
      rcases mem_append.1 hl with hl | hl
      · exact .inl (mem_cons_of_mem _ hl)
      · exact .inr (mem_singleton.1 hl)
    · refine ⟨behind, ?_, fun l hl => (hmem l hl).imp_left (mem_cons_of_mem _)⟩
      rw [takeWhile_cons_of_pos (by simp [h]), cons_append, cons_append, heq]

lemma runs_env_part (hmark : ∀ l ∈ lines, IsBlockLine l) {object : Seq .obj}
    (holds : object.text true = objectText lines ++ [0x7d])
    (hnul : ∀ l ∈ (Part.env lines hmark object holds).lines, (0 : UInt8) ∉ l) :
    Runs signed path ⟨.none, started, out⟩ (Part.env lines hmark object holds).lines
      ⟨.start, true,
        out ++ (header path started ++ (Part.env lines hmark object holds).printed signed)⟩
      (Part.env lines hmark object holds).opens := by
  have hnul' : ∀ l ∈ lines, (0 : UInt8) ∉ l := fun l hl => hnul l (by simp [Part.lines, hl])
  obtain ⟨behind, hsplit, hbehind⟩ := takeWhile_brace lines
  have hopen : Runs signed path ⟨.start, started, out⟩ [ascii "# env"]
      ⟨.envStart, true, out ++ header path started⟩ [some .env] := by
    refine .single (by decide) (.inr rfl) ?_ rfl
    rw [shellLine, parseLine]
    dsimp only
    rw [if_neg (by decide), if_pos rfl, jsonStart_eq]
  have hleft : Runs signed path ⟨.envStart, true, out ++ header path started⟩ [ascii "# \x7b"]
      ⟨envState true, true, out ++ header path started⟩ [none] :=
    .single (by decide) (.inl (by decide)) rfl rfl
  have hsub : ∀ l ∈ lines.takeWhile (· ≠ ascii "# \x7d"), l ∈ lines :=
    fun l hl => (takeWhile_sublist _).subset hl
  have hno : ascii "# \x7d" ∉ lines.takeWhile (· ≠ ascii "# \x7d") := by
    intro h
    simpa using all_eq_true.1 all_takeWhile _ h
  have hin : ∀ out, Runs signed path ⟨envState true, true, out⟩
      (lines.takeWhile (· ≠ ascii "# \x7d")) _ _ :=
    runs_env (fun l hl => hmark l (hsub l hl)) (fun l hl => hnul' l (hsub l hl)) hno true
  have hright : ∀ first out, Runs signed path ⟨envState first, true, out⟩ [ascii "# \x7d"]
      ⟨.none, true, out ++ ascii ",\n"⟩ [none] := by
    intro first out
    cases first <;> exact .single (by decide) (.inl (by decide)) rfl rfl
  have hrest : ∀ out, Runs signed path ⟨.none, true, out⟩ behind ⟨.none, true, out⟩
      (replicate behind.length none) := by
    intro out
    refine runs_none (fun l hl => ?_) (fun l hl => ?_)
    · rcases hbehind l hl with h | rfl
      · exact (hmark l h).notEnd
      · decide
    rcases hbehind l hl with h | rfl
    · exact hnul' l h
    · decide
  have hrun := ((hin (out ++ header path started)).append
    ((hright _ _).cons (hrest _))).append runs_dash
  have hopens : (replicate (lines.takeWhile (· ≠ ascii "# \x7d")).length none ++
      none :: replicate behind.length none) ++ [none] =
      replicate (lines.length + 2) (none : Option Block) := by
    have hlen := congrArg length hsplit
    rw [length_append, length_append, length_singleton, length_cons] at hlen
    rw [← replicate_succ, replicate_append_replicate, ← replicate_succ', ← hlen]
  rw [← hsplit, hopens] at hrun
  have hall := runs_dash.cons (hopen.cons (hleft.cons hrun))
  simpa [Part.lines, Part.printed, Part.opens, replicate_succ] using hall

/-! ### All parts -/

/-- A line that does not start a block behind a `# ---`. -/
def Follows : List Part → Prop
  | [] => True
  | .other line _ :: _ => line ≠ ascii "# doc" ∧ line ≠ ascii "# env"
  | _ => False

/-- An `env` block is followed by nothing or by such a line. -/
def Apart : List Part → Prop
  | [] => True
  | .env _ _ _ _ :: parts => Follows parts ∧ Apart parts
  | _ :: parts => Apart parts

def printed (signed : Bool) (path : List UInt8) : Bool → List Part → List UInt8
  | _, [] => []
  | started, .other _ _ :: parts => printed signed path started parts
  | started, p :: parts => header path started ++
      (p.printed signed ++ printed signed path true parts)

def Part.isBlock : Part → Bool
  | .other _ _ => false
  | _ => true

variable (signed path) in
/-- **What is printed for a file.** -/
lemma runs_parts : ∀ (parts : List Part) started out {st},
    (∀ line ∈ parts.flatMap Part.lines, (0 : UInt8) ∉ line) → Apart parts →
    (st = .none ∨ st = .start ∧ Follows parts) →
    ∃ st', Runs signed path ⟨st, started, out⟩ (parts.flatMap Part.lines)
      ⟨st', started || parts.any Part.isBlock, out ++ printed signed path started parts⟩
      (parts.flatMap Part.opens)
  | [], started, out, st, _, _, _ => by
    refine ⟨st, ?_⟩
    rw [any_nil, Bool.or_false, printed, append_nil]
    exact .nil
  | p :: parts, started, out, st, hnul, hapart, hst => by
    rw [flatMap_cons, forall_mem_append] at hnul
    -- the rest of the run, behind a block
    have block : ∀ {st₁ : State}, p.isBlock → Apart parts →
        (st₁ = .none ∨ st₁ = .start ∧ Follows parts) →
        Runs signed path ⟨st, started, out⟩ p.lines
          ⟨st₁, true, out ++ (header path started ++ p.printed signed)⟩ p.opens →
        printed signed path started (p :: parts) =
          header path started ++ (p.printed signed ++ printed signed path true parts) →
        ∃ st', Runs signed path ⟨st, started, out⟩ ((p :: parts).flatMap Part.lines)
          ⟨st', started || (p :: parts).any Part.isBlock,
            out ++ printed signed path started (p :: parts)⟩
          ((p :: parts).flatMap Part.opens) := by
      intro _ hblock hapart hst₁ hrun hprint
      obtain ⟨st', hrest⟩ := runs_parts parts true
        (out ++ (header path started ++ p.printed signed)) hnul.2 hapart hst₁
      refine ⟨st', ?_⟩
      have hall := hrun.append hrest
      rw [hprint, any_cons, hblock]
      simpa using hall
    cases p with
    | other line hline =>
      have hline' : (0 : UInt8) ∉ line := hnul.1 line (by simp [Part.lines])
      have hone : Runs signed path ⟨st, started, out⟩ [line] ⟨.none, started, out⟩ [none] := by
        refine .single hline' (.inr ?_) ?_ ?_
        · rcases hst with rfl | ⟨rfl, -⟩ <;> rfl
        · rcases hst with rfl | ⟨rfl, hdoc, henv⟩
          · simp [shellLine, parseLine, hline]
          · simp [shellLine, parseLine, hdoc, henv]
        · rcases hst with rfl | ⟨rfl, -⟩ <;> rfl
      obtain ⟨st', hrest⟩ := runs_parts parts started out hnul.2 hapart (.inl rfl)
      exact ⟨st', hone.append hrest⟩
    | doc lines hmark =>
      obtain rfl : st = .none := hst.elim id fun h => absurd h.2 id
      exact block rfl hapart (.inl rfl) (runs_doc_part hmark hnul.1) rfl
    | env lines hmark object holds =>
      obtain rfl : st = .none := hst.elim id fun h => absurd h.2 id
      exact block rfl hapart.2 (.inr ⟨rfl, hapart.1⟩) (runs_env_part hmark holds hnul.1) rfl

lemma apart_of_blocks : ∀ (parts : List Part) started out array {st},
    (∀ line ∈ parts.flatMap Part.lines, (0 : UInt8) ∉ line) → st = .none ∨ st = .start →
    shellBlocks signed path (⟨st, started, out⟩, array)
      (withNewline (parts.flatMap Part.lines)) = parts.flatMap Part.opens →
    Apart parts ∧ (st = .start → Follows parts)
  | [], _, _, _, _, _, _, _ => ⟨trivial, fun _ => trivial⟩
  | p :: parts, started, out, array, st, hnul, hst, hblocks => by
    rw [flatMap_cons, forall_mem_append] at hnul
    rw [flatMap_cons, flatMap_cons, withNewline_append] at hblocks
    -- the blocks behind a part that is read as one
    have next : ∀ {s₁ : Shell}, Runs signed path ⟨st, started, out⟩ p.lines s₁ p.opens →
        ∃ array₁, shellBlocks signed path (s₁, array₁) (withNewline (parts.flatMap Part.lines)) =
          parts.flatMap Part.opens := by
      intro s₁ hrun
      obtain ⟨array₁, hfold, hopens⟩ := hrun array
      rw [shellBlocks_append _ hfold, hopens] at hblocks
      exact ⟨array₁, append_cancel_left hblocks⟩
    -- behind the `# ---` of an `env` block, the start of a block is lost
    have lost : ∀ {w : String} {b : Block} {ls : List (List UInt8)} {os : List (Option Block)},
        p.lines = ascii "# ---" :: ascii w :: ls → p.opens = none :: some b :: os →
        (0 : UInt8) ∉ ascii w → ascii w ≠ ascii "# ---" → st ≠ .start := by
      rintro w b ls _ hlines hopens hw hdash rfl
      have hone : Runs signed path ⟨.start, started, out⟩ [ascii "# ---"] ⟨.none, started, out⟩
          [none] := .single (by decide) (.inr rfl) rfl rfl
      have htwo : Runs signed path ⟨.none, started, out⟩ [ascii w] ⟨.none, started, out⟩
        [none] := by
        refine .single hw (.inr rfl) ?_ rfl
        simp [shellLine, parseLine, hdash]
      obtain ⟨array₁, hfold, hopens'⟩ := hone.cons htwo array
      have hsplit : withNewline p.lines ++ withNewline (parts.flatMap Part.lines) =
          withNewline [ascii "# ---", ascii w] ++
            withNewline (ls ++ parts.flatMap Part.lines) := by
        rw [hlines, ← withNewline_append]
        rfl
      rw [hsplit, shellBlocks_append _ hfold, hopens', hopens] at hblocks
      injection hblocks with _ hblocks
      injection hblocks with hblocks
      cases hblocks
    cases p with
    | other line hline =>
      have hline' : (0 : UInt8) ∉ line := hnul.1 line (by simp [Part.lines])
      -- a line that is taken for the start of a block
      have hfound : ∀ {s₁ : Shell} {b : Block},
          ¬ Runs signed path ⟨st, started, out⟩ [line] s₁ [some b] := by
        intro _ b hrun
        obtain ⟨array₁, hfold, hopens⟩ := hrun array
        rw [Part.lines, shellBlocks_append _ hfold, hopens] at hblocks
        cases (cons.inj hblocks).1
      have hfollows : st = .start → line ≠ ascii "# doc" ∧ line ≠ ascii "# env" := by
        rintro rfl
        constructor <;> rintro rfl
        · exact hfound (.single (by decide) (.inr rfl) rfl rfl)
        · exact hfound (.single (by decide) (.inr rfl) rfl rfl)
      have hone : Runs signed path ⟨st, started, out⟩ [line] ⟨.none, started, out⟩ [none] := by
        refine .single hline' (.inr ?_) ?_ ?_
        · rcases hst with rfl | rfl <;> rfl
        · rcases hst with rfl | rfl
          · simp [shellLine, parseLine, hline]
          · simp [shellLine, parseLine, (hfollows rfl).1, (hfollows rfl).2]
        · rcases hst with rfl | rfl <;> rfl
      obtain ⟨array₁, hrest⟩ := next hone
      exact ⟨(apart_of_blocks parts started out array₁ hnul.2 (.inl rfl) hrest).1, hfollows⟩
    | doc lines hmark =>
      have hne := lost rfl rfl (by decide) (by decide)
      obtain rfl := hst.resolve_right hne
      obtain ⟨array₁, hrest⟩ := next (runs_doc_part hmark hnul.1)
      exact ⟨(apart_of_blocks parts _ _ array₁ hnul.2 (.inl rfl) hrest).1, nofun⟩
    | env lines hmark object holds =>
      have hne := lost rfl rfl (by decide) (by decide)
      obtain rfl := hst.resolve_right hne
      obtain ⟨array₁, hrest⟩ := next (runs_env_part hmark holds hnul.1)
      obtain ⟨hapart, hfollows⟩ := apart_of_blocks parts _ _ array₁ hnul.2 (.inr rfl) hrest
      exact ⟨⟨hfollows rfl, hapart⟩, nofun⟩

end runs

def SameBlocks (signed : Bool) (path junk : List UInt8) (parts : List Part) : Prop :=
  shellBlocks signed path ({}, junk) (fgetsAll 4095 [] (shellTest parts)) =
    extractBlocks { line := junk } (fgetsAll 4095 [] (shellTest parts))

lemma fgetsAll_shellTest (hlines : ∀ line ∈ parts.flatMap Part.lines, IsLine 4096 line) :
    fgetsAll 4095 [] (shellTest parts) = withNewline (parts.flatMap Part.lines) :=
  fgetsAll_linesText hlines

/-- When the two programs find the same blocks. -/
lemma sameBlocks_iff (signed : Bool) (path junk : List UInt8)
    (hlines : ∀ line ∈ parts.flatMap Part.lines, IsLine 4096 line) :
    SameBlocks signed path junk parts ↔ Apart parts := by
  have hnul : ∀ line ∈ parts.flatMap Part.lines, (0 : UInt8) ∉ line :=
    fun line h => (hlines line h).noNul
  obtain ⟨_, -, -, hextract⟩ := extracts_parts hnul { line := junk } rfl
  rw [SameBlocks, fgetsAll_shellTest hlines, hextract]
  constructor
  · exact fun h => (apart_of_blocks parts false [] junk hnul (.inl rfl) h).1
  intro h
  obtain ⟨_, hrun⟩ := runs_parts signed path parts false [] hnul h (.inl rfl)
  obtain ⟨_, -, hblocks⟩ := hrun junk
  exact hblocks

end LtpDdt.MetaparseSh
