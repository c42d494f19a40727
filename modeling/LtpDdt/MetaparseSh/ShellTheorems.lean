/-
MetaparseSh.ShellTheorems — what `parse_shell` prints is JSON with the lines
of the `doc` blocks and the members of the `env` blocks.

`fileItems` is the object the text should stand for (§1). §2 counts the bytes
that are no white space: a `# }` inside of an object loses a brace, an object
without members gives a comma too many. §3 finds the path, §4 has the text.
-/
import LtpDdt.DataStorage.JsonTheorems
import LtpDdt.MetaparseSh.Shell

namespace LtpDdt.MetaparseSh

open Bytes DataStorage Json List Part Seq
open CTypes (asc ascii charVal)

variable {lines : List (List UInt8)} {object : Seq .obj} {parts : List Part}

/-! ## The object -/

/-- The elements of a JSON string for a byte that `data_fprintf_esc` prints. -/
def escElems (signed : Bool) (c : UInt8) : List StrElem :=
  if c = 0x5c then [.esc .backslash]
  else if c = 0x22 then [.esc .quote]
  else if c = 0x09 then List.replicate 8 (.plain 0x20 rfl)
  else if h : isPlain c = true ∧ 0x20 ≤ charVal signed c then [.plain c h.1]
  else []

def lineElems (signed : Bool) (line : List UInt8) : List StrElem := line.flatMap (escElems signed)

/-- The elements for bytes that stand for themselves. -/
def plainElems (bs : List UInt8) : List StrElem :=
  bs.filterMap fun b => if h : isPlain b = true then some (.plain b h) else none

variable (signed : Bool)

lemma escElems_text (c : UInt8) : strText (escElems signed c) = escByte signed c := by
  unfold escElems escByte
  split
  · rfl
  rename_i hback
  split
  · rfl
  rename_i hquote
  split
  · rfl
  split
  · rename_i h
    rw [if_pos h.2]
    rfl
  rename_i h
  rw [if_neg]
  · rfl
  intro hc
  refine h ⟨?_, hc⟩
  have hle : 0x20 ≤ c.toNat := by
    unfold charVal at hc
    split at hc <;> omega
  simp [isPlain, hback, hquote, UInt8.le_iff_toNat_le, hle]

lemma lineElems_text (line : List UInt8) :
    strText (lineElems signed line) = line.flatMap (escByte signed) := by
  rw [strText, lineElems, flatMap_assoc]
  exact flatMap_congr fun c _ => escElems_text signed c

lemma plainElems_filter (bs : List UInt8) : strText (plainElems bs) = bs.filter isPlain := by
  induction bs with
  | nil => rfl
  | cons b bs ih =>
    by_cases hb : isPlain b
    · have hcons : plainElems (b :: bs) = .plain b hb :: plainElems bs := by
        rw [plainElems, filterMap_cons, dif_pos hb]
        rfl
      rw [hcons, filter_cons_of_pos hb, strText, flatMap_cons, ← strText, ih]
      rfl
    · have hcons : plainElems (b :: bs) = plainElems bs := by
        rw [plainElems, filterMap_cons, dif_neg hb]
        rfl
      rw [hcons, filter_cons_of_neg hb, ih]

lemma plainElems_text {bs} (h : ∀ b ∈ bs, isPlain b) : strText (plainElems bs) = bs := by
  rw [plainElems_filter, filter_eq_self.2 h]

def nameKey (name : List UInt8) (after : Ws) : Key .obj := .name (plainElems name) .empty after

/-- The strings of a `doc` block. -/
def docItems (signed : Bool) : List (List UInt8) → Seq .arr
  | [] => .nil .empty
  | line :: lines =>
    .scalar .empty .empty .elem (.str (lineElems signed (line.drop 2))) (docItems signed lines)

/-- The members for the parts, and the name of the file. -/
def blockItems (signed : Bool) (path : List UInt8) : List Part → Seq .obj
  | [] =>
    .scalar .empty .empty (nameKey (ascii "fname") .empty) (.str (plainElems path)) (.nil .empty)
  | .other _ _ :: parts => blockItems signed path parts
  | .doc lines _ :: parts =>
    .sub .empty .empty (nameKey (ascii "doc") .empty) .arr (docItems signed lines)
      (blockItems signed path parts)
  | .env _ _ object _ :: parts => object.bare.append .empty (blockItems signed path parts)

/-- One member for the file, if it has a block. -/
def fileItems (signed : Bool) (path : List UInt8) (parts : List Part) : Seq .obj :=
  if parts.any Part.isBlock then
    .sub .empty .empty (nameKey (basename path) .empty) .obj (blockItems signed path parts)
      (.nil .empty)
  else .nil .empty

/-- `parse_shell` prints the object, in some layout and without its braces. -/
def PrintsJson (signed : Bool) (path junk : List UInt8) (parts : List Part) : Prop :=
  ∃ out, parseShell signed path junk (shellTest parts) = some out ∧
    ∃ items : Seq .obj, out ++ [0x7d] = items.text true ∧
      items.bare = (fileItems signed path parts).bare

/-! ## §1 The print -/

def ws (text : String) (h : (ascii text).all isWs = true) : Ws := ⟨ascii text, all_eq_true.1 h⟩

lemma nameKey_text {name} (h : ∀ b ∈ name, isPlain b) (after : Ws) :
    (nameKey name after).text = 0x22 :: (name ++ (0x22 :: 0x3a :: after.1)) := by
  rw [nameKey, Key.text, plainElems_text h]
  rfl

/-- The strings of a `doc` block as they are printed, behind the bracket. -/
def docSeq (signed : Bool) : List (List UInt8) → Seq .arr
  | [] => .nil (ws "\n   " rfl)
  | line :: lines =>
    .scalar .empty (ws "\n    " rfl) .elem (.str (lineElems signed (line.drop 2)))
      (docSeq signed lines)

lemma docSeq_false (lines : List (List UInt8)) :
    (docSeq signed lines).text false = blockOut (docText signed) false lines ++ ascii "\n   ]" := by
  induction lines with
  | nil => rfl
  | cons line lines ih =>
    rw [docSeq, text, ih, Scalar.text, lineElems_text, blockOut, docText]
    simp [sepText, Ws.empty, ws, Key.text, dataFprintfEsc, padding, ascii, asc]

def docInner (signed : Bool) (lines : List (List UInt8)) : Seq .arr :=
  match lines with
  | [] => .nil (ws "\n\n   " rfl)
  | line :: lines => docSeq signed (line :: lines)

lemma docInner_text (lines : List (List UInt8)) : (docInner signed lines).text true =
      0x0a :: (blockOut (docText signed) true lines ++ ascii "\n   ]") := by
  cases lines with
  | nil => rfl
  | cons =>
    rw [docInner, docSeq, text, docSeq_false, Scalar.text, lineElems_text, blockOut, docText]
    simp [sepText, ws, Key.text, dataFprintfEsc, padding, ascii, asc]

lemma docInner_bare (lines : List (List UInt8)) :
    (docInner signed lines).bare = (docItems signed lines).bare := by
  have hseq : ∀ lines, (docSeq signed lines).bare = (docItems signed lines).bare := by
    intro lines
    induction lines with
    | nil => rfl
    | cons line lines ih => exact congrArg (scalar _ _ _ _) ih
  cases lines with
  | nil => rfl
  | cons line lines => exact hseq (line :: lines)

/-! ### `env` blocks -/

def indent (b : UInt8) : List UInt8 := if b = 0x0a then [0x0a, 0x20, 0x20] else [b]

lemma indent_of_ne {b} (h : b ≠ 0x0a) : indent b = [b] := if_neg h

def indentWs (ws : Ws) : Ws := ⟨ws.1.flatMap indent, by
  intro b hb
  obtain ⟨c, hc, hbc⟩ := mem_flatMap.1 hb
  rw [indent] at hbc
  split at hbc
  · simp only [mem_cons, not_mem_nil, or_false] at hbc
    rcases hbc with rfl | rfl | rfl <;> rfl
  · rw [mem_singleton.1 hbc]
    exact ws.2 c hc⟩

lemma objectText_eq (lines : List (List UInt8)) :
    objectText lines = (lines.flatMap fun line => 0x0a :: line.drop 2) ++ [0x0a] := by
  rw [objectText]
  induction lines with
  | nil => rfl
  | cons line lines ih =>
    rw [flatMap_cons, append_assoc, singleton_append, ih]
    simp

lemma indent_lines (h : ∀ line ∈ lines, (0x0a : UInt8) ∉ line) (hne : lines ≠ []) :
    (lines.flatMap fun line => 0x0a :: line.drop 2).flatMap indent =
      0x0a :: blockOut envText true lines := by
  have hline : ∀ line ∈ lines, (line.drop 2).flatMap indent = line.drop 2 := fun line hl =>
    flatMap_noNewline (fun _ => indent_of_ne) fun hmem => h line hl (mem_of_mem_drop hmem)
  have hrest : ∀ ls, (∀ l ∈ ls, l ∈ lines) →
      (ls.flatMap fun line => 0x0a :: line.drop 2).flatMap indent = blockOut envText false ls := by
    intro ls hls
    induction ls with
    | nil => rfl
    | cons line ls ih =>
      obtain ⟨hl, hls⟩ := forall_mem_cons.1 hls
      rw [flatMap_cons, flatMap_append, flatMap_cons, hline line hl, ih hls, blockOut, envText]
      simp [indent, ascii, asc]
  cases lines with
  | nil => exact absurd rfl hne
  | cons line lines =>
    rw [flatMap_cons, flatMap_append, flatMap_cons,
      hline line mem_cons_self, hrest lines (fun l => mem_cons_of_mem _), blockOut, envText]
    simp [indent, ascii, asc]

lemma object_front
    (holds : object.text true = objectText lines ++ [0x7d]) (hnil : object.isNil = false) :
    lines ≠ [] ∧ ∃ sep : Ws, object.front true ++ sep.1 =
      lines.flatMap fun line => 0x0a :: line.drop 2 := by
  rw [object.text_eq_front, objectText_eq, ← append_assoc] at holds
  have holds := append_cancel_right holds
  obtain ⟨_, b, hfront, hb⟩ := front_endsSolid hnil true
  have hlast : object.last.1 ≠ [] := by
    intro h
    rw [h, append_nil, hfront] at holds
    have := (append_inj' holds rfl).2
    rw [(cons.inj this).1] at hb
    cases hb
  obtain ⟨l, x, hlx⟩ : ∃ l x, object.last.1 = l ++ [x] :=
    ⟨_, _, (dropLast_append_getLast hlast).symm⟩
  rw [hlx, ← append_assoc] at holds
  have hall := (append_inj' holds rfl).1
  refine ⟨?_, ⟨l, fun c hc => object.last.2 c (by rw [hlx]; exact mem_append_left _ hc)⟩, hall⟩
  rintro rfl
  rw [hfront, append_assoc] at hall
  exact absurd hall (append_ne_nil_of_right_ne_nil _ (cons_ne_nil _ _))

/-! ### All blocks -/

/-- An `env` block is printed as it should be. -/
def Part.Printable : Part → Prop
  | .env lines _ object _ => ascii "# \x7d" ∉ lines ∧ object.isNil = false
  | _ => True

def fnameText (path : List UInt8) : List UInt8 :=
  ascii "   \"fname\": \"" ++ (path ++ ascii "\"\n") ++ ascii "  \x7d"

def fnameSeq (path : List UInt8) : Seq .obj :=
  .scalar .empty (ws "\n   " rfl) (nameKey (ascii "fname") (ws " " rfl)) (.str (plainElems path))
    (.nil (ws "\n  " rfl))

lemma fnameSeq_text {path} (hpath : ∀ b ∈ path, isPlain b) :
    (fnameSeq path).text true = 0x0a :: fnameText path := by
  rw [fnameSeq, text, text, nameKey_text (all_eq_true.1 rfl), Scalar.text,
    plainElems_text hpath, fnameText]
  simp [sepText, ws, ascii, asc, Kind.closing]

section items

variable {signed : Bool} {path : List UInt8}

lemma blockItems_isNil : ∀ parts, (blockItems signed path parts).isNil = false
  | [] => rfl
  | .other _ _ :: parts => blockItems_isNil parts
  | .doc _ _ :: _ => rfl
  | .env _ _ _ _ :: parts => append_isNil _ (blockItems_isNil parts)

lemma takeWhile_of_not_mem (h : ascii "# \x7d" ∉ lines) :
    lines.takeWhile (· ≠ ascii "# \x7d") = lines :=
  takeWhile_eq_self_iff.2 fun _ hl => decide_eq_true (ne_of_mem_of_not_mem hl h)

variable (signed) in
/-- The printed blocks, as members of an object. -/
lemma blockItems_printed (hpath : ∀ b ∈ path, isPlain b) : ∀ parts : List Part,
    (∀ line ∈ parts.flatMap Part.lines, (0x0a : UInt8) ∉ line) → (∀ p ∈ parts, p.Printable) →
    ∃ items : Seq .obj, items.isNil = false ∧
      items.text true = 0x0a :: (printed signed path true parts ++ fnameText path) ∧
      items.bare = (blockItems signed path parts).bare
  | [], _, _ => ⟨fnameSeq path, rfl, fnameSeq_text hpath, rfl⟩
  | p :: parts, hlines, hprint => by
    rw [flatMap_cons, forall_mem_append] at hlines
    obtain ⟨hp, hprint⟩ := forall_mem_cons.1 hprint
    obtain ⟨items, hnil, htext, hbare⟩ := blockItems_printed hpath parts hlines.2 hprint
    cases p with
    | other => exact ⟨items, hnil, htext, hbare⟩
    | doc lines =>
      refine ⟨.sub .empty (ws "\n   " rfl) (nameKey (ascii "doc") (ws " " rfl)) .arr
        (docInner signed lines) (items.setSep .empty), rfl, ?_, ?_⟩
      · rw [text, nameKey_text (all_eq_true.1 rfl), docInner_text,
          setSep_text hnil, htext, printed, header, if_pos rfl, Part.printed]
        · simp [sepText, ws, Ws.empty, ascii, asc, Kind.opening]
        · simp
      have hrest : (items.setSep .empty).bare = (blockItems signed path parts).bare :=
        (items.bare_setSep _).trans hbare
      have hsub := congr (congrArg (sub .empty .empty (nameKey (ascii "doc") .empty) .arr)
        (docInner_bare signed lines)) hrest
      exact hsub
    | env lines hmark object holds =>
      have hnl : ∀ line ∈ lines, (0x0a : UInt8) ∉ line :=
        fun line hl => hlines.1 line (by simp [Part.lines, hl])
      obtain ⟨hne, sep, hfront⟩ := object_front holds hp.2
      refine ⟨(object.mapWs indentWs).append (indentWs sep) items, append_isNil _ hnil, ?_, ?_⟩
      · have hnil' : (object.mapWs indentWs).isNil → true = false := by
          rw [object.isNil_mapWs, hp.2]
          exact Bool.noConfusion
        rw [append_text hnil _ true hnil', object.front_mapWs (fun _ => indent_of_ne)
          (fun _ => rfl), htext, ← append_assoc]
        have hall : (object.front true).flatMap indent ++ (indentWs sep).1 =
            0x0a :: blockOut envText true lines := by
          rw [← indent_lines hnl hne, ← hfront, flatMap_append]
          rfl
        rw [hall, printed, header, if_pos rfl, Part.printed, takeWhile_of_not_mem hp.1]
        · simp [ascii, asc]
        · simp
      · rw [bare_append, bare_mapWs, hbare, blockItems, bare_append, bare_bare]

/-! ## §2 Bytes that are counted -/

/-- How often `b` stands in the lines that `parse_shell` does not reach. -/
def Part.lost (b : UInt8) : Part → Nat
  | .env lines _ _ _ =>
    ((lines.dropWhile (· ≠ ascii "# \x7d")).flatMap (List.drop 2)).count b
  | _ => 0

def Part.spare : Part → Nat
  | .env _ _ object _ => if object.isNil then 1 else 0
  | _ => 0

variable {b : UInt8}

section

variable (hb : isWs b = false)

include hb

lemma blockOut_count (lines : List (List UInt8)) : ∀ first,
    (blockOut envText first lines).count b = (lines.flatMap (drop 2)).count b := by
  induction lines with
  | nil => exact fun _ => rfl
  | cons line lines ih =>
    intro first
    have hblank : (ascii "  ").count b = 0 := (ws "  " rfl).count_eq hb
    have hnewline : (if first then [] else ascii "\n" : List UInt8).count b = 0 := by
      cases first with
      | true => rfl
      | false => exact (ws "\n" rfl).count_eq hb
    rw [blockOut, envText, flatMap_cons, count_append, count_append,
      count_append, count_append, ih, hblank, hnewline, Nat.zero_add, Nat.zero_add]

lemma object_count (holds : object.text true = objectText lines ++ [0x7d]) :
    (object.front true).count b = (lines.flatMap (drop 2)).count b := by
  have hnewline : [(0x0a : UInt8)].count b = 0 := (ws "\n" rfl).count_eq hb
  have hlines : (objectText lines).count b = (lines.flatMap (drop 2)).count b := by
    rw [objectText, ← singleton_append, count_append, hnewline, Nat.zero_add,
      count_flatMap, count_flatMap]
    congr 1
    refine map_congr_left fun line _ => ?_
    rw [Function.comp, count_append, hnewline]
    rfl
  have hcount := congrArg (count b) holds
  rw [object.count_front hb, count_append, hlines] at hcount
  exact Nat.add_right_cancel hcount

lemma nameKey_count : (ascii "   \"doc\": [").count b =
      (nameKey (ascii "doc") .empty).text.count b + [Kind.arr.opening].count b := by
  have htext : ascii "   \"doc\": [" = (ws "   " rfl).1 ++
      ((nameKey (ascii "doc") (ws " " rfl)).text ++ [Kind.arr.opening]) := by
    rfl
  rw [htext, count_append, count_append, Ws.count_eq _ hb, Nat.zero_add]
  exact congrArg (· + _) (Key.count_mapWs (fun _ => .empty) hb _).symm

variable (hmark : ∀ l ∈ lines, IsBlockLine l)

lemma doc_count (parts : List Part) :
    ((blockItems signed path (.doc lines hmark :: parts)).text true).count b =
      ((Part.doc lines hmark).printed signed).count b +
        ((blockItems signed path parts).text true).count b := by
  have hprinted : (Part.doc lines hmark).printed signed = ascii "   \"doc\": [" ++
      ((docInner signed lines).text true ++ ([0x2c] ++ (ws "\n" rfl).1)) := by
    rw [docInner_text]
    simp [Part.printed, ws, ascii, asc]
  have hitems : ((blockItems signed path (.doc lines hmark :: parts)).text true).count b =
      (nameKey (ascii "doc") .empty).text.count b + ([Kind.arr.opening].count b +
        (((docItems signed lines).text true).count b +
          ((blockItems signed path parts).text false).count b)) := by
    rw [blockItems, ← count_append, ← count_append, ← count_append]
    rfl
  rw [hitems, hprinted, count_append, count_append, count_append, Ws.count_eq _ hb,
    nameKey_count hb, count_bare hb (docInner_bare signed lines),
    count_false hb (blockItems_isNil parts)]
  omega

lemma env_printed_count (holds : object.text true = objectText lines ++ [0x7d]) :
    ((Part.env lines hmark object holds).printed signed).count b +
        (Part.env lines hmark object holds).lost b =
      (lines.flatMap (drop 2)).count b + [0x2c].count b := by
  have hsplit := congrArg (fun ls => (ls.flatMap (drop 2)).count b)
    (takeWhile_append_dropWhile (p := (· ≠ ascii "# \x7d")) (l := lines))
  simp only [flatMap_append, count_append] at hsplit
  have hcomma : (ascii ",\n").count b = [0x2c].count b := by
    have htext : ascii ",\n" = [0x2c] ++ (ws "\n" rfl).1 := rfl
    rw [htext, count_append, Ws.count_eq _ hb, Nat.add_zero]
  rw [Part.printed, Part.lost, count_append, blockOut_count hb, ← hsplit]
  omega

variable (signed path) in
/-- An `env` block is printed with a comma also if it has no member, and
without the lines behind the first `# }`. -/
lemma env_count (holds : object.text true = objectText lines ++ [0x7d]) (parts : List Part) :
    ((blockItems signed path (.env lines hmark object holds :: parts)).text true).count b +
        [0x2c].count b * (env lines hmark object holds).spare =
      ((env lines hmark object holds).printed signed).count b +
        (env lines hmark object holds).lost b +
        ((blockItems signed path parts).text true).count b := by
  rw [env_printed_count hb, ← object_count hb holds, blockItems, spare]
  cases hobject : object.isNil with
  | true =>
    obtain ⟨ws, rfl⟩ : ∃ ws, object = .nil ws := by
      cases object with
      | nil ws => exact ⟨ws, rfl⟩
      | scalar | sub => cases hobject
    rw [bare, mapWs, append, setSep_true, front, count_nil, if_pos rfl]
    omega
  | false =>
    have hfirst : object.bare.isNil → true = false := by
      rw [bare, object.isNil_mapWs, hobject]
      exact Bool.noConfusion
    rw [append_text (blockItems_isNil parts) _ true hfirst, count_append,
      count_append, Ws.count_eq _ hb, ← singleton_append, count_append,
      count_front_bare hb, if_neg (by decide)]
    omega

end

variable (signed) in
/-- What is printed and what is lost make up the blocks, up to white space and spare commas. -/
lemma printed_count (hpath : ∀ b ∈ path, isPlain b) (hb : isWs b = false) : ∀ parts,
    (0x0a :: (printed signed path true parts ++ fnameText path)).count b +
        (parts.map (lost b)).sum =
      ((blockItems signed path parts).text true).count b + [0x2c].count b * (parts.map spare).sum
  | [] => by
    rw [map_nil, map_nil, sum_nil, printed, nil_append, ← fnameSeq_text hpath]
    exact count_bare hb (s := fnameSeq path) (t := blockItems signed path []) rfl true
  | p :: parts => by
    have ih := printed_count hpath hb parts
    rw [← singleton_append, count_append, count_append] at ih ⊢
    rw [map_cons, map_cons, sum_cons, sum_cons, Nat.mul_add]
    cases p with
    | other =>
      rw [lost, spare, printed, blockItems, Nat.zero_add, Nat.mul_zero, Nat.zero_add]
      · exact ih
      all_goals simp
    | doc lines hmark =>
      have hcons : printed signed path true (.doc lines hmark :: parts) =
          (doc lines hmark).printed signed ++ printed signed path true parts := rfl
      rw [hcons, count_append, doc_count hb, lost, spare]
      · omega
      all_goals simp
    | env lines hmark object holds =>
      have hcons : printed signed path true (.env lines hmark object holds :: parts) =
          (env lines hmark object holds).printed signed ++ printed signed path true parts := rfl
      have hpart := env_count signed path hb hmark holds parts
      rw [hcons, count_append]
      omega

lemma lost_pos (h : ascii "# \x7d" ∈ lines) :
    0 < ((lines.dropWhile (· ≠ ascii "# \x7d")).flatMap (drop 2)).count 0x7d := by
  induction lines with
  | nil => cases h
  | cons line lines ih =>
    by_cases hline : line = ascii "# \x7d"
    · subst hline
      rw [dropWhile_cons_of_neg (by simp), flatMap_cons, count_append]
      exact Nat.add_pos_left (by decide) _
    · rw [dropWhile_cons_of_pos (by simp [hline])]
      exact ih ((mem_cons.1 h).resolve_left (Ne.symm hline))

variable (signed) in
/-- Nothing is lost only if every block is printable. -/
lemma printable_of_count (hpath : ∀ b ∈ path, isPlain b)
    (h : ∀ b, isWs b = false →
      (0x0a :: (printed signed path true parts ++ fnameText path)).count b =
      ((blockItems signed path parts).text true).count b) :
    ∀ p ∈ parts, p.Printable := by
  have hbrace := printed_count signed hpath (b := 0x7d) rfl parts
  have hcomma := printed_count signed hpath (b := 0x2c) rfl parts
  rw [h _ rfl] at hbrace hcomma
  have hlost : (parts.map (lost 0x7d)).sum = 0 := by
    rw [show [(0x2c : UInt8)].count 0x7d = 0 from rfl] at hbrace
    omega
  rw [List.sum_eq_zero_iff_forall_eq_nat, forall_mem_map] at hlost
  -- without a `# }` no line is lost
  have hno : ∀ p ∈ parts, p.lost 0x2c = 0 := by
    intro p hp
    cases p with
    | env lines =>
      have hmem : ascii "# \x7d" ∉ lines := fun h => (lost_pos h).ne' (hlost _ hp)
      have hdrop : lines.dropWhile (· ≠ ascii "# \x7d") = [] := by
        rw [dropWhile_eq_nil_iff]
        exact fun l hl => decide_eq_true (ne_of_mem_of_not_mem hl hmem)
      rw [lost, hdrop]
      rfl
    | _ => rfl
  have hspare : (parts.map spare).sum = 0 := by
    rw [List.sum_eq_zero_iff_forall_eq_nat.2 (forall_mem_map.2 hno),
      show [(0x2c : UInt8)].count 0x2c = 1 from rfl] at hcomma
    omega
  rw [List.sum_eq_zero_iff_forall_eq_nat, forall_mem_map] at hspare
  intro p hp
  cases p with
  | env lines hmark object holds =>
    refine ⟨fun h => (lost_pos h).ne' (hlost _ hp), ?_⟩
    have := hspare _ hp
    rw [spare] at this
    split at this
    · cases this
    · rename_i h
      exact Bool.eq_false_iff.2 h
  | _ => trivial

/-! ## §3 The path -/

lemma split_last {q : UInt8} {x y p r} (h : x ++ q :: p = y ++ q :: r) (hp : q ∉ p) :
    x = y ∧ p = r ∨ ∃ t, r = t ++ q :: p ∧ x = y ++ q :: t := by
  rcases append_eq_append_iff.1 h with ⟨c, hy, hc⟩ | ⟨c, hx, hc⟩
  · cases c with
    | nil => exact .inl ⟨by simpa using hy.symm, (cons.inj hc).2⟩
    | cons =>
      exact absurd (by rw [(cons.inj hc).2]; simp) hp
  cases c with
  | nil => exact .inl ⟨by simpa using hx, (cons.inj hc).2.symm⟩
  | cons z c =>
    obtain ⟨rfl, hr⟩ := cons.inj hc
    exact .inr ⟨c, hr, hx⟩

lemma blockItems_last : ∀ parts, (blockItems signed path parts).lastScalar =
    some (nameKey (ascii "fname") .empty, .str (plainElems path))
  | [] => rfl
  | .other _ _ :: parts => blockItems_last parts
  | .doc _ _ :: parts => blockItems_last parts
  | .env _ _ _ _ :: parts => by
    rw [blockItems, lastScalar_append _ (blockItems_isNil parts), blockItems_last parts]

lemma path_plain {items : Seq .obj} {start after before behind}
    (hbare : items.bare = (blockItems signed path parts).bare)
    (htext : start ++ (items.text true ++ after) = before ++ 0x22 :: (path ++ 0x22 :: behind))
    (hafter : (0x22 : UInt8) ∉ after) (hbehind : (0x22 : UInt8) ∉ behind) :
    ∀ b ∈ path, isPlain b := by
  -- the last member of `items`
  have hlast := congrArg lastScalar hbare
  rw [bare, lastScalar_mapWs, bare, lastScalar_mapWs, blockItems_last] at hlast
  obtain ⟨⟨key, v⟩, hmember, heq⟩ := Option.map_eq_some_iff.1 hlast
  obtain ⟨-, rfl⟩ := Prod.mk.inj heq
  obtain ⟨name, ws₁, ws₂, rfl⟩ : ∃ name ws₁ ws₂, key = .name name ws₁ ws₂ := by
    cases key with
    | name name ws₁ ws₂ => exact ⟨name, ws₁, ws₂, rfl⟩
  obtain ⟨front, hfront⟩ := text_lastScalar hmember true
  have hquote : ∀ ws : Ws, (0x22 : UInt8) ∉ ws.1 := fun ws h => by cases ws.2 _ h
  have hplain : (0x22 : UInt8) ∉ path.filter isPlain := fun h => by
    cases (mem_filter.1 h).2
  have hsplit : ((start ++ front) ++
      (0x22 :: (strText name ++ (0x22 :: (ws₁.1 ++ (0x3a :: ws₂.1))))) ++
      0x22 :: path.filter isPlain) ++ 0x22 :: (items.last.1 ++ ([0x7d] ++ after)) =
      (before ++ 0x22 :: path) ++ 0x22 :: behind := by
    have hright : (before ++ 0x22 :: path) ++ 0x22 :: behind =
        before ++ 0x22 :: (path ++ 0x22 :: behind) := by simp
    have hitems : items.text true = front ++ ((0x22 :: (strText name ++ (0x22 :: (ws₁.1 ++
        (0x3a :: ws₂.1))))) ++ ((0x22 :: (path.filter isPlain ++ [0x22])) ++
          (items.last.1 ++ [0x7d]))) := by
      rw [← plainElems_filter]
      exact hfront
    rw [hright, ← htext, hitems]
    simp
  have htail : (0x22 : UInt8) ∉ items.last.1 ++ ([0x7d] ++ after) := by simp [hquote, hafter]
  obtain ⟨hpath, -⟩ | ⟨t, ht, -⟩ := split_last hsplit htail
  · -- the strings, then what is between the last name and its string
    obtain ⟨-, hall⟩ | ⟨t, ht, hname⟩ := split_last hpath hplain
    · exact fun b hb => (mem_filter.1 (hall ▸ hb)).2
    have hcolon : (0x3a : UInt8) ∈ t := by
      have hname : (start ++ front ++ 0x22 :: strText name) ++ 0x22 :: (ws₁.1 ++ 0x3a :: ws₂.1) =
          before ++ 0x22 :: t := by
        rw [← hname]
        simp
      obtain ⟨-, rfl⟩ | ⟨u, rfl, -⟩ := split_last hname (by simp [hquote])
      · simp
      · simp
    have hpos : 0 < (t.filter isPlain).length := length_pos_of_mem (mem_filter.2 ⟨hcolon, rfl⟩)
    have hlen : (path.filter isPlain).length =
        (t.filter isPlain).length + (path.filter isPlain).length := by
      have hfilter : path.filter isPlain = t.filter isPlain ++ path.filter isPlain := by
        nth_rewrite 1 [ht]
        rw [filter_append, filter_cons_of_neg (by decide),
          filter_eq_self.2 fun b hb => (mem_filter.1 hb).2]
      nth_rewrite 1 [hfilter]
      rw [length_append]
    omega
  · exact absurd (by rw [ht]; simp) hbehind

/-! ## §4 The whole text -/

def fileSeq (path : List UInt8) (items : Seq .obj) : Seq .obj :=
  .sub .empty (ws "   " rfl) (nameKey (basename path) (ws " " rfl)) .obj items (.nil .empty)

def fileOpening (path : List UInt8) : List UInt8 :=
  ascii "   \"" ++ (basename path ++ ascii "\": \x7b")

lemma basename_plain (hpath : ∀ b ∈ path, isPlain b) : ∀ b ∈ basename path, isPlain b := by
  intro b hb
  rw [basename, mem_reverse] at hb
  exact hpath b (mem_reverse.1 ((takeWhile_sublist _).subset hb))

lemma fileSeq_text (hpath : ∀ b ∈ path, isPlain b) (items : Seq .obj) :
    (fileSeq path items).text true = fileOpening path ++ (items.text true ++ [0x7d]) := by
  rw [fileSeq, text, nameKey_text (basename_plain hpath), fileOpening]
  simp [sepText, ws, Ws.empty, ascii, asc, Kind.opening, text, Kind.closing]

lemma printed_started : ∀ parts, parts.any isBlock →
    printed signed path false parts = header path false ++ printed signed path true parts
  | [], h => by cases h
  | .other _ _ :: parts, h => printed_started parts h
  | .doc _ _ :: _, _ => rfl
  | .env _ _ _ _ :: _, _ => rfl

lemma printed_no_block : ∀ (parts : List Part) started, parts.any isBlock = false →
    printed signed path started parts = []
  | [], _, _ => rfl
  | .other _ _ :: parts, started, h => printed_no_block parts started h
  | .doc _ _ :: _, _, h => by cases h
  | .env _ _ _ _ :: _, _, h => by cases h

/-- What is printed for the whole file. -/
lemma parseShell_eq (junk : List UInt8)
    (hlines : ∀ line ∈ parts.flatMap Part.lines, IsLine 4096 line) (hapart : Apart parts) :
    parseShell signed path junk (shellTest parts) = some (if parts.any Part.isBlock then
      fileOpening path ++ (0x0a :: (printed signed path true parts ++ fnameText path))
        else []) := by
  obtain ⟨st', hrun⟩ := runs_parts signed path parts false []
    (fun line h => (hlines line h).noNul) hapart (.inl rfl)
  obtain ⟨_, hfold, -⟩ := hrun junk
  have hall : parseShell signed path junk (shellTest parts) = some (jsonFinish path
      ⟨st', false || parts.any Part.isBlock, [] ++ printed signed path false parts⟩) := by
    rw [parseShell, fgetsAll_shellTest hlines]
    exact congrArg (· >>= _) hfold
  rw [hall, jsonFinish, Bool.false_or]
  cases hany : parts.any Part.isBlock with
  | false => exact congrArg some (printed_no_block parts false hany)
  | true =>
    rw [printed_started parts hany, header]
    simp [fileOpening, fnameText, ascii, asc]

lemma printable_of_no_block (h : parts.any isBlock = false) : ∀ p ∈ parts, p.Printable := by
  intro p hp
  have hblock := any_eq_false.1 h p hp
  cases p with
  | other | doc => trivial
  | env => exact absurd rfl hblock

lemma path_of_items {items : Seq .obj}
    (htext : fileOpening path ++ (0x0a :: (printed signed path true parts ++ fnameText path)) ++
      [0x7d] = items.text true)
    (hbare : items.bare = (fileSeq path (blockItems signed path parts)).bare) :
    ∀ b ∈ path, isPlain b := by
  cases items with
  | nil | scalar => cases hbare
  | sub sep lead key k inner next =>
    obtain ⟨-, -, -, rfl, hinner, hnext⟩ := sub.inj hbare
    obtain ⟨last, rfl⟩ : ∃ last, next = .nil last := by
      cases next with
      | nil last => exact ⟨last, rfl⟩
      | scalar | sub => cases hnext
    have hsplit : (lead.1 ++ (key.text ++ [0x7b])) ++ (inner.text true ++ (last.1 ++ [0x7d])) =
        (fileOpening path ++ (0x0a :: (printed signed path true parts ++
          ascii "   \"fname\": "))) ++ 0x22 :: (path ++ 0x22 :: ascii "\n  \x7d\x7d") := by
      rw [text, text] at htext
      simpa [sepText, Kind.opening, Kind.closing, fnameText, ascii, asc] using htext.symm
    refine path_plain (eq_of_heq hinner) hsplit ?_ ?_
    · intro h
      rcases mem_append.1 h with h | h
      · cases last.2 _ h
      · exact absurd h (by decide)
    · decide

/-- **When the output is the JSON of the blocks.** -/
lemma printsJson_iff (junk : List UInt8)
    (hlines : ∀ line ∈ parts.flatMap Part.lines, IsLine 4096 line) (hapart : Apart parts) :
    PrintsJson signed path junk parts ↔ (∀ p ∈ parts, p.Printable) ∧
      (parts.any Part.isBlock → ∀ b ∈ path, isPlain b) := by
  rw [PrintsJson, parseShell_eq junk hlines hapart, fileItems]
  cases hany : parts.any Part.isBlock with
  | false =>
    refine iff_of_true ⟨_, rfl, .nil .empty, rfl, rfl⟩ ⟨printable_of_no_block hany, by simp⟩
  | true =>
    rw [if_pos rfl]
    constructor
    · rintro ⟨_, ⟨⟩, items, htext, hbare⟩
      have hpath := path_of_items htext hbare
      refine ⟨printable_of_count signed hpath fun b hb => ?_, fun _ => hpath⟩
      have hcount : (items.text true).count b =
          ((fileSeq path (blockItems signed path parts)).text true).count b :=
        count_bare hb (t := fileSeq path (blockItems signed path parts)) hbare true
      rw [← htext, fileSeq_text hpath, count_append, count_append,
        count_append, count_append] at hcount
      omega
    · rintro ⟨hprint, hpath⟩
      obtain ⟨items, -, htext, hbare⟩ := blockItems_printed signed (hpath rfl) parts
        (fun line h => (hlines line h).noNewline) hprint
      refine ⟨_, rfl, fileSeq path items, ?_, ?_⟩
      · rw [fileSeq_text (hpath rfl), htext, append_assoc]
      have hsub := congrArg (fun inner : Seq .obj => sub .empty .empty
        (nameKey (basename path) .empty) .obj inner (.nil .empty)) hbare
      exact hsub

end items

lemma extractMetadata_ok (junk : List UInt8)
    (hlines : ∀ line ∈ parts.flatMap Part.lines, IsLine 4096 line) :
    ∃ metadata, RunShell.extractMetadata junk (shellTest parts) = .ok metadata := by
  obtain ⟨s', -, hfold, -⟩ := extracts_parts (fun line h => (hlines line h).noNul)
    { line := junk } rfl
  refine ⟨s'.metadata, ?_⟩
  rw [RunShell.extractMetadata, fgetsAll_shellTest hlines]
  exact congrArg (· >>= _) hfold

section tests

/-- An `env` block with one member. -/
def oneMember : Part :=
  .env [ascii "# \"a\": true"] (forall_mem_singleton.2 ⟨rfl, by decide⟩)
    (.scalar .empty (ws "\n" rfl) (nameKey (ascii "a") (ws " " rfl)) (.bool true)
      (.nil (ws "\n" rfl))) (by decide)

def oneLine : Part := .doc [ascii "# x"] (forall_mem_singleton.2 ⟨rfl, by decide⟩)

lemma isLine_of_check (h : (lines.all fun line => !line.contains 0x0a && !line.contains 0 &&
      decide (line.length + 2 ≤ 4096))) : ∀ line ∈ lines, IsLine 4096 line := by
  intro line hline
  have := all_eq_true.1 h line hline
  simp only [Bool.and_eq_true, Bool.not_eq_true', contains_eq_mem, decide_eq_false_iff_not,
    decide_eq_true_eq] at this
  exact ⟨this.1.1, this.1.2, this.2⟩

end tests

end LtpDdt.MetaparseSh
