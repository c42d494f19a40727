/-
Zoo.Zoolib — the list of active processes that `pan/zoolib.c` keeps in
a text file.

* A file is the list of its bytes. File operations succeed; the lock has no
  effect on a single process and is left out.
* Both functions look for the first line with some property, read with
  `fgets` into a buffer of `BUFLEN` bytes (`firstLine`).
* Arguments of `zoo_mark_cmdline` are C strings without newlines, and a
  process id is a non-negative `int` (`Text`, `Pid`).

After any sequence of calls the file is a sequence of lines of 80 bytes (`IsLine`) that are replaced
or added (`zooMark_lines`, `zooClear_lines`). The lines in use are the marked entries without the
cleared ones, and a line is only added if all are in use.
-/
import LtpDdt.Bytes.File
import LtpDdt.CTypes.CString
import LtpDdt.CTypes.Decimal

namespace LtpDdt.Zoo

open Bytes CTypes

def bufLen : Nat := 81

structure Text where
  bytes : List UInt8
  ok : ∀ b ∈ bytes, b ≠ 0 ∧ b ≠ 0x0a

/-- A non-negative `pid_t`. -/
structure Pid where
  val : Nat
  le : (val : Int) ≤ intMax

/-! ## Reading lines -/

lemma fgets_length_pos (n : Nat) (b : UInt8) (bs : List UInt8) :
    0 < (fgets (n + 1) (b :: bs)).length := by
  rw [fgets]
  split <;> simp

/-- The first line that passes, with its position; `rest` is not read yet. -/
def firstLine (test : List UInt8 → Bool) (pos : Nat) (rest : List UInt8) :
    Option (Nat × List UInt8) :=
  match rest with
  | [] => none
  | b :: bs =>
    let buf := fgets (bufLen - 1) (b :: bs)
    if test buf then some (pos, buf)
    else firstLine test (pos + buf.length) ((b :: bs).drop buf.length)
  termination_by rest.length
  decreasing_by
    have : 0 < (fgets (bufLen - 1) (b :: bs)).length := fgets_length_pos 79 b bs
    simp only [List.length_drop, List.length_cons]
    omega

/-! ## Entries -/

def recycled (buf : List UInt8) : Bool := buf.head? == some 0x23

/-- `"%-*.*s\n"` with the width and the precision `w` -/
def formatEntry (w : Nat) (entry : List UInt8) : List UInt8 :=
  entry.take w ++ List.replicate (w - entry.length) 0x20 ++ [0x0a]

def zooMark (file entry : List UInt8) : Int × List UInt8 :=
  match firstLine recycled 0 file with
  | some (pos, buf) => (0, overwrite file pos (formatEntry ((cstr buf).length - 1) entry))
  | none => (0, overwrite file file.length (formatEntry 79 entry))

/-- `snprintf` of `"%d,%s,%s"` into 80 bytes -/
def newEntry (p : Pid) (tag cmdline : Text) : List UInt8 :=
  (printInt p.val ++ 0x2c :: (tag.bytes ++ 0x2c :: cmdline.bytes)).take 79

def zooMarkCmdline (file : List UInt8) (p : Pid) (tag cmdline : Text) : Int × List UInt8 :=
  zooMark file (newEntry p tag cmdline)

def zooClear (file : List UInt8) (p : Int) : Int × List UInt8 :=
  match firstLine (fun buf => !recycled buf && atoi (cstr buf) == p) 0 file with
  | some (pos, _) => (0, overwrite file pos [0x23])
  | none => (1, file)

open List

variable {l : List UInt8} {lines : List (List UInt8)}

/-! ## Lines -/

def IsLine (l : List UInt8) : Prop :=
  ∃ text, l = text ++ [0x0a] ∧ text.length = 79 ∧ ∀ b ∈ text, b ≠ 0 ∧ b ≠ 0x0a

lemma IsLine.length (h : IsLine l) : l.length = 80 := by
  obtain ⟨_, rfl, hlen, -⟩ := h
  simp [hlen]

lemma IsLine.cstr (h : IsLine l) : cstr l = l := by
  obtain ⟨_, rfl, -, hok⟩ := h
  refine cstr_of_not_mem fun hm => ?_
  rcases mem_append.mp hm with hm | hm
  · exact (hok _ hm).1 rfl
  · exact absurd (mem_singleton.mp hm) (by decide)

lemma IsLine.fgets (h : IsLine l) (t : List UInt8) : fgets (bufLen - 1) (l ++ t) = l := by
  obtain ⟨text, rfl, hlen, hok⟩ := h
  have hnl : (CChar.newline : UInt8) ∉ text := fun hm => (hok _ hm).2 rfl
  rw [fgets_eq_take, append_assoc, idxOf_append_of_notMem hnl, hlen]
  simp [bufLen, take_append, take_take, hlen]

lemma length_flatten (h : ∀ l ∈ lines, IsLine l) : lines.flatten.length = 80 * lines.length := by
  induction lines with
  | nil => rfl
  | cons l lines ih =>
    have hl := (h l (by simp)).length
    have := ih (forall_mem_cons.1 h).2
    simp [this]
    omega

lemma firstLine_lines (test : List UInt8 → Bool) : ∀ (lines : List (List UInt8)) pos,
    (∀ l ∈ lines, IsLine l) →
    ((∀ l ∈ lines, test l = false) ∧ firstLine test pos lines.flatten = none) ∨
      ∃ pre l post, lines = pre ++ l :: post ∧ (∀ x ∈ pre, test x = false) ∧ test l ∧
        firstLine test pos lines.flatten = some (pos + 80 * pre.length, l)
  | [], pos, _ => .inl ⟨by simp, by rw [firstLine.eq_def]; rfl⟩
  | l :: lines, pos, h => by
    have hl := h l (by simp)
    obtain ⟨b, bs, hbs⟩ : ∃ b bs, l = b :: bs :=
      exists_cons_of_ne_nil fun hnil => by have := hl.length; simp [hnil] at this
    have hunfold : firstLine test pos (l :: lines).flatten =
        if test l then some (pos, l) else firstLine test (pos + 80) lines.flatten := by
      have hread := hl.fgets lines.flatten
      have hdrop : (l ++ lines.flatten).drop l.length = lines.flatten := drop_left
      have hlen := hl.length
      rw [firstLine.eq_def, flatten_cons]
      subst hbs
      simp only [cons_append] at hread hdrop ⊢
      rw [hread, ← hlen, hdrop]
    rw [hunfold]
    by_cases ht : test l
    · exact .inr ⟨[], l, lines, rfl, by simp, ht, by simp [ht]⟩
    have hf : test l = false := by simpa using ht
    rw [if_neg ht]
    rcases firstLine_lines test lines (pos + 80) fun x hx => h x (by simp [hx]) with
      ⟨hall, hnone⟩ | ⟨pre, l', post, rfl, hpre, ht', hsome⟩
    · exact .inl ⟨by simpa [hf] using hall, hnone⟩
    refine .inr ⟨l :: pre, l', post, rfl, by simpa [hf] using hpre, ht', ?_⟩
    rw [hsome, length_cons]
    congr 2
    omega

/-! ## Lines of entries -/

lemma isLine_formatEntry {entry} (hok : ∀ b ∈ entry, b ≠ 0 ∧ b ≠ 0x0a) :
    IsLine (formatEntry 79 entry) := by
  refine ⟨entry.take 79 ++ replicate (79 - entry.length) 0x20, rfl, ?_, fun b hb => ?_⟩
  · simp
    omega
  rcases mem_append.mp hb with hb | hb
  · exact hok b (mem_of_mem_take hb)
  · rw [(mem_replicate.mp hb).2]
    decide

variable (p : Pid)

variable (tag cmdline : Text)

def entryLine : List UInt8 := formatEntry 79 (newEntry p tag cmdline)

lemma entryLine_eq : ∃ t, entryLine p tag cmdline = decimal p.val ++ 0x2c :: t := by
  have hlen : (decimal p.val).length ≤ 10 :=
    decimal_length_le (k := 9) (by have := p.le; unfold intMax at this; omega)
  obtain ⟨k, hk⟩ : ∃ k, 79 - (decimal p.val).length = k + 1 :=
    ⟨78 - (decimal p.val).length, by omega⟩
  rw [entryLine, formatEntry, newEntry, take_take, Nat.min_self, printInt_natCast, take_append,
    take_of_length_le (by omega), hk]
  exact ⟨_, by simp only [append_assoc]; rfl⟩

lemma isLine_entryLine : IsLine (entryLine p tag cmdline) := by
  refine isLine_formatEntry fun b hb => ?_
  have hmem := mem_of_mem_take hb
  rw [mem_append, mem_cons, mem_append, mem_cons] at hmem
  rcases hmem with hd | rfl | ht | rfl | hc
  · have hrange := (isDigitByte_iff b).mp (isDigitByte_decimal _ b hd)
    exact ⟨fun h => by subst h; simp at hrange, fun h => by subst h; simp at hrange⟩
  · decide
  · exact tag.ok b ht
  · decide
  · exact cmdline.ok b hc

lemma recycled_entryLine : recycled (entryLine p tag cmdline) = false := by
  obtain ⟨t, ht⟩ := entryLine_eq p tag cmdline
  obtain ⟨d, _, hds⟩ := exists_cons_of_ne_nil (decimal_ne_nil p.val)
  have hrange := (isDigitByte_iff d).mp (isDigitByte_decimal p.val d (by simp [hds]))
  rw [ht, hds, recycled, cons_append, head?_cons]
  simp only [beq_eq_false_iff_ne, ne_eq, Option.some.injEq]
  rintro rfl
  simp at hrange

def linePid (l : List UInt8) : Int := leadingDigits 0 l

lemma linePid_entryLine : linePid (entryLine p tag cmdline) = p.val := by
  obtain ⟨t, ht⟩ := entryLine_eq p tag cmdline
  rw [linePid, ht, leadingDigits_append _ (isDigitByte_decimal _), leadingDigits_decimal]
  rfl

def IsEntry (l : List UInt8) : Prop := ∃ p tag cmdline, l = entryLine p tag cmdline

lemma IsEntry.atoi (h : IsEntry l) : atoi (cstr l) = linePid l := by
  obtain ⟨p, tag, cmdline, rfl⟩ := h
  rw [linePid_entryLine, (isLine_entryLine p tag cmdline).cstr]
  obtain ⟨t, ht⟩ := entryLine_eq p tag cmdline
  rw [ht, atoi_decimal p.le (by decide)]

/-! ## The two functions -/

/-- `zoo_mark_cmdline` takes a recycled line or a new one. -/
lemma zooMark_lines (h : ∀ l ∈ lines, IsLine l) (entry : List UInt8) :
    ((∀ l ∈ lines, recycled l = false) ∧
      zooMark lines.flatten entry = (0, (lines ++ [formatEntry 79 entry]).flatten)) ∨
    ∃ pre l post, lines = pre ++ l :: post ∧ recycled l ∧
      zooMark lines.flatten entry = (0, (pre ++ formatEntry 79 entry :: post).flatten) := by
  rcases firstLine_lines recycled lines 0 h with ⟨hall, hnone⟩ | ⟨pre, l, post, rfl, -, hl, hsome⟩
  · left
    refine ⟨hall, ?_⟩
    rw [zooMark, hnone]
    rw [overwrite_end, flatten_append, flatten_singleton]
  right
  refine ⟨pre, l, post, rfl, hl, ?_⟩
  have hline := h l (by simp)
  have hlen : pre.flatten.length = 80 * pre.length := length_flatten fun x hx => h x (by simp [hx])
  rw [zooMark, hsome]
  dsimp only
  have hpos : 0 + 80 * pre.length = pre.flatten.length := by omega
  rw [hline.cstr, hline.length, hpos]
  have hover := overwrite_middle pre.flatten l (formatEntry 79 entry) post.flatten
    (by rw [hline.length]; simp [formatEntry]; omega)
  simpa using hover

/-- `zoo_clear` recycles the line of the pid. -/
lemma zooClear_lines (h : ∀ l ∈ lines, IsLine l)
    (hentry : ∀ l ∈ lines, recycled l = false → IsEntry l) (p : Int) :
    ((∀ l ∈ lines, recycled l = false → linePid l ≠ p) ∧
      zooClear lines.flatten p = (1, lines.flatten)) ∨
    ∃ pre b l post, lines = pre ++ (b :: l) :: post ∧ recycled (b :: l) = false ∧
      linePid (b :: l) = p ∧ (∀ x ∈ pre, recycled x = false → linePid x ≠ p) ∧
      zooClear lines.flatten p = (0, (pre ++ (0x23 :: l) :: post).flatten) := by
  have htest : ∀ l ∈ lines, ((!recycled l && atoi (cstr l) == p) = false) ↔
      (recycled l = false → linePid l ≠ p) := by
    intro l hl
    cases hr : recycled l with
    | true => simp
    | false => simp [(hentry l hl hr).atoi]
  rcases firstLine_lines (fun l => !recycled l && atoi (cstr l) == p) lines 0 h with
    ⟨hall, hnone⟩ | ⟨pre, l, post, rfl, hpre, hl, hsome⟩
  · refine .inl ⟨fun l hl => (htest l hl).mp (hall l hl), ?_⟩
    rw [zooClear, hnone]
  have hlen : pre.flatten.length = 80 * pre.length := length_flatten fun x hx => h x (by simp [hx])
  have hline := (h l (by simp)).length
  obtain ⟨b, t, rfl⟩ : ∃ b t, l = b :: t :=
    exists_cons_of_ne_nil fun hnil => by simp [hnil] at hline
  simp only [Bool.and_eq_true, Bool.not_eq_true', beq_iff_eq] at hl
  have hpid := (hentry (b :: t) (by simp) hl.1).atoi
  refine .inr ⟨pre, b, t, post, rfl, hl.1, by rw [← hpid, hl.2],
    fun x hx => (htest x (by simp [hx])).mp (hpre x hx), ?_⟩
  rw [zooClear, hsome]
  have hover := overwrite_middle pre.flatten [b] [0x23] (t ++ post.flatten) rfl
  rw [show 0 + 80 * pre.length = pre.flatten.length by omega]
  simpa using hover

/-! ## Histories -/

inductive Call where
  | mark (p : Pid) (tag cmdline : Text)
  | clear (p : Int)

def linesOf (file : List UInt8) : List (List UInt8) :=
  if file = [] then [] else file.take 80 :: linesOf (file.drop 80)
  termination_by file.length
  decreasing_by
    have : 0 < file.length := length_pos_iff.mpr (by assumption)
    simp only [length_drop]
    omega

lemma linesOf_flatten : ∀ {lines : List (List UInt8)}, (∀ l ∈ lines, IsLine l) →
    linesOf lines.flatten = lines
  | [], _ => by rw [linesOf]; rfl
  | l :: lines, h => by
    have hlen := (h l (by simp)).length
    have hne : l ++ lines.flatten ≠ [] := fun hnil => by
      simp only [append_eq_nil_iff] at hnil
      simp [hnil.1] at hlen
    rw [linesOf, flatten_cons, if_neg hne, ← hlen, take_left, drop_left,
      linesOf_flatten fun x hx => h x (by simp [hx])]

def inUse (lines : List (List UInt8)) : List (List UInt8) := lines.filter (! recycled ·)

/-- The file, the lines that were marked and cleared, and how many were in use at most. -/
structure History where
  file : List UInt8 := []
  marked : List (List UInt8) := []
  cleared : List (List UInt8) := []
  peak : Nat := 0

def History.step (z : History) : Call → History
  | .mark p tag cmdline =>
    let file := (zooMarkCmdline z.file p tag cmdline).2
    { file := file
      marked := z.marked ++ [entryLine p tag cmdline]
      cleared := z.cleared
      peak := max z.peak (inUse (linesOf file)).length }
  | .clear p =>
    let (ret, file) := zooClear z.file p
    { file := file
      marked := z.marked
      cleared :=
        if ret = 0 then
          -- the first line in use with the process id
          z.cleared ++ ((inUse (linesOf z.file)).find? (linePid · = p)).toList
        else z.cleared
      peak := max z.peak (inUse (linesOf file)).length }

def history (calls : List Call) : History := calls.foldl History.step {}

/-- What holds after any calls. -/
structure Inv (lines : List (List UInt8)) (z : History) : Prop where
  file_eq : z.file = lines.flatten
  line : ∀ l ∈ lines, IsLine l
  entry : ∀ l ∈ lines, recycled l = false → IsEntry l
  perm : (inUse lines ++ z.cleared).Perm z.marked
  count : lines.length = z.peak

lemma inUse_append (xs ys : List (List UInt8)) : inUse (xs ++ ys) = inUse xs ++ inUse ys :=
  filter_append ..

lemma inUse_cons_recycled (h : recycled l) (ls : List (List UInt8)) :
    inUse (l :: ls) = inUse ls := by simp [inUse, h]

lemma inUse_cons (h : recycled l = false) (ls : List (List UInt8)) :
    inUse (l :: ls) = l :: inUse ls := by simp [inUse, h]

lemma inUse_length_le (lines : List (List UInt8)) : (inUse lines).length ≤ lines.length :=
  length_filter_le ..

lemma IsLine.recycle {b} (h : IsLine (b :: l)) : IsLine (0x23 :: l) := by
  obtain ⟨text, heq, hlen, hok⟩ := h
  cases text with
  | nil => simp at hlen
  | cons c text =>
    obtain ⟨rfl, rfl⟩ := cons.inj heq
    refine ⟨0x23 :: text, rfl, hlen, fun x hx => ?_⟩
    rcases mem_cons.mp hx with rfl | hx
    · decide
    · exact hok x (by simp [hx])

variable {pre post : List (List UInt8)} {z : History}

lemma forall_replaced {P : List UInt8 → Prop} {l' : List UInt8} (h : ∀ x ∈ pre ++ l :: post, P x)
    (hl' : P l') : ∀ x ∈ pre ++ l' :: post, P x := by
  intro x hx
  rcases mem_append.mp hx with hx | hx
  · exact h x (by simp [hx])
  rcases mem_cons.mp hx with rfl | hx
  · exact hl'
  · exact h x (by simp [hx])

/-- A mark keeps the invariant. -/
lemma Inv.mark (h : Inv lines z) (p : Pid) (tag cmdline : Text) :
    ∃ lines', Inv lines' (z.step (.mark p tag cmdline)) := by
  have hline := isLine_entryLine p tag cmdline
  have hfree := recycled_entryLine p tag cmdline
  have hentry : IsEntry (entryLine p tag cmdline) := ⟨p, tag, cmdline, rfl⟩
  have hmark : (z.step (.mark p tag cmdline)).file =
      (zooMark lines.flatten (newEntry p tag cmdline)).2 := by rw [← h.file_eq]; rfl
  rcases zooMark_lines h.line (newEntry p tag cmdline) with
    ⟨hall, hrun⟩ | ⟨pre, l, post, rfl, hl, hrun⟩
  · have hlines : ∀ l ∈ lines ++ [entryLine p tag cmdline], IsLine l := by
      simpa [or_imp, forall_and] using ⟨h.line, hline⟩
    have huse : inUse lines = lines := filter_eq_self.mpr fun l hl => by simp [hall l hl]
    have hfile : (z.step (.mark p tag cmdline)).file =
        (lines ++ [entryLine p tag cmdline]).flatten := hmark.trans (congrArg Prod.snd hrun)
    refine ⟨lines ++ [entryLine p tag cmdline], hfile, hlines, ?_, ?_, ?_⟩
    · intro l hl hr
      rcases mem_append.mp hl with hl | hl
      · exact h.entry l hl hr
      · exact mem_singleton.mp hl ▸ hentry
    · rw [inUse_append, inUse_cons hfree]
      rw [append_assoc]
      exact perm_middle.trans ((h.perm.cons _).trans (perm_append_singleton ..).symm)
    · show _ = max z.peak (inUse (linesOf (z.step (.mark p tag cmdline)).file)).length
      rw [hfile, linesOf_flatten hlines, inUse_append, huse, inUse_cons hfree, ← h.count]
      simp [inUse]
  · have hlines := forall_replaced h.line hline
    have hfile : (z.step (.mark p tag cmdline)).file =
        (pre ++ entryLine p tag cmdline :: post).flatten := hmark.trans (congrArg Prod.snd hrun)
    refine ⟨pre ++ entryLine p tag cmdline :: post, hfile, hlines,
      forall_replaced h.entry fun _ => hentry, ?_, ?_⟩
    · have hperm := h.perm
      rw [inUse_append, inUse_cons_recycled hl] at hperm
      rw [inUse_append, inUse_cons hfree]
      rw [append_assoc] at hperm ⊢
      exact perm_middle.trans ((hperm.cons _).trans (perm_append_singleton ..).symm)
    · show _ = max z.peak (inUse (linesOf (z.step (.mark p tag cmdline)).file)).length
      have hle := inUse_length_le (pre ++ entryLine p tag cmdline :: post)
      have hcount := h.count
      rw [hfile, linesOf_flatten hlines]
      simp only [length_append, length_cons] at hle hcount ⊢
      omega

lemma find_inUse {p} (hpre : ∀ x ∈ pre, recycled x = false → linePid x ≠ p)
    (hl : recycled l = false) (hp : linePid l = p) :
    (inUse (pre ++ l :: post)).find? (linePid · = p) = some l := by
  have hnone : (inUse pre).find? (linePid · = p) = none := by
    refine find?_eq_none.mpr fun x hx => ?_
    obtain ⟨hmem, hr⟩ := mem_filter.mp hx
    simpa using hpre x hmem (by simpa using hr)
  rw [inUse_append, inUse_cons hl, find?_append, hnone]
  simp [hp]

/-- A clear keeps the invariant. -/
lemma Inv.clear (h : Inv lines z) (p : Int) : ∃ lines', Inv lines' (z.step (.clear p)) := by
  have hstep : z.step (.clear p) =
      { file := (zooClear lines.flatten p).2
        marked := z.marked
        cleared :=
          if (zooClear lines.flatten p).1 = 0 then
            z.cleared ++ ((inUse lines).find? (linePid · = p)).toList
          else z.cleared
        peak := max z.peak (inUse (linesOf (zooClear lines.flatten p).2)).length } := by
    rw [History.step, h.file_eq, linesOf_flatten h.line]
  have hcount := h.count
  rw [hstep]
  rcases zooClear_lines h.line h.entry p with ⟨-, hrun⟩ | ⟨pre, b, l, post, rfl, hl, hp, hpre, hrun⟩
  · have hle := inUse_length_le lines
    rw [hrun]
    refine ⟨lines, rfl, h.line, h.entry, h.perm, ?_⟩
    show lines.length = max z.peak (inUse (linesOf lines.flatten)).length
    rw [linesOf_flatten h.line]
    omega
  have hrec : recycled (0x23 :: l) := rfl
  have hlines := forall_replaced h.line (h.line (b :: l) (by simp)).recycle
  rw [hrun]
  refine ⟨pre ++ (0x23 :: l) :: post, rfl, hlines,
    forall_replaced h.entry fun hr => absurd hr (by simp [hrec]), ?_, ?_⟩
  · have hperm := h.perm
    rw [inUse_append, inUse_cons hl, append_assoc] at hperm
    rw [if_pos rfl, find_inUse hpre hl hp, inUse_append, ← append_assoc]
    refine (perm_append_singleton ..).trans (Perm.trans ?_ hperm)
    rw [append_assoc]
    exact perm_middle.symm
  · have hle := inUse_length_le (pre ++ (0x23 :: l) :: post)
    rw [linesOf_flatten hlines]
    simp only [length_append, length_cons] at hle hcount ⊢
    omega

/-- **Any calls keep the invariant.** -/
lemma history_inv (calls : List Call) : ∃ lines, Inv lines (history calls) := by
  have hrun : ∀ (calls : List Call) (z : History), (∃ lines, Inv lines z) →
      ∃ lines, Inv lines (calls.foldl History.step z) := by
    intro calls
    induction calls with
    | nil => exact fun _ h => h
    | cons c calls ih =>
      rintro z ⟨_, h⟩
      cases c with
      | mark p tag cmdline => exact ih _ (h.mark p tag cmdline)
      | clear p => exact ih _ (h.clear p)
  exact hrun calls {} ⟨[], rfl, by simp, by simp, .refl _, rfl⟩

/-- **After any calls** the file is a sequence of lines of 80 bytes. Those in use were marked and
not cleared. Another `zoo_clear` fails exactly for a process without a line. There are as many lines
as were ever in use at once. -/
theorem zoo_after_calls (calls : List Call) :
    let z := history calls
    ((linesOf z.file).flatten = z.file ∧ ∀ l ∈ linesOf z.file, IsLine l) ∧
      (inUse (linesOf z.file) ++ z.cleared).Perm z.marked ∧
      (∀ p, (zooClear z.file p).1 = 1 ↔ ∀ l ∈ inUse (linesOf z.file), linePid l ≠ p) ∧
      (linesOf z.file).length = z.peak := by
  obtain ⟨lines, h⟩ := history_inv calls
  dsimp only
  rw [h.file_eq, linesOf_flatten h.line]
  refine ⟨⟨rfl, h.line⟩, h.perm, fun p => ?_, h.count⟩
  have hmem : ∀ l, l ∈ inUse lines ↔ l ∈ lines ∧ recycled l = false := by simp [inUse]
  rcases zooClear_lines h.line h.entry p with ⟨hnone, hrun⟩ | ⟨_, b, l, _, rfl, hl, hp, -, hrun⟩
  · simp only [hrun, true_iff]
    exact fun l hl => hnone l ((hmem l).mp hl).1 ((hmem l).mp hl).2
  simp only [hrun]
  refine iff_of_false (by decide) fun hall => ?_
  exact hall (b :: l) ((hmem _).mpr ⟨by simp, hl⟩) hp

end LtpDdt.Zoo
