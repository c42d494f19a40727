/-
Kconfig.Bounds — how far `kconfig_parse_line` of `lib/tst_kconfig.c` reads.

`lineStops` are the indices at which the loops of the function stop, in the order in
which they run.

* `strstr` and `strncmp` stop at the NUL; only the loops of the function are counted.
* The variables of `kconfig_parse_line` are given by their ids: the other fields are
  written, not read.

A loop that stops at the NUL stops in the line (`scanWhile_line`); the one over
the value looks for white space only (`lineStops_in_line_iff`). The loops stop in the
buffer exactly where `kconfigParseLine` of `Kconfig.Read` returns (`lineStops_ok_iff`).
-/
import LtpDdt.Kconfig.Read

namespace LtpDdt.Kconfig

open CTypes

/-! ## `kconfig_parse_line` -/

/-- `while (p(s[i])) i++` -/
def scanFrom (p : Char → Bool) : List Char → Nat → Except Fault Nat
  | [], _ => .error .access
  | c :: s, i => if p c then scanFrom p s (i + 1) else .ok i

/-- The loop from index `i` of the buffer on. -/
def scanWhile (p : Char → Bool) (buf : List Char) (i : Nat) : Except Fault Nat :=
  scanFrom p (buf.drop i) i

/-- The loop over the variables, for a name from `var` to `out`. -/
def varStops (buf : List Char) (isNotSet : Bool) (var out : Nat) :
    List (List Char) → Except Fault (List Nat)
  | [] => .ok []
  | id :: ids =>
    if id.length ≠ out - var then varStops buf isNotSet var out ids
    else if id ≠ (buf.drop var).take (out - var) then varStops buf isNotSet var out ids
    else if isNotSet then .ok []
    else do
      let eq ← scanWhile isSpace buf out
      if buf.getD eq '\x00' ≠ '=' then .ok [eq]
      else do
        let val ← scanWhile isSpace buf (eq + 1)
        let stop ← scanWhile (fun c => !isSpace c) buf val
        if stop - val = 1 ∧ (buf.getD val '\x00' = 'y' ∨ buf.getD val '\x00' = 'm') then
          .ok [eq, val, stop]
        else do
          let stops ← varStops buf isNotSet var out ids
          .ok (eq :: val :: stop :: stops)

def lineStops (buf : List Char) (ids : List (List Char)) : Except Fault (List Nat) := do
  let start ← scanWhile isSpace buf 0
  let line := cstr (buf.drop start)
  let isNotSet := line.head? == some '#'
  if isNotSet && (strstr notSetStr line).isNone then .ok [start]
  else
    match strstr configStr line with
    | none => .ok [start]
    | some rest => do
        let var := start + (line.length - rest.length)
        let out ← scanWhile isNameChar buf var
        let stops ← varStops buf isNotSet var out ids
        .ok (start :: out :: stops)

open List

variable {p : Char → Bool} {i var out : Nat} {as : List Char}

/-! ## Loops over a line -/

lemma scanFrom_append (h : ∀ a ∈ as, p a) {b : Char} (hb : p b = false) (bs : List Char)
    (i : Nat) : scanFrom p (as ++ b :: bs) i = .ok (i + as.length) := by
  induction as generalizing i with
  | nil => simp [scanFrom, hb]
  | cons a as ih =>
    obtain ⟨ha, has⟩ := forall_mem_cons.1 h
    rw [cons_append, scanFrom, if_pos ha, ih has, length_cons]
    congr 1
    omega

lemma le_of_scanFrom : ∀ {bs} {i j}, scanFrom p bs i = .ok j → i ≤ j
  | b :: bs, i, j, h => by
    rw [scanFrom] at h
    split at h
    · exact (Nat.le_succ i).trans (le_of_scanFrom h)
    · cases h
      exact Nat.le_refl i

lemma scanFrom_beyond (h : ∀ a ∈ as, p a) {bs j} (hj : scanFrom p (as ++ bs) i = .ok j) :
    i + as.length ≤ j := by
  induction as generalizing i with
  | nil => exact le_of_scanFrom hj
  | cons a as ih =>
    obtain ⟨ha, has⟩ := forall_mem_cons.1 h
    rw [cons_append, scanFrom, if_pos ha] at hj
    have := ih has hj
    rw [length_cons]
    omega

section Line
variable {s t : List Char}

lemma scanWhile_line (hp : p '\x00' = false) (hi : i ≤ s.length) :
    ∃ j, scanWhile p (s ++ '\x00' :: t) i = .ok j ∧ i ≤ j ∧ j ≤ s.length ∧
      s.drop j = (s.drop i).dropWhile p ∧ (s.drop i).take (j - i) = (s.drop i).takeWhile p := by
  obtain ⟨pre, post, hr, htake, hdrop, hpre, hpost⟩ := scan_split p (s.drop i)
  have hlen : i + (pre.length + post.length) = s.length := by
    have := congrArg length hr
    rw [length_append, length_drop] at this
    omega
  refine ⟨i + pre.length, ?_, by omega, by omega, ?_, ?_⟩
  · unfold scanWhile
    rw [drop_append_of_le_length hi, hr, append_assoc]
    cases post with
    | nil => exact scanFrom_append hpre hp t i
    | cons b bs => exact scanFrom_append hpre (hpost b bs rfl) _ i
  · rw [hdrop, ← drop_drop, hr, drop_left]
  · rw [htake, Nat.add_sub_cancel_left, hr, take_left]

lemma scanWhile_value (hi : i ≤ s.length) :
    (∃ j, scanWhile (fun c => !isSpace c) (s ++ '\x00' :: t) i = .ok j ∧ j ≤ s.length) ↔
      ∃ c ∈ s.drop i, isSpace c := by
  obtain ⟨pre, post, hr, -, -, hpre, hpost⟩ := scan_split (fun c => !isSpace c) (s.drop i)
  have hlen : i + (pre.length + post.length) = s.length := by
    have := congrArg length hr
    rw [length_append, length_drop] at this
    omega
  unfold scanWhile
  rw [drop_append_of_le_length hi, hr, append_assoc]
  cases post with
  | nil =>
    -- the loop goes over the NUL
    constructor
    · rintro ⟨j, hj, _⟩
      have hnul : ∀ a ∈ pre ++ ['\x00'], (!isSpace a) := by
        intro a ha
        rcases mem_append.1 ha with ha | ha
        · exact hpre a ha
        · rw [mem_singleton.1 ha]
          rfl
      have hj' : scanFrom (fun c => !isSpace c) ((pre ++ ['\x00']) ++ t) i = .ok j := by
        rw [← hj, append_assoc]
        rfl
      have hbeyond := scanFrom_beyond hnul hj'
      rw [length_append, length_singleton] at hbeyond
      rw [length_nil] at hlen
      omega
    · rintro ⟨c, hc, hspace⟩
      have := hpre c (by simpa using hc)
      simp [hspace] at this
  | cons b bs =>
    have hb := hpost b bs rfl
    refine iff_of_true ⟨i + pre.length, scanFrom_append hpre hb _ i, by omega⟩ ⟨b, by simp, ?_⟩
    simpa using hb

lemma getD_line (hi : i ≤ s.length) :
    (s ++ '\x00' :: t).getD i '\x00' = ((s.drop i).head?).getD '\x00' := by
  rcases lt_or_ge i s.length with hlt | hge
  · rw [getD_eq_getElem?_getD, getElem?_append_left hlt, head?_drop]
  have he : i = s.length := by omega
  rw [getD_eq_getElem?_getD, getElem?_append_right hge, head?_drop,
    getElem?_eq_none hge, he, Nat.sub_self]
  rfl

/-- The value behind the name has an end in the line. -/
def ValueEnds (rest : List Char) : Prop :=
  ∀ val, rest.dropWhile isSpace = '=' :: val → ∃ c ∈ val.dropWhile isSpace, isSpace c = true

lemma take_line (h : out ≤ s.length) :
    ((s ++ '\x00' :: t).drop var).take (out - var) = (s.drop var).take (out - var) := by
  rcases Nat.le_total var out with hle | hle
  · rw [take_drop, take_drop, show var + (out - var) = out by omega, take_append_of_le_length h]
  · rw [Nat.sub_eq_zero_of_le hle, take_zero, take_zero]

/-- The `=` behind a name and the start of the value. -/
lemma equals_stops (hout : out ≤ s.length) :
    ∃ eq, scanWhile isSpace (s ++ '\x00' :: t) out = .ok eq ∧ eq ≤ s.length ∧
      (((s ++ '\x00' :: t).getD eq '\x00' ≠ '=' ∧
        ∀ val, (s.drop out).dropWhile isSpace ≠ '=' :: val) ∨
      ((s ++ '\x00' :: t).getD eq '\x00' = '=' ∧
        ∃ val v, (s.drop out).dropWhile isSpace = '=' :: val ∧
          scanWhile isSpace (s ++ '\x00' :: t) (eq + 1) = .ok v ∧ v ≤ s.length ∧
          s.drop v = val.dropWhile isSpace)) := by
  obtain ⟨eq, heq, -, hle, hdrop, -⟩ := scanWhile_line (t := t) (p := isSpace) rfl hout
  refine ⟨eq, heq, hle, ?_⟩
  have hhead := getD_line (t := t) hle
  rw [hdrop] at hhead
  cases hrest : (s.drop out).dropWhile isSpace with rw [hrest] at hhead hdrop
  | nil => exact .inl ⟨by rw [hhead]; decide, nofun⟩
  | cons c val =>
    by_cases hc : c = '='
    swap
    · exact .inl ⟨by rw [hhead]; exact hc, fun val' h => hc (cons.inj h).1⟩
    subst hc
    have hlt : eq < s.length := by
      by_contra hge
      rw [drop_eq_nil_of_le (by omega)] at hdrop
      cases hdrop
    have hval : s.drop (eq + 1) = val := by
      rw [← drop_drop, hdrop]
      rfl
    obtain ⟨v, hv, -, hvle, hvdrop, -⟩ := scanWhile_line (t := t) (p := isSpace) rfl
      (Nat.succ_le_of_lt hlt)
    exact .inr ⟨hhead, val, v, rfl, hv, hvle, hval ▸ hvdrop⟩

lemma value_stops (hout : out ≤ s.length) :
    ∃ eq, scanWhile isSpace (s ++ '\x00' :: t) out = .ok eq ∧ eq ≤ s.length ∧
      (((s ++ '\x00' :: t).getD eq '\x00' ≠ '=' ∧ ValueEnds (s.drop out)) ∨
      ((s ++ '\x00' :: t).getD eq '\x00' = '=' ∧
        ∃ val, scanWhile isSpace (s ++ '\x00' :: t) (eq + 1) = .ok val ∧ val ≤ s.length ∧
          ((∃ j, scanWhile (fun c => !isSpace c) (s ++ '\x00' :: t) val = .ok j ∧ j ≤ s.length) ↔
            ValueEnds (s.drop out)))) := by
  obtain ⟨eq, heq, hle, ⟨hne, hno⟩ | ⟨he, val, v, hrest, hv, hvle, hvdrop⟩⟩ :=
    equals_stops (t := t) hout
  · exact ⟨eq, heq, hle, .inl ⟨hne, fun val h => absurd h (hno val)⟩⟩
  · refine ⟨eq, heq, hle, .inr ⟨he, v, hv, hvle, (scanWhile_value hvle).trans ?_⟩⟩
    rw [hvdrop]
    constructor
    · intro h val' hval'
      cases hrest.symm.trans hval'
      exact h
    · exact fun h => h val hrest

lemma varStops_skip (hout : out ≤ s.length) {id} (hid : id ≠ (s.drop var).take (out - var))
    (isNotSet : Bool) (ids : List (List Char)) :
    varStops (s ++ '\x00' :: t) isNotSet var out (id :: ids) =
      varStops (s ++ '\x00' :: t) isNotSet var out ids := by
  rw [varStops]
  split
  · rfl
  · rw [if_pos (by rw [take_line hout]; exact hid)]

lemma varStops_in_line (hvar : var ≤ out) (hout : out ≤ s.length)
    (isNotSet : Bool) (ids : List (List Char)) :
    (∃ stops, varStops (s ++ '\x00' :: t) isNotSet var out ids = .ok stops ∧
      ∀ k ∈ stops, k ≤ s.length) ↔
    (isNotSet = false → (s.drop var).take (out - var) ∈ ids → ValueEnds (s.drop out)) := by
  have hname : ((s.drop var).take (out - var)).length = out - var := by
    rw [length_take, length_drop]
    omega
  induction ids with
  | nil => exact iff_of_true ⟨[], rfl, nofun⟩ nofun
  | cons id ids ih =>
    by_cases hid : id = (s.drop var).take (out - var)
    · rw [varStops, if_neg (by rw [hid, hname]; exact not_not_intro rfl), take_line hout,
        if_neg (not_not_intro hid)]
      cases isNotSet with
      | true => exact iff_of_true ⟨[], rfl, nofun⟩ nofun
      | false =>
        have hmem : (s.drop var).take (out - var) ∈ id :: ids := hid ▸ mem_cons_self
        have hgoal : (false = false → (s.drop var).take (out - var) ∈ id :: ids →
            ValueEnds (s.drop out)) ↔ ValueEnds (s.drop out) :=
          ⟨fun h => h rfl hmem, fun h _ _ => h⟩
        rw [hgoal]
        obtain ⟨_, heq, hle, h⟩ := value_stops (t := t) hout
        simp only [Bool.false_eq_true, if_false, heq, ok_bind]
        rcases h with ⟨hne, hends⟩ | ⟨he, val, hval, hvle, hiff⟩
        · rw [if_pos hne]
          exact iff_of_true ⟨_, rfl, by simpa using hle⟩ hends
        rw [if_neg (not_not_intro he), hval, ok_bind, ← hiff]
        cases hstop : scanWhile (fun c => !isSpace c) (s ++ '\x00' :: t) val with
        | error =>
          exact iff_of_false (by rintro ⟨_, h, -⟩; cases h) (by rintro ⟨j, h, -⟩; cases h)
        | ok stop =>
          rw [ok_bind]
          by_cases hin : stop ≤ s.length
          · -- the value has an end; the other variables do not change that
            have hends := hiff.1 ⟨stop, hstop, hin⟩
            obtain ⟨_, hstops, hall⟩ := ih.2 fun _ _ => hends
            refine iff_of_true ?_ ⟨stop, rfl, hin⟩
            split
            · exact ⟨_, rfl, by simp; omega⟩
            rw [hstops]
            refine ⟨_, rfl, ?_⟩
            simp only [forall_mem_cons]
            exact ⟨hle, hvle, hin, hall⟩
          · refine iff_of_false ?_ (by rintro ⟨j, h, hj⟩; cases h; exact hin hj)
            rintro ⟨_, h, hall⟩
            refine hin (hall stop ?_)
            split at h
            · cases h
              simp
            cases hrest : varStops (s ++ '\x00' :: t) false var out ids with
            | error => rw [hrest] at h; cases h
            | ok =>
              rw [hrest] at h
              cases h
              simp
    · rw [varStops_skip hout hid]
      refine ih.trans ⟨fun h hn hm => h hn ?_, fun h hn hm => h hn (mem_cons_of_mem _ hm)⟩
      exact (mem_cons.1 hm).resolve_left fun he => hid he.symm

end Line

lemma strstr_suffix {needle} : ∀ {text found}, strstr needle text = some found → found <:+ text
  | [], found, h => by
    rw [strstr] at h
    split at h
    · cases h
      exact suffix_refl _
    · cases h
  | c :: text, found, h => by
    rw [strstr] at h
    split at h
    · cases h
      exact suffix_refl _
    · exact (strstr_suffix h).trans (suffix_cons c text)

lemma buffer_split (buf : List Char) (h : '\x00' ∈ buf) :
    ∃ t, buf = cstr buf ++ '\x00' :: t ∧ '\x00' ∉ cstr buf := by
  obtain ⟨t, ht⟩ := exists_cstr_append h
  exact ⟨t, ht, nul_not_mem_cstr buf⟩

lemma line_indices {s t : List Char} (hnul : '\x00' ∉ s) :
    ∃ start, scanWhile isSpace (s ++ '\x00' :: t) 0 = .ok start ∧ start ≤ s.length ∧
      cstr ((s ++ '\x00' :: t).drop start) = s.dropWhile isSpace ∧
      ∀ rest, strstr configStr (s.dropWhile isSpace) = some rest →
        ∃ var out, start + ((s.dropWhile isSpace).length - rest.length) = var ∧
          scanWhile isNameChar (s ++ '\x00' :: t) var = .ok out ∧ var ≤ out ∧ out ≤ s.length ∧
          (s.drop var).take (out - var) = rest.takeWhile isNameChar ∧
          s.drop out = rest.dropWhile isNameChar := by
  obtain ⟨start, hstart, -, hsle, hsdrop, -⟩ := scanWhile_line (t := t) (p := isSpace) rfl
    (Nat.zero_le s.length)
  rw [drop_zero] at hsdrop
  refine ⟨start, hstart, hsle, ?_, fun rest hrest => ?_⟩
  · rw [drop_append_of_le_length hsle, hsdrop]
    exact (cstr_append_nul (fun h => hnul ((dropWhile_sublist _).subset h)) t).1
  obtain ⟨pre, hpre⟩ := strstr_suffix hrest
  have hlen : start + (pre.length + rest.length) = s.length := by
    have := congrArg length (hsdrop.trans hpre.symm)
    rw [length_drop, length_append] at this
    omega
  have hdrop : s.drop (start + pre.length) = rest := by rw [← drop_drop, hsdrop, ← hpre, drop_left]
  obtain ⟨out, hout, hle, hole, hodrop, hotake⟩ := scanWhile_line (t := t) (p := isNameChar) rfl
    (show start + pre.length ≤ s.length by omega)
  rw [hdrop] at hodrop hotake
  refine ⟨start + pre.length, out, ?_, hout, hle, hole, by rw [hdrop, hotake], hodrop⟩
  rw [← hpre, length_append]
  omega

/-- If the line names a variable and is no comment, and a value follows, white space follows the
value. -/
def LineOk (line : List Char) (ids : List (List Char)) : Prop :=
  (line.dropWhile isSpace).head? ≠ some '#' →
    ∀ var, strstr configStr (line.dropWhile isSpace) = some var →
      var.takeWhile isNameChar ∈ ids → ValueEnds (var.dropWhile isNameChar)

/-- **The loops of `kconfig_parse_line`** stop in the line, exactly if white space follows the value
there. -/
theorem lineStops_in_line_iff (piece old : List Char) (ids : List (List Char)) :
    (∃ stops, lineStops (piece ++ '\x00' :: old) ids = .ok stops ∧
      ∀ k ∈ stops, k ≤ (cstr (piece ++ '\x00' :: old)).length) ↔
    LineOk (cstr (piece ++ '\x00' :: old)) ids := by
  obtain ⟨t, hbuf, hnul⟩ := buffer_split (piece ++ '\x00' :: old) (by simp)
  generalize cstr (piece ++ '\x00' :: old) = s at hbuf hnul ⊢
  rw [hbuf]
  obtain ⟨_, hstart, hsle, hline, hname⟩ := line_indices (t := t) hnul
  unfold lineStops LineOk
  rw [hstart, ok_bind]
  simp only [hline]
  cases hrest : strstr configStr (s.dropWhile isSpace) with
  | none =>
    rw [ite_self]
    exact iff_of_true ⟨_, rfl, by simpa using hsle⟩ nofun
  | some rest =>
    obtain ⟨var, out, hvar, hout, hle, hole, htake, hdrop⟩ := hname rest hrest
    have hloop := varStops_in_line (t := t) hle hole ((s.dropWhile isSpace).head? == some '#') ids
    rw [htake, hdrop] at hloop
    simp only [hvar, hout, ok_bind]
    by_cases hcomment : (s.dropWhile isSpace).head? = some '#'
    · -- a comment has no value
      have hflag : ((s.dropWhile isSpace).head? == some '#') = true := beq_iff_eq.2 hcomment
      rw [hflag] at hloop ⊢
      obtain ⟨_, hstops, hall⟩ := hloop.2 nofun
      refine iff_of_true ?_ (fun h => absurd hcomment h)
      split
      · exact ⟨_, rfl, by simpa using hsle⟩
      · rw [hstops]
        exact ⟨_, rfl, by simp only [forall_mem_cons]; exact ⟨hsle, hole, hall⟩⟩
    · have hflag : ((s.dropWhile isSpace).head? == some '#') = false := by
        rw [beq_eq_false_iff_ne]
        exact hcomment
      rw [hflag] at hloop ⊢
      rw [Bool.false_and, if_neg Bool.false_ne_true]
      have hprop : ((s.dropWhile isSpace).head? ≠ some '#' → ∀ var, some rest = some var →
          var.takeWhile isNameChar ∈ ids → ValueEnds (var.dropWhile isNameChar)) ↔
          (false = false → rest.takeWhile isNameChar ∈ ids →
            ValueEnds (rest.dropWhile isNameChar)) :=
        ⟨fun h _ => h hcomment rest rfl, fun h _ var' he => Option.some.inj he ▸ h rfl⟩
      refine Iff.trans ?_ (hloop.trans hprop.symm)
      cases hstops : varStops (s ++ '\x00' :: t) false var out ids with
      | error => exact iff_of_false (by rintro ⟨_, h, -⟩; cases h) (by rintro ⟨_, h, -⟩; cases h)
      | ok =>
        simp only [ok_bind, Except.ok.injEq, exists_eq_left', forall_mem_cons]
        exact ⟨fun h => h.2.2, fun h => ⟨hsle, hole, h⟩⟩

/-- The last line of a file, without a newline. -/
theorem lineStops_behind_nul :
    lineStops ("CONFIG_A=y".toList ++ '\x00' :: [' ']) ["CONFIG_A".toList] =
      .ok [0, 8, 8, 9, 11] ∧ (cstr ("CONFIG_A=y".toList ++ '\x00' :: [' '])).length = 10 := by
  decide +kernel

/-! ## The two models of the function -/

lemma scanFrom_eq (p : Char → Bool) (u : List Char) (i : Nat) : scanFrom p u i =
    if u.any (fun c => !p c) then .ok (i + (u.takeWhile p).length) else .error .access := by
  induction u generalizing i with
  | nil => rfl
  | cons c u ih =>
    rw [scanFrom]
    cases hc : p c with
    | true => simp [hc, ih, Nat.add_assoc, Nat.add_comm 1]
    | false => simp [hc]

section Vars
variable {s t : List Char} {vars : List TstKconfigVar}

/-- The loops over the value stop exactly if `scanVal` does, and the test for `y` and `m` is about
the same text. -/
lemma value_ok_iff {v : Nat} (hv : v ≤ s.length) :
    (scanVal (s.drop v ++ '\x00' :: t) = .error .access ∧
      scanWhile (fun c => !isSpace c) (s ++ '\x00' :: t) v = .error .access) ∨
    ∃ val stop, scanVal (s.drop v ++ '\x00' :: t) = .ok val ∧
      scanWhile (fun c => !isSpace c) (s ++ '\x00' :: t) v = .ok stop ∧
      (stop - v = 1 ∧ ((s ++ '\x00' :: t).getD v '\x00' = 'y' ∨
        (s ++ '\x00' :: t).getD v '\x00' = 'm') ↔ val = ['y'] ∨ val = ['m']) := by
  have hdrop : (s ++ '\x00' :: t).drop v = s.drop v ++ '\x00' :: t := drop_append_of_le_length hv
  have hget : (s ++ '\x00' :: t).getD v '\x00' = ((s.drop v ++ '\x00' :: t).head?).getD '\x00' := by
    rw [← hdrop, head?_drop, getD_eq_getElem?_getD]
  rw [scanWhile, hdrop, hget, scanVal, scanFrom_eq]
  generalize s.drop v ++ '\x00' :: t = u
  simp only [Bool.not_not]
  cases hany : u.any isSpace with
  | false => exact .inl ⟨rfl, rfl⟩
  | true =>
    refine .inr ⟨_, _, rfl, rfl, ?_⟩
    cases u with
    | nil => cases hany
    | cons c u =>
      rw [Nat.add_sub_cancel_left]
      cases hc : isSpace c with
      | true => simp [hc]
      | false =>
        simp only [hc, takeWhile_cons, Bool.not_false, if_true, length_cons, Nat.add_eq_right,
          length_eq_zero_iff, head?_cons, Option.getD_some, cons.injEq]
        rw [and_comm, or_and_right]

lemma varStops_ok_iff (hvar : var ≤ out) (hout : out ≤ s.length) (isNotSet : Bool) :
    (∃ stops, varStops (s ++ '\x00' :: t) isNotSet var out (vars.map (·.id)) = .ok stops) ↔
      ∃ r, assignVars isNotSet ((s.drop var).take (out - var)) (s.drop out) ('\x00' :: t) vars =
        .ok r := by
  have hname : ((s.drop var).take (out - var)).length = out - var := by
    rw [length_take, length_drop]
    omega
  induction vars with
  | nil => exact iff_of_true ⟨[], rfl⟩ ⟨_, rfl⟩
  | cons v vars ih =>
    rw [map_cons, assignVars]
    by_cases hid : v.id = (s.drop var).take (out - var)
    swap
    · rw [varStops_skip hout hid, if_pos hid]
      refine ih.trans ?_
      cases assignVars isNotSet _ _ _ vars <;> simp
    rw [varStops, if_neg (by rw [hid, hname]; exact not_not_intro rfl), take_line hout,
      if_neg (not_not_intro hid), if_neg (not_not_intro hid)]
    cases isNotSet with
    | true => exact iff_of_true ⟨[], rfl⟩ ⟨_, rfl⟩
    | false =>
      obtain ⟨eq, heq, -, ⟨hne, hno⟩ | ⟨he, val, v', hrest, hv', hvle, hvdrop⟩⟩ :=
        equals_stops (t := t) hout
      all_goals simp only [Bool.false_eq_true, if_false, heq, ok_bind, parseVal]
      · rw [if_pos hne]
        refine iff_of_true ⟨_, rfl⟩ ⟨(false, v :: vars), ?_⟩
        cases hrest : (s.drop out).dropWhile isSpace with
        | nil => rfl
        | cons c val =>
          have hc : c ≠ '=' := fun hc => hno val (hc ▸ hrest)
          simp [hc]
      rw [if_neg (not_not_intro he), hv', hrest, ok_bind]
      rcases value_ok_iff (t := t) hvle with ⟨herr, herr'⟩ | ⟨text, stop, htext, hstop, hyes⟩
      · rw [hvdrop] at herr
        simp [herr, herr']
      rw [hvdrop] at htext
      simp only [hstop, ne_eq, not_true_eq_false, if_false, htext, ok_bind]
      by_cases hym : text = ['y'] ∨ text = ['m']
      · refine iff_of_true ⟨_, if_pos (hyes.2 hym)⟩ ?_
        rcases hym with rfl | rfl <;> exact ⟨_, rfl⟩
      rw [if_neg (mt hyes.1 hym)]
      rw [not_or] at hym
      -- the value is kept, and the other variables are looked at
      refine Iff.trans ?_ (ih.trans ?_)
      · cases varStops (s ++ '\x00' :: t) false var out (vars.map (·.id)) <;> simp
      · cases assignVars false _ (s.drop out) ('\x00' :: t) vars <;> simp [hym]

end Vars

/-- **Both models leave the buffer on the same lines**: the loops of the function all stop in it
exactly if `kconfigParseLine` returns. -/
theorem lineStops_ok_iff (piece old : List Char) (vars : List TstKconfigVar) :
    (∃ stops, lineStops (piece ++ '\x00' :: old) (vars.map (·.id)) = .ok stops) ↔
      ∃ r, kconfigParseLine (piece ++ '\x00' :: old) vars = .ok r := by
  obtain ⟨t, hbuf, hnul⟩ := buffer_split (piece ++ '\x00' :: old) (by simp)
  generalize cstr (piece ++ '\x00' :: old) = s at hbuf hnul
  rw [hbuf]
  have hcstr : cstr (s ++ '\x00' :: t) = s := (cstr_append_nul hnul t).1
  have hbehind : behindCstr (s ++ '\x00' :: t) = '\x00' :: t := (cstr_append_nul hnul t).2
  obtain ⟨_, hstart, hsle, hline, hname⟩ := line_indices (t := t) hnul
  unfold lineStops kconfigParseLine
  rw [hstart, ok_bind]
  simp only [hline, hcstr, hbehind]
  split
  · simp
  cases hrest : strstr configStr (s.dropWhile isSpace) with
  | none => simp
  | some rest =>
    obtain ⟨var, out, hvar, hout, hle, hole, htake, hdrop⟩ := hname rest hrest
    simp only [hvar, hout, ok_bind]
    rw [← htake, ← hdrop, ← varStops_ok_iff hle hole]
    cases varStops (s ++ '\x00' :: t) _ var out (vars.map (·.id)) <;> simp

end LtpDdt.Kconfig
