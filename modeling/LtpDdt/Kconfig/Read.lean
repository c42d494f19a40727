/-
Kconfig.Read — `kconfig_parse_line` and `tst_kconfig_read` of `lib/tst_kconfig.c`.

* `fgets` reads up to 127 characters of the text into `char line[128]`, or less if a
  newline comes first. A longer line comes in pieces.
* `kconfig_parse_line` gets the whole buffer, as `while (!isspace(val[val_len]))` does
  not look for the NUL: behind it stands what earlier lines have left there, first of
  all `junk`, and then nothing: a read behind the buffer is a `Fault`.
* `id_len` is the length of `id`; `choice` 0 is `none`, and so is `val` `NULL`.
* `vars_found` does not overflow: there are less than 2³² entries.

What `kconfig_parse_line` does depends on the line only (`reading`): nothing, a
counted or an uncounted value for a variable, or the search for the end of the
value runs over the buffer.
-/
import LtpDdt.CTypes.CString
import LtpDdt.CTypes.Result

namespace LtpDdt.Kconfig

open CTypes

/-- The values of `choice` other than 0. -/
inductive Choice where
  | n
  | y
  | m
  | v
  deriving DecidableEq

/-- `struct tst_kconfig_var` -/
structure TstKconfigVar where
  id : List Char
  choice : Option Choice := none
  val : Option (List Char) := none
  deriving DecidableEq

inductive Fault where
  /-- a read behind the end of the line -/
  | access
  deriving DecidableEq

/-- `case 'A' ... 'Z': case '0' ... '9': case '_':` -/
def isNameChar (c : Char) : Bool := ('A' ≤ c && c ≤ 'Z') || ('0' ≤ c && c ≤ '9') || c == '_'

def configStr : List Char := "CONFIG_".toList

def notSetStr : List Char := "is not set".toList

/-- The `val_len` characters at `val`: up to the next white space. -/
def scanVal (val : List Char) : Except Fault (List Char) :=
  if val.any isSpace then .ok (val.takeWhile fun c => !isSpace c) else .error .access

/-- What `kconfig_parse_line` makes of the text behind the name of a variable. -/
def parseVal (rest behind : List Char) : Except Fault (Option (List Char)) :=
  match rest.dropWhile isSpace with
  | [] => .ok none
  | c :: val =>
    if c ≠ '=' then .ok none
    else do
      let val ← scanVal (val.dropWhile isSpace ++ behind)
      .ok (some val)

/-- The loop over the variables, for the name `var` of the line, the text behind it and the buffer
behind the line. -/
def assignVars (isNotSet : Bool) (var rest behind : List Char) :
    List TstKconfigVar → Except Fault (Bool × List TstKconfigVar)
  | [] => .ok (false, [])
  | v :: vars =>
    if v.id ≠ var then do
      let (found, vars) ← assignVars isNotSet var rest behind vars
      .ok (found, v :: vars)
    else if isNotSet then .ok (true, { v with choice := some .n } :: vars)
    else do
      match ← parseVal rest behind with
      | none => .ok (false, v :: vars)
      | some ['y'] => .ok (true, { v with choice := some .y } :: vars)
      | some ['m'] => .ok (true, { v with choice := some .m } :: vars)
      | some val =>
        let (found, vars) ← assignVars isNotSet var rest behind vars
        .ok (found, { v with choice := some .v, val := some (cstr val) } :: vars)

/-- The result is `true` where the source returns 1. -/
def kconfigParseLine (buf : List Char) (vars : List TstKconfigVar) :
    Except Fault (Bool × List TstKconfigVar) :=
  let line := (cstr buf).dropWhile isSpace
  let isNotSet := line.head? == some '#'
  if isNotSet && (strstr notSetStr line).isNone then .ok (false, vars)
  else
    match strstr configStr line with
    | none => .ok (false, vars)
    | some var =>
      assignVars isNotSet (var.takeWhile isNameChar) (var.dropWhile isNameChar) (behindCstr buf)
        vars

/-! ## The file -/

/-- The buffer after each call of `fgets`. -/
def fill (line : List Char) : List (List Char) → List (List Char)
  | [] => []
  | piece :: pieces => store line piece :: fill (store line piece) pieces

/-- The contents of the buffer when `kconfig_parse_line` is called. -/
def buffers (junk text : List Char) : List (List Char) := fill junk (fgetsAll 127 [] text)

/-- The loop of `tst_kconfig_read`; `true` if it was left by `goto exit`. -/
def readLoop : List (List Char) → Nat → List TstKconfigVar →
    Except Fault (Bool × List TstKconfigVar)
  | [], _, vars => .ok (false, vars)
  | line :: lines, varsFound, vars => do
      let (found, vars) ← kconfigParseLine line vars
      let varsFound := if found then varsFound + 1 else varsFound
      if varsFound = vars.length then .ok (true, vars) else readLoop lines varsFound vars

/-- `junk` is what stands in the buffer at first. -/
def tstKconfigRead (junk text : List Char) (vars : List TstKconfigVar) :
    Except Fault (Bool × List TstKconfigVar) :=
  readLoop (buffers junk text) 0 vars

open List

variable {id : List Char} {vars : List TstKconfigVar} {ids pre bufs : List (List Char)}

/-! ## One line -/

inductive Reading where
  | nothing
  /-- `y`, `m` or `is not set`: the function returns 1 -/
  | counted (var : List Char) (choice : Choice)
  | value (var val : List Char)
  /-- a value without an end in the buffer -/
  | runsOver (var : List Char)
  deriving DecidableEq

variable {r : Reading}

def readingVal (var : List Char) : Except Fault (Option (List Char)) → Reading
  | .error _ => .runsOver var
  | .ok none => .nothing
  | .ok (some ['y']) => .counted var .y
  | .ok (some ['m']) => .counted var .m
  | .ok (some val) => .value var (cstr val)

def reading (buf : List Char) : Reading :=
  let line := (cstr buf).dropWhile isSpace
  let isNotSet := line.head? == some '#'
  if isNotSet && (strstr notSetStr line).isNone then .nothing
  else
    match strstr configStr line with
    | none => .nothing
    | some var =>
      if isNotSet then .counted (var.takeWhile isNameChar) .n
      else readingVal (var.takeWhile isNameChar)
        (parseVal (var.dropWhile isNameChar) (behindCstr buf))

local instance lawfulText : LawfulBEq (List Char) := inferInstance

namespace Reading

def countedIn (ids : List (List Char)) : Reading → Bool
  | counted var _ => decide (var ∈ ids)
  | _ => false

def sets (id : List Char) : Reading → Bool
  | counted var _ => decide (var = id)
  | value var _ => decide (var = id)
  | _ => false

/-- The line is read beyond the buffer for one of the variables. -/
def faults (ids : List (List Char)) : Reading → Bool
  | runsOver var => decide (var ∈ ids)
  | _ => false

def update : Reading → TstKconfigVar → TstKconfigVar
  | counted var choice, v => if v.id = var then { v with choice := some choice } else v
  | value var val, v => if v.id = var then { v with choice := some .v, val := some val } else v
  | _, v => v

lemma update_id (r : Reading) (v : TstKconfigVar) : (r.update v).id = v.id := by
  cases r <;> simp only [update] <;> split <;> rfl

lemma update_choice (r : Reading) (v : TstKconfigVar) :
    (r.update v).choice ≠ none ↔ v.choice ≠ none ∨ r.sets v.id := by
  cases r with
  | nothing | runsOver => simp [update, sets]
  | counted var | value var =>
    simp only [update, sets, eq_comm (a := var)]
    split <;> simp [*]

lemma map_update_ids (r : Reading) (vars : List TstKconfigVar) :
    (vars.map r.update).map TstKconfigVar.id = vars.map TstKconfigVar.id := by
  rw [map_map]
  exact map_congr_left fun v _ => r.update_id v

/-- The line is about this variable, if it says anything. -/
def About (id : List Char) : Reading → Prop
  | nothing => True
  | counted var _ | value var _ | runsOver var => var = id

variable (h : r.About id)

include h

lemma About.update_other {v : TstKconfigVar} (hv : v.id ≠ id) : r.update v = v := by
  cases r with
  | nothing | runsOver => rfl
  | counted | value => exact if_neg fun he => hv (he.trans h)

lemma About.map_update (hv : id ∉ vars.map TstKconfigVar.id) : vars.map r.update = vars := by
  refine (map_congr_left fun v hmem => ?_).trans (map_id vars)
  exact h.update_other fun he => hv (he ▸ mem_map_of_mem hmem)

lemma About.not_mem (hid : id ∉ ids) : r.countedIn ids = false ∧ r.faults ids = false := by
  cases r with
  | nothing => exact ⟨rfl, rfl⟩
  | runsOver => exact ⟨rfl, decide_eq_false fun hm => hid (h ▸ hm)⟩
  | counted => exact ⟨decide_eq_false fun hm => hid (h ▸ hm), rfl⟩
  | value => exact ⟨rfl, rfl⟩

end Reading

lemma readingVal_about (var : List Char) (val : Except Fault (Option (List Char))) :
    (readingVal var val).About var := by
  unfold readingVal
  split <;> trivial

def Reading.apply (r : Reading) (vars : List TstKconfigVar) :
    Except Fault (Bool × List TstKconfigVar) :=
  if r.faults (vars.map TstKconfigVar.id) then .error .access
  else .ok (r.countedIn (vars.map TstKconfigVar.id), vars.map r.update)

open Reading

lemma Reading.About.apply_absent (h : r.About id) (hv : id ∉ vars.map TstKconfigVar.id) :
    r.apply vars = .ok (false, vars) := by
  rw [apply, (h.not_mem hv).1, (h.not_mem hv).2, h.map_update hv]
  rfl

lemma Reading.apply_nothing (vars : List TstKconfigVar) : nothing.apply vars = .ok (false, vars) :=
  congrArg (fun vs => Except.ok (false, vs)) (map_id vars)

lemma assignVars_absent (isNotSet : Bool) (var rest behind : List Char) :
    ∀ {vars : List TstKconfigVar}, var ∉ vars.map TstKconfigVar.id →
      assignVars isNotSet var rest behind vars = .ok (false, vars)
  | [], _ => rfl
  | v :: vars, h => by
    rw [map_cons, mem_cons, not_or] at h
    rw [assignVars, if_pos (Ne.symm h.1), assignVars_absent isNotSet var rest behind h.2]
    rfl

lemma assignVars_append (isNotSet : Bool) (var rest behind : List Char) (vs : List TstKconfigVar) :
    ∀ {pre : List TstKconfigVar}, var ∉ pre.map TstKconfigVar.id →
      assignVars isNotSet var rest behind (pre ++ vs) =
        (assignVars isNotSet var rest behind vs).map fun r => (r.1, pre ++ r.2)
  | [], _ => by
    rw [nil_append]
    cases assignVars isNotSet var rest behind vs <;> rfl
  | v :: pre, h => by
    rw [map_cons, mem_cons, not_or] at h
    rw [cons_append, assignVars, if_pos (Ne.symm h.1),
      assignVars_append isNotSet var rest behind vs h.2]
    cases assignVars isNotSet var rest behind vs <;> rfl

/-- **The loop over the variables**, when their names are distinct. -/
theorem assignVars_eq (isNotSet : Bool) (var rest behind : List Char)
    (hnd : (vars.map TstKconfigVar.id).Nodup) :
    assignVars isNotSet var rest behind vars =
      (if isNotSet then .counted var .n else readingVal var (parseVal rest behind) : Reading).apply
        vars := by
  have habout : (if isNotSet then .counted var .n
      else readingVal var (parseVal rest behind) : Reading).About var := by
    split
    · exact rfl
    · exact readingVal_about _ _
  by_cases hmem : var ∈ vars.map TstKconfigVar.id
  · obtain ⟨v, hv, rfl⟩ := mem_map.1 hmem
    obtain ⟨pre, post, rfl⟩ := append_of_mem hv
    rw [map_append] at hnd
    have hpre : v.id ∉ pre.map TstKconfigVar.id := fun h =>
      (nodup_append.1 hnd).2.2 _ h _ mem_cons_self rfl
    have hpost : v.id ∉ post.map TstKconfigVar.id :=
      (nodup_cons.1 (nodup_append.1 hnd).2.1).1
    have hin : v.id ∈ (pre ++ v :: post).map TstKconfigVar.id := mem_map_of_mem hv
    rw [assignVars_append _ _ _ _ _ hpre, assignVars, if_neg (not_not_intro rfl)]
    generalize hr : (if isNotSet then counted v.id .n
      else readingVal v.id (parseVal rest behind)) = r at habout ⊢
    have hmap : (pre ++ v :: post).map r.update = pre ++ r.update v :: post := by
      rw [map_append, map_cons, habout.map_update hpre, habout.map_update hpost]
    rw [apply, hmap]
    cases isNotSet with
    | true =>
      subst hr
      simp only [if_true, countedIn, hin, update]
      rfl
    | false =>
      simp only [Bool.false_eq_true, if_false] at hr ⊢
      subst hr
      rw [assignVars_absent _ _ _ _ hpost]
      unfold readingVal
      split
      · simp [*, faults, Except.map]
      all_goals simp [*, faults, countedIn, update, Except.map]
  · rw [assignVars_absent _ _ _ _ hmem, habout.apply_absent hmem]

/-- **`kconfig_parse_line`** does with the variables what the line says. -/
theorem parseLine_eq (buf : List Char) (hnd : (vars.map TstKconfigVar.id).Nodup) :
    kconfigParseLine buf vars = (reading buf).apply vars := by
  unfold kconfigParseLine reading
  dsimp only
  split
  · exact (apply_nothing vars).symm
  cases strstr configStr ((cstr buf).dropWhile isSpace) with
  | none => exact (apply_nothing vars).symm
  | some => exact assignVars_eq _ _ _ _ hnd

/-! ## The lines that are counted -/

def countedVar (ids : List (List Char)) (buf : List Char) : Option (List Char) :=
  match reading buf with
  | .counted var _ => if var ∈ ids then some var else none
  | _ => none

def countedVars (ids : List (List Char)) (bufs : List (List Char)) : List (List Char) :=
  bufs.filterMap (countedVar ids)

lemma countedVar_isSome (ids : List (List Char)) (buf : List Char) :
    (countedVar ids buf).isSome = (reading buf).countedIn ids := by
  unfold countedVar countedIn
  cases reading buf with
  | counted =>
    dsimp only
    split <;> simp [*]
  | _ => rfl

lemma countedVar_eq_some {buf var} (h : countedVar ids buf = some var) :
    var ∈ ids ∧ (reading buf).sets var := by
  unfold countedVar at h
  split at h
  · rename_i w choice hr
    split at h
    · cases h
      exact ⟨‹_›, by rw [hr]; exact decide_eq_true rfl⟩
    · cases h
  · cases h

lemma length_countedVars_snoc (ids pre : List (List Char)) (buf : List Char) :
    (countedVars ids (pre ++ [buf])).length =
      if (reading buf).countedIn ids then (countedVars ids pre).length + 1
      else (countedVars ids pre).length := by
  rw [countedVars, filterMap_append, ← countedVar_isSome]
  cases h : countedVar ids buf <;> simp [h, countedVars]

lemma length_countedVars_append (ids pre mid : List (List Char)) :
    (countedVars ids pre).length ≤ (countedVars ids (pre ++ mid)).length := by
  rw [countedVars, countedVars, filterMap_append, length_append]
  exact Nat.le_add_right _ _

/-- Every variable has got a choice from one of the lines. -/
def AllSet (ids bufs : List (List Char)) : Prop :=
  ∀ id ∈ ids, ∃ buf ∈ bufs, (reading buf).sets id = true

lemma AllSet.append (h : AllSet ids pre) (mid : List (List Char)) :
    AllSet ids (pre ++ mid) := fun id hid =>
  let ⟨buf, hb, hs⟩ := h id hid
  ⟨buf, mem_append_left mid hb, hs⟩

lemma allSet_of_nodup (hnd : (countedVars ids bufs).Nodup)
    (hlen : (countedVars ids bufs).length = ids.length) : AllSet ids bufs := by
  have hsub : countedVars ids bufs ⊆ ids := by
    intro _ hvar
    obtain ⟨buf, -, hb⟩ := mem_filterMap.1 hvar
    exact (countedVar_eq_some hb).1
  have hperm : (countedVars ids bufs).Perm ids :=
    (hnd.subperm hsub).perm_of_length_le (le_of_eq hlen.symm)
  intro _ hid
  obtain ⟨buf, hbuf, hb⟩ := mem_filterMap.1 (hperm.mem_iff.2 hid)
  exact ⟨buf, hbuf, (countedVar_eq_some hb).2⟩

/-! ## The loop -/

/-- The early exit is taken only when every variable has a choice. -/
def Complete (result : Except Fault (Bool × List TstKconfigVar)) : Prop :=
  ∃ early vars, result = .ok (early, vars) ∧ (early = true → ∀ v ∈ vars, v.choice ≠ none)

/-- The condition, for a loop that has seen `pre` and goes on with `bufs`. -/
structure GoodFrom (ids pre bufs : List (List Char)) : Prop where
  inBuffer : ∀ mid buf post, bufs = mid ++ buf :: post →
    (countedVars ids (pre ++ mid)).length < ids.length → (reading buf).faults ids = false
  allSet : ∀ mid post, bufs = mid ++ post →
    (countedVars ids (pre ++ mid)).length = ids.length → AllSet ids (pre ++ mid)

lemma GoodFrom.cons_iff {buf} (hlt : (countedVars ids pre).length < ids.length) :
    GoodFrom ids pre (buf :: bufs) ↔
      (reading buf).faults ids = false ∧ GoodFrom ids (pre ++ [buf]) bufs := by
  constructor
  · rintro ⟨hin, hall⟩
    refine ⟨hin [] buf bufs rfl (by rwa [append_nil]), fun mid b post he hl => ?_,
      fun mid post he hl => ?_⟩
    · exact hin (buf :: mid) b post (by rw [he]; rfl) (by rwa [append_cons])
    · have := hall (buf :: mid) post (by rw [he]; rfl) (by rwa [append_cons])
      rwa [append_cons] at this
  rintro ⟨hf, hin, hall⟩
  refine ⟨fun mid b post he hl => ?_, fun mid post he hl => ?_⟩
  · cases mid with
    | nil =>
      cases he
      exact hf
    | cons c mid =>
      cases he
      rw [append_cons] at hl
      exact hin mid b post rfl hl
  cases mid with
  | nil =>
    rw [append_nil] at hl
    omega
  | cons c mid =>
    cases he
    rw [append_cons] at hl ⊢
    exact hall mid post rfl hl

lemma goodFrom_done (hlen : (countedVars ids pre).length = ids.length) :
    GoodFrom ids pre bufs ↔ AllSet ids pre := by
  constructor
  · intro h
    have := h.allSet [] bufs rfl (by rwa [append_nil])
    rwa [append_nil] at this
  intro h
  refine ⟨fun mid buf post _ hl => ?_, fun mid post _ _ => h.append mid⟩
  have := length_countedVars_append ids pre mid
  omega

/-- **The loop**: `pre` is what it has read so far. -/
theorem readLoop_complete_iff (hnd : ids.Nodup) (bufs : List (List Char)) : ∀ {pre}
    {vars : List TstKconfigVar}, vars.map TstKconfigVar.id = ids →
      (countedVars ids pre).length < ids.length →
      (∀ v ∈ vars, v.choice ≠ none ↔ ∃ buf ∈ pre, (reading buf).sets v.id) →
      (Complete (readLoop bufs (countedVars ids pre).length vars) ↔ GoodFrom ids pre bufs)  := by
  induction bufs with
  | nil =>
    intro pre vars _ hlt _
    refine ⟨fun _ => ⟨fun mid buf post he _ => ?_, fun mid post he hl => ?_⟩,
      fun _ => ⟨false, vars, rfl, nofun⟩⟩
    · simp at he
    obtain ⟨rfl, rfl⟩ := append_eq_nil_iff.1 he.symm
    rw [append_nil] at hl
    omega
  | cons buf bufs ih =>
    intro pre vars hids hlt hset
    subst hids
    rw [GoodFrom.cons_iff hlt, readLoop, parseLine_eq buf hnd, apply]
    by_cases hf : (reading buf).faults (vars.map TstKconfigVar.id)
    · -- undefined behaviour is not a complete read
      rw [if_pos hf]
      refine ⟨?_, fun h => ?_⟩
      · rintro ⟨_, _, he, _⟩
        cases he
      · rw [hf] at h
        cases h.1
    have hf' : (reading buf).faults (vars.map TstKconfigVar.id) = false := by simpa using hf
    have hids := (reading buf).map_update_ids vars
    have hset' : ∀ v ∈ vars.map (reading buf).update,
        v.choice ≠ none ↔ ∃ b ∈ pre ++ [buf], (reading b).sets v.id := by
      intro v hv
      obtain ⟨w, hw, rfl⟩ := mem_map.1 hv
      rw [update_choice, update_id, hset w hw]
      simp
    rw [if_neg hf, ok_bind]
    dsimp only
    rw [← length_countedVars_snoc, length_map]
    split
    · -- the exit
      rename_i hexit
      rw [goodFrom_done (by rw [hexit, length_map])]
      have hall : (∀ v ∈ vars.map (reading buf).update, v.choice ≠ none) ↔
          AllSet (vars.map TstKconfigVar.id) (pre ++ [buf]) := by
        rw [← hids]
        constructor
        · intro h id hid
          obtain ⟨v, hv, rfl⟩ := mem_map.1 hid
          exact (hset' v hv).1 (h v hv)
        · intro h v hv
          exact (hset' v hv).2 (h v.id (mem_map_of_mem hv))
      refine ⟨?_, fun h => ⟨true, _, rfl, fun _ => hall.2 h.2⟩⟩
      rintro ⟨_, _, he, hc⟩
      cases he
      exact ⟨hf', hall.1 (hc rfl)⟩
    · rename_i hne
      have hlt' : (countedVars (vars.map TstKconfigVar.id) (pre ++ [buf])).length <
          (vars.map TstKconfigVar.id).length := by
        have hsnoc := length_countedVars_snoc (vars.map TstKconfigVar.id) pre buf
        rw [length_map] at hlt ⊢
        split at hsnoc <;> omega
      rw [ih hids hlt' hset']
      exact ⟨fun h => ⟨hf', h⟩, fun h => h.2⟩

/-- No line that is read is cut off in the value of a variable, and when as many were counted as
there are variables, none was counted twice while another had no line. -/
structure ReadGood (ids bufs : List (List Char)) : Prop where
  inBuffer : ∀ pre buf post, bufs = pre ++ buf :: post →
    (countedVars ids pre).length < ids.length → (reading buf).faults ids = false
  noRepeat : ∀ pre post, bufs = pre ++ post → (countedVars ids pre).length = ids.length →
    ∀ id ∈ ids, (∀ buf ∈ pre, (reading buf).sets id = false) → (countedVars ids pre).Nodup

lemma readGood_iff (ids bufs : List (List Char)) : ReadGood ids bufs ↔ GoodFrom ids [] bufs := by
  constructor
  · rintro ⟨hin, hrep⟩
    refine ⟨hin, fun mid post he hl => ?_⟩
    -- if a variable is missing, the counted ones are distinct, and so all are there
    intro id hid
    by_contra hnot
    have hun : ∀ buf ∈ mid, (reading buf).sets id = false := fun buf hb => by
      simpa using fun hs => hnot ⟨buf, hb, hs⟩
    exact hnot (allSet_of_nodup (hrep mid post he hl id hid hun) hl id hid)
  · rintro ⟨hin, hall⟩
    refine ⟨hin, fun pre post he hl id hid hun => ?_⟩
    obtain ⟨buf, hb, hs⟩ := hall pre post he hl id hid
    rw [hun buf hb] at hs
    cases hs

/-- **When the early exit is right.** For distinct variables without a choice, `tst_kconfig_read` is
complete exactly if the lines are good. -/
theorem read_complete_iff (junk text : List Char) (vars : List TstKconfigVar)
    (hnd : (vars.map TstKconfigVar.id).Nodup) (hzero : ∀ v ∈ vars, v.choice = none) :
    Complete (tstKconfigRead junk text vars) ↔
      ReadGood (vars.map TstKconfigVar.id) (buffers junk text) := by
  rw [readGood_iff]
  by_cases hne : vars = []
  · -- without a variable the loop is left after the first line
    subst hne
    have hnone : ∀ buf, kconfigParseLine buf [] = .ok (false, []) := fun buf => by
      rw [parseLine_eq buf hnd]
      cases reading buf <;> rfl
    refine ⟨fun _ => ⟨fun _ _ _ _ hl => absurd hl (Nat.not_lt_zero _), fun _ _ _ _ => nofun⟩,
      fun _ => ?_⟩
    unfold tstKconfigRead
    cases buffers junk text with
    | nil => exact ⟨false, [], rfl, nofun⟩
    | cons =>
      rw [readLoop, hnone]
      exact ⟨true, [], rfl, fun _ => nofun⟩
  · have hpos : (countedVars (vars.map TstKconfigVar.id) []).length <
        (vars.map TstKconfigVar.id).length := by
      rw [length_map]
      exact length_pos_iff.2 hne
    exact readLoop_complete_iff hnd (buffers junk text) rfl hpos fun v hv => by simp [hzero v hv]

/-- A file with both variables, one of them with a value that is not
counted. -/
theorem read_complete_two :
    Complete (tstKconfigRead (List.replicate 128 '\x00') "CONFIG_A=y\nCONFIG_B=17\n".toList
      [⟨"CONFIG_A".toList, none, none⟩, ⟨"CONFIG_B".toList, none, none⟩]) := by
  have hin : ∀ buf ∈ buffers (List.replicate 128 '\x00') "CONFIG_A=y\nCONFIG_B=17\n".toList,
      (reading buf).faults ["CONFIG_A".toList, "CONFIG_B".toList] = false := by decide +kernel
  have hone : (countedVars ["CONFIG_A".toList, "CONFIG_B".toList]
      (buffers (List.replicate 128 '\x00') "CONFIG_A=y\nCONFIG_B=17\n".toList)).length = 1 := by
    decide +kernel
  refine (read_complete_iff _ _ _ (by decide) (by decide)).2
    ⟨fun pre buf post he _ => ?_, fun pre post he hl => ?_⟩
  · exact hin buf (by rw [he]; simp)
  have hle := length_countedVars_append ["CONFIG_A".toList, "CONFIG_B".toList] pre post
  rw [← he, hone] at hle
  exact absurd (Nat.le_trans (Nat.le_of_eq hl.symm) hle) (by decide)

/-- `CONFIG_A` is counted twice, and `CONFIG_B` is not read. -/
theorem read_stops_early :
    ¬ ∀ junk text vars, (vars.map TstKconfigVar.id).Nodup → (∀ v ∈ vars, v.choice = none) →
      Complete (tstKconfigRead junk text vars) := by
  intro h
  have hrun : tstKconfigRead (List.replicate 128 '\x00')
      "CONFIG_A=y\nCONFIG_A=y\nCONFIG_B=y\n".toList
      [⟨"CONFIG_A".toList, none, none⟩, ⟨"CONFIG_B".toList, none, none⟩] =
        .ok (true, [⟨"CONFIG_A".toList, some .y, none⟩, ⟨"CONFIG_B".toList, none, none⟩]) := by
    decide +kernel
  obtain ⟨_, _, he, hc⟩ := h (List.replicate 128 '\x00')
    "CONFIG_A=y\nCONFIG_A=y\nCONFIG_B=y\n".toList
    [⟨"CONFIG_A".toList, none, none⟩, ⟨"CONFIG_B".toList, none, none⟩] (by decide) (by decide)
  rw [hrun] at he
  cases he
  exact hc rfl _ (mem_cons_of_mem _ mem_cons_self) rfl

end LtpDdt.Kconfig
