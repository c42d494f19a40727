/-
Cgroup.Read — `safe_cg_read` of `lib/tst_cgroup.c`: a file that may be in
several hierarchies.

A hierarchy is what `read` returns for the file in it, less than the size `len` of
`out`, or `none` if it does not have the file. `TBROK` is `none`.
-/
import Mathlib.Data.List.Chain
import Mathlib.Data.List.ReduceOption

namespace LtpDdt.Cgroup

open List

abbrev Data (len : Nat) := { data : List UInt8 // data.length < len }

/-- `BUFSIZ`, the size of `prev_buf` -/
def bufsiz : Nat := 8192

/-- `out` behind `safe_file_readat`. -/
def readat (out data : List UInt8) : List UInt8 := data ++ 0 :: out.drop (data.length + 1)

variable {len : Nat}

def safeCgReadLoop : List (Option (Data len)) → List UInt8 → Nat → Nat → Option (Nat × List UInt8)
  | [], out, _, readRet => some (readRet, out.set readRet 0)
  | none :: dirs, out, prevLen, readRet => safeCgReadLoop dirs out prevLen readRet
  | some data :: dirs, out, prevLen, _ =>
    if len - 1 ≤ data.1.length then none
    else if prevLen ≠ 0 ∧ (readat out data.1).take prevLen ≠ out.take prevLen then none
    else safeCgReadLoop dirs (readat out data.1) (min bufsiz data.1.length) data.1.length

variable (dirs : List (Option (Data len)))

variable (out : List UInt8)

def safeCgRead : Option (Nat × List UInt8) :=
  safeCgReadLoop dirs out 0 0

/-- What the hierarchies that have the file return. -/
def contents : List (List UInt8) :=
  dirs.filterMap (Option.map Subtype.val)

def Differ (ds : List (List UInt8)) : Prop := ∃ d ∈ ds, ∃ d' ∈ ds, d ≠ d'

/-- `TBROK` exactly if two hierarchies differ, and else what is in them. -/
def ReadRight : Prop :=
  (safeCgRead dirs out = none ↔ Differ (contents dirs)) ∧
  ∀ ret out', safeCgRead dirs out = some (ret, out') →
    ∀ d ∈ contents dirs, ret = d.length ∧ d ++ [0] <+: out'

/-- `d'` differs from the `d` before it in a byte that was kept of `d`; its end counts as a NUL. -/
def ToldApart (d d' : List UInt8) : Prop :=
  ∃ i < bufsiz, ∃ b ∈ d[i]?, ∃ b' ∈ (d' ++ [0])[i]?, b ≠ b'

lemma readat_getElem? (out data : List UInt8) (i : Nat) :
    (readat out data)[i]? = if i ≤ data.length then (data ++ [0])[i]? else out[i]? := by
  rw [readat, append_cons]
  split_ifs with h
  · exact getElem?_append_left (by simp; omega)
  · rw [getElem?_append_right (by simp; omega), getElem?_drop]
    congr 1
    simp
    omega

/-- What `memcmp` finds in the bytes that were kept of `d`. -/
lemma memcmp_iff {out d : List UInt8} (data : List UInt8) (hd : d <+: out) :
    (readat out data).take (min bufsiz d.length) ≠ out.take (min bufsiz d.length) ↔
      ToldApart d data := by
  obtain ⟨rest, rfl⟩ := hd
  have hleft {i} (hi : i < d.length) : (d ++ rest)[i]? = d[i]? := getElem?_append_left hi
  constructor
  · intro hne
    obtain ⟨i, hi⟩ : ∃ i, ((readat (d ++ rest) data).take (min bufsiz d.length))[i]? ≠
        ((d ++ rest).take (min bufsiz d.length))[i]? := by
      by_contra! hall
      exact hne (ext_getElem? hall)
    rw [getElem?_take, getElem?_take, readat_getElem?] at hi
    split_ifs at hi with hmin hlen
    · rw [hleft (by omega)] at hi
      obtain ⟨b, hb⟩ : ∃ b, d[i]? = some b := ⟨_, getElem?_eq_getElem (by omega)⟩
      obtain ⟨b', hb'⟩ : ∃ b', (data ++ [0])[i]? = some b' :=
        ⟨_, getElem?_eq_getElem (by simp; omega)⟩
      rw [hb, hb'] at hi
      exact ⟨i, by omega, b, hb, b', hb', fun h => hi (h ▸ rfl)⟩
    · exact absurd rfl hi
    · exact absurd rfl hi
  · rintro ⟨i, hi, b, hb, b', hb', hne⟩ heq
    obtain ⟨hid, -⟩ := List.getElem?_eq_some_iff.mp hb
    obtain ⟨hid', -⟩ := List.getElem?_eq_some_iff.mp hb'
    rw [length_append, length_singleton] at hid'
    have hbyte := congrArg (·[i]?) heq
    rw [getElem?_take_of_lt (by omega), getElem?_take_of_lt (by omega), readat_getElem?,
      if_pos (by omega), hleft hid, hb, hb'] at hbyte
    exact hne (Option.some.inj hbyte).symm

/-- The loop behind a hierarchy with `d`. -/
lemma safeCgReadLoop_none_iff : ∀ (dirs : List (Option (Data len))) (d out : List UInt8)
    (readRet : Nat), d <+: out →
    (safeCgReadLoop dirs out (min bufsiz d.length) readRet = none ↔
      (∃ d' ∈ contents dirs, d'.length + 1 = len) ∨
        ¬ (d :: contents dirs).IsChain fun d d' => ¬ ToldApart d d')
  | [], d, out, readRet, h => by simp [safeCgReadLoop, contents]
  | none :: dirs, d, out, readRet, h => safeCgReadLoop_none_iff dirs d out readRet h
  | some d' :: dirs, d, out, readRet, h => by
    have ih := safeCgReadLoop_none_iff dirs d'.1 (readat out d'.1) d'.1.length ⟨_, rfl⟩
    have hcmp := memcmp_iff d'.1 h
    change _ ↔ (∃ d₁ ∈ d'.1 :: contents dirs, _) ∨ ¬ (d :: d'.1 :: contents dirs).IsChain _
    simp only [safeCgReadLoop, isChain_cons_cons]
    split
    · simp [show d'.1.length + 1 = len by omega]
    have hne : d'.1.length + 1 ≠ len := by omega
    split
    · rename_i hdiff
      simp [hcmp.1 hdiff.2]
    rename_i hsame
    have hlike : ¬ ToldApart d d'.1 := fun happ =>
      hsame ⟨fun h0 => hcmp.2 happ (by rw [h0, take_zero, take_zero]), hcmp.2 happ⟩
    rw [ih]
    simp [hne, hlike]

lemma safeCgReadLoop_some {d ret : _} {out'} :
    ∀ (dirs : List (Option (Data len))) (out : List UInt8) (prevLen readRet : Nat),
    safeCgReadLoop dirs out prevLen readRet = some (ret, out') → (∀ d' ∈ contents dirs, d' = d) →
    (contents dirs = [] → readRet = d.length ∧ d ++ [0] <+: out) →
    ret = d.length ∧ d ++ [0] <+: out'
  | [], out, prevLen, readRet, h, hall, hout => by
    obtain ⟨rfl, rest, rfl⟩ := hout rfl
    cases h
    exact ⟨rfl, rest, by simp⟩
  | none :: dirs, out, prevLen, readRet, h, hall, hout =>
    safeCgReadLoop_some dirs out prevLen readRet h hall hout
  | some d' :: dirs, out, prevLen, readRet, h, hall, hout => by
    obtain ⟨rfl, hall⟩ := forall_mem_cons.1 hall
    rw [safeCgReadLoop] at h
    split at h
    · cases h
    split at h
    · cases h
    · exact safeCgReadLoop_some dirs _ _ _ h hall fun _ => ⟨rfl, _, append_assoc ..⟩

lemma ToldApart.ne {d d' : List UInt8} (h : ToldApart d d') : d ≠ d' := by
  rintro rfl
  obtain ⟨i, -, b, hb, b', hb', hne⟩ := h
  obtain ⟨hi, -⟩ := List.getElem?_eq_some_iff.mp hb
  rw [getElem?_append_left hi] at hb'
  exact hne (Option.some.inj (hb.symm.trans hb'))

/-- **A file in several hierarchies** is read right exactly if the contents are equal and leave
room in the buffer, or they differ and one of them fills the buffer, or two that follow one another
are told apart. -/
theorem safeCgRead_right_iff : ReadRight dirs out ↔
    ¬ Differ (contents dirs) ∧ (∀ d ∈ contents dirs, d.length + 1 ≠ len) ∨
    Differ (contents dirs) ∧ (∃ d ∈ contents dirs, d.length + 1 = len) ∨
    ∃ pre d d' post, contents dirs = pre ++ d :: d' :: post ∧ ToldApart d d' := by
  have hnone := safeCgReadLoop_none_iff dirs [] out 0 nil_prefix
  have hnil (d') : ¬ ToldApart [] d' := by simp [ToldApart]
  have hchain : ¬ ([] :: contents dirs).IsChain (fun d d' => ¬ ToldApart d d') ↔
      ∃ pre d d' post, contents dirs = pre ++ d :: d' :: post ∧ ToldApart d d' := by
    have hcons : ([] :: contents dirs).IsChain (fun d d' => ¬ ToldApart d d') ↔
        (contents dirs).IsChain fun d d' => ¬ ToldApart d d' := by
      cases contents dirs with
      | nil => simp
      | cons => simp [hnil]
    rw [hcons, isChain_iff_forall_rel_of_append_cons_cons]
    push Not
    constructor
    · rintro ⟨d, d', pre, post, h⟩
      exact ⟨pre, d, d', post, h⟩
    · rintro ⟨pre, d, d', post, h⟩
      exact ⟨d, d', pre, post, h⟩
  rw [hchain] at hnone
  change safeCgRead dirs out = none ↔ _ at hnone
  have hdiffer : (∃ pre d d' post, contents dirs = pre ++ d :: d' :: post ∧ ToldApart d d') →
      Differ (contents dirs) := by
    rintro ⟨pre, d, d', post, heq, happ⟩
    exact ⟨d, by simp [heq], d', by simp [heq], happ.ne⟩
  have hright : ReadRight dirs out ↔ (safeCgRead dirs out = none ↔ Differ (contents dirs)) := by
    refine ⟨And.left, fun hbrk => ⟨hbrk, fun ret out' hrun d hd => ?_⟩⟩
    refine safeCgReadLoop_some dirs out 0 0 hrun (fun d' hd' => ?_) fun hnil => ?_
    · by_contra hne
      rw [hbrk.2 ⟨d', hd', d, hd, hne⟩] at hrun
      cases hrun
    · rw [hnil] at hd
      cases hd
  rw [hright, hnone]
  by_cases hdiff : Differ (contents dirs)
  · simp [hdiff]
  · have hno := mt hdiffer hdiff
    simp only [hdiff, hno, iff_false, or_false, not_exists, not_and, not_false_eq_true, true_and,
      false_and]

/-- The content of the first hierarchy is the begin of the other one. -/
theorem safeCgRead_longer :
    let dirs : List (Option (Data 8)) := [some ⟨[49], by decide⟩, some ⟨[49, 50], by decide⟩]
    safeCgRead dirs [] = some (2, [49, 50, 0]) ∧
      [49] ∈ contents dirs ∧ [49, 50] ∈ contents dirs := by
  decide

end LtpDdt.Cgroup
