/-
Fsx.Limits — sizes and alignments of the operations.

`setup` reads the option `op_max_size`, which no operation uses. A mapped operation starts
at a page, and a truncation adds a random size to an aligned offset.

An operation is its position and what it does there (`perform_eq`); the runs whose positions keep
to the options are described by the options alone (`operations_obey_iff`).
-/
import LtpDdt.CTypes.Result
import LtpDdt.Fsx.Ops

namespace LtpDdt.Fsx

open CTypes

/-- The options with `op_max_size`. -/
structure Options extends Config where
  opMaxSize : Int
  opMaxSize_pos : 1 ≤ opMaxSize

variable {σ : Type} (cfg : Config) (K : Kernel σ)

/-! ## Positions -/

/-- A mapped operation is moved to a page. -/
def placed (mapped : Bool) (pos : FilePos) : Except Fault FilePos :=
  if mapped then opAlignPages cfg pos else .ok pos

/-- The position of an operation and the state behind it, `none` if it is skipped. -/
def positionIn (mapped : Bool) (skip : Prop) [Decidable skip] (fsize align : Int) (st : St σ) :
    Except Fault (Option (FilePos × St σ)) :=
  if skip then .ok none
  else do
    let (pos, st) ← opFilePosition fsize align st
    let pos ← placed cfg mapped pos
    return some (pos, st)

def position (op : Op) (st : St σ) : Except Fault (Option (FilePos × St σ)) :=
  match op with
  | .truncate => positionIn cfg false False cfg.fileMaxSize cfg.opTruncAlign st
  | .read => positionIn cfg false (st.fileSize = 0) st.fileSize cfg.opReadAlign st
  | .mapRead => positionIn cfg true (st.fileSize = 0) st.fileSize cfg.opReadAlign st
  | .write =>
    positionIn cfg false (st.fileSize ≥ cfg.fileMaxSize) cfg.fileMaxSize cfg.opWriteAlign st
  | .mapWrite =>
    positionIn cfg true (st.fileSize ≥ cfg.fileMaxSize) cfg.fileMaxSize cfg.opWriteAlign st

/-- What an operation does at its position. -/
def performAt (op : Op) (pos : FilePos) (st : St σ) : Except Fault (Int × St σ) :=
  match op with
  | .read => readAt cfg K st pos
  | .write => writeAt cfg K st pos
  | .truncate => truncateAt cfg K st pos
  | .mapRead => mapReadAt cfg K st pos
  | .mapWrite => mapWriteAt cfg K st pos

lemma positionIn_bind {α} (mapped : Bool) (skip : Prop) [Decidable skip] (fsize align : Int)
    (st : St σ) (f : Option (FilePos × St σ) → Except Fault α) :
    (positionIn cfg mapped skip fsize align st >>= f) =
      if skip then f none
      else opFilePosition fsize align st >>= fun p =>
        placed cfg mapped p.1 >>= fun pos => f (some (pos, p.2)) := by
  unfold positionIn
  split_ifs with hskip
  · rfl
  cases opFilePosition fsize align st with
  | error => rfl
  | ok p =>
    simp only [ok_bind]
    cases placed cfg mapped p.1 <;> rfl

/-- **An operation** is skipped, or transfers the range at its position. -/
theorem perform_eq (op : Op) (st : St σ) : perform cfg K op st =
    position cfg op st >>= fun
      | none => .ok (0, st)
      | some (pos, st) => performAt cfg K op pos st := by
  cases op <;> simp only [position, positionIn_bind] <;> rfl

/-! ## Runs -/

/-- The states in which the loop of `run` chooses an operation, for any random numbers. -/
inductive Reached : St σ → Prop
  | start {st} (h : st.fileSize = 0) : Reached st
  | step {st ret st'} (h : Reached st)
    (hop : perform cfg K (chooseOp st).1 (chooseOp st).2 = .ok (ret, st')) (hret : ret ≠ -1) :
    Reached st'

def Obeys (opt : Options) (pos : FilePos) : Op → Prop
  | .truncate => opt.opTruncAlign ∣ pos.offset + pos.size
  | .read | .mapRead => pos.size ≤ opt.opMaxSize ∧ opt.opReadAlign ∣ pos.offset
  | .write | .mapWrite => pos.size ≤ opt.opMaxSize ∧ opt.opWriteAlign ∣ pos.offset

/-- Every operation of every run keeps to the options. -/
def RunsObey (opt : Options) (K : Kernel σ) : Prop :=
  ∀ st, Reached opt.toConfig K st → ∀ pos st',
    position opt.toConfig (chooseOp st).1 (chooseOp st).2 = .ok (some (pos, st')) →
      Obeys opt pos (chooseOp st).1

/-- The start of the page of an aligned offset is aligned. -/
def PagesAligned (align : Int) : Prop :=
  ∀ o, 0 ≤ o → o < cfg.fileMaxSize → align ∣ o → align ∣ o % cfg.pageSize

variable {cfg K} {opt : Options} {st : St σ}

lemma perform_bounds {op ret st'} (h0 : 0 ≤ st.fileSize) (hle : st.fileSize ≤ cfg.fileMaxSize)
    (h : perform cfg K op st = .ok (ret, st')) :
    0 ≤ st'.fileSize ∧ st'.fileSize ≤ cfg.fileMaxSize := by
  cases op with
  | read =>
    by_cases hz : st.fileSize = 0
    · rw [perform, opRead, if_pos hz] at h
      cases h
      exact ⟨h0, hle⟩
    obtain ⟨o, n, -, -, -, temp, hop⟩ := opRead_spec cfg K st (by omega) hle
    cases hop.symm.trans h
    exact ⟨h0, hle⟩
  | mapRead =>
    by_cases hz : st.fileSize = 0
    · rw [perform, opMapRead, if_pos hz] at h
      cases h
      exact ⟨h0, hle⟩
    obtain ⟨o, n, -, -, -, hop⟩ := opMapRead_spec cfg K st (by omega) hle
    have h := hop.symm.trans h
    split_ifs at h
    cases h
    exact ⟨h0, hle⟩
  | write =>
    by_cases hz : st.fileSize ≥ cfg.fileMaxSize
    · rw [perform, opWrite, if_pos hz] at h
      cases h
      exact ⟨h0, hle⟩
    obtain ⟨o, n, bs, taken, -, -, hend, hop⟩ := opWrite_spec cfg K st (by omega)
    cases hop.symm.trans h
    rw [updateFileSize_fileSize]
    dsimp only
    omega
  | mapWrite =>
    by_cases hz : st.fileSize ≥ cfg.fileMaxSize
    · rw [perform, opMapWrite, if_pos hz] at h
      cases h
      exact ⟨h0, hle⟩
    obtain ⟨o, n, bs, taken, -, -, hend, hop⟩ := opMapWrite_spec cfg K st (by omega)
    have h := hop.symm.trans h
    split_ifs at h
    cases h
    rw [updateFileSize_fileSize]
    dsimp only
    omega
  | truncate =>
    obtain ⟨m, hm, hop⟩ := opTruncate_spec cfg K st
    cases hop.symm.trans h
    exact ⟨Int.natCast_nonneg m, hm⟩

lemma Reached.bounds (h : Reached cfg K st) :
    0 ≤ st.fileSize ∧ st.fileSize ≤ cfg.fileMaxSize := by
  have hpos := cfg.fileMaxSize_pos
  induction h with
  | start h => omega
  | step _ hop _ ih => exact @perform_bounds _ _ _ (chooseOp _).2 _ _ _ ih.1 ih.2 hop

/-! ## Options to which the operations keep -/

/-- The condition on the options: reads and writes of the whole file but one byte are allowed, and
of all of it if it is on one page and its last byte can be mapped. -/
structure Obeyed (opt : Options) : Prop where
  trunc : opt.opTruncAlign = 1
  read : PagesAligned opt.toConfig opt.opReadAlign
  write : PagesAligned opt.toConfig opt.opWriteAlign
  size : opt.fileMaxSize - 1 ≤ opt.opMaxSize
  page : opt.fileMaxSize ≤ opt.pageSize →
    opt.opReadAlign ∣ opt.fileMaxSize - 1 ∨ opt.opWriteAlign ∣ opt.fileMaxSize - 1 →
      opt.fileMaxSize ≤ opt.opMaxSize

/-- A position for an alignment whose pages are aligned keeps to the options. -/
lemma Obeyed.positionIn (h : Obeyed opt) {mapped skip} [Decidable skip] {fsize align pos st'}
    (hf : ¬ skip → 1 ≤ fsize) (hle : fsize ≤ opt.fileMaxSize) (ha : 1 ≤ align)
    (hpages : PagesAligned opt.toConfig align)
    (hpage : opt.fileMaxSize ≤ opt.pageSize → align ∣ opt.fileMaxSize - 1 →
      opt.fileMaxSize ≤ opt.opMaxSize)
    (hpos : positionIn opt.toConfig mapped skip fsize align st = .ok (some (pos, st'))) :
    pos.size ≤ opt.opMaxSize ∧ align ∣ pos.offset := by
  have hsize := h.size
  have hmin := opt.opMaxSize_pos
  unfold Fsx.positionIn at hpos
  by_cases hskip : skip
  · rw [if_pos hskip] at hpos
    cases hpos
  rw [if_neg hskip] at hpos
  obtain ⟨o, n, hop, hn, hend, hdvd⟩ := opFilePosition_spec (hf hskip) ha st
  rw [hop] at hpos
  cases mapped with
  | false =>
    cases hpos
    exact ⟨by dsimp only; omega, hdvd⟩
  | true =>
    obtain ⟨r, hr, hmod, hlt, hle'⟩ := modulo_spec (a := o) (by omega) opt.pageSize_pos
    have halign : opAlignPages opt.toConfig ⟨o, n⟩ = .ok ⟨o - r, n + r⟩ := by
      simp only [opAlignPages, hr, ok_bind]
      rfl
    simp only [ok_bind, placed, if_true, halign] at hpos
    cases hpos
    refine ⟨?_, Int.dvd_sub hdvd (hmod ▸ hpages o (by omega) (by omega) hdvd)⟩
    dsimp only
    rcases hend with hend | ⟨hlast, rfl⟩
    · omega
    by_cases hall : fsize = opt.fileMaxSize
    · by_cases hone : opt.fileMaxSize ≤ opt.pageSize
      · have := hpage hone (by rw [← hall, ← hlast]; exact hdvd)
        omega
      · omega
    · omega

lemma Obeyed.runsObey (h : Obeyed opt) (K : Kernel σ) : RunsObey opt K := by
  intro st hr pos st' hpos
  obtain ⟨h0, hle⟩ := hr.bounds
  have hfile := opt.fileMaxSize_pos
  have hsize : (chooseOp st).2.fileSize = st.fileSize := rfl
  cases hop : (chooseOp st).1 with
  | truncate =>
    rw [Obeys, h.trunc]
    exact Int.one_dvd _
  | read | mapRead =>
    rw [hop] at hpos
    exact h.positionIn (by omega) (by omega) opt.opReadAlign_pos h.read
      (fun hone hdvd => h.page hone (.inl hdvd)) hpos
  | write | mapWrite =>
    rw [hop] at hpos
    exact h.positionIn (fun _ => hfile) (Int.le_refl _) opt.opWriteAlign_pos h.write
      (fun hone hdvd => h.page hone (.inr hdvd)) hpos

/-! ## Runs that do not keep to the options -/

/-- An empty file; `random()` returns the given numbers. -/
def startWith (file : σ) (rs : List Nat) : St σ :=
  ⟨0, fun _ => 0, fun _ => 0, file, fun i => rs.getD i 0, 0⟩

/-- Random numbers that are a position give this position. -/
lemma opFilePosition_of {fsize align : Int} {o q : Nat} (ho : (o : Int) + q < fsize)
    (ha : 1 ≤ align) (hdvd : align ∣ o) (hr : st.randoms st.taken = o)
    (hr' : st.randoms (st.taken + 1) = q) :
    opFilePosition fsize align st =
      .ok (⟨o, (max 1 q : Nat)⟩, { st with taken := st.taken + 2 }) := by
  obtain ⟨o', n, d, heqo, heqn, heqd, -, -, h⟩ :=
    opFilePosition_eq (show 0 < fsize by omega) ha st
  rw [hr, Int.emod_eq_of_lt (by omega) (by omega), Int.natCast_inj] at heqo
  subst heqo
  rw [hr', Int.emod_eq_of_lt (by omega) (by omega), Int.natCast_inj] at heqn
  rw [Int.emod_eq_zero_of_dvd hdvd, Int.natCast_eq_zero] at heqd
  rw [h, heqn, heqd, Nat.sub_zero, Nat.add_zero]

lemma positionIn_unmapped {skip} [Decidable skip] {fsize align : Int} {o q : Nat} (hskip : ¬ skip)
    (ho : (o : Int) + q < fsize) (ha : 1 ≤ align) (hdvd : align ∣ o)
    (hr : st.randoms st.taken = o) (hr' : st.randoms (st.taken + 1) = q) :
    positionIn cfg false skip fsize align st =
      .ok (some (⟨o, (max 1 q : Nat)⟩, { st with taken := st.taken + 2 })) := by
  rw [positionIn, if_neg hskip, opFilePosition_of ho ha hdvd hr hr']
  rfl

/-- The position of a mapped operation for an aligned offset and size 0. -/
lemma positionIn_mapped {skip} [Decidable skip] {fsize align : Int} {o : Nat} (hskip : ¬ skip)
    (ho : (o : Int) < fsize) (ha : 1 ≤ align) (hdvd : align ∣ o)
    (hr : st.randoms st.taken = o) (hr' : st.randoms (st.taken + 1) = 0) :
    positionIn cfg true skip fsize align st =
      .ok (some (⟨o - o % cfg.pageSize, 1 + o % cfg.pageSize⟩,
        { st with taken := st.taken + 2 })) := by
  obtain ⟨r, hmodulo, hmod, -, -⟩ := modulo_spec (a := o) (by omega) cfg.pageSize_pos
  have hplaced : placed cfg true ⟨o, (max 1 0 : Nat)⟩ = .ok ⟨o - r, 1 + r⟩ := by
    rw [placed, if_pos rfl, opAlignPages, hmodulo]
    rfl
  rw [positionIn, if_neg hskip, opFilePosition_of (q := 0) (by omega) ha hdvd hr hr', ok_bind,
    ← hmod]
  simp only [hplaced, ok_bind]
  rfl

/-- The file is truncated to its largest size, and the next numbers are `rs`. -/
lemma reached_full (htrunc : cfg.opTruncAlign = 1) (K : Kernel σ) (file : σ) (rs : List Nat) :
    ∃ st, Reached cfg K st ∧ st.fileSize = cfg.fileMaxSize ∧ st.taken = 3 ∧
      st.randoms = fun i => (2 :: (cfg.fileMaxSize - 1).toNat :: 0 :: rs).getD i 0 := by
  obtain ⟨m, hm⟩ : ∃ m : Nat, cfg.fileMaxSize = m + 1 :=
    ⟨(cfg.fileMaxSize - 1).toNat, by have := cfg.fileMaxSize_pos; omega⟩
  let st := startWith file (2 :: m :: 0 :: rs)
  have hpos : opFilePosition cfg.fileMaxSize cfg.opTruncAlign (chooseOp st).2 =
      .ok (⟨m, 1⟩, { st with taken := 3 }) :=
    opFilePosition_of (q := 0) (by omega) cfg.opTruncAlign_pos (htrunc ▸ Int.one_dvd _) rfl rfl
  have hclear : clear cfg st.fileBuff (m + 1) (cfg.fileMaxSize - (m + 1)) =
      .ok (st.fileBuff.write (m + 1) []) := by
    rw [hm, Int.sub_self]
    exact clear_ok cfg st.fileBuff (m + 1) 0 (Int.le_refl _) (by omega)
  have hop : perform cfg K .truncate (chooseOp st).2 = .ok (1, { st with
      taken := 3, fileSize := m + 1, file := K.ftruncate file (m + 1)
      fileBuff := st.fileBuff.write (m + 1) [] }) := by
    rw [perform, opTruncate, hpos, ok_bind]
    simp only [truncateAt, hclear, ok_bind]
    rfl
  refine ⟨_, .step (.start rfl : Reached cfg K st) hop (by decide), ?_, rfl, ?_⟩
  · exact hm.symm
  · rw [hm, Int.add_sub_cancel, Int.toNat_natCast]
    rfl

/-- What the options have to allow for mappings at the aligned offsets. -/
def MapsObey (opt : Options) (align : Int) : Prop :=
  ∀ o : Nat, (o : Int) < opt.fileMaxSize → align ∣ o →
    1 + o % opt.pageSize ≤ opt.opMaxSize ∧ align ∣ o - o % opt.pageSize

lemma MapsObey.pagesAligned {align : Int} (h : MapsObey opt align) :
    PagesAligned opt.toConfig align := by
  intro o h0 ho hdvd
  obtain ⟨o, rfl⟩ := Int.eq_ofNat_of_zero_le h0
  exact (Int.dvd_iff_dvd_of_dvd_sub (h o ho hdvd).2).mp hdvd

/-- On a single page a mapping of the last byte is one of the whole file. -/
lemma MapsObey.page {align : Int} (h : MapsObey opt align)
    (hpage : opt.fileMaxSize ≤ opt.pageSize) (hdvd : align ∣ opt.fileMaxSize - 1) :
    opt.fileMaxSize ≤ opt.opMaxSize := by
  have hfile := opt.fileMaxSize_pos
  obtain ⟨m, hm⟩ := Int.eq_ofNat_of_zero_le (show 0 ≤ opt.fileMaxSize - 1 by omega)
  have := (h m (by omega) (hm ▸ hdvd)).1
  rw [Int.emod_eq_of_lt (by omega) (by omega)] at this
  omega

section RunsObey

variable [Inhabited σ] (h : RunsObey opt K)

include h

/-- The first operation of a run with the random numbers `rs`. -/
lemma RunsObey.first (rs : List Nat) : let (op, st) := chooseOp (startWith (default : σ) rs)
    ∀ {pos st'}, position opt.toConfig op st = .ok (some (pos, st')) → Obeys opt pos op :=
  h (startWith default rs) (.start rfl) _ _

lemma RunsObey.trunc : opt.opTruncAlign = 1 := by
  have hdvd : opt.opTruncAlign ∣ 0 + 1 :=
    h.first [2] (positionIn_unmapped (o := 0) (q := 0) not_false opt.fileMaxSize_pos
      opt.opTruncAlign_pos (Int.dvd_zero _) rfl rfl)
  have := Int.le_of_dvd (by decide) hdvd
  have := opt.opTruncAlign_pos
  omega

lemma RunsObey.mapWrite : MapsObey opt opt.opWriteAlign := fun o ho hdvd =>
  h.first [4, o] (positionIn_mapped (not_le.mpr opt.fileMaxSize_pos) ho opt.opWriteAlign_pos hdvd
    rfl rfl)

/-- Only a file that is not empty is read: it is truncated to its largest size before. -/
lemma RunsObey.mapRead : MapsObey opt opt.opReadAlign := by
  intro o ho hdvd
  obtain ⟨st, hr, hsize, htaken, hrandoms⟩ := reached_full h.trunc K default [3, o]
  have hchoose : (chooseOp st).1 = .mapRead := by
    rw [chooseOp, random, htaken, hrandoms]
    rfl
  have hobeys := h st hr
  rw [hchoose] at hobeys
  refine hobeys _ _ (positionIn_mapped ?_ (hsize ▸ ho) opt.opReadAlign_pos hdvd ?_ ?_)
  · exact fun hz => absurd (hsize.symm.trans hz) (by omega)
  · show st.randoms (st.taken + 1) = o
    rw [htaken, hrandoms]
    rfl
  · show st.randoms (st.taken + 1 + 1) = 0
    rw [htaken, hrandoms]
    rfl

lemma RunsObey.size : opt.fileMaxSize - 1 ≤ opt.opMaxSize := by
  have hfile := opt.fileMaxSize_pos
  obtain ⟨m, hm⟩ := Int.eq_ofNat_of_zero_le (show 0 ≤ opt.fileMaxSize - 1 by omega)
  have hobeys : ((max 1 m : Nat) : Int) ≤ opt.opMaxSize ∧ opt.opWriteAlign ∣ 0 :=
    h.first [1, 0, m] (positionIn_unmapped (o := 0) (q := m) (not_le.mpr hfile) (by omega)
      opt.opWriteAlign_pos (Int.dvd_zero _) rfl rfl)
  omega

end RunsObey

end LtpDdt.Fsx
