/-
Fsx.ShadowTheorems — what the exerciser keeps, and what it detects.

On a file that is an array of bytes each operation keeps the relation `Shadow`
between `file_buff` and the file (`perform_shadow`), and so does a run.
-/
import LtpDdt.Fsx.Ops

namespace LtpDdt.Fsx

open Bytes CTypes List

variable {o n : Nat} {σ : Type}

/-- `file_buff` is the file up to `file_size`, and zero behind it. -/
structure Shadow {σ : Type} (cfg : Config) (contents : List UInt8) (st : St σ) : Prop where
  size : st.fileSize = contents.length
  fits : st.fileSize ≤ cfg.fileMaxSize
  agree : ∀ i : Nat, (i : Int) < st.fileSize → st.fileBuff i = contents.getD i 0
  zero : ∀ i : Nat, st.fileSize ≤ i → (i : Int) < cfg.fileMaxSize → st.fileBuff i = 0

section Shadow

variable {σ : Type} {cfg : Config} {contents : List UInt8} {st : St σ}

lemma Shadow.getD (h : Shadow cfg contents st) {i : Nat} (hi : (i : Int) < cfg.fileMaxSize) :
    st.fileBuff i = contents.getD i 0 := by
  by_cases hin : (i : Int) < st.fileSize
  · exact h.agree i hin
  · have := h.size
    rw [h.zero i (by omega) hi, getD_eq_default _ _ (by omega)]

lemma shadow_of_getD (hsize : st.fileSize = contents.length) (hfits : st.fileSize ≤ cfg.fileMaxSize)
    (hbuff : ∀ i : Nat, (i : Int) < cfg.fileMaxSize → st.fileBuff i = contents.getD i 0) :
    Shadow cfg contents st where
  size := hsize
  fits := hfits
  agree := fun i hi => hbuff i (by omega)
  zero := fun i hi hmax => by rw [hbuff i hmax, getD_eq_default _ _ (by omega)]

section

variable (h : Shadow cfg contents st)

include h

/-- A read finds what the buffer has. -/
lemma Shadow.read_eq (hend : (o : Int) + n ≤ st.fileSize) :
    st.fileBuff.read o n = slice contents o n := by
  have hsize := h.size
  have hlen : (slice contents o n).length = n := length_slice (by omega)
  have hread := Mem.read_eq st.fileBuff o (slice contents o n) fun k hk => by
    rw [hlen] at hk
    rw [getD_slice _ _ hk, h.agree (o + k) (by omega)]
  rwa [hlen] at hread

/-- A write of both keeps the shadow. -/
lemma Shadow.overwrite {bs : List UInt8} (hend : (o : Int) + bs.length ≤ cfg.fileMaxSize)
    {st' : St σ} (hbuff : st'.fileBuff = st.fileBuff.write o bs)
    (hsize : st'.fileSize = max st.fileSize (o + bs.length)) :
    Shadow cfg (Bytes.overwrite contents o bs) st' := by
  have hlen := h.size
  have hfits := h.fits
  refine shadow_of_getD ?_ (by omega) fun i hi => ?_
  · rw [length_overwrite]
    omega
  rw [hbuff, getD_overwrite]
  split
  · next hin =>
    obtain ⟨k, rfl⟩ : ∃ k, i = o + k := ⟨i - o, by omega⟩
    rw [Mem.write_inside (by omega) 0, Nat.add_sub_cancel_left]
  · rw [Mem.write_outside (by omega), h.getD hi]

/-- A truncation of both keeps the shadow. -/
lemma Shadow.resize {m : Nat} (hm : (m : Int) ≤ cfg.fileMaxSize) {st' : St σ}
    (hbuff : st'.fileBuff = st.fileBuff.write m (replicate (cfg.fileMaxSize - m).toNat 0))
    (hsize : st'.fileSize = m) : Shadow cfg (Bytes.resize contents m) st' := by
  refine shadow_of_getD (by simp [hsize]) (by omega) fun i hi => ?_
  rw [hbuff, getD_resize]
  split
  · rw [Mem.write_outside (by omega), h.getD hi]
  obtain ⟨k, rfl⟩ : ∃ k, i = m + k := ⟨i - m, by omega⟩
  rw [Mem.write_inside (by simp; omega) 0]
  simp

lemma Shadow.recopy (hend : (o : Int) + n ≤ st.fileSize) {st' : St σ}
    (hbuff : st'.fileBuff = st.fileBuff.write o (slice contents o n))
    (hsize : st'.fileSize = st.fileSize) : Shadow cfg contents st' := by
  have hlen : (slice contents o n).length = n := length_slice (by have := h.size; omega)
  refine shadow_of_getD (hsize.trans h.size) (hsize ▸ h.fits) fun i hi => ?_
  rw [hbuff]
  by_cases hin : o ≤ i ∧ i < o + n
  · obtain ⟨k, rfl⟩ : ∃ k, i = o + k := ⟨i - o, by omega⟩
    rw [Mem.write_inside (by omega) 0, getD_slice _ _ (by omega)]
  · rw [Mem.write_outside (by omega), h.getD hi]

lemma Shadow.congr {st' : St σ} (hbuff : st'.fileBuff = st.fileBuff)
    (hsize : st'.fileSize = st.fileSize) : Shadow cfg contents st' :=
  shadow_of_getD (hsize.trans h.size) (hsize ▸ h.fits) fun i hi => by rw [hbuff, h.getD hi]

end

end Shadow

lemma updateFileSize_fileBuff (pos : FilePos) (st : St σ) :
    (updateFileSize pos st).fileBuff = st.fileBuff := by
  unfold updateFileSize
  split <;> rfl

lemma updateFileSize_file (pos : FilePos) (st : St σ) : (updateFileSize pos st).file = st.file := by
  unfold updateFileSize
  split <;> rfl

/-! ## A file that is an array of bytes -/

section Posix

variable (cfg : Config) {st : St (List UInt8)}

/-- An operation ends without a fault or a report, and keeps the relation. -/
def Keeps (r : Except Fault (Int × St (List UInt8))) : Prop :=
  ∃ ret st', r = .ok (ret, st') ∧ (ret = 0 ∨ ret = 1) ∧ Shadow cfg st'.file st'

section

variable (h : Shadow cfg st.file st)

include h

lemma opRead_keeps : Keeps cfg (opRead cfg posix st) := by
  have hsize := h.size
  by_cases h0 : st.fileSize = 0
  · exact ⟨0, st, if_pos h0, .inl rfl, h⟩
  obtain ⟨o, n, -, -, hend, _, hop⟩ := opRead_spec cfg posix st (by omega) h.fits
  have hlen : (slice st.file o n).length = n := length_slice (by omega)
  have hsame : pad n ((posix.read st.file o n).take n) = st.fileBuff.read o n := by
    rw [h.read_eq hend, show posix.read st.file o n = slice st.file o n from rfl,
      take_of_length_le (by omega), pad_self hlen]
  rw [if_pos hsame] at hop
  exact ⟨1, _, hop, .inr rfl, h.congr rfl rfl⟩

lemma opWrite_keeps : Keeps cfg (opWrite cfg posix st) := by
  by_cases hroom : st.fileSize ≥ cfg.fileMaxSize
  · exact ⟨0, st, if_pos hroom, .inl rfl, h⟩
  obtain ⟨o, n, _, _, rfl, -, hend, hop⟩ := opWrite_spec cfg posix st (by omega)
  refine ⟨1, _, hop, .inr rfl, ?_⟩
  rw [updateFileSize_file]
  exact h.overwrite hend (updateFileSize_fileBuff ..) (updateFileSize_fileSize ..)

lemma opTruncate_keeps : Keeps cfg (opTruncate cfg posix st) := by
  obtain ⟨m, hm, hop⟩ := opTruncate_spec cfg posix st
  exact ⟨1, _, hop, .inr rfl, h.resize hm rfl rfl⟩

lemma opMapRead_keeps : Keeps cfg (opMapRead cfg posix st) := by
  have hsize := h.size
  by_cases h0 : st.fileSize = 0
  · exact ⟨0, st, if_pos h0, .inl rfl, h⟩
  obtain ⟨o, n, -, -, hend, hop⟩ := opMapRead_spec cfg posix st (by omega) h.fits
  have hlen : (slice st.file o n).length = n := length_slice (by omega)
  have htake : (posix.mapped st.file o n).take n = slice st.file o n :=
    take_of_length_le (Nat.le_of_eq hlen)
  rw [htake, if_neg (by omega)] at hop
  exact ⟨1, _, hop, .inr rfl, h.recopy hend rfl rfl⟩

lemma opMapWrite_keeps : Keeps cfg (opMapWrite cfg posix st) := by
  have hsize := h.size
  by_cases hroom : st.fileSize ≥ cfg.fileMaxSize
  · exact ⟨0, st, if_pos hroom, .inl rfl, h⟩
  obtain ⟨o, n, bs, _, rfl, -, hend, hop⟩ := opMapWrite_spec cfg posix st (by omega)
  -- the file is first extended with zeros, which `file_buff` has there as well
  have hgrown : ∃ st₁ : St (List UInt8), st₁.fileBuff = st.fileBuff ∧
      st₁.fileSize = max st.fileSize (o + bs.length) ∧
      Shadow cfg (grown posix st.file st.fileSize (o + bs.length)) st₁ := by
    refine ⟨{ st with fileSize := max st.fileSize (o + bs.length) }, rfl, rfl, ?_⟩
    unfold grown
    split
    · refine shadow_of_getD ?_ (by dsimp only; omega) fun i hi => ?_
      · show max st.fileSize (o + bs.length) = (Bytes.resize st.file (o + bs.length)).length
        rw [length_resize]
        omega
      show st.fileBuff i = (Bytes.resize st.file (o + bs.length)).getD i 0
      rw [getD_resize, h.getD hi]
      split
      · rfl
      · rw [getD_eq_default _ _ (by omega)]
    · exact h.congr rfl (by dsimp only; omega)
  obtain ⟨_, hbuff₁, _, h₁⟩ := hgrown
  have hlen : (slice (grown posix st.file st.fileSize (o + bs.length)) o bs.length).length =
      bs.length := length_slice (by have := h₁.size; omega)
  have htake : (posix.mapped (grown posix st.file st.fileSize (o + bs.length)) o bs.length).take
      bs.length = slice (grown posix st.file st.fileSize (o + bs.length)) o bs.length :=
    take_of_length_le (Nat.le_of_eq hlen)
  rw [htake, if_neg (by omega)] at hop
  refine ⟨1, _, hop, .inr rfl, ?_⟩
  rw [updateFileSize_file]
  refine h₁.overwrite hend ((updateFileSize_fileBuff ..).trans (by rw [hbuff₁])) ?_
  rw [updateFileSize_fileSize]
  dsimp only
  omega

/-- **Every operation keeps the shadow.** -/
lemma perform_keeps : ∀ op, Keeps cfg (perform cfg posix op st)
  | .read => opRead_keeps cfg h
  | .write => opWrite_keeps cfg h
  | .truncate => opTruncate_keeps cfg h
  | .mapRead => opMapRead_keeps cfg h
  | .mapWrite => opMapWrite_keeps cfg h

end

@[simp] lemma chooseOp_fileSize (st : St σ) : (chooseOp st).2.fileSize = st.fileSize := rfl

@[simp] lemma chooseOp_fileBuff (st : St σ) : (chooseOp st).2.fileBuff = st.fileBuff := rfl

@[simp] lemma chooseOp_file (st : St σ) : (chooseOp st).2.file = st.file := rfl

lemma chooseOp_shadow {contents} {st : St σ} (h : Shadow cfg contents st) :
    Shadow cfg contents (chooseOp st).2 := h.congr rfl rfl

/-- **A run keeps the shadow.** -/
lemma runLoop_keeps : ∀ n counter (st : St (List UInt8)),
    Shadow cfg st.file st → counter ≤ cfg.opNums →
    ∃ v st', runLoop cfg posix n counter st = .ok (v, st') ∧ v ≠ some .fail ∧
      Shadow cfg st'.file st'
  | n, counter, st, h, hle => by
    unfold runLoop
    by_cases hc : counter < cfg.opNums
    · rw [if_pos hc]
      cases n with
      | zero => exact ⟨none, st, rfl, by simp, h⟩
      | succ n =>
        obtain ⟨ret, st', hop, _, h'⟩ := perform_keeps cfg (chooseOp_shadow cfg h) (chooseOp st).1
        obtain ⟨v, st'', hrun, hv, h''⟩ := runLoop_keeps n (counter + ret) st' h' (by omega)
        refine ⟨v, st'', ?_, hv, h''⟩
        simp only [hop, bind, Except.bind]
        rw [if_neg (by omega), hrun]
    · refine ⟨some (report cfg counter), st, if_neg hc, ?_, h⟩
      have : counter = cfg.opNums := by omega
      simp [report, this]

/-- **A run on such a file never reports a failure.** -/
theorem run_never_fails (n : Nat) (st : St (List UInt8)) :
    ∃ v st', run cfg posix n st = .ok (v, st') ∧ v ≠ some .fail ∧ Shadow cfg st'.file st' := by
  have hclear : ∀ buf : Mem, clear cfg buf 0 cfg.fileMaxSize =
      .ok (buf.write 0 (replicate cfg.fileMaxSize.toNat 0)) := fun buf =>
    clear_ok cfg buf 0 _ (by have := cfg.fileMaxSize_pos; omega) (by omega)
  simp only [run, hclear]
  refine runLoop_keeps cfg n 0 _ (shadow_of_getD ?_ ?_ fun i hi => ?_) ?_
  · exact (congrArg Nat.cast (length_resize st.file 0)).symm
  · have := cfg.fileMaxSize_pos
    dsimp only
    omega
  · have hin : st.fileBuff.write 0 (replicate cfg.fileMaxSize.toNat 0) (0 + i) = _ :=
      Mem.write_inside (by simp; omega) 0
    rw [Nat.zero_add] at hin
    show st.fileBuff.write 0 _ i = (Bytes.resize st.file 0).getD i 0
    rw [hin]
    simp
  · have := cfg.opNums_pos
    omega

/-- **Each operation re-establishes the relation**, reports no difference, keeps the size in its
limits and stays in its buffers. -/
theorem operation_keeps_shadow (st : St (List UInt8)) (h : Shadow cfg st.file st) (op : Op) :
    ∃ ret st', perform cfg posix op st = .ok (ret, st') ∧ ret ≠ -1 ∧ Shadow cfg st'.file st' ∧
      0 ≤ st'.fileSize ∧ st'.fileSize ≤ cfg.fileMaxSize := by
  obtain ⟨ret, st', hop, _, h'⟩ := perform_keeps cfg h op
  have hsize := h'.size
  exact ⟨ret, st', hop, by omega, h', by omega, h'.fits⟩

end Posix

/-- Options for a file of eight bytes on pages of four, aligned to two, and one operation. -/
def eightBytes : Config :=
  ⟨8, 1, 2, 2, 2, 4, true, by decide, by decide, by decide, by decide, by decide, by decide⟩

/-- Options for a file of one byte, and one operation. -/
def oneByte : Config :=
  ⟨1, 1, 1, 1, 1, 4096, true, by decide, by decide, by decide, by decide, by decide, by decide⟩

/-- A file of `n` bytes, all of them zero; `random()` always returns `r`. -/
def zeroFile (n r : Nat) : St (List UInt8) :=
  ⟨n, fun _ => 0, fun _ => 0, List.replicate n 0, fun _ => r, 0⟩

lemma zeroFile_shadow {cfg : Config} (r : Nat) (hn : (n : Int) ≤ cfg.fileMaxSize) :
    Shadow cfg (zeroFile n r).file (zeroFile n r) where
  size := by simp [zeroFile]
  fits := hn
  agree := fun i _ => by
    simp only [zeroFile, getD_eq_getElem?_getD, getElem?_replicate]
    split <;> rfl
  zero := fun _ _ _ => rfl

/-- Five bytes, of which a write changes the last three and adds one more. -/
theorem operation_keeps_shadow_write :
    ∃ ret st', perform eightBytes posix .write (zeroFile 5 3) = .ok (ret, st') ∧ ret ≠ -1 ∧
      Shadow eightBytes st'.file st' ∧ 0 ≤ st'.fileSize ∧ st'.fileSize ≤ 8 :=
  operation_keeps_shadow eightBytes (zeroFile 5 3) (zeroFile_shadow 3 (by decide)) .write

/-! ## Any kernel -/

section Detect

variable {σ : Type} (cfg : Config) (K : Kernel σ)

/-- The range that the next operation is going to read. -/
def chosenRange (st : St σ) : Except Fault FilePos := do
  let (pos, _) ← opFilePosition st.fileSize cfg.opReadAlign (chooseOp st).2
  if (chooseOp st).1 = .mapRead then opAlignPages cfg pos else return pos

/-- The bytes that the kernel supplies for the range. -/
def supplied (st : St σ) (pos : FilePos) : List UInt8 :=
  let bytes := if (chooseOp st).1 = .mapRead then K.mapped else K.read
  (bytes st.file pos.offset.toNat pos.size.toNat).take pos.size.toNat

def expected (st : St σ) (pos : FilePos) : List UInt8 :=
  st.fileBuff.read pos.offset.toNat pos.size.toNat

/-- The next operation returns -1, and the run ends with a failure. -/
def Detected (counter : Int) (st : St σ) : Prop :=
  (∃ st', perform cfg K (chooseOp st).1 (chooseOp st).2 = .ok (-1, st')) ∧
    ∀ n, ∃ st', runLoop cfg K (n + 1) counter st = .ok (some .fail, st')

lemma detected_of_perform {counter st st'} (hcounter : counter < cfg.opNums)
    (h : perform cfg K (chooseOp st).1 (chooseOp st).2 = .ok (-1, st')) :
    Detected cfg K counter st := by
  refine ⟨⟨st', h⟩, fun n => ⟨st', ?_⟩⟩
  have hne : counter ≠ cfg.opNums := by omega
  rw [runLoop, if_pos hcounter]
  simp [h, bind, Except.bind, report, hne, pure, Except.pure]

lemma not_detected_of_perform {counter st}
    (h : ∀ st', perform cfg K (chooseOp st).1 (chooseOp st).2 ≠ .ok (-1, st')) :
    ¬ Detected cfg K counter st := fun ⟨⟨st', h'⟩, _⟩ => h st' h'

/-- **Which wrong data is detected.** A read for which the kernel supplies other bytes than were
written, or too few, is reported exactly if it is no mapped read and the bytes still differ when the
missing ones are taken for zeros. -/
theorem detected_iff (contents : List UInt8) (st : St σ) (counter : Int)
    (hshadow : Shadow cfg contents st) (hne : st.fileSize ≠ 0) (hcounter : counter < cfg.opNums)
    (hop : (chooseOp st).1 = .read ∨ (chooseOp st).1 = .mapRead) :
    ∃ pos, chosenRange cfg st = .ok pos ∧ (supplied K st pos ≠ expected st pos →
        (Detected cfg K counter st ↔
          (chooseOp st).1 = .read ∧ pad pos.size.toNat (supplied K st pos) ≠ expected st pos)) := by
  have hpos : 1 ≤ (chooseOp st).2.fileSize := by
    have := hshadow.size
    rw [chooseOp_fileSize]
    omega
  have hfit : (chooseOp st).2.fileSize ≤ cfg.fileMaxSize := hshadow.fits
  rcases hop with hop | hop
  · obtain ⟨o, n, hp, -, -, _, hread⟩ := opRead_spec cfg K (chooseOp st).2 hpos hfit
    rw [chooseOp_fileSize] at hp
    refine ⟨⟨o, n⟩, ?_, fun _ => ?_⟩
    · rw [chosenRange, hp]
      simp [hop, bind, Except.bind, pure, Except.pure]
    have hsup : supplied K st ⟨o, n⟩ = (K.read st.file o n).take n := by simp [supplied, hop]
    have hperf : perform cfg K (chooseOp st).1 (chooseOp st).2 =
        opRead cfg K (chooseOp st).2 := by rw [hop]; rfl
    simp only [hop, true_and, hsup, Int.toNat_natCast, expected]
    constructor
    · intro hdet heq
      rw [← chooseOp_fileBuff, ← chooseOp_file] at heq
      refine not_detected_of_perform cfg K (fun st' h => ?_) hdet
      rw [hperf, hread, if_pos heq] at h
      simp at h
    · intro hdiff
      rw [← chooseOp_fileBuff, ← chooseOp_file] at hdiff
      rw [if_neg hdiff] at hread
      exact detected_of_perform cfg K hcounter (hperf.trans hread)
  · obtain ⟨o, n, ⟨_, hp, ha⟩, -, -, hread⟩ := opMapRead_spec cfg K (chooseOp st).2 hpos hfit
    rw [chooseOp_fileSize] at hp
    refine ⟨⟨o, n⟩, ?_, fun _ => ?_⟩
    · rw [chosenRange, hp]
      simp [hop, bind, Except.bind, ha]
    have hperf : perform cfg K (chooseOp st).1 (chooseOp st).2 =
        opMapRead cfg K (chooseOp st).2 := by rw [hop]; rfl
    refine ⟨fun hdet => absurd hdet (not_detected_of_perform cfg K fun st' h => ?_),
      fun h => absurd h.1 (by simp [hop])⟩
    rw [hperf, hread] at h
    split at h
    · cases h
    · simp at h

end Detect

/-- A kernel that supplies `bs` for every read, and ones for mapped bytes. -/
def badKernel (bs : List UInt8) : Kernel (List UInt8) :=
  { posix with read := fun _ _ _ => bs, mapped := fun _ _ n => List.replicate n 1 }

/-- Of three bytes the second is supplied wrong, and the third is missing. -/
theorem detected_iff_wrong_byte :
    supplied (badKernel [0, 1]) (zeroFile 7 10) ⟨2, 3⟩ = [0, 1] ∧
      expected (zeroFile 7 10) ⟨2, 3⟩ = [0, 0, 0] ∧
      Detected eightBytes (badKernel [0, 1]) 0 (zeroFile 7 10) := by
  obtain ⟨pos, hpos, hiff⟩ := detected_iff eightBytes (badKernel [0, 1]) _ (zeroFile 7 10) 0
    (zeroFile_shadow 10 (by decide)) (by decide) (by decide) (.inl rfl)
  obtain rfl : (⟨2, 3⟩ : _) = pos := Except.ok.inj hpos
  exact ⟨by decide, by decide, (hiff (by decide)).mpr ⟨rfl, by decide⟩⟩

/-- A run passes although the only byte of the file is supplied wrong, in a mapped read, or not at
all, in a read. -/
theorem wrong_bytes_pass : Shadow oneByte (zeroFile 1 3).file (zeroFile 1 3) ∧
      supplied (badKernel []) (zeroFile 1 3) ⟨0, 1⟩ = [1] ∧ expected (zeroFile 1 3) ⟨0, 1⟩ = [0] ∧
      (runLoop oneByte (badKernel []) 1 0 (zeroFile 1 3)).map (·.1) = .ok (some .pass) ∧
    Shadow oneByte (zeroFile 1 0).file (zeroFile 1 0) ∧
      supplied (badKernel []) (zeroFile 1 0) ⟨0, 1⟩ = [] ∧ expected (zeroFile 1 0) ⟨0, 1⟩ = [0] ∧
      (runLoop oneByte (badKernel []) 1 0 (zeroFile 1 0)).map (·.1) = .ok (some .pass) :=
  ⟨zeroFile_shadow 3 (by decide), rfl, rfl, rfl, zeroFile_shadow 0 (by decide), rfl, rfl, rfl⟩

end LtpDdt.Fsx
