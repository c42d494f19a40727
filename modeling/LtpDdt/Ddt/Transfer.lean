/-
Ddt.Transfer — tests that move data, with the results of their calls as arguments:
`st_audio_file_capture`
(`testcases/ddt/alsa_test_suite/src/testcases/st_alsa_capture_file_test.c`) with `st_audio_read`
and `st_write`, and `st_filesystem_performance_write_test`
(`testcases/ddt/filesystem_test_suite/src/testcases/st_filesystem_write_to_file.c`).

* A descriptor that was closed cannot be closed again: the second `close` returns -1.
* Behind the end of a mapped file its last page is filled up with zeros; a `write` does not get
  further than that.
-/
import Mathlib.Data.BitVec

namespace LtpDdt.Ddt

open List

/-! ## `st_audio_file_capture` -/

/-- What the calls for one period return. `reprepare` and `readiAgain` follow `-EIO`,
`prepare` an overrun. -/
structure Period where
  readi : Int
  reprepare : Int := 0
  readiAgain : Int := 0
  prepare : Int := 0
  write : Int

/-- The frames that `st_audio_read` gets, negative for none. -/
def Period.frames (p : Period) : Int :=
  if p.readi = -5 then if p.reprepare < 0 then -1 else p.readiAgain else p.readi

def runError : Int := -3

/-- `-EPIPE` is the overrun; a short read is a success. -/
def stAudioRead (p : Period) : Int :=
  if p.readi = -32 then runError else if p.frames < 0 then -1 else 0

structure Device where
  /-- the bytes of a period, `none` for `FAILURE` -/
  size : Option Nat
  /-- `frames_capture` -/
  frames : Nat
  malloc : Bool
  fdAudio : Int
  period : Nat → Period
  /-- what `close` returns for an open file -/
  close : Int
  size_pos : ∀ n ∈ size, 0 < n

/-- The variables of the loop, and how many periods were captured. -/
structure Capture where
  rc : Int := 0
  /-- whether `fd_audio` is open -/
  opened : Bool := true
  captured : Nat := 0

/-- Whether a period was read as a whole, as a number. -/
def Device.counts (d : Device) (p : Period) : Nat := if p.frames = d.frames then 1 else 0

variable (d : Device) (size : Nat)

/-- The rounds from period `k` on. -/
def captureLoop : Nat → Nat → Capture → Capture
  | 0, _, c => c
  | loops + 1, k, c =>
    let p := d.period k
    if stAudioRead p = runError ∧ p.prepare < 0 then { c with rc := -1 } -- goto close_file
    -- goto drain; `st_write` has closed the file
    else if p.write ≠ size then { c with rc := -1, opened := false }
    else captureLoop loops (k + 1)
      { c with rc := p.write, captured := c.captured + d.counts p }

/-- The return value, and the periods that were captured. -/
def stAudioFileCapture (totalSize : Nat) : Int × Nat :=
  match d.size with
  | none => (-1, 0)
  | some size =>
    if d.malloc = false ∨ d.fdAudio = -1 then (-1, 0)
    else
      let c := captureLoop d size (totalSize / size) 0 {}
      -- close_file: the result of `close` replaces what is in `rc`
      let c := { c with rc := if c.opened then d.close else -1 }
      (if c.rc = -1 then -1 else c.rc, c.captured)

/-- A write falls short in one of the periods from `k` on, and no overrun that cannot be repaired
comes before it. -/
def ShortWrite (loops k : Nat) : Prop :=
  ∃ i < loops, (d.period (k + i)).write ≠ size ∧
    ∀ j ≤ i, stAudioRead (d.period (k + j)) = runError → 0 ≤ (d.period (k + j)).prepare

variable {d size} {loops k : Nat} {c : Capture}

/-- A period without an error before it passes the question on to the next ones. -/
lemma shortWrite_succ (hw : (d.period k).write = size)
    (hp : stAudioRead (d.period k) = runError → 0 ≤ (d.period k).prepare) :
    ShortWrite d size (loops + 1) k ↔ ShortWrite d size loops (k + 1) := by
  constructor
  · rintro ⟨_ | i, hi, hshort, hprep⟩
    · exact absurd hw hshort
    · refine ⟨i, by omega, by rwa [Nat.add_right_comm], fun j hj => ?_⟩
      rw [Nat.add_right_comm]
      exact hprep (j + 1) (by omega)
  · rintro ⟨i, hi, hshort, hprep⟩
    refine ⟨i + 1, by omega, by rwa [Nat.add_right_comm] at hshort, ?_⟩
    rintro (_ | j) hj
    · exact hp
    · rw [← Nat.add_assoc, Nat.add_right_comm]
      exact hprep j (by omega)

/-- The file is closed inside of the loop just if a write falls short. -/
lemma captureLoop_opened (hc : c.opened) :
    (captureLoop d size loops k c).opened = false ↔ ShortWrite d size loops k := by
  induction loops generalizing k c with
  | zero => simp [captureLoop, hc, ShortWrite]
  | succ loops ih =>
    rw [captureLoop]
    split_ifs with hprep hshort
    · refine iff_of_false (by simp [hc]) ?_
      rintro ⟨i, -, -, hj⟩
      have := hj 0 (by omega) hprep.1
      simp only [Nat.add_zero] at this
      omega
    · refine iff_of_true rfl ⟨0, by omega, hshort, fun j hj hrun => ?_⟩
      rw [Nat.le_zero.mp hj] at hrun ⊢
      exact not_lt.mp fun hlt => hprep ⟨hrun, hlt⟩
    · rw [not_not] at hshort
      rw [shortWrite_succ hshort fun hrun => not_lt.mp fun hlt => hprep ⟨hrun, hlt⟩]
      exact ih hc

/-- A period that is read is no overrun. -/
lemma stAudioRead_ne_runError (h : (d.period k).frames = d.frames) :
    stAudioRead (d.period k) ≠ runError := by
  unfold Period.frames at h
  unfold stAudioRead runError
  split_ifs at h ⊢ <;> omega

/-- If no write falls short, every period is captured just if every one is read. -/
lemma captureLoop_captured (hc : c.opened) (hshort : ¬ ShortWrite d size loops k) :
    (captureLoop d size loops k c).captured ≤ c.captured + loops ∧
    ((captureLoop d size loops k c).captured = c.captured + loops ↔
      ∀ i < loops, (d.period (k + i)).frames = d.frames) := by
  induction loops generalizing k c with
  | zero => simp [captureLoop]
  | succ loops ih =>
    rw [captureLoop, Nat.forall_lt_succ_left]
    simp only [Nat.add_zero, ← Nat.add_assoc, Nat.add_right_comm k _ 1]
    split_ifs with hprep hw
    · refine ⟨by dsimp only; omega, iff_of_false (by dsimp only; omega) fun h => ?_⟩
      exact stAudioRead_ne_runError h.1 hprep.1
    · refine absurd ((captureLoop_opened hc).mp ?_) hshort
      rw [captureLoop, if_neg hprep, if_pos hw]
    · rw [not_not] at hw
      rw [shortWrite_succ hw fun hrun => not_lt.mp fun hlt => hprep ⟨hrun, hlt⟩] at hshort
      obtain ⟨hle, hiff⟩ :=
        ih (c := ⟨(d.period k).write, c.opened, c.captured + d.counts (d.period k)⟩) hc hshort
      dsimp only at hle hiff
      rw [← hiff]
      by_cases hread : (d.period k).frames = d.frames
      · rw [Device.counts, if_pos hread] at hle ⊢
        exact ⟨by omega, by simp only [hread, true_and]; omega⟩
      · rw [Device.counts, if_neg hread] at hle ⊢
        exact ⟨by omega, iff_of_false (by omega) fun h => hread h.1⟩

/-- **Success means a capture** just if the file is not opened or not closed, a write falls short
before an overrun that cannot be repaired, or all periods are read. -/
theorem stAudioFileCapture_right_iff (d : Device) (totalSize : Nat) :
    ((stAudioFileCapture d totalSize).1 = 0 → ∃ size ∈ d.size,
      (stAudioFileCapture d totalSize).2 = totalSize / size) ↔
    ∀ size ∈ d.size, d.malloc → d.fdAudio ≠ -1 → d.close = 0 →
      ShortWrite d size (totalSize / size) 0 ∨
        ∀ i < totalSize / size, (d.period i).frames = d.frames := by
  cases hsize : d.size with
  | none => simp [stAudioFileCapture, hsize]
  | some size =>
    simp only [stAudioFileCapture, hsize, Option.mem_some_iff, exists_eq_left', forall_eq']
    by_cases hopen : d.malloc = false ∨ d.fdAudio = -1
    · rw [if_pos hopen]
      rcases hopen with hopen | hopen <;> simp [hopen]
    rw [if_neg hopen]
    rw [not_or, Bool.not_eq_false] at hopen
    simp only [hopen.1, ne_eq, hopen.2, not_false_eq_true, forall_const]
    by_cases hshort : ShortWrite d size (totalSize / size) 0
    · simp [(captureLoop_opened (c := {}) rfl).mpr hshort, hshort]
    · have hcap := (captureLoop_captured (c := {}) rfl hshort).2
      have hopened : (captureLoop d size (totalSize / size) 0 {}).opened = true := by
        rwa [← captureLoop_opened (c := {}) rfl, Bool.not_eq_false] at hshort
      simp only [Nat.zero_add] at hcap
      simp only [hopened, if_true, hcap, hshort, false_or]
      split_ifs with hclose
      · simp [hclose]
      · rfl

/-- The read of the first of two periods fails, which is seen nowhere. -/
theorem stAudioFileCapture_unread : stAudioFileCapture
    { size := some 4, frames := 1, malloc := true, fdAudio := 3, close := 0
      size_pos := fun _ h => Option.some_inj.1 h ▸ Nat.succ_pos 3
      period := fun k => { readi := if k = 0 then -1 else 1, write := 4 } } 8 = (0, 1) := by
  decide

/-! ## `st_filesystem_performance_write_test` -/

/-- What the system calls return, `write` for each time it is called. -/
structure WriteCalls where
  openSrc : Int
  mmap : Bool
  openDst : Int
  write : Nat → Int
  fsync : Int
  close : Int

/-- The sizes of the test in bytes, with that of a page. -/
structure Sizes where
  totalsize : Nat
  srcfileSize : Nat
  bsize : Nat
  page : Nat
  totalsize_pos : 0 < totalsize
  srcfileSize_pos : 0 < srcfileSize
  bsize_pos : 0 < bsize

structure WriteRun where
  result : Int
  dst : List UInt8 := []
  opened : List Int := []
  closed : List Int := []

/-- What can be read of the mapped source: its last page is filled up with zeros. -/
def Sizes.mapped (z : Sizes) (src : List UInt8) : List UInt8 :=
  src ++ replicate ((z.page - src.length % z.page) % z.page) 0

/-- Where the writes of one copy start, and their lengths. -/
def Sizes.copyBlocks (z : Sizes) : List (Nat × Nat) :=
  let loopcount := z.srcfileSize / z.bsize
  let remainder := z.srcfileSize % z.bsize
  (range loopcount).map (fun i => (i * z.bsize, z.bsize)) ++
    if remainder ≠ 0 then [(loopcount * z.bsize, remainder)] else []

/-- The writes of all copies. -/
def Sizes.blocks (z : Sizes) : List (Nat × Nat) :=
  (replicate (z.totalsize / z.srcfileSize) z.copyBlocks).flatten

/-- What arrives, and whether all of it does. -/
def writeBlocks (write : Nat → Int) (mem : List UInt8) :
    List (Nat × Nat) → Nat → List UInt8 × Bool
  | [], _ => ([], true)
  | (off, len) :: blocks, k =>
    let data := (mem.drop off).take len
    let writeRet := min (write k) data.length
    if writeRet ≠ len then (data.take writeRet.toNat, false) -- goto close_file
    else
      let (dst, ok) := writeBlocks write mem blocks (k + 1)
      (data ++ dst, ok)

variable (calls : WriteCalls) (z : Sizes) (src : List UInt8)

/-- The run of the test; `result` is `SUCCESS` until something sets it. -/
def stFilesystemPerformanceWriteTest : WriteRun :=
  if z.totalsize % z.srcfileSize ≠ 0 ∨ calls.openSrc = -1 then { result := -1 }
  else if !calls.mmap then { result := 0, opened := [calls.openSrc] }
  else if calls.openDst = -1 then { result := -1, opened := [calls.openSrc] }
  else
    let (dst, ok) := writeBlocks calls.write (z.mapped src) z.blocks 0
    ⟨if ok ∧ calls.fsync ≠ -1 ∧ calls.close ≠ -1 then 0 else -1, dst,
      [calls.openSrc, calls.openDst], [calls.openDst]⟩

/-- The destination is opened, synced and closed, the mapping is long enough and no write falls
short. -/
def Written : Prop :=
  calls.openDst ≠ -1 ∧ calls.fsync ≠ -1 ∧ calls.close ≠ -1 ∧
    z.srcfileSize ≤ (z.mapped src).length ∧
    ∀ i off len : Nat, z.blocks[i]? = some (off, len) → len ≤ calls.write i

variable {calls z src} {write : Nat → Int} {mem : List UInt8} {blocks : List (Nat × Nat)} {k : Nat}

/-- All writes are complete just if each one is, and the bytes it takes are there. -/
lemma writeBlocks_ok_iff : (writeBlocks write mem blocks k).2 = true ↔
    ∀ i off len : Nat, blocks[i]? = some (off, len) →
      len ≤ write (k + i) ∧ len ≤ mem.length - off := by
  induction blocks generalizing k with
  | nil => simp [writeBlocks]
  | cons block blocks ih =>
    obtain ⟨off, len⟩ := block
    have hlen : ((mem.drop off).take len).length = min len (mem.length - off) := by simp
    have htail : (∀ i off' len' : Nat, ((off, len) :: blocks)[i]? = some (off', len') →
        len' ≤ write (k + i) ∧ len' ≤ mem.length - off') ↔
        (len ≤ write k ∧ len ≤ mem.length - off) ∧
          (writeBlocks write mem blocks (k + 1)).2 = true := by
      rw [ih]
      constructor
      · intro h
        refine ⟨h 0 off len rfl, fun i off' len' hi => ?_⟩
        have := h (i + 1) off' len' hi
        rwa [← Nat.add_assoc, Nat.add_right_comm] at this
      · rintro ⟨hhead, h⟩ (_ | i) off' len' hi
        · cases hi
          exact hhead
        · rw [← Nat.add_assoc, Nat.add_right_comm]
          exact h i off' len' hi
    rw [htail, writeBlocks]
    dsimp only
    rw [hlen]
    split_ifs with hret
    · exact iff_of_false (by simp) fun h => hret (by omega)
    · exact (and_iff_right (by omega)).symm

/-- Complete writes leave the concatenated blocks. -/
lemma writeBlocks_complete (h : (writeBlocks write mem blocks k).2) :
    (writeBlocks write mem blocks k).1 =
      (blocks.map fun b => (mem.drop b.1).take b.2).flatten := by
  induction blocks generalizing k with
  | nil => rfl
  | cons block blocks ih =>
    rw [writeBlocks] at h ⊢
    split_ifs at h ⊢ with hk
    exact congrArg ((mem.drop block.1).take block.2 ++ ·) (ih h)

/-- The blocks of a copy are the first `srcfile_size` bytes. -/
lemma copyBlocks_flatten :
    (z.copyBlocks.map fun b => (mem.drop b.1).take b.2).flatten = mem.take z.srcfileSize := by
  have hloop (n) : ((range n).map fun i => (mem.drop (i * z.bsize)).take z.bsize).flatten =
      mem.take (n * z.bsize) := by
    induction n with
    | zero => simp
    | succ n ih =>
      rw [range_succ, map_append, flatten_append, ih, Nat.succ_mul, take_add]
      simp
  rw [Sizes.copyBlocks, map_append, flatten_append, map_map]
  refine (congrArg (· ++ _) (hloop _)).trans ?_
  conv => rhs; rw [← Nat.div_add_mod' z.srcfileSize z.bsize, take_add]
  split_ifs with h
  · simp
  · simp [not_not.1 h]

/-- Every block of a copy ends inside of it and is not empty, and one is at its end. -/
lemma copyBlocks_bounds : (∀ b ∈ z.copyBlocks, 0 < b.2 ∧ b.1 + b.2 ≤ z.srcfileSize) ∧
    ∃ b ∈ z.copyBlocks, b.1 + b.2 = z.srcfileSize := by
  have hdiv := Nat.div_add_mod' z.srcfileSize z.bsize
  have hpos := z.bsize_pos
  constructor
  · intro b hb
    rw [Sizes.copyBlocks, mem_append, mem_map] at hb
    rcases hb with ⟨i, hi, rfl⟩ | hb
    · have := Nat.mul_le_mul_right z.bsize (Nat.succ_le_of_lt (mem_range.mp hi))
      rw [Nat.succ_mul] at this
      exact ⟨hpos, by dsimp only; omega⟩
    · split_ifs at hb with hrem
      · rw [mem_singleton.mp hb]
        exact ⟨Nat.pos_of_ne_zero hrem, hdiv.le⟩
      · simp at hb
  · by_cases hrem : z.srcfileSize % z.bsize = 0
    · have hloop : 0 < z.srcfileSize / z.bsize := by
        refine Nat.pos_of_ne_zero fun h => ?_
        have := z.srcfileSize_pos
        rw [h, Nat.zero_mul] at hdiv
        omega
      obtain ⟨n, hn⟩ := Nat.exists_eq_succ_of_ne_zero hloop.ne'
      refine ⟨(n * z.bsize, z.bsize), ?_, ?_⟩
      · rw [Sizes.copyBlocks, mem_append, mem_map]
        exact .inl ⟨n, mem_range.mpr (by omega), rfl⟩
      · rw [hn, Nat.succ_mul] at hdiv
        dsimp only
        omega
    · refine ⟨(z.srcfileSize / z.bsize * z.bsize, z.srcfileSize % z.bsize), ?_, hdiv⟩
      simp [Sizes.copyBlocks, hrem]

/-- At least one copy is written. -/
lemma copies_ne_zero (hdvd : z.totalsize % z.srcfileSize = 0) :
    z.totalsize / z.srcfileSize ≠ 0 := by
  intro h
  have hdiv := Nat.div_add_mod' z.totalsize z.srcfileSize
  rw [h, hdvd, Nat.zero_mul] at hdiv
  exact z.totalsize_pos.ne hdiv

/-- All blocks can be read just if a copy can. -/
lemma blocks_mapped_iff (hdvd : z.totalsize % z.srcfileSize = 0) :
    (∀ i off len : Nat, z.blocks[i]? = some (off, len) → len ≤ mem.length - off) ↔
      z.srcfileSize ≤ mem.length := by
  have hcopies := copies_ne_zero hdvd
  have hblocks : ∀ b, b ∈ z.blocks ↔ b ∈ z.copyBlocks := by
    simp [Sizes.blocks, mem_flatten, mem_replicate, hcopies]
  obtain ⟨hle, b, hb, hend⟩ := copyBlocks_bounds (z := z)
  constructor
  · intro h
    obtain ⟨i, hi⟩ := mem_iff_getElem?.mp ((hblocks b).mpr hb)
    have := h i b.1 b.2 hi
    have := (hle b hb).1
    omega
  · intro h i off len hi
    have := hle _ ((hblocks (off, len)).mp (mem_of_getElem? hi))
    dsimp only at this
    omega

/-- With a mapped source, the test succeeds just if everything is written. -/
lemma result_eq_zero_iff (hdvd : z.totalsize % z.srcfileSize = 0) (hopen : calls.openSrc ≠ -1)
    (hmmap : calls.mmap = true) :
    (stFilesystemPerformanceWriteTest calls z src).result = 0 ↔ Written calls z src := by
  have hok := @writeBlocks_ok_iff calls.write (z.mapped src) z.blocks 0
  simp only [Nat.zero_add, forall_and] at hok
  rw [blocks_mapped_iff hdvd] at hok
  rw [stFilesystemPerformanceWriteTest, if_neg (by simp [hdvd, hopen]), if_neg (by simp [hmmap]),
    Written]
  split_ifs with hdst
  · simp [hdst]
  · dsimp only
    split_ifs with hall
    · obtain ⟨hwrite, hlen⟩ := hok.mp hall.1
      exact iff_of_true rfl ⟨hdst, hall.2.1, hall.2.2, hlen, hwrite⟩
    · refine iff_of_false (by decide) ?_
      rintro ⟨-, hfsync, hclose, hlen, hwrite⟩
      exact hall ⟨hok.mpr ⟨hwrite, hlen⟩, hfsync, hclose⟩

/-- What a successful test leaves in the destination. -/
lemma dst_of_result_eq_zero (hdvd : z.totalsize % z.srcfileSize = 0) (hopen : calls.openSrc ≠ -1)
    (hmmap : calls.mmap = true)
    (hres : (stFilesystemPerformanceWriteTest calls z src).result = 0) :
    (stFilesystemPerformanceWriteTest calls z src).dst =
      (replicate (z.totalsize / z.srcfileSize) ((z.mapped src).take z.srcfileSize)).flatten := by
  rw [stFilesystemPerformanceWriteTest, if_neg (by simp [hdvd, hopen]),
    if_neg (by simp [hmmap])] at hres ⊢
  by_cases hdst : calls.openDst = -1
  · simp [hdst] at hres
  rw [if_neg hdst] at hres ⊢
  dsimp only at hres ⊢
  split_ifs at hres with hok
  rw [writeBlocks_complete hok.1, Sizes.blocks, map_flatten, map_replicate, flatten_flatten,
    map_replicate, copyBlocks_flatten]

/-- **Success means the copies** just if the source is not opened, or it is mapped and has the
bytes of a copy or not everything is written; **what is opened is never all closed**. -/
theorem writeTest_right_iff (calls : WriteCalls) (z : Sizes) (src : List UInt8) :
    let run := stFilesystemPerformanceWriteTest calls z src
    let unopened := z.totalsize % z.srcfileSize ≠ 0 ∨ calls.openSrc = -1
    ((run.result = 0 → z.srcfileSize ≤ src.length ∧
        run.dst = (replicate (z.totalsize / z.srcfileSize) (src.take z.srcfileSize)).flatten) ↔
      unopened ∨ calls.mmap = true ∧ (z.srcfileSize ≤ src.length ∨ ¬ Written calls z src)) ∧
    (run.closed = run.opened ↔ unopened) := by
  intro run unopened
  by_cases hun : unopened
  · have hrun : run = { result := -1 } := if_pos hun
    simp [hrun, hun]
  have hrun : run = stFilesystemPerformanceWriteTest calls z src := rfl
  obtain ⟨hdvd, hopen⟩ : z.totalsize % z.srcfileSize = 0 ∧ calls.openSrc ≠ -1 := by
    simpa only [unopened, not_or, not_not] using hun
  refine ⟨?_, iff_of_false ?_ hun⟩
  · by_cases hmmap : calls.mmap = true
    · rw [hrun, result_eq_zero_iff hdvd hopen hmmap]
      simp only [hun, hmmap, true_and, false_or]
      constructor
      · exact fun h => (em (Written calls z src)).imp (fun hw => (h hw).1) id
      · intro h hw
        have hlen := h.resolve_right (not_not.mpr hw)
        refine ⟨hlen, ?_⟩
        rw [dst_of_result_eq_zero hdvd hopen hmmap ((result_eq_zero_iff hdvd hopen hmmap).mpr hw),
          Sizes.mapped, take_append_of_le_length hlen]
    · refine iff_of_false (fun h => ?_) (by simp [hun, hmmap])
      rw [hrun, stFilesystemPerformanceWriteTest, if_neg hun, if_pos (by simpa using hmmap)] at h
      obtain ⟨hlen, hdst⟩ := h rfl
      have hempty := congrArg length hdst
      have := copies_ne_zero hdvd
      have := z.srcfileSize_pos
      simp_all
  · rw [hrun, stFilesystemPerformanceWriteTest, if_neg hun]
    split_ifs <;> simp

/-- Nothing is written. -/
theorem writeTest_unmapped :
    stFilesystemPerformanceWriteTest ⟨3, false, 4, fun _ => 0, 0, 0⟩
      ⟨1048576, 1048576, 4096, 4096, by decide, by decide, by decide⟩ [] = ⟨0, [], [3], []⟩ :=
  rfl

end LtpDdt.Ddt
