/-
Fsx.Ops — the file system exerciser `testcases/kernel/fs/fsx-linux/fsx-linux.c`.

* The file system is a record of operations (`Kernel`) on a state that the program does
  not see. System calls do not fail; how many bytes a read returns, and which, is up to
  the kernel.
* The results of `random()` are a sequence given with the state.
* Faults are: an access outside of `file_buff` or `temp_buff`, a division by zero, the
  use of the variable that `memory_compare` does not set for an empty range, a mapping
  that `mmap` refuses, and an access to mapped pages that the file does not back.
* The options are those that `setup` accepts.
* Offset and size sum up to less than the largest file size: `long long` is an integer.

Positions are inside of their range (`opFilePosition_spec`), also when moved to
a page (`opAlignPages_spec`), so no operation leaves its buffers, and each has
one equation, for any kernel. `op_read` compares with what it has read, filled up
with zeros, `op_map_read` with a copy that it has just made.
-/
import LtpDdt.Bytes.Mem
import LtpDdt.Bytes.File
import LtpDdt.CTypes.Ints

namespace LtpDdt.Fsx

open Bytes CTypes

/-! ## State -/

/-- The options after `setup`, and what depends on the platform. -/
structure Config where
  fileMaxSize : Int
  opNums : Int
  opWriteAlign : Int
  opReadAlign : Int
  opTruncAlign : Int
  pageSize : Int
  charSigned : Bool
  fileMaxSize_pos : 1 ≤ fileMaxSize
  opNums_pos : 1 ≤ opNums
  opWriteAlign_pos : 1 ≤ opWriteAlign
  opReadAlign_pos : 1 ≤ opReadAlign
  opTruncAlign_pos : 1 ≤ opTruncAlign
  pageSize_pos : 1 ≤ pageSize

inductive Fault where
  | outside
  | division
  | uninitialized
  | mapping
  | bus
  deriving DecidableEq

/-- The file system: `mapped` gives the bytes behind a mapping, `store` writes through one. -/
structure Kernel (σ : Type) where
  read : σ → Nat → Nat → List UInt8
  write : σ → Nat → List UInt8 → σ
  ftruncate : σ → Nat → σ
  mapped : σ → Nat → Nat → List UInt8
  store : σ → Nat → List UInt8 → σ

/-- A file that is an array of bytes. -/
def posix : Kernel (List UInt8) where
  read := slice
  write := overwrite
  ftruncate := resize
  mapped := slice
  store := overwrite

structure St (σ : Type) where
  fileSize : Int
  fileBuff : Mem
  tempBuff : Mem
  file : σ
  /-- the results of `random()`, and how many were taken -/
  randoms : Nat → Nat
  taken : Nat

/-- `struct file_pos_t` -/
structure FilePos where
  offset : Int
  size : Int
  deriving DecidableEq

variable {σ : Type}

def random (st : St σ) : Nat × St σ := (st.randoms st.taken, { st with taken := st.taken + 1 })

/-- `a % b` -/
def modulo (a b : Int) : Except Fault Int :=
  if b = 0 then .error .division else .ok (a.tmod b)

variable (cfg : Config) (K : Kernel σ)

/-! ## Positions -/

def opAlignPages (pos : FilePos) : Except Fault FilePos := do
  let pgOffset ← modulo pos.offset cfg.pageSize
  return ⟨pos.offset - pgOffset, pos.size + pgOffset⟩

def opFilePosition (fsize align : Int) (st : St σ) : Except Fault (FilePos × St σ) := do
  let (r, st) := random st
  let offset ← modulo r fsize
  let (r, st) := random st
  let size ← modulo r (fsize - offset)
  let diff ← modulo offset align
  let pos : FilePos := if diff ≠ 0 then ⟨offset - diff, size + diff⟩ else ⟨offset, size⟩
  return (if pos.size = 0 then { pos with size := 1 } else pos, st)

def updateFileSize (pos : FilePos) (st : St σ) : St σ :=
  if pos.offset + pos.size > st.fileSize then { st with fileSize := pos.offset + pos.size } else st

/-! ## Comparison -/

/-- The loop, with the value `diff` has before. -/
def compareLoop (signed : Bool) : Int → List UInt8 → List UInt8 → Int
  | _, x :: xs, y :: ys =>
    let diff := charVal signed x - charVal signed y
    if diff ≠ 0 then diff else compareLoop signed diff xs ys
  | diff, _, _ => diff

/-- For an empty range `diff` is not set. -/
def memoryCompare (signed : Bool) : List UInt8 → List UInt8 → Except Fault Int
  | [], _ => .error .uninitialized
  | a, b => .ok (compareLoop signed 0 a b)

/-! ## Operations

An operation returns its result and the state: -1 for a difference, 0 if it
was skipped, and else 1. -/

/-- `file_buff` or `temp_buff`, from `pos` on -/
def blockOf (buf : Mem) (pos len : Int) : Except Fault (List UInt8) :=
  buf.readIn .outside cfg.fileMaxSize pos len

def copyTo (buf : Mem) (pos : Int) (bs : List UInt8) : Except Fault Mem :=
  buf.writeIn .outside cfg.fileMaxSize pos bs

/-- `memset` to 0 -/
def clear (buf : Mem) (pos len : Int) : Except Fault Mem :=
  copyTo cfg buf pos (List.replicate len.toNat 0)

/-- `mmap` refuses empty mappings and offsets inside of a page. -/
def mmap (pos : FilePos) : Except Fault Unit :=
  if 0 < pos.size ∧ pos.offset % cfg.pageSize = 0 then .ok () else .error .mapping

/-- The mapped bytes, all of which are accessed. -/
def mappedBytes (f : σ) (pos : FilePos) : Except Fault (List UInt8) :=
  let bs := (K.mapped f pos.offset.toNat pos.size.toNat).take pos.size.toNat
  if (bs.length : Int) < pos.size then .error .bus else .ok bs

variable (st : St σ)

/-- `op_read` behind its position -/
def readAt (pos : FilePos) : Except Fault (Int × St σ) := do
  let temp ← clear cfg st.tempBuff 0 cfg.fileMaxSize
  -- the read may use the whole range that it is given
  let _ ← blockOf cfg temp 0 pos.size
  let temp ← copyTo cfg temp 0
    ((K.read st.file pos.offset.toNat pos.size.toNat).take pos.size.toNat)
  let a ← blockOf cfg st.fileBuff pos.offset pos.size
  let b ← blockOf cfg temp 0 pos.size
  let ret ← memoryCompare cfg.charSigned a b
  return (if ret ≠ 0 then -1 else 1, { st with tempBuff := temp })

def opRead : Except Fault (Int × St σ) :=
  if st.fileSize = 0 then .ok (0, st)
  else do
    let (pos, st) ← opFilePosition st.fileSize cfg.opReadAlign st
    readAt cfg K st pos

/-- A letter, from `first` on. -/
def letter (first : Char) (r : Nat) : UInt8 := UInt8.ofNat (r % 10 + first.toNat)

/-- The loop of `op_write`: `n` rounds are left. -/
def writeLoop (offset : Int) : Nat → Int → St σ → Except Fault (St σ)
  | 0, _, st => .ok st
  | n + 1, i, st => do
      let (r, st) := random st
      let data := letter 'a' r
      let fileBuff ← copyTo cfg st.fileBuff (offset + i) [data]
      let tempBuff ← copyTo cfg st.tempBuff i [data]
      writeLoop offset n (i + 1) { st with fileBuff := fileBuff, tempBuff := tempBuff }

/-- `op_write` behind its position -/
def writeAt (pos : FilePos) : Except Fault (Int × St σ) := do
  let st ← writeLoop cfg pos.offset pos.size.toNat 0 st
  let bs ← blockOf cfg st.tempBuff 0 pos.size
  return (1, updateFileSize pos { st with file := K.write st.file pos.offset.toNat bs })

def opWrite : Except Fault (Int × St σ) :=
  if st.fileSize ≥ cfg.fileMaxSize then .ok (0, st)
  else do
    let (pos, st) ← opFilePosition cfg.fileMaxSize cfg.opWriteAlign st
    writeAt cfg K st pos

/-- `op_truncate` behind its position -/
def truncateAt (pos : FilePos) : Except Fault (Int × St σ) := do
  let fileSize := pos.offset + pos.size
  let fileBuff ← clear cfg st.fileBuff fileSize (cfg.fileMaxSize - fileSize)
  return (1, { st with
    fileSize := fileSize, file := K.ftruncate st.file fileSize.toNat, fileBuff := fileBuff })

def opTruncate : Except Fault (Int × St σ) := do
  let (pos, st) ← opFilePosition cfg.fileMaxSize cfg.opTruncAlign st
  truncateAt cfg K st pos

/-- `op_map_read` behind its position. The mapped bytes are copied into `file_buff` before they are
compared with it. -/
def mapReadAt (pos : FilePos) : Except Fault (Int × St σ) := do
  mmap cfg pos
  let addr ← mappedBytes K st.file pos
  let fileBuff ← copyTo cfg st.fileBuff pos.offset addr
  let b ← blockOf cfg fileBuff pos.offset pos.size
  let ret ← memoryCompare cfg.charSigned addr b
  return (if ret ≠ 0 then -1 else 1, { st with fileBuff := fileBuff })

def opMapRead : Except Fault (Int × St σ) :=
  if st.fileSize = 0 then .ok (0, st)
  else do
    let (pos, st) ← opFilePosition st.fileSize cfg.opReadAlign st
    let pos ← opAlignPages cfg pos
    mapReadAt cfg K st pos

/-- The loop of `op_map_write`. -/
def mapWriteLoop (offset : Int) : Nat → Int → St σ → Except Fault (St σ)
  | 0, _, st => .ok st
  | n + 1, i, st => do
      let (r, st) := random st
      let fileBuff ← copyTo cfg st.fileBuff (offset + i) [letter 'l' r]
      mapWriteLoop offset n (i + 1) { st with fileBuff := fileBuff }

/-- `op_map_write` behind its position -/
def mapWriteAt (pos : FilePos) : Except Fault (Int × St σ) := do
  let st :=
    if st.fileSize < pos.offset + pos.size then
      { st with file := K.ftruncate st.file (pos.offset + pos.size).toNat }
    else st
  let st ← mapWriteLoop cfg pos.offset pos.size.toNat 0 st
  mmap cfg pos
  let bs ← blockOf cfg st.fileBuff pos.offset pos.size
  let _ ← mappedBytes K st.file pos
  return (1, updateFileSize pos { st with file := K.store st.file pos.offset.toNat bs })

def opMapWrite : Except Fault (Int × St σ) :=
  if st.fileSize ≥ cfg.fileMaxSize then .ok (0, st)
  else do
    let (pos, st) ← opFilePosition cfg.fileMaxSize cfg.opWriteAlign st
    let pos ← opAlignPages cfg pos
    mapWriteAt cfg K st pos

/-! ## Runs -/

inductive Op where
  | read
  | write
  | truncate
  | mapRead
  | mapWrite
  deriving DecidableEq

def opTotal : Nat := 5

def chooseOp : Op × St σ :=
  let (r, st) := random st
  (match r % opTotal with
    | 1 => .write
    | 2 => .truncate
    | 3 => .mapRead
    | 4 => .mapWrite
    | _ => .read, st)

def perform : Op → St σ → Except Fault (Int × St σ)
  | .read => opRead cfg K
  | .write => opWrite cfg K
  | .truncate => opTruncate cfg K
  | .mapRead => opMapRead cfg K
  | .mapWrite => opMapWrite cfg K

inductive Verdict where
  | fail
  | pass
  deriving DecidableEq

def report (counter : Int) : Verdict := if counter ≠ cfg.opNums then .fail else .pass

/-- The loop of `run` and the report. Skipped operations do not count; `none` if the loop is not
done after `n` rounds. -/
def runLoop : Nat → Int → St σ → Except Fault (Option Verdict × St σ)
  | n, counter, st =>
    if counter < cfg.opNums then
      match n with
      | 0 => .ok (none, st)
      | n + 1 => do
          let (op, st) := chooseOp st
          let (ret, st) ← perform cfg K op st
          if ret = -1 then return (some (report cfg counter), st)
          else runLoop n (counter + ret) st
    else .ok (some (report cfg counter), st)

def run (n : Nat) (st : St σ) : Except Fault (Option Verdict × St σ) := do
  let fileBuff ← clear cfg st.fileBuff 0 cfg.fileMaxSize
  let tempBuff ← clear cfg st.tempBuff 0 cfg.fileMaxSize
  let st : St σ := { st with
    fileSize := 0, fileBuff := fileBuff, tempBuff := tempBuff, file := K.ftruncate st.file 0 }
  runLoop cfg K n 0 st

open List Int

variable {bs : List UInt8} {n : Nat}

/-! ## Positions in range -/

lemma modulo_spec {a b} (ha : 0 ≤ a) (hb : 1 ≤ b) :
    ∃ r : Nat, modulo a b = .ok (r : Int) ∧ (r : Int) = a % b ∧ (r : Int) < b ∧ (r : Int) ≤ a := by
  have hmod : a.tmod b = a % b := Int.tmod_eq_emod_of_nonneg ha
  have h0 : 0 ≤ a % b := Int.emod_nonneg _ (by omega)
  have hlt : a % b < b := Int.emod_lt_of_pos _ (by omega)
  have hle : a % b ≤ a := by
    have := Int.mul_nonneg (show 0 ≤ b by omega) (Int.ediv_nonneg ha (show 0 ≤ b by omega))
    rw [Int.emod_def]
    omega
  refine ⟨(a % b).toNat, ?_, by omega, by omega, by omega⟩
  rw [modulo, if_neg (by omega), hmod, Int.toNat_of_nonneg h0]

section Positions

variable {σ : Type} (cfg : Config)

/-- What `op_file_position` makes of two random numbers. -/
lemma opFilePosition_eq {fsize align} (hf : 1 ≤ fsize) (ha : 1 ≤ align) (st : St σ) :
    ∃ o n d : Nat, (o : Int) = st.randoms st.taken % fsize ∧
      (n : Int) = st.randoms (st.taken + 1) % (fsize - o) ∧ (d : Int) = o % align ∧ d ≤ o ∧
      (o : Int) + n < fsize ∧ opFilePosition fsize align st =
        .ok (⟨(o - d : Nat), (max 1 (n + d) : Nat)⟩, { st with taken := st.taken + 2 }) := by
  obtain ⟨o, ho, hmodo, _, -⟩ := modulo_spec (a := (st.randoms st.taken : Nat)) (by omega) hf
  obtain ⟨n, hn, hmodn, _, -⟩ :=
    modulo_spec (a := (st.randoms (st.taken + 1) : Nat)) (b := fsize - o) (by omega) (by omega)
  obtain ⟨d, hd, hmod, -, _⟩ := modulo_spec (a := o) (by omega) ha
  refine ⟨o, n, d, hmodo, hmodn, hmod, by omega, by omega, ?_⟩
  simp only [opFilePosition, random, ho, hn, hd, bind, Except.bind, pure, Except.pure]
  by_cases hz : d = 0
  · by_cases hn0 : n = 0
    · simp [hz, hn0]
    · have hmax : max 1 n = n := by omega
      simp [hz, hn0, hmax]
  have hne : ¬ (n : Int) + d = 0 := by omega
  have ho2 : (o : Int) - d = (o - d : Nat) := by omega
  have hmax : max 1 (n + d) = n + d := by omega
  simp [hz, hne, ho2, hmax]

/-- A position is aligned and ends before the last byte, or is that byte. -/
lemma opFilePosition_spec {fsize align} (hf : 1 ≤ fsize) (ha : 1 ≤ align) (st : St σ) :
    ∃ o n : Nat, opFilePosition fsize align st = .ok (⟨o, n⟩, { st with taken := st.taken + 2 }) ∧
      1 ≤ n ∧ ((o : Int) + n < fsize ∨ (o : Int) = fsize - 1 ∧ n = 1) ∧ align ∣ o := by
  obtain ⟨o, n, d, -, -, hmod, hle, hlt, heq⟩ := opFilePosition_eq hf ha st
  refine ⟨o - d, max 1 (n + d), heq, by omega, by omega, ?_⟩
  rw [Int.natCast_sub hle, hmod]
  exact Int.dvd_self_sub_emod

lemma opAlignPages_spec (o n : Nat) (hn : 1 ≤ n) :
    ∃ o' n' : Nat, opAlignPages cfg ⟨o, n⟩ = .ok ⟨o', n'⟩ ∧ o' + n' = o + n ∧ 1 ≤ n' ∧
      mmap cfg ⟨o', n'⟩ = .ok () := by
  obtain ⟨r, hr, hr', -, _⟩ := modulo_spec (a := o) (by omega) cfg.pageSize_pos
  have ho : ((o : Int) - r) = (o - r : Nat) := by omega
  refine ⟨o - r, n + r, ?_, by omega, by omega, if_pos ⟨?_, ?_⟩⟩
  · simp [opAlignPages, hr, bind, Except.bind, pure, Except.pure, ho]
  · show (0 : Int) < (n + r : Nat)
    omega
  show ((o - r : Nat) : Int) % cfg.pageSize = 0
  rw [← ho, hr', Int.sub_emod, Int.emod_emod_of_dvd _ (Int.dvd_refl _), Int.sub_self, Int.zero_emod]

lemma updateFileSize_fileSize (pos : FilePos) (st : St σ) :
    (updateFileSize pos st).fileSize = max st.fileSize (pos.offset + pos.size) := by
  unfold updateFileSize
  split
  · show pos.offset + pos.size = _
    omega
  · omega

end Positions

/-! ## Equal ranges -/

lemma compareLoop_eq_zero (signed : Bool) :
    ∀ xs ys : List UInt8, xs.length = ys.length → (compareLoop signed 0 xs ys = 0 ↔ xs = ys)
  | [], [], _ => by simp [compareLoop]
  | x :: xs, y :: ys, h => by
    rw [compareLoop]
    by_cases hd : charVal signed x - charVal signed y = 0
    · have hxy : x = y := charVal_inj signed (by omega)
      simp only [hd, ne_eq, not_true_eq_false, if_false]
      rw [compareLoop_eq_zero signed xs ys (by simpa using h), hxy]
      simp
    · have hxy : x ≠ y := fun he => hd (by rw [he]; omega)
      simp [hd, hxy]

lemma memoryCompare_spec (signed : Bool) {a b : List UInt8} (hlen : a.length = b.length)
    (hne : 1 ≤ a.length) : ∃ d, memoryCompare signed a b = .ok d ∧ (d = 0 ↔ a = b) := by
  cases a with
  | nil => simp at hne
  | cons => exact ⟨_, rfl, compareLoop_eq_zero signed _ _ hlen⟩

/-! ## Buffers -/

lemma blockOf_ok (cfg : Config) (buf : Mem) (pos len : Nat)
    (h : (pos : Int) + len ≤ cfg.fileMaxSize) : blockOf cfg buf pos len = .ok (buf.read pos len) :=
  buf.readIn_ok pos len h

lemma copyTo_ok (cfg : Config) (buf : Mem) (pos : Nat)
    (h : (pos : Int) + bs.length ≤ cfg.fileMaxSize) :
    copyTo cfg buf pos bs = .ok (buf.write pos bs) := buf.writeIn_ok pos h

lemma clear_ok (cfg : Config) (buf : Mem) (pos : Nat) (len : Int) (h0 : 0 ≤ len)
    (h : pos + len ≤ cfg.fileMaxSize) :
    clear cfg buf pos len = .ok (buf.write pos (replicate len.toNat 0)) :=
  copyTo_ok cfg buf pos (by simp; omega)

/-- What is in the cleared buffer after `bs` was read into it. -/
def pad (n : Nat) (bs : List UInt8) : List UInt8 := bs ++ List.replicate (n - bs.length) 0

lemma pad_length (h : bs.length ≤ n) : (pad n bs).length = n := by
  simp [pad]
  omega

lemma pad_self (h : bs.length = n) : pad n bs = bs := by simp [pad, h]

lemma getD_pad (n : Nat) (bs : List UInt8) (k : Nat) : (pad n bs).getD k 0 = bs.getD k 0 := by
  by_cases h : k < bs.length
  · rw [pad, getD_append _ _ _ _ h]
  rw [pad, getD_append_right _ _ _ _ (by omega), getD_eq_default bs _ (by omega),
    getD_eq_getElem?_getD, getElem?_replicate]
  split <;> rfl

lemma read_cleared (buf : Mem) {size} (hbs : bs.length ≤ n) (hn : n ≤ size) :
    ((buf.write 0 (replicate size 0)).write 0 bs).read 0 n = pad n bs := by
  have h := Mem.read_eq ((buf.write 0 (replicate size 0)).write 0 bs) 0 (pad n bs) ?_
  · rwa [pad_length hbs] at h
  intro k hk
  rw [pad_length hbs] at hk
  rw [getD_pad]
  by_cases hin : k < bs.length
  · exact Mem.write_inside hin 0
  rw [Mem.write_outside (by omega), getD_eq_default bs _ (by omega),
    Mem.write_inside (by simp; omega) 0]
  simp

/-! ## The operations -/

section Operations

variable {σ : Type} (cfg : Config) (K : Kernel σ) (st : St σ)

lemma opRead_spec (hpos : 1 ≤ st.fileSize) (hfit : st.fileSize ≤ cfg.fileMaxSize) :
    ∃ o n : Nat, opFilePosition st.fileSize cfg.opReadAlign st =
        .ok (⟨o, n⟩, { st with taken := st.taken + 2 }) ∧ 1 ≤ n ∧ (o : Int) + n ≤ st.fileSize ∧
      ∃ temp, opRead cfg K st =
        .ok (if pad n ((K.read st.file o n).take n) = st.fileBuff.read o n then 1 else -1,
          { st with tempBuff := temp, taken := st.taken + 2 }) := by
  obtain ⟨o, n, hp, hn, hend, -⟩ := opFilePosition_spec hpos cfg.opReadAlign_pos st
  refine ⟨o, n, hp, hn, by omega, ?_⟩
  obtain ⟨size, hsize⟩ : ∃ size : Nat, cfg.fileMaxSize = size := ⟨cfg.fileMaxSize.toNat, by omega⟩
  obtain ⟨bs, hbs⟩ : ∃ bs, bs = (K.read st.file o n).take n := ⟨_, rfl⟩
  have hlen : bs.length ≤ n := by rw [hbs]; exact length_take_le _ _
  obtain ⟨temp, htemp⟩ : ∃ temp, temp = (st.tempBuff.write 0 (replicate size 0)).write 0 bs :=
    ⟨_, rfl⟩
  have hread : temp.read 0 n = pad n bs := by
    rw [htemp]
    exact read_cleared _ hlen (by omega)
  obtain ⟨d, hd, hd0⟩ := memoryCompare_spec cfg.charSigned (a := st.fileBuff.read o n)
    (b := temp.read 0 n) (by simp) (by simpa using hn)
  have h₁ : clear cfg st.tempBuff 0 cfg.fileMaxSize =
      .ok (st.tempBuff.write 0 (replicate size 0)) := by
    rw [hsize]
    exact clear_ok cfg st.tempBuff 0 size (by omega) (by omega)
  have h₂ : ∀ m : Mem, blockOf cfg m 0 n = .ok (m.read 0 n) :=
    fun m => blockOf_ok cfg m 0 n (by omega)
  have h₃ : copyTo cfg (st.tempBuff.write 0 (replicate size 0)) 0 bs = .ok temp := by
    rw [htemp]
    exact copyTo_ok cfg _ 0 (by omega)
  have h₄ : blockOf cfg st.fileBuff o n = .ok (st.fileBuff.read o n) :=
    blockOf_ok cfg st.fileBuff o n (by omega)
  refine ⟨temp, ?_⟩
  rw [opRead, if_neg (by omega), hp]
  simp only [readAt, bind, Except.bind, h₁, h₂, toNat_natCast, ← hbs, h₃, h₄, hd, pure, Except.pure]
  rw [hread] at hd0
  by_cases heq : st.fileBuff.read o n = pad n bs
  · simp [hd0.mpr heq, heq]
  · have hne : d ≠ 0 := fun h => heq (hd0.mp h)
    simp [hne, Ne.symm heq]

lemma opMapRead_spec (hpos : 1 ≤ st.fileSize) (hfit : st.fileSize ≤ cfg.fileMaxSize) :
    ∃ o n : Nat, (∃ pos, opFilePosition st.fileSize cfg.opReadAlign st =
        .ok (pos, { st with taken := st.taken + 2 }) ∧ opAlignPages cfg pos = .ok ⟨o, n⟩) ∧
      1 ≤ n ∧ (o : Int) + n ≤ st.fileSize ∧
      opMapRead cfg K st = if ((K.mapped st.file o n).take n).length < n then .error .bus
        else .ok (1, { st with
          fileBuff := st.fileBuff.write o ((K.mapped st.file o n).take n)
          taken := st.taken + 2 }) := by
  obtain ⟨o₀, n₀, hp, hn₀, _, -⟩ := opFilePosition_spec hpos cfg.opReadAlign_pos st
  obtain ⟨o, n, ha, _, hn, hmap⟩ := opAlignPages_spec cfg o₀ n₀ hn₀
  refine ⟨o, n, ⟨_, hp, ha⟩, hn, by omega, ?_⟩
  rw [opMapRead, if_neg (by omega), hp]
  simp only [mapReadAt, bind, Except.bind, ha, hmap, mappedBytes, toNat_natCast, ofNat_lt]
  by_cases hbus : ((K.mapped st.file o n).take n).length < n
  · rw [if_pos hbus, if_pos hbus]
  obtain ⟨bs, hbs⟩ : ∃ bs, bs = (K.mapped st.file o n).take n := ⟨_, rfl⟩
  have hle : bs.length ≤ n := by rw [hbs]; exact length_take_le _ _
  rw [← hbs] at hbus ⊢
  obtain rfl : bs.length = n := by omega
  have h₁ : copyTo cfg st.fileBuff o bs = .ok (st.fileBuff.write o bs) :=
    copyTo_ok cfg st.fileBuff o (by omega)
  have h₂ : blockOf cfg (st.fileBuff.write o bs) o bs.length = .ok bs := by
    have h := blockOf_ok cfg (st.fileBuff.write o bs) o bs.length (by omega)
    rwa [Mem.read_write_self] at h
  obtain ⟨d, hd, hd0⟩ := memoryCompare_spec cfg.charSigned (a := bs) rfl hn
  simp [h₁, h₂, hd, hd0.mpr rfl, pure, Except.pure]

lemma writeLoop_spec (o : Nat) : ∀ (n i : Nat) (st : St σ), (o : Int) + i + n ≤ cfg.fileMaxSize →
    ∃ bs : List UInt8, bs.length = n ∧ writeLoop cfg o n i st =
      .ok { st with fileBuff := st.fileBuff.write (o + i) bs, tempBuff := st.tempBuff.write i bs,
                    taken := st.taken + n }
  | 0, i, st, _ => ⟨[], rfl, by simp [writeLoop]⟩
  | n + 1, i, st, h => by
    obtain ⟨b, hb⟩ : ∃ b, b = letter 'a' (st.randoms st.taken) := ⟨_, rfl⟩
    obtain ⟨bs, hlen, hrest⟩ := writeLoop_spec o n (i + 1)
      { st with fileBuff := st.fileBuff.write (o + i) [b], tempBuff := st.tempBuff.write i [b],
                taken := st.taken + 1 } (by omega)
    refine ⟨b :: bs, by simp [hlen], ?_⟩
    have h₁ : copyTo cfg st.fileBuff (o + i) [b] = .ok (st.fileBuff.write (o + i) [b]) :=
      copyTo_ok cfg st.fileBuff (o + i) (by simp; omega)
    have h₂ : copyTo cfg st.tempBuff i [b] = .ok (st.tempBuff.write i [b]) :=
      copyTo_ok cfg st.tempBuff i (by simp; omega)
    simp only [writeLoop, random, ← hb, h₁, h₂, bind, Except.bind]
    rw [show (i : Int) + 1 = (i + 1 : Nat) by omega, hrest, Mem.write_cons st.fileBuff (o + i) b bs,
      Mem.write_cons st.tempBuff i b bs, show st.taken + (n + 1) = st.taken + 1 + n by omega]
    rfl

lemma opWrite_spec (hroom : st.fileSize < cfg.fileMaxSize) :
    ∃ (o n : Nat) (bs : List UInt8) (taken : Nat), bs.length = n ∧ 1 ≤ n ∧
      (o : Int) + n ≤ cfg.fileMaxSize ∧
      opWrite cfg K st = .ok (1, updateFileSize ⟨o, n⟩
        { st with fileBuff := st.fileBuff.write o bs, tempBuff := st.tempBuff.write 0 bs,
                  taken := taken, file := K.write st.file o bs }) := by
  obtain ⟨o, n, hp, hn, hend, -⟩ := opFilePosition_spec cfg.fileMaxSize_pos cfg.opWriteAlign_pos st
  obtain ⟨bs, hlen, hloop⟩ := writeLoop_spec cfg o n 0 { st with taken := st.taken + 2 } (by omega)
  refine ⟨o, n, bs, st.taken + 2 + n, hlen, hn, by omega, ?_⟩
  have hblock : blockOf cfg (st.tempBuff.write 0 bs) 0 n = .ok bs := by
    have h := blockOf_ok cfg (st.tempBuff.write 0 bs) 0 n (by omega)
    rwa [← hlen, Mem.read_write_self, hlen] at h
  rw [opWrite, if_neg (by omega), hp]
  simp only [writeAt, bind, Except.bind, toNat_natCast]
  rw [show (0 : Int) = ((0 : Nat) : Int) from rfl, hloop]
  simp [hblock, pure, Except.pure]

lemma opTruncate_spec : ∃ m : Nat, (m : Int) ≤ cfg.fileMaxSize ∧
    opTruncate cfg K st = .ok (1, { st with
      fileSize := m, file := K.ftruncate st.file m,
      fileBuff := st.fileBuff.write m (replicate (cfg.fileMaxSize - m).toNat 0),
      taken := st.taken + 2 }) := by
  obtain ⟨o, n, hp, -, _, -⟩ := opFilePosition_spec cfg.fileMaxSize_pos cfg.opTruncAlign_pos st
  refine ⟨o + n, by omega, ?_⟩
  have hclear := clear_ok cfg st.fileBuff (o + n) (cfg.fileMaxSize - (o + n : Nat))
    (by omega) (by omega)
  rw [opTruncate, hp]
  simp only [truncateAt, bind, Except.bind, show (o : Int) + n = (o + n : Nat) by omega, hclear,
    toNat_natCast, pure, Except.pure]

lemma mapWriteLoop_spec (o : Nat) : ∀ (n i : Nat) (st : St σ), (o : Int) + i + n ≤ cfg.fileMaxSize →
    ∃ bs : List UInt8, bs.length = n ∧ mapWriteLoop cfg o n i st =
      .ok { st with fileBuff := st.fileBuff.write (o + i) bs, taken := st.taken + n }
  | 0, i, st, _ => ⟨[], rfl, by simp [mapWriteLoop]⟩
  | n + 1, i, st, h => by
    obtain ⟨b, hb⟩ : ∃ b, b = letter 'l' (st.randoms st.taken) := ⟨_, rfl⟩
    obtain ⟨bs, hlen, hrest⟩ := mapWriteLoop_spec o n (i + 1)
      { st with fileBuff := st.fileBuff.write (o + i) [b], taken := st.taken + 1 } (by omega)
    refine ⟨b :: bs, by simp [hlen], ?_⟩
    have h₁ : copyTo cfg st.fileBuff (o + i) [b] = .ok (st.fileBuff.write (o + i) [b]) :=
      copyTo_ok cfg st.fileBuff (o + i) (by simp; omega)
    simp only [mapWriteLoop, random, ← hb, h₁, bind, Except.bind]
    rw [show (i : Int) + 1 = (i + 1 : Nat) by omega, hrest, Mem.write_cons st.fileBuff (o + i) b bs,
      show st.taken + (n + 1) = st.taken + 1 + n by omega]
    rfl

/-- The file as `op_map_write` maps it. -/
def grown (f : σ) (fileSize : Int) (n : Nat) : σ := if fileSize < n then K.ftruncate f n else f

lemma opMapWrite_spec (hroom : st.fileSize < cfg.fileMaxSize) :
    ∃ (o n : Nat) (bs : List UInt8) (taken : Nat), bs.length = n ∧ 1 ≤ n ∧
      (o : Int) + n ≤ cfg.fileMaxSize ∧
      opMapWrite cfg K st =
        if ((K.mapped (grown K st.file st.fileSize (o + n)) o n).take n).length < n then
          .error .bus
        else .ok (1, updateFileSize ⟨o, n⟩
          { st with fileBuff := st.fileBuff.write o bs, taken := taken,
                    file := K.store (grown K st.file st.fileSize (o + n)) o bs }) := by
  obtain ⟨o₀, n₀, hp, hn₀, _, -⟩ := opFilePosition_spec cfg.fileMaxSize_pos cfg.opWriteAlign_pos st
  obtain ⟨o, n, ha, _, hn, hmap⟩ := opAlignPages_spec cfg o₀ n₀ hn₀
  obtain ⟨bs, hlen, hloop⟩ := mapWriteLoop_spec cfg o n 0
    { st with file := grown K st.file st.fileSize (o + n), taken := st.taken + 2 } (by omega)
  refine ⟨o, n, bs, st.taken + 2 + n, hlen, hn, by omega, ?_⟩
  have hgrow : (if st.fileSize < (o + n : Nat) then
        { st with file := K.ftruncate st.file (o + n), taken := st.taken + 2 }
      else { st with taken := st.taken + 2 }) =
      { st with file := grown K st.file st.fileSize (o + n), taken := st.taken + 2 } := by
    unfold grown
    split <;> rfl
  have hblock : blockOf cfg (st.fileBuff.write o bs) o n = .ok bs := by
    have h := blockOf_ok cfg (st.fileBuff.write o bs) o n (by omega)
    rwa [← hlen, Mem.read_write_self, hlen] at h
  rw [opMapWrite, if_neg (by omega), hp]
  simp only [mapWriteAt, bind, Except.bind, ha, toNat_natCast,
    show (o : Int) + n = (o + n : Nat) by omega,
    hgrow]
  rw [show (0 : Int) = ((0 : Nat) : Int) from rfl, hloop]
  simp only [hmap, Nat.add_zero, hblock, mappedBytes, toNat_natCast, ofNat_lt]
  split_ifs with hbus
  · rfl
  · rfl

end Operations

end LtpDdt.Fsx
