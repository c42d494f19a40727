/-
Doio.WriteLog — the write log of `testcases/kernel/fs/doio/write_log.c`: packing
a record into its disk form and back, appending it, and scanning the log from its end.

* `struct wlog_rec_disk` is laid out as the compilers for Linux do it: 32 bit units
  filled from the low bits, no field across two units: seven, six of them accessed.
* A buffer is a block of bytes (`Bytes.Mem`); the former contents of those on the
  stack are parameters.
* `blockOf`, `byteOf`, `copyTo` and `alignTo` fail outside of the buffers.
* The function called for each record may keep a state: it is one of all the records
  it has been called with. A scan that fails keeps them.
* Whether `char` is signed, and what an offset that is no `int` is converted to, are
  parameters. System calls succeed; a read returns what the file has.
* The loops have a bound on their rounds, which is another way to fail.

The fields share no bits, so each holds the low bits of what it was given
(`get_packHeader`); path, host and pattern follow one another (`Packed`).
-/
import LtpDdt.Bytes.BitField
import LtpDdt.Bytes.File
import LtpDdt.CTypes.Ints

namespace LtpDdt.Doio

open Bytes CTypes

/-! ## Records -/

def wlogMaxPath : Int := 128
def wlogMaxPattern : Int := 64
def wlogMaxHost : Int := 8

def zeroes : Mem := fun _ => 0

/-- `struct wlog_rec` -/
structure WlogRec where
  pid : Int
  offset : Int
  nbytes : Int
  oflags : Int
  done : Int
  async : Int
  host : Mem
  hostlen : Int
  path : Mem
  pathlen : Int
  pattern : Mem
  patternlen : Int

/-! The fields of `struct wlog_rec_disk` -/

def wOffset : Field := ⟨0, 0, 32, by decide⟩
def wNbytes : Field := ⟨8, 0, 32, by decide⟩
def wOflags : Field := ⟨12, 0, 32, by decide⟩
def wPid : Field := ⟨16, 0, 17, by decide⟩
def wPathlen : Field := ⟨16, 17, 7, by decide⟩
def wPatternlen : Field := ⟨16, 24, 6, by decide⟩
def wHostlen : Field := ⟨20, 0, 4, by decide⟩
def wDone : Field := ⟨20, 4, 1, by decide⟩
def wAsync : Field := ⟨20, 5, 1, by decide⟩

/-- `sizeof(struct wlog_rec_disk)` -/
def diskSize : Nat := 28

/-- A field gets `(uint) v`. -/
def setUint (f : Field) (v : Int) (m : Mem) : Mem := f.set (uint32 v).toNat m

/-- The assignments to the fields of the disk structure. -/
def packHeader (wrec : WlogRec) (buf : Mem) : Mem :=
  let m := setUint wPid wrec.pid buf
  let m := setUint wOffset wrec.offset m
  let m := setUint wNbytes wrec.nbytes m
  let m := setUint wOflags wrec.oflags m
  let m := setUint wDone wrec.done m
  let m := setUint wAsync wrec.async m
  let m := setUint wPathlen (if wrec.pathlen > 0 then wrec.pathlen else 0) m
  let m := setUint wHostlen (if wrec.hostlen > 0 then wrec.hostlen else 0) m
  setUint wPatternlen (if wrec.patternlen > 0 then wrec.patternlen else 0) m

/-- The number of bytes and the buffer. The lengths copied are those of the disk structure. -/
def wlogRecPack (wrec : WlogRec) (buf : Mem) (flag : Bool) : Nat × Mem :=
  let m := packHeader wrec buf
  if flag then
    let pathlen := wPathlen.get m
    let hostlen := wHostlen.get m
    let patternlen := wPatternlen.get m
    let file := diskSize
    let host := file + pathlen
    let pattern := host + hostlen
    let m := if pathlen > 0 then m.write file (wrec.path.read 0 pathlen) else m
    let m := if hostlen > 0 then m.write host (wrec.host.read 0 hostlen) else m
    let m := if patternlen > 0 then m.write pattern (wrec.pattern.read 0 patternlen) else m
    (diskSize + pathlen + hostlen + patternlen, m)
  else (diskSize, m)

variable (buf : Mem)

def wlogRecUnpack : WlogRec :=
  let hostlen := wHostlen.get buf
  let pathlen := wPathlen.get buf
  let patternlen := wPatternlen.get buf
  { pid := wPid.get buf
    offset := int32 (wOffset.get buf)
    nbytes := int32 (wNbytes.get buf)
    oflags := int32 (wOflags.get buf)
    done := wDone.get buf
    async := wAsync.get buf
    host := if hostlen > 0 then zeroes.write 0 (buf.read (diskSize + pathlen) hostlen) else zeroes
    hostlen := hostlen
    path := if pathlen > 0 then zeroes.write 0 (buf.read diskSize pathlen) else zeroes
    pathlen := pathlen
    pattern :=
      if patternlen > 0 then
        zeroes.write 0 (buf.read (diskSize + pathlen + hostlen) patternlen)
      else zeroes
    patternlen := patternlen }

/-! ## Writing -/

/-- The offset of the record and the log. A negative offset appends the record with its length, any
other overlays the fixed part. -/
def wlogRecordWrite (file : List UInt8) (wrec : WlogRec) (wbuf : Mem) (offset : Int) :
    Int × List UInt8 :=
  let (reclen, wbuf) := wlogRecPack wrec wbuf (offset < 0)
  if offset < 0 then
    let wbuf := wbuf.write reclen [UInt8.ofNat (reclen / 256)]
    let wbuf := wbuf.write (reclen + 1) [UInt8.ofNat (reclen % 256)]
    let file := file ++ wbuf.read 0 (reclen + 2)
    (int32 (file.length - (reclen + 2)), file)
  else (int32 offset, overwrite file offset.toNat (wbuf.read 0 reclen))

/-! ## Scanning backwards -/

/-- `sizeof(buf)`, which is `BSIZE * 32` -/
def bufSize : Nat := 512 * 32

/-- `WLOG_REC_MAX_SIZE`, with the 248 bytes of a `struct wlog_rec` -/
def wlogRecMaxSize : Nat := 248 + 128 + 64 + 8 + 2

/-- How a scan can fail: an access outside of a buffer, or no end. -/
inductive Fault where
  | outside
  | rounds
  deriving DecidableEq

/-- The `len` bytes of the buffer from `pos` on. -/
def blockOf (pos len : Int) : Except Fault (List UInt8) :=
  buf.readIn .outside bufSize pos len

def byteOf (pos : Int) : Except Fault UInt8 :=
  if 0 ≤ pos ∧ pos < bufSize then .ok (buf pos.toNat) else .error .outside

/-- Copies `bs` into the buffer. -/
def copyTo (pos : Int) (bs : List UInt8) : Except Fault Mem :=
  buf.writeIn .outside bufSize pos bs

/-- Copies `bs` into `albuf`. -/
def alignTo (albuf : Mem) (bs : List UInt8) : Except Fault Mem :=
  albuf.writeIn .outside wlogRecMaxSize 0 bs

/-- The variables of the scan: the two buffers, the records `func` was called with, and their
number. -/
structure Scan where
  buf : Mem
  albuf : Mem
  calls : List WlogRec := []
  recnum : Nat := 0

def Scan.access {α : Type} (st : Scan) (x : Except Fault α) : Except (Fault × Scan) α :=
  x.mapError fun fault => (fault, st)

section ScanBackward

variable (signed : Bool) (nrecs : Nat) (func : List WlogRec → Bool)

/-- The bytes from `bufstart` to `cp` are moved to the end of the buffer. -/
def keepLeftover (bufstart cp : Int) (st : Scan) : Except (Fault × Scan) (Int × Scan) := do
  let leftover := cp - bufstart
  let bs ← st.access (blockOf st.buf bufstart leftover)
  let buf ← st.access (copyTo st.buf (bufSize - leftover) bs)
  return (leftover, { st with buf := buf })

/-- The inner loop: the records in the buffer. `func` tells whether to stop.
Returns the number of bytes that are left over. -/
def scanWindow (bufstart : Int) : Nat → Int → Scan → Except (Fault × Scan) (Int × Scan)
  | 0, _, st => .error (.rounds, st)
  | n + 1, cp, st =>
    if cp < bufstart then .ok (0, st)
    else if cp - bufstart < 2 then keepLeftover bufstart cp st
    else do
      let hi ← st.access (byteOf st.buf (cp - 2))
      let lo ← st.access (byteOf st.buf (cp - 1))
      let reclen := charVal signed hi * 256 + charVal signed lo
      if cp - bufstart < reclen + 2 then keepLeftover bufstart cp st
      else
        let cp := cp - (reclen + 2)
        let bs ← st.access (blockOf st.buf cp reclen)
        let albuf ← st.access (alignTo st.albuf bs)
        let wrec := wlogRecUnpack albuf
        let st := { st with albuf := albuf, calls := st.calls ++ [wrec] }
        if func st.calls then .ok (0, st)
        else
          let st := { st with recnum := st.recnum + 1 }
          if nrecs ≠ 0 ∧ st.recnum ≥ nrecs then .ok (0, st)
          else scanWindow bufstart n cp st

def scanLoop (file : List UInt8) : Nat → Int → Int → Int → Scan → Except (Fault × Scan) Scan
  | 0, _, _, _, st => .error (.rounds, st)
  | n + 1, offset, leftover, bufstart, st =>
    if (nrecs = 0 ∨ st.recnum < nrecs) ∧ offset > 0 then do
      let (bufstart, offset) :=
        if offset + leftover < bufSize then ((bufSize : Int) - (offset + leftover), 0)
        else (bufstart, offset - (bufSize - leftover))
      let bs := slice file offset.toNat (bufSize - bufstart - leftover).toNat
      let buf ← st.access (copyTo st.buf bufstart bs)
      let (leftover, st) ← scanWindow signed nrecs func bufstart (bufSize + 1) bufSize
        { st with buf := buf }
      scanLoop file n offset leftover bufstart st
    else .ok st

/-- The result and the records `func` was called with. `toInt` converts an offset to `int`. -/
def wlogScanBackward (toInt : Int → Int) (file : List UInt8) (st : Scan) :
    Except Fault (Int × List WlogRec) :=
  let offset := toInt file.length
  if offset = -1 then .ok (-1, [])
  else do
    let st ← (scanLoop signed nrecs func file (file.length + 1) offset 0 0 st).mapError (·.1)
    return (0, st.calls)

/-- The records `func` is called with, also by a scan that fails. -/
def scanCalls (toInt : Int → Int) (file : List UInt8) (st : Scan) : List WlogRec :=
  let offset := toInt file.length
  if offset = -1 then []
  else
    match scanLoop signed nrecs func file (file.length + 1) offset 0 0 st with
    | .ok st => st.calls
    | .error (_, st) => st.calls

end ScanBackward

open List Mem

variable {wrec : WlogRec}

/-! ## The header -/

/-- The assignments of `packHeader`. -/
def headerFields (wrec : WlogRec) : List (Field × Int) :=
  [(wPid, wrec.pid), (wOffset, wrec.offset), (wNbytes, wrec.nbytes), (wOflags, wrec.oflags),
   (wDone, wrec.done), (wAsync, wrec.async),
   (wPathlen, if wrec.pathlen > 0 then wrec.pathlen else 0),
   (wHostlen, if wrec.hostlen > 0 then wrec.hostlen else 0),
   (wPatternlen, if wrec.patternlen > 0 then wrec.patternlen else 0)]

lemma get_packHeader {f : Field} {v} (h : (f, v) ∈ headerFields wrec) (buf : Mem) :
    f.get (packHeader wrec buf) = (uint32 v).toNat % 2 ^ f.width := by
  have hd : [wPid, wOffset, wNbytes, wOflags, wDone, wAsync, wPathlen, wHostlen,
      wPatternlen].Pairwise Field.Disjoint := by decide
  have hmem : (f, (uint32 v).toNat) ∈
      (headerFields wrec).map fun a => (a.1, (uint32 a.2).toNat) := mem_map.mpr ⟨_, h, rfl⟩
  have hget := fun hd => Field.get_foldl_set hd hmem buf
  exact hget hd

/-! ## The parts of variable length -/

lemma write_read_if (m src : Mem) (pos from_ n : Nat) :
    (if n > 0 then m.write pos (src.read from_ n) else m) = m.write pos (src.read from_ n) := by
  split
  · rfl
  · obtain rfl : n = 0 := by omega
    simp [Mem.read]

/-- `m` holds a record: its header is that of `hdr`, followed by the three
parts. -/
structure Packed (hdr : Mem) (path host pattern : List UInt8) (m : Mem) : Prop where
  agree : Mem.Agree m hdr 0 diskSize
  path_eq : m.read diskSize path.length = path
  host_eq : m.read (diskSize + path.length) host.length = host
  pattern_eq : m.read (diskSize + path.length + host.length) pattern.length = pattern

lemma packed_writes (hdr : Mem) (path host pattern : List UInt8) :
    Packed hdr path host pattern (((hdr.write diskSize path).write (diskSize + path.length)
      host).write (diskSize + path.length + host.length) pattern) where
  agree :=
    (write_agree _ _ _ (.inl (by omega))).trans
      ((write_agree _ _ _ (.inl (by omega))).trans (write_agree _ _ _ (.inl (by omega))))
  path_eq := by
    rw [read_congr ((write_agree _ _ _ (.inl (by omega))).trans
      (write_agree _ _ _ (.inl (by omega)))), read_write_self]
  host_eq := by rw [read_congr (write_agree _ _ _ (.inl (by omega))), read_write_self]
  pattern_eq := read_write_self ..

/-- A length as it is in a field of `w` bits. -/
def diskLen (w : Nat) (len : Int) : Nat := (uint32 (if len > 0 then len else 0)).toNat % 2 ^ w

lemma diskLen_eq {w} {len : Int} (h : 0 ≤ len) (hw : len.toNat < 2 ^ w) (h32 : len < 4294967296) :
    diskLen w len = len.toNat := by
  have : uint32 (if len > 0 then len else 0) = len := by split <;> rw [uint32_of_range] <;> omega
  rw [diskLen, this, Nat.mod_eq_of_lt hw]

/-- The path, the host and the pattern as they are packed. -/
def packedPath (wrec : WlogRec) : List UInt8 := wrec.path.read 0 (diskLen 7 wrec.pathlen)
def packedHost (wrec : WlogRec) : List UInt8 := wrec.host.read 0 (diskLen 4 wrec.hostlen)
def packedPattern (wrec : WlogRec) : List UInt8 := wrec.pattern.read 0 (diskLen 6 wrec.patternlen)

def recLen (wrec : WlogRec) : Nat :=
  diskSize + diskLen 7 wrec.pathlen + diskLen 4 wrec.hostlen + diskLen 6 wrec.patternlen

section Pack

variable (wrec : WlogRec) (buf : Mem)

lemma get_wPathlen : wPathlen.get (packHeader wrec buf) = diskLen 7 wrec.pathlen :=
  get_packHeader (by simp [headerFields]) buf

lemma get_wHostlen : wHostlen.get (packHeader wrec buf) = diskLen 4 wrec.hostlen :=
  get_packHeader (by simp [headerFields]) buf

lemma get_wPatternlen : wPatternlen.get (packHeader wrec buf) = diskLen 6 wrec.patternlen :=
  get_packHeader (by simp [headerFields]) buf

/-- **What packing does.** -/
theorem wlogRecPack_spec : (wlogRecPack wrec buf true).1 = recLen wrec ∧
      Packed (packHeader wrec buf) (packedPath wrec) (packedHost wrec) (packedPattern wrec)
        (wlogRecPack wrec buf true).2 := by
  have h := packed_writes (packHeader wrec buf) (packedPath wrec) (packedHost wrec)
    (packedPattern wrec)
  simp only [wlogRecPack, write_read_if, get_wPathlen, get_wHostlen, get_wPatternlen]
  refine ⟨rfl, ?_⟩
  simpa [packedPath, packedHost, packedPattern] using h

end Pack

/-! ## Unpacking -/

lemma Packed.get {buf m path host pattern} (h : Packed (packHeader wrec buf) path host pattern m)
    {f : Field} {v} (hf : (f, v) ∈ headerFields wrec) :
    f.get m = (uint32 v).toNat % 2 ^ f.width := by
  have hpos : f.pos + 4 ≤ diskSize := by
    simp only [headerFields, mem_cons, not_mem_nil, or_false] at hf
    rcases hf with ⟨rfl, -⟩ | ⟨rfl, -⟩ | ⟨rfl, -⟩ | ⟨rfl, -⟩ | ⟨rfl, -⟩ | ⟨rfl, -⟩ | ⟨rfl, -⟩ |
      ⟨rfl, -⟩ | ⟨rfl, -⟩ <;> decide
  rw [Field.get_congr (h.agree.mono (Nat.zero_le _) hpos), get_packHeader hf]

/-- What a record becomes when it is packed and unpacked: the low bits of
its fields. -/
def truncated (wrec : WlogRec) : WlogRec where
  pid := ((uint32 wrec.pid).toNat % 2 ^ 17 : Nat)
  offset := int32 wrec.offset
  nbytes := int32 wrec.nbytes
  oflags := int32 wrec.oflags
  done := ((uint32 wrec.done).toNat % 2 : Nat)
  async := ((uint32 wrec.async).toNat % 2 : Nat)
  host := zeroes.write 0 (packedHost wrec)
  hostlen := diskLen 4 wrec.hostlen
  path := zeroes.write 0 (packedPath wrec)
  pathlen := diskLen 7 wrec.pathlen
  pattern := zeroes.write 0 (packedPattern wrec)
  patternlen := diskLen 6 wrec.patternlen

lemma int32_toNat_mod (x : Int) : int32 (((uint32 x).toNat % 2 ^ 32 : Nat) : Int) = int32 x := by
  have h := uint32_bounds x
  rw [Nat.mod_eq_of_lt (by omega), Int.toNat_of_nonneg h.1, int32_uint32]

/-- **What unpacking does.** -/
theorem Packed.unpack {buf m}
    (h : Packed (packHeader wrec buf) (packedPath wrec) (packedHost wrec) (packedPattern wrec) m) :
    wlogRecUnpack m = truncated wrec := by
  have hpath : wPathlen.get m = diskLen 7 wrec.pathlen := h.get (by simp [headerFields])
  have hhost : wHostlen.get m = diskLen 4 wrec.hostlen := h.get (by simp [headerFields])
  have hpattern : wPatternlen.get m = diskLen 6 wrec.patternlen := h.get (by simp [headerFields])
  have e₁ : m.read diskSize (diskLen 7 wrec.pathlen) = packedPath wrec := by
    simpa [packedPath] using h.path_eq
  have e₂ : m.read (diskSize + diskLen 7 wrec.pathlen) (diskLen 4 wrec.hostlen) =
      packedHost wrec := by
    simpa [packedPath, packedHost] using h.host_eq
  have e₃ : m.read (diskSize + diskLen 7 wrec.pathlen + diskLen 4 wrec.hostlen)
      (diskLen 6 wrec.patternlen) = packedPattern wrec := by
    simpa [packedPath, packedHost, packedPattern] using h.pattern_eq
  simp only [wlogRecUnpack, write_read_if]
  simp only [hpath, hhost, hpattern, e₁, e₂, e₃,
    h.get (show (wPid, wrec.pid) ∈ headerFields wrec by simp [headerFields]),
    h.get (show (wOffset, wrec.offset) ∈ headerFields wrec by simp [headerFields]),
    h.get (show (wNbytes, wrec.nbytes) ∈ headerFields wrec by simp [headerFields]),
    h.get (show (wOflags, wrec.oflags) ∈ headerFields wrec by simp [headerFields]),
    h.get (show (wDone, wrec.done) ∈ headerFields wrec by simp [headerFields]),
    h.get (show (wAsync, wrec.async) ∈ headerFields wrec by simp [headerFields])]
  have hwidth : wOffset.width = 32 ∧ wNbytes.width = 32 ∧ wOflags.width = 32 := ⟨rfl, rfl, rfl⟩
  rw [hwidth.1, hwidth.2.1, hwidth.2.2, int32_toNat_mod, int32_toNat_mod, int32_toNat_mod]
  rfl

lemma unpack_pack (wrec : WlogRec) (buf : Mem) :
    wlogRecUnpack (wlogRecPack wrec buf true).2 = truncated wrec :=
  (wlogRecPack_spec wrec buf).2.unpack

/-! ## What is lost -/

/-- The limits that `write_log.h` states, and the ids that the kernel gives. -/
structure InLimits (wrec : WlogRec) : Prop where
  pathlen : 0 ≤ wrec.pathlen ∧ wrec.pathlen ≤ wlogMaxPath
  hostlen : 0 ≤ wrec.hostlen ∧ wrec.hostlen ≤ wlogMaxHost
  patternlen : 0 ≤ wrec.patternlen ∧ wrec.patternlen ≤ wlogMaxPattern
  offset : -2147483648 ≤ wrec.offset ∧ wrec.offset ≤ 2147483647
  nbytes : -2147483648 ≤ wrec.nbytes ∧ wrec.nbytes ≤ 2147483647
  oflags : -2147483648 ≤ wrec.oflags ∧ wrec.oflags ≤ 2147483647
  done : wrec.done = 0 ∨ wrec.done = 1
  async : wrec.async = 0 ∨ wrec.async = 1
  pid : 0 ≤ wrec.pid ∧ wrec.pid < 4194304

/-- The same fields, and the same bytes of the path, the host and the pattern. -/
structure SameRecord (r wrec : WlogRec) : Prop where
  pid : r.pid = wrec.pid
  offset : r.offset = wrec.offset
  nbytes : r.nbytes = wrec.nbytes
  oflags : r.oflags = wrec.oflags
  done : r.done = wrec.done
  async : r.async = wrec.async
  hostlen : r.hostlen = wrec.hostlen
  pathlen : r.pathlen = wrec.pathlen
  patternlen : r.patternlen = wrec.patternlen
  host : r.host.read 0 wrec.hostlen.toNat = wrec.host.read 0 wrec.hostlen.toNat
  path : r.path.read 0 wrec.pathlen.toNat = wrec.path.read 0 wrec.pathlen.toNat
  pattern : r.pattern.read 0 wrec.patternlen.toNat = wrec.pattern.read 0 wrec.patternlen.toNat

lemma uint32_toNat_mod {x : Int} {w} (h : 0 ≤ x) (h32 : x < 4294967296) (hw : x.toNat < 2 ^ w) :
    (((uint32 x).toNat % 2 ^ w : Nat) : Int) = x := by
  rw [uint32_of_range h h32, Nat.mod_eq_of_lt hw]
  omega

lemma read_zeroes_write (src : Mem) (n : Nat) :
    (zeroes.write 0 (src.read 0 n)).read 0 n = src.read 0 n := by
  have h := read_write_self zeroes 0 (src.read 0 n)
  rwa [read_length] at h

lemma truncated_same (h : InLimits wrec) (hpath : wrec.pathlen ≤ 127)
    (hpattern : wrec.patternlen ≤ 63) (hpid : wrec.pid < 131072) :
    SameRecord (truncated wrec) wrec := by
  have hmax := h.hostlen.2
  unfold wlogMaxHost at hmax
  have e₁ : diskLen 7 wrec.pathlen = wrec.pathlen.toNat :=
    diskLen_eq h.pathlen.1 (by simp only [Nat.reducePow]; omega) (by omega)
  have e₂ : diskLen 4 wrec.hostlen = wrec.hostlen.toNat :=
    diskLen_eq h.hostlen.1 (by simp only [Nat.reducePow]; omega) (by omega)
  have e₃ : diskLen 6 wrec.patternlen = wrec.patternlen.toNat :=
    diskLen_eq h.patternlen.1 (by simp only [Nat.reducePow]; omega) (by omega)
  have hbit : ∀ {x : Int}, x = 0 ∨ x = 1 → (((uint32 x).toNat % 2 : Nat) : Int) = x := by
    rintro x (rfl | rfl) <;> rfl
  refine ⟨uint32_toNat_mod h.pid.1 (by omega) (by simp only [Nat.reducePow]; omega),
    int32_of_range h.offset.1 h.offset.2, int32_of_range h.nbytes.1 h.nbytes.2,
    int32_of_range h.oflags.1 h.oflags.2, hbit h.done, hbit h.async, ?_, ?_, ?_, ?_, ?_, ?_⟩
  · show ((diskLen 4 wrec.hostlen : Nat) : Int) = _
    rw [e₂, Int.toNat_of_nonneg h.hostlen.1]
  · show ((diskLen 7 wrec.pathlen : Nat) : Int) = _
    rw [e₁, Int.toNat_of_nonneg h.pathlen.1]
  · show ((diskLen 6 wrec.patternlen : Nat) : Int) = _
    rw [e₃, Int.toNat_of_nonneg h.patternlen.1]
  · rw [← e₂]; exact read_zeroes_write ..
  · rw [← e₁]; exact read_zeroes_write ..
  · rw [← e₃]; exact read_zeroes_write ..

/-- **Packing and unpacking gives a record back exactly if** its path has less than 128 bytes, its
pattern less than 64, and its process id less than 18 bits. -/
theorem unpack_pack_iff (wrec : WlogRec) (buf : Mem) (h : InLimits wrec) :
    SameRecord (wlogRecUnpack (wlogRecPack wrec buf true).2) wrec ↔
      wrec.pathlen ≤ 127 ∧ wrec.patternlen ≤ 63 ∧ wrec.pid < 131072 := by
  rw [unpack_pack]
  refine ⟨fun hsame => ?_, fun ⟨h₁, h₂, h₃⟩ => truncated_same h h₁ h₂ h₃⟩
  have hlen : ∀ (w : Nat) (len : Int), diskLen w len < 2 ^ w :=
    fun w len => Nat.mod_lt _ (Nat.two_pow_pos w)
  have h₁ := hlen 7 wrec.pathlen
  have h₂ := hlen 6 wrec.patternlen
  have h₃ : (uint32 wrec.pid).toNat % 2 ^ 17 < 2 ^ 17 := Nat.mod_lt _ (Nat.two_pow_pos 17)
  have e₁ : ((diskLen 7 wrec.pathlen : Nat) : Int) = wrec.pathlen := hsame.pathlen
  have e₂ : ((diskLen 6 wrec.patternlen : Nat) : Int) = wrec.patternlen := hsame.patternlen
  have e₃ : (((uint32 wrec.pid).toNat % 2 ^ 17 : Nat) : Int) = wrec.pid := hsame.pid
  exact ⟨by omega, by omega, by omega⟩

/-- A record of process 1 with a path of `pathlen` bytes. -/
def sampleRec (pathlen : Int) : WlogRec :=
  ⟨1, 0, 512, 0, 1, 0, zeroes, 4, zeroes, pathlen, zeroes, 8⟩

lemma sampleRec_inLimits (pathlen : Int) (h : 0 ≤ pathlen) (h' : pathlen ≤ wlogMaxPath) :
    InLimits (sampleRec pathlen) := by
  refine ⟨⟨h, h'⟩, ?_, ?_, ?_, ?_, ?_, .inr rfl, .inl rfl, ?_⟩ <;>
    simp [sampleRec, wlogMaxHost, wlogMaxPattern]

theorem unpack_pack_iff_sampleRec : InLimits (sampleRec 127) ∧
      SameRecord (wlogRecUnpack (wlogRecPack (sampleRec 127) zeroes true).2) (sampleRec 127) :=
  have h := sampleRec_inLimits 127 (by decide) (by decide)
  ⟨h, (unpack_pack_iff (sampleRec 127) zeroes h).mpr ⟨by decide, by decide, by decide⟩⟩

/-- The longest path the limits allow comes back empty. -/
theorem unpack_pack_loses_path : InLimits (sampleRec 128) ∧
      (wlogRecUnpack (wlogRecPack (sampleRec 128) zeroes true).2).pathlen = 0 :=
  ⟨sampleRec_inLimits 128 (by decide) (by decide), by rw [unpack_pack]; rfl⟩

end LtpDdt.Doio
