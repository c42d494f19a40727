/-
Ujson.File — the file writer of `libs/ujson/ujson_writer.c`.

* The file is the list of bytes written to it; `buf` is the used part of the buffer.
* A `Pattern` is what `write` returns, by the number of the call and of the bytes asked
  for; a negative value is 0 here, which `out_writer_file_write` treats alike.
* The loop of `out_writer_file_write` has a bound, since each round that does not end it
  writes a byte.

`content` is what a writer stands for: the bytes in the file and, behind them,
those that wait in the buffer.
-/
import Mathlib.Data.BitVec

namespace LtpDdt.Ujson

/-- What `write` returns. -/
abbrev Pattern : Type := Nat → Nat → Nat

/-- Each `write` writes at least a byte and at most what it is asked to. -/
def Pattern.NonFailing (pattern : Pattern) : Prop :=
  ∀ call len, 0 < len → 0 < pattern call len ∧ pattern call len ≤ len

/-- The messages of `err` in `out_writer_file_write`. -/
inductive FileErr where
  /-- "Failed to write to a file" -/
  | failedWrite
  /-- "Wrote more bytes than requested?!" -/
  | wroteMore
  deriving DecidableEq

/-- `struct json_writer_file`, with the file and the calls of `write` so far. -/
structure FileWriter where
  file : List UInt8 := []
  calls : Nat := 0
  buf : List UInt8 := []
  err : Option FileErr := none
  deriving DecidableEq

/-- `sizeof(writer_file->buf)` -/
def bufSize : Nat := 1024

section writer

variable (pattern : Pattern)

variable (self : FileWriter)

variable (buf : List UInt8)

/-- One `write(fd, buf, buf_len)`. -/
def FileWriter.write (len : Nat) : Nat × FileWriter :=
  let ret := pattern self.calls len
  (ret, { self with file := self.file ++ buf.take ret, calls := self.calls + 1 })

def outWriterFileWriteLoop (buf : List UInt8) : Nat → FileWriter → Nat → Bool × FileWriter
  | 0, self, _ => (false, self)
  | n + 1, self, len =>
    let (ret, self) := self.write pattern buf len
    if ret = 0 then (true, { self with err := some .failedWrite })
    else if ret > len then (true, { self with err := some .wroteMore })
    else if len - ret ≠ 0 then outWriterFileWriteLoop buf n self (len - ret)
    else (false, self)

/-- `true` is the non-zero return value. -/
def outWriterFileWrite : Bool × FileWriter :=
  outWriterFileWriteLoop pattern buf (buf.length + 1) self buf.length

def outWriterFile : Bool × FileWriter :=
  let bufAvail := bufSize - self.buf.length
  if buf.length > bufSize / 4 then outWriterFileWrite pattern self buf
  else if buf.length ≥ bufAvail then
    match outWriterFileWrite pattern self self.buf with
    | (true, self) => (true, self)
    | (false, self) => (false, { self with buf := buf })
  else (false, { self with buf := self.buf ++ buf })

def ujsonWriterFileClose : FileWriter :=
  if self.buf.length ≠ 0 then (outWriterFileWrite pattern self self.buf).2 else self

variable (bufs : List (List UInt8))

/-- The calls of `out_writer_file`, one for each buffer. -/
def outAll : FileWriter :=
  bufs.foldl (fun self buf => (outWriterFile pattern self buf).2) self

def fileOf : List UInt8 :=
  (ujsonWriterFileClose pattern (outAll pattern {} bufs)).file

/-! ## The calls -/

/-- The next `write` writes all of `len` bytes. -/
def WritesAll (len : Nat) : Prop := pattern self.calls len = len

/-- Nothing waits in front of a large buffer, and what the call writes is written at once. -/
def OutOk : Prop :=
  if buf.length > bufSize / 4 then self.buf = [] ∧ WritesAll pattern self buf.length
  else buf.length ≥ bufSize - self.buf.length → WritesAll pattern self self.buf.length

def CloseOk : Prop :=
  self.buf.length ≠ 0 → WritesAll pattern self self.buf.length

def OutsOk (self : FileWriter) : List (List UInt8) → Prop
  | [] => CloseOk pattern self
  | buf :: bufs => OutOk pattern self buf ∧ OutsOk (outWriterFile pattern self buf).2 bufs

/-- The file holds the buffers in the order of the calls. -/
def FileHolds : Prop :=
  fileOf pattern bufs = bufs.flatten ∧ ∀ n, (outAll pattern {} (bufs.take n)).buf.length ≤ bufSize

end writer

open List FileWriter

def FileWriter.content (self : FileWriter) : List UInt8 := self.file ++ self.buf

variable {buf : List UInt8}

section writer

variable {pattern : Pattern} {self : FileWriter}

lemma outWriterFileWrite_all (hne : buf ≠ []) (h : WritesAll pattern self buf.length) :
    outWriterFileWrite pattern self buf =
      (false, { self with file := self.file ++ buf, calls := self.calls + 1 }) := by
  have hlen : buf.length ≠ 0 := fun h0 => hne (eq_nil_of_length_eq_zero h0)
  unfold WritesAll at h
  simp [outWriterFileWrite, outWriterFileWriteLoop, write, h, hlen]

lemma outWriterFile_content (hfit : self.buf.length < bufSize) (h : OutOk pattern self buf) :
    (outWriterFile pattern self buf).2.content = self.content ++ buf := by
  unfold OutOk at h
  unfold outWriterFile
  split at h
  · rename_i hlarge
    obtain ⟨hempty, hall⟩ := h
    have hne : buf ≠ [] := by
      rintro rfl
      exact absurd hlarge (by decide)
    rw [if_pos hlarge, outWriterFileWrite_all hne hall]
    simp [content, hempty]
  rename_i hsmall
  rw [if_neg hsmall]
  by_cases hfull : buf.length ≥ bufSize - self.buf.length
  · -- the buffer is not empty, since the new bytes would have fitted
    have hne : self.buf ≠ [] := by
      intro hnil
      rw [hnil] at hfull
      simp only [length_nil] at hfull hsmall
      omega
    simp only [if_pos hfull, outWriterFileWrite_all hne (h hfull), content]
  · simp only [if_neg hfull, content, append_assoc]

variable (pattern) in
lemma outWriterFileWriteLoop_buf (buf : List UInt8) (n : Nat) (self : FileWriter) (len : Nat) :
    (outWriterFileWriteLoop pattern buf n self len).2.buf = self.buf := by
  induction n generalizing self len with
  | zero => rfl
  | succ n ih =>
    have hbuf : (self.write pattern buf len).2.buf = self.buf := rfl
    rw [outWriterFileWriteLoop]
    rcases hwrite : self.write pattern buf len with ⟨ret, self'⟩
    rw [hwrite] at hbuf
    dsimp only at hbuf ⊢
    split
    · exact hbuf
    split
    · exact hbuf
    split
    · exact (ih self' (len - ret)).trans hbuf
    · exact hbuf

lemma outWriterFile_buf (hfit : self.buf.length < bufSize) (buf : List UInt8) :
    (outWriterFile pattern self buf).2.buf.length < bufSize := by
  unfold outWriterFile
  split_ifs with hlarge
  · rw [outWriterFileWrite, outWriterFileWriteLoop_buf]
    exact hfit
  by_cases hfull : buf.length ≥ bufSize - self.buf.length
  · have hbuf := outWriterFileWriteLoop_buf pattern self.buf (self.buf.length + 1) self
      self.buf.length
    rw [if_pos hfull, outWriterFileWrite]
    rcases hwrite : outWriterFileWriteLoop pattern self.buf (self.buf.length + 1) self
      self.buf.length with ⟨_ | _, _⟩
    · simp only [bufSize] at hlarge ⊢
      omega
    rw [hwrite] at hbuf
    rw [hbuf]
    exact hfit
  · rw [if_neg hfull]
    simp only [length_append]
    omega

lemma outAll_buf (hfit : self.buf.length < bufSize) (bufs : List (List UInt8)) :
    (outAll pattern self bufs).buf.length < bufSize := by
  induction bufs generalizing self with
  | nil => exact hfit
  | cons buf bufs ih => exact ih (outWriterFile_buf hfit buf)

lemma close_content (h : CloseOk pattern self) :
    (ujsonWriterFileClose pattern self).file = self.content := by
  unfold ujsonWriterFileClose
  by_cases hempty : self.buf.length ≠ 0
  · have hne : self.buf ≠ [] := fun h0 => hempty (by rw [h0]; rfl)
    rw [if_pos hempty, outWriterFileWrite_all hne (h hempty), content]
  · have hnil : self.buf = [] := eq_nil_of_length_eq_zero (not_not.1 hempty)
    rw [if_neg hempty, content, hnil, append_nil]

lemma close_outAll (hfit : self.buf.length < bufSize) {bufs : List (List UInt8)}
    (h : OutsOk pattern self bufs) :
    (ujsonWriterFileClose pattern (outAll pattern self bufs)).file =
      self.content ++ bufs.flatten := by
  induction bufs generalizing self with
  | nil => rw [flatten_nil, append_nil, outAll, foldl_nil, close_content h]
  | cons buf bufs ih =>
    have hrest := ih (outWriterFile_buf hfit buf) h.2
    rw [outWriterFile_content hfit h.1, append_assoc] at hrest
    exact hrest

end writer

/-- **The file holds the buffers in order, if every call meets the
condition.** -/
theorem file_holds (pattern : Pattern) (bufs : List (List UInt8))
    (h : OutsOk pattern {} bufs) : FileHolds pattern bufs :=
  ⟨close_outAll (by decide) h, fun n => Nat.le_of_lt (outAll_buf (by decide) (bufs.take n))⟩

/-- Three small buffers and a `write` that writes all it is given. -/
theorem file_holds_small : FileHolds (fun _ len => len) [[0x61], [0x62, 0x63], [0x64]] :=
  file_holds _ _ ⟨nofun, nofun, nofun, fun _ => rfl⟩

/-- After a short write the begin of the buffer is written again, and a large
buffer overtakes a small one. -/
theorem file_mixed : Pattern.NonFailing (fun call len => if call = 0 then min len 1 else len) ∧
      fileOf (fun call len => if call = 0 then min len 1 else len) [[0x61, 0x62, 0x63]] =
        [0x61, 0x61, 0x62] ∧
      fileOf (fun _ len => len) [[0x61], List.replicate 257 0x62] =
        List.replicate 257 0x62 ++ [0x61] := by
  refine ⟨fun call len hlen => ?_, by decide, by decide +kernel⟩
  dsimp only
  split_ifs
  · omega
  · omega

end LtpDdt.Ujson
