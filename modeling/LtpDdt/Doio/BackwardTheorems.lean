/-
Doio.BackwardTheorems — scanning a write log from its end.

A log is a sequence of frames, packed records with their length behind them
(`logOf`). A scan takes the last frame as long as its length byte has the right
sign (`readBack`, `wlogScanBackward_eq`).
-/
import LtpDdt.Doio.WriteLog

namespace LtpDdt.Doio

open Bytes CTypes List Mem

/-! ## Frames -/

/-- An appended record, with what was in the buffer of the writer. -/
structure Append where
  wrec : WlogRec
  wbuf : Mem

def writeAll (as : List Append) : List UInt8 :=
  as.foldl (fun file a => (wlogRecordWrite file a.wrec a.wbuf (-1)).2) []

lemma recLen_bounds (wrec : WlogRec) : 28 ≤ recLen wrec ∧ recLen wrec ≤ 233 := by
  have hlen : ∀ (w : Nat) (len : Int), diskLen w len < 2 ^ w :=
    fun w len => Nat.mod_lt _ (Nat.two_pow_pos w)
  have h₁ := hlen 7 wrec.pathlen
  have h₂ := hlen 4 wrec.hostlen
  have h₃ := hlen 6 wrec.patternlen
  unfold recLen diskSize
  omega

def body (a : Append) : List UInt8 :=
  (wlogRecPack a.wrec a.wbuf true).2.read 0 (recLen a.wrec)

@[simp] lemma body_length (a : Append) : (body a).length = recLen a.wrec := read_length ..

def frame (a : Append) : List UInt8 := body a ++ [0, UInt8.ofNat (recLen a.wrec)]

@[simp] lemma frame_length (a : Append) : (frame a).length = recLen a.wrec + 2 := by simp [frame]

/-- A log, given by its records from the last to the first. -/
def logOf : List Append → List UInt8
  | [] => []
  | a :: as => logOf as ++ frame a

lemma wlogRecordWrite_append (file : List UInt8) (a : Append) :
    (wlogRecordWrite file a.wrec a.wbuf (-1)).2 = file ++ frame a := by
  have hlen := recLen_bounds a.wrec
  have hpack := (wlogRecPack_spec a.wrec a.wbuf).1
  have hbytes : ∀ (m : Mem) (n : Nat) (x y : UInt8),
      ((m.write n [x]).write (n + 1) [y]).read 0 (n + 2) = m.read 0 n ++ [x, y] := by
    intro m n x y
    rw [← write_cons, read_add, read_congr (write_agree m n [x, y] (.inl (by omega))), Nat.zero_add]
    exact congrArg _ (read_write_self m n [x, y])
  simp only [wlogRecordWrite, show ((-1 : Int) < 0) = True by simp, decide_true]
  rw [hbytes, hpack, Nat.div_eq_of_lt (by omega), Nat.mod_eq_of_lt (by omega)]
  rfl

lemma writeAll_eq (as : List Append) : writeAll as = logOf as.reverse := by
  rw [writeAll, foldl_eq_foldr_reverse]
  induction as.reverse with
  | nil => rfl
  | cons a as ih => rw [foldr_cons, ih, wlogRecordWrite_append, logOf]

lemma Packed.congr {hdr m m' : Mem} {path host pattern : List UInt8}
    (h : Packed hdr path host pattern m)
    (hm : Mem.Agree m' m 0 (diskSize + path.length + host.length + pattern.length)) :
    Packed hdr path host pattern m' where
  agree := (hm.mono (by omega) (by omega)).trans h.agree
  path_eq := (read_congr (hm.mono (by omega) (by omega))).trans h.path_eq
  host_eq := (read_congr (hm.mono (by omega) (by omega))).trans h.host_eq
  pattern_eq := (read_congr (hm.mono (by omega) (by omega))).trans h.pattern_eq

/-- A record that is unpacked is the one that was packed. -/
lemma unpack_body (a : Append) (albuf : Mem) :
    wlogRecUnpack (albuf.write 0 (body a)) = truncated a.wrec := by
  refine ((wlogRecPack_spec a.wrec a.wbuf).2.congr fun i _ hi => ?_).unpack
  have hlt : i < recLen a.wrec := by simpa [recLen, packedPath, packedHost, packedPattern] using hi
  have h := write_read_add albuf (wlogRecPack a.wrec a.wbuf true).2 0 0 hlt
  simpa [body] using h

/-! ## The bytes of a log -/

lemma logOf_cons_length (a : Append) (as : List Append) :
    (logOf (a :: as)).length = (logOf as).length + (recLen a.wrec + 2) := by simp [logOf]

variable {a : Append} {as : List Append} {file : List UInt8} {signed : Bool} {l pos lo : Nat}
  {buf : Mem} {st : Scan}

section LastFrame

variable {a : Append} {as : List Append} {file : List UInt8} (h : logOf (a :: as) <+: file)

include h

lemma getD_frame {k : Nat} (hk : k < recLen a.wrec + 2) :
    file.getD ((logOf as).length + k) 0 = (frame a).getD k 0 := by
  obtain ⟨_, rfl⟩ := h
  have hk' : k < (frame a).length := by simpa using hk
  rw [logOf, append_assoc, getD_append_right _ _ _ _ (Nat.le_add_right ..),
    Nat.add_sub_cancel_left, getD_append _ _ _ _ hk']

lemma getD_body {k : Nat} (hk : k < recLen a.wrec) :
    file.getD ((logOf as).length + k) 0 = (body a).getD k 0 := by
  rw [getD_frame h (by omega), frame, getD_append _ _ _ _ (by simpa using hk)]

lemma getD_trailer : file.getD ((logOf as).length + recLen a.wrec) 0 = 0 ∧
      file.getD ((logOf as).length + (recLen a.wrec + 1)) 0 = UInt8.ofNat (recLen a.wrec) := by
  have hlen := body_length a
  constructor <;>
    rw [getD_frame h (by omega), frame, getD_append_right _ _ _ _ (by omega)] <;> simp

end LastFrame

/-! ## What the scan is to do -/

/-- The length byte of the record is read with its value. -/
def LengthReads (signed : Bool) (wrec : WlogRec) : Prop := signed = true → recLen wrec < 128

instance (signed : Bool) (wrec : WlogRec) : Decidable (LengthReads signed wrec) :=
  inferInstanceAs (Decidable (_ → _))

/-- The calls for the records of a log, the last one first. -/
def readBack (signed : Bool) : List WlogRec → List WlogRec → Except Fault (List WlogRec)
  | [], calls => .ok calls
  | wrec :: wrecs, calls =>
    if LengthReads signed wrec then readBack signed wrecs (calls ++ [truncated wrec])
    else .error .outside

lemma readBack_ok : ∀ {wrecs : List WlogRec}, (∀ r ∈ wrecs, LengthReads signed r) → ∀ calls,
      readBack signed wrecs calls = .ok (calls ++ wrecs.map truncated)
  | [], _, calls => by simp [readBack]
  | r :: rs, h, calls => by
    rw [readBack, if_pos (h r (by simp)), readBack_ok fun r hr => h r (by simp [hr])]
    simp

lemma readBack_error : ∀ {wrecs}, ¬ (∀ r ∈ wrecs, LengthReads signed r) → ∀ calls,
      readBack signed wrecs calls = .error .outside
  | [], h, _ => absurd (by simp) h
  | r :: rs, h, calls => by
    by_cases hr : LengthReads signed r
    · rw [readBack, if_pos hr]
      exact readBack_error (fun hall => h fun x hx => by
        rcases mem_cons.mp hx with rfl | hx
        exacts [hr, hall x hx]) _
    · rw [readBack, if_neg hr]

lemma charVal_trailer (signed : Bool) (wrec : WlogRec) :
    charVal signed 0 * 256 + charVal signed (UInt8.ofNat (recLen wrec)) =
      if LengthReads signed wrec then (recLen wrec : Int) else recLen wrec - 256 := by
  have hlen := recLen_bounds wrec
  have hval : (UInt8.ofNat (recLen wrec)).toNat = recLen wrec := by
    rw [UInt8.toNat_ofNat', Nat.mod_eq_of_lt (by omega)]
  have h0 : charVal signed 0 = 0 := by cases signed <;> rfl
  rw [h0, charVal, hval]
  cases signed <;> simp [LengthReads]
  split <;> split <;> omega

/-! ## The window -/

/-- The bytes of the file from `lo` to `hi` are in the buffer at `pos`. -/
def Holds (buf : Mem) (pos : Nat) (file : List UInt8) (lo hi : Nat) : Prop :=
  ∀ k, lo + k < hi → buf (pos + k) = file.getD (lo + k) 0

lemma keepLeftover_eq {bufstart : Nat} (h : bufstart + l ≤ bufSize) (st : Scan) :
    keepLeftover bufstart (bufstart + l : Nat) st =
      .ok ((l : Int), { st with buf := st.buf.write (bufSize - l) (st.buf.read bufstart l) }) := by
  have hl : ((bufstart + l : Nat) : Int) - bufstart = l := by omega
  have hb : blockOf st.buf bufstart l = .ok (st.buf.read bufstart l) :=
    st.buf.readIn_ok _ _ (by omega)
  have hc : copyTo st.buf (bufSize - l) (st.buf.read bufstart l) =
      .ok (st.buf.write (bufSize - l) (st.buf.read bufstart l)) := by
    rw [show (bufSize : Int) - l = (bufSize - l : Nat) by omega]
    exact st.buf.writeIn_ok _ (by simp; omega)
  simp only [keepLeftover, hl, hb, hc, Scan.access, Except.mapError, bind, Except.bind, pure,
    Except.pure]

lemma Holds.keep (h : Holds buf pos file lo (lo + l)) (pos' : Nat) :
    Holds (buf.write pos' (buf.read pos l)) pos' file lo (lo + l) := by
  intro k hk
  rw [write_read_add _ _ _ _ (by omega), h k hk]

lemma byteOf_eq {pos : Int} (i : Nat) (h : pos = i) (hi : i < bufSize) :
    byteOf buf pos = .ok (buf i) := by
  subst h
  rw [byteOf, if_pos ⟨by omega, by omega⟩]
  rfl

/-- The number at the end of the `l` bytes at `pos`. -/
def lengthAt (signed : Bool) (buf : Mem) (pos l : Nat) : Int :=
  charVal signed (buf (pos + (l - 2))) * 256 + charVal signed (buf (pos + (l - 1)))

/-- `func` was called with the record in `albuf`. -/
def Scan.called (st : Scan) (albuf : Mem) : Scan :=
  { st with albuf := albuf, calls := st.calls ++ [wlogRecUnpack albuf] }

def Scan.counted (st : Scan) : Scan := { st with recnum := st.recnum + 1 }

/-- What the inner loop makes of the records `as`, whose end is in the window from `off` on: it
stops in front of `as'`, with the begin of the last of them left over, or there is a length it
cannot read. -/
inductive WindowEnd (signed : Bool) (file : List UInt8) (off : Nat) (as : List Append) (st : Scan) :
    Except (Fault × Scan) (Int × Scan) → Prop where
  | keep (as' : List Append) (st' : Scan) (l : Nat)
      (same : readBack signed (as.map (·.wrec)) st.calls =
        readBack signed (as'.map (·.wrec)) st'.calls)
      (isLog : logOf as' <+: file) (left : (logOf as').length = off + l) (small : l < 235)
      (held : Holds st'.buf (bufSize - l) file off (off + l)) (done : off = 0 → as' = []) :
      WindowEnd signed file off as st (.ok ((l : Int), st'))
  | fault (st' : Scan) (err : readBack signed (as.map (·.wrec)) st.calls = .error .outside) :
      WindowEnd signed file off as st (.error (.outside, st'))

section Window

variable {signed : Bool} {file : List UInt8} {off bufstart : Nat}

lemma windowEnd_keepLeftover (hlog : logOf as <+: file) (hlen : (logOf as).length = off + l)
    (hfit : bufstart + l ≤ bufSize) (hl : l < 235) (hold : Holds st.buf bufstart file off (off + l))
    (hdone : off = 0 → as = []) :
    WindowEnd signed file off as st (keepLeftover bufstart (bufstart + l : Nat) st) := by
  rw [keepLeftover_eq hfit]
  exact .keep as _ l rfl hlog hlen hl (hold.keep _) hdone

lemma WindowEnd.step {albuf : Mem} {recnum : Nat} {r} (hgood : LengthReads signed a.wrec)
    (h : WindowEnd signed file off as ⟨st.buf, albuf, st.calls ++ [truncated a.wrec], recnum⟩ r) :
    WindowEnd signed file off (a :: as) st r := by
  have hread : readBack signed ((a :: as).map (·.wrec)) st.calls =
      readBack signed (as.map (·.wrec)) (st.calls ++ [truncated a.wrec]) := by
    rw [map_cons, readBack, if_pos hgood]
  cases h with
  | keep as' st' l same isLog left small held done =>
    exact .keep as' st' l (hread.trans same) isLog left small held done
  | fault st' err => exact .fault st' (hread.trans err)

lemma scanWindow_succ {nrecs : Nat} {func : List WlogRec → Bool} {n : Nat} (hl : 2 ≤ l)
    (hfit : bufstart + l ≤ bufSize) :
    scanWindow signed nrecs func bufstart (n + 1) (bufstart + l : Nat) st =
      let reclen := lengthAt signed st.buf bufstart l
      if (l : Int) < reclen + 2 then keepLeftover bufstart (bufstart + l : Nat) st
      else (st.access (blockOf st.buf ((bufstart + l : Nat) - (reclen + 2)) reclen)).bind fun bs =>
        (st.access (alignTo st.albuf bs)).bind fun albuf =>
          if func (st.calls ++ [wlogRecUnpack albuf]) then .ok (0, st.called albuf)
          else if nrecs ≠ 0 ∧ st.recnum + 1 ≥ nrecs then .ok (0, (st.called albuf).counted)
          else scanWindow signed nrecs func bufstart n ((bufstart + l : Nat) - (reclen + 2))
            (st.called albuf).counted := by
  have h₁ : ¬ ((bufstart + l : Nat) : Int) < bufstart := by omega
  have h₂ : ((bufstart + l : Nat) : Int) - bufstart = l := by omega
  have h₃ : ¬ (l : Int) < 2 := by omega
  rw [scanWindow, if_neg h₁, h₂, if_neg h₃, byteOf_eq (bufstart + (l - 2)) (by omega) (by omega),
    byteOf_eq (bufstart + (l - 1)) (by omega) (by omega)]
  rfl

variable (signed off bufstart) in
/-- **A window reads the records that end in it.** -/
lemma scanWindow_spec : ∀ as n l (st : Scan), logOf as <+: file →
      (logOf as).length = off + l → bufstart + l ≤ bufSize → l < n →
      Holds st.buf bufstart file off (off + l) → WindowEnd signed file off as st
        (scanWindow signed 0 (fun _ => false) bufstart n (bufstart + l : Nat) st)
  | [], n + 1, l, st, hlog, hlen, hfit, _, hold => by
    obtain rfl : l = 0 := by simp [logOf] at hlen; omega
    have h₁ : ¬ ((bufstart + 0 : Nat) : Int) < bufstart := by omega
    have h₂ : ((bufstart + 0 : Nat) : Int) - bufstart < 2 := by omega
    rw [scanWindow, if_neg h₁, if_pos h₂]
    exact windowEnd_keepLeftover hlog hlen hfit (by omega) hold fun _ => rfl
  | a :: as, n + 1, l, st, hlog, hlen, hfit, hn, hold => by
    have hrec := recLen_bounds a.wrec
    have hlen' := hlen
    rw [logOf_cons_length] at hlen'
    by_cases h2 : l < 2
    · have h₁ : ¬ ((bufstart + l : Nat) : Int) < bufstart := by omega
      have h₂ : ((bufstart + l : Nat) : Int) - bufstart < 2 := by omega
      rw [scanWindow, if_neg h₁, if_pos h₂]
      exact windowEnd_keepLeftover hlog hlen hfit (by omega) hold fun _ => by omega
    obtain ⟨t₁, t₂⟩ := getD_trailer hlog
    rw [show (logOf as).length + recLen a.wrec = off + (l - 2) by omega,
      ← hold (l - 2) (by omega)] at t₁
    rw [show (logOf as).length + (recLen a.wrec + 1) = off + (l - 1) by omega,
      ← hold (l - 1) (by omega)] at t₂
    rw [scanWindow_succ (by omega) hfit, lengthAt, t₁, t₂, charVal_trailer]
    by_cases hgood : LengthReads signed a.wrec
    · rw [if_pos hgood]
      by_cases hall : (l : Int) < recLen a.wrec + 2
      · simp only [hall, if_true]
        exact windowEnd_keepLeftover hlog hlen hfit (by omega) hold fun _ => by omega
      obtain ⟨j, rfl⟩ : ∃ j, l = j + (recLen a.wrec + 2) := ⟨l - (recLen a.wrec + 2), by omega⟩
      have hcp : ((bufstart + (j + (recLen a.wrec + 2)) : Nat) : Int) - (recLen a.wrec + 2) =
          (bufstart + j : Nat) := by omega
      have hbs : st.buf.read (bufstart + j) (recLen a.wrec) = body a := by
        rw [← body_length]
        refine read_eq _ _ _ fun k hk => ?_
        rw [body_length] at hk
        rw [Nat.add_assoc, hold (j + k) (by omega), ← getD_body hlog hk]
        congr 1
        omega
      have hblock : blockOf st.buf (bufstart + j : Nat) (recLen a.wrec) = .ok (body a) := by
        rw [← hbs]
        exact st.buf.readIn_ok _ _ (by omega)
      have halign : alignTo st.albuf (body a) = .ok (st.albuf.write 0 (body a)) := by
        refine st.albuf.writeIn_ok 0 ?_
        rw [body_length]
        unfold wlogRecMaxSize
        omega
      simp only [hall, if_false, hcp, hblock, halign, Scan.access, Except.mapError, Except.bind,
        Scan.called, Scan.counted, unpack_body, Bool.false_eq_true, ne_eq, not_true_eq_false,
        false_and]
      have ih := scanWindow_spec as n j
        ⟨st.buf, st.albuf.write 0 (body a), st.calls ++ [truncated a.wrec], st.recnum + 1⟩
        ((prefix_append ..).trans hlog) (by omega) (by omega) (by omega) fun k hk =>
          hold k (by omega)
      exact ih.step hgood
    · -- the length is taken for a negative number
      rw [if_neg hgood]
      have hneg : ¬ (l : Int) < (recLen a.wrec : Int) - 256 + 2 := by omega
      have hblock : ∀ pos, blockOf st.buf pos ((recLen a.wrec : Int) - 256) = .error .outside :=
        fun pos => st.buf.readIn_neg pos (by omega)
      simp only [hneg, if_false, hblock, Scan.access, Except.mapError, Except.bind]
      exact .fault _ (by rw [map_cons, readBack, if_neg hgood])

end Window

/-! ## The rounds -/

lemma Holds.extend {off : Nat} (hlo : lo ≤ off) (hfile : off ≤ file.length)
    (h : Holds buf (pos + (off - lo)) file off (off + l)) :
    Holds (buf.write pos (slice file lo (off - lo))) pos file lo (off + l) := by
  intro k _
  have hlen : (slice file lo (off - lo)).length = off - lo := length_slice (by omega)
  by_cases hnew : k < off - lo
  · rw [write_inside (by omega) 0, getD_slice _ _ hnew]
  have hold := h (k - (off - lo)) (by omega)
  rw [show pos + (off - lo) + (k - (off - lo)) = pos + k by omega,
    show off + (k - (off - lo)) = lo + k by omega] at hold
  rw [write_outside (by omega), hold]

section Rounds

variable {signed : Bool} {file : List UInt8}

variable (signed) in
/-- A round of the outer loop. -/
def scanRound (nrecs : Nat) (func : List WlogRec → Bool) (file : List UInt8)
    (offset leftover bufstart : Int) (st : Scan) :
    Except (Fault × Scan) (Int × Int × Int × Scan) := do
  let (bufstart, offset) :=
    if offset + leftover < bufSize then ((bufSize : Int) - (offset + leftover), 0)
    else (bufstart, offset - (bufSize - leftover))
  let bs := slice file offset.toNat (bufSize - bufstart - leftover).toNat
  let buf ← st.access (copyTo st.buf bufstart bs)
  let (leftover, st) ← scanWindow signed nrecs func bufstart (bufSize + 1) bufSize
    { st with buf := buf }
  return (offset, leftover, bufstart, st)

variable {nrecs : Nat} {func : List WlogRec → Bool} {n off l : Nat} {st : Scan}

lemma scanLoop_round (hmore : nrecs = 0 ∨ st.recnum < nrecs) {offset leftover bufstart : Int}
    (hoff : offset > 0) :
    scanLoop signed nrecs func file (n + 1) offset leftover bufstart st =
      (scanRound signed nrecs func file offset leftover bufstart st).bind fun r =>
        scanLoop signed nrecs func file n r.1 r.2.1 r.2.2.1 r.2.2.2 := by
  rw [scanLoop, if_pos ⟨hmore, hoff⟩]
  simp only [scanRound, bind, Except.bind]
  split
  · rfl
  · split <;> rfl

lemma scanRound_eq (hl : l ≤ bufSize) (hlo : lo = off + l - bufSize)
    (hpos : pos = bufSize - (off + l - lo)) :
    scanRound signed nrecs func file off l (0 : Nat) st =
      (scanWindow signed nrecs func pos (bufSize + 1) bufSize
        { st with buf := st.buf.write pos (slice file lo (off - lo)) }).map fun r =>
          ((lo : Int), r.1, (pos : Int), r.2) := by
  have hstart : (if (off : Int) + l < bufSize then ((bufSize : Int) - (off + l), (0 : Int))
      else (((0 : Nat) : Int), (off : Int) - (bufSize - l))) = ((pos : Int), (lo : Int)) := by
    split <;> simp only [Prod.mk.injEq] <;> omega
  have hsize : ((bufSize : Int) - pos - l).toNat = off - lo := by omega
  have hcopy : copyTo st.buf pos (slice file lo (off - lo)) =
      .ok (st.buf.write pos (slice file lo (off - lo))) := by
    have hlen : (slice file lo (off - lo)).length ≤ off - lo := length_take_le ..
    have hend : (pos : Int) + (slice file lo (off - lo)).length ≤ bufSize := by omega
    exact st.buf.writeIn_ok _ hend
  rw [scanRound, hstart]
  simp only [hsize, Int.toNat_natCast, hcopy, Scan.access, Except.mapError, bind, Except.bind]
  cases scanWindow signed nrecs func pos (bufSize + 1) bufSize
    { st with buf := st.buf.write pos (slice file lo (off - lo)) } <;> rfl

variable (signed) in
/-- **The loop reads the log backwards.** -/
lemma scanLoop_spec : ∀ (n off l bufstart : Nat) (as : List Append) (st : Scan), logOf as <+: file →
      (logOf as).length = off + l → l < 235 → Holds st.buf (bufSize - l) file off (off + l) →
      (off = 0 → as = []) → (0 < off → bufstart = 0) → off < n →
      ((scanLoop signed 0 (fun _ => false) file n off l bufstart st).mapError (·.1)).map (·.calls) =
        readBack signed (as.map (·.wrec)) st.calls
  | n + 1, 0, l, bufstart, as, st, _, _, _, _, hdone, _, _ => by
    obtain rfl := hdone rfl
    rw [scanLoop, if_neg (by simp)]
    rfl
  | n + 1, off + 1, l, bufstart, as, st, hlog, hlen, hl, hold, _, hstart, hn => by
    obtain rfl := hstart (by omega)
    have hfile := hlog.length_le
    obtain ⟨lo, hlo⟩ : ∃ lo, lo = off + 1 + l - bufSize := ⟨_, rfl⟩
    obtain ⟨pos, hpos⟩ : ∃ pos, pos = bufSize - (off + 1 + l - lo) := ⟨_, rfl⟩
    have hsize : bufSize = 16384 := rfl
    rw [scanLoop_round (.inl rfl) (by omega), scanRound_eq (by omega) hlo hpos]
    have hwin := scanWindow_spec signed lo pos as (bufSize + 1) (off + 1 + l - lo)
      { st with buf := st.buf.write pos (slice file lo (off + 1 - lo)) } hlog (by omega)
      (by omega) (by omega)
      (by
        rw [show lo + (off + 1 + l - lo) = off + 1 + l by omega]
        refine Holds.extend (by omega) (by omega) ?_
        rwa [show pos + (off + 1 - lo) = bufSize - l by omega])
    rw [show ((pos + (off + 1 + l - lo) : Nat) : Int) = bufSize by omega] at hwin
    generalize scanWindow .. = r at hwin ⊢
    cases hwin with
    | keep as' st' l' same isLog left small held done =>
      rw [same]
      exact scanLoop_spec n lo l' pos as' st' isLog left small held done (by omega) (by omega)
    | fault st' err => exact err.symm

end Rounds

/-- **The scan of a log**, whatever is in its buffers before. -/
theorem wlogScanBackward_eq (signed : Bool) (toInt : Int → Int) (as : List Append)
    (htoInt : toInt (logOf as).length = (logOf as).length) (buf albuf : Mem) :
    wlogScanBackward signed 0 (fun _ => false) toInt (logOf as) ⟨buf, albuf, [], 0⟩ =
      (readBack signed (as.map (·.wrec)) []).map fun calls => (0, calls) := by
  have hloop := scanLoop_spec signed ((logOf as).length + 1) (logOf as).length 0 0 as
    ⟨buf, albuf, [], 0⟩ (prefix_refl _) rfl (by omega)
    (fun k hk => by omega)
    (fun h => by
      cases as with
      | nil => rfl
      | cons => rw [logOf_cons_length] at h; omega)
    (fun _ => rfl) (by omega)
  rw [wlogScanBackward, htoInt, ← hloop]
  cases scanLoop signed 0 (fun _ => false) (logOf as) ((logOf as).length + 1)
    (logOf as).length 0 0 ⟨buf, albuf, [], 0⟩ <;> rfl

/-- The scan of a written log calls `func` once for each record, the last one first, with the packed
values, inside of its buffer, whatever an offset that is no `int` becomes. -/
def ScansAll (signed : Bool) (as : List Append) : Prop :=
  ∀ toInt : Int → Int, (∀ x : Int, 0 ≤ x → x ≤ intMax → toInt x = x) → ∀ buf albuf : Mem,
    wlogScanBackward signed 0 (fun _ => false) toInt (writeAll as) ⟨buf, albuf, [], 0⟩ =
      .ok (0, (as.map fun a => truncated a.wrec).reverse)

/-- **The backward scan finds every record exactly if** the size of the log is
an `int` and, where `char` is signed, no record has 128 bytes or more. -/
theorem scansAll_iff (signed : Bool) (as : List Append) : ScansAll signed as ↔
      ((writeAll as).length : Int) ≤ intMax ∧ (signed = true → ∀ a ∈ as, recLen a.wrec < 128) := by
  have hreads : (∀ r ∈ as.reverse.map (·.wrec), LengthReads signed r) ↔
      (signed = true → ∀ a ∈ as, recLen a.wrec < 128) := by
    simp only [mem_map, mem_reverse, forall_exists_index, and_imp, forall_apply_eq_imp_iff₂]
    exact ⟨fun h hs a ha => h a ha hs, fun h a ha hs => h hs a ha⟩
  have hcalls : (as.map fun a => truncated a.wrec).reverse =
      (as.reverse.map (·.wrec)).map truncated := by
    rw [map_map, ← map_reverse]
    rfl
  unfold ScansAll
  rw [writeAll_eq, hcalls, ← hreads]
  constructor
  · intro h
    have hsize : ((logOf as.reverse).length : Int) ≤ intMax := by
      -- an implementation may convert a larger size to -1
      by_contra hbig
      have hrun := h (fun x => if x ≤ intMax then x else -1) (fun x _ hx => if_pos hx) zeroes zeroes
      simp [wlogScanBackward, if_neg hbig] at hrun
    refine ⟨hsize, ?_⟩
    by_contra hbad
    have hrun := h id (fun _ _ _ => rfl) zeroes zeroes
    rw [wlogScanBackward_eq _ _ _ rfl, readBack_error hbad] at hrun
    cases hrun
  · rintro ⟨hsize, hall⟩ _ hid _ _
    rw [wlogScanBackward_eq _ _ _ (hid _ (by omega) hsize), readBack_ok hall]
    rfl

/-- With a signed `char`, one record of 128 bytes is copied from outside of the buffer. -/
theorem scan_signed_leaves_buffer : recLen (sampleRec 88) = 128 ∧
      wlogScanBackward true 0 (fun _ => false) id (writeAll [⟨sampleRec 88, zeroes⟩])
        ⟨zeroes, zeroes, [], 0⟩ = .error .outside := by
  have hlen : recLen (sampleRec 88) = 128 := by decide
  have hread : readBack true [sampleRec 88] [] = .error .outside :=
    readBack_error (fun h => absurd (h _ (mem_singleton_self _) rfl) (by simp [hlen])) _
  refine ⟨hlen, ?_⟩
  rw [writeAll_eq, wlogScanBackward_eq _ _ _ rfl]
  exact congrArg (Except.map _) hread

end LtpDdt.Doio
