/-
Doio.StopTheorems — how the backward scan ends when the function that it
calls says so.

`WLOG_STOP_SCAN` leaves the loop over a window, but the loop over the windows
goes on and takes the bytes in front of it for the end of a record. `RoundsOk`
asks at a stop that these bytes are none. File and `func` are arbitrary.
-/
import LtpDdt.Doio.BackwardTheorems

namespace LtpDdt.Doio

open Bytes CTypes List

variable {l : Nat} {st : Scan} {off b n : Nat}

/-! ## What a scan should do -/

/-- `func` stops the scan at the call `i`. -/
def StopsAt (func : List WlogRec → Bool) (calls : List WlogRec) (i : Nat) : Prop :=
  i < calls.length ∧ func (calls.take (i + 1)) = true

/-- The scan ends where `func` stops it, accesses nothing outside of the buffers behind that, and
makes at most `nrecs` calls. -/
structure Obeys (nrecs : Nat) (func : List WlogRec → Bool) (calls : List WlogRec)
    (out : Except Fault (Int × List WlogRec)) : Prop where
  last : ∀ i, StopsAt func calls i → i + 1 = calls.length
  inside : ∀ i, StopsAt func calls i → out ≠ .error .outside
  count : nrecs ≠ 0 → calls.length ≤ nrecs

/-- The length that the two bytes in front of `off` announce. -/
def lengthBefore (signed : Bool) (file : List UInt8) (off : Nat) : Int :=
  charVal signed (file.getD (off - 2) 0) * 256 + charVal signed (file.getD (off - 1) 0)

/-- What a window holds in front of `offset` is too short for the record that its last two bytes
announce. -/
def NothingBefore (signed : Bool) (file : List UInt8) (offset : Int) : Prop :=
  min offset bufSize < 2 ∨ min offset bufSize < lengthBefore signed file offset.toNat + 2

/-- `func` has stopped the scan on the way from `st` to `st'`. -/
def Stopped (func : List WlogRec → Bool) (st st' : Scan) : Prop :=
  st.calls.length < st'.calls.length ∧ func st'.calls = true

instance (func : List WlogRec → Bool) (st st' : Scan) : Decidable (Stopped func st st') :=
  inferInstanceAs (Decidable (_ ∧ _))

section conditions

variable (signed : Bool) (nrecs : Nat) (func : List WlogRec → Bool) (file : List UInt8)

/-- When `func` stops the scan, there is no record in front of the window. -/
def RoundsOk : Nat → Int → Int → Int → Scan → Prop
  | 0, _, _, _, _ => True
  | n + 1, offset, leftover, bufstart, st =>
    if (nrecs = 0 ∨ st.recnum < nrecs) ∧ offset > 0 then
      match scanRound signed nrecs func file offset leftover bufstart st with
      | .error _ => True
      | .ok (offset, leftover, bufstart, st') =>
        if Stopped func st st' then NothingBefore signed file offset
        else RoundsOk n offset leftover bufstart st'
    else True

def ScanOk (toInt : Int → Int) (st : Scan) : Prop :=
  toInt file.length ≠ -1 →
    RoundsOk signed nrecs func file (file.length + 1) (toInt file.length) 0 0 st

end conditions

/-! ## A round of the inner loop -/

/-- The `l` bytes at `pos` are no record. -/
def NoRecord (signed : Bool) (buf : Mem) (pos l : Nat) : Prop :=
  l < 2 ∨ (l : Int) < lengthAt signed buf pos l + 2

lemma write_read_self (m : Mem) (pos n : Nat) : m.write pos (m.read pos n) = m := by
  funext i
  by_cases hi : pos ≤ i ∧ i < pos + n
  · obtain ⟨k, rfl⟩ := Nat.exists_eq_add_of_le hi.1
    exact Mem.write_read_add m m pos pos (by omega)
  · exact Mem.write_outside (by rw [Mem.read_length]; omega)

section window

variable {signed : Bool} {nrecs : Nat} {func : List WlogRec → Bool} {pos : Nat}

/-- A round of the inner loop: the rest of the window is kept, the scan leaves its buffers, or
`func` is called. -/
lemma scanWindow_cases (n : Nat) (hfit : pos + l ≤ bufSize) (st : Scan) :
    (NoRecord signed st.buf pos l ∧ scanWindow signed nrecs func pos (n + 1) (pos + l : Nat) st =
        .ok ((l : Int), { st with buf := st.buf.write (bufSize - l) (st.buf.read pos l) })) ∨
    ¬ NoRecord signed st.buf pos l ∧
      (scanWindow signed nrecs func pos (n + 1) (pos + l : Nat) st = .error (.outside, st) ∨
        ∃ albuf j, j < l ∧ scanWindow signed nrecs func pos (n + 1) (pos + l : Nat) st =
          if func (st.calls ++ [wlogRecUnpack albuf]) then .ok (0, st.called albuf)
          else if nrecs ≠ 0 ∧ st.recnum + 1 ≥ nrecs then .ok (0, (st.called albuf).counted)
          else scanWindow signed nrecs func pos n (pos + j : Nat) (st.called albuf).counted) := by
  by_cases h2 : l < 2
  · refine .inl ⟨.inl h2, ?_⟩
    have h₁ : ¬ ((pos + l : Nat) : Int) < pos := by omega
    have h₂ : ((pos + l : Nat) : Int) - pos < 2 := by omega
    rw [scanWindow, if_neg h₁, if_pos h₂, keepLeftover_eq hfit]
  rw [scanWindow_succ (by omega) hfit]
  by_cases hshort : (l : Int) < lengthAt signed st.buf pos l + 2
  · refine .inl ⟨.inr hshort, ?_⟩
    simp only [hshort]
    exact keepLeftover_eq hfit st
  refine .inr ⟨fun h => h.elim h2 hshort, ?_⟩
  simp only [hshort, if_false]
  generalize lengthAt signed st.buf pos l = len at hshort ⊢
  rcases Int.lt_or_le len 0 with hneg | hlen
  · exact .inl (by rw [blockOf, Mem.readIn_neg _ _ hneg]; rfl)
  obtain ⟨k, rfl⟩ := Int.eq_ofNat_of_zero_le hlen
  obtain ⟨j, hj⟩ : ∃ j, l = j + (k + 2) := ⟨l - (k + 2), by omega⟩
  have hcp : ((pos + l : Nat) : Int) - ((k : Int) + 2) = (pos + j : Nat) := by omega
  have hblock : blockOf st.buf (pos + j : Nat) k = .ok (st.buf.read (pos + j) k) :=
    st.buf.readIn_ok _ _ (by omega)
  rw [hcp, hblock]
  cases halign : alignTo st.albuf (st.buf.read (pos + j) k) with
  | error fault =>
    rw [alignTo, Mem.writeIn] at halign
    split at halign
    · cases halign
    obtain rfl : Fault.outside = fault := Except.error.inj halign
    refine .inl ?_
    simp only [Scan.access, Except.mapError, Except.bind, alignTo, Mem.writeIn, if_neg ‹_›]
  | ok albuf =>
    refine .inr ⟨albuf, j, by omega, ?_⟩
    simp [Scan.access, Except.mapError, Except.bind, halign]

end window

/-! ## Whole windows -/

/-- There are `calls` and maybe more, and the bytes that are kept fit into the window. -/
inductive Grows (pos : Nat) (calls : List WlogRec) : Except (Fault × Scan) (Int × Scan) → Prop where
  | fault (fault : Fault) (st : Scan) (h : calls <+: st.calls) :
      Grows pos calls (.error (fault, st))
  | ok (l : Nat) (st : Scan) (hl : l ≤ bufSize - pos) (h : calls <+: st.calls) :
      Grows pos calls (.ok ((l : Int), st))

/-- The scan goes on: all calls are counted, and `func` has not stopped it. -/
structure Quiet (nrecs : Nat) (func : List WlogRec → Bool) (st : Scan) : Prop where
  counted : st.recnum = st.calls.length
  noStop : ∀ i, ¬ StopsAt func st.calls i
  within : nrecs ≠ 0 → st.calls.length ≤ nrecs

/-- `func` has stopped the scan at the last call, which is not counted. -/
structure AtStop (nrecs : Nat) (func : List WlogRec → Bool) (st : Scan) : Prop where
  counted : st.calls.length = st.recnum + 1
  more : nrecs = 0 ∨ st.recnum < nrecs
  stop : func st.calls = true
  only : ∀ i, StopsAt func st.calls i → i + 1 = st.calls.length

/-- What the inner loop can do with a scan that goes on. -/
inductive WindowRun (signed : Bool) (nrecs : Nat) (func : List WlogRec → Bool) (pos : Nat)
    (st : Scan) : Except (Fault × Scan) (Int × Scan) → Prop where
  | fault (fault : Fault) (st' : Scan) (h : Quiet nrecs func st') :
      WindowRun signed nrecs func pos st (.error (fault, st'))
  | quiet (l : Nat) (st' : Scan) (h : Quiet nrecs func st') (hl : l ≤ bufSize - pos)
      (hfull : l = bufSize → NoRecord signed st'.buf 0 bufSize) :
      WindowRun signed nrecs func pos st (.ok ((l : Int), st'))
  | stop (st' : Scan) (h : AtStop nrecs func st') (hlt : st.calls.length < st'.calls.length) :
      WindowRun signed nrecs func pos st (.ok (0, st'))

variable {calls : List WlogRec} {albuf : Mem} {toInt : Int → Int} {a : Append}

section calls

variable {nrecs : Nat} {func : List WlogRec → Bool} {st : Scan}

lemma stopsAt_append {rest i} (h : StopsAt func calls i) : StopsAt func (calls ++ rest) i := by
  refine ⟨by rw [length_append]; exact Nat.lt_add_right _ h.1, ?_⟩
  rw [take_append_of_le_length h.1]
  exact h.2

lemma stopsAt_concat {wrec i} (h : StopsAt func (calls ++ [wrec]) i) :
    StopsAt func calls i ∨ i = calls.length ∧ func (calls ++ [wrec]) := by
  obtain ⟨hi, hfunc⟩ := h
  rw [length_append, length_singleton] at hi
  rcases Nat.lt_or_ge i calls.length with hlt | _
  · rw [take_append_of_le_length hlt] at hfunc
    exact .inl ⟨hlt, hfunc⟩
  obtain rfl : i = calls.length := by omega
  rw [take_of_length_le (by simp)] at hfunc
  exact .inr ⟨rfl, hfunc⟩

lemma AtStop.stopsAt (h : AtStop nrecs func st) : StopsAt func st.calls st.recnum := by
  have hlen := h.counted
  refine ⟨by omega, ?_⟩
  rw [← hlen, take_length]
  exact h.stop

lemma Quiet.called (h : Quiet nrecs func st) (hmore : nrecs = 0 ∨ st.recnum < nrecs)
    (hstop : func (st.calls ++ [wlogRecUnpack albuf])) : AtStop nrecs func (st.called albuf) := by
  refine ⟨?_, hmore, hstop, fun i hi => ?_⟩
  · rw [Scan.called, length_append, length_singleton, h.counted]
  rcases stopsAt_concat hi with hold | ⟨rfl, -⟩
  · exact absurd hold (h.noStop i)
  · simp [Scan.called]

lemma Quiet.counted_called (h : Quiet nrecs func st) (hmore : nrecs = 0 ∨ st.recnum < nrecs)
    (hstop : ¬ func (st.calls ++ [wlogRecUnpack albuf])) :
    Quiet nrecs func (st.called albuf).counted := by
  have hlen : (st.calls ++ [wlogRecUnpack albuf]).length = st.recnum + 1 := by
    rw [length_append, length_singleton, h.counted]
  refine ⟨hlen.symm, fun i hi => ?_, fun hn => ?_⟩
  · rcases stopsAt_concat hi with hold | ⟨-, hnew⟩
    · exact h.noStop i hold
    · exact hstop hnew
  · rw [Scan.counted, Scan.called, hlen]
    omega

end calls

section windows

variable {signed : Bool} {nrecs : Nat} {func : List WlogRec → Bool} {pos : Nat}

variable (signed nrecs func) in
/-- A window only adds calls. -/
lemma scanWindow_grows (n : Nat) (hfit : pos + l ≤ bufSize) (st : Scan) :
    Grows pos st.calls (scanWindow signed nrecs func pos n (pos + l : Nat) st) := by
  induction n generalizing l st with
  | zero => exact .fault _ st (prefix_refl _)
  | succ n ih =>
    rcases scanWindow_cases n hfit st with ⟨-, hkeep⟩ | ⟨-, hout | ⟨albuf, j, _, htake⟩⟩
    · rw [hkeep]
      exact .ok l _ (by omega) (prefix_refl _)
    · rw [hout]
      exact .fault _ st (prefix_refl _)
    have hcall : st.calls <+: (st.called albuf).calls := prefix_append ..
    rw [htake]
    split
    · exact .ok 0 _ (Nat.zero_le _) hcall
    split
    · exact .ok 0 _ (Nat.zero_le _) hcall
    generalize hr : scanWindow signed nrecs func pos n _ _ = r
    have hrest := ih (l := j) (by omega) (st.called albuf).counted
    rw [hr] at hrest
    cases hrest with
    | fault fault st' h => exact .fault fault st' (hcall.trans h)
    | ok l st' hl h => exact .ok l st' hl (hcall.trans h)

variable (nrecs func) in
lemma scanWindow_calls (n : Nat) (hfit : pos + l ≤ bufSize) (h : ¬ NoRecord signed st.buf pos l) :
    scanWindow signed nrecs func pos (n + 1) (pos + l : Nat) st = .error (.outside, st) ∨
      ∃ albuf, Grows pos (st.called albuf).calls
        (scanWindow signed nrecs func pos (n + 1) (pos + l : Nat) st) := by
  rcases scanWindow_cases n hfit st with ⟨hno, -⟩ | ⟨-, hout | ⟨albuf, j, _, htake⟩⟩
  · exact absurd hno h
  · exact .inl hout
  refine .inr ⟨albuf, ?_⟩
  rw [htake]
  split
  · exact .ok 0 _ (Nat.zero_le _) (prefix_refl _)
  split
  · exact .ok 0 _ (Nat.zero_le _) (prefix_refl _)
  · have hfit' : pos + j ≤ bufSize := by omega
    exact scanWindow_grows signed nrecs func n hfit' (st.called albuf).counted

variable (signed) in
/-- A window calls up to the stop. -/
lemma scanWindow_run (n : Nat) (hfit : pos + l ≤ bufSize)
    (h : Quiet nrecs func st) (hmore : nrecs = 0 ∨ st.recnum < nrecs) :
    WindowRun signed nrecs func pos st (scanWindow signed nrecs func pos n (pos + l : Nat) st) := by
  induction n generalizing l st with
  | zero => exact .fault _ st h
  | succ n ih =>
    rcases scanWindow_cases n hfit st with ⟨hno, hkeep⟩ | ⟨-, hout | ⟨albuf, j, _, htake⟩⟩
    · rw [hkeep]
      refine .quiet l _ ⟨h.counted, h.noStop, h.within⟩ (by omega) fun hfull => ?_
      -- the whole buffer is kept where it is
      obtain rfl : pos = 0 := by omega
      subst hfull
      simpa only [Nat.sub_self, write_read_self] using hno
    · rw [hout]
      exact .fault _ st h
    rw [htake]
    have hlt : st.calls.length < (st.called albuf).calls.length := by simp [Scan.called]
    split
    · exact .stop _ (h.called hmore ‹_›) hlt
    have h' := h.counted_called hmore ‹_›
    split
    · exact .quiet 0 _ h' (Nat.zero_le _) fun hfull => absurd hfull (by decide)
    have hmore' : nrecs = 0 ∨ (st.called albuf).counted.recnum < nrecs := by
      show nrecs = 0 ∨ st.recnum + 1 < nrecs
      omega
    generalize hr : scanWindow signed nrecs func pos n _ _ = r
    have hrest := ih (l := j) (by omega) h' hmore'
    rw [hr] at hrest
    cases hrest with
    | fault fault st' h => exact .fault fault st' h
    | quiet l st' h hl hfull => exact .quiet l st' h hl hfull
    | stop st' h hlt' => exact .stop st' h (Nat.lt_trans hlt hlt')

end windows

/-! ## The rounds -/

def callsOf : Except (Fault × Scan) Scan → List WlogRec
  | .ok st => st.calls
  | .error (_, st) => st.calls

def outcome (r : Except (Fault × Scan) Scan) : Except Fault (Int × List WlogRec) := do
  let st ← r.mapError (·.1)
  return (0, st.calls)

section ends

variable {nrecs : Nat} {func : List WlogRec → Bool} {st : Scan}
  {out : Except Fault (Int × List WlogRec)}

lemma Quiet.obeys (h : Quiet nrecs func st) : Obeys nrecs func st.calls out :=
  ⟨fun i hi => absurd hi (h.noStop i), fun i hi => absurd hi (h.noStop i), h.within⟩

lemma AtStop.obeys (h : AtStop nrecs func st) (hout : out ≠ .error .outside) :
    Obeys nrecs func st.calls out := by
  refine ⟨h.only, fun _ _ => hout, fun hn => ?_⟩
  have hlen := h.counted
  have hmore := h.more
  omega

lemma AtStop.not_obeys (h : AtStop nrecs func st) (hcalls : st.calls <+: calls)
    (hlt : st.calls.length < calls.length) : ¬ Obeys nrecs func calls out := by
  intro hobeys
  obtain ⟨_, rfl⟩ := hcalls
  have hlast := hobeys.last _ (stopsAt_append h.stopsAt)
  have hlen := h.counted
  omega

end ends

section rounds

variable {signed : Bool} {nrecs : Nat} {func : List WlogRec → Bool} {file : List UInt8}

lemma scanLoop_ends (n : Nat) {offset leftover bufstart}
    (h : ¬ ((nrecs = 0 ∨ st.recnum < nrecs) ∧ offset > 0)) :
    scanLoop signed nrecs func file (n + 1) offset leftover bufstart st = .ok st := by
  rw [scanLoop, if_neg h]

lemma scanWindow_keeps (n : Nat) {pos} (hpos : pos ≤ bufSize)
    (h : NoRecord signed st.buf pos (bufSize - pos)) :
    scanWindow signed nrecs func pos (n + 1) bufSize st =
      .ok (((bufSize - pos : Nat) : Int), st) := by
  have hcp : (bufSize : Int) = (pos + (bufSize - pos) : Nat) := by omega
  have hfit : pos + (bufSize - pos) ≤ bufSize := by omega
  rw [hcp]
  rcases scanWindow_cases n hfit st with ⟨-, hkeep⟩ | ⟨hno, -⟩
  · rw [hkeep, show bufSize - (bufSize - pos) = pos by omega, write_read_self]
  · exact absurd h hno

/-- A buffer with no record calls nothing. -/
lemma scanRound_stuck (h : NoRecord signed st.buf 0 bufSize) :
    scanRound signed nrecs func file off bufSize (0 : Nat) st =
      .ok ((off : Int), (bufSize : Int), ((0 : Nat) : Int), st) := by
  have hslice : slice file off (off - off) = [] := by simp [slice]
  have hlo : off = off + bufSize - bufSize := by omega
  have hpos : 0 = bufSize - (off + bufSize - off) := by omega
  rw [scanRound_eq (Nat.le_refl _) hlo hpos, hslice,
    Mem.write_nil, scanWindow_keeps bufSize (Nat.zero_le _) h]
  rfl

variable (nrecs func file) in
lemma scanLoop_stuck (n off : Nat) (h : NoRecord signed st.buf 0 bufSize) :
    callsOf (scanLoop signed nrecs func file n off bufSize (0 : Nat) st) = st.calls ∧
      outcome (scanLoop signed nrecs func file n off bufSize (0 : Nat) st) ≠ .error .outside := by
  induction n with
  | zero => exact ⟨rfl, nofun⟩
  | succ n ih =>
    by_cases hcond : (nrecs = 0 ∨ st.recnum < nrecs) ∧ (off : Int) > 0
    · rw [scanLoop_round hcond.1 hcond.2, scanRound_stuck h]
      exact ih
    · rw [scanLoop_ends n hcond]
      exact ⟨rfl, nofun⟩

/-- The loop only adds calls. -/
lemma scanLoop_grows (n : Nat) (hl : l ≤ bufSize) (hb : 0 < off → b = 0)
    (st : Scan) : st.calls <+: callsOf (scanLoop signed nrecs func file n off l b st) := by
  induction n generalizing off l b st with
  | zero => exact prefix_refl _
  | succ n ih =>
    by_cases hcond : (nrecs = 0 ∨ st.recnum < nrecs) ∧ (off : Int) > 0
    · obtain rfl := hb (by omega)
      obtain ⟨lo, hlo⟩ : ∃ lo, lo = off + l - bufSize := ⟨_, rfl⟩
      obtain ⟨pos, hpos⟩ : ∃ pos, pos = bufSize - (off + l - lo) := ⟨_, rfl⟩
      rw [scanLoop_round hcond.1 hcond.2, scanRound_eq hl hlo hpos]
      have hfit : pos + (bufSize - pos) ≤ bufSize := by omega
      have hwin := scanWindow_grows signed nrecs func (bufSize + 1) hfit
        { st with buf := st.buf.write pos (slice file lo (off - lo)) }
      rw [show pos + (bufSize - pos) = bufSize by omega] at hwin
      generalize scanWindow .. = r at hwin ⊢
      cases hwin with
      | fault fault st' h => exact h
      | ok l' st' hl' h => exact h.trans (ih (by omega) (by omega) st')
    · rw [scanLoop_ends n hcond]
      exact prefix_refl _

lemma lengthAt_window (buf : Mem) {lo : Nat} (hfile : off ≤ file.length) (h2 : 2 ≤ off - lo)
    (pos : Nat) :
    lengthAt signed (buf.write pos (slice file lo (off - lo))) pos (off - lo) =
      lengthBefore signed file off := by
  have hlen : (slice file lo (off - lo)).length = off - lo := length_slice (by omega)
  have hbyte : ∀ k, k < off - lo →
      (buf.write pos (slice file lo (off - lo))) (pos + k) = file.getD (lo + k) 0 := by
    intro k hk
    rw [Mem.write_inside (by omega) 0, getD_slice _ _ hk]
  rw [lengthAt, lengthBefore, hbyte _ (by omega), hbyte _ (by omega),
    show lo + (off - lo - 2) = off - 2 by omega, show lo + (off - lo - 1) = off - 1 by omega]

lemma noRecord_iff (buf : Mem) {lo pos} (hfile : off ≤ file.length) (hlo : lo = off + 0 - bufSize)
    (hpos : pos = bufSize - (off + 0 - lo)) :
    NoRecord signed (buf.write pos (slice file lo (off - lo))) pos (bufSize - pos) ↔
      NothingBefore signed file off := by
  have hw : bufSize - pos = off - lo := by omega
  have hmin : min (off : Int) bufSize = (off - lo : Nat) := by omega
  rw [NoRecord, NothingBefore, hw, hmin]
  by_cases h2 : off - lo < 2
  · exact ⟨fun _ => .inl (by omega), fun _ => .inl h2⟩
  · rw [lengthAt_window buf hfile (by omega)]
    exact or_congr (by omega) Iff.rfl

/-- The loop behind a stop. -/
lemma scanLoop_stop (h : AtStop nrecs func st) (hn : off < n)
    (hfile : off ≤ file.length) (hb : 0 < off → b = 0) :
    Obeys nrecs func (callsOf (scanLoop signed nrecs func file n off (0 : Nat) b st))
        (outcome (scanLoop signed nrecs func file n off (0 : Nat) b st)) ↔
      NothingBefore signed file off := by
  rcases n with _ | n
  · omega
  rcases Nat.eq_zero_or_pos off with rfl | hoff
  · rw [scanLoop_ends n (by simp)]
    exact ⟨fun _ => .inl (by decide), fun _ => h.obeys nofun⟩
  obtain rfl := hb hoff
  obtain ⟨lo, hlo⟩ : ∃ lo, lo = off + 0 - bufSize := ⟨_, rfl⟩
  obtain ⟨pos, hpos⟩ : ∃ pos, pos = bufSize - (off + 0 - lo) := ⟨_, rfl⟩
  have hcp : (bufSize : Int) = (pos + (bufSize - pos) : Nat) := by omega
  have hfit : pos + (bufSize - pos) ≤ bufSize := by omega
  rw [← noRecord_iff st.buf hfile hlo hpos, scanLoop_round h.more (by omega),
    scanRound_eq (Nat.zero_le _) hlo hpos]
  generalize hst : ({ st with buf := st.buf.write pos (slice file lo (off - lo)) } : Scan) = st₁
  have hbuf : st.buf.write pos (slice file lo (off - lo)) = st₁.buf := by rw [← hst]
  have h₁ : AtStop nrecs func st₁ := by rw [← hst]; exact ⟨h.counted, h.more, h.stop, h.only⟩
  rw [hbuf]
  by_cases hno : NoRecord signed st₁.buf pos (bufSize - pos)
  · -- the window is kept; it is the last one, or it is kept again and again
    refine iff_of_true ?_ hno
    rw [scanWindow_keeps bufSize (by omega) hno]
    simp only [Except.map, Except.bind]
    rcases Nat.eq_zero_or_pos lo with rfl | _
    · cases n with
      | zero => exact h₁.obeys nofun
      | succ n =>
        rw [scanLoop_ends n (by simp)]
        exact h₁.obeys nofun
    · obtain rfl : pos = 0 := by omega
      obtain ⟨hcalls, hout⟩ := scanLoop_stuck nrecs func file n lo hno
      have hobeys := h₁.obeys hout
      rw [← hcalls] at hobeys
      exact hobeys
  · refine iff_of_false ?_ hno
    rw [hcp]
    rcases scanWindow_calls nrecs func bufSize hfit hno with hout | ⟨albuf, hwin⟩
    · rw [hout]
      exact fun hobeys => hobeys.inside _ h₁.stopsAt rfl
    -- `func` is called, and calls are only added
    have hlt : st₁.calls.length < (st₁.called albuf).calls.length := by simp [Scan.called]
    have hmore : ∀ {calls out}, (st₁.called albuf).calls <+: calls →
        ¬ Obeys nrecs func calls out := fun hcalls =>
      h₁.not_obeys ((prefix_append ..).trans hcalls) (Nat.lt_of_lt_of_le hlt hcalls.length_le)
    generalize scanWindow .. = r at hwin ⊢
    cases hwin with
    | fault fault st' h => exact hmore h
    | ok l st' hl h => exact hmore (h.trans (scanLoop_grows n (by omega) (by omega) st'))

/-- **When the loop obeys its stop.** -/
lemma scanLoop_obeys_iff (h : Quiet nrecs func st) (n : Nat)
    (hfile : off ≤ file.length) (hb : 0 < off → b = 0) (hl : l ≤ bufSize)
    (hn : l < bufSize → off < n) (hfull : l = bufSize → NoRecord signed st.buf 0 bufSize) :
    Obeys nrecs func (callsOf (scanLoop signed nrecs func file n off l b st))
        (outcome (scanLoop signed nrecs func file n off l b st)) ↔
      RoundsOk signed nrecs func file n off l b st := by
  induction n generalizing st off l b with
  | zero => exact iff_of_true h.obeys trivial
  | succ n ih =>
    by_cases hcond : (nrecs = 0 ∨ st.recnum < nrecs) ∧ (off : Int) > 0
    swap
    · rw [scanLoop_ends n hcond, RoundsOk, if_neg hcond]
      exact iff_of_true h.obeys trivial
    obtain rfl := hb (by omega)
    rw [scanLoop_round hcond.1 hcond.2, RoundsOk, if_pos hcond]
    rcases Nat.lt_or_ge l bufSize with hlt | _
    · obtain ⟨lo, hlo⟩ : ∃ lo, lo = off + l - bufSize := ⟨_, rfl⟩
      obtain ⟨pos, hpos⟩ : ∃ pos, pos = bufSize - (off + l - lo) := ⟨_, rfl⟩
      have hfit : pos + (bufSize - pos) ≤ bufSize := by omega
      have h₁ : Quiet nrecs func { st with buf := st.buf.write pos (slice file lo (off - lo)) } :=
        ⟨h.counted, h.noStop, h.within⟩
      have hrun := scanWindow_run signed (bufSize + 1) hfit h₁ hcond.1
      rw [scanRound_eq hl hlo hpos]
      rw [show pos + (bufSize - pos) = bufSize by omega] at hrun
      generalize scanWindow .. = r at hrun ⊢
      cases hrun with
      | fault fault st' h' => exact iff_of_true h'.obeys trivial
      | quiet l' st' h' hl' hfull' =>
        have hstop : ¬ Stopped func st st' := by
          rintro ⟨hlen, _⟩
          refine h'.noStop (st'.calls.length - 1) ⟨by omega, ?_⟩
          rwa [take_of_length_le (by omega)]
        simp only [Except.map, if_neg hstop]
        exact ih h' (by omega) (by omega) (by omega) (by omega) hfull'
      | stop st' h' hlen =>
        have hstop : Stopped func st st' := ⟨hlen, h'.stop⟩
        simp only [Except.map, if_pos hstop]
        exact scanLoop_stop h' (by omega) (by omega) (by omega)
    · -- the window was kept as a whole
      obtain rfl : l = bufSize := by omega
      have hstop : ¬ Stopped func st st := fun h => absurd h.1 (Nat.lt_irrefl _)
      rw [scanRound_stuck (hfull rfl)]
      simp only [if_neg hstop]
      exact ih h hfile (fun _ => rfl) hl (fun hlt => absurd hlt (Nat.lt_irrefl _)) hfull

end rounds

/-! ## Scans -/

/-- The conversion of a file offset to `int`. -/
structure IsToInt (toInt : Int → Int) : Prop where
  inRange : ∀ x : Int, 0 ≤ x → x ≤ intMax → toInt x = x
  le_max : ∀ x : Int, toInt x ≤ intMax

lemma IsToInt.le (h : IsToInt toInt) {x} (hx : 0 ≤ x) : toInt x ≤ x := by
  rcases Int.lt_or_le intMax x with hlt | hle
  · exact Int.le_trans (h.le_max x) (Int.le_of_lt hlt)
  · exact Int.le_of_eq (h.inRange x hx hle)

section scans

variable (signed : Bool) (nrecs : Nat) (func : List WlogRec → Bool) (file : List UInt8)
  (buf albuf : Mem)

lemma quiet_init : Quiet nrecs func ⟨buf, albuf, [], 0⟩ :=
  ⟨rfl, fun _ h => absurd h.1 (Nat.not_lt_zero _), fun _ => Nat.zero_le _⟩

lemma scan_eq (h : toInt file.length ≠ -1) (st : Scan) : scanCalls signed nrecs func toInt file st =
        callsOf (scanLoop signed nrecs func file (file.length + 1) (toInt file.length) 0 0 st) ∧
      wlogScanBackward signed nrecs func toInt file st =
        outcome (scanLoop signed nrecs func file (file.length + 1) (toInt file.length) 0 0 st) := by
  simp only [scanCalls, wlogScanBackward, if_neg h]
  refine ⟨?_, rfl⟩
  cases scanLoop signed nrecs func file (file.length + 1) (toInt file.length) 0 0 st <;> rfl

/-- **The scan ends when `func` stops it, exactly if no record is in front of the window then.** -/
theorem scan_obeys_iff {toInt : Int → Int} (htoInt : IsToInt toInt) :
    Obeys nrecs func (scanCalls signed nrecs func toInt file ⟨buf, albuf, [], 0⟩)
        (wlogScanBackward signed nrecs func toInt file ⟨buf, albuf, [], 0⟩) ↔
      ScanOk signed nrecs func file toInt ⟨buf, albuf, [], 0⟩ := by
  by_cases herr : toInt file.length = -1
  · refine iff_of_true ?_ fun h => absurd herr h
    simp only [scanCalls, if_pos herr]
    exact (quiet_init nrecs func buf albuf).obeys
  obtain ⟨hcalls, hout⟩ := scan_eq signed nrecs func file herr ⟨buf, albuf, [], 0⟩
  rw [hcalls, hout, ScanOk, imp_iff_right herr]
  rcases Int.lt_or_le 0 (toInt file.length) with hpos | hneg
  · obtain ⟨_, hoff⟩ := Int.eq_ofNat_of_zero_le (Int.le_of_lt hpos)
    have hle := htoInt.le (x := file.length) (by omega)
    rw [hoff] at hle ⊢
    exact scanLoop_obeys_iff (quiet_init nrecs func buf albuf) _ (by omega) (fun _ => rfl)
      (Nat.zero_le _) (by omega) (fun h => absurd h (by decide))
  · have hcond : ¬ ((nrecs = 0 ∨ (⟨buf, albuf, [], 0⟩ : Scan).recnum < nrecs) ∧
        toInt file.length > 0) := fun h => absurd h.2 (Int.not_lt.2 hneg)
    rw [scanLoop_ends _ hcond, RoundsOk, if_neg hcond]
    exact iff_of_true (quiet_init nrecs func buf albuf).obeys trivial

lemma roundsOk_begin (n : Nat) (leftover bufstart : Int) (st : Scan) :
    RoundsOk signed nrecs func file n 0 leftover bufstart st := by
  cases n with
  | zero => trivial
  | succ => rw [RoundsOk, if_neg (by simp)]; trivial

lemma roundsOk_small (hlt : off < bufSize) (n : Nat) (st : Scan) :
    RoundsOk signed nrecs func file n off (0 : Nat) (0 : Nat) st := by
  cases n with
  | zero => trivial
  | succ =>
    have hlo : 0 = off + 0 - bufSize := (Nat.sub_eq_zero_of_le (Nat.le_of_lt hlt)).symm
    obtain ⟨pos, hpos⟩ : ∃ pos, pos = bufSize - (off + 0 - 0) := ⟨_, rfl⟩
    rw [RoundsOk, scanRound_eq (Nat.zero_le _) hlo hpos]
    generalize scanWindow .. = r
    split
    swap
    · trivial
    cases r with
    | error => trivial
    | ok =>
      simp only [Except.map]
      split
      · exact .inl (by decide)
      · exact roundsOk_begin ..

lemma scanOk_small (toInt : Int → Int) (h : toInt file.length < bufSize) :
    ScanOk signed nrecs func file toInt st := by
  intro _
  rcases Int.lt_or_le 0 (toInt file.length) with hpos | hneg
  · obtain ⟨_, hoff⟩ := Int.eq_ofNat_of_zero_le (Int.le_of_lt hpos)
    rw [hoff] at h ⊢
    exact roundsOk_small signed nrecs func file (Int.ofNat_lt.1 h) _ st
  · rw [RoundsOk, if_neg fun hcond => absurd hcond.2 (Int.not_lt.2 hneg)]
    trivial

end scans

lemma isToInt_int32 : IsToInt int32 := by
  refine ⟨fun x h h' => int32_of_range (by omega) h', fun x => ?_⟩
  unfold int32 intMax
  omega

/-- The scan of a log of two records is stopped at the later one. -/
theorem scan_obeys_two : Obeys 0 (fun calls => calls.length == 1)
      (scanCalls true 0 (fun calls => calls.length == 1) int32
        (writeAll [⟨sampleRec 22, zeroes⟩, ⟨sampleRec 5, zeroes⟩]) ⟨zeroes, zeroes, [], 0⟩)
      (wlogScanBackward true 0 (fun calls => calls.length == 1) int32
        (writeAll [⟨sampleRec 22, zeroes⟩, ⟨sampleRec 5, zeroes⟩]) ⟨zeroes, zeroes, [], 0⟩) := by
  refine (scan_obeys_iff true 0 _ _ zeroes zeroes isToInt_int32).2 (scanOk_small _ _ _ _ _ ?_)
  decide

section counterexample

variable {signed : Bool} {file : List UInt8}

lemma lengthBefore_log {as} (h : logOf (a :: as) <+: file) (hread : LengthReads signed a.wrec) :
    lengthBefore signed file (logOf (a :: as)).length = recLen a.wrec := by
  obtain ⟨t₁, t₂⟩ := getD_trailer h
  rw [lengthBefore, logOf_cons_length,
    show (logOf as).length + (recLen a.wrec + 2) - 2 = (logOf as).length + recLen a.wrec by omega,
    show (logOf as).length + (recLen a.wrec + 2) - 1 = (logOf as).length + (recLen a.wrec + 1) by
      omega, t₁, t₂, charVal_trailer, if_pos hread]

lemma scanRound_stops (nrecs : Nat) (st : Scan) {k : Nat} (hfile : off ≤ file.length)
    (hk : lengthBefore signed file off = k) (hmax : k ≤ wlogRecMaxSize) (lo pos : Nat)
    (hfit : k + 2 ≤ off - lo) (hlo : lo = off + 0 - bufSize)
    (hpos : pos = bufSize - (off + 0 - lo)) :
    ∃ st', scanRound signed nrecs (fun _ => true) file off (0 : Nat) (0 : Nat) st =
        .ok ((lo : Int), 0, (pos : Int), st') ∧
      st'.calls.length = st.calls.length + 1 ∧ st'.recnum = st.recnum := by
  have hcp : (bufSize : Int) = (pos + (off - lo) : Nat) := by omega
  have hend : pos + (off - lo) ≤ bufSize := by omega
  rw [scanRound_eq (Nat.zero_le _) hlo hpos, hcp, scanWindow_succ (by omega) hend,
    lengthAt_window _ hfile (by omega), hk]
  have hshort : ¬ ((off - lo : Nat) : Int) < (k : Int) + 2 := by omega
  have hat : ((pos + (off - lo) : Nat) : Int) - ((k : Int) + 2) =
      (pos + (off - lo - (k + 2)) : Nat) := by
    omega
  simp only [hshort, hat]
  generalize st.buf.write pos (slice file lo (off - lo)) = buf
  have hblock : blockOf buf (pos + (off - lo - (k + 2)) : Nat) k =
      .ok (buf.read (pos + (off - lo - (k + 2))) k) := buf.readIn_ok _ _ (by omega)
  have halign : ∀ bs, bs.length = k → alignTo st.albuf bs = .ok (st.albuf.write 0 bs) :=
    fun bs hbs => st.albuf.writeIn_ok 0 (by omega)
  rw [hblock]
  simp only [Scan.access, Except.mapError, Except.bind, halign _ (Mem.read_length ..), Except.map]
  exact ⟨_, rfl, length_append, rfl⟩

lemma logOf_replicate_length (a : Append) (n : Nat) :
    (logOf (replicate n a)).length = n * (recLen a.wrec + 2) := by
  induction n with
  | zero => rw [Nat.zero_mul]; rfl
  | succ n ih => rw [replicate_succ, logOf_cons_length, ih, Nat.succ_mul]

lemma logOf_replicate_prefix (a : Append) {m} (h : n ≤ m) :
    logOf (replicate n a) <+: logOf (replicate m a) := by
  induction h with
  | refl => exact prefix_refl _
  | step _ ih => exact ih.trans (prefix_append ..)

lemma lengthBefore_replicate (hread : LengthReads signed a.wrec) {m} (h : n + 1 ≤ m) :
    lengthBefore signed (logOf (replicate m a)) ((n + 1) * (recLen a.wrec + 2)) =
      recLen a.wrec := by
  have hlog := logOf_replicate_prefix a h
  rw [← logOf_replicate_length]
  exact lengthBefore_log hlog hread

lemma scanLoop_two (hfile : file.length = 16448) (hlast : lengthBefore signed file 16448 = 62)
    (hfirst : lengthBefore signed file 64 = 62) (n : Nat) (buf albuf : Mem) :
    (callsOf (scanLoop signed 1 (fun _ => true) file (n + 3) (16448 : Nat) (0 : Nat) (0 : Nat)
      ⟨buf, albuf, [], 0⟩)).length = 2 := by
  obtain ⟨st₁, hround₁, hcalls₁, hrec₁⟩ := scanRound_stops 1 ⟨buf, albuf, [], 0⟩
    (Nat.le_of_eq hfile.symm) hlast (by decide) 64 0 (by decide) (by decide) (by decide)
  obtain ⟨st₂, hround₂, hcalls₂, -⟩ := scanRound_stops 1 st₁
    (show 64 ≤ file.length by omega) hfirst (by decide) 0 16320 (by decide) (by decide) (by decide)
  have hmore : (1 = 0 ∨ st₁.recnum < 1) := .inr (by rw [hrec₁]; exact Nat.one_pos)
  rw [scanLoop_round (.inr Nat.one_pos) (by decide), hround₁]
  show (callsOf (scanLoop signed 1 (fun _ => true) file (n + 2) (64 : Nat) (0 : Nat) (0 : Nat)
    st₁)).length = 2
  rw [scanLoop_round hmore (by decide), hround₂]
  show (callsOf (scanLoop signed 1 (fun _ => true) file (n + 1) (0 : Nat) 0 (16320 : Nat)
    st₂)).length = 2
  rw [scanLoop_ends n fun h => absurd h.2 (by decide)]
  exact hcalls₂.trans (congrArg (· + 1) hcalls₁)

/-- Of 257 records of 64 bytes the last 256 are one window. `func` stops the scan at once, and is
called with the first record. -/
theorem scan_runs_on :
    (scanCalls true 1 (fun _ => true) int32 (writeAll (List.replicate 257 ⟨sampleRec 22, zeroes⟩))
        ⟨zeroes, zeroes, [], 0⟩).length = 2 ∧
      ¬ Obeys 1 (fun _ => true) (scanCalls true 1 (fun _ => true) int32
          (writeAll (List.replicate 257 ⟨sampleRec 22, zeroes⟩)) ⟨zeroes, zeroes, [], 0⟩)
        (wlogScanBackward true 1 (fun _ => true) int32
          (writeAll (List.replicate 257 ⟨sampleRec 22, zeroes⟩)) ⟨zeroes, zeroes, [], 0⟩) := by
  have hlen : recLen (sampleRec 22) = 62 := by decide
  have hread : LengthReads true (sampleRec 22) := fun _ => by rw [hlen]; decide
  have hcalls : (scanCalls true 1 (fun _ => true) int32
      (writeAll (List.replicate 257 ⟨sampleRec 22, zeroes⟩)) ⟨zeroes, zeroes, [], 0⟩).length =
        2 := by
    rw [writeAll_eq, reverse_replicate]
    have hfile := logOf_replicate_length ⟨sampleRec 22, zeroes⟩ 257
    have hlast := lengthBefore_replicate (a := ⟨sampleRec 22, zeroes⟩) hread (Nat.le_refl 257)
    have hfirst := lengthBefore_replicate (a := ⟨sampleRec 22, zeroes⟩) hread
      (show 0 + 1 ≤ 257 by decide)
    generalize logOf (List.replicate 257 ⟨sampleRec 22, zeroes⟩) = file at hfile hlast hfirst ⊢
    have hint : int32 file.length = (16448 : Nat) := by
      rw [hfile]
      decide
    have hne : int32 file.length ≠ -1 := by
      rw [hint]
      decide
    rw [(scan_eq true 1 _ file hne _).1, hint, hfile]
    exact scanLoop_two hfile hlast hfirst 16446 zeroes zeroes
  refine ⟨hcalls, fun h => ?_⟩
  have hcount := h.count (by decide)
  rw [hcalls] at hcount
  exact absurd hcount (by decide)

end counterexample

end LtpDdt.Doio
