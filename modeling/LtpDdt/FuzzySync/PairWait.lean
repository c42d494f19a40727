/-
FuzzySync.PairWait — `tst_fzsync_pair_wait` of `include/tst_fuzzy_sync.h`.

`WaitPc` names the point before each atomic access; `waitStep` performs it and the
branch that depends on it. All accesses are sequentially consistent, so a run of the
two threads is an interleaving of these steps.

Thread A passes `&a_cntr` as `our_cntr` and `&b_cntr` as `other_cntr`, thread B the
other way round. The function increments the OTHER counter and reads its own: each
counter has one writer.

* The `yield_in_wait` copies of the loops have the same conditions.
* C does not fix the order of the loads of `load(our_cntr) < load(other_cntr)`; the
  choice `ord` of a step picks one.
* `tst_atomic_inc` is an add on 32 bits.

The last three fields of `Sys` are history: the increments, resets and returns of
each side.

The one idea: count the WRITES of a side, increments and resets alike. The
counter is their number modulo `INT_MAX + 1`, and all three spin loops wait until
the other side has written as often (`cmp_blocked`, `pre_blocked`,
`post_blocked`). So the system refines `Lockstep.Lockstep` (`access_refines`).
-/
import LtpDdt.Lockstep.Lockstep
import LtpDdt.Lts.Run

namespace LtpDdt.FuzzySync

open Lockstep

/-- `INT_MAX`. -/
def intMax : Int := 2147483647

/-- `tst_atomic_add_return` on an `int32_t`: the sum, wrapped. -/
def tstAtomicAddReturn (i v : Int) : Int := Int.bmod (v + i) (2 ^ 32)

def tstAtomicInc (v : Int) : Int := tstAtomicAddReturn 1 v

/-- The fields of `struct tst_fzsync_pair` that the waits access. -/
structure Pair where
  aCntr : Int
  bCntr : Int
  exit : Bool
  deriving DecidableEq

/-- `*our_cntr`, as thread `i` calls the function. -/
def Pair.ourCntr (p : Pair) : Side → Int
  | .a => p.aCntr
  | .b => p.bCntr

/-- `*other_cntr`. -/
def Pair.otherCntr (p : Pair) : Side → Int
  | .a => p.bCntr
  | .b => p.aCntr

/-- A store to `*other_cntr`. -/
def Pair.setOtherCntr (p : Pair) (i : Side) (v : Int) : Pair :=
  match i with
  | .a => { p with bCntr := v }
  | .b => { p with aCntr := v }

/-- The points of `tst_fzsync_pair_wait` before an atomic access. -/
inductive WaitPc where
  /-- `tst_atomic_inc(other_cntr)` -/
  | inc
  /-- `tst_atomic_load(our_cntr) > 0`, before the reset -/
  | preGt
  /-- `tst_atomic_load(our_cntr) < INT_MAX` -/
  | preLt
  /-- `!tst_atomic_load(exit)` of that loop -/
  | preExit
  /-- `tst_atomic_store(0, other_cntr)` -/
  | store
  /-- `tst_atomic_load(our_cntr) > 1`, after the reset -/
  | postGt
  | postExit
  /-- the comparison of the normal loop, nothing loaded yet -/
  | cmp
  /-- `our_cntr` is loaded, `other_cntr` is not -/
  | cmpOur (our : Int)
  | cmpOther (other : Int)
  | cmpExit
  deriving DecidableEq

/-- The normal loop's condition on the loaded values: leave, or look at
`exit`. -/
def cmpBranch (our other : Int) : Option WaitPc :=
  if our < other then some .cmpExit else none

/-- One atomic access of thread `i`; `none` when the function returns. -/
def waitStep (i : Side) (ord : Bool) (p : Pair) : WaitPc → Pair × Option WaitPc
  | .inc =>
    let v := tstAtomicInc (p.otherCntr i)
    (p.setOtherCntr i v, if v = intMax then some .preGt else some .cmp)
  | .preGt => (p, if p.ourCntr i > 0 then some .preLt else some .store)
  | .preLt => (p, if p.ourCntr i < intMax then some .preExit else some .store)
  | .preExit => (p, if p.exit then some .store else some .preGt)
  | .store => (p.setOtherCntr i 0, some .postGt)
  | .postGt => (p, if p.ourCntr i > 1 then some .postExit else none)
  | .postExit => (p, if p.exit then none else some .postGt)
  | .cmp => (p, if ord then some (.cmpOur (p.ourCntr i)) else some (.cmpOther (p.otherCntr i)))
  | .cmpOur our => (p, cmpBranch our (p.otherCntr i))
  | .cmpOther other => (p, cmpBranch (p.ourCntr i) other)
  | .cmpExit => (p, if p.exit then none else some .cmp)

/-! ## The two threads -/

/-- Both threads and what they have done; `pc i = none` is outside of the function. -/
structure Sys where
  pair : Pair
  pc : Side → Option WaitPc
  incs : Side → Nat
  resets : Side → Nat
  returns : Side → Nat

/-- After `tst_fzsync_pair_reset`, before any call. -/
def Sys.init : Sys where
  pair := ⟨0, 0, false⟩
  pc := fun _ => none
  incs := fun _ => 0
  resets := fun _ => 0
  returns := fun _ => 0

def bump (f : Side → Nat) (i : Side) : Side → Nat :=
  fun j => if j = i then f j + 1 else f j

def setPc (f : Side → Option WaitPc) (i : Side) (pc : Option WaitPc) : Side → Option WaitPc :=
  fun j => if j = i then pc else f j

/-- Thread `i` calls the function. -/
def Sys.call (s : Sys) (i : Side) : Sys :=
  { s with pc := setPc s.pc i (some .inc) }

/-- Thread `i`, at `pc`, makes its next access. -/
def Sys.access (s : Sys) (i : Side) (ord : Bool) (pc : WaitPc) : Sys where
  pair := (waitStep i ord s.pair pc).1
  pc := setPc s.pc i (waitStep i ord s.pair pc).2
  incs := if pc = .inc then bump s.incs i else s.incs
  resets := if pc = .store then bump s.resets i else s.resets
  returns := if (waitStep i ord s.pair pc).2 = none then bump s.returns i else s.returns

/-- Which thread moves, and the order of its loads. Outside of the function it moves by calling
it. -/
structure Move where
  side : Side
  ord : Bool
  deriving DecidableEq

def Sys.step (s : Sys) (m : Move) : Option Sys :=
  match s.pc m.side with
  | none => some (s.call m.side)
  | some pc => some (s.access m.side m.ord pc)

open List Sys Side

variable {s : Sys} {i : Side} {pc : WaitPc} {s' : Sys} {j : Side} {m : Move}

/-! ## The abstraction -/

/-- All writes of side `i` to its counter. -/
def Sys.writes (s : Sys) (i : Side) : Nat := s.incs i + s.resets i

/-- The points between a write and the end of the loop behind it. -/
def WaitPc.spinning : WaitPc → Bool
  | .inc | .store => false
  | _ => true

def Sys.spinning (s : Sys) (i : Side) : Bool :=
  match s.pc i with
  | none => false
  | some pc => pc.spinning

def Sys.abs (s : Sys) : Lockstep.State where
  writes := s.writes
  waiting := s.spinning

/-- Thread `i` at each of its points: where its counter stands, and that the values it holds were
not misleading. -/
def PointOk (s : Sys) (i : Side) : Prop :=
  match s.pc i with
  | none | some .inc =>
    s.returns i = s.incs i ∧ s.pair.otherCntr i < intMax
  | some .preGt | some .preLt | some .preExit | some .store =>
    s.returns i + 1 = s.incs i ∧ s.pair.otherCntr i = intMax
  | some .postGt | some .postExit =>
    s.returns i + 1 = s.incs i ∧ s.pair.otherCntr i = 0
  | some .cmp | some .cmpExit =>
    s.returns i + 1 = s.incs i ∧ 0 < s.pair.otherCntr i ∧ s.pair.otherCntr i < intMax
  | some (.cmpOur our) =>
    s.returns i + 1 = s.incs i ∧ 0 < s.pair.otherCntr i ∧ s.pair.otherCntr i < intMax ∧
      (s.pair.otherCntr i ≤ our → s.writes i ≤ s.writes i.other)
  | some (.cmpOther other) =>
    s.returns i + 1 = s.incs i ∧ 0 < s.pair.otherCntr i ∧ s.pair.otherCntr i < intMax ∧
      other = s.pair.otherCntr i

/-- The invariant of the two threads while `exit` is clear. -/
structure SysInv (s : Sys) : Prop where
  exit : s.pair.exit = false
  lock : Lockstep.Inv s.abs
  cntr : ∀ i, s.pair.otherCntr i = ((s.writes i % 2147483648 : Nat) : Int)
  resets : ∀ i, s.resets i = s.writes i / 2147483648
  point : ∀ i, PointOk s i

lemma SysInv.init : SysInv init where
  exit := rfl
  lock := by intro i; cases i <;> exact ⟨Nat.zero_le _, fun _ => Nat.le_refl _⟩
  cntr := by intro i; cases i <;> rfl
  resets := by intro i; cases i <;> rfl
  point := by intro i; cases i <;> exact ⟨rfl, by decide⟩

/-! ## Accessors -/

variable (p : Pair)

lemma Pair.ourCntr_eq (i : Side) : p.ourCntr i = p.otherCntr i.other := by cases i <;> rfl

@[simp] lemma Pair.otherCntr_setOtherCntr (i : Side) (v : Int) :
    (p.setOtherCntr i v).otherCntr i = v := by cases i <;> rfl

@[simp] lemma Pair.otherCntr_setOtherCntr_other (i : Side) (v : Int) :
    (p.setOtherCntr i v).otherCntr i.other = p.otherCntr i.other := by cases i <;> rfl

@[simp] lemma Pair.exit_setOtherCntr (i : Side) (v : Int) : (p.setOtherCntr i v).exit = p.exit := by
  cases i <;> rfl

@[simp] lemma bump_self (f : Side → Nat) (i : Side) : bump f i i = f i + 1 := by simp [bump]

@[simp] lemma bump_other (f : Side → Nat) (i : Side) : bump f i i.other = f i.other := by
  simp [bump]

@[simp] lemma setPc_self (f : Side → Option WaitPc) (i : Side) (pc : Option WaitPc) :
    setPc f i pc i = pc := by simp [setPc]

@[simp] lemma setPc_other (f : Side → Option WaitPc) (i : Side) (pc : Option WaitPc) :
    setPc f i pc i.other = f i.other := by simp [setPc]

lemma tstAtomicInc_of_lt {v} (h0 : 0 ≤ v) (h1 : v < intMax) : tstAtomicInc v = v + 1 := by
  simp only [intMax] at h1
  rw [tstAtomicInc, tstAtomicAddReturn, Int.bmod_eq_of_le] <;> simp <;> omega

/-! ## The three spin conditions say the same -/

section
variable {s : Sys}

/-- The plain wait spins just while the party is ahead. -/
lemma SysInv.cmp_blocked (h : SysInv s) (i : Side)
    (h0 : 0 < s.pair.otherCntr i) (h1 : s.pair.otherCntr i < intMax) :
    s.pair.ourCntr i < s.pair.otherCntr i ↔ Blocked s.abs i := by
  have hi := (h.lock i).1
  have ho := (h.lock i.other).1
  rw [Side.other_other] at ho
  rw [Pair.ourCntr_eq]
  rw [h.cntr i] at h0 h1 ⊢
  rw [h.cntr i.other]
  simp only [Blocked, Sys.abs, intMax] at *
  omega

/-- The first wait of a reset spins just while the party is ahead. -/
lemma SysInv.pre_blocked (h : SysInv s) (i : Side) (h0 : s.pair.otherCntr i = intMax) :
    (0 < s.pair.ourCntr i ∧ s.pair.ourCntr i < intMax) ↔ Blocked s.abs i := by
  have hi := (h.lock i).1
  have ho := (h.lock i.other).1
  rw [Side.other_other] at ho
  rw [Pair.ourCntr_eq]
  rw [h.cntr i] at h0
  rw [h.cntr i.other]
  simp only [Blocked, Sys.abs, intMax] at *
  omega

/-- The second wait of a reset spins just while the party is ahead. -/
lemma SysInv.post_blocked (h : SysInv s) (i : Side) (h0 : s.pair.otherCntr i = 0) :
    1 < s.pair.ourCntr i ↔ Blocked s.abs i := by
  have hi := (h.lock i).1
  have ho := (h.lock i.other).1
  rw [Side.other_other] at ho
  rw [Pair.ourCntr_eq]
  rw [h.cntr i] at h0
  rw [h.cntr i.other]
  simp only [Blocked, Sys.abs] at *
  omega

end

/-! ## One access refines one lockstep move -/

def WaitPc.writes : WaitPc → Bool
  | .inc | .store => true
  | _ => false

section
variable (s : Sys) (i : Side) (ord : Bool) (pc : WaitPc)

lemma access_writes_self :
    (s.access i ord pc).writes i = if pc.writes then s.writes i + 1 else s.writes i := by
  cases pc <;> simp [access, writes, WaitPc.writes] <;> omega

lemma access_writes_other : (s.access i ord pc).writes i.other = s.writes i.other := by
  cases pc <;> simp [access, writes]

lemma access_exit : (s.access i ord pc).pair.exit = s.pair.exit := by
  cases pc <;> simp [access, waitStep]

lemma access_cntr_other :
    (s.access i ord pc).pair.otherCntr i.other = s.pair.otherCntr i.other := by
  cases pc <;> simp [access, waitStep]

lemma access_spinning_self : (s.access i ord pc).spinning i =
      match (waitStep i ord s.pair pc).2 with
      | none => false
      | some pc' => pc'.spinning := by simp [access, spinning]

lemma access_spinning_other : (s.access i ord pc).spinning i.other = s.spinning i.other := by
  simp [access, spinning]

lemma lockstep_ext {x y : Lockstep.State} (i : Side)
    (hi : x.writes i = y.writes i ∧ x.waiting i = y.waiting i)
    (ho : x.writes i.other = y.writes i.other ∧ x.waiting i.other = y.waiting i.other) :
    x = y := by
  obtain ⟨xw, xq⟩ := x
  obtain ⟨yw, yq⟩ := y
  have hall : ∀ j, xw j = yw j ∧ xq j = yq j := by
    intro j
    by_cases hj : j = i
    · subst hj; exact hi
    · rw [eq_other_of_ne hj]; exact ho
  rw [Lockstep.State.mk.injEq]
  exact ⟨funext fun j => (hall j).1, funext fun j => (hall j).2⟩

variable (hpc : s.pc i = some pc)

include hpc

/-- A write is a write of the abstract model. -/
lemma abs_access_write (hw : pc.writes) :
    (s.access i ord pc).abs = s.abs.write i ∧ s.abs.waiting i = false := by
  have hnw : s.spinning i = false := by
    simp only [Sys.spinning]
    cases pc <;> simp_all [WaitPc.writes, WaitPc.spinning]
  refine ⟨lockstep_ext i ⟨?_, ?_⟩ ⟨?_, ?_⟩, hnw⟩
  · simpa [Sys.abs, Lockstep.State.write, hw] using access_writes_self s i ord pc
  · simp only [Sys.abs, access_spinning_self, Lockstep.State.write]
    cases pc with
    | inc =>
      by_cases hc : tstAtomicInc (s.pair.otherCntr i) = intMax <;>
        simp [waitStep, hc, WaitPc.spinning]
    | store => rfl
    | _ => simp [WaitPc.writes] at hw
  · simpa [Sys.abs, Lockstep.State.write] using access_writes_other s i ord pc
  · simpa [Sys.abs, Lockstep.State.write] using access_spinning_other s i ord pc

/-- A spin is no step of the abstract model. -/
lemma abs_access_spin (hw : pc.writes = false)
    (hs : (s.access i ord pc).spinning i) : (s.access i ord pc).abs = s.abs := by
  have hsp : s.spinning i := by
    simp only [Sys.spinning]
    cases pc <;> simp_all [WaitPc.writes, WaitPc.spinning]
  refine lockstep_ext i ⟨?_, ?_⟩ ⟨?_, ?_⟩
  · simpa [Sys.abs, hw] using access_writes_self s i ord pc
  · simp [Sys.abs, hs, hsp]
  · exact access_writes_other s i ord pc
  · exact access_spinning_other s i ord pc

/-- A party that leaves its loop passes. -/
lemma abs_access_pass (hw : pc.writes = false) (hs : (s.access i ord pc).spinning i = false) :
    (s.access i ord pc).abs = s.abs.pass i ∧ s.abs.waiting i := by
  have hsp : s.spinning i := by
    simp only [Sys.spinning]
    cases pc <;> simp_all [WaitPc.writes, WaitPc.spinning]
  refine ⟨lockstep_ext i ⟨?_, ?_⟩ ⟨?_, ?_⟩, hsp⟩
  · simpa [Sys.abs, Lockstep.State.pass, hw] using access_writes_self s i ord pc
  · simpa [Sys.abs, Lockstep.State.pass] using hs
  · simpa [Sys.abs, Lockstep.State.pass] using access_writes_other s i ord pc
  · simpa [Sys.abs, Lockstep.State.pass] using access_spinning_other s i ord pc

end

/-- Who passes was not blocked. -/
lemma SysInv.not_blocked_of_pass (h : SysInv s) {ord} (hpc : s.pc i = some pc)
    (hw : pc.writes = false) (hs : (s.access i ord pc).spinning i = false) :
    s.writes i ≤ s.writes i.other := by
  have hp := h.point i
  rw [access_spinning_self] at hs
  simp only [PointOk, hpc] at hp
  have key : ¬ Blocked s.abs i → s.writes i ≤ s.writes i.other := by
    simp only [Blocked, Sys.abs]; omega
  cases pc with
  | inc | store => simp [WaitPc.writes] at hw
  | preGt =>
    by_cases hc : s.pair.ourCntr i > 0
    · simp [waitStep, hc, WaitPc.spinning] at hs
    · exact key fun hb => hc ((h.pre_blocked i hp.2).mpr hb).1
  | preLt =>
    by_cases hc : s.pair.ourCntr i < intMax
    · simp [waitStep, hc, WaitPc.spinning] at hs
    · exact key fun hb => hc ((h.pre_blocked i hp.2).mpr hb).2
  | preExit | postExit | cmpExit => simp [waitStep, h.exit, WaitPc.spinning] at hs
  | postGt =>
    by_cases hc : s.pair.ourCntr i > 1
    · simp [waitStep, hc, WaitPc.spinning] at hs
    · exact key fun hb => hc ((h.post_blocked i hp.2).mpr hb)
  | cmp => cases ord <;> simp [waitStep, WaitPc.spinning] at hs
  | cmpOur our =>
    by_cases hc : our < s.pair.otherCntr i
    · simp [waitStep, cmpBranch, hc, WaitPc.spinning] at hs
    · exact hp.2.2.2 (by omega)
  | cmpOther =>
    obtain ⟨-, h0, h1, rfl⟩ := hp
    by_cases hc : s.pair.ourCntr i < s.pair.otherCntr i
    · simp only [waitStep, cmpBranch, hc, WaitPc.spinning] at hs
      cases hs
    · exact key fun hb => hc ((h.cmp_blocked i h0 h1).mpr hb)

/-- **Refinement**: an access is a lockstep move or changes nothing. -/
theorem SysInv.access_refines (h : SysInv s) (ord : Bool) (hpc : s.pc i = some pc) :
    Lockstep.Step i s.abs (s.access i ord pc).abs ∨ (s.access i ord pc).abs = s.abs := by
  cases hw : pc.writes with
  | true =>
    obtain ⟨he, hq⟩ := abs_access_write s i ord pc hpc hw
    exact .inl (he ▸ .write hq)
  | false =>
    cases hs : (s.access i ord pc).spinning i with
    | true => exact .inr (abs_access_spin s i ord pc hpc hw hs)
    | false =>
      obtain ⟨he, hq⟩ := abs_access_pass s i ord pc hpc hw hs
      exact .inl (he ▸ .pass hq (h.not_blocked_of_pass hpc hw hs))

lemma abs_call (hpc : s.pc i = none) : (s.call i).abs = s.abs := by
  refine lockstep_ext i ⟨rfl, ?_⟩ ⟨rfl, ?_⟩
  · simp [Sys.abs, Sys.spinning, Sys.call, hpc, WaitPc.spinning]
  · simp [Sys.abs, Sys.spinning, Sys.call]

/-! ## The invariant is kept -/

lemma PointOk.frame (h : PointOk s j) (hpc : s'.pc j = s.pc j)
    (hi : s'.incs j = s.incs j) (hr : s'.returns j = s.returns j)
    (hc : s'.pair.otherCntr j = s.pair.otherCntr j) (hw : s'.writes j = s.writes j)
    (ho : s.writes j.other ≤ s'.writes j.other) : PointOk s' j := by
  unfold PointOk at h ⊢
  rw [hpc, hi, hr, hc, hw]
  cases hq : s.pc j with
  | none => simpa only [hq] using h
  | some pc =>
    simp only [hq] at h
    cases pc with
    | cmpOur => exact ⟨h.1, h.2.1, h.2.2.1, fun hle => le_trans (h.2.2.2 hle) ho⟩
    | _ => exact h

section
variable {s : Sys} {i : Side} {ord : Bool} {pc : WaitPc}

section

variable (h : SysInv s)

include h

/-- The other party's point stays right. -/
lemma access_frame_other : PointOk (s.access i ord pc) i.other := by
  refine (h.point i.other).frame ?_ ?_ ?_ (access_cntr_other s i ord pc)
    (access_writes_other s i ord pc) ?_
  · simp [access]
  · simp only [access]; split <;> simp
  · simp only [access]; split <;> simp
  · rw [other_other, access_writes_self]; split <;> omega

section

variable (hpc : s.pc i = some pc)

include hpc

/-- The counter is the number of writes, modulo 2^31. -/
lemma access_cntr_self : (s.access i ord pc).pair.otherCntr i
        = (((s.access i ord pc).writes i % 2147483648 : Nat) : Int) ∧
      (s.access i ord pc).resets i = (s.access i ord pc).writes i / 2147483648 := by
  have hp := h.point i
  have hc := h.cntr i
  have hr := h.resets i
  simp only [PointOk, hpc] at hp
  rw [access_writes_self]
  cases pc with
  | inc =>
    have hinc : tstAtomicInc (s.pair.otherCntr i) = s.pair.otherCntr i + 1 :=
      tstAtomicInc_of_lt (by omega) hp.2
    have hlt := hp.2
    simp only [access, waitStep, WaitPc.writes, if_true, Pair.otherCntr_setOtherCntr, reduceCtorEq,
      if_false, intMax] at hlt ⊢
    omega
  | store =>
    have hmax := hp.2
    simp only [access, waitStep, WaitPc.writes, if_true, Pair.otherCntr_setOtherCntr,
      bump_self, intMax] at hmax ⊢
    omega
  | _ => exact ⟨hc, hr⟩

/-- The party's own point stays right. -/
lemma access_point_self : PointOk (s.access i ord pc) i := by
  have hp := h.point i
  have hc := h.cntr i
  have hex := h.exit
  simp only [PointOk, hpc] at hp
  simp only [PointOk, Sys.access, setPc_self]
  cases pc with
  | inc =>
    have hinc : tstAtomicInc (s.pair.otherCntr i) = s.pair.otherCntr i + 1 :=
      tstAtomicInc_of_lt (by omega) hp.2
    by_cases hm : s.pair.otherCntr i + 1 = intMax
    · simp [waitStep, hinc, hm, hp.1]
    simp only [waitStep, hinc, hm, if_false, if_true, bump_self,
      Pair.otherCntr_setOtherCntr, reduceCtorEq]
    omega
  | preGt => by_cases hq : s.pair.ourCntr i > 0 <;> simp [waitStep, hq, hp]
  | preLt => by_cases hq : s.pair.ourCntr i < intMax <;> simp [waitStep, hq, hp]
  | preExit | postExit | cmpExit => simp [waitStep, hex, hp]
  | store => simp [waitStep, hp]
  | postGt =>
    by_cases hq : s.pair.ourCntr i > 1
    · simp [waitStep, hq, hp]
    · simp [waitStep, hq, hp, intMax]
  | cmp =>
    cases ord with
    | true =>
      -- a loaded value that lets the thread go is a true release
      have hrel : s.pair.otherCntr i ≤ s.pair.ourCntr i → s.writes i ≤ s.writes i.other := by
        intro _
        have hb := (h.cmp_blocked i hp.2.1 hp.2.2).not.mp (by omega)
        simp only [Blocked, Sys.abs] at hb
        omega
      simpa [waitStep, hp, Sys.writes] using hrel
    | false => simp [waitStep, hp]
  | cmpOur our => by_cases hq : our < s.pair.otherCntr i <;> simp [waitStep, cmpBranch, hq, hp]
  | cmpOther =>
    obtain ⟨h1, h2, h3, rfl⟩ := hp
    by_cases hq : s.pair.ourCntr i < s.pair.otherCntr i <;>
      simp [waitStep, cmpBranch, hq, h1, h2, h3]

/-- An access keeps the invariant. -/
lemma SysInv.access : SysInv (s.access i ord pc) where
  exit := by rw [access_exit]; exact h.exit
  lock := by
    rcases h.access_refines ord hpc with hs | he
    · exact h.lock.step hs
    · rw [he]; exact h.lock
  cntr := by
    intro j
    by_cases hj : j = i
    · subst hj; exact (access_cntr_self h hpc).1
    · rw [eq_other_of_ne hj, access_cntr_other, access_writes_other]; exact h.cntr _
  resets := by
    intro j
    by_cases hj : j = i
    · subst hj; exact (access_cntr_self h hpc).2
    · rw [eq_other_of_ne hj, access_writes_other, ← h.resets]
      simp only [Sys.access]; split <;> simp
  point := by
    intro j
    by_cases hj : j = i
    · subst hj; exact access_point_self h hpc
    · rw [eq_other_of_ne hj]; exact access_frame_other h

end

/-- A call keeps the invariant. -/
lemma SysInv.call (hpc : s.pc i = none) : SysInv (s.call i) where
  exit := h.exit
  lock := by rw [abs_call hpc]; exact h.lock
  cntr := h.cntr
  resets := h.resets
  point := by
    intro j
    by_cases hj : j = i
    · subst hj
      have hp := h.point j
      simp only [PointOk, hpc] at hp
      simpa [PointOk, Sys.call] using hp
    · rw [eq_other_of_ne hj]
      exact (h.point i.other).frame (by simp [Sys.call]) rfl rfl rfl rfl le_rfl

end

end

/-- **A step keeps the invariant.** -/
lemma SysInv.step (s : Sys) (m : Move) (s' : Sys) (h : SysInv s) (hs : s.step m = some s') :
    SysInv s' := by
  unfold Sys.step at hs
  split at hs
  · rename_i hpc
    cases hs
    exact h.call hpc
  rename_i pc hpc
  cases hs
  exact h.access hpc

def Sys.Reachable (s : Sys) : Prop := Lts.Reachable Sys.step Sys.init s

/-- **Every reachable state has the invariant.** -/
lemma Sys.Reachable.inv (h : s.Reachable) : SysInv s := Lts.invariant step SysInv.init SysInv.step h

/-- **A step is a step of the abstract model, or none.** -/
lemma SysInv.step_refines (h : SysInv s) (hs : s.step m = some s') :
    (∃ i, Lockstep.Step i s.abs s'.abs) ∨ s'.abs = s.abs := by
  unfold Sys.step at hs
  split at hs <;> rename_i hpc <;> cases hs
  · exact .inr (abs_call hpc)
  · exact (h.access_refines m.ord hpc).imp_left fun hstep => ⟨m.side, hstep⟩

/-! ## The barrier -/

lemma SysInv.incs_le_of_writes_le (h : SysInv s)
    (hw : s.writes i ≤ s.writes j) : s.incs i ≤ s.incs j := by
  have hi := h.resets i
  have hj := h.resets j
  simp only [writes] at *
  omega

/-- No party is more than one increment ahead. -/
lemma SysInv.incs_le_succ (h : SysInv s) (i : Side) : s.incs i ≤ s.incs i.other + 1 := by
  have hlock := (h.lock i).1
  have hi := h.resets i
  have hj := h.resets i.other
  simp only [Sys.abs, Sys.writes] at *
  omega

/-- The thread is between two waits, not ahead of the other one, and its counter can be incremented;
or it has made the increment of a wait it is still in. -/
lemma SysInv.returns_cases (h : SysInv s) (j : Side) :
    (s.returns j = s.incs j ∧ s.writes j ≤ s.writes j.other ∧ s.pair.otherCntr j < intMax) ∨
      ((s.pc j).isSome ∧ s.returns j + 1 = s.incs j) := by
  have hp := h.point j
  have hq := (h.lock j).2
  simp only [PointOk] at hp
  simp only [Sys.abs, Sys.spinning] at hq
  cases hpc : s.pc j with simp only [hpc] at hp hq
  | none =>
    exact .inl ⟨hp.1, hq trivial, hp.2⟩
  | some pc =>
    cases pc with
    | inc => exact .inl ⟨hp.1, hq rfl, hp.2⟩
    | _ => exact .inr ⟨rfl, hp.1⟩

/-- Who returned was met by the other. -/
lemma SysInv.returns_le (h : SysInv s) (i : Side) : s.returns i ≤ s.incs i.other := by
  rcases h.returns_cases i with ⟨hret, hw, -⟩ | ⟨-, hret⟩
  · rw [hret]
    exact h.incs_le_of_writes_le hw
  · have := h.incs_le_succ i
    omega

/-- **The waits form a barrier**: when a thread has returned from its k-th wait, the other one has
made the increment of its k-th wait, around the reset as anywhere else. -/
theorem pairWait_barrier (s : Sys) (hs : s.Reachable) (i : Side) (k : Nat)
    (hk : k ≤ s.returns i) : k ≤ s.incs i.other :=
  Nat.le_trans hk (hs.inv.returns_le i)

/-- The first wait: A arrives first and spins until B has incremented. -/
def firstRound : List Move :=
  [⟨.a, true⟩, ⟨.a, true⟩, ⟨.a, true⟩, ⟨.a, true⟩, ⟨.b, true⟩, ⟨.b, true⟩,
   ⟨.a, true⟩, ⟨.a, true⟩, ⟨.a, false⟩]

theorem pairWait_barrier_firstRound :
    ∃ s, Lts.run Sys.step Sys.init firstRound = some s ∧ s.returns .a = 1 ∧ 1 ≤ s.incs .b :=
  ⟨_, rfl, rfl, pairWait_barrier _ ⟨firstRound, rfl⟩ .a 1 (by decide)⟩

/-- **The waits refine lockstep**: what a run of the two threads writes and passes is a run of
`Lockstep.Step`. The writes are not bounded, but no counter leaves the range of an `int`. -/
theorem pairWait_refines_lockstep (s : Sys) (hs : s.Reachable) :
    Relation.ReflTransGen (fun x y => ∃ i, Lockstep.Step i x y) Sys.init.abs s.abs ∧
      ∀ i, 0 ≤ s.pair.otherCntr i ∧ s.pair.otherCntr i ≤ intMax := by
  refine ⟨Lts.refines step SysInv.init (fun t m t' ht hst => ?_) hs, fun i => ?_⟩
  · exact ⟨ht.step t m t' hst, ht.step_refines hst⟩
  · rw [hs.inv.cntr i, intMax]
    omega

theorem pairWait_refines_lockstep_firstRound :
    ∃ s, Lts.run Sys.step Sys.init firstRound = some s ∧ s.abs.writes .a = 1 ∧
      Relation.ReflTransGen (fun x y => ∃ i, Lockstep.Step i x y) Sys.init.abs s.abs :=
  ⟨_, rfl, rfl, (pairWait_refines_lockstep _ ⟨firstRound, rfl⟩).1⟩

/-! ## No deadlock -/

/-- The condition of the loop of `pc`, in the current counters. -/
def loopCond (i : Side) : WaitPc → Prop
  | .inc | .store => False
  | .preGt | .preLt | .preExit => 0 < p.ourCntr i ∧ p.ourCntr i < intMax ∧ p.exit = false
  | .postGt | .postExit => 1 < p.ourCntr i ∧ p.exit = false
  | .cmp | .cmpOur _ | .cmpOther _ | .cmpExit =>
    p.ourCntr i < p.otherCntr i ∧ p.exit = false

/-- Thread `i` spins in one of the loops and the loop's condition is true. -/
def Sys.Held (s : Sys) (i : Side) : Prop :=
  ∃ pc, s.pc i = some pc ∧ pc.spinning = true ∧ loopCond s.pair i pc

/-- Who is held spins and is blocked. -/
lemma SysInv.held_iff (h : SysInv s) (i : Side) : s.Held i ↔ s.spinning i ∧ Blocked s.abs i := by
  have hp := h.point i
  simp only [PointOk] at hp
  constructor
  · rintro ⟨pc, hpc, hsp, hc⟩
    refine ⟨by simpa [spinning, hpc] using hsp, ?_⟩
    simp only [hpc] at hp
    cases pc with
    | inc | store => exact hc.elim
    | preGt | preLt | preExit => exact (h.pre_blocked i hp.2).mp ⟨hc.1, hc.2.1⟩
    | postGt | postExit => exact (h.post_blocked i hp.2).mp hc.1
    | cmp | cmpExit => exact (h.cmp_blocked i hp.2.1 hp.2.2).mp hc.1
    | cmpOur | cmpOther => exact (h.cmp_blocked i hp.2.1 hp.2.2.1).mp hc.1
  · rintro ⟨hsp, hb⟩
    simp only [spinning] at hsp
    cases hpc : s.pc i with
    | none => simp [hpc] at hsp
    | some pc =>
      simp only [hpc] at hp hsp
      refine ⟨pc, hpc, hsp, ?_⟩
      cases pc with
      | inc | store => simp [WaitPc.spinning] at hsp
      | preGt | preLt | preExit =>
        have := (h.pre_blocked i hp.2).mpr hb
        exact ⟨this.1, this.2, h.exit⟩
      | postGt | postExit => exact ⟨(h.post_blocked i hp.2).mpr hb, h.exit⟩
      | cmp | cmpExit => exact ⟨(h.cmp_blocked i hp.2.1 hp.2.2).mpr hb, h.exit⟩
      | cmpOur | cmpOther => exact ⟨(h.cmp_blocked i hp.2.1 hp.2.2.1).mpr hb, h.exit⟩

/-- How many accesses thread `j` makes at most before its next write. A value loaded long ago may
send it round once more. -/
def Sys.rank (s : Sys) (j : Side) : Nat :=
  let preGt := if 0 < s.pair.ourCntr j then 2 else 1
  match s.pc j with
  | none => 1
  | some .inc | some .store => 0
  | some .preGt => preGt
  | some .preExit => preGt + 1
  | some .preLt => if s.pair.ourCntr j < intMax then preGt + 2 else 1
  | some .postGt => 2
  | some .postExit => 3
  | some .cmp => 3
  | some .cmpExit => 4
  | some (.cmpOur our) => if our < s.pair.otherCntr j then 5 else 2
  | some (.cmpOther _) => 2

lemma Sys.rank_le (s : Sys) (j : Side) : s.rank j ≤ 5 := by
  simp only [rank]
  split <;> (try split) <;> (try split) <;> omega

lemma waitStep_pair (hw : pc.writes = false) (i : Side) (ord : Bool) (p : Pair) :
    (waitStep i ord p pc).1 = p := by cases pc <;> simp [WaitPc.writes] at hw <;> rfl

/-- An access of a party that is not blocked brings it on. -/
lemma SysInv.rank_access (h : SysInv s) (ord : Bool)
    (hpc : s.pc j = some pc) (hw : pc.writes = false) (hb : ¬ Blocked s.abs j) :
    (s.access j ord pc).rank j < s.rank j := by
  have hp := h.point j
  simp only [PointOk, hpc] at hp
  have hpair : (s.access j ord pc).pair = s.pair := waitStep_pair hw j ord s.pair
  have hnext : (s.access j ord pc).pc j = (waitStep j ord s.pair pc).2 := by simp [Sys.access]
  simp only [Sys.rank, hpair, hnext, hpc]
  cases pc with
  | inc | store => simp [WaitPc.writes] at hw
  | preGt =>
    have hn := (h.pre_blocked j hp.2).not.mpr hb
    by_cases hq : 0 < s.pair.ourCntr j
    · have hm : ¬ s.pair.ourCntr j < intMax := fun hm => hn ⟨hq, hm⟩
      simp [waitStep, hq, hm]
    · simp [waitStep, hq]
  | preLt => by_cases hq : s.pair.ourCntr j < intMax <;> simp [waitStep, hq]
  | preExit | postExit | cmpExit => simp [waitStep, h.exit]
  | postGt =>
    have hn := (h.post_blocked j hp.2).not.mpr hb
    simp [waitStep, hn]
  | cmp =>
    have hn := (h.cmp_blocked j hp.2.1 hp.2.2).not.mpr hb
    cases ord <;> simp [waitStep, hn]
  | cmpOur our => by_cases hq : our < s.pair.otherCntr j <;> simp [waitStep, cmpBranch, hq]
  | cmpOther =>
    obtain ⟨-, h2, h3, rfl⟩ := hp
    have hn := (h.cmp_blocked j h2 h3).not.mpr hb
    simp [waitStep, cmpBranch, hn]

/-- While `i` is held and the other side does not write, nothing changes
for `i`, and the other side comes closer to its write. -/
lemma SysInv.held_step (h : SysInv s) (hsp : s.spinning i) (hb : Blocked s.abs i)
    (hs : s.step m = some s') (hw : s'.writes i.other = s.writes i.other) :
    (s'.spinning i ∧ Blocked s'.abs i ∧ s'.incs i = s.incs i ∧ s'.returns i = s.returns i) ∧
      s'.rank i.other + (if m.side = i.other then 1 else 0) ≤ s.rank i.other := by
  have hnb : ¬ Blocked s.abs i.other := fun hb' => not_both_blocked s.abs i ⟨hb, hb'⟩
  unfold Sys.step at hs
  by_cases hside : m.side = i
  · -- the held thread goes round its loop
    rw [hside] at hs
    cases hpc : s.pc i with
    | none => simp [Sys.spinning, hpc] at hsp
    | some pc =>
      simp only [hpc, Option.some.injEq] at hs
      subst hs
      have hpw : pc.writes = false := by
        simp only [Sys.spinning] at hsp
        cases pc <;> simp_all [WaitPc.spinning, WaitPc.writes]
      have hspin : (s.access i m.ord pc).spinning i := by
        by_contra hno
        have := h.not_blocked_of_pass hpc hpw (Bool.eq_false_iff.mpr hno)
        simp only [Blocked, Sys.abs] at hb
        omega
      have habs := abs_access_spin s i m.ord pc hpc hpw hspin
      refine ⟨⟨hspin, by rw [habs]; exact hb, ?_, ?_⟩, ?_⟩
      · have hne : pc ≠ .inc := by rintro rfl; simp [WaitPc.writes] at hpw
        simp [Sys.access, hne]
      · have hne : (waitStep i m.ord s.pair pc).2 ≠ none := by
          intro hn
          rw [access_spinning_self, hn] at hspin
          cases hspin
        simp [Sys.access, hne]
      · have hpair : (s.access i m.ord pc).pair = s.pair := waitStep_pair hpw i m.ord s.pair
        have hpc' : (s.access i m.ord pc).pc i.other = s.pc i.other := by simp [Sys.access]
        simp only [Sys.rank, hpair, hpc', hside]
        simp [(other_ne i).symm]
  · -- the other thread moves, but does not write
    have hside' := eq_other_of_ne hside
    rw [hside'] at hs ⊢
    cases hpc : s.pc i.other with
    | none =>
      simp only [hpc, Option.some.injEq] at hs
      subst hs
      have hspin : (s.call i.other).spinning i := by
        have hne : i ≠ i.other := (other_ne i).symm
        simpa [Sys.spinning, Sys.call, setPc, hne] using hsp
      refine ⟨⟨hspin, hb, rfl, rfl⟩, ?_⟩
      simp [Sys.rank, Sys.call, hpc]
    | some pc =>
      simp only [hpc, Option.some.injEq] at hs
      subst hs
      have hpw : pc.writes = false := by
        rw [access_writes_self] at hw
        cases hq : pc.writes
        · rfl
        · simp [hq] at hw
      have hfr := access_spinning_other s i.other m.ord pc
      have hwr := access_writes_other s i.other m.ord pc
      rw [other_other] at hfr hwr
      have hne : i ≠ i.other := (other_ne i).symm
      refine ⟨⟨by rw [hfr]; exact hsp, ?_, ?_, ?_⟩, ?_⟩
      · simp only [Blocked, Sys.abs] at hb ⊢
        rw [hwr, hw]; exact hb
      · simp only [Sys.access]; split <;> simp [bump, hne]
      · simp only [Sys.access]; split <;> simp [bump, hne]
      have := h.rank_access m.ord hpc hpw hnb
      simp only [if_true]
      omega

lemma writes_le_step (hs : s.step m = some s') (j : Side) : s.writes j ≤ s'.writes j := by
  unfold step at hs
  split at hs
  · cases hs; exact le_rfl
  rename_i pc hpc
  cases hs
  by_cases hj : j = m.side
  · subst hj; rw [access_writes_self]; split <;> omega
  · rw [eq_other_of_ne hj, access_writes_other]

lemma writes_le_run {ms} (hr : Lts.run step s ms = some s') (j : Side) : s.writes j ≤ s'.writes j :=
  Lts.run_induction step (P := fun t => s.writes j ≤ t.writes j)
    (fun _ _ _ h hs => le_trans h (writes_le_step hs j)) ms s s' le_rfl hr

/-- `held_step` along a run: the held thread stays where it is, the other one makes boundedly many
moves. -/
lemma SysInv.held_run : ∀ (ms : List Move) {s s' : Sys}, SysInv s →
    s.spinning i → Blocked s.abs i → Lts.run Sys.step s ms = some s' →
    s'.writes i.other = s.writes i.other →
      (s'.spinning i ∧ Blocked s'.abs i ∧ s'.incs i = s.incs i ∧ s'.returns i = s.returns i) ∧
      (ms.filter (fun m => m.side = i.other)).length ≤ s.rank i.other
  | [], s, s', h, hsp, hb, hr, hw => by
    simp only [Lts.run, Option.some.injEq] at hr
    subst hr
    exact ⟨⟨hsp, hb, rfl, rfl⟩, Nat.zero_le _⟩
  | m :: ms, s, s', h, hsp, hb, hr, hw => by
    simp only [Lts.run] at hr
    split at hr
    · cases hr
    rename_i s₁ h₁
    have hle1 := writes_le_step h₁ i.other
    have hle2 := writes_le_run hr i.other
    obtain ⟨⟨hsp₁, hb₁, hi₁, hr₁⟩, hrank⟩ := h.held_step hsp hb h₁ (by omega)
    obtain ⟨⟨hsp', hb', hi', hr'⟩, hlen⟩ :=
      SysInv.held_run ms (SysInv.step s m s₁ h h₁) hsp₁ hb₁ hr (by omega)
    refine ⟨⟨hsp', hb', by omega, by omega⟩, ?_⟩
    by_cases hm : m.side = i.other
    · simp only [hm, if_true, filter_cons, decide_true, length_cons] at hrank ⊢
      omega
    · simp only [hm, if_false, filter_cons, decide_false, Bool.false_eq_true] at hrank ⊢
      omega

lemma SysInv.returns_lt_of_held (h : SysInv s) (hh : s.Held i) : s.returns i.other < s.incs i := by
  obtain ⟨-, hb⟩ := (h.held_iff i).mp hh
  have hrel := h.lock.release hb
  rcases h.returns_cases i.other with ⟨_, -, hlt⟩ | ⟨-, _⟩
  · -- the missing write of the other side is an increment, not a reset
    have hi := h.resets i
    have ho := h.resets i.other
    rw [h.cntr i.other] at hlt
    simp only [Sys.abs, Sys.writes, intMax] at hrel hi ho hlt
    omega
  · have hle := h.incs_le_of_writes_le (i := i.other) (j := i) (by
      simp only [Sys.abs] at hrel; omega)
    omega

/-- The other party's write sets the party free. -/
lemma SysInv.release_of_write (h : SysInv s) (hsp : s.spinning i) (hb : Blocked s.abs i)
    (hm : m.side = i.other) (hs : s.step m = some s')
    (hw : s'.writes i.other = s.writes i.other + 1) :
    ¬ s'.Held i ∧ s'.spinning i ∧ s'.incs i = s.incs i ∧ s'.returns i = s.returns i ∧
      s'.incs i.other = s.incs i := by
  have h' := SysInv.step s m s' h hs
  have hrel := h.lock.release hb
  simp only [Sys.abs] at hrel
  have hne : i ≠ i.other := (other_ne i).symm
  unfold Sys.step at hs
  rw [hm] at hs
  cases hpc : s.pc i.other with
  | none =>
    simp only [hpc, Option.some.injEq] at hs
    subst hs
    simp [Sys.call, Sys.writes] at hw
  | some pc =>
    simp only [hpc, Option.some.injEq] at hs
    subst hs
    have hfr := access_spinning_other s i.other m.ord pc
    have hwr := access_writes_other s i.other m.ord pc
    rw [other_other] at hfr hwr
    have hinc : (s.access i.other m.ord pc).incs i = s.incs i := by
      simp only [Sys.access]; split <;> simp [bump, hne]
    refine ⟨?_, by rw [hfr]; exact hsp, hinc, ?_, ?_⟩
    · rw [h'.held_iff]
      rintro ⟨-, hb'⟩
      simp only [Blocked, Sys.abs] at hb'
      omega
    · simp only [Sys.access]; split <;> simp [bump, hne]
    rw [← hinc]
    have heq : (s.access i.other m.ord pc).writes i.other
        = (s.access i.other m.ord pc).writes i := by omega
    exact le_antisymm (h'.incs_le_of_writes_le (le_of_eq heq))
      (h'.incs_le_of_writes_le (le_of_eq heq.symm))

/-- **The waits do not deadlock.** Two spinning threads are never both held. A held thread's round
has not been left by the other one; its next increment or store makes the condition false, in that
round; and before it, it makes at most five moves. -/
theorem pairWait_no_deadlock (s : Sys) (hs : s.Reachable) : ¬ (s.Held .a ∧ s.Held .b) ∧
    ∀ i, s.Held i → s.returns i.other < s.incs i ∧ (∀ ms s₁ m s₂, Lts.run Sys.step s ms = some s₁ →
        s₁.writes i.other = s.writes i.other → m.side = i.other → s₁.step m = some s₂ →
        s₂.writes i.other = s₁.writes i.other + 1 →
          ¬ s₂.Held i ∧ s₂.spinning i = true ∧ s₂.incs i = s.incs i ∧
            s₂.returns i = s.returns i ∧ s₂.incs i.other = s.incs i) ∧
      (∀ ms s₁, Lts.run Sys.step s ms = some s₁ → s₁.writes i.other = s.writes i.other →
        (ms.filter (fun m => m.side = i.other)).length ≤ 5) := by
  have h := hs.inv
  refine ⟨?_, fun i hh => ⟨h.returns_lt_of_held hh, ?_, ?_⟩⟩
  · rintro ⟨ha, hb⟩
    exact not_both_blocked s.abs .a ⟨((h.held_iff .a).mp ha).2, ((h.held_iff .b).mp hb).2⟩
  · intro ms s₁ m _ hrun hw₁ hm hstep hw₂
    obtain ⟨hsp, hb⟩ := (h.held_iff i).mp hh
    obtain ⟨⟨hsp₁, hb₁, hi₁, hr₁⟩, -⟩ := SysInv.held_run ms h hsp hb hrun hw₁
    have h₁ := Lts.run_induction Sys.step SysInv.step ms s s₁ h hrun
    rw [← hi₁, ← hr₁]
    exact h₁.release_of_write hsp₁ hb₁ hm hstep hw₂
  · intro ms _ hrun hw
    obtain ⟨hsp, hb⟩ := (h.held_iff i).mp hh
    exact Nat.le_trans (SysInv.held_run ms h hsp hb hrun hw).2 (s.rank_le i.other)

/-- A has arrived at its first wait and is held; B has not called yet. -/
theorem pairWait_no_deadlock_firstArrival :
    ∃ s, Lts.run Sys.step Sys.init [⟨.a, true⟩, ⟨.a, true⟩] = some s ∧ s.Held .a ∧
      ¬ s.Held .b ∧ s.returns .b < s.incs .a := by
  refine ⟨_, rfl, ?_⟩
  have hreach : Sys.Reachable ((Sys.init.call .a).access .a true .inc) :=
    ⟨[⟨.a, true⟩, ⟨.a, true⟩], rfl⟩
  have hheld : Sys.Held ((Sys.init.call .a).access .a true .inc) .a :=
    ⟨.cmp, rfl, rfl, by decide, rfl⟩
  obtain ⟨hnot, hall⟩ := pairWait_no_deadlock _ hreach
  exact ⟨hheld, fun hb => hnot ⟨hheld, hb⟩, (hall .a hheld).1⟩

end LtpDdt.FuzzySync
