/-
Pan.Scheduler — the main loop of `pan/ltp-pan.c`, with `run_child` and `check_pids`.

The driver and the kernel are one transition system. A label resolves what the kernel
decides: how far `run_child` gets, and what `wait` returns. The state has the children
that were not waited for, and as history the commands that were tried.

* No signals are received, and the options that stop or idle the driver when a test
  fails are off. Then a slot is never marked as `stopping`.
* A child whose `exec` fails is waited for on the spot, which succeeds without signals.
* If the zoo file cannot be changed the driver exits (`Pc.exited`).

`Table` relates the slots, `num_active` and the kernel at the heads of the loops
(`step_table`), so there is a free slot whenever a child may be started.
`Sequence` says which commands were tried in sequential mode.
-/
import LtpDdt.Lts.Run

namespace LtpDdt.Pan

structure Config where
  cnt : Nat
  keepActive : Nat
  sequential : Bool
  trackExitStats : Bool
  cnt_pos : 0 < cnt
  keepActive_pos : 0 < keepActive

/-- `struct tag_pgrp` -/
structure Slot where
  pgrp : Int := 0
  cmd : Nat := 0
  deriving DecidableEq

inductive Pc where
  /-- at the head of the loop that starts children -/
  | starting
  /-- before `check_pids` -/
  | waiting
  /-- behind the main loop -/
  | done
  /-- in the branch that reports a full table -/
  | aborted
  | exited
  deriving DecidableEq

structure St where
  pc : Pc
  running : List Slot
  numActive : Int
  starts : Int
  /-- the command index -/
  c : Nat
  stop : Nat
  exitStat : Nat
  /-- the kernel's: children that were not waited for -/
  children : List Int
  /-- history: the commands that were tried -/
  attempts : List Nat
  deriving DecidableEq

/-- A call fails; the `exec` of the child fails; or it runs, and is entered in the zoo file or
not. -/
inductive ChildOutcome where
  | openFailed
  | pipeFailed
  | forkFailed
  | execFailed (pid : Int)
  | started (pid : Int) (marked : Bool)
  deriving DecidableEq

inductive Status where
  | exited (code : Nat)
  | signaled (sig : Nat)
  deriving DecidableEq

inductive WaitOutcome where
  | error
  | child (pid : Int) (status : Status) (cleared : Bool)
  deriving DecidableEq

inductive Label where
  /-- a round of the loop that starts children; `random` is what
  `lrand48()` returns -/
  | start (random : Nat) (outcome : ChildOutcome)
  /-- that loop ends; whether there is a file that tells to stop -/
  | full (stopFile : Bool)
  /-- `check_pids` and the test behind it -/
  | wait (outcome : WaitOutcome)
  deriving DecidableEq

def tconf : Nat := 32

variable (cfg : Config)

/-! ## `run_child` -/

def setCmd (i cmd : Nat) (running : List Slot) : List Slot :=
  running.modify i fun s => { s with cmd := cmd }

def setPgrp (i : Nat) (pgrp : Int) (running : List Slot) : List Slot :=
  running.modify i fun s => { s with pgrp := pgrp }

/-- Returns the process id or -1; `none` stands for an exit of the driver. -/
def runChild (colle i : Nat) (outcome : ChildOutcome) (st : St) : Option Int × St :=
  match outcome with
  | .openFailed => (some (-1), st)
  | .pipeFailed => (some (-1), st)
  | .forkFailed => (some (-1), { st with running := setCmd i colle st.running })
  | .execFailed _ => (some (-1), { st with running := setCmd i colle st.running })
  | .started pid marked =>
    (if marked then some pid else none,
      { st with running := setPgrp i pid (setCmd i colle st.running)
                children := pid :: st.children })

/-! ## `check_pids` -/

/-- Returns the number of errors; `none` stands for an exit of the driver. -/
def checkPids (outcome : WaitOutcome) (st : St) : Option Nat × St :=
  match outcome with
  | .error => (some 0, st)
  | .child pid status cleared =>
    let st := { st with numActive := st.numActive - 1, children := st.children.erase pid }
    let failed := match status with
      | .exited code => if code ≠ 0 ∧ code ≠ tconf then 1 else 0
      | .signaled _ => 0
    match st.running.findIdx? (·.pgrp = pid) with
    | none => (some failed, st)
    | some i =>
      let signaled := match status with
        | .exited _ => 0
        | .signaled _ => 1
      (if cleared then some (failed + signaled) else none,
        { st with running := setPgrp i 0 st.running })

/-! ## `main` -/

/-- The condition of the loop that starts children, and the test at its
begin. -/
def MayStart (st : St) : Prop :=
  (st.numActive < cfg.keepActive ∧ st.starts ≠ 0) ∧ st.stop = 0

instance (st : St) : Decidable (MayStart cfg st) := inferInstanceAs (Decidable (_ ∧ _))

def startOne (random : Nat) (outcome : ChildOutcome) (st : St) : St :=
  let c := if cfg.sequential then st.c else random % cfg.cnt
  match st.running.findIdx? (·.pgrp = 0) with
  | none => { st with pc := .aborted }
  | some i =>
    match runChild c i outcome { st with attempts := st.attempts ++ [c] } with
    | (none, st) => { st with pc := .exited }
    | (some cpid, st) =>
      { st with
        numActive := if cpid ≠ -1 then st.numActive + 1 else st.numActive
        starts :=
          if (cpid ≠ -1 ∨ cfg.sequential = true) ∧ st.starts > 0 then st.starts - 1
          else st.starts
        c := if cfg.sequential then (if c + 1 ≥ cfg.cnt then 0 else c + 1) else c }

def countStop (stopFile : Bool) (st : St) : St :=
  if st.starts = 0 then { st with stop := st.stop + 1 }
  else if st.starts = -1 ∧ stopFile = true then { st with stop := st.stop + 1 }
  else st

/-- `check_pids` and the end of a round of the main loop. -/
def endRound (outcome : WaitOutcome) (st : St) : St :=
  match checkPids outcome st with
  | (none, st) => { st with pc := .exited }
  | (some err, st) =>
    let st :=
      if err ≠ 0 ∧ cfg.trackExitStats = true then { st with exitStat := st.exitStat + 1 } else st
    if st.stop ≠ 0 ∧ st.numActive = 0 then { st with pc := .done } else { st with pc := .starting }

/-! ## The system -/

/-- A process id is positive and not that of another child. -/
def FreshPid (st : St) (pid : Int) : Prop := 0 < pid ∧ pid ∉ st.children

/-- What the kernel can do. `wait` only reports children. -/
def Possible (st : St) : Label → Prop
  | .start _ (.execFailed pid) => FreshPid st pid
  | .start _ (.started pid _) => FreshPid st pid
  | .wait (.child pid _ _) => pid ∈ st.children
  | _ => True

instance (st : St) (pid : Int) : Decidable (FreshPid st pid) :=
  inferInstanceAs (Decidable (_ ∧ _))

instance (st : St) : ∀ l, Decidable (Possible st l)
  | .start _ .openFailed => isTrue trivial
  | .start _ .pipeFailed => isTrue trivial
  | .start _ .forkFailed => isTrue trivial
  | .start _ (.execFailed pid) => inferInstanceAs (Decidable (FreshPid st pid))
  | .start _ (.started pid _) => inferInstanceAs (Decidable (FreshPid st pid))
  | .full _ => isTrue trivial
  | .wait .error => isTrue trivial
  | .wait (.child pid _ _) => inferInstanceAs (Decidable (pid ∈ st.children))

def step (st : St) (l : Label) : Option St :=
  if Possible st l then
    match st.pc, l with
    | .starting, .start random outcome =>
      if MayStart cfg st then some (startOne cfg random outcome st) else none
    | .starting, .full stopFile =>
      if MayStart cfg st then none else some { countStop stopFile st with pc := .waiting }
    | .waiting, .wait outcome => some (endRound cfg outcome st)
    | _, _ => none
  else none

def init (starts : Int) : St where
  pc := .starting
  running := List.replicate cfg.keepActive {}
  numActive := 0
  starts := starts
  c := 0
  stop := 0
  exitStat := 0
  children := []
  attempts := []

open List

variable {running : List Slot} {i : Nat} {pid : Int} {l : Label}

/-! ## Slots -/

def active (running : List Slot) : List Int := (running.map (·.pgrp)).filter (· ≠ 0)

lemma active_append (xs ys : List Slot) : active (xs ++ ys) = active xs ++ active ys := by
  simp [active]

lemma active_cons (s : Slot) (ss : List Slot) :
    active (s :: ss) = if s.pgrp = 0 then active ss else s.pgrp :: active ss := by
  by_cases h : s.pgrp = 0 <;> simp [active, h]

lemma active_length_le (running : List Slot) : (active running).length ≤ running.length := by
  have := length_filter_le (· ≠ 0) (running.map (·.pgrp))
  simpa [active] using this

lemma findIdx_split {p : Slot → Bool} (h : running.findIdx? p = some i) :
    ∃ pre s post, running = pre ++ s :: post ∧ pre.length = i ∧ p s := by
  induction running generalizing i with
  | nil => simp at h
  | cons s ss ih =>
    rw [findIdx?_cons] at h
    by_cases hp : p s
    · simp only [hp, if_true, Option.some.injEq] at h
      exact ⟨[], s, ss, rfl, h, hp⟩
    rw [if_neg hp, Option.map_eq_some_iff] at h
    obtain ⟨j, hj, rfl⟩ := h
    obtain ⟨pre, s', post, rfl, hlen, hs⟩ := ih hj
    exact ⟨s :: pre, s', post, rfl, by simp [hlen], hs⟩

lemma modify_split (f : Slot → Slot) (s : Slot) (post : List Slot) :
    ∀ pre, (pre ++ s :: post).modify pre.length f = pre ++ f s :: post
  | [] => by simp
  | x :: pre => by simp [modify_split f s post pre]

lemma active_setCmd (i cmd : Nat) (running : List Slot) :
    active (setCmd i cmd running) = active running := by
  have hmap : (setCmd i cmd running).map (·.pgrp) = running.map (·.pgrp) := by
    induction running generalizing i with
    | nil => cases i <;> rfl
    | cons s ss ih =>
      cases i with
      | zero => rfl
      | succ i => simpa [setCmd] using ih i
  rw [active, hmap, active]

lemma active_setPgrp (hpid : pid ≠ 0) (h : running.findIdx? (·.pgrp = 0) = some i) (cmd : Nat) :
    (active (setPgrp i pid (setCmd i cmd running))).Perm (pid :: active running) := by
  obtain ⟨_, s, _, rfl, rfl, hs⟩ := findIdx_split h
  have hs : s.pgrp = 0 := by simpa using hs
  rw [setCmd, modify_split, setPgrp, modify_split]
  simp only [active_append, active_cons, hpid, hs, if_false]
  exact perm_middle

lemma active_clear (hpid : pid ≠ 0) (h : running.findIdx? (·.pgrp = pid) = some i) :
    (active running).Perm (pid :: active (setPgrp i 0 running)) := by
  obtain ⟨_, s, _, rfl, rfl, hs⟩ := findIdx_split h
  have hs : s.pgrp = pid := by simpa using hs
  rw [setPgrp, modify_split]
  simp only [active_append, active_cons, hpid, hs, if_false]
  exact perm_middle

/-! ## The table -/

/-- The slots, the counter and the kernel agree on the children. -/
structure Table (st : St) : Prop where
  length : st.running.length = cfg.keepActive
  perm : st.children.Perm (active st.running)
  nodup : st.children.Nodup
  pos : ∀ pid ∈ st.children, 0 < pid
  count : st.numActive = (active st.running).length

variable {cfg} {st st' : St}

lemma Table.free_slot (h : Table cfg st) (hlt : st.numActive < cfg.keepActive) :
    ∃ i, st.running.findIdx? (·.pgrp = 0) = some i := by
  cases hf : st.running.findIdx? (·.pgrp = 0) with
  | some i => exact ⟨i, rfl⟩
  | none =>
    rw [findIdx?_eq_none_iff] at hf
    have hall : active st.running = st.running.map (·.pgrp) :=
      filter_eq_self.mpr fun p hp => by
        obtain ⟨s, hs, rfl⟩ := mem_map.mp hp
        simpa using hf s hs
    have := h.count
    rw [hall, length_map, h.length] at this
    omega

lemma Table.congr (h : Table cfg st) (hlen : st'.running.length = st.running.length)
    (hact : active st'.running = active st.running) (hnum : st'.numActive = st.numActive)
    (hchildren : st'.children = st.children) : Table cfg st' where
  length := hlen.trans h.length
  perm := by rw [hchildren, hact]; exact h.perm
  nodup := by rw [hchildren]; exact h.nodup
  pos := by rw [hchildren]; exact h.pos
  count := by rw [hnum, hact]; exact h.count

/-! ## Steps -/

/-- **What a step can do.** -/
lemma step_cases (h : step cfg st l = some st') :
    (∃ random o, l = .start random o ∧ st.pc = .starting ∧ MayStart cfg st ∧ Possible st l ∧
      st' = startOne cfg random o st) ∨
    (∃ f, l = .full f ∧ st.pc = .starting ∧ ¬ MayStart cfg st ∧
      st' = { countStop f st with pc := .waiting }) ∨
    (∃ o, l = .wait o ∧ st.pc = .waiting ∧ Possible st l ∧ st' = endRound cfg o st) := by
  unfold step at h
  split at h
  · next hposs =>
    split at h
    · next random o hpc =>
      split at h
      · next hmay => exact .inl ⟨random, o, rfl, hpc, hmay, hposs, (Option.some.inj h).symm⟩
      · cases h
    · next f hpc =>
      split at h
      · cases h
      · next hmay => exact .inr (.inl ⟨f, rfl, hpc, hmay, (Option.some.inj h).symm⟩)
    · next o hpc => exact .inr (.inr ⟨o, rfl, hpc, hposs, (Option.some.inj h).symm⟩)
    · cases h
  · cases h

variable {random : Nat} {o : ChildOutcome}

lemma runChild_cases (st : St) (colle : Nat) (hi : st.running.findIdx? (·.pgrp = 0) = some i)
    (hposs : Possible st (.start random o)) :
    (∃ running, runChild colle i o st = (some (-1), { st with running := running }) ∧
      running.length = st.running.length ∧ active running = active st.running) ∨
    (∃ pid marked running, o = .started pid marked ∧ 0 < pid ∧ pid ∉ st.children ∧
      runChild colle i o st = (if marked then some pid else none,
        { st with running := running, children := pid :: st.children }) ∧
      running.length = st.running.length ∧ (active running).Perm (pid :: active st.running)) := by
  have hset : (setCmd i colle st.running).length = st.running.length := by simp [setCmd]
  cases o with
  | openFailed | pipeFailed => exact .inl ⟨st.running, rfl, rfl, rfl⟩
  | forkFailed | execFailed => exact .inl ⟨_, rfl, hset, active_setCmd ..⟩
  | started pid marked =>
    have hpid : 0 < pid ∧ pid ∉ st.children := hposs
    exact .inr ⟨pid, marked, _, rfl, hpid.1, hpid.2, rfl, by simp [setPgrp, setCmd],
      active_setPgrp (by omega) hi colle⟩

section

variable (h : Table cfg st)

include h

/-- A command that is started. -/
lemma startOne_spec (hmay : MayStart cfg st) (hposs : Possible st (.start random o)) :
    (startOne cfg random o st).pc = .exited ∨
      Table cfg (startOne cfg random o st) ∧ (startOne cfg random o st).pc = st.pc ∧
        (startOne cfg random o st).stop = st.stop ∧
        (startOne cfg random o st).numActive ≤ st.numActive + 1 ∧
        (cfg.sequential → (startOne cfg random o st).attempts = st.attempts ++ [st.c] ∧
          (startOne cfg random o st).starts = (if st.starts > 0 then st.starts - 1 else st.starts) ∧
          (startOne cfg random o st).c = if st.c + 1 ≥ cfg.cnt then 0 else st.c + 1) := by
  obtain ⟨i, hi⟩ := h.free_slot hmay.1.1
  obtain ⟨c, hc⟩ : ∃ c, c = (if cfg.sequential then st.c else random % cfg.cnt) := ⟨_, rfl⟩
  have hrun := runChild_cases { st with attempts := st.attempts ++ [c] } c hi hposs
  unfold startOne
  simp only [hi, ← hc]
  rcases hrun with ⟨_, heq, hlen, hact⟩ | ⟨pid, marked, _, -, hpid, hnew, heq, hlen, hact⟩
  · rw [heq]
    refine .inr ⟨h.congr hlen hact (by simp) rfl, rfl, rfl, ?_, fun hseq => ?_⟩
    · simp only
      omega
    simp [hseq, hc]
  rw [heq]
  cases marked with
  | false => exact .inl rfl
  | true =>
    have hne : pid ≠ -1 := by omega
    refine .inr ⟨⟨hlen.trans h.length, (h.perm.cons pid).trans hact.symm,
      nodup_cons.mpr ⟨hnew, h.nodup⟩, ?_, ?_⟩, rfl, rfl, ?_, fun hseq => ?_⟩
    · intro p hp
      rcases mem_cons.mp hp with rfl | hp
      exacts [hpid, h.pos p hp]
    · have hcount := h.count
      have hlen := hact.length_eq
      simp only [length_cons] at hlen
      simp only [if_true]
      omega
    · simp [hne]
    · rw [if_pos hseq] at hc
      simp [hseq, hc]

lemma Table.slot_of_child (hpid : pid ∈ st.children) :
    ∃ i, st.running.findIdx? (·.pgrp = pid) = some i := by
  have hact := (h.perm.mem_iff).mp hpid
  obtain ⟨s, hs, hp⟩ := mem_map.mp (mem_of_mem_filter hact)
  cases hf : st.running.findIdx? (·.pgrp = pid) with
  | some i => exact ⟨i, rfl⟩
  | none =>
    rw [findIdx?_eq_none_iff] at hf
    simpa [hp] using hf s hs

/-- A child that is waited for. -/
lemma checkPids_spec {o} (hposs : Possible st (.wait o)) :
    (checkPids o st).1 = none ∨ ∃ err running numActive children, checkPids o st = (some err,
          { st with running := running, numActive := numActive, children := children }) ∧
        Table cfg { st with running := running, numActive := numActive, children := children } ∧
        ((o = .error ∧ numActive = st.numActive) ∨
          (o ≠ .error ∧ numActive = st.numActive - 1)) := by
  cases o with
  | error => exact .inr ⟨0, st.running, st.numActive, st.children, rfl, h, .inl ⟨rfl, rfl⟩⟩
  | child pid status cleared =>
    have hmem : pid ∈ st.children := hposs
    have hpid := h.pos pid hmem
    obtain ⟨i, hi⟩ := h.slot_of_child hmem
    have hclear := active_clear (by omega) hi
    unfold checkPids
    simp only [hi]
    cases cleared with
    | false => exact .inl rfl
    | true =>
      refine .inr ⟨_, _, _, _, rfl, ⟨?_, ?_, h.nodup.erase pid, ?_, ?_⟩, .inr ⟨by simp, rfl⟩⟩
      · simpa [setPgrp] using h.length
      · have := (h.perm.trans hclear).erase pid
        rwa [erase_cons_head] at this
      · exact fun p hp => h.pos p (mem_of_mem_erase hp)
      have hcount := h.count
      have hlen := hclear.length_eq
      simp only [length_cons] at hlen
      dsimp only
      omega

lemma endRound_spec {o} (hposs : Possible st (.wait o)) :
    (endRound cfg o st).pc = .exited ∨ Table cfg (endRound cfg o st) ∧ (endRound cfg o st).pc =
          (if st.stop ≠ 0 ∧ (endRound cfg o st).numActive = 0 then .done else .starting) ∧
        (endRound cfg o st).stop = st.stop ∧ (endRound cfg o st).starts = st.starts ∧
        (endRound cfg o st).attempts = st.attempts ∧ (endRound cfg o st).c = st.c ∧
        (o = .error ∧ (endRound cfg o st).numActive = st.numActive ∨
          o ≠ .error ∧ (endRound cfg o st).numActive = st.numActive - 1) := by
  rcases checkPids_spec h hposs with hnone | ⟨err, running, numActive, children, heq, htable, hnum⟩
  · left
    unfold endRound
    rcases hc : checkPids o st with ⟨_ | err, _⟩
    · rfl
    · rw [hc] at hnone
      cases hnone
  right
  have hround : ∃ n, endRound cfg o st =
      { st with running := running, numActive := numActive, children := children, exitStat := n,
                pc := if st.stop ≠ 0 ∧ numActive = 0 then .done else .starting } := by
    unfold endRound
    rw [heq]
    by_cases herr : err ≠ 0 ∧ cfg.trackExitStats = true <;>
      by_cases hdone : st.stop ≠ 0 ∧ numActive = 0 <;> simp [herr, hdone]
  obtain ⟨n, hn⟩ := hround
  rw [hn]
  exact ⟨htable.congr rfl rfl rfl rfl, rfl, rfl, rfl, rfl, rfl, hnum⟩

end

/-! ## Invariants -/

/-- The table is in order, unless the driver exits in the middle of a step. -/
def TableInv (cfg : Config) (st : St) : Prop :=
  st.pc = .exited ∨ st.pc ≠ .aborted ∧ Table cfg st

lemma countStop_table (f : Bool) (pc : Pc) (h : Table cfg st) :
    Table cfg { countStop f st with pc := pc } := by
  unfold countStop
  split
  · exact h.congr rfl rfl rfl rfl
  · split <;> exact h.congr rfl rfl rfl rfl

/-- A step keeps the table right. -/
lemma step_table (h : TableInv cfg st) (hs : step cfg st l = some st') : TableInv cfg st' := by
  rcases step_cases hs with ⟨_, o, rfl, hpc, hmay, hposs, rfl⟩ | ⟨f, rfl, hpc, -, rfl⟩ |
    ⟨o, rfl, hpc, hposs, rfl⟩
  all_goals
    obtain ⟨-, htable⟩ : st.pc ≠ .aborted ∧ Table cfg st := h.resolve_left (by rw [hpc]; decide)
  · rcases startOne_spec htable hmay hposs with hexit | ⟨ht, hpc', -⟩
    · exact .inl hexit
    · exact .inr ⟨by rw [hpc', hpc]; decide, ht⟩
  · exact .inr ⟨Pc.noConfusion, countStop_table f .waiting htable⟩
  rcases endRound_spec htable hposs with hexit | ⟨ht, hpc', -⟩
  · exact .inl hexit
  refine .inr ⟨?_, ht⟩
  rw [hpc']
  split <;> decide

lemma step_done (h : TableInv cfg st) (hs : step cfg st l = some st') (hdone : st'.pc = .done) :
    st'.numActive = 0 := by
  rcases step_cases hs with ⟨_, o, rfl, hpc, hmay, hposs, rfl⟩ | ⟨f, rfl, -, -, rfl⟩ |
    ⟨o, rfl, hpc, hposs, rfl⟩
  · obtain ⟨-, htable⟩ := h.resolve_left (by rw [hpc]; decide)
    rcases startOne_spec htable hmay hposs with hpc' | ⟨-, hpc', -⟩ <;> simp [hpc', hpc] at hdone
  · cases hdone
  obtain ⟨-, htable⟩ := h.resolve_left (by rw [hpc]; decide)
  rcases endRound_spec htable hposs with hpc' | ⟨-, hpc', -⟩ <;> rw [hpc'] at hdone
  · cases hdone
  split at hdone
  · next hend => exact hend.2
  · cases hdone

lemma init_table (starts : Int) : TableInv cfg (init cfg starts) := by
  have hact : active (init cfg starts).running = [] := by
    rw [active, filter_eq_nil_iff]
    intro p hp
    obtain ⟨s, hs, rfl⟩ := mem_map.mp hp
    rw [(mem_replicate.mp hs).2]
    decide
  refine .inr ⟨Pc.noConfusion, ⟨by simp [init], ?_, nodup_nil, ?_, ?_⟩⟩
  · rw [hact]
    exact .refl _
  · intro p hp
    cases hp
  · rw [hact]
    rfl

/-- The commands that were tried, in sequential mode with `S` starts. -/
structure Sequence (cfg : Config) (S : Nat) (st : St) : Prop where
  nonneg : 0 ≤ st.starts
  total : st.attempts.length + st.starts = S
  next : st.c = st.attempts.length % cfg.cnt
  order : st.attempts = (List.range st.attempts.length).map (· % cfg.cnt)
  stopped : st.stop ≠ 0 → st.starts = 0
  waited : st.pc = .waiting → st.numActive < cfg.keepActive → st.stop ≠ 0
  ended : st.pc = .done → st.stop ≠ 0 ∧ st.numActive = 0

lemma next_index {n cnt} (hcnt : 0 < cnt) :
    (if n % cnt + 1 ≥ cnt then 0 else n % cnt + 1) = (n + 1) % cnt := by
  have hlt := Nat.mod_lt n hcnt
  rw [← Nat.mod_add_mod n cnt 1]
  split
  · rw [show n % cnt + 1 = cnt by omega, Nat.mod_self]
  · exact (Nat.mod_eq_of_lt (by omega)).symm

/-- Both invariants. -/
def Inv (cfg : Config) (S : Nat) (st : St) : Prop :=
  TableInv cfg st ∧ (st.pc = .exited ∨ Sequence cfg S st)

/-- **A step keeps the invariant.** -/
lemma step_inv (hseq : cfg.sequential) {S} (h : Inv cfg S st) (hs : step cfg st l = some st') :
    Inv cfg S st' := by
  refine ⟨step_table h.1 hs, ?_⟩
  rcases step_cases hs with ⟨_, o, rfl, hpc, hmay, hposs, rfl⟩ | ⟨f, rfl, hpc, hmay, rfl⟩ |
    ⟨o, rfl, hpc, hposs, rfl⟩
  all_goals
    have hne : st.pc ≠ .exited := by rw [hpc]; decide
    obtain ⟨-, htable⟩ := h.1.resolve_left hne
    have hq := h.2.resolve_left hne
    have htotal := hq.total
    have hnonneg := hq.nonneg
  · rcases startOne_spec htable hmay hposs with hexit | ⟨-, hpc', hstop, -, hrest⟩
    · exact .inl hexit
    obtain ⟨hatt, hstarts, hc⟩ := hrest hseq
    have hpos : st.starts > 0 := by have := hmay.1.2; omega
    refine .inr ⟨by omega, ?_, ?_, ?_, ?_, ?_, ?_⟩
    · rw [hatt, length_append, length_singleton]
      omega
    · rw [hc, hatt, hq.next, length_append]
      exact next_index cfg.cnt_pos
    · rw [hatt, length_append, length_singleton, range_succ, map_append, ← hq.order, hq.next]
      rfl
    · rw [hstop, hmay.2]
      exact fun h => absurd rfl h
    · rw [hpc', hpc]
      exact Pc.noConfusion
    · rw [hpc', hpc]
      exact Pc.noConfusion
  · -- the last start ends the loop for good
    right
    unfold countStop
    split
    · next h0 =>
      exact ⟨hnonneg, htotal, hq.next, hq.order, fun _ => h0, fun _ _ => Nat.succ_ne_zero _,
        Pc.noConfusion⟩
    next h0 =>
    rw [if_neg (by omega)]
    refine ⟨hnonneg, htotal, hq.next, hq.order, hq.stopped, fun _ hlt hstop => ?_, Pc.noConfusion⟩
    exact hmay ⟨⟨hlt, h0⟩, hstop⟩
  · rcases endRound_spec htable hposs with hexit | ⟨-, hpc', hstop, hstarts, hatt, hc, -⟩
    · exact .inl hexit
    refine .inr ⟨by omega, by rw [hatt, hstarts]; exact htotal, by rw [hc, hatt]; exact hq.next,
      by rw [hatt]; exact hq.order, by rw [hstop, hstarts]; exact hq.stopped, ?_, ?_⟩
    · rw [hpc']
      split <;> exact Pc.noConfusion
    rw [hpc', hstop]
    split
    · next hdone => exact fun _ => hdone
    · exact Pc.noConfusion

lemma init_inv (S : Nat) : Inv cfg S (init cfg S) := by
  refine ⟨init_table _, .inr ⟨?_, ?_, ?_, rfl, ?_, Pc.noConfusion, Pc.noConfusion⟩⟩
  · exact Int.natCast_nonneg S
  · exact Int.zero_add _
  · exact (Nat.zero_mod _).symm
  · exact fun h => absurd rfl h

/-- `num_active` is the number of slots in use and at most `keep_active`; the branch for a full
table was not taken; the first commands were tried, in order. Behind the loop all `S` were, and no
child is left. -/
lemma reachable_sequential (S : Nat) (hseq : cfg.sequential)
    (hr : Lts.Reachable (step cfg) (init cfg S) st) (hexit : st.pc ≠ .exited) :
    (st.numActive = (active st.running).length ∧ st.numActive ≤ cfg.keepActive) ∧ st.pc ≠ .aborted ∧
      (st.attempts = (range st.attempts.length).map (· % cfg.cnt) ∧ st.attempts.length ≤ S) ∧
      (st.pc = .done → st.attempts.length = S ∧ st.children = []) := by
  have hinv : Inv cfg S st :=
    Lts.invariant (step cfg) (init_inv S) (fun _ _ _ h hs => step_inv hseq h hs) hr
  obtain ⟨haborted, htable⟩ := hinv.1.resolve_left hexit
  have hq := hinv.2.resolve_left hexit
  have hcount := htable.count
  have hle := active_length_le st.running
  have hlen := htable.length
  have htotal := hq.total
  have hnonneg := hq.nonneg
  refine ⟨⟨hcount, by omega⟩, haborted, ⟨hq.order, by omega⟩, fun hdone => ?_⟩
  obtain ⟨hstop, _⟩ := hq.ended hdone
  have hstarts := hq.stopped hstop
  refine ⟨by omega, ?_⟩
  have hnil : active st.running = [] := eq_nil_of_length_eq_zero (by omega)
  exact Perm.eq_nil (hnil ▸ htable.perm)

/-! ## Progress -/

/-- `wait` reports a child if there is one. -/
def Reports (st : St) : Label → Prop
  | .wait .error => st.children = []
  | _ => True

instance (st : St) : ∀ l, Decidable (Reports st l)
  | .start _ _ => isTrue trivial
  | .full _ => isTrue trivial
  | .wait .error => inferInstanceAs (Decidable (st.children = []))
  | .wait (.child _ _ _) => isTrue trivial

def reportingStep (cfg : Config) (st : St) (l : Label) : Option St :=
  if Reports st l then step cfg st l else none

lemma step_of_reportingStep (hs : reportingStep cfg st l = some st') :
    Reports st l ∧ step cfg st l = some st' := by
  unfold reportingStep at hs
  split at hs
  · next hrep => exact ⟨hrep, hs⟩
  · cases hs

def work (st : St) : Nat := 4 * st.starts.toNat + 2 * st.numActive.toNat

def measure (st : St) : Nat :=
  match st.pc with
  | .starting => work st + 2
  | .waiting => work st + 1
  | .done => work st
  | .aborted | .exited => 0

/-- Every report brings the run on. -/
lemma measure_lt (hseq : cfg.sequential) {S} (h : Inv cfg S st) (hrep : Reports st l)
    (hs : step cfg st l = some st') : measure st' < measure st := by
  by_cases hexit : st'.pc = .exited
  · have hzero : measure st' = 0 := by simp [measure, hexit]
    rw [hzero]
    rcases step_cases hs with ⟨_, _, _, hpc, _⟩ | ⟨_, _, hpc, _⟩ | ⟨_, _, hpc, _⟩ <;>
      simp [measure, hpc]
  rcases step_cases hs with ⟨_, o, rfl, hpc, hmay, hposs, rfl⟩ | ⟨f, rfl, hpc, hmay, rfl⟩ |
    ⟨o, rfl, hpc, hposs, rfl⟩
  all_goals
    have hne : st.pc ≠ .exited := by rw [hpc]; decide
    obtain ⟨-, htable⟩ := h.1.resolve_left hne
    have hq := h.2.resolve_left hne
    have hnonneg := hq.nonneg
    have hcount := htable.count
  · obtain ⟨-, hpc', -, hnum, hrest⟩ := (startOne_spec htable hmay hposs).resolve_left hexit
    obtain ⟨-, _, -⟩ := hrest hseq
    have hpos : st.starts > 0 := by have := hmay.1.2; omega
    simp only [measure, hpc', hpc, work]
    omega
  · have hsame : work { countStop f st with pc := .waiting } = work st := by
      unfold countStop
      split
      · rfl
      · split <;> rfl
    simp only [measure, hpc, hsame]
    omega
  obtain ⟨-, hpc', -, _, -, -, hnum⟩ := (endRound_spec htable hposs).resolve_left hexit
  have hlen := htable.perm.length_eq
  rcases hnum with ⟨rfl, _⟩ | ⟨hchild, _⟩
  · -- no child is left, so this was the last round
    have hnone : st.children = [] := hrep
    rw [hnone, length_nil] at hlen
    have hstop := hq.waited hpc (by have := cfg.keepActive_pos; omega)
    rw [if_pos ⟨hstop, by omega⟩] at hpc'
    simp only [measure, hpc', hpc, work]
    omega
  obtain ⟨pid, status, cleared, rfl⟩ : ∃ pid status cleared, o = .child pid status cleared := by
    cases o with
    | error => exact absurd rfl hchild
    | child pid status cleared => exact ⟨pid, status, cleared, rfl⟩
  have hmem : pid ∈ st.children := hposs
  have hsome := length_pos_of_mem hmem
  have hwork : work (endRound cfg (.child pid status cleared) st) + 2 ≤ work st := by
    unfold work
    omega
  simp only [measure, hpc]
  split at hpc' <;> simp only [hpc'] <;> omega

/-- **A run on which `wait` reports a child whenever there is one** is bounded. -/
theorem run_length_le (hseq : cfg.sequential) (S : Nat) (ls : List Label)
    (hrun : Lts.run (reportingStep cfg) (init cfg S) ls = some st) : ls.length ≤ 4 * S + 2 := by
  have hdec : ∀ s l s', Inv cfg S s → reportingStep cfg s l = some s' →
      Inv cfg S s' ∧ measure s' < measure s := by
    intro s l _ hinv hs
    obtain ⟨hrep, hs⟩ := step_of_reportingStep hs
    exact ⟨step_inv hseq hinv hs, measure_lt hseq hinv hrep hs⟩
  have hle := Lts.length_le_of_decreasing (reportingStep cfg) measure hdec ls _ _ (init_inv S) hrun
  simpa [measure, work, init] using hle

lemma can_step (st : St) (hpc : st.pc = .starting ∨ st.pc = .waiting) :
    ∃ l st', reportingStep cfg st l = some st' := by
  rcases hpc with hpc | hpc
  · by_cases hmay : MayStart cfg st
    · exact ⟨.start 0 .forkFailed, startOne cfg 0 .forkFailed st,
        by simp [reportingStep, step, Reports, Possible, hpc, hmay]⟩
    · exact ⟨.full false, { countStop false st with pc := .waiting },
        by simp [reportingStep, step, Reports, Possible, hpc, hmay]⟩
  · cases hchildren : st.children with
    | nil =>
      exact ⟨.wait .error, endRound cfg .error st,
        by simp [reportingStep, step, Reports, Possible, hpc, hchildren]⟩
    | cons pid =>
      exact ⟨.wait (.child pid (.exited 0) true), endRound cfg (.child pid (.exited 0) true) st,
        by simp [reportingStep, step, Reports, Possible, hpc, hchildren]⟩

/-- A run that is not done goes on. -/
lemma run_goes_on (hseq : cfg.sequential) (S : Nat) (ls : List Label)
    (hrun : Lts.run (reportingStep cfg) (init cfg S) ls = some st) :
    (st.pc = .done ∨ st.pc = .exited) ∨ ∃ l st', reportingStep cfg st l = some st' := by
  have hinv : Inv cfg S st :=
    Lts.invariant (reportingStep cfg) (init_inv S)
      (fun _ _ _ h hs => step_inv hseq h (step_of_reportingStep hs).2) ⟨ls, hrun⟩
  cases hpc : st.pc with
  | starting => exact .inr (can_step st (.inl hpc))
  | waiting => exact .inr (can_step st (.inr hpc))
  | done => exact .inl (.inl rfl)
  | exited => exact .inl (.inr rfl)
  | aborted => exact absurd hpc (hinv.1.resolve_left (by rw [hpc]; decide)).1

/-- **The main loop in sequential mode.** In every reachable state, other than after an exit:
`num_active` is the number of slots in use and at most `keep_active`; the branch for a full table
was not taken; the first commands were tried, in order. Behind the loop all `S` were, and no child
is left. If `wait` reports a child whenever there is one a run is bounded, and goes on to the end of
the loop. -/
theorem main_loop_sequential (cfg : Config) (S : Nat) (hseq : cfg.sequential = true) :
    (∀ st, Lts.Reachable (step cfg) (init cfg S) st → st.pc ≠ .exited →
      (st.numActive = (active st.running).length ∧ st.numActive ≤ cfg.keepActive) ∧
        st.pc ≠ .aborted ∧
        (st.attempts = (List.range st.attempts.length).map (· % cfg.cnt) ∧ st.attempts.length ≤ S) ∧
        (st.pc = .done → st.attempts.length = S ∧ st.children = [])) ∧
      ∀ ls st, Lts.run (reportingStep cfg) (init cfg S) ls = some st → ls.length ≤ 4 * S + 2 ∧
          ((st.pc = .done ∨ st.pc = .exited) ∨ ∃ l st', reportingStep cfg st l = some st') :=
  ⟨fun _ hr hexit => reachable_sequential S hseq hr hexit,
    fun ls _ hrun => ⟨run_length_le hseq S ls hrun, run_goes_on hseq S ls hrun⟩⟩

/-- Two slots for one command, which is to be tried three times. -/
def twoSlots : Config where
  cnt := 1
  keepActive := 2
  sequential := true
  trackExitStats := false
  cnt_pos := by decide
  keepActive_pos := by decide

/-- The second try fails; the children end in the other order. -/
def twoSlotsRun : List Label :=
  [.start 0 (.started 7 true), .start 0 .forkFailed, .start 0 (.started 8 true), .full false,
    .wait (.child 8 (.signaled 9) true), .full false, .wait .error, .full false,
    .wait (.child 7 (.exited 0) true)]

theorem main_loop_sequential_twoSlots : twoSlots.sequential = true ∧
      (Lts.run (step twoSlots) (init twoSlots 3) twoSlotsRun).map (·.pc) = some .done ∧
      ∀ st, Lts.Reachable (step twoSlots) (init twoSlots 3) st → st.pc = .done →
        st.attempts = [0, 0, 0] ∧ st.children = [] := by
  refine ⟨rfl, by decide, fun st hr hdone => ?_⟩
  obtain ⟨-, -, ⟨horder, -⟩, hend⟩ :=
    (main_loop_sequential twoSlots 3 rfl).1 st hr (by rw [hdone]; decide)
  obtain ⟨hlen, hchildren⟩ := hend hdone
  rw [hlen] at horder
  exact ⟨horder, hchildren⟩

/-- **The main loop in any mode**, with any number of starts. The table is never found full, the
slots hold just the children that were not waited for, there are at most `keep_active` of them, and
none is left behind the loop. -/
theorem main_loop_table (cfg : Config) (starts : Int) (st : St)
    (hr : Lts.Reachable (step cfg) (init cfg starts) st) (hexit : st.pc ≠ .exited) :
    st.pc ≠ .aborted ∧ st.children.Perm (active st.running) ∧ st.children.Nodup ∧
      st.numActive = st.children.length ∧ st.numActive ≤ cfg.keepActive ∧
      (st.pc = .done → st.children = []) := by
  obtain ⟨hinv, hdone⟩ := Lts.invariant (step cfg)
    (P := fun t => TableInv cfg t ∧ (t.pc = .done → t.numActive = 0))
    ⟨init_table starts, Pc.noConfusion⟩
    (fun _ _ _ h hs => ⟨step_table h.1 hs, step_done h.1 hs⟩) hr
  obtain ⟨haborted, htable⟩ := hinv.resolve_left hexit
  have hle := active_length_le st.running
  have hlen := htable.length
  have hcount : st.numActive = st.children.length := by rw [htable.count, htable.perm.length_eq]
  have hactive := htable.count
  refine ⟨haborted, htable.perm, htable.nodup, hcount, by omega, fun hpc => ?_⟩
  have hzero := hdone hpc
  exact length_eq_zero_iff.mp (by omega)

theorem main_loop_table_twoSlots :
    ∃ st, Lts.run (step twoSlots) (init twoSlots 3) (twoSlotsRun.take 4) = some st ∧
      st.children = [8, 7] ∧ st.children.Perm (active st.running) :=
  ⟨_, rfl, rfl, (main_loop_table twoSlots 3 _ ⟨twoSlotsRun.take 4, rfl⟩ (by decide)).2.1⟩

end LtpDdt.Pan
