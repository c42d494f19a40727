/-
Pan.LtpPan — functions of `pan/ltp-pan.c` on their own.
-/
import LtpDdt.CTypes.Ints

namespace LtpDdt.Pan

/-! ## The signal ratchet: `wait_handler` and `propagate_signal`

* `none` is 0, of `rec_signal`, `send_signal` and `lastsent` alike.
* `propagate_signal` sends one signal to all the groups; the model returns it.
  The `SIGTERM` it puts for a `SIGALRM` in `rec_signal` is cleared at its end. -/

inductive Signal where
  | hup
  | int
  | kill
  | usr1
  | usr2
  | alrm
  | term
  deriving DecidableEq

structure Ratchet where
  lastsent : Option Signal := none
  recSignal : Option Signal := none
  sendSignal : Option Signal := none

def waitHandler (r : Ratchet) : Option Signal → Ratchet
  | none => { r with lastsent := none }
  | some sig =>
    if sig = .usr2 then { r with recSignal := some sig }
    else
      let send :=
        if r.lastsent = none then some sig
        else if r.lastsent = some .usr1 then some .int
        else if r.lastsent = some sig then some .term
        else if r.lastsent = some .term then some .hup
        else if r.lastsent = some .hup then some .kill
        else r.sendSignal
      ⟨send, some sig, send⟩

def propagateSignal (r : Ratchet) : Option Signal × Ratchet :=
  (r.sendSignal, { r with recSignal := none, sendSignal := none })

/-- What is sent for the signals that arrive one after the other. -/
def propagated : Ratchet → List Signal → List (Option Signal)
  | _, [] => []
  | r, sig :: sigs =>
    let (sent, r) := propagateSignal (waitHandler r (some sig))
    sent :: propagated r sigs

/-- Something is sent each time, and `SIGKILL` once in five times. -/
def Escalates (sent : List (Option Signal)) : Prop :=
  none ∉ sent ∧ ∀ five, five <:+: sent → five.length = 5 → some .kill ∈ five

/-- The signals that stop the driver. -/
def Signal.Stops (sig : Signal) : Prop := sig = .int ∨ sig = .term ∨ sig = .hup ∨ sig = .alrm
  deriving Decidable

/-! ## When the signals escalate -/

inductive Rung where
  | reset
  | int
  | alrm
  | term
  | hup
  | top
  deriving DecidableEq

/-- A first `SIGINT` or `SIGALRM` has to come twice. Then any signal but `SIGTERM`, and behind it
any but `SIGHUP`, leads to the top, where there is no way on. -/
def Rung.next : Rung → Signal → Option Rung
  | .reset, sig => some (if sig = .term then .term else if sig = .hup then .hup else
      if sig = .int then .int else .alrm)
  | .int, sig => if sig = .int then some .term else none
  | .alrm, sig => if sig = .alrm then some .term else none
  | .term, sig => some (if sig = .term then .term else .hup)
  | .hup, sig => some (if sig = .hup then .term else .top)
  | .top, _ => none

def climb (rung : Rung) (sigs : List Signal) : Option Rung := sigs.foldlM Rung.next rung

def Rung.sent : Rung → Option Signal
  | .reset => none
  | .int => some .int
  | .alrm => some .alrm
  | .term => some .term
  | .hup => some .hup
  | .top => some .kill

lemma propagated_cons (rung : Rung) {sig : Signal} (hsig : sig.Stops) (sigs : List Signal) :
    propagated ⟨rung.sent, none, none⟩ (sig :: sigs) =
      (rung.next sig).bind Rung.sent ::
        propagated ⟨(rung.next sig).bind Rung.sent, none, none⟩ sigs := by
  rcases hsig with rfl | rfl | rfl | rfl <;> cases rung <;> rfl

lemma Rung.sent_next {rung rung' : Rung} {sig} (h : rung.next sig = some rung') :
    rung'.sent ≠ none ∧ rung ≠ .top := by
  cases rung <;> cases sig <;> simp [Rung.next] at h <;> subst h <;> simp [Rung.sent]

lemma Rung.sent_eq_kill {rung : Rung} : rung.sent = some .kill ↔ rung = .top := by
  cases rung <;> simp [Rung.sent]

lemma propagated_climb {sigs} (hsigs : ∀ sig ∈ sigs, sig.Stops) : ∀ rung,
    (none ∉ propagated ⟨rung.sent, none, none⟩ sigs ↔ climb rung sigs ≠ none) ∧
      (climb rung sigs ≠ none →
        (rung = .top ∨ some .kill ∈ propagated ⟨rung.sent, none, none⟩ sigs ↔
          climb rung sigs = some .top)) := by
  induction sigs with
  | nil => intro rung; simp [propagated, climb]
  | cons sig sigs ih =>
    intro rung
    obtain ⟨hsig, hsigs⟩ := List.forall_mem_cons.1 hsigs
    rw [propagated_cons rung hsig]
    cases hnext : rung.next sig with
    | none => simp [climb, hnext]
    | some rung' =>
      obtain ⟨hsent, htop⟩ := Rung.sent_next hnext
      have h := ih hsigs rung'
      rw [← Rung.sent_eq_kill, eq_comm] at h
      simpa [climb, hnext, hsent.symm, htop] using h

lemma propagated_take (n : Nat) (r : Ratchet) (sigs : List Signal) :
    propagated r (sigs.take n) = (propagated r sigs).take n := by
  induction sigs generalizing n r with
  | nil => simp [propagated]
  | cons sig sigs ih => cases n <;> simp [propagated, ih]

@[simp] lemma length_propagated (r : Ratchet) (sigs : List Signal) :
    (propagated r sigs).length = sigs.length := by
  induction sigs generalizing r with
  | nil => rfl
  | cons sig sigs ih => simp [propagated, ih]

/-- **When the signals escalate.** Exactly if those that stop the driver climb without a failure,
and are less than five or five that lead to the top. -/
theorem signals_escalate_iff (sigs : List Signal) (hsigs : ∀ sig ∈ sigs, sig.Stops) :
    Escalates (propagated {} sigs) ↔ climb .reset sigs ≠ none ∧
      (sigs.length < 5 ∨ sigs.length = 5 ∧ climb .reset sigs = some .top) := by
  obtain ⟨hnone, hkill⟩ := propagated_climb hsigs .reset
  constructor
  · intro ⟨hsent, hfive⟩
    have hclimb := hnone.1 hsent
    refine ⟨hclimb, ?_⟩
    by_cases hlen : sigs.length < 5
    · exact .inl hlen
    have hin := hfive _ (List.take_prefix 5 _).isInfix (by simp; omega)
    obtain ⟨hnone', hkill'⟩ :=
      propagated_climb (fun sig (h : sig ∈ sigs.take 5) => hsigs sig (List.mem_of_mem_take h))
        .reset
    rw [propagated_take] at hnone' hkill'
    have htop := (hkill' (hnone'.1 fun h => hsent (List.mem_of_mem_take h))).1 (.inr hin)
    -- behind the top there is no other signal
    have hrest : climb .reset sigs = climb .top (sigs.drop 5) := by
      conv_lhs => rw [← List.take_append_drop 5 sigs]
      rw [climb, List.foldlM_append, ← climb, htop]
      rfl
    cases hdrop : sigs.drop 5 with
    | nil =>
      have := List.drop_eq_nil_iff.1 hdrop
      exact .inr ⟨by omega, by rw [hrest, hdrop]; rfl⟩
    | cons => exact absurd (by rw [hrest, hdrop]; rfl) hclimb
  · intro ⟨hclimb, hlen⟩
    refine ⟨hnone.2 hclimb, fun five hin h5 => ?_⟩
    have hle := hin.length_le
    rw [length_propagated] at hle
    obtain ⟨heq, htop⟩ := hlen.resolve_left (by omega)
    rw [hin.eq_of_length (by rw [h5, length_propagated, heq])]
    exact ((hkill hclimb).2 htop).resolve_left nofun

theorem signals_escalate_int : Escalates (propagated {} [.int, .int, .term, .alrm, .int]) :=
  (signals_escalate_iff _ (by decide)).2 (by decide)

/-- Behind a `SIGINT` a `SIGTERM` sends the signal 0. -/
theorem signals_stop_short :
    ¬ ∀ sigs : List Signal, (∀ sig ∈ sigs, sig.Stops) → Escalates (propagated {} sigs) :=
  fun h => (h [.int, .term] (by decide)).1 (by decide)

/-! ## The command that `get_collection` makes of the arguments

`workstr` is the text in it, without a NUL; `none` is a store behind its 1024 bytes. -/

open List CTypes

def strncat (workstr src : List UInt8) (n : Int) : Option (List UInt8) :=
  let workstr := workstr ++ src.take (n % 18446744073709551616).toNat
  if workstr.length < 1024 then some workstr else none

def catArgs : List (List UInt8) → List UInt8 → Int → Option (List UInt8)
  | [], workstr, _ => some workstr
  | arg :: argv, workstr, workstrLeft => do
    let workstr ← strncat workstr arg workstrLeft
    let workstrLeft := int32 (workstrLeft - arg.length)
    let workstr ← strncat workstr [0x20] workstrLeft
    catArgs argv workstr (int32 (workstrLeft - 1))

/-- `pcnt_f`: the first `%f` becomes `%s`. -/
def pcntF : List UInt8 → List UInt8
  | [] => []
  | c :: rest =>
    if [0x25, 0x66] <+: c :: rest then 0x25 :: 0x73 :: rest.tail else c :: pcntF rest

/-- `cmdline` of the entry for the arguments. -/
def cmdline (argv : List (List UInt8)) : Option (List UInt8) :=
  (catArgs argv [] 1023).map pcntF

variable (argv : List (List UInt8))

/-- The arguments, each followed by a blank. -/
def spaced : List UInt8 := argv.flatMap (· ++ [0x20])

/-- They fit, or the last one is so long that `workstr_left` comes back to 0. -/
def ArgsFit (room : Nat) : Prop :=
  (spaced argv).length ≤ room ∨
    (spaced argv.dropLast).length < room ∧ 4294967296 ∣ ((spaced argv).length - room : Int)
  deriving Decidable

variable {arg workstr : List UInt8} {left : Nat}

lemma argsFit_short (h : arg.length < left) (argv : List (List UInt8)) :
    ArgsFit (arg :: argv) (left + 1) ↔ ArgsFit argv (left - arg.length) := by
  cases argv <;> simp [ArgsFit, spaced] <;> omega

lemma argsFit_long (h : left ≤ arg.length) (argv : List (List UInt8)) :
    ArgsFit (arg :: argv) (left + 1) ↔ argv = [] ∧ 4294967296 ∣ (arg.length - left : Int) := by
  cases argv <;> simp [ArgsFit, spaced] <;> omega

lemma strncat_full {src n} (hfull : workstr.length = 1023) :
    strncat workstr src n =
      if src = [] ∨ n % 18446744073709551616 = 0 then some workstr else none := by
  have : 0 ≤ n % 18446744073709551616 := by omega
  rw [strncat]
  cases src with
  | nil => simp [hfull]
  | cons =>
    by_cases hn : n % 18446744073709551616 = 0
    · simp [hn, hfull]
    · rw [if_neg (by simp; omega), if_neg (by simp [hn])]

/-- Behind a full `workstr` there is no room for an argument. -/
lemma catArgs_full (hfull : workstr.length = 1023) (argv : List (List UInt8)) :
    catArgs argv workstr (-1) = if argv = [] then some workstr else none := by
  cases argv with
  | nil => rfl
  | cons arg =>
    simp only [catArgs, strncat_full hfull]
    cases arg with
    | nil => simp [strncat_full hfull, int32]
    | cons => simp

lemma catArgs_eq (h : workstr.length + left = 1023) : catArgs argv workstr left =
      if ArgsFit argv (left + 1) then some ((workstr ++ spaced argv).take 1023) else none := by
  induction argv generalizing workstr left with
  | nil => simp [ArgsFit, spaced, catArgs, take_of_length_le (show workstr.length ≤ 1023 by omega)]
  | cons arg argv ih =>
    have hcat : strncat workstr arg left = some (workstr ++ arg.take left) := by
      rw [strncat, show (left % 18446744073709551616 : Int).toNat = left by omega,
        if_pos (by simp; omega)]
    simp only [catArgs, hcat, Option.bind_eq_bind, Option.bind_some]
    by_cases hfit : arg.length < left
    · have hleft : int32 (left - arg.length) = left - arg.length :=
        int32_of_range (by omega) (by omega)
      have hblank : strncat (workstr ++ arg) [0x20] (left - arg.length) =
          some (workstr ++ arg ++ [0x20]) := by
        rw [strncat, take_of_length_le (by simp; omega), if_pos (by simp; omega)]
      have hih : catArgs argv (workstr ++ arg ++ [0x20]) (left - arg.length - 1 : Nat) = _ :=
        ih (by simp; omega)
      rw [take_of_length_le hfit.le, hleft, hblank, Option.bind_some,
        int32_of_range (by omega) (by omega), show (left - arg.length - 1 : Int) =
        (left - arg.length - 1 : Nat) by omega, hih, show left - arg.length - 1 + 1 =
        left - arg.length by omega]
      simp [argsFit_short hfit, spaced]
    · -- `workstr` is full, and the blank is cut only where nothing is left
      have hfull : (workstr ++ arg.take left).length = 1023 := by
        simp
        omega
      have hzero : int32 (left - arg.length) % 18446744073709551616 = 0 ↔
          4294967296 ∣ (arg.length - left : Int) := by
        unfold int32
        omega
      simp only [argsFit_long (not_lt.1 hfit), strncat_full hfull, ← hzero]
      by_cases hdvd : int32 (left - arg.length) % 18446744073709551616 = 0
      · have h0 : int32 (left - arg.length) = 0 := by
          unfold int32 at *
          omega
        rw [h0, if_pos (.inr rfl), Option.bind_some, show int32 (0 - 1) = -1 from rfl,
          catArgs_full hfull]
        cases argv with
        | nil =>
          simp [spaced, take_append, show 1023 - workstr.length = left by omega,
            take_of_length_le (show workstr.length ≤ 1023 by omega),
            show left - arg.length = 0 by omega]
        | cons => simp
      · simp [hdvd]

lemma pcntF_eq_self_iff {s : List UInt8} : pcntF s = s ↔ ¬ [0x25, 0x66] <:+: s := by
  induction s with
  | nil => simp [pcntF]
  | cons c rest ih =>
    rw [pcntF, infix_cons_iff]
    split_ifs with hpre
    · refine iff_of_false (fun h => ?_) (not_not.mpr (.inl hpre))
      obtain ⟨_, hrest⟩ := hpre
      cases hrest
      simp at h
    · simp [hpre, ih]

/-- **The command of the arguments** is each of them and a blank, cut to 1023 bytes, exactly if they
fit and there is no `%f` in it. -/
theorem cmdline_right_iff : cmdline argv = some ((spaced argv).take 1023) ↔
    ArgsFit argv 1024 ∧ ¬ [0x25, 0x66] <:+: (spaced argv).take 1023 := by
  have h : catArgs argv [] (1023 : Nat) = _ := catArgs_eq argv rfl
  rw [cmdline, show (1023 : Int) = (1023 : Nat) from rfl, h]
  by_cases hfit : ArgsFit argv 1024
  · simp [hfit, pcntF_eq_self_iff]
  · simp [hfit]

/-- Behind an argument of 1024 bytes the blank is stored outside. -/
theorem cmdline_outside : cmdline [replicate 1024 0x61] = none := by decide +kernel

end LtpDdt.Pan
