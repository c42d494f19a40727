/-
Timer.Ts — the `tst_ts` arithmetic of `include/tst_timer.h`.

A `tst_ts` is one of three C structures with seconds and nanoseconds. The width of the
fields depends on the structure and the platform; the functions read them into
`long long`, compute and convert the result to the type of the field.

* `long long` is `Int64`; its division and remainder truncate towards zero.
* The arithmetic wraps around. In C an overflow is undefined; the results ask that the
  exact result can be stored.

Each function stores seconds and nanoseconds less than a second out of range, and
normalizes (`normalize_exact`). That the seconds may wrap before does no harm
(`store_store_add`).
-/
import Mathlib.Data.BitVec

namespace LtpDdt.Timer

/-! ## The structures -/

/-- `enum tst_ts_type` -/
inductive TsType where
  | libcTimespec
  | kernOldTimespec
  | kernTimespec
  deriving DecidableEq

inductive Width where
  | w32
  | w64
  deriving DecidableEq

/-- The conversion that goes with storing to a field. -/
def Width.store : Width → Int64 → Int64
  | .w32, v => v.toInt32.toInt64
  | .w64, v => v

def Width.Holds : Width → Int → Prop
  | .w32, x => -2147483648 ≤ x ∧ x < 2147483648
  | .w64, x => -9223372036854775808 ≤ x ∧ x < 9223372036854775808

/-- What the platform chooses: `time_t` and `long`. -/
structure Platform where
  timeT : Width
  long : Width

def Platform.secWidth (P : Platform) : TsType → Width
  | .libcTimespec => P.timeT
  | .kernOldTimespec => P.long
  | .kernTimespec => .w64

def Platform.nsecWidth (P : Platform) : TsType → Width
  | .libcTimespec => P.long
  | .kernOldTimespec => P.long
  | .kernTimespec => .w64

/-- `struct tst_ts`, as `tst_ts_get_sec` and `tst_ts_get_nsec` return its fields. -/
structure TstTs where
  type : TsType
  sec : Int64 := 0
  nsec : Int64 := 0
  deriving DecidableEq

variable (P : Platform)

def tstTsSetSec (ts : TstTs) (sec : Int64) : TstTs :=
  { ts with sec := (P.secWidth ts.type).store sec }

def tstTsSetNsec (ts : TstTs) (nsec : Int64) : TstTs :=
  { ts with nsec := (P.nsecWidth ts.type).store nsec }

/-! ## The functions -/

variable (t : TstTs)

def tstTsToNs : Int64 := t.sec * 1000000000 + t.nsec

def tstTsToUs : Int64 := t.sec * 1000000 + (t.nsec + 500) / 1000

def tstTsToMs : Int64 := t.sec * 1000 + (t.nsec + 500000) / 1000000

variable (t1 t2 : TstTs)

def tstTsLt : Bool :=
  if t1.sec = t2.sec then t1.nsec < t2.nsec else t1.sec < t2.sec

def tstTsNormalize : TstTs :=
  let sec := t.sec
  let nsec := t.nsec
  let t := if nsec ≥ 1000000000 then
      tstTsSetNsec P (tstTsSetSec P t (sec + 1)) (nsec - 1000000000)
    else t
  if nsec < 0 then tstTsSetNsec P (tstTsSetSec P t (sec - 1)) (nsec + 1000000000) else t

def tstTsAddUs (us : Int64) : TstTs :=
  let res := tstTsSetSec P { type := t.type } (t.sec + us / 1000000)
  let res := tstTsSetNsec P res (t.nsec + us % 1000000 * 1000)
  tstTsNormalize P res

def tstTsSubUs (us : Int64) : TstTs :=
  let res := tstTsSetSec P { type := t.type } (t.sec - us / 1000000)
  let res := tstTsSetNsec P res (t.nsec - us % 1000000 * 1000)
  tstTsNormalize P res

def tstTsAdd : TstTs :=
  let res := tstTsSetSec P { type := t1.type } (t1.sec + t2.sec)
  let res := tstTsSetNsec P res (t1.nsec + t2.nsec)
  tstTsNormalize P res

def tstTsDiff : TstTs :=
  let res := tstTsSetSec P { type := t1.type } (t1.sec - t2.sec)
  let res := tstTsSetNsec P res (t1.nsec - t2.nsec)
  tstTsNormalize P res

def tstTsAbsDiff : TstTs :=
  if tstTsLt t1 t2 then tstTsDiff P t2 t1 else tstTsDiff P t1 t2

/-! ## What they are for -/

/-- `0 <= nsec < 1000000000` -/
def Normalized : Prop := 0 ≤ t.nsec.toInt ∧ t.nsec.toInt < 1000000000

/-- The nanoseconds that a `tst_ts` stands for. -/
def TstTs.total : Int := t.sec.toInt * 1000000000 + t.nsec.toInt

/-- A structure of type `type` can hold `ns` nanoseconds. -/
def Platform.Represents (type : TsType) (ns : Int) : Prop :=
  (P.secWidth type).Holds (ns / 1000000000)

/-- A normalized structure of type `type` that stands for `ns` nanoseconds. -/
structure Exact (t : TstTs) (type : TsType) (ns : Int) : Prop where
  type_eq : t.type = type
  normalized : Normalized t
  total_eq : t.total = ns

open Int64 Width TstTs

/-! ## Fields -/

variable {x : Int} {type : TsType}

lemma toInt_ofInt_of_holds (h : w64.Holds x) : (ofInt x).toInt = x := by
  obtain ⟨_, _⟩ := h
  exact toInt_ofInt_of_le (by omega) (by omega)

lemma store_ofInt {w : Width} (h : w.Holds x) : (w.store (ofInt x)).toInt = x := by
  cases w with
  | w32 =>
    obtain ⟨_, _⟩ := h
    have h64 : w64.Holds x := ⟨by omega, by omega⟩
    rw [store, Int32.toInt_toInt64, toInt_toInt32, toInt_ofInt_of_holds h64]
    exact Int.bmod_eq_of_le (by omega) (by omega)
  | w64 => exact toInt_ofInt_of_holds h

lemma store_store_add (w : Width) (v c : Int64) : w.store (w.store v + c) = w.store (v + c) := by
  cases w with
  | w32 => simp [store]
  | w64 => rfl

lemma store_store_sub (w : Width) (v c : Int64) : w.store (w.store v - c) = w.store (v - c) := by
  cases w with
  | w32 => simp [store]
  | w64 => rfl

lemma holds_nsec (w : Width) (hlo : -2000000000 ≤ x) (hhi : x ≤ 2000000000) : w.Holds x := by
  cases w with
  | w32 | w64 => exact ⟨by omega, by omega⟩

/-! ## Normalizing -/

variable {P}

lemma exact_of_fields {ns S N : Int} (hS : S = ns / 1000000000) (hN : N = ns % 1000000000)
    (hrep : P.Represents type ns) :
    Exact ⟨type, (P.secWidth type).store (ofInt S), (P.nsecWidth type).store (ofInt N)⟩
      type ns := by
  have hsec : ((P.secWidth type).store (ofInt S)).toInt = S := store_ofInt (hS ▸ hrep)
  have hnsec : ((P.nsecWidth type).store (ofInt N)).toInt = N :=
    store_ofInt (holds_nsec _ (by omega) (by omega))
  refine ⟨rfl, ⟨?_, ?_⟩, ?_⟩
  · rw [hnsec]; omega
  · rw [hnsec]; omega
  · rw [total, hsec, hnsec]; omega

lemma tstTsNormalize_eq (type : TsType) (s n : Int64) : tstTsNormalize P ⟨type, s, n⟩ =
      if n.toInt < 0 then
        ⟨type, (P.secWidth type).store (s - 1), (P.nsecWidth type).store (n + 1000000000)⟩
      else if 1000000000 ≤ n.toInt then
        ⟨type, (P.secWidth type).store (s + 1), (P.nsecWidth type).store (n - 1000000000)⟩
      else ⟨type, s, n⟩ := by
  have hge : n ≥ 1000000000 ↔ 1000000000 ≤ n.toInt := le_iff_toInt_le
  have hneg : n < 0 ↔ n.toInt < 0 := lt_iff_toInt_lt
  unfold tstTsNormalize
  simp only [hge, hneg]
  by_cases h : n.toInt < 0
  · rw [if_pos h, if_pos h, if_neg (by omega)]
    rfl
  · rw [if_neg h]
    split <;> rfl

/-- One carry or borrow is enough. -/
lemma normalize_exact {S N} (hlo : -1000000000 ≤ N) (hhi : N < 2000000000)
    (hrep : P.Represents type (S * 1000000000 + N)) :
    Exact (tstTsNormalize P (tstTsSetNsec P (tstTsSetSec P { type := type } (ofInt S))
      (ofInt N))) type (S * 1000000000 + N) := by
  have hn : ((P.nsecWidth type).store (ofInt N)).toInt = N :=
    store_ofInt (holds_nsec _ (by omega) (by omega))
  have heq := tstTsNormalize_eq (P := P) type ((P.secWidth type).store (ofInt S))
    ((P.nsecWidth type).store (ofInt N))
  rw [store_store_add, store_store_add, store_store_sub, store_store_sub] at heq
  change Exact (tstTsNormalize P ⟨type, (P.secWidth type).store (ofInt S),
    (P.nsecWidth type).store (ofInt N)⟩) type _
  rw [heq]
  split
  · -- a borrow
    have := exact_of_fields (S := S - 1) (N := N + 1000000000) (by omega) (by omega) hrep
    rwa [ofInt_sub, ofInt_add] at this
  split
  · -- a carry
    have := exact_of_fields (S := S + 1) (N := N - 1000000000) (by omega) (by omega) hrep
    rwa [ofInt_sub, ofInt_add] at this
  · exact exact_of_fields (by omega) (by omega) hrep

/-! ## Exact results -/

lemma ofInt_toInt_add (a b : Int64) : a + b = ofInt (a.toInt + b.toInt) := by
  rw [ofInt_add, ofInt_toInt, ofInt_toInt]

lemma ofInt_toInt_sub (a b : Int64) : a - b = ofInt (a.toInt - b.toInt) := by
  rw [ofInt_sub, ofInt_toInt, ofInt_toInt]

lemma us_split (us : Int64) : ∃ q r, (us / 1000000).toInt = q ∧
    (us % 1000000 * 1000).toInt = r * 1000 ∧ q * 1000000 + r = us.toInt ∧
    -1000000 < r ∧ r < 1000000 := by
  have hmod : (us % 1000000).toInt = us.toInt.tmod 1000000 := toInt_mod ..
  have hlo : -1000000 < us.toInt.tmod 1000000 := Int.lt_tmod_of_pos _ (by omega)
  have hhi : us.toInt.tmod 1000000 < 1000000 := Int.tmod_lt_of_pos _ (by omega)
  have hsum : 1000000 * us.toInt.tdiv 1000000 + us.toInt.tmod 1000000 = us.toInt :=
    Int.mul_tdiv_add_tmod ..
  have h1 := us.toInt_lt
  have h2 := us.le_toInt
  refine ⟨us.toInt.tdiv 1000000, us.toInt.tmod 1000000, ?_, ?_, by omega, hlo, hhi⟩
  · rw [toInt_div]
    exact Int.bmod_eq_of_le (by simp; omega) (by simp; omega)
  · rw [toInt_mul, hmod]
    exact Int.bmod_eq_of_le (by simp; omega) (by simp; omega)

section Functions

variable {t u : TstTs} {us : Int64}

section

variable (ht : Normalized t)

include ht

lemma tstTsAddUs_exact (h : P.Represents t.type (t.total + us.toInt * 1000)) :
    Exact (tstTsAddUs P t us) t.type (t.total + us.toInt * 1000) := by
  obtain ⟨q, r, hq, hr, _, _, _⟩ := us_split us
  obtain ⟨_, _⟩ := ht
  have htotal : t.total + us.toInt * 1000 =
      (t.sec.toInt + q) * 1000000000 + (t.nsec.toInt + r * 1000) := by
    rw [total]; omega
  rw [tstTsAddUs, ofInt_toInt_add, ofInt_toInt_add, hq, hr, htotal]
  exact normalize_exact (by omega) (by omega) (htotal ▸ h)

lemma tstTsSubUs_exact (h : P.Represents t.type (t.total - us.toInt * 1000)) :
    Exact (tstTsSubUs P t us) t.type (t.total - us.toInt * 1000) := by
  obtain ⟨q, r, hq, hr, _, _, _⟩ := us_split us
  obtain ⟨_, _⟩ := ht
  have htotal : t.total - us.toInt * 1000 =
      (t.sec.toInt - q) * 1000000000 + (t.nsec.toInt - r * 1000) := by
    rw [total]; omega
  rw [tstTsSubUs, ofInt_toInt_sub, ofInt_toInt_sub, hq, hr, htotal]
  exact normalize_exact (by omega) (by omega) (htotal ▸ h)

section

variable (hu : Normalized u)

include hu

/-- A sum is exact. -/
lemma tstTsAdd_exact (h : P.Represents t.type (t.total + u.total)) :
    Exact (tstTsAdd P t u) t.type (t.total + u.total) := by
  obtain ⟨_, _⟩ := ht
  obtain ⟨_, _⟩ := hu
  have htotal : t.total + u.total =
      (t.sec.toInt + u.sec.toInt) * 1000000000 + (t.nsec.toInt + u.nsec.toInt) := by
    rw [total, total]; omega
  rw [tstTsAdd, ofInt_toInt_add, ofInt_toInt_add, htotal]
  exact normalize_exact (by omega) (by omega) (htotal ▸ h)

/-- A difference is exact. -/
lemma tstTsDiff_exact (h : P.Represents t.type (t.total - u.total)) :
    Exact (tstTsDiff P t u) t.type (t.total - u.total) := by
  obtain ⟨_, _⟩ := ht
  obtain ⟨_, _⟩ := hu
  have htotal : t.total - u.total =
      (t.sec.toInt - u.sec.toInt) * 1000000000 + (t.nsec.toInt - u.nsec.toInt) := by
    rw [total, total]; omega
  rw [tstTsDiff, ofInt_toInt_sub, ofInt_toInt_sub, htotal]
  exact normalize_exact (by omega) (by omega) (htotal ▸ h)

/-- The comparison is the one of the times. -/
lemma tstTsLt_iff : tstTsLt t u ↔ t.total < u.total := by
  obtain ⟨h1, h2⟩ := ht
  obtain ⟨h3, h4⟩ := hu
  unfold tstTsLt total
  split
  · rename_i heq
    rw [decide_eq_true_iff, lt_iff_toInt_lt, heq]
    omega
  rename_i hne
  rw [decide_eq_true_iff, lt_iff_toInt_lt]
  have : t.sec.toInt ≠ u.sec.toInt := fun h => hne (toInt_inj.mp h)
  omega

lemma tstTsAbsDiff_exact (h : P.Represents t.type (t.total - u.total).natAbs)
    (h' : P.Represents u.type (t.total - u.total).natAbs) :
    Exact (tstTsAbsDiff P t u) (if t.total < u.total then u.type else t.type)
      (t.total - u.total).natAbs := by
  have hlt := tstTsLt_iff ht hu
  unfold tstTsAbsDiff
  by_cases hc : t.total < u.total
  · have habs : ((t.total - u.total).natAbs : Int) = u.total - t.total := by omega
    rw [if_pos (hlt.mpr hc), if_pos hc, habs]
    exact tstTsDiff_exact hu ht (habs ▸ h')
  have habs : ((t.total - u.total).natAbs : Int) = t.total - u.total := by omega
  rw [if_neg (by rw [hlt]; exact hc), if_neg hc, habs]
  exact tstTsDiff_exact ht hu (habs ▸ h)

end

lemma nsec_round (half unit : Int64) (hhalf : 0 ≤ half.toInt)
    (hhalf' : half.toInt ≤ 1000000) (hunit : 0 < unit.toInt) :
    ((t.nsec + half) / unit).toInt = (t.nsec.toInt + half.toInt) / unit.toInt := by
  obtain ⟨_, _⟩ := ht
  have hsum : (t.nsec + half).toInt = t.nsec.toInt + half.toInt := by
    rw [toInt_add]
    exact Int.bmod_eq_of_le (by simp; omega) (by simp; omega)
  have hq : 0 ≤ (t.nsec.toInt + half.toInt) / unit.toInt := Int.ediv_nonneg (by omega) (by omega)
  have hq' : (t.nsec.toInt + half.toInt) / unit.toInt ≤ t.nsec.toInt + half.toInt :=
    Int.ediv_le_self _ (by omega)
  rw [toInt_div, hsum, Int.tdiv_eq_ediv_of_nonneg (by omega)]
  exact Int.bmod_eq_of_le (by simp; omega) (by simp; omega)

end

lemma mul_add_toInt (a c x : Int64) (h : w64.Holds (a.toInt * c.toInt + x.toInt)) :
    (a * c + x).toInt = a.toInt * c.toInt + x.toInt := by
  have heq : a * c + x = ofInt (a.toInt * c.toInt + x.toInt) := by
    rw [ofInt_add, ofInt_mul, ofInt_toInt, ofInt_toInt, ofInt_toInt]
  rw [heq, toInt_ofInt_of_holds h]

/-- The nanoseconds are exact. -/
lemma tstTsToNs_exact (h : w64.Holds t.total) : (tstTsToNs t).toInt = t.total :=
  mul_add_toInt t.sec 1000000000 t.nsec h

lemma tstTsToUs_exact (ht : Normalized t) (h : w64.Holds ((t.total + 500) / 1000)) :
    (tstTsToUs t).toInt = (t.total + 500) / 1000 := by
  have hround : ((t.nsec + 500) / 1000).toInt = (t.nsec.toInt + 500) / 1000 :=
    nsec_round ht 500 1000 (by decide) (by decide) (by decide)
  have htotal : (t.total + 500) / 1000 = t.sec.toInt * 1000000 + (t.nsec.toInt + 500) / 1000 := by
    rw [total]; omega
  rw [htotal, ← hround] at h ⊢
  exact mul_add_toInt t.sec 1000000 _ h

lemma tstTsToMs_exact (ht : Normalized t) (h : w64.Holds ((t.total + 500000) / 1000000)) :
    (tstTsToMs t).toInt = (t.total + 500000) / 1000000 := by
  have hround : ((t.nsec + 500000) / 1000000).toInt = (t.nsec.toInt + 500000) / 1000000 :=
    nsec_round ht 500000 1000000 (by decide) (by decide) (by decide)
  have htotal : (t.total + 500000) / 1000000 =
      t.sec.toInt * 1000 + (t.nsec.toInt + 500000) / 1000000 := by
    rw [total]; omega
  rw [htotal, ← hround] at h ⊢
  exact mul_add_toInt t.sec 1000 _ h

end Functions

lemma Exact.fields_eq {t u : TstTs} {type' ns} (ht : Exact t type ns) (hu : Exact u type' ns) :
    t.sec = u.sec ∧ t.nsec = u.nsec := by
  obtain ⟨-, ⟨_, _⟩, h3⟩ := ht
  obtain ⟨-, ⟨_, _⟩, h6⟩ := hu
  rw [total] at h3 h6
  exact ⟨toInt_inj.mp (by omega), toInt_inj.mp (by omega)⟩

/-- **The `tst_ts` arithmetic is exact** whenever the exact result can be stored. `/` is the floor
of the quotient. -/
theorem tstTs_exact (P : Platform) (t u : TstTs) (us : Int64) (ht : Normalized t)
    (hu : Normalized u) :
    (P.Represents t.type (t.total + us.toInt * 1000) →
      Exact (tstTsAddUs P t us) t.type (t.total + us.toInt * 1000)) ∧
    (P.Represents t.type (t.total - us.toInt * 1000) →
      Exact (tstTsSubUs P t us) t.type (t.total - us.toInt * 1000)) ∧
    (P.Represents t.type (t.total + u.total) → Exact (tstTsAdd P t u) t.type (t.total + u.total)) ∧
    (P.Represents t.type (t.total - u.total) → Exact (tstTsDiff P t u) t.type (t.total - u.total)) ∧
    (tstTsLt t u = true ↔ t.total < u.total) ∧
    (P.Represents t.type (t.total - u.total).natAbs →
      P.Represents u.type (t.total - u.total).natAbs →
      (tstTsAbsDiff P t u).sec = (tstTsAbsDiff P u t).sec ∧
      (tstTsAbsDiff P t u).nsec = (tstTsAbsDiff P u t).nsec ∧
      0 ≤ (tstTsAbsDiff P t u).total) ∧
    (Width.w64.Holds t.total → (tstTsToNs t).toInt = t.total) ∧
    (Width.w64.Holds ((t.total + 500) / 1000) → (tstTsToUs t).toInt = (t.total + 500) / 1000) ∧
    (Width.w64.Holds ((t.total + 500000) / 1000000) →
      (tstTsToMs t).toInt = (t.total + 500000) / 1000000) := by
  refine ⟨tstTsAddUs_exact ht, tstTsSubUs_exact ht, tstTsAdd_exact ht hu, tstTsDiff_exact ht hu,
    tstTsLt_iff ht hu, fun h h' => ?_, tstTsToNs_exact, tstTsToUs_exact ht, tstTsToMs_exact ht⟩
  have hcomm : (u.total - t.total).natAbs = (t.total - u.total).natAbs := by omega
  have hd := tstTsAbsDiff_exact ht hu h h'
  have hd' := tstTsAbsDiff_exact (P := P) hu ht (by rw [hcomm]; exact h') (by rw [hcomm]; exact h)
  rw [hcomm] at hd'
  obtain ⟨hsec, hnsec⟩ := hd.fields_eq hd'
  exact ⟨hsec, hnsec, by rw [hd.total_eq]; omega⟩

/-- One nanosecond before the epoch minus 1.5 seconds, with 32 bit fields. -/
theorem tstTs_exact_sub_us :
    Normalized ⟨.libcTimespec, -1, 999999999⟩ ∧ Normalized ⟨.kernTimespec, 3, 0⟩ ∧
    Exact (tstTsSubUs ⟨.w32, .w32⟩ ⟨.libcTimespec, -1, 999999999⟩ 1500000) .libcTimespec
      (-1500000001) :=
  have ht : Normalized ⟨.libcTimespec, -1, 999999999⟩ := ⟨by decide, by decide⟩
  have hu : Normalized ⟨.kernTimespec, 3, 0⟩ := ⟨by decide, by decide⟩
  ⟨ht, hu, (tstTs_exact ⟨.w32, .w32⟩ _ _ 1500000 ht hu).2.1 ⟨by decide, by decide⟩⟩

end LtpDdt.Timer
