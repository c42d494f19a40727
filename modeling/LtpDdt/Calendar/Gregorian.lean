/-
Calendar.Gregorian — the proleptic Gregorian calendar, counted in days from the first
of January of some year.

A `Date` has a month and a day that exist. Its day number is the length of the years,
months and days before it, so the calendar is given by the lengths of years and months.
The closed forms that programs use are consequences: `yearStart_eq` for the leap years,
`monthStart_lt_two` and `monthStart_two_le` for the days before a month.

`Date.dayNumber_injective`: the day number determines the date. `monthsLength_eq_mul_iff`: which
runs of months have a multiple of the days of their first one.
-/
import Mathlib.Data.BitVec
import Mathlib.Tactic.IntervalCases

namespace LtpDdt.Calendar

/-! ## Years and months -/

def isLeap (y : Nat) : Bool := (y % 4 == 0 && y % 100 != 0) || y % 400 == 0

def yearLength (y : Nat) : Nat := if isLeap y then 366 else 365

/-- Months are numbered from zero. -/
def monthLength (y : Nat) : Nat → Nat
  | 1 => if isLeap y then 29 else 28
  | 3 | 5 | 8 | 10 => 30
  | _ => 31

/-- The days of the first `n` years from the year `epoch` on. -/
def yearStart (epoch : Nat) : Nat → Nat
  | 0 => 0
  | n + 1 => yearStart epoch n + yearLength (epoch + n)

/-- The days before the month `m`. -/
def monthStart (y : Nat) : Nat → Nat
  | 0 => 0
  | m + 1 => monthStart y m + monthLength y m

/-- The leap years among the years 1 to `y`. -/
def leapsThru (y : Nat) : Nat := y / 4 - y / 100 + y / 400

variable (y : Nat)

lemma isLeap_iff : isLeap y ↔ (y % 4 = 0 ∧ y % 100 ≠ 0) ∨ y % 400 = 0 := by simp [isLeap]

lemma yearLength_eq : yearLength y = 365 + (isLeap y).toNat := by
  unfold yearLength
  cases isLeap y <;> rfl

lemma leapsThru_succ : leapsThru (y + 1) = leapsThru y + (isLeap (y + 1)).toNat := by
  have himp : (y + 1) % 100 = 0 → (y + 1) % 4 = 0 := by omega
  have himp' : (y + 1) % 400 = 0 → (y + 1) % 100 = 0 := by omega
  unfold leapsThru
  by_cases hm4 : (y + 1) % 4 = 0
  · by_cases hm100 : (y + 1) % 100 = 0
    · by_cases hm400 : (y + 1) % 400 = 0
      · rw [(isLeap_iff (y + 1)).mpr (.inr hm400), Bool.toNat_true]
        omega
      have hleap : isLeap (y + 1) = false := by
        rw [Bool.eq_false_iff, Ne, isLeap_iff]
        exact fun h => h.elim (fun h => h.2 hm100) hm400
      rw [hleap, Bool.toNat_false]
      omega
    · have hm400 : ¬ (y + 1) % 400 = 0 := fun h => hm100 (himp' h)
      rw [(isLeap_iff (y + 1)).mpr (.inl ⟨hm4, hm100⟩), Bool.toNat_true]
      omega
  · have hm100 : ¬ (y + 1) % 100 = 0 := fun h => hm4 (himp h)
    have hm400 : ¬ (y + 1) % 400 = 0 := fun h => hm100 (himp' h)
    have hleap : isLeap (y + 1) = false := by
      rw [Bool.eq_false_iff, Ne, isLeap_iff]
      exact fun h => h.elim (fun h => hm4 h.1) hm400
    have hsame {n} (h : ¬ (y + 1) % n = 0) : (y + 1) / n = y / n :=
      Nat.succ_div_of_not_dvd (mt Nat.mod_eq_zero_of_dvd h)
    rw [hleap, hsame hm4, hsame hm100, hsame hm400]
    rfl

lemma yearStart_eq (e n : Nat) :
    yearStart (e + 1) n + leapsThru e = 365 * n + leapsThru (e + n) := by
  induction n with
  | zero => simp [yearStart]
  | succ n =>
    have hleap := leapsThru_succ (e + n)
    have hlen := yearLength_eq (e + 1 + n)
    rw [show e + 1 + n = e + n + 1 by omega] at hlen
    rw [yearStart, show e + 1 + n = e + n + 1 by omega, show e + (n + 1) = e + n + 1 by omega]
    omega

lemma monthStart_twelve : monthStart y 12 = yearLength y := by
  simp only [monthStart, monthLength, yearLength]
  cases isLeap y <;> rfl

lemma monthStart_mono {y m m'} (h : m ≤ m') : monthStart y m ≤ monthStart y m' := by
  induction h with
  | refl => exact Nat.le_refl _
  | step _ ih => exact Nat.le_trans ih (Nat.le_add_right ..)

lemma yearStart_mono {e n n'} (h : n ≤ n') : yearStart e n ≤ yearStart e n' := by
  induction h with
  | refl => exact Nat.le_refl _
  | step _ ih => exact Nat.le_trans ih (Nat.le_add_right ..)

/-! ## Dates -/

structure Date where
  year : Nat
  month : Nat
  day : Nat
  month_lt : month < 12
  day_pos : 1 ≤ day
  day_le : day ≤ monthLength year month

/-- Counted from one. -/
def Date.dayOfYear (d : Date) : Nat := monthStart d.year d.month + d.day

/-- Counted from the first of January of the year `epoch`, which has the
number zero. -/
def Date.dayNumber (epoch : Nat) (d : Date) : Nat :=
  yearStart epoch (d.year - epoch) + (d.dayOfYear - 1)

lemma Date.dayOfYear_le (d : Date) : d.dayOfYear ≤ yearLength d.year := by
  have hmono := monthStart_mono (y := d.year) (show d.month + 1 ≤ 12 from d.month_lt)
  have hday := d.day_le
  rw [monthStart_twelve, monthStart] at hmono
  unfold Date.dayOfYear
  omega

lemma yearStart_unique {e n n' a a'} (ha : a < yearLength (e + n))
    (ha' : a' < yearLength (e + n')) (h : yearStart e n + a = yearStart e n' + a') : n = n' := by
  rcases Nat.lt_trichotomy n n' with hlt | heq | hlt
  · have := yearStart_mono (e := e) (show n + 1 ≤ n' from hlt)
    rw [yearStart] at this
    omega
  · exact heq
  have := yearStart_mono (e := e) (show n' + 1 ≤ n from hlt)
  rw [yearStart] at this
  omega

lemma monthStart_unique {y m m' a a'} (ha : a < monthLength y m) (ha' : a' < monthLength y m')
    (h : monthStart y m + a = monthStart y m' + a') : m = m' := by
  rcases Nat.lt_trichotomy m m' with hlt | heq | hlt
  · have := monthStart_mono (y := y) (show m + 1 ≤ m' from hlt)
    rw [monthStart] at this
    omega
  · exact heq
  have := monthStart_mono (y := y) (show m' + 1 ≤ m from hlt)
  rw [monthStart] at this
  omega

/-- **The day number determines the date.** -/
theorem Date.dayNumber_injective {e} {d d' : Date} (hd : e ≤ d.year) (hd' : e ≤ d'.year)
    (h : d.dayNumber e = d'.dayNumber e) : d = d' := by
  obtain ⟨y, m, a, hm, ha1, ha2⟩ := d
  obtain ⟨y', m', a', hm', ha1', ha2'⟩ := d'
  have hle := Date.dayOfYear_le ⟨y, m, a, hm, ha1, ha2⟩
  have hle' := Date.dayOfYear_le ⟨y', m', a', hm', ha1', ha2'⟩
  simp only [Date.dayNumber, Date.dayOfYear] at h hle hle' hd hd'
  have hyear : y - e = y' - e := by
    refine yearStart_unique ?_ ?_ h
    · rw [show e + (y - e) = y by omega]; omega
    · rw [show e + (y' - e) = y' by omega]; omega
  obtain rfl : y = y' := by omega
  obtain rfl : m = m' := monthStart_unique (show a - 1 < monthLength y m by omega)
    (show a' - 1 < monthLength y m' by omega) (by omega)
  obtain rfl : a = a' := by omega
  rfl

/-! ## The year that starts in March -/

lemma monthStart_lt_two (m : Nat) (h : m < 2) :
    (monthStart y m : Int) = 367 * (m + 11) / 12 - 336 := by
  match m, h with
  | 0, _ => rfl
  | 1, _ => rfl

lemma monthStart_two_le (m : Nat) (h : 2 ≤ m) (h' : m < 12) :
    (monthStart y m : Int) = 367 * (m - 1) / 12 + 29 + (isLeap y).toNat := by
  have hcases : m = 2 ∨ m = 3 ∨ m = 4 ∨ m = 5 ∨ m = 6 ∨ m = 7 ∨ m = 8 ∨ m = 9 ∨ m = 10 ∨
    m = 11 := by
    omega
  rcases hcases with rfl | rfl | rfl | rfl | rfl | rfl | rfl | rfl | rfl | rfl <;>
    simp only [monthStart, monthLength] <;> cases isLeap y <;> rfl

/-! ## Runs of months -/

/-- The days of the `q` months from the month `m` of the year `y` on. -/
def monthsLength (y m : Nat) : Nat → Nat
  | 0 => 0
  | q + 1 => monthsLength y m q + monthLength (y + (m + q) / 12) ((m + q) % 12)

lemma monthsLength_add (y m q n : Nat) : monthsLength y m (q + n) =
    monthsLength y m q + monthsLength (y + (m + q) / 12) ((m + q) % 12) n := by
  induction n with
  | zero => rfl
  | succ n ih =>
    have hyear : y + (m + (q + n)) / 12 = y + (m + q) / 12 + ((m + q) % 12 + n) / 12 := by omega
    have hmonth : (m + (q + n)) % 12 = ((m + q) % 12 + n) % 12 := by omega
    rw [← Nat.add_assoc q, monthsLength, monthsLength, ih, hyear, hmonth]
    omega

/-- Any twelve months are a year. -/
lemma monthsLength_twelve {m : Nat} (y : Nat) (hm : m < 12) : 365 ≤ monthsLength y m 12 := by
  interval_cases m <;> simp [monthsLength, monthLength] <;> split_ifs <;> omega

lemma monthsLength_le (y m q : Nat) : monthsLength y m q ≤ 31 * q := by
  induction q with
  | zero => exact Nat.le_refl _
  | succ q ih =>
    have hlen : ∀ y m, monthLength y m ≤ 31 := by
      intro y m
      unfold monthLength
      split <;> first | omega | (split_ifs <;> omega)
    have := hlen (y + (m + q) / 12) ((m + q) % 12)
    rw [monthsLength]
    omega

/-- The first of the month `q` months later. -/
lemma monthsLength_start {e y m : Nat} (he : e ≤ y) (hm : m < 12) (q : Nat) :
    yearStart e (y + (m + q) / 12 - e) + monthStart (y + (m + q) / 12) ((m + q) % 12) =
      yearStart e (y - e) + monthStart y m + monthsLength y m q := by
  induction q with
  | zero => simp [monthsLength, Nat.div_eq_of_lt hm, Nat.mod_eq_of_lt hm]
  | succ q ih =>
    rw [monthsLength, ← Nat.add_assoc, ← Nat.add_assoc (_ + _), ← ih]
    generalize m + q = n
    by_cases hlast : n % 12 = 11
    · have hyear : y + (n + 1) / 12 - e = y + n / 12 - e + 1 := by omega
      have hmonth : (n + 1) % 12 = 0 := by omega
      have htwelve := monthStart_twelve (y + n / 12)
      rw [hyear, hmonth, hlast, yearStart, show e + (y + n / 12 - e) = y + n / 12 by omega,
        ← htwelve]
      simp only [monthStart]
      omega
    · rw [show (n + 1) / 12 = n / 12 by omega, show (n + 1) % 12 = n % 12 + 1 by omega, monthStart]
      omega

/-- The runs of months whose days are a multiple of `days`: two long months, and the four months
from a November on to the end of a February of 28 days. -/
def Multiple (y m days q : Nat) : Prop :=
  q = 1 ∧ days = monthLength y m ∨ q = 2 ∧ (m = 6 ∨ m = 11) ∨
    q = 4 ∧ m = 10 ∧ monthLength (y + 1) 1 = 28

section
variable {y m days q : Nat}

/-- All but February. -/
lemma monthLength_eq (y : Nat) : monthLength y 0 = 31 ∧ monthLength y 2 = 31 ∧
    monthLength y 3 = 30 ∧ monthLength y 4 = 31 ∧ monthLength y 5 = 30 ∧ monthLength y 6 = 31 ∧
    monthLength y 7 = 31 ∧ monthLength y 8 = 30 ∧ monthLength y 9 = 31 ∧ monthLength y 10 = 30 ∧
    monthLength y 11 = 31 := by
  repeat' constructor

lemma monthLength_february (y : Nat) : monthLength y 1 = 28 ∨ monthLength y 1 = 29 := by
  simp only [monthLength]
  split <;> simp

lemma monthLength_next (hm : m < 12) :
    monthLength (y + (m + 1) / 12) ((m + 1) % 12) = monthLength y (m + 1) := by
  obtain rfl | hlt : m = 11 ∨ m + 1 < 12 := by omega
  · rfl
  · rw [Nat.div_eq_of_lt hlt, Nat.mod_eq_of_lt hlt, Nat.add_zero]

/-- Less than a year from a month of at most 30 days on, by enumeration. -/
lemma monthsLength_short (hm : m < 12) (hshort : monthLength y m ≤ 30)
    (hdays : days = monthLength y m ∨ m = 1 ∧ days = 28) (hq : q < 12) :
    days * q ≤ monthsLength y m q ∧
      (1 ≤ q → (monthsLength y m q = days * q ↔ Multiple y m days q)) := by
  have hfeb := monthLength_february y
  have hfeb' := monthLength_february (y + 1)
  unfold Multiple
  interval_cases m <;> simp only [monthLength_eq, true_and] at hshort hdays <;> try omega
  all_goals interval_cases q <;> simp only [monthsLength, monthLength_eq, Nat.reduceAdd,
    Nat.reduceDiv, Nat.reduceMod, Nat.add_zero, true_and] <;> refine ⟨?_, fun _ => ?_⟩ <;> omega

/-- From a month of at most 30 days on, the months have at least its length on the average. -/
lemma le_monthsLength (hm : m < 12) (hshort : monthLength y m ≤ 30)
    (hdays : days = monthLength y m ∨ m = 1 ∧ days = 28) (q : Nat) :
    days * q ≤ monthsLength y m q := by
  induction q using Nat.strongRecOn with
  | ind q ih =>
    obtain hlt | hge := Nat.lt_or_ge q 12
    · exact (monthsLength_short hm hshort hdays hlt).1
    · obtain ⟨n, rfl⟩ := Nat.exists_eq_add_of_le' hge
      have hrest := ih n (by omega)
      have hyear := monthsLength_twelve (y + (m + n) / 12) (show (m + n) % 12 < 12 by omega)
      have hfeb := monthLength_february y
      rw [monthsLength_add, Nat.mul_add]
      omega

/-- From a month of 31 days on: the month after the next is shorter, or the next one is. -/
lemma monthsLength_long (hm : m < 12) (hlong : 30 < monthLength y m) (hq : 1 ≤ q) :
    monthsLength y m q = 31 * q ↔ Multiple y m 31 q := by
  have hfeb := monthLength_february y
  have hfeb' := monthLength_february (y + 1)
  have hthree : monthsLength y m 3 < 31 * 3 ∧ m ≠ 10 := by
    interval_cases m <;> simp only [monthsLength, monthLength_eq, Nat.reduceAdd, Nat.reduceDiv,
      Nat.reduceMod, Nat.add_zero] at hlong ⊢ <;> omega
  obtain hlt | hge := Nat.lt_or_ge q 3
  · unfold Multiple
    interval_cases q <;> interval_cases m <;> simp [monthsLength, monthLength_eq] at hlong ⊢
    all_goals omega
  · obtain ⟨n, rfl⟩ := Nat.exists_eq_add_of_le hge
    have hrest := monthsLength_le (y + (m + 3) / 12) ((m + 3) % 12) n
    rw [monthsLength_add, Nat.mul_add, Multiple]
    omega

theorem monthsLength_eq_mul_iff (hm : m < 12) (hq : 1 ≤ q)
    (hdays : days = monthLength y m ∨ m = 1 ∧ days = 28) :
    monthsLength y m q = days * q ↔ Multiple y m days q := by
  have hfeb := monthLength_february y
  obtain hlong | hshort := Nat.lt_or_ge 30 (monthLength y m)
  · have : days = 31 := by
      have hle := monthsLength_le y m 1
      obtain rfl | ⟨rfl, -⟩ := hdays
      · simp only [monthsLength, Nat.add_zero, Nat.div_eq_of_lt hm, Nat.mod_eq_of_lt hm] at hle
        omega
      · omega
    subst this
    exact monthsLength_long hm hlong hq
  · obtain hlt | hge := Nat.lt_or_ge q 12
    · exact (monthsLength_short hm hshort hdays hlt).2 hq
    · obtain ⟨n, rfl⟩ := Nat.exists_eq_add_of_le' hge
      have hrest := le_monthsLength hm hshort hdays n
      have hyear := monthsLength_twelve (y + (m + n) / 12) (show (m + n) % 12 < 12 by omega)
      rw [monthsLength_add, Nat.mul_add, Multiple]
      omega

end

end LtpDdt.Calendar
