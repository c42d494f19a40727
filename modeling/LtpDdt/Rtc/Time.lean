/-
Rtc.Time — `lib/tst_rtctime.c`: seconds since 1970 to a date and back; and
`st_rtc_add_secs_todate` of the RTC tests
(`testcases/ddt/rtc_test_suite/src/testcases/st_rtc_ioctl.c`), where no sum overflows.

* `int`, `unsigned int` and `long long` values are integers; `int32` and `uint32`
  convert to the 32 bit types, wherever the C expression has that type and its value can
  leave the range. An overflow of `int` is undefined in C; here it wraps around.
* Division and remainder of signed operands truncate (`tdiv`, `tmod`), those of unsigned
  operands are the ones of natural numbers.
* The `while` loop has as bound the number of the year it starts with.

The year is guessed too large and corrected (`yearLoop_spec`); the months follow (`monthLoop_spec`).
-/
import LtpDdt.CTypes.Ints
import LtpDdt.Calendar.Gregorian
import Mathlib.Tactic.IntervalCases

namespace LtpDdt.Rtc

open CTypes

/-! ## Seconds to date -/

/-- `struct rtc_time` -/
structure RtcTime where
  sec : Int
  min : Int
  hour : Int
  mday : Int
  mon : Int
  year : Int
  wday : Int
  yday : Int
  isdst : Int
  deriving DecidableEq

def rtcDaysInMonth : List Int := [31, 28, 31, 30, 31, 30, 31, 31, 30, 31, 30, 31]

def isLeapYear (year : Int) : Bool :=
  (year % 4 == 0 && year % 100 != 0) || year % 400 == 0

def rtcMonthDays (month : Nat) (year : Int) : Int :=
  rtcDaysInMonth.getD month 0 + (if isLeapYear year && month == 1 then 1 else 0)

/-- `LEAPS_THRU_END_OF` -/
def leapsThruEndOf (y : Int) : Int := y / 4 - y / 100 + y / 400

/-- `while (days < 0)`: the year and the days left in it. -/
def yearLoop : Nat → Int → Int → Int × Int
  | 0, year, days => (year, days)
  | n + 1, year, days =>
    if days < 0 then
      let year := uint32 (year - 1)
      yearLoop n year (int32 (days + (365 + (isLeapYear year).toNat)))
    else (year, days)

/-- `for (month = 0; month < 11; month++)`, with `n` rounds left. -/
def monthLoop (year : Int) : Nat → Nat → Int → Nat × Int
  | 0, month, days => (month, days)
  | n + 1, month, days =>
    let newdays := int32 (days - rtcMonthDays month year)
    if newdays < 0 then (month, days) else monthLoop year n (month + 1) newdays

def tstRtcTimeToTm (time : Int) : RtcTime :=
  let days := int32 (time.tdiv 86400)
  let secs := uint32 (time.tmod 86400)
  let wday := (int32 (days + 4)).tmod 7
  let year := uint32 (1970 + days.tdiv 365)
  let days := int32 (days - uint32 (uint32 (year - 1970) * 365
    + leapsThruEndOf (uint32 (year - 1)) - leapsThruEndOf (1970 - 1)))
  let (year, days) := yearLoop year.toNat year days
  let (month, mdays) := monthLoop year 11 0 days
  let hour := secs / 3600
  let secs := secs - hour * 3600
  let min := secs / 60
  { sec := secs - min * 60, min := min, hour := hour, mday := mdays + 1, mon := month,
    year := int32 (year - 1900), wday := wday, yday := days + 1, isdst := 0 }

/-! ## Date to seconds -/

def tstMktime (year0 mon0 day hour min sec : Int) : Int :=
  let mon := uint32 (mon0 - 2)
  let (mon, year) :=
    if 0 ≥ int32 mon then (uint32 (mon + 12), uint32 (year0 - 1)) else (mon, year0)
  (((uint32 (year / 4 - year / 100 + year / 400 + uint32 (367 * mon) / 12 + day)
    + uint32 (year * 365) - 719499) * 24 + hour) * 60 + min) * 60 + sec

def tstRtcTmToTime (tm : RtcTime) : Int :=
  tstMktime (uint32 (uint32 tm.year + 1900)) (uint32 (tm.mon + 1)) (uint32 tm.mday)
    (uint32 tm.hour) (uint32 tm.min) (uint32 tm.sec)

open Calendar

/-! ## What the conversions are about -/

/-- `tm` holds the date `d`, not before 1970, and a time of day. -/
structure ShowsDate (tm : RtcTime) (d : Date) : Prop where
  epoch : 1970 ≤ d.year
  year : tm.year = d.year - 1900
  mon : tm.mon = d.month
  mday : tm.mday = d.day
  hour : 0 ≤ tm.hour ∧ tm.hour < 24
  min : 0 ≤ tm.min ∧ tm.min < 60
  sec : 0 ≤ tm.sec ∧ tm.sec < 60

/-- The seconds since 1970 of a date and the time of day in `tm`. -/
def secondsOf (tm : RtcTime) (d : Date) : Int :=
  d.dayNumber 1970 * 86400 + tm.hour * 3600 + tm.min * 60 + tm.sec

/-! ## The code's calendar -/

lemma isLeapYear_cast (y : Nat) : isLeapYear (y : Int) = isLeap y := by
  have h : isLeapYear (y : Int) ↔ isLeap y := by
    rw [isLeap_iff]
    simp only [isLeapYear, Bool.or_eq_true, Bool.and_eq_true, beq_iff_eq, bne_iff_ne]
    omega
  exact Bool.eq_iff_iff.mpr h

lemma rtcMonthDays_cast (y m : Nat) (h : m < 12) : rtcMonthDays m y = monthLength y m := by
  have hcases : m = 0 ∨ m = 1 ∨ m = 2 ∨ m = 3 ∨ m = 4 ∨ m = 5 ∨ m = 6 ∨ m = 7 ∨ m = 8 ∨ m = 9 ∨
      m = 10 ∨ m = 11 := by omega
  rw [rtcMonthDays, isLeapYear_cast]
  rcases hcases with rfl | rfl | rfl | rfl | rfl | rfl | rfl | rfl | rfl | rfl | rfl | rfl <;>
    cases hl : isLeap y <;> simp [monthLength, rtcDaysInMonth, hl]

lemma leapsThruEndOf_cast (y : Nat) : leapsThruEndOf y = leapsThru y := by
  unfold leapsThruEndOf leapsThru
  omega

lemma yearStart_1970 (n : Nat) :
    (yearStart 1970 n : Int) = 365 * n + leapsThruEndOf (1969 + n) - 477 := by
  have h : yearStart 1970 n + leapsThru 1969 = 365 * n + leapsThru (1969 + n) := yearStart_eq 1969 n
  have hcast := leapsThruEndOf_cast (1969 + n)
  have hleaps : leapsThru 1969 = 477 := rfl
  rw [show ((1969 + n : Nat) : Int) = 1969 + n by omega] at hcast
  omega

lemma yearStart_bounds (e n : Nat) : 365 * n ≤ yearStart e n ∧ yearStart e n ≤ 366 * n := by
  induction n with
  | zero => simp [yearStart]
  | succ n =>
    have hlen := yearLength_eq (e + n)
    have := (isLeap (e + n)).toNat_le
    rw [yearStart]
    omega

/-! ## The date of a time -/

/-- The loop over the years, from a year that is not too small. Each round
goes back one year and adds its days. -/
lemma yearLoop_spec {D} (hD : D ≤ 2147483647) (fuel : Nat) :
    ∀ n : Nat, n < fuel → 365 * n ≤ D → D < yearStart 1970 n + yearLength (1970 + n) →
      ∃ m a : Nat, yearLoop fuel (1970 + n) (D - yearStart 1970 n) = ((1970 : Int) + m, (a : Int)) ∧
        yearStart 1970 m + a = D ∧ a < yearLength (1970 + m) := by
  induction fuel with
  | zero => intro n hn; omega
  | succ fuel ih =>
    intro n hn hle hlt
    rw [yearLoop]
    split_ifs with hneg
    · cases n with
      | zero => simp [yearStart] at hneg; omega
      | succ n =>
        have hb := yearStart_bounds 1970 (n + 1)
        have hstart : yearStart 1970 (n + 1) = yearStart 1970 n + yearLength (1970 + n) := rfl
        have hlen := yearLength_eq (1970 + n)
        have hyear : uint32 (1970 + (n + 1 : Nat) - 1) = ((1970 + n : Nat) : Int) := by
          rw [uint32_of_range] <;> omega
        have hdays : int32 ((D : Int) - yearStart 1970 (n + 1) +
            (365 + (isLeap (1970 + n)).toNat)) = D - yearStart 1970 n := by
          rw [int32_of_range] <;> omega
        simp only [hyear, isLeapYear_cast, hdays]
        exact ih n (by omega) (by omega) (by omega)
    · refine ⟨n, D - yearStart 1970 n, ?_, by omega, by omega⟩
      rw [Int.ofNat_sub (by omega)]

lemma monthLoop_spec (y : Nat) (n : Nat) :
    ∀ m a : Nat, n + m = 11 → monthStart y m + a < yearLength y →
      ∃ m' a' : Nat, monthLoop y n m a = (m', (a' : Int)) ∧ m' < 12 ∧
        monthStart y m' + a' = monthStart y m + a ∧ a' < monthLength y m' := by
  induction n with intro m a _ _
  | zero =>
    obtain rfl : m = 11 := by omega
    have hstart : monthStart y 12 = monthStart y 11 + monthLength y 11 := rfl
    have htwelve := monthStart_twelve y
    exact ⟨11, a, rfl, by omega, rfl, by omega⟩
  | succ n ih =>
    have hlen := yearLength_eq y
    have hleap := (isLeap y).toNat_le
    have hmono := monthStart_mono (y := y) (show m + 1 ≤ 12 by omega)
    rw [monthStart_twelve, monthStart] at hmono
    have hnew : int32 (a - rtcMonthDays m y) = a - monthLength y m := by
      rw [rtcMonthDays_cast y m (by omega), int32_of_range] <;> omega
    rw [monthLoop]
    simp only [hnew]
    split
    · exact ⟨m, a, rfl, by omega, rfl, by omega⟩
    have hstart : monthStart y (m + 1) = monthStart y m + monthLength y m := rfl
    obtain ⟨m', a', heq, hm', _, ha'⟩ := ih (m + 1) (a - monthLength y m) (by omega) (by omega)
    rw [Int.ofNat_sub (by omega)] at heq
    exact ⟨m', a', heq, hm', by omega, ha'⟩

/-- The year the code starts from: at least the right one, with less than a year of days left. -/
lemma year_guess {D : Nat} (hD : D ≤ 2147483647) :
    int32 ((D : Int) - uint32 (uint32 (1970 + ((D / 365 : Nat) : Int) - 1970) * 365
      + leapsThruEndOf (uint32 (1970 + ((D / 365 : Nat) : Int) - 1)) - leapsThruEndOf (1970 - 1)))
      = D - yearStart 1970 (D / 365) ∧
    D < yearStart 1970 (D / 365) + yearLength (1970 + D / 365) := by
  have hb := yearStart_bounds 1970 (D / 365)
  have hlen := yearLength_eq (1970 + D / 365)
  have hstart := yearStart_1970 (D / 365)
  have h477 : leapsThruEndOf (1970 - 1) = 477 := rfl
  refine ⟨?_, by omega⟩
  rw [uint32_of_range (x := 1970 + ((D / 365 : Nat) : Int) - 1970) (by omega) (by omega),
    uint32_of_range (x := 1970 + ((D / 365 : Nat) : Int) - 1) (by omega) (by omega),
      show 1970 + ((D / 365 : Nat) : Int) - 1 = 1969 + ((D / 365 : Nat) : Int) by omega,
    uint32_of_range (by omega) (by omega), int32_of_range (by omega) (by omega)]
  omega

/-- **Seconds to date.** -/
theorem tstRtcTimeToTm_spec {t : Int} (h0 : 0 ≤ t) (ht : t / 86400 ≤ intMax) :
    ∃ d : Date, ShowsDate (tstRtcTimeToTm t) d ∧ secondsOf (tstRtcTimeToTm t) d = t ∧
      (tstRtcTimeToTm t).yday = d.dayOfYear ∧
      (tstRtcTimeToTm t).wday = (int32 (d.dayNumber 1970 + 4)).tmod 7 := by
  unfold intMax at ht
  obtain ⟨D, hD⟩ : ∃ D : Nat, t / 86400 = D := ⟨(t / 86400).toNat, by omega⟩
  have hDle : D ≤ 2147483647 := by omega
  have hdays : int32 (t.tdiv 86400) = D := by
    rw [Int.tdiv_eq_ediv_of_nonneg h0, int32_of_range] <;> omega
  obtain ⟨S, hS⟩ : ∃ S, t % 86400 = S := ⟨_, rfl⟩
  have hsecs : uint32 (t.tmod 86400) = S := by
    rw [Int.tmod_eq_emod_of_nonneg h0, uint32_of_range] <;> omega
  have hquot : uint32 (1970 + (D : Int).tdiv 365) = 1970 + ((D / 365 : Nat) : Int) := by
    rw [Int.tdiv_eq_ediv_of_nonneg (by omega), uint32_of_range] <;> omega
  obtain ⟨hguess, hlt⟩ := year_guess hDle
  obtain ⟨m, a, hyear, _, ha⟩ := yearLoop_spec hDle (1970 + ((D / 365 : Nat) : Int)).toNat
    (D / 365) (by omega) (by omega) hlt
  have hb := yearStart_bounds 1970 m
  obtain ⟨mon, b, hmonth, hmon, hmsum, _⟩ := monthLoop_spec (1970 + m) 11 0 a rfl
    (by simpa [monthStart] using ha)
  simp only [monthStart] at hmsum
  have heq : tstRtcTimeToTm t = ⟨S - S / 3600 * 3600 - (S - S / 3600 * 3600) / 60 * 60,
      (S - S / 3600 * 3600) / 60, S / 3600, b + 1, mon, int32 (1970 + m - 1900),
      (int32 (D + 4)).tmod 7, a + 1, 0⟩ := by
    rw [tstRtcTimeToTm]
    simp only [hdays, hsecs, hquot, hguess, hyear]
    rw [show (1970 : Int) + m = ((1970 + m : Nat) : Int) by omega, hmonth]
  have hyear' : int32 (1970 + m - 1900) = 1970 + m - 1900 := by
    rw [int32_of_range] <;> omega
  let d : Date := ⟨1970 + m, mon, b + 1, hmon, by omega, by omega⟩
  have hnum : d.dayNumber 1970 = D := by
    simp only [d, Date.dayNumber, Date.dayOfYear, Nat.add_sub_cancel_left]
    omega
  rw [heq]
  refine ⟨d, ⟨?_, ?_, rfl, ?_, ?_, ?_, ?_⟩, ?_, ?_, ?_⟩
  · show 1970 ≤ 1970 + m
    omega
  · show int32 (1970 + m - 1900) = ((1970 + m : Nat) : Int) - 1900
    omega
  · show (b : Int) + 1 = ((b + 1 : Nat) : Int)
    omega
  · show 0 ≤ S / 3600 ∧ S / 3600 < 24
    omega
  · show 0 ≤ (S - S / 3600 * 3600) / 60 ∧ (S - S / 3600 * 3600) / 60 < 60
    omega
  · show 0 ≤ S - S / 3600 * 3600 - (S - S / 3600 * 3600) / 60 * 60 ∧
      S - S / 3600 * 3600 - (S - S / 3600 * 3600) / 60 * 60 < 60
    omega
  · rw [secondsOf, hnum]
    show (D : Int) * 86400 + S / 3600 * 3600 + (S - S / 3600 * 3600) / 60 * 60 +
      (S - S / 3600 * 3600 - (S - S / 3600 * 3600) / 60 * 60) = t
    omega
  · show (a : Int) + 1 = ((monthStart (1970 + m) mon + (b + 1) : Nat) : Int)
    omega
  · rw [hnum]

/-! ## The time of a date -/

/-- The formula in a year that starts in March, with the leap day last. -/
def marchDays (year mon day : Int) : Int :=
  leapsThruEndOf year + 367 * mon / 12 + day + year * 365 - 719499

lemma tstMktime_days {year mon day} (hy : 0 ≤ year) (hy' : year < 8000000) (hm : 0 ≤ mon)
    (hm' : mon ≤ 12) (hd : 0 ≤ day) (hd' : day ≤ 31) :
    uint32 (year / 4 - year / 100 + year / 400 + uint32 (367 * mon) / 12 + day)
      + uint32 (year * 365) - 719499 = marchDays year mon day := by
  rw [uint32_of_range (x := 367 * mon) (by omega) (by omega),
    uint32_of_range (x := year * 365) (by omega) (by omega)]
  rw [uint32_of_range (by omega) (by omega)]
  rfl

lemma monthLength_le (y m : Nat) : monthLength y m ≤ 31 := by
  unfold monthLength
  split <;> (try split) <;> omega

lemma dayNumber_eq_marchDays (d : Date) (hepoch : 1970 ≤ d.year) : (d.dayNumber 1970 : Int) =
      if d.month < 2 then marchDays (d.year - 1) (d.month + 11) d.day
      else marchDays d.year (d.month - 1) d.day := by
  have hday := d.day_pos
  have hnum : (d.dayNumber 1970 : Int) =
      yearStart 1970 (d.year - 1970) + monthStart d.year d.month + d.day - 1 := by
    simp only [Date.dayNumber, Date.dayOfYear]
    omega
  have hstart := yearStart_1970 (d.year - 1970)
  rw [show 1969 + ((d.year - 1970 : Nat) : Int) = d.year - 1 by omega] at hstart
  rw [hnum]
  unfold marchDays
  split_ifs with hm
  · rw [monthStart_lt_two d.year d.month hm]
    omega
  have hsucc := leapsThru_succ (d.year - 1)
  have hc := leapsThruEndOf_cast (d.year - 1)
  have hc' := leapsThruEndOf_cast d.year
  rw [show d.year - 1 + 1 = d.year by omega] at hsucc
  rw [show ((d.year - 1 : Nat) : Int) = d.year - 1 by omega] at hc
  rw [monthStart_two_le d.year d.month (by omega) d.month_lt]
  omega

lemma tstMktime_eq (d : Date) (hepoch : 1970 ≤ d.year) (hyear : d.year < 8000000)
    (hour min sec : Int) :
    tstMktime d.year (d.month + 1) d.day hour min sec =
      d.dayNumber 1970 * 86400 + hour * 3600 + min * 60 + sec := by
  have hmon := d.month_lt
  have hday := Nat.le_trans d.day_le (monthLength_le ..)
  have hdays := dayNumber_eq_marchDays d hepoch
  unfold tstMktime
  split_ifs at hdays with hm
  · have hmon' : uint32 (uint32 ((d.month : Int) + 1 - 2) + 12) = d.month + 11 := by
      unfold uint32; omega
    have hyear' : uint32 ((d.year : Int) - 1) = d.year - 1 := uint32_of_range (by omega) (by omega)
    have hcond : (0 : Int) ≥ int32 (uint32 ((d.month : Int) + 1 - 2)) := by
      unfold uint32 int32; omega
    simp only [hcond, if_true, hmon', hyear']
    rw [tstMktime_days (by omega) (by omega) (by omega) (by omega) (by omega) (by omega)]
    omega
  · have hmon' : uint32 ((d.month : Int) + 1 - 2) = d.month - 1 := by
      unfold uint32; omega
    have hcond : ¬ (0 : Int) ≥ int32 (d.month - 1) := by unfold int32; omega
    simp only [hmon', hcond, if_false]
    rw [tstMktime_days (by omega) (by omega) (by omega) (by omega) (by omega) (by omega)]
    omega

lemma year_lt {d : Date} (h : (d.dayNumber 1970 : Int) ≤ intMax) : d.year < 8000000 := by
  have hb := yearStart_bounds 1970 (d.year - 1970)
  simp only [Date.dayNumber, intMax] at h
  omega

/-- **Date to seconds.** -/
theorem tstRtcTmToTime_eq {tm} {d : Date} (h : ShowsDate tm d)
    (hd : (d.dayNumber 1970 : Int) ≤ intMax) : tstRtcTmToTime tm = secondsOf tm d := by
  have hyear := year_lt hd
  have hepoch := h.epoch
  have hmon := d.month_lt
  have hday := Nat.le_trans d.day_le (monthLength_le ..)
  obtain ⟨_, _⟩ := h.hour
  obtain ⟨_, _⟩ := h.min
  obtain ⟨_, _⟩ := h.sec
  have hy : uint32 (uint32 tm.year + 1900) = d.year := by
    rw [h.year, uint32_of_range (x := (d.year : Int) - 1900) (by omega) (by omega),
      uint32_of_range] <;> omega
  have hm : uint32 (tm.mon + 1) = d.month + 1 := by
    rw [h.mon, uint32_of_range] <;> omega
  rw [tstRtcTmToTime, hy, hm, h.mday, uint32_of_range (x := (d.day : Int)) (by omega) (by omega),
    uint32_of_range (x := tm.hour) (by omega) (by omega),
    uint32_of_range (x := tm.min) (by omega) (by omega),
    uint32_of_range (x := tm.sec) (by omega) (by omega), tstMktime_eq d hepoch hyear]
  rfl

/-! ## The two together -/

lemma ShowsDate.unique {tm tm' : RtcTime} {d d'} (h : ShowsDate tm d) (h' : ShowsDate tm' d')
    (heq : secondsOf tm d = secondsOf tm' d') :
    d = d' ∧ tm.hour = tm'.hour ∧ tm.min = tm'.min ∧ tm.sec = tm'.sec := by
  obtain ⟨_, _⟩ := h.hour
  obtain ⟨_, _⟩ := h.min
  obtain ⟨_, _⟩ := h.sec
  obtain ⟨_, _⟩ := h'.hour
  obtain ⟨_, _⟩ := h'.min
  obtain ⟨_, _⟩ := h'.sec
  unfold secondsOf at heq
  have hnum : d.dayNumber 1970 = d'.dayNumber 1970 := by omega
  exact ⟨Date.dayNumber_injective h.epoch h'.epoch hnum, by omega, by omega, by omega⟩

/-- **The conversions are those of the Gregorian calendar and inverse to each other.** The day of
the week needs four more days within `int`. -/
theorem rtcTime_inverse : (∀ t : Int, 0 ≤ t → t / 86400 ≤ intMax →
      ∃ d : Date, ShowsDate (tstRtcTimeToTm t) d ∧ secondsOf (tstRtcTimeToTm t) d = t ∧
        (tstRtcTimeToTm t).yday = d.dayOfYear ∧
        (t / 86400 + 4 ≤ intMax → (tstRtcTimeToTm t).wday = (d.dayNumber 1970 + 4) % 7) ∧
        tstRtcTmToTime (tstRtcTimeToTm t) = t) ∧
    ∀ (tm : RtcTime) (d : Date), ShowsDate tm d → (d.dayNumber 1970 : Int) ≤ intMax →
      let tm' := tstRtcTimeToTm (tstRtcTmToTime tm)
      tm'.year = tm.year ∧ tm'.mon = tm.mon ∧ tm'.mday = tm.mday ∧ tm'.hour = tm.hour ∧
        tm'.min = tm.min ∧ tm'.sec = tm.sec := by
  have hday : ∀ {tm : RtcTime} {d : Date}, ShowsDate tm d →
      secondsOf tm d / 86400 = d.dayNumber 1970 ∧ 0 ≤ secondsOf tm d := by
    intro tm d h
    obtain ⟨_, _⟩ := h.hour
    obtain ⟨_, h4⟩ := h.min
    obtain ⟨_, _⟩ := h.sec
    unfold secondsOf
    omega
  refine ⟨fun t h0 ht => ?_, fun tm d h hd => ?_⟩
  · obtain ⟨d, hd, hsec, hyday, hwday⟩ := tstRtcTimeToTm_spec h0 ht
    have hnum := (hday hd).1
    rw [hsec] at hnum
    refine ⟨d, hd, hsec, hyday, fun h4 => ?_, ?_⟩
    · unfold intMax at h4
      rw [hwday, int32_of_range (by omega) (by omega), Int.tmod_eq_emod_of_nonneg (by omega)]
    · rw [tstRtcTmToTime_eq hd (hnum ▸ ht), hsec]
  · obtain ⟨hnum, hnonneg⟩ := hday h
    have htime := tstRtcTmToTime_eq h hd
    obtain ⟨_, hd', hsec, -, -⟩ := tstRtcTimeToTm_spec (t := tstRtcTmToTime tm)
      (by rw [htime]; exact hnonneg) (by rw [htime, hnum]; exact hd)
    obtain ⟨rfl, hhour, hmin, hs⟩ := hd'.unique h (hsec.trans htime)
    exact ⟨hd'.year.trans h.year.symm, hd'.mon.trans h.mon.symm, hd'.mday.trans h.mday.symm, hhour,
      hmin, hs⟩

lemma tstRtcTimeToTm_wday (t : Int) :
    (tstRtcTimeToTm t).wday = (int32 (int32 (t.tdiv 86400) + 4)).tmod 7 := rfl

/-- The last day of the range is a Friday, number five; the field gets a negative number. -/
theorem wday_overflows :
    ∃ (t : Int) (d : Date), 0 ≤ t ∧ t / 86400 ≤ intMax ∧ ShowsDate (tstRtcTimeToTm t) d ∧
      secondsOf (tstRtcTimeToTm t) d = t ∧ (d.dayNumber 1970 + 4) % 7 = 5 ∧
      (tstRtcTimeToTm t).wday = -6 := by
  obtain ⟨d, hd, hsec, -, -⟩ := tstRtcTimeToTm_spec (t := 2147483647 * 86400) (by omega)
    (by unfold intMax; omega)
  refine ⟨2147483647 * 86400, d, by omega, by unfold intMax; omega, hd, hsec, ?_, ?_⟩
  · obtain ⟨_, _⟩ := hd.hour
    obtain ⟨_, _⟩ := hd.min
    obtain ⟨_, _⟩ := hd.sec
    unfold secondsOf at hsec
    omega
  · rw [tstRtcTimeToTm_wday]
    decide

/-! ## `st_rtc_add_secs_todate` -/

/-- `if (low >= unit)`: the higher and the lower part. -/
def carry (high low unit : Int) : Int × Int :=
  if low ≥ unit then (high + low / unit, low % unit) else (high, low)

/-- The cases of the `switch`. -/
def daysIn (leap : Int) : Int → Option Int
  | 0 | 2 | 4 | 6 | 7 | 9 | 11 => some 31
  | 3 | 5 | 8 | 10 => some 30
  | 1 => some (28 + leap)
  | _ => none

def carryMonth (mon mday : Int) : Option Int → Int × Int
  | some days => if mday > days then (mon + mday / days, mday % days) else (mon, mday)
  | none => (mon, mday)

def stRtcAddSecsTodate (tm : RtcTime) (secs leap : Int) : RtcTime :=
  let (min, sec) := carry tm.min (tm.sec + secs) 60
  let (hour, min) := carry tm.hour min 60
  let (mday, hour) := carry tm.mday hour 24
  let (mon, mday) := carryMonth tm.mon mday (daysIn leap tm.mon)
  let (year, mon) := carry tm.year mon 12
  { tm with sec, min, hour, mday, mon, year }

lemma carry_eq {high low unit : Int} (h : 0 ≤ low) :
    carry high low unit = (high + low / unit, low % unit) := by
  unfold carry
  split
  · rfl
  · rw [Int.ediv_eq_zero_of_lt h (by omega), Int.emod_eq_of_lt h (by omega), Int.add_zero]

variable {tm : RtcTime} {d : Date} {secs : Int} {leap : Nat}

/-- The days of the month in the code. -/
def usedDays (leap : Nat) (d : Date) : Nat :=
  if d.month = 1 then 28 + leap else monthLength d.year d.month

lemma daysIn_eq : daysIn leap d.month = some (usedDays leap d : Int) := by
  obtain ⟨y, m, a, _, _, _⟩ := d
  dsimp only [usedDays]
  interval_cases m <;> simp [daysIn, monthLength]

/-- A leap day only in a leap year, as the tests pass it. -/
lemma usedDays_cases (h : leap ≤ (isLeap d.year).toNat) :
    usedDays leap d = monthLength d.year d.month ∨ d.month = 1 ∧ usedDays leap d = 28 := by
  unfold usedDays
  split
  case isTrue hfeb =>
    rw [hfeb, monthLength]
    cases hy : isLeap d.year <;> rw [hy] at h <;> simp at h ⊢ <;> omega
  case isFalse => exact .inl rfl

/-- The day `t`, counted on from the first of the month of `d`, is in this month, in the next one
less than two lengths of this month from its start, or where two or four months happen to be as
long as two or four times the first of them. -/
def DivisionRight (leap t : Nat) (d : Date) : Prop :=
  let days := usedDays leap d
  t ≤ days ∨
  (days = monthLength d.year d.month ∧ t < 2 * days ∧
    t ≤ days + monthLength d.year (d.month + 1)) ∨
  (d.month = 6 ∧ 62 < t ∧ t ≤ 92) ∨
  (d.month = 11 ∧ 62 < t ∧ t ≤ 62 + monthLength (d.year + 1) 1) ∨
  (d.month = 10 ∧ monthLength (d.year + 1) 1 = 28 ∧ 120 < t ∧ t < 150)

/-- The day `r` of the month `q` months later is the `k`-th day after `d`. -/
lemma exists_date_iff {q r k : Nat} (h : 1970 ≤ d.year) :
    (∃ d' : Date, d'.dayNumber 1970 = d.dayNumber 1970 + k ∧
      (d'.year : Int) = d.year + (d.month + q : Nat) / 12 ∧
      (d'.month : Int) = (d.month + q : Nat) % 12 ∧ (d'.day : Int) = r) ↔
    1 ≤ r ∧ r ≤ monthLength (d.year + (d.month + q) / 12) ((d.month + q) % 12) ∧
      monthsLength d.year d.month q + r = d.day + k := by
  have hstart := monthsLength_start h d.month_lt q
  have hday := d.day_pos
  constructor
  · rintro ⟨d', hnum, hyear, hmonth, hd⟩
    obtain rfl : d'.day = r := by omega
    have hpos := d'.day_pos
    rw [show d.year + (d.month + q) / 12 = d'.year by omega,
      show (d.month + q) % 12 = d'.month by omega] at hstart ⊢
    simp only [Date.dayNumber, Date.dayOfYear] at hnum
    exact ⟨hpos, d'.day_le, by omega⟩
  · rintro ⟨hpos, hle, hsum⟩
    refine ⟨⟨_, _, r, Nat.mod_lt _ (by omega), hpos, hle⟩, ?_, by simp, by simp, rfl⟩
    simp only [Date.dayNumber, Date.dayOfYear]
    omega

lemma carryMonth_eq (m t days : Nat) : carryMonth m t (some (days : Int)) =
    if t ≤ days then (((m + 0 : Nat) : Int), (t : Int))
    else (((m + t / days : Nat) : Int), ((t % days : Nat) : Int)) := by
  by_cases hle : t ≤ days
  · simp [carryMonth, hle]
  · simp [carryMonth, hle, Nat.lt_of_not_le hle]

/-- Behind the month of `d` the division is right for these sums `t` only. -/
lemma remainder_iff {y m days t : Nat} (hmonth : m < 12) (hpos : 0 < days)
    (hused : days = monthLength y m ∨ m = 1 ∧ days = 28) (hgt : ¬ t ≤ days) :
    (1 ≤ t % days ∧ t % days ≤ monthLength (y + (m + t / days) / 12) ((m + t / days) % 12) ∧
      monthsLength y m (t / days) + t % days = t) ↔
    (days = monthLength y m ∧ t < 2 * days ∧ t ≤ days + monthLength y (m + 1)) ∨
    (m = 6 ∧ 62 < t ∧ t ≤ 92) ∨
    (m = 11 ∧ 62 < t ∧ t ≤ 62 + monthLength (y + 1) 1) ∨
    (m = 10 ∧ monthLength (y + 1) 1 = 28 ∧ 120 < t ∧ t < 150) := by
  have hfeb' := monthLength_february (y + 1)
  have hq : 1 ≤ t / days := (Nat.one_le_div_iff hpos).mpr (by omega)
  have hsplit := Nat.div_add_mod t days
  have hmod := Nat.mod_lt t hpos
  have hmul : monthsLength y m (t / days) + t % days = t ↔ Multiple y m days (t / days) := by
    rw [← monthsLength_eq_mul_iff hmonth hq hused]
    omega
  rw [hmul, Multiple]
  constructor
  · rintro ⟨hr, hle, ⟨hone, hdays⟩ | ⟨htwo, hm | hm⟩ | ⟨hfour, hm, hnext⟩⟩
    · rw [hone] at hle hsplit
      rw [monthLength_next hmonth] at hle
      exact .inl ⟨hdays, by omega, by omega⟩
    all_goals
      simp only [*, monthLength_eq, Nat.reduceAdd, Nat.reduceDiv, Nat.reduceMod,
        Nat.add_zero] at hused hle hsplit
      omega
  · rintro (⟨hdays, hlt, hle⟩ | ⟨hm, hlt, hle⟩ | ⟨hm, hlt, hle⟩ | ⟨hm, hnext, hlt, hle⟩)
    · have hone : t / days = 1 := Nat.div_eq_of_lt_le (by omega) (by omega)
      rw [hone] at hsplit ⊢
      rw [monthLength_next hmonth]
      exact ⟨by omega, by omega, .inl ⟨rfl, hdays⟩⟩
    all_goals simp only [hm, monthLength_eq] at hused
    · obtain rfl : days = 31 := by omega
      refine ⟨by omega, ?_, .inr (.inl ⟨by omega, .inl hm⟩)⟩
      rw [show t / 31 = 2 by omega, hm]
      change t % 31 ≤ 30
      omega
    · obtain rfl : days = 31 := by omega
      refine ⟨by omega, ?_, .inr (.inl ⟨by omega, .inr hm⟩)⟩
      rw [show t / 31 = 2 by omega, hm]
      change t % 31 ≤ monthLength (y + 1) 1
      omega
    · obtain rfl : days = 30 := by omega
      refine ⟨by omega, ?_, .inr (.inr ⟨by omega, hm, hnext⟩)⟩
      rw [show t / 30 = 4 by omega, hm]
      change t % 30 ≤ 31
      omega

/-- The months and days of the `switch` are those of a date exactly where one division is right. -/
lemma divisionRight_iff {k : Nat} (h : 1970 ≤ d.year) (hleap : leap ≤ (isLeap d.year).toNat) :
    (∃ d' : Date, d'.dayNumber 1970 = d.dayNumber 1970 + k ∧
      (d'.year : Int) = d.year + (carryMonth d.month (d.day + k : Nat)
        (some (usedDays leap d : Int))).1 / 12 ∧
      (d'.month : Int) = (carryMonth d.month (d.day + k : Nat)
        (some (usedDays leap d : Int))).1 % 12 ∧
      (d'.day : Int) = (carryMonth d.month (d.day + k : Nat) (some (usedDays leap d : Int))).2) ↔
    DivisionRight leap (d.day + k) d := by
  have hused := usedDays_cases hleap
  have hfeb := monthLength_february d.year
  have hday := d.day_pos
  have hmonth := d.month_lt
  rw [carryMonth_eq, DivisionRight]
  generalize usedDays leap d = days at *
  split
  case isTrue hle =>
    rw [exists_date_iff h, Nat.add_zero, Nat.div_eq_of_lt hmonth, Nat.mod_eq_of_lt hmonth,
      monthsLength]
    refine iff_of_true ⟨by omega, ?_, by omega⟩ (.inl hle)
    obtain rfl | ⟨hm, rfl⟩ := hused
    · exact hle
    · rw [hm, Nat.add_zero]
      omega
  case isFalse hgt =>
    have hlast := d.day_le
    have hpos : 0 < days := by
      obtain rfl | ⟨-, rfl⟩ := hused <;> omega
    rw [exists_date_iff h, remainder_iff hmonth hpos hused hgt]
    exact (or_iff_right hgt).symm

/-- **Where the sum is right.** -/
theorem stRtcAddSecsTodate_right_iff (h : ShowsDate tm d) (h0 : 0 ≤ secs)
    (hleap : leap ≤ (isLeap d.year).toNat) :
    (∃ d', ShowsDate (stRtcAddSecsTodate tm secs leap) d' ∧
      secondsOf (stRtcAddSecsTodate tm secs leap) d' = secondsOf tm d + secs) ↔
    DivisionRight leap
      (d.day + ((tm.hour * 3600 + tm.min * 60 + tm.sec + secs) / 86400).toNat) d := by
  obtain ⟨hepoch, _, hmon, _, _, _, _⟩ := h
  obtain ⟨k, hk⟩ := Int.eq_ofNat_of_zero_le
    (show 0 ≤ (tm.hour * 3600 + tm.min * 60 + tm.sec + secs) / 86400 by omega)
  have hcarry : tm.mday + (tm.hour + (tm.min + (tm.sec + secs) / 60) / 60) / 24 =
      (d.day + k : Nat) := by
    omega
  rw [hk, Int.toNat_natCast, ← divisionRight_iff hepoch hleap]
  generalize hp : carryMonth d.month (d.day + k : Nat) (some (usedDays leap d : Int)) = p
  have hmon' : 0 ≤ p.1 := by
    rw [← hp, carryMonth_eq]
    split <;> exact Int.natCast_nonneg _
  simp only [stRtcAddSecsTodate, carry_eq (show 0 ≤ tm.sec + secs by omega),
    carry_eq (show 0 ≤ tm.min + (tm.sec + secs) / 60 by omega),
    carry_eq (show 0 ≤ tm.hour + (tm.min + (tm.sec + secs) / 60) / 60 by omega), hmon, hcarry,
    daysIn_eq, hp, carry_eq hmon']
  refine exists_congr fun d' => ⟨?_, ?_⟩
  · rintro ⟨⟨_, _, _, _, _, _, _⟩, hsec⟩
    simp only [secondsOf] at *
    omega
  · rintro ⟨hnum, hyear, hmonth, hday⟩
    refine ⟨⟨by omega, ?_, ?_, ?_, ?_, ?_, ?_⟩, ?_⟩
    all_goals simp only [secondsOf, hnum]
    all_goals omega

theorem stRtcAddSecsTodate_right_february : ∃ d',
    ShowsDate (stRtcAddSecsTodate ⟨57, 59, 23, 28, 1, 112, 0, 0, 0⟩ 5 (1 : Nat)) d' ∧
      secondsOf (stRtcAddSecsTodate ⟨57, 59, 23, 28, 1, 112, 0, 0, 0⟩ 5 (1 : Nat)) d' =
        secondsOf ⟨57, 59, 23, 28, 1, 112, 0, 0, 0⟩ ⟨2012, 1, 28, by decide, by decide, by decide⟩ +
          5 := by
  have h : ShowsDate ⟨57, 59, 23, 28, 1, 112, 0, 0, 0⟩
      ⟨2012, 1, 28, by decide, by decide, by decide⟩ := by constructor <;> decide
  exact (stRtcAddSecsTodate_right_iff h (by decide) (by decide)).mpr (.inl (by decide))

/-- The alarm test passes no leap day, and 31 days after the 31st of January is no date. -/
theorem stRtcAddSecsTodate_wrong :
    stRtcAddSecsTodate ⟨0, 0, 0, 28, 1, 112, 0, 0, 0⟩ 86400 0 = ⟨0, 0, 0, 1, 2, 112, 0, 0, 0⟩ ∧
      ∀ d, ¬ ShowsDate (stRtcAddSecsTodate ⟨0, 0, 0, 31, 0, 113, 0, 0, 0⟩ (31 * 86400) 0) d := by
  refine ⟨rfl, fun d h => ?_⟩
  have hday : 0 = (d.day : Int) := h.mday
  have := d.day_pos
  omega

end LtpDdt.Rtc
