/-
RandomRange.RangeTheorems — when the random number is a multiple in the range.

The code rounds with C's remainder, which has the sign of the dividend: a
negative start or end that is no multiple is rounded up (`firstMult`,
`lastMult`). `divider` adds the random number to a part of the range (`Part`)
without a look at sign or size, and differences have the type of the arguments.
-/
import LtpDdt.RandomRange.Range
import Mathlib.Tactic.Linarith

namespace LtpDdt.RandomRange

open Option Int

variable {top x m : Int} {rand : Nat} {sumTop : Int}

/-! ## What a call should return, and the calls that do -/

def HasMultiple (mult lo hi : Int) : Prop := ∃ x, mult ∣ x ∧ lo ≤ x ∧ x ≤ hi

/-- A multiple between the bounds with `*errp` cleared if there is one, -1 and an error
otherwise. -/
def Correct (min max mult : Int) (ret : Option Ret) : Prop :=
  ∃ r, ret = some r ∧ (1 ≤ mult → HasMultiple mult (Min.min min max) (Max.max min max) →
      mult ∣ r.value ∧ Min.min min max ≤ r.value ∧ r.value ≤ Max.max min max ∧ r.err = none) ∧
    (¬ (1 ≤ mult ∧ HasMultiple mult (Min.min min max) (Max.max min max)) →
      r.value = -1 ∧ r.err ≠ none)

/-- `min` rounded up: the next multiple, but the one after it for a negative number that is no
multiple. -/
def firstMult (min mult : Int) : Int :=
  if mult ∣ min then min else if 0 ≤ min then mult * (min / mult + 1) else mult * (min / mult + 2)

/-- What `max` is rounded to: down, but up for a negative number. -/
def lastMult (max mult : Int) : Int :=
  if mult ∣ max then max else if 0 ≤ max then mult * (max / mult) else mult * (max / mult + 1)

/-- Rounding up does not leave the type: neither the multiple nor what is added to get there. -/
def BumpFits (top min mult : Int) : Prop :=
  mult ∣ min ∨ (0 ≤ min ∧ mult * (min / mult + 1) ≤ top) ∨ (min < 0 ∧ 2 * mult - min % mult ≤ top)

/-- The part of the range that the low bits of the random number select: the range is halved until
it, or its half, is below 2 GiB, each of the 31 bits choosing a half. -/
inductive Part (rand : Nat) : Nat → Int → Int → Int → Prop
  | whole {cnt lo hi} : hi - lo ≤ 2147483647 → Part rand cnt lo hi lo
  | lowHalf {cnt lo hi} : 2147483647 < hi - lo → (hi - lo) / 2 ≤ 2147483647 → cnt ≤ 30 →
      rand.testBit cnt = false → Part rand cnt lo hi lo
  | highHalf {cnt lo hi} : 2147483647 < hi - lo → (hi - lo) / 2 ≤ 2147483647 → cnt ≤ 30 →
      rand.testBit cnt = true → Part rand cnt lo hi (lo + (hi - lo) / 2)
  | low {cnt lo hi start} : 2147483647 < (hi - lo) / 2 → cnt ≤ 30 → rand.testBit cnt = false →
      Part rand (cnt + 1) lo (lo + (hi - lo) / 2) start → Part rand cnt lo hi start
  | high {cnt lo hi start} : 2147483647 < (hi - lo) / 2 → cnt ≤ 30 → rand.testBit cnt = true →
      Part rand (cnt + 1) (lo + (hi - lo) / 2) hi start → Part rand cnt lo hi start

/-- The random number selects one of `n` multiples, inside of the range. -/
def Picks (top : Int) (wide : Bool) (lo hi mult n rand : Int) : Prop :=
  if wide = true ∧ 2147483647 < lastMult hi mult then
    ∃ start, Part rand.toNat 0 (firstMult lo mult) (lastMult hi mult) start ∧ start + rand ≤ top ∧
      (0 ≤ start + rand ∨ n ∣ start + rand ∨ (n ∣ start + rand + 1 ∧ ¬ mult ∣ lo))
  else lastMult hi mult ≤ hi ∨ rand % n + 1 ≠ n

def GoodRange (top : Int) (wide : Bool) (lo hi mult rand : Int) : Prop :=
  BumpFits top lo mult ∧ (HasMultiple mult lo hi → firstMult lo mult ≤ lastMult hi mult ∧
      lastMult hi mult - firstMult lo mult ≤ top ∧
      (lastMult hi mult - firstMult lo mult) / mult + 1 ≤ top ∧
      Picks top wide lo hi mult ((lastMult hi mult - firstMult lo mult) / mult + 1) rand)

def Good (top : Int) (wide : Bool) (min max mult rand : Int) : Prop :=
  mult < 1 ∨ GoodRange top wide (Min.min min max) (Max.max min max) mult rand

/-! ## Sums that fit -/

lemma fits_eq_some {y} : fits top x = some y ↔ y = x ∧ -top - 1 ≤ x ∧ x ≤ top := by
  unfold fits
  split
  · rename_i h
    simp only [some.injEq]
    exact ⟨fun he => ⟨he.symm, h⟩, fun he => he.1.symm⟩
  rename_i h
  simp only [reduceCtorEq, false_iff]
  exact fun he => h he.2

lemma fits_of_range (h : -top - 1 ≤ x) (h' : x ≤ top) : fits top x = some x :=
  fits_eq_some.mpr ⟨rfl, h, h'⟩

lemma fits_of_lt (h : top < x) : fits top x = none := by
  unfold fits
  rw [if_neg (by omega)]

/-! ## The rounded bounds -/

instance (top min mult : Int) : Decidable (BumpFits top min mult) :=
  inferInstanceAs (Decidable (_ ∨ _ ∨ _))

/-- C's remainder has the sign of the dividend. -/
lemma tmod_cases (a : Int) (hm : 0 < m) : m * (a / m) + a % m = a ∧ 0 ≤ a % m ∧ a % m < m ∧
      (m ∣ a ∧ a % m = 0 ∧ a.tmod m = 0 ∨
        ¬ m ∣ a ∧ a % m ≠ 0 ∧ a.tmod m = if 0 ≤ a then a % m else a % m - m) := by
  refine ⟨mul_ediv_add_emod a m, emod_nonneg a (ne_of_gt hm), emod_lt_of_pos a hm, ?_⟩
  by_cases hd : m ∣ a
  · exact .inl ⟨hd, emod_eq_zero_of_dvd hd, tmod_eq_zero_of_dvd hd⟩
  refine .inr ⟨hd, fun h => hd (dvd_of_emod_eq_zero h), ?_⟩
  rw [tmod_eq_emod]
  split <;> omega

/-- The first multiple, up to a step. -/
lemma first_spec (lo : Int) (hm : 0 < m) :
    ∃ k d, firstMult lo m = m * (k + d) ∧ (∀ j, lo ≤ m * j ↔ k ≤ j) ∧ (d = 0 ∨ d = 1) ∧
      (d = 1 ↔ lo < 0 ∧ ¬ m ∣ lo) := by
  obtain ⟨_, -, _, ⟨hd, _, -⟩ | ⟨hd, _, -⟩⟩ := tmod_cases lo hm
  · refine ⟨lo / m, 0, ?_, fun j => ?_, .inl rfl, by simp [hd]⟩
    · rw [firstMult, if_pos hd, Int.add_zero, Int.mul_ediv_cancel' hd]
    · conv_lhs => rw [← Int.mul_ediv_cancel' hd]
      exact Int.mul_le_mul_left hm
  have hle : ∀ j, lo ≤ m * j ↔ lo / m + 1 ≤ j := by
    intro j
    constructor
    · intro h
      have := Int.lt_of_mul_lt_mul_left (by omega : m * (lo / m) < m * j) (Int.le_of_lt hm)
      omega
    intro h
    have := Int.mul_le_mul_of_nonneg_left h (Int.le_of_lt hm)
    rw [Int.mul_add] at this
    omega
  by_cases hs : 0 ≤ lo
  · refine ⟨lo / m + 1, 0, ?_, hle, .inl rfl, by simp; omega⟩
    rw [firstMult, if_neg hd, if_pos hs, Int.add_zero]
  refine ⟨lo / m + 1, 1, ?_, hle, .inr rfl, by simp; omega⟩
  rw [firstMult, if_neg hd, if_neg hs, Int.add_assoc]
  rfl

/-- The last multiple, up to a step. -/
lemma last_spec (hi : Int) (hm : 0 < m) :
    ∃ k d, lastMult hi m = m * (k + d) ∧ (∀ j, m * j ≤ hi ↔ j ≤ k) ∧ (d = 0 ∨ d = 1) ∧
      (d = 1 ↔ hi < 0 ∧ ¬ m ∣ hi) := by
  have hle : ∀ j, m * j ≤ hi ↔ j ≤ hi / m := by
    intro j
    rw [Int.le_ediv_iff_mul_le hm, Int.mul_comm]
  by_cases hd : m ∣ hi
  · refine ⟨hi / m, 0, ?_, hle, .inl rfl, by simp [hd]⟩
    rw [lastMult, if_pos hd, Int.add_zero, Int.mul_ediv_cancel' hd]
  by_cases hs : 0 ≤ hi
  · refine ⟨hi / m, 0, ?_, hle, .inl rfl, by simp; omega⟩
    rw [lastMult, if_neg hd, if_pos hs, Int.add_zero]
  · refine ⟨hi / m, 1, ?_, hle, .inr rfl, by simp; omega⟩
    rw [lastMult, if_neg hd, if_neg hs]

variable {lo hi start mult : Int} {cnt : Nat}

lemma bumpMin_eq (hm : 0 < m) (hlo : -top - 1 ≤ lo) (hmt : m ≤ top) :
    bumpMin top lo m = if BumpFits top lo m then some (firstMult lo m) else none := by
  obtain ⟨_, -, _, ⟨hd, hr, ht⟩ | ⟨hd, hr, ht⟩⟩ := tmod_cases lo hm
  · simp [bumpMin, BumpFits, firstMult, hd, ht]
  unfold bumpMin BumpFits firstMult
  simp only [ht, bind_eq_bind, mul_add]
  by_cases hs : 0 ≤ lo
  · -- what is added fits, the sum may not
    simp only [hs, hr, if_true, true_and, ne_eq, not_false_eq_true]
    rw [fits_of_range (by omega) (by omega), bind_some]
    split
    · rw [fits_of_range (by omega) (by omega)]
      congr 1
      omega
    · exact fits_of_lt (by omega)
  simp only [hs, if_false, false_and, false_or]
  rw [if_pos (by omega)]
  split
  · rw [fits_of_range (by omega) (by omega), bind_some, fits_of_range (by omega) (by omega)]
    congr 1
    omega
  · rw [fits_of_lt (by omega)]
    rfl

lemma reduceMax_eq (hm : 0 < m) (hhi : -top - 1 ≤ hi) (hhi' : hi ≤ top) (htop : 0 ≤ top) :
    reduceMax top hi m = some (lastMult hi m) := by
  obtain ⟨_, -, _, ⟨hd, hr, ht⟩ | ⟨hd, hr, ht⟩⟩ := tmod_cases hi hm
  · simp [reduceMax, lastMult, hd, ht]
  unfold reduceMax lastMult
  simp only [ht]
  by_cases hs : 0 ≤ hi
  · have hq : 0 ≤ m * (hi / m) :=
      mul_nonneg (le_of_lt hm) (ediv_nonneg hs (le_of_lt hm))
    simp only [hs, if_true, ne_eq, hr, not_false_eq_true]
    rw [fits_of_range (by omega) (by omega)]
    congr 1
    omega
  · have hq : m * (hi / m + 1) ≤ 0 := mul_nonpos_of_nonneg_of_nonpos (le_of_lt hm)
      (ediv_neg_of_neg_of_pos (not_le.mp hs) hm)
    rw [mul_add] at hq
    simp only [mul_add]
    rw [if_pos (by omega), fits_of_range (by omega) (by omega)]
    congr 1
    omega

/-! ## The part that `divider` selects -/

lemma Part.bounds (h : Part rand cnt lo hi start) (hle : lo ≤ hi) : lo ≤ start ∧ start ≤ hi := by
  induction h with
  | whole | lowHalf => exact ⟨le_refl _, hle⟩
  | highHalf => omega
  | low _ _ _ _ ih | high _ _ _ _ ih => have := ih (by omega); omega

lemma Part.whole_iff (h : hi - lo ≤ 2147483647) : Part rand cnt lo hi start ↔ start = lo := by
  constructor
  · intro hp
    cases hp <;> first | rfl | omega
  · rintro rfl
    exact .whole h

lemma Part.half_iff (h : 2147483647 < hi - lo) (hhalf : (hi - lo) / 2 ≤ 2147483647)
    (hcnt : cnt ≤ 30) :
    Part rand cnt lo hi start ↔ start = if rand.testBit cnt then lo + (hi - lo) / 2 else lo := by
  constructor
  · intro hp
    cases hp with
    | whole => omega
    | lowHalf _ _ _ hb | highHalf _ _ _ hb => rw [hb]; rfl
    | low | high => omega
  · rintro rfl
    cases hb : rand.testBit cnt with
    | false => exact .lowHalf h hhalf hcnt hb
    | true => exact .highHalf h hhalf hcnt hb

lemma Part.split_iff (h : 2147483647 < (hi - lo) / 2) (hcnt : cnt ≤ 30) :
    Part rand cnt lo hi start ↔
      if rand.testBit cnt then Part rand (cnt + 1) (lo + (hi - lo) / 2) hi start
      else Part rand (cnt + 1) lo (lo + (hi - lo) / 2) start := by
  constructor
  · intro hp
    cases hp with
    | whole | lowHalf | highHalf => omega
    | low _ _ hb hp | high _ _ hb hp => rw [hb]; exact hp
  · intro hp
    cases hb : rand.testBit cnt with
    | false => rw [hb] at hp; exact .low h hcnt hb hp
    | true => rw [hb] at hp; exact .high h hcnt hb hp

lemma Part.not_beyond (h : 2147483647 < hi - lo) (hcnt : 30 < cnt) :
    ¬ Part rand cnt lo hi start := by
  intro hp
  cases hp <;> omega

/-- **The values the halving can give.** -/
lemma dividerFrom_iff {rand : Int} (hrand : 0 ≤ rand) : ∀ left {lo hi v},
    1 ≤ left → left ≤ 32 → lo ≤ hi → hi - lo ≤ top → -top - 1 ≤ lo → hi ≤ top →
    (dividerFrom top (left + 1) lo hi rand = some v ↔
      ∃ start, Part rand.toNat (32 - left) lo hi start ∧ v = start + rand ∧ start + rand ≤ top)
  | 0, lo, hi, v, h, _, _, _, _, _ => by omega
  | n + 1, lo, hi, v, _, hn, hle, hspan, hlo, hhi => by
    have hsum : ∀ {x : Int}, -top - 1 ≤ x → (fits top (x + rand) = some v ↔
        v = x + rand ∧ x + rand ≤ top) := by
      intro x _
      rw [fits_eq_some]
      exact ⟨fun h => ⟨h.1, h.2.2⟩, fun h => ⟨h.1, by omega, h.2⟩⟩
    have htdiv : (hi - lo).tdiv 2 = (hi - lo) / 2 := tdiv_eq_ediv_of_nonneg (by omega)
    rw [dividerFrom, fits_of_range (by omega) hspan]
    simp only [bind_eq_bind, bind_some]
    by_cases hwhole : hi - lo ≤ 2147483647
    · rw [if_pos hwhole, hsum hlo]
      simp [Part.whole_iff hwhole]
    rw [if_neg hwhole, htdiv, fits_of_range (by omega) (by omega)]
    simp only [bind_some, randBit]
    by_cases hcnt : 32 - (n + 1) ≤ 30
    · rw [if_pos hcnt]
      simp only [bind_some]
      by_cases hhalf : (hi - lo) / 2 ≤ 2147483647
      · rw [if_pos hhalf]
        simp only [Part.half_iff (not_le.mp hwhole) hhalf hcnt, exists_eq_left]
        split
        · exact hsum (by omega)
        · exact hsum hlo
      · rw [if_neg hhalf]
        simp only [Part.split_iff (not_le.mp hhalf) hcnt]
        have hcnt' : 32 - (n + 1) + 1 = 32 - n := by omega
        rw [hcnt']
        split
        · exact dividerFrom_iff hrand n (by omega) (by omega) (by omega) (by omega) (by omega) hhi
        · exact dividerFrom_iff hrand n (by omega) (by omega) (by omega) (by omega) hlo (by omega)
    · rw [if_neg hcnt]
      simp only [bind_none, reduceCtorEq, false_iff, not_exists]
      exact fun start hp => Part.not_beyond (not_le.mp hwhole) (by omega) hp.1

/-! ## The selected multiple -/

lemma tmod_nonneg_iff {v n : Int} : 0 ≤ v.tmod n ↔ 0 ≤ v ∨ n ∣ v := by
  constructor
  · intro h
    by_cases hv : 0 ≤ v
    · exact .inl hv
    right
    have hneg : 0 ≤ (-v).tmod n := tmod_nonneg n (by omega)
    rw [neg_tmod] at hneg
    exact dvd_of_tmod_eq_zero (by omega)
  · rintro (hv | hd)
    · exact tmod_nonneg n hv
    · exact le_of_eq (tmod_eq_zero_of_dvd hd).symm

lemma tmod_ge_neg_one_iff {v n : Int} (hn : 0 < n) : -1 ≤ v.tmod n ↔ 0 ≤ v ∨ n ∣ v ∨ n ∣ v + 1 := by
  have hdiv := mul_tdiv_add_tmod v n
  by_cases hv : 0 ≤ v
  · have := tmod_nonneg n hv
    omega
  have hneg : 0 ≤ (-v).tmod n := tmod_nonneg n (by omega)
  rw [neg_tmod] at hneg
  constructor
  · intro h
    rcases (by omega : v.tmod n = 0 ∨ v.tmod n = -1) with h0 | _
    · exact .inr (.inl (dvd_of_tmod_eq_zero h0))
    · exact .inr (.inr ⟨v.tdiv n, by omega⟩)
  rintro (h | h | ⟨t, ht⟩)
  · omega
  · rw [tmod_eq_zero_of_dvd h]
    omega
  -- the remainder is above -n and -1 up to a multiple
  have hlt := lt_tmod_of_pos v hn
  have hmul : n * (t - v.tdiv n) = v.tmod n + 1 := by
    rw [mul_sub]
    omega
  by_contra hc
  have hstep : t - v.tdiv n ≤ -1 := by
    by_contra hge
    have := mul_nonneg (le_of_lt hn) (by omega : 0 ≤ t - v.tdiv n)
    omega
  have := mul_le_mul_of_nonneg_left hstep (le_of_lt hn)
  omega

/-- The rounded bounds in multiples, and by how many steps they are off. -/
structure Bounds (lo hi m ka kb da db : Int) : Prop where
  first : firstMult lo m = m * (ka + da)
  last : lastMult hi m = m * (kb + db)
  above : ∀ j, lo ≤ m * j ↔ ka ≤ j
  below : ∀ j, m * j ≤ hi ↔ j ≤ kb
  offA : da = 0 ∨ da = 1
  offB : db = 0 ∨ db = 1
  negA : da = 1 ↔ lo < 0 ∧ ¬ m ∣ lo
  negB : db = 1 ↔ hi < 0 ∧ ¬ m ∣ hi

lemma exists_bounds (lo hi : Int) (hm : 0 < m) : ∃ ka kb da db, Bounds lo hi m ka kb da db := by
  obtain ⟨ka, da, h1, h2, h3, h4⟩ := first_spec lo hm
  obtain ⟨kb, db, h5, h6, h7, h8⟩ := last_spec hi hm
  exact ⟨ka, kb, da, db, h1, h5, h2, h6, h3, h7, h4, h8⟩

section Selected

variable {top lo hi m ka kb da db : Int} (hb : Bounds lo hi m ka kb da db)

include hb

lemma Bounds.le_iff (hm : 0 < m) : firstMult lo m ≤ lastMult hi m ↔ ka + da ≤ kb + db := by
  rw [hb.first, hb.last]
  exact Int.mul_le_mul_left hm

lemma Bounds.span : lastMult hi m - firstMult lo m = m * (kb + db - (ka + da)) := by
  rw [hb.first, hb.last, mul_sub]

lemma Bounds.count (hm : 0 < m) : (lastMult hi m - firstMult lo m) / m = kb + db - (ka + da) := by
  rw [hb.span, mul_ediv_cancel_left _ (ne_of_gt hm)]

lemma Bounds.hasMultiple_iff : HasMultiple m lo hi ↔ ka ≤ kb := by
  constructor
  · rintro ⟨x, ⟨j, rfl⟩, h1, h2⟩
    have := (hb.above j).mp h1
    have := (hb.below j).mp h2
    omega
  · intro h
    exact ⟨m * ka, ⟨ka, rfl⟩, (hb.above ka).mpr (le_refl _), (hb.below ka).mpr h⟩

lemma Bounds.last_le_iff : lastMult hi m ≤ hi ↔ db = 0 := by
  rw [hb.last, hb.below]
  have := hb.offB
  omega

lemma Bounds.off_of_pos (hm : 0 < m) (h : 0 < lastMult hi m) : db = 0 := by
  rcases hb.offB with h0 | h1
  · exact h0
  have hneg := (hb.negB.mp h1).1
  have hk : ¬ 0 ≤ kb := fun hk => by
    have := (hb.below 0).mpr hk
    omega
  have := mul_nonpos_of_nonneg_of_nonpos (le_of_lt hm) (by omega : kb + db ≤ 0)
  rw [hb.last] at h
  omega

lemma Bounds.last_le (hm : 0 < m) (htop : 0 ≤ top) (hhi : hi ≤ top) : lastMult hi m ≤ top := by
  by_cases h : 0 < lastMult hi m
  · have := hb.last_le_iff.mpr (hb.off_of_pos hm h)
    omega
  · omega

lemma Bounds.le_first : lo ≤ firstMult lo m := by
  rw [hb.first, hb.above]
  have := hb.offA
  omega

lemma Bounds.value_iff (q : Int) : lo ≤ firstMult lo m + q * m ∧ firstMult lo m + q * m ≤ hi ↔
      -da ≤ q ∧ q ≤ kb + db - (ka + da) - db := by
  have hval : firstMult lo m + q * m = m * (ka + da + q) := by
    rw [hb.first, mul_add m (ka + da), mul_comm q]
  rw [hval, hb.above, hb.below]
  omega

lemma Bounds.select_value (hm : 0 < m) (hsum : top ≤ sumTop)
    (hlo : -top - 1 ≤ lo) (hhi : hi ≤ top) (hle : ka + da ≤ kb + db)
    (hspan : lastMult hi m - firstMult lo m ≤ top) (v : Int) :
    (∃ r, (do
        let off ← fits sumTop (v.tmod (kb + db - (ka + da) + 1) * m)
        let value ← fits sumTop (firstMult lo m + off)
        some (⟨value, none⟩ : Ret)) = some r ∧
      m ∣ r.value ∧ lo ≤ r.value ∧ r.value ≤ hi ∧ r.err = none) ↔
      -da ≤ v.tmod (kb + db - (ka + da) + 1) ∧
        v.tmod (kb + db - (ka + da) + 1) ≤ kb + db - (ka + da) - db := by
  have hn : 0 < kb + db - (ka + da) + 1 := by omega
  have hq := Int.lt_tmod_of_pos v hn
  have hq' := Int.tmod_lt_of_pos v hn
  generalize v.tmod (kb + db - (ka + da) + 1) = q at hq hq'
  -- the offset is at most the distance of the bounds
  have hup : q * m ≤ lastMult hi m - firstMult lo m := by
    rw [hb.span, Int.mul_comm m]
    exact Int.mul_le_mul_of_nonneg_right (by omega) (Int.le_of_lt hm)
  have hdown : -(lastMult hi m - firstMult lo m) ≤ q * m := by
    rw [hb.span, Int.mul_comm m, ← Int.neg_mul]
    exact Int.mul_le_mul_of_nonneg_right (by omega) (Int.le_of_lt hm)
  rw [fits_of_range (by omega) (by omega), ← hb.value_iff q]
  simp only [bind_eq_bind, bind_some]
  constructor
  · rintro ⟨r, hr, -, h1, h2, -⟩
    cases hf : fits sumTop (firstMult lo m + q * m) with
    | none => rw [hf] at hr; cases hr
    | some =>
      rw [hf] at hr
      obtain ⟨rfl, -⟩ := fits_eq_some.mp hf
      cases hr
      exact ⟨h1, h2⟩
  · intro h
    rw [fits_of_range (by omega) (by omega)]
    refine ⟨_, rfl, ?_, h.1, h.2, rfl⟩
    rw [hb.first]
    exact Int.dvd_add (Int.dvd_mul_right _ _) (Int.dvd_mul_left _ _)

/-- The values that can be picked. -/
lemma Bounds.picks_iff (hm : 0 < m) (htop : 0 ≤ top) (hlo : -top - 1 ≤ lo) (hhi : hi ≤ top) {rand}
    (hrand : 0 ≤ rand) (wide : Bool) (hle : ka + da ≤ kb + db)
    (hspan : lastMult hi m - firstMult lo m ≤ top) :
    (∃ v, randnum top wide (firstMult lo m) (lastMult hi m) rand = some v ∧
      -da ≤ v.tmod (kb + db - (ka + da) + 1) ∧
        v.tmod (kb + db - (ka + da) + 1) ≤ kb + db - (ka + da) - db) ↔
      Picks top wide lo hi m (kb + db - (ka + da) + 1) rand := by
  have hn : 0 < kb + db - (ka + da) + 1 := by omega
  have hfl := (hb.le_iff hm).mpr hle
  have hoffA := hb.offA
  have hlf := hb.le_first
  unfold Picks randnum
  by_cases hw : wide ∧ 2147483647 < lastMult hi m
  · rw [if_pos hw, if_pos (by simpa using hw)]
    have hdb := hb.off_of_pos hm (by omega)
    have hdiv : ∀ v, divider top (firstMult lo m) (lastMult hi m) rand = some v ↔
        ∃ start, Part rand.toNat 0 (firstMult lo m) (lastMult hi m) start ∧ v = start + rand ∧
          start + rand ≤ top := fun v =>
      dividerFrom_iff hrand 32 (by omega) le_rfl hfl hspan (by omega) (hb.last_le hm htop hhi)
    constructor
    · rintro ⟨v, hv, _, -⟩
      obtain ⟨start, hp, rfl, hfit⟩ := (hdiv v).mp hv
      refine ⟨start, hp, hfit, ?_⟩
      rcases hoffA with h0 | h1
      · have := (tmod_nonneg_iff).mp (by omega : 0 ≤ (start + rand).tmod (kb + db - (ka + da) + 1))
        exact this.imp_right .inl
      have := (tmod_ge_neg_one_iff hn).mp
        (by omega : -1 ≤ (start + rand).tmod (kb + db - (ka + da) + 1))
      exact this.imp_right (Or.imp_right fun h => ⟨h, (hb.negA.mp h1).2⟩)
    · rintro ⟨start, hp, hfit, hpick⟩
      refine ⟨start + rand, (hdiv _).mpr ⟨start, hp, rfl, hfit⟩, ?_, ?_⟩
      · by_cases h0 : 0 ≤ start + rand ∨ (kb + db - (ka + da) + 1) ∣ start + rand
        · have := tmod_nonneg_iff.mpr h0
          omega
        -- a negative number that is no multiple: the part starts below 0
        obtain ⟨hneg, hnd⟩ := not_or.mp h0
        obtain ⟨hdvd, hlom⟩ := (hpick.resolve_left hneg).resolve_left hnd
        have hstart := (hp.bounds hfl).1
        have h1 : da = 1 := hb.negA.mpr ⟨by omega, hlom⟩
        have := (tmod_ge_neg_one_iff hn).mpr (.inr (.inr hdvd))
        omega
      · have := tmod_lt_of_pos (start + rand) hn
        omega
  · rw [if_neg hw, if_neg (by simpa using hw), hb.last_le_iff]
    simp only [some.injEq, exists_eq_left', tmod_eq_emod_of_nonneg hrand]
    have h0 := emod_nonneg rand (ne_of_gt hn)
    have h1 := emod_lt_of_pos rand hn
    have hoffB := hb.offB
    omega

/-- When the value is right. -/
lemma Bounds.select_iff (hm : 0 < m) (htop : 0 ≤ top) (hsum : top ≤ sumTop) (hlo : -top - 1 ≤ lo)
    (hhi : hi ≤ top) {rand} (hrand : 0 ≤ rand) (wide : Bool) (hle : ka + da ≤ kb + db) :
    (∃ r, select top sumTop wide (firstMult lo m) (lastMult hi m) m rand = some r ∧
      m ∣ r.value ∧ lo ≤ r.value ∧ r.value ≤ hi ∧ r.err = none) ↔
      lastMult hi m - firstMult lo m ≤ top ∧
      (lastMult hi m - firstMult lo m) / m + 1 ≤ top ∧
      Picks top wide lo hi m ((lastMult hi m - firstMult lo m) / m + 1) rand := by
  have hfl := (hb.le_iff hm).mpr hle
  have hcount := hb.count hm
  have htdiv : (lastMult hi m - firstMult lo m).tdiv m = kb + db - (ka + da) := by
    rw [tdiv_eq_ediv_of_nonneg (by omega), hcount]
  rw [hcount]
  unfold select
  by_cases hspan : lastMult hi m - firstMult lo m ≤ top
  · rw [fits_of_range (by omega) hspan]
    simp only [bind_eq_bind, bind_some, htdiv, hspan]
    by_cases hcnt : kb + db - (ka + da) + 1 ≤ top
    · rw [fits_of_range (by omega) hcnt, ← hb.picks_iff hm htop hlo hhi hrand wide hle hspan]
      simp only [bind_some, hcnt, true_and]
      constructor
      · rintro ⟨r, hr, hp⟩
        obtain ⟨v, hv, hr⟩ := bind_eq_some_iff.mp hr
        exact ⟨v, hv, (hb.select_value hm hsum hlo hhi hle hspan v).mp ⟨r, hr, hp⟩⟩
      rintro ⟨v, hv, hp⟩
      obtain ⟨r, hr, hp⟩ := (hb.select_value hm hsum hlo hhi hle hspan v).mpr hp
      exact ⟨r, bind_eq_some_iff.mpr ⟨v, hv, hr⟩, hp⟩
    · rw [fits_of_lt (by omega)]
      simp [hcnt]
  · rw [fits_of_lt (by omega)]
    simp [hspan]

end Selected

/-! ## The functions -/

lemma randomRangeWith_eq {wide min max rand} (h : 1 ≤ mult) :
    randomRangeWith top sumTop wide min max mult rand =
      (bumpMin top (Min.min min max) mult).bind fun lo =>
        (reduceMax top (Max.max min max) mult).bind fun hi =>
          if lo > hi then
            some ⟨-1, some s!"no numbers in the range {min}:{max} that are a multiple of {mult}"⟩
          else select top sumTop wide lo hi mult rand := by
  unfold randomRangeWith
  rw [if_neg (by omega)]
  split_ifs with hs
  · rw [min_eq_right (le_of_lt hs), max_eq_left (le_of_lt hs)]
    rfl
  · rw [min_eq_left (not_lt.mp hs), max_eq_right (not_lt.mp hs)]
    rfl

/-- A value of the type with the largest value `top`. -/
def InType (top x : Int) : Prop := -top - 1 ≤ x ∧ x ≤ top

instance (top x : Int) : Decidable (InType top x) :=
  inferInstanceAs (Decidable (-top - 1 ≤ x ∧ x ≤ top))

/-- **When the function is right**, at any width. -/
lemma randomRangeWith_iff (htop : 0 ≤ top) (hsum : top ≤ sumTop) (wide : Bool) {min max rand}
    (hmin : InType top min) (hmax : InType top max) (hmult : InType top mult) (hrand : 0 ≤ rand) :
    Correct min max mult (randomRangeWith top sumTop wide min max mult rand) ↔
      Good top wide min max mult rand := by
  by_cases h1 : mult < 1
  · have hret : randomRangeWith top sumTop wide min max mult rand
        = some ⟨-1, some "mult arg must be greater than 0"⟩ := by
      unfold randomRangeWith
      rw [if_pos h1]
    refine ⟨fun _ => .inl h1, fun _ => ⟨_, hret, fun h => absurd h (by omega), fun _ =>
      ⟨rfl, nofun⟩⟩⟩
  have hm : 0 < mult := by omega
  have hgood : Good top wide min max mult rand ↔
      GoodRange top wide (Min.min min max) (Max.max min max) mult rand :=
    or_iff_right h1
  rw [hgood, randomRangeWith_eq (by omega)]
  unfold Correct GoodRange
  obtain ⟨hlo, hhi, hhi'⟩ : -top - 1 ≤ Min.min min max ∧ -top - 1 ≤ Max.max min max ∧
      Max.max min max ≤ top :=
    ⟨le_min hmin.1 hmax.1, le_trans hmin.1 (le_max_left _ _), max_le hmin.2 hmax.2⟩
  have hlohi : Min.min min max ≤ Max.max min max := min_le_max
  generalize Min.min min max = lo at hlo hlohi
  generalize Max.max min max = hi at hhi hhi' hlohi
  by_cases hbump : BumpFits top lo mult
  · rw [bumpMin_eq hm hlo hmult.2, if_pos hbump, bind_some,
      reduceMax_eq hm hhi hhi' htop, bind_some]
    obtain ⟨ka, kb, _, db, hb⟩ := exists_bounds lo hi hm
    simp only [hbump, true_and]
    by_cases hhas : HasMultiple mult lo hi
    · simp only [hhas, true_implies, (by omega : 1 ≤ mult), not_true_eq_false, false_implies,
        and_true]
      by_cases hle : firstMult lo mult ≤ lastMult hi mult
      · rw [if_neg (by omega), hb.select_iff hm htop hsum hlo hhi' hrand wide
          ((hb.le_iff hm).mp hle)]
        simp [hle]
      rw [if_pos (by omega)]
      simp only [hle, false_and, iff_false]
      rintro ⟨r, hr, -, -, -, herr⟩
      cases hr
      cases herr
    · -- no multiple: the rounded bounds have crossed
      have hgt : firstMult lo mult > lastMult hi mult := by
        by_contra hle
        have hk := (hb.le_iff hm).mp (by omega)
        have hka : ¬ ka ≤ kb := fun h => hhas (hb.hasMultiple_iff.mpr h)
        have h0 := hb.offA
        have h0' := hb.offB
        have hdb : db = 1 := by omega
        -- the end was rounded up, so the range is negative, and its start a multiple in it
        have hneg := (hb.negB.mp hdb).1
        have hdvd : mult ∣ lo := by
          by_contra hnd
          have := hb.negA.mpr ⟨by omega, hnd⟩
          omega
        exact hhas ⟨lo, hdvd, le_refl _, hlohi⟩
      rw [if_pos hgt]
      simp only [hhas, false_implies, and_false, not_false_eq_true, true_implies, iff_true]
      exact ⟨_, rfl, fun _ => trivial, rfl, nofun⟩
  · rw [bumpMin_eq hm hlo hmult.2]
    simp only [hbump, false_and, iff_false]
    rintro ⟨r, hr, -⟩
    cases hr

lemma Abi.intMax_le (abi : Abi) : intMax ≤ abi.longMax := by
  unfold Abi.longMax intMax llongMax
  split <;> omega

/-- **When the random number is a multiple in the range**: exactly if `Good` holds, for arguments of
the function's type and every number `lrand48` returns. -/
theorem randomRange_correct_iff (abi : Abi) (min max mult rand : Int)
    (hrand : 0 ≤ rand ∧ rand < 2147483648) :
    (InType intMax min → InType intMax max → InType intMax mult →
      (Correct min max mult (randomRange abi min max mult rand) ↔
        Good intMax false min max mult rand)) ∧
    (InType abi.longMax min → InType abi.longMax max → InType abi.longMax mult →
      (Correct min max mult (randomRangel abi min max mult rand) ↔
        Good abi.longMax abi.mips64 min max mult rand)) ∧
    (InType llongMax min → InType llongMax max → InType llongMax mult →
      (Correct min max mult (randomRangell min max mult rand) ↔
        Good llongMax true min max mult rand)) := by
  have h0 : (0 : Int) ≤ intMax := by decide
  refine ⟨fun h1 h2 h3 => ?_, fun h1 h2 h3 => ?_, fun h1 h2 h3 => ?_⟩
  · exact randomRangeWith_iff h0 abi.intMax_le false h1 h2 h3 hrand.1
  · exact randomRangeWith_iff (Int.le_trans h0 abi.intMax_le) (Int.le_refl _) abi.mips64 h1 h2 h3
      hrand.1
  · exact randomRangeWith_iff (by decide) (Int.le_refl _) true h1 h2 h3 hrand.1

/-- 64-bit Linux. -/
def lp64 : Abi := ⟨true, false, nofun⟩

theorem randomRange_correct_one_ten : Correct 1 10 3 (randomRange lp64 1 10 3 2147483647) := by
  refine ((randomRange_correct_iff lp64 1 10 3 2147483647 ⟨by omega, by omega⟩).1 (by decide)
    (by decide) (by decide)).mpr (.inr ⟨.inr (.inl ⟨by decide, by decide⟩), fun _ => ?_⟩)
  exact ⟨by decide, by decide, by decide, by unfold Picks; rw [if_neg (by decide)]; decide⟩

/-- -3 is a multiple of 3 between -5 and -3, but the start is rounded up to 0: there is none. -/
theorem randomRange_misses :
    ¬ ∀ (abi : Abi) (min max mult rand : Int), InType intMax min → InType intMax max →
      InType intMax mult → 0 ≤ rand → rand < 2147483648 →
      Correct min max mult (randomRange abi min max mult rand) := by
  intro h
  have hc := h lp64 (-5) (-3) 3 0 (by decide) (by decide) (by decide) (by omega) (by omega)
  rcases (randomRangeWith_iff (by decide) lp64.intMax_le false (by decide) (by decide) (by decide)
    (Int.le_refl 0)).mp hc with hlt | ⟨-, hgood⟩
  · exact absurd hlt (by decide)
  · exact absurd (hgood ⟨-3, by decide, by decide, by decide⟩).1 (by decide)

end LtpDdt.RandomRange
