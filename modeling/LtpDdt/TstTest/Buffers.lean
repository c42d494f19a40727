/-
TstTest.Buffers — the guarded buffers of `lib/tst_buffers.c`.

`size_t` has 64 bits, so that only the number of pages, an `unsigned int`, can wrap.
`mmap` answers `ret`, and refuses the length 0.
-/
import Mathlib.Data.BitVec

namespace LtpDdt.TstTest

open List Function

structure Map where
  addr : Nat
  size : Nat
  bufShift : Nat

structure Heap where
  maps : List Map
  mem : Nat → UInt8

/-- The first `n` rounds; `random` gives the numbers drawn. -/
def setupCanary (random : Nat → UInt8) (map : Map) (mem : Nat → UInt8) : Nat → Nat → UInt8
  | 0 => mem
  | n + 1 =>
    let buf := setupCanary random map mem n
    let buf := Function.update buf (map.addr + (map.bufShift - n - 1)) (random n)
    Function.update buf (map.addr + n) (random n)

/-- The indices that are warned of. -/
def checkCanary (mem : Nat → UInt8) (map : Map) : List Nat :=
  (range (map.bufShift / 2)).filter fun i =>
    mem (map.addr + (map.bufShift - i - 1)) ≠ mem (map.addr + i)

/-- What `pages` is computed from. -/
def pagesNeeded (page size : Nat) : Nat := size / page + (if size % page ≠ 0 then 1 else 0) + 1

def bufShift (page size : Nat) : Nat := if size % page ≠ 0 then page - size % page else 0

/-- The map, the protected page, the buffer and the heap. -/
def tstAlloc (page : Nat) (random : Nat → UInt8) (ret size : Nat) (heap : Heap) :
    Option (Map × Nat × Nat × Heap) :=
  let pages := pagesNeeded page size % 2 ^ 32
  if page * pages = 0 then none
  else
    let map : Map := ⟨ret, pages * page, bufShift page size⟩
    some (map, ret + (pages - 1) * page, ret + map.bufShift,
      ⟨map :: heap.maps, setupCanary random map heap.mem (map.bufShift / 2)⟩)

/-- The warnings. -/
def tstFreeAll (heap : Heap) : List Nat := heap.maps.flatMap (checkCanary heap.mem)

/-- Of the bytes before the buffer only the one at `k` is another one. -/
def Changed (map : Map) (k : Nat) (mem later : Nat → UInt8) : Prop :=
  ∀ j < map.bufShift, later (map.addr + j) = mem (map.addr + j) ↔ j ≠ k

/-- A buffer that is returned ends at the last page, which is protected, and the
change of one byte before it is noticed later. -/
def AllocRight (page size : Nat) : Prop :=
  ∀ random ret heap map guard buf heap',
    tstAlloc page random ret size heap = some (map, guard, buf, heap') →
    (buf + size = guard ∧ guard + page = map.addr + map.size) ∧
    ∀ k < map.bufShift, ∀ later : Heap, map ∈ later.maps →
      Changed map k heap'.mem later.mem → tstFreeAll later ≠ []

def Mirrored (map : Map) (mem : Nat → UInt8) (n : Nat) : Prop :=
  ∀ i < n, mem (map.addr + (map.bufShift - i - 1)) = mem (map.addr + i)

lemma setupCanary_mirrored (random : Nat → UInt8) (map : Map) (mem : Nat → UInt8) (n : Nat)
    (hn : n ≤ map.bufShift / 2) : Mirrored map (setupCanary random map mem n) n := by
  induction n with
  | zero => simp [Mirrored]
  | succ n ih =>
    intro i hi
    rw [setupCanary]
    rcases Nat.lt_succ_iff_lt_or_eq.1 hi with h | rfl
    · rw [update_of_ne (by omega), update_of_ne (by omega),
        update_of_ne (by omega), update_of_ne (by omega)]
      exact ih (by omega) i h
    · rw [update_of_ne (by omega), update_self, update_self]

section

variable {page size : Nat} {map : Map} {mem later : Nat → UInt8} {k : Nat}

/-- A byte that is not in the middle is compared with one that has not changed. -/
lemma checkCanary_ne_nil (hk : k < map.bufShift) (hmid : 2 * k + 1 ≠ map.bufShift)
    (h : Mirrored map mem (map.bufShift / 2)) (hlater : Changed map k mem later) :
    checkCanary later map ≠ [] := by
  have found : ∀ i < map.bufShift / 2, k = i ∨ k = map.bufShift - i - 1 →
      checkCanary later map ≠ [] := by
    intro i hi hki
    refine ne_nil_of_mem (mem_filter.2 ⟨mem_range.2 hi, decide_eq_true fun heq => ?_⟩)
    rcases hki with rfl | rfl
    · have hother := (hlater (map.bufShift - k - 1) (by omega)).2 (by omega)
      exact (hlater k hk).1 (heq.symm.trans (hother.trans (h k hi))) rfl
    · have hother := (hlater i (by omega)).2 (by omega)
      exact (hlater _ hk).1 (heq.trans (hother.trans (h i hi).symm)) rfl
  rcases Nat.lt_or_ge k (map.bufShift / 2) with hlt | _
  · exact found k hlt (.inl rfl)
  · exact found (map.bufShift - k - 1) (by omega) (.inr (by omega))

/-- The byte in the middle is not compared. -/
lemma middle_unnoticed (map : Map) (hmid : 2 * k + 1 = map.bufShift)
    (h : Mirrored map mem (map.bufShift / 2)) :
    ∃ later, Changed map k mem later ∧ checkCanary later map = [] := by
  refine ⟨update mem (map.addr + k) (mem (map.addr + k) + 1), fun j hj => ?_, ?_⟩
  · by_cases hjk : j = k
    · simp [hjk]
    · rw [update_of_ne (by omega)]
      simp [hjk]
  refine filter_eq_nil_iff.2 fun i hi => ?_
  have hlt := mem_range.1 hi
  rw [update_of_ne (by omega), update_of_ne (by omega), h i hlt]
  simp

/-- The buffer and the bytes before it fill all pages but one. -/
lemma bufShift_add_size (hpage : 0 < page) (size : Nat) :
    bufShift page size + size = (pagesNeeded page size - 1) * page := by
  have hdiv := Nat.div_add_mod' size page
  have hlt := Nat.mod_lt size hpage
  rw [pagesNeeded, bufShift, Nat.add_sub_cancel, Nat.add_mul]
  split
  · omega
  · omega

lemma AllocRight.cond (hpage : 0 < page) (heven : 2 ∣ page) (h : AllocRight page size) :
    pagesNeeded page size % 2 ^ 32 = 0 ∨ pagesNeeded page size < 2 ^ 32 ∧ 2 ∣ size := by
  have hsum := bufShift_add_size hpage size
  have hpar : 2 ∣ bufShift page size + size := hsum ▸ Nat.dvd_mul_left_of_dvd heven _
  refine or_iff_not_imp_left.2 fun h0 => ?_
  have hrun := h (fun _ => 0) 0 ⟨[], fun _ => 0⟩ _ _ _ _
    (if_neg (Nat.mul_ne_zero (Nat.ne_of_gt hpage) h0))
  dsimp only at hrun
  obtain ⟨⟨_, -⟩, hnotice⟩ := hrun
  constructor
  · have hpages : (pagesNeeded page size - 1) * page =
        (pagesNeeded page size % 2 ^ 32 - 1) * page := by
      omega
    have hwrap := Nat.eq_of_mul_eq_mul_right hpage hpages
    omega
  · by_contra hodd
    have hmid : 2 * (bufShift page size / 2) + 1 = bufShift page size := by omega
    obtain ⟨later, hlater, hnil⟩ := middle_unnoticed ⟨0, _, bufShift page size⟩ hmid
      (setupCanary_mirrored _ _ _ _ (Nat.le_refl _))
    refine hnotice _ (by omega) ⟨[_], later⟩ (mem_singleton_self _) hlater ?_
    exact (flatMap_singleton ..).trans hnil

end

/-- **The guard and the canary.** A buffer has both exactly if its size is even and the
number of pages does not wrap (or wraps to 0, and there is no buffer). -/
theorem tstAlloc_right_iff (page size : Nat) (hpage : 0 < page) (heven : 2 ∣ page) :
    AllocRight page size ↔ pagesNeeded page size % 2 ^ 32 = 0 ∨
      pagesNeeded page size < 2 ^ 32 ∧ 2 ∣ size := by
  refine ⟨AllocRight.cond hpage heven, ?_⟩
  intro h random ret heap map guard buf heap' hrun
  rw [tstAlloc] at hrun
  split at hrun
  · cases hrun
  rename_i hne
  obtain ⟨hlt, -⟩ := h.resolve_left fun h0 => hne (by rw [h0]; rfl)
  cases hrun
  have hsum := bufShift_add_size hpage size
  have hpar : 2 ∣ bufShift page size + size := hsum ▸ Nat.dvd_mul_left_of_dvd heven _
  have hpos : 0 < pagesNeeded page size := Nat.succ_pos _
  have hlast : (pagesNeeded page size - 1) * page + page = pagesNeeded page size * page := by
    rw [← Nat.succ_mul, Nat.succ_eq_add_one, Nat.sub_add_cancel hpos]
  rw [Nat.mod_eq_of_lt hlt]
  dsimp only
  refine ⟨⟨by omega, by omega⟩, fun k hk later hmem hlater hnil => ?_⟩
  have hmid : 2 * k + 1 ≠ bufShift page size := by omega
  refine checkCanary_ne_nil hk hmid (setupCanary_mirrored _ _ _ _ (Nat.le_refl _)) hlater ?_
  exact flatMap_eq_nil_iff.1 hnil _ hmem

/-- One byte: the one in the middle of the 4095 bytes before it may change. -/
theorem tstAlloc_one_byte : ¬ AllocRight 4096 1 := by
  intro h
  have hcond := h.cond (by decide) (by decide)
  revert hcond
  decide

theorem tstAlloc_right_two : AllocRight 4096 2 :=
  (tstAlloc_right_iff 4096 2 (by decide) (by decide)).2 (.inr ⟨by decide, by decide⟩)

end LtpDdt.TstTest
