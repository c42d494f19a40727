/-
Memutils.Mapping — `tst_mapping_in_range` of `lib/tst_memutils.c`.

`/proc/self/maps` is the list of its mappings. The end of the file is seen with the white
space behind the last line; a file without lines is not parsed.
-/
import Mathlib.Data.BitVec

namespace LtpDdt.Memutils

structure Mapping where
  start : Nat
  stop : Nat
  start_lt : start < stop

variable {low high : Nat} {maps : List Mapping} {m : Mapping}

def Mapping.Overlaps (m : Mapping) (low high : Nat) : Prop :=
  ∃ a, (m.start ≤ a ∧ a < m.stop) ∧ low ≤ a ∧ a < high

/-- `none` is the `tst_brk` for a line that cannot be parsed. -/
def tstMappingInRange (low high : Nat) : List Mapping → Option Int
  | [] => none
  | m :: maps =>
    if m.start ≥ low ∧ m.start < high then some 1
    else if m.stop ≥ low ∧ m.stop < high then some 1
    else if maps = [] then some 0
    else tstMappingInRange low high maps

lemma Mapping.overlaps_iff (h : low < high) :
    m.Overlaps low high ↔ m.start < high ∧ low < m.stop := by
  have hm := m.start_lt
  constructor
  · rintro ⟨a, _, _⟩
    omega
  · intro _
    exact ⟨max m.start low, by omega, by omega⟩

lemma tstMappingInRange_eq_one : tstMappingInRange low high maps = some 1 ↔
    ∃ m ∈ maps, (low ≤ m.start ∧ m.start < high) ∨ (low ≤ m.stop ∧ m.stop < high) := by
  induction maps with
  | nil => simp [tstMappingInRange]
  | cons m maps ih =>
    simp only [List.mem_cons, exists_eq_or_imp, ← ih, tstMappingInRange]
    split
    · simp [*]
    split
    · simp [*]
    split
    · simp [*, tstMappingInRange]
    · simp [*]

/-- **The function is right** unless a mapping reaches from below the range to its end or further,
or one that ends where the range begins is taken for one inside of it. -/
theorem tstMappingInRange_right_iff (hrange : low < high)
    (hdisj : ∀ m ∈ maps, ∀ m' ∈ maps, m ≠ m' → ¬ m.Overlaps m'.start m'.stop) :
    (tstMappingInRange low high maps = some 1 ↔ ∃ m ∈ maps, m.Overlaps low high) ↔
      (∀ m ∈ maps, m.start < low → m.stop < high) ∧
        ((∃ m ∈ maps, m.stop = low) → ∃ m ∈ maps, m.Overlaps low high) := by
  rw [tstMappingInRange_eq_one]
  constructor
  · intro hright
    refine ⟨fun m hm hlow => ?_, fun ⟨m, hm, hstop⟩ => ?_⟩
    · -- nothing else is in the range of a mapping that covers it
      by_contra hhigh
      obtain ⟨m', hm', _⟩ := hright.2 ⟨m, hm, (m.overlaps_iff hrange).2 (by omega)⟩
      have hne : m ≠ m' := by
        rintro rfl
        omega
      have hover := hdisj m hm m' hm' hne
      rw [m.overlaps_iff m'.start_lt] at hover
      have := m'.start_lt
      omega
    · have := m.start_lt
      exact hright.1 ⟨m, hm, .inr (by omega)⟩
  · rintro ⟨hspan, htouch⟩
    constructor
    · rintro ⟨m, hm, _⟩
      by_cases hstop : m.stop = low
      · exact htouch ⟨m, hm, hstop⟩
      · have := m.start_lt
        exact ⟨m, hm, (m.overlaps_iff hrange).2 (by omega)⟩
    · rintro ⟨m, hm, hover⟩
      have := (m.overlaps_iff hrange).1 hover
      have := hspan m hm
      exact ⟨m, hm, by omega⟩

/-- Mappings before the range, in it and behind it. -/
theorem tstMappingInRange_right_inside :
    tstMappingInRange 2 6 [⟨0, 1, by decide⟩, ⟨3, 4, by decide⟩, ⟨7, 9, by decide⟩] = some 1 := by
  have hdisj : ∀ m ∈ [⟨0, 1, by decide⟩, ⟨3, 4, by decide⟩, ⟨7, 9, by decide⟩],
      ∀ m' ∈ [⟨0, 1, by decide⟩, ⟨3, 4, by decide⟩, ⟨7, 9, by decide⟩],
      m ≠ m' → ¬ Mapping.Overlaps m m'.start m'.stop := by
    simp [Mapping.overlaps_iff]
  exact ((tstMappingInRange_right_iff (by decide) hdisj).2 ⟨by simp, by simp⟩).2
    ⟨⟨3, 4, by decide⟩, by simp, 3, by decide, by decide⟩

/-- A mapping around the range, and one before it. -/
theorem tstMappingInRange_around : tstMappingInRange 1 2 [⟨0, 3, by decide⟩] = some 0 ∧
      tstMappingInRange 1 2 [⟨0, 1, by decide⟩] = some 1 :=
  ⟨rfl, rfl⟩

end LtpDdt.Memutils
