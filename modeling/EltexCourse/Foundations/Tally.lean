import Mathlib.Algebra.Order.BigOperators.Group.Finset
import Mathlib.Algebra.Order.Ring.Int
import Mathlib.Data.Fintype.BigOperators

/-!
# Acknowledgement flags and their sum

An array of flags that are 0 or 1, and the list of positions that are expected
to be set. When no other position is set and the list names no position twice,
the sum of the array reaches the length of the list exactly when all are set.
-/

set_option autoImplicit false

namespace EltexCourse.Foundations.Tally

variable {ι : Type*} {flags flags' : ι → Int} {expected expected' : List ι} {i : ι}

/-- Flags are 0 or 1, and only expected ones are set. -/
structure Within (flags : ι → Int) (expected : List ι) : Prop where
  binary : ∀ i, flags i = 0 ∨ flags i = 1
  covered : ∀ i, flags i = 1 → i ∈ expected

theorem within_clear (clear : ∀ i, flags i = 0) : Within flags expected :=
  ⟨fun i => .inl (clear i), fun i set => by simp [clear i] at set⟩

/-- The expected positions may change where no flag is set. -/
theorem Within.shift (within : Within flags expected)
    (kept : ∀ i ∈ expected, flags i = 1 → i ∈ expected') : Within flags expected' :=
  ⟨within.binary, fun i set => kept i (within.covered i set) set⟩

theorem Within.set [DecidableEq ι] (within : Within flags expected) (due : i ∈ expected) :
    Within (Function.update flags i 1) expected := by
  refine ⟨fun j => ?_, fun j set => ?_⟩
  · by_cases own : j = i
    · simp [own]
    · simpa [own] using within.binary j
  · by_cases own : j = i
    · exact own ▸ due
    · rw [Function.update_of_ne own] at set
      exact within.covered j set

/-- The sum tells whether all expected flags are set. -/
theorem Within.sum_eq_length_iff [Fintype ι] [DecidableEq ι] (within : Within flags expected)
    (distinct : expected.Nodup) :
    ∑ i, flags i = expected.length ↔ ∀ i ∈ expected, flags i = 1 := by
  have others : ∑ i, flags i = ∑ i ∈ expected.toFinset, flags i := by
    refine (Finset.sum_subset (Finset.subset_univ _) fun i _ outside => ?_).symm
    rcases within.binary i with zero | one
    · exact zero
    · exact absurd (List.mem_toFinset.mpr (within.covered i one)) outside
  have length : (expected.length : Int) = ∑ _i ∈ expected.toFinset, (1 : Int) := by
    simp [List.toFinset_card_of_nodup distinct]
  have bounded : ∀ i ∈ expected.toFinset, flags i ≤ 1 := by
    intro i _
    rcases within.binary i with zero | one
    · rw [zero]
      decide
    · rw [one]
  rw [others, length, Finset.sum_eq_sum_iff_of_le bounded]
  simp

end EltexCourse.Foundations.Tally
