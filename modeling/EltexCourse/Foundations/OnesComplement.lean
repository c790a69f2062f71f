import Mathlib.Data.Nat.ModEq
import Mathlib.Algebra.BigOperators.Group.List.Basic

/-!
# One's-complement sums

Numbers below a base `m` are added with the carry brought around to the low
end. A plain sum gives the same once its high digits have been folded onto the
low one often enough. Zero has two forms, 0 and `m - 1`, and only the empty sum
of nothing but zeros is 0.
-/

set_option autoImplicit false

namespace EltexCourse.Foundations.OnesComplement

/-- The carry is added at the low end. -/
def add (m a b : Nat) : Nat := if a + b < m then a + b else a + b - m + 1

def sum (m : Nat) (words : List Nat) : Nat := words.foldl (add m) 0

/-- What is above the low digit is added to it. -/
def carry (m s : Nat) : Nat := s / m + s % m

/-- `r` is what is left of `s` when nothing more can be folded. -/
structure Folded (m s r : Nat) : Prop where
  below : r < m
  congr : r ≡ s [MOD m - 1]
  zero : r = 0 ↔ s = 0

variable {m s r a b : Nat}

theorem folded_self (below : s < m) : Folded m s s := ⟨below, Nat.ModEq.refl s, Iff.rfl⟩

/-- A sum has one value with the carry added back: 0 and the modulus less one, though
congruent, belong to different sums. -/
theorem Folded.unique (one : Folded m s a) (other : Folded m s b) : a = b := by
  have congr : a ≡ b [MOD m - 1] := one.congr.trans other.congr.symm
  have zero : a = 0 ↔ b = 0 := one.zero.trans other.zero.symm
  have low := one.below
  have low' := other.below
  by_cases isZero : a = 0
  · rw [isZero, zero.mp isZero]
  · have notZero : b ≠ 0 := mt zero.mpr isZero
    have shifted : a - 1 ≡ b - 1 [MOD m - 1] := by
      refine Nat.ModEq.add_right_cancel' 1 ?_
      rwa [Nat.sub_add_cancel (Nat.pos_of_ne_zero isZero),
        Nat.sub_add_cancel (Nat.pos_of_ne_zero notZero)]
    have same := Nat.ModEq.eq_of_lt_of_lt shifted (by omega) (by omega)
    omega

theorem modEq_carry (positive : 0 < m) (s : Nat) : carry m s ≡ s [MOD m - 1] := by
  have whole := Nat.div_add_mod s m
  have around : m * (s / m) ≡ s / m [MOD m - 1] := by
    have base : m ≡ 1 [MOD m - 1] := (Nat.modEq_iff_dvd' positive).mpr (dvd_refl _) |>.symm
    simpa using base.mul_right (s / m)
  have sum := around.symm.add_right (s % m)
  rwa [whole] at sum

/-- Folding once does not change what is left in the end. -/
theorem Folded.of_carry (positive : 0 < m) (folded : Folded m (carry m s) r) : Folded m s r := by
  refine ⟨folded.below, folded.congr.trans (modEq_carry positive s), folded.zero.trans ?_⟩
  constructor
  · intro nothing
    obtain ⟨high, low⟩ := Nat.add_eq_zero_iff.mp nothing
    rw [← Nat.div_add_mod s m, high, low, Nat.mul_zero]
  · rintro rfl
    rw [carry, Nat.zero_div, Nat.zero_mod]

/-- However often. -/
theorem Folded.of_carries (positive : 0 < m) (times : Nat)
    (folded : Folded m ((carry m)^[times] s) r) : Folded m s r := by
  induction times generalizing s with
  | zero => exact folded
  | succ times ih =>
    rw [Function.iterate_succ_apply] at folded
    exact (ih folded).of_carry positive

/-- Two digits of which the high one is at most 1, as the sum of two words. -/
theorem carry_two (small : s < 2 * m) : carry m s = if s < m then s else s - m + 1 := by
  unfold carry
  split
  next below => rw [Nat.div_eq_of_lt below, Nat.mod_eq_of_lt below, Nat.zero_add]
  next above =>
    have high : s / m = 1 := by
      rw [Nat.div_eq_of_lt_le] <;> omega
    rw [high, Nat.mod_eq_sub_mod (by omega), Nat.mod_eq_of_lt (by omega), Nat.add_comm]

theorem add_eq_carry (left : a < m) (right : b < m) : add m a b = carry m (a + b) := by
  rw [carry_two (by omega), add]

theorem folded_add (left : a < m) (right : b < m) : Folded m (a + b) (add m a b) := by
  rw [add_eq_carry left right]
  refine Folded.of_carry (by omega) (folded_self ?_)
  rw [carry_two (by omega)]
  split <;> omega

/-- Words may be added to the plain sum or to what is left of it. -/
theorem Folded.add (folded : Folded m s r) (word : b < m) :
    Folded m (s + b) (OnesComplement.add m r b) := by
  have once := folded_add folded.below word
  refine ⟨once.below, once.congr.trans (folded.congr.add_right b), once.zero.trans ?_⟩
  rw [Nat.add_eq_zero_iff, Nat.add_eq_zero_iff, folded.zero]

theorem folded_foldl {words : List Nat} (folded : Folded m s r) (all : ∀ w ∈ words, w < m) :
    Folded m (s + words.sum) (words.foldl (OnesComplement.add m) r) := by
  induction words generalizing s r with
  | nil => exact folded
  | cons w words ih =>
    obtain ⟨first, later⟩ := List.forall_mem_cons.mp all
    rw [List.sum_cons, List.foldl_cons, ← Nat.add_assoc]
    exact ih (folded.add first) later

/-- The one's-complement sum is the plain sum, folded. -/
theorem folded_sum {words : List Nat} (positive : 0 < m) (all : ∀ w ∈ words, w < m) :
    Folded m words.sum (sum m words) := by
  have whole := folded_foldl (folded_self positive) all
  rwa [Nat.zero_add] at whole

/-- Two folds are enough, the second of which may leave its carry in the high digit. -/
theorem folded_twice (small : s / m + 1 < m) :
    Folded m s ((carry m s + carry m s / m) % m) := by
  have positive : 0 < m := Nat.zero_lt_of_lt small
  have low := Nat.mod_lt s positive
  have bound : carry m s + 2 ≤ 2 * m := by
    unfold carry
    omega
  refine Folded.of_carry positive (Folded.of_carry positive ?_)
  rw [carry_two (s := carry m s) (by omega)]
  generalize carry m s = t at bound
  split
  next below =>
    rw [Nat.div_eq_of_lt below, Nat.add_zero, Nat.mod_eq_of_lt below]
    exact folded_self below
  next above =>
    have high : t / m = 1 := by
      rw [Nat.div_eq_of_lt_le] <;> omega
    rw [high, Nat.mod_eq_sub_mod (by omega), Nat.mod_eq_of_lt (by omega)]
    have same : t + 1 - m = t - m + 1 := by omega
    rw [same]
    exact folded_self (by omega)

/-- A sum and its complement give the other zero. -/
theorem Folded.complement (large : 1 < m) (folded : Folded m s r) :
    Folded m (s + (m - 1 - r)) (m - 1) := by
  have low := folded.below
  refine ⟨by omega, ?_, ?_⟩
  · have around := folded.congr.add_right (m - 1 - r)
    rwa [Nat.add_sub_of_le (by omega)] at around
  · refine iff_of_false (by omega) fun nothing => ?_
    obtain ⟨noSum, noRest⟩ := Nat.add_eq_zero_iff.mp nothing
    have zero := folded.zero.mpr noSum
    omega

end EltexCourse.Foundations.OnesComplement
