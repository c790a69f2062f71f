import Mathlib.Data.Nat.Size
import Mathlib.Tactic.Ring
import EltexCourse.Foundations.CString

/-!
# Binary text

The digits of a number in base 2, the high one first. As many digits as the
number has bits begin with a one, and any number of them has the value of the
low bits that they are for.
-/

set_option autoImplicit false

namespace EltexCourse.Foundations.BinaryText
open CString

def digit (n i : Nat) : Char := if n.testBit i then '1' else '0'

/-- So many of the low digits. -/
def digits (n : Nat) : Nat → Text
  | 0 => []
  | count + 1 => digit n count :: digits n count

def value (text : Text) : Nat := Nat.ofDigitChars 2 text 0

variable {n count : Nat} {c : Char}

theorem digit_cases (n i : Nat) : digit n i = '0' ∨ digit n i = '1' := by
  unfold digit
  split
  · exact Or.inr rfl
  · exact Or.inl rfl

theorem length_digits (n count : Nat) : (digits n count).length = count := by
  induction count with
  | zero => rfl
  | succ count ih => rw [digits, List.length_cons, ih]

theorem mem_digits (member : c ∈ digits n count) : c = '0' ∨ c = '1' := by
  induction count with
  | zero => cases member
  | succ count ih =>
    rcases List.mem_cons.mp member with rfl | later
    · exact digit_cases n count
    · exact ih later

theorem digit_value (n i : Nat) : (digit n i).toNat - '0'.toNat = n / 2 ^ i % 2 := by
  unfold digit
  rw [Nat.testBit_eq_decide_div_mod_eq]
  rcases Nat.mod_two_eq_zero_or_one (n / 2 ^ i) with zero | one
  · rw [zero]
    rfl
  · rw [one]
    rfl

/-- Reading the lowest digits back gives the number modulo the power of two they reach,
behind whatever was read before. -/
theorem ofDigitChars_digits (n count init : Nat) :
    Nat.ofDigitChars 2 (digits n count) init = 2 ^ count * init + n % 2 ^ count := by
  induction count generalizing init with
  | zero => rw [digits, Nat.ofDigitChars_nil, Nat.pow_zero, Nat.mod_one, Nat.one_mul, Nat.add_zero]
  | succ count ih =>
    rw [digits, Nat.ofDigitChars_cons, digit_value, ih, Nat.mod_pow_succ]
    ring

/-- The digits have the value of the low bits. -/
theorem value_digits (n count : Nat) : value (digits n count) = n % 2 ^ count := by
  rw [value, ofDigitChars_digits, Nat.mul_zero, Nat.zero_add]

theorem size_half (positive : 0 < n) : n.size = (n / 2).size + 1 := by
  have same (count : Nat) : n.size ≤ count + 1 ↔ (n / 2).size ≤ count := by
    rw [Nat.size_le, Nat.size_le, Nat.pow_succ]
    omega
  have nonempty := Nat.size_pos.mpr positive
  have atMost := (same (n / 2).size).mpr (Nat.le_refl _)
  have atLeast := (same (n.size - 1)).mp (by omega)
  omega

/-- With as many digits as the number has, all of it comes back. -/
theorem value_digits_size (n : Nat) : value (digits n n.size) = n := by
  rw [value_digits, Nat.mod_eq_of_lt n.lt_size_self]

/-- No zero is in front. -/
theorem head_digits_size (positive : 0 < n) : (digits n n.size).head? = some '1' := by
  obtain ⟨high, bits⟩ := Nat.exists_eq_succ_of_ne_zero (Nat.size_pos.mpr positive).ne'
  have least := Nat.lt_size.mp (Nat.lt_of_lt_of_eq (Nat.lt_succ_self high) bits.symm)
  have most := n.lt_size_self
  rw [bits] at most
  have one := Nat.testBit_of_two_pow_le_and_two_pow_add_one_gt least most
  rw [bits, digits, List.head?_cons, digit, if_pos one]

end EltexCourse.Foundations.BinaryText
