import EltexCourse.Foundations.BinaryText
import EltexCourse.Source.Binary.PrintNum

/-!
# task1: the array that is printed

The halvings of a positive number are as many as it has bits, so the array has a
place for each digit, and the shifts fill it from its end to its beginning. No
place is left for a terminator: the array is a numeral, and never a C string.
-/

set_option autoImplicit false

namespace EltexCourse.Guarantees.Binary.PrintNum
open Foundations.CString Foundations.CBuffer Foundations.Cells Foundations.Looping
  Foundations.BinaryText Source.Binary

/-- A numeral in base 2 without a zero in front. -/
structure Numeral (num : Int) (text : Text) : Prop where
  digits : ∀ c ∈ text, c = '0' ∨ c = '1'
  leading : text.head? ≠ some '0'
  value : (value text : Int) = num

/-- The array holds a C string, which is the numeral of `num`. -/
def PrintsNumeral (num : BitVec 32) : Prop :=
  ∃ line text, PositiveNum.Main num (.line line) ∧ stringIn line = some text ∧
    Numeral num.toInt text

variable {num : BitVec 32} {free size count i : Nat}

theorem bitChar_digit (num : BitVec 32) (inside : i < 32) :
    bitChar num i = some (digit num.toNat i) := by
  have low : (num.sshiftRight i &&& 0x1).toNat = (num.sshiftRight i).toNat % 2 := by
    rw [BitVec.toNat_and]
    exact Nat.and_one_is_mod _
  have bit : (num.sshiftRight i).toNat.testBit 0 = num.toNat.testBit i := by
    rw [BitVec.testBit_toNat, BitVec.testBit_toNat, BitVec.getLsbD_sshiftRight, Nat.add_zero,
      if_pos inside]
    rfl
  rw [Nat.testBit_zero] at bit
  rw [bitChar, if_pos inside, low, digit, ← bit]
  rcases Nat.mod_two_eq_zero_or_one (num.sshiftRight i).toNat with zero | one
  · rw [zero]
    rfl
  · rw [one]
    rfl

/-- The digit goes to the last place that is free. -/
theorem fillTurn_digit (num : BitVec 32) (inside : count < 32) (line : Block Char) :
    fillTurn num (free + 1 + count) (malloc (free + 1) ++ line) count =
      some (malloc free ++ some (digit num.toNat count) :: line) := by
  have last : (malloc (free + 1) : Block Char) = malloc free ++ [none] := List.replicate_succ'
  have place : ((free + 1 + count : Nat) : Int) - 1 - count =
    (malloc free : Block Char).length := by
    rw [malloc_length]
    omega
  rw [fillTurn, bitChar_digit num inside, Option.bind_eq_bind, Option.bind_some, place, last,
    List.append_assoc]
  exact write_at (malloc free) line none (digit num.toNat count)

theorem fill_turns (num : BitVec 32) (free : Nat) (fits : free + count ≤ 32) :
    (List.range count).foldlM (fillTurn num (free + count)) (malloc (free + count)) =
      some (malloc free ++ (digits num.toNat count).map some) := by
  induction count generalizing free with
  | zero =>
    rw [digits, List.map_nil, List.append_nil]
    rfl
  | succ count ih =>
    have size : free + (count + 1) = free + 1 + count := by omega
    rw [size] at fits ⊢
    rw [List.range_succ, List.foldlM_append, ih (free + 1) fits, Option.bind_eq_bind,
      Option.bind_some,
      List.foldlM_cons, fillTurn_digit num (by omega)]
    rfl

/-- Every store is in the array, and every place of it has been stored to. -/
theorem fillLine_digits (num : BitVec 32) (fits : size ≤ 32) :
    fillLine num size = some ((digits num.toNat size).map some) := by
  have turns := fill_turns num 0 (by omega : 0 + size ≤ 32)
  rw [Nat.zero_add] at turns
  exact turns

theorem nul_notMem_digits (n count : Nat) : nul ∉ digits n count := by
  intro inside
  rcases mem_digits inside with same | same <;> exact absurd same (by decide)

theorem unterminated (n count : Nat) : stringIn ((digits n count).map some) = none :=
  stringIn_unterminated (nul_notMem_digits n count)

theorem toNat_half (small : num.toNat < 2 ^ 31) : (num.sdiv 2).toNat = num.toNat / 2 := by
  have positive : num.msb = false := by
    rw [BitVec.msb_eq_false_iff_two_mul_lt]
    omega
  rw [BitVec.sdiv_eq, positive]
  exact BitVec.toNat_udiv

/-- The loop ends, and has counted the bits. -/
theorem sizing_ends (small : num.toNat < 2 ^ 31) (size : Nat) {result : Nat} :
    Ends PositiveNum.sizeTurn { i := num, size } result ↔ result = size + num.toNat.size := by
  induction bits : num.toNat.size generalizing num size with
  | zero =>
    have zero : num = 0 := BitVec.eq_of_toNat_eq (Nat.size_eq_zero.mp bits)
    rw [zero]
    exact ends_stop rfl
  | succ count ih =>
    have positive : 0 < num.toNat := Nat.size_pos.mp (by omega)
    have nonzero : num ≠ 0 := by
      rintro rfl
      exact absurd positive (by decide)
    have half := toNat_half small
    have fewer : (num.sdiv 2).toNat.size = count := by
      rw [size_half positive] at bits
      rw [half]
      exact Nat.succ.inj bits
    have next : PositiveNum.sizeTurn { i := num, size } =
        some (.next { i := num.sdiv 2, size := size + 1 }) := if_pos nonzero
    rw [ends_next next, ih (by omega) (size + 1) fewer, Nat.add_assoc, Nat.add_comm 1]

theorem numeral_digits {n : Nat} (positive : 0 < n) : Numeral n (digits n n.size) := by
  refine ⟨fun c => mem_digits, ?_, ?_⟩
  · rw [head_digits_size positive]
    decide
  · rw [value_digits_size]

theorem toInt_positive (positive : 1 ≤ num.toInt) :
    num.toInt = num.toNat ∧ 0 < num.toNat ∧ num.toNat < 2 ^ 31 := by
  have word := num.isLt
  rw [BitVec.toInt_eq_toNat_cond] at positive ⊢
  split at positive
  · next small =>
    rw [if_pos small]
    omega
  · omega

/-- The array of a positive number is its numeral. -/
theorem main_positive (positive : 1 ≤ num.toInt) (printed : Printed) :
    PositiveNum.Main num printed ↔
      printed = .line ((digits num.toNat num.toNat.size).map some) := by
  obtain ⟨-, -, small⟩ := toInt_positive positive
  have fills := fillLine_digits num (Nat.le_trans (Nat.size_le.mpr small) (by decide))
  rw [PositiveNum.Main, if_neg (by omega), if_neg (by omega)]
  constructor
  · rintro ⟨size, line, ends, filled, shown⟩
    rw [sizing_ends small, Nat.zero_add] at ends
    rw [ends, fills] at filled
    rw [shown, Option.some.inj filled]
  · intro shown
    exact ⟨_, _, (sizing_ends small 0).mpr (Nat.zero_add _).symm, fills, shown⟩

/-- The block has room for the digits and none for a terminator, so no numeral is
printed for any positive number. -/
theorem no_numeral (positive : 1 ≤ num.toInt) : ¬ PrintsNumeral num := by
  rintro ⟨line, text, shown, inLine, -⟩
  obtain rfl := Printed.line.inj ((main_positive positive _).mp shown)
  rw [unterminated] at inLine
  cases inLine

/-- What goes to `printf` is the numeral of the number, every place of the array
being one of its digits; so it is a C string for no number. -/
theorem print_positive_num_unterminated (num : BitVec 32) (positive : 1 ≤ num.toInt) :
    (∃ text, Numeral num.toInt text ∧
      ∀ printed, PositiveNum.Main num printed ↔ printed = .line (text.map some)) ∧
      ¬ PrintsNumeral num := by
  obtain ⟨value, some, -⟩ := toInt_positive positive
  refine ⟨⟨digits num.toNat num.toNat.size, ?_, main_positive positive⟩, no_numeral positive⟩
  rw [value]
  exact numeral_digits some

/-- A power of two. -/
theorem print_positive_num_unterminated_eight :
    (∃ text, Numeral (8 : BitVec 32).toInt text ∧
      ∀ printed, PositiveNum.Main 8 printed ↔ printed = .line (text.map some)) ∧
      ¬ PrintsNumeral 8 :=
  print_positive_num_unterminated 8 (by decide)

/-- The array of 5 has three places, for "101". -/
theorem print_positive_num_five :
    PositiveNum.Main 5 (.line [some '1', some '0', some '1']) ∧
      stringIn [some '1', some '0', some '1'] = none ∧ ¬ PrintsNumeral 5 := by
  refine ⟨(main_positive (by decide) _).mpr ?_, rfl, no_numeral (by decide)⟩
  decide

/-- All 32 bits of a negative number, and no terminator either. -/
theorem negative_line (negative : num.toInt < 0) :
    ∃ text : Text, NegativeNum.main num = some (.line (text.map some)) ∧ text.length = 32 ∧
      (∀ c ∈ text, c = '0' ∨ c = '1') ∧ (value text : Int) = num.toInt + 2 ^ 32 ∧
      stringIn (text.map some) = none := by
  refine ⟨digits num.toNat 32, ?_, length_digits _ _, fun c => mem_digits, ?_, unterminated _ _⟩
  · rw [NegativeNum.main, if_neg (by omega), if_neg (by omega),
      fillLine_digits num (Nat.le_refl 32)]
    rfl
  · rw [value_digits, Nat.mod_eq_of_lt num.isLt]
    have word := num.isLt
    rw [BitVec.toInt_eq_toNat_cond] at negative ⊢
    split at negative
    · omega
    · next large =>
      rw [if_neg large]
      omega

end EltexCourse.Guarantees.Binary.PrintNum
