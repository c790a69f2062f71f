import Mathlib.Tactic.Ring
import EltexCourse.Foundations.CString

/-!
# Decimal text: `printf "%d"` and `atoi`

`atoi` is `(int) strtol(s, NULL, 10)`: leading white space, an optional sign
and the longest run of digits are read, an empty run reads as zero, `strtol`
saturates at the bounds of `long`, and the conversion to `int` keeps the low 32
bits. The two functions are inverse on every value of type `int`.
-/

set_option autoImplicit false

namespace EltexCourse.Foundations.Decimal
open CString

def printInt : Int → Text
  | .ofNat n => Nat.toDigits 10 n
  | .negSucc n => '-' :: Nat.toDigits 10 (n + 1)

/-- `isspace` in the C locale. -/
def isSpace (c : Char) : Bool :=
  c = ' ' || c = '\t' || c = '\n' || c = '\x0b' || c = '\x0c' || c = '\r'

def digitsValue (s : Text) : Nat := Nat.ofDigitChars 10 (s.takeWhile Char.isDigit) 0

/-- The number `strtol` reads, before it saturates. -/
def decimalValue (s : Text) : Int :=
  match s.dropWhile isSpace with
  | '-' :: digits => -(digitsValue digits : Int)
  | '+' :: digits => digitsValue digits
  | digits => digitsValue digits

def strtol (s : Text) : Int := max (-2 ^ 63) (min (2 ^ 63 - 1) (decimalValue s))

def atoi (s : Text) : Int := (strtol s).bmod (2 ^ 32)

/-- The values of the 32-bit type `int`. -/
def IsInt (n : Int) : Prop := -2 ^ 31 ≤ n ∧ n < 2 ^ 31

instance (n : Int) : Decidable (IsInt n) := inferInstanceAs (Decidable (_ ∧ _))

/-- A computed value of type `int`; beyond the range of the type it is not defined. -/
def int (n : Int) : Option Int := if IsInt n then some n else none

/-- An int operation gives its result exactly when that is an int. -/
theorem int_eq_some {n r : Int} : int n = some r ↔ r = n ∧ IsInt n := by
  unfold int
  split
  · next fits => simp [fits, eq_comm]
  · next overflow => simp [overflow]

theorem int_of_isInt {n : Int} (fits : IsInt n) : int n = some n := if_pos fits

/-- The low 32 bits of a number, as an `int`. -/
def asInt (n : Int) : Int := n.bmod (2 ^ 32)

/-- A conversion to int leaves an int as it is. -/
theorem asInt_eq {n : Int} (fits : IsInt n) : asInt n = n :=
  Int.bmod_eq_of_le (by unfold IsInt at fits; omega) (by unfold IsInt at fits; omega)

theorem asInt_isInt (n : Int) : IsInt (asInt n) := by
  have low := Int.le_bmod (x := n) (m := 2 ^ 32) (by decide)
  have high := Int.bmod_lt (x := n) (m := 2 ^ 32) (by decide)
  unfold IsInt asInt
  omega

theorem atoi_isInt (s : Text) : IsInt (atoi s) := by
  have low := Int.le_bmod (x := strtol s) (m := 2 ^ 32) (by decide)
  have high := Int.bmod_lt (x := strtol s) (m := 2 ^ 32) (by decide)
  unfold IsInt atoi
  omega

/-- Where the number written is an int, it gives that number. -/
theorem atoi_of_isInt {s : Text} (fits : IsInt (decimalValue s)) : atoi s = decimalValue s := by
  unfold IsInt at fits
  have unsaturated : strtol s = decimalValue s := by
    unfold strtol
    omega
  rw [atoi, unsaturated]
  apply Int.bmod_eq_of_le <;> omega

theorem isDigit_of_mem_toDigits {n : Nat} {c : Char} (member : c ∈ Nat.toDigits 10 n) :
    c.isDigit = true :=
  Nat.isDigit_of_mem_toDigits (by decide) (by decide) member

theorem digitsValue_toDigits (n : Nat) : digitsValue (Nat.toDigits 10 n) = n := by
  have all : (Nat.toDigits 10 n).takeWhile Char.isDigit = Nat.toDigits 10 n :=
    List.takeWhile_eq_self_iff.mpr fun c member => isDigit_of_mem_toDigits member
  rw [digitsValue, all, Nat.ofDigitChars_ten_toDigits]

theorem not_isSpace_of_isDigit {c : Char} (digit : c.isDigit = true) : isSpace c = false := by
  by_contra space
  simp only [isSpace, Bool.or_eq_true, decide_eq_true_eq, Bool.not_eq_false] at space
  rcases space with ((((rfl | rfl) | rfl) | rfl) | rfl) | rfl <;> revert digit <;> decide

theorem decimalValue_toDigits (n : Nat) : decimalValue (Nat.toDigits 10 n) = n := by
  have value := digitsValue_toDigits n
  cases digits : Nat.toDigits 10 n with
  | nil => exact absurd digits Nat.toDigits_ne_nil
  | cons c cs =>
    have digit : c.isDigit = true := isDigit_of_mem_toDigits (n := n) (by simp [digits])
    have start : (c :: cs).dropWhile isSpace = c :: cs := by
      simp [not_isSpace_of_isDigit digit]
    rw [digits] at value
    unfold decimalValue
    rw [start]
    split
    next minus =>
      obtain ⟨rfl, -⟩ := List.cons.inj minus
      exact absurd digit (by decide)
    next plus =>
      obtain ⟨rfl, -⟩ := List.cons.inj plus
      exact absurd digit (by decide)
    next => rw [value]

/-- What "%d" prints has the value printed, sign included. -/
theorem decimalValue_printInt (n : Int) : decimalValue (printInt n) = n := by
  cases n with
  | ofNat n => exact decimalValue_toDigits n
  | negSucc n =>
    have minus : isSpace '-' = false := by decide
    simp only [printInt, decimalValue, List.dropWhile_cons, minus]
    rw [if_neg (by simp)]
    simp only [digitsValue_toDigits]
    omega

/-- Printing an `int` and reading it back gives the same `int`. -/
theorem atoi_printInt {n : Int} (fits : IsInt n) : atoi (printInt n) = n := by
  rw [atoi_of_isInt (by rwa [decimalValue_printInt]), decimalValue_printInt]

theorem printInt_ne_nil (n : Int) : printInt n ≠ [] := by
  cases n <;> simp [printInt]

/-- Every character printed is a digit or the sign. -/
theorem printInt_char {n : Int} {c : Char} (member : c ∈ printInt n) :
    c = '-' ∨ c.isDigit = true := by
  cases n with
  | ofNat n => exact Or.inr (isDigit_of_mem_toDigits member)
  | negSucc n =>
    rcases List.mem_cons.mp member with minus | digit
    · exact Or.inl minus
    · exact Or.inr (isDigit_of_mem_toDigits digit)

/-- A printed number contains none of the separators the programs use. -/
theorem printInt_outside {n : Int} {delims : Text}
    (separators : delims.all (fun d => d != '-' && !d.isDigit) = true) :
    ∀ c ∈ printInt n, c ∉ delims := by
  intro c member delim
  have separator := List.all_eq_true.mp separators c delim
  obtain ⟨notMinus, notDigit⟩ : c ≠ '-' ∧ c.isDigit = false := by simpa using separator
  rcases printInt_char member with minus | digit
  · exact notMinus minus
  · simp [digit] at notDigit

theorem ofDigitChars_lt {digits : Text} (all : ∀ c ∈ digits, c.isDigit = true) (init : Nat) :
    Nat.ofDigitChars 10 digits init < (init + 1) * 10 ^ digits.length := by
  induction digits generalizing init with
  | nil => simp
  | cons c cs ih =>
    have digit : c.toNat - '0'.toNat < 10 := by
      have range := all c (by simp)
      simp only [Char.isDigit, Bool.and_eq_true, decide_eq_true_eq] at range
      have high : c.toNat ≤ '9'.toNat := range.2
      have zero : '0'.toNat = 48 := rfl
      have nine : '9'.toNat = 57 := rfl
      omega
    rw [Nat.ofDigitChars_cons]
    calc Nat.ofDigitChars 10 cs (10 * init + (c.toNat - '0'.toNat))
        < (10 * init + (c.toNat - '0'.toNat) + 1) * 10 ^ cs.length :=
          ih (fun d member => all d (by simp [member])) _
      _ ≤ (10 * (init + 1)) * 10 ^ cs.length := Nat.mul_le_mul_right _ (by omega)
      _ = (init + 1) * 10 ^ (c :: cs).length := by
          rw [List.length_cons, Nat.pow_succ]
          ring

/-- So many digits have a value below that power of ten. -/
theorem digitsValue_lt (s : Text) : digitsValue s < 10 ^ s.length := by
  have run := @ofDigitChars_lt (s.takeWhile Char.isDigit)
    (fun c member => List.mem_takeWhile_imp member) 0
  have shorter := (List.takeWhile_prefix (l := s) Char.isDigit).length_le
  calc digitsValue s < (0 + 1) * 10 ^ (s.takeWhile Char.isDigit).length := run
    _ ≤ 10 ^ s.length := by
      rw [Nat.zero_add, Nat.one_mul]
      exact Nat.pow_le_pow_right (by decide) shorter

/-- A number below a power of ten has no more digits than that. -/
theorem toDigits_length_le {n k : Nat} (pos : 0 < k) (bound : n < 10 ^ k) :
    (Nat.toDigits 10 n).length ≤ k :=
  (Nat.length_toDigits_le_iff (by decide) pos).mpr bound

/-- A number is never printed longer than the text it was read from. -/
theorem printInt_decimalValue_length {s : Text} (nonempty : s ≠ []) :
    (printInt (decimalValue s)).length ≤ s.length := by
  have positive : 0 < s.length := List.length_pos_iff.mpr nonempty
  have shorter := (List.dropWhile_suffix (l := s) isSpace).length_le
  have zero : (printInt 0).length = 1 := rfl
  have unsigned : ∀ digits : Text, digits.length ≤ s.length →
      (printInt (digitsValue digits : Int)).length ≤ s.length := by
    intro digits fits
    exact toDigits_length_le positive
      (Nat.lt_of_lt_of_le (digitsValue_lt digits) (Nat.pow_le_pow_right (by decide) fits))
  unfold decimalValue
  split
  next digits start =>
    rw [start, List.length_cons] at shorter
    cases value : digitsValue digits with
    | zero =>
      change (printInt 0).length ≤ s.length
      omega
    | succ v =>
      have bound := digitsValue_lt digits
      rw [value] at bound
      have written : 0 < digits.length := by
        by_contra empty
        simp only [Nat.not_lt, Nat.le_zero] at empty
        simp [empty] at bound
      have digitCount := toDigits_length_le written bound
      change ('-' :: Nat.toDigits 10 (v + 1)).length ≤ s.length
      simp only [List.length_cons]
      omega
  next digits start =>
    rw [start, List.length_cons] at shorter
    exact unsigned digits (by omega)
  next => exact unsigned _ shorter

theorem printInt_length {n : Int} (fits : IsInt n) : (printInt n).length ≤ 11 := by
  unfold IsInt at fits
  cases n with
  | ofNat n =>
    have bound : n < 10 ^ 10 := by
      simp only [Int.ofNat_eq_natCast] at fits
      omega
    have := toDigits_length_le (by decide) bound
    simp only [printInt]
    omega
  | negSucc n =>
    have bound : n + 1 < 10 ^ 10 := by omega
    have := toDigits_length_le (by decide) bound
    simp only [printInt, List.length_cons]
    omega

end EltexCourse.Foundations.Decimal
