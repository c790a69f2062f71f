import Mathlib.Tactic.Ring
import EltexCourse.Foundations.OnesComplement
import EltexCourse.Source.EtherHeader.CheckSum

/-!
# task16_ether_header: what `check_sum` computes

A buffer of at most 65535 bytes has at most 2^15 words, so the plain sum stays
below 2^31 and its high half below 2^15: what the first fold leaves is less than
twice 2^16, and the second one brings its carry around.
-/

set_option autoImplicit false

namespace EltexCourse.Guarantees.EtherHeader.CheckSum
open Foundations.OnesComplement Source.EtherHeader

/-- The words of a buffer, the low byte first; an odd last byte is a low byte. -/
def words : List Byte → List Nat
  | low :: high :: rest => (low.toNat + 256 * high.toNat) :: words rest
  | [last] => [last.toNat]
  | [] => []

/-- The one's-complement sum of the words. -/
def wordSum (bytes : List Byte) : Nat := sum (2 ^ 16) (words bytes)

variable {bytes : List Byte} {s : BitVec 64}

/-- The words of the sum have 16 bits, an odd last byte being padded with zero. -/
theorem words_lt (bytes : List Byte) : ∀ w ∈ words bytes, w < 2 ^ 16 := by
  fun_induction words bytes with
  | case1 low high rest ih =>
    have l := low.isLt
    have h := high.isLt
    rw [List.forall_mem_cons]
    exact ⟨by omega, ih⟩
  | case2 last =>
    have l := last.isLt
    rw [List.forall_mem_singleton]
    omega
  | case3 => exact List.forall_mem_nil _

/-- For 65535 bytes the sum stays far below the 64 bits of a long. -/
theorem sum_words_le (bytes : List Byte) : 2 * (words bytes).sum ≤ 65535 * (bytes.length + 1) := by
  fun_induction words bytes with
  | case1 low high rest ih =>
    have l := low.isLt
    have h := high.isLt
    simp only [List.sum_cons, List.length_cons]
    omega
  | case2 last =>
    have l := last.isLt
    simp only [List.sum_cons, List.sum_nil, List.length_cons, List.length_nil]
    omega
  | case3 => exact Nat.zero_le _

theorem toNat_word (low high : Byte) : (high ++ low).toNat = low.toNat + 256 * high.toNat := by
  rw [BitVec.toNat_append, ← Nat.shiftLeft_add_eq_or_of_lt low.isLt, Nat.shiftLeft_eq]
  ring

theorem toNat_addWords (fits : s.toNat + (words bytes).sum < 2 ^ 64) :
    (addWords bytes s).toNat = s.toNat + (words bytes).sum := by
  fun_induction addWords bytes s with
  | case1 low high rest s ih =>
    have w : ((high ++ low).setWidth 64).toNat = low.toNat + 256 * high.toNat := by
      rw [BitVec.toNat_setWidth, toNat_word]
      have l := low.isLt
      have h := high.isLt
      omega
    simp only [words, List.sum_cons] at fits ⊢
    have added : (s + (high ++ low).setWidth 64).toNat =
      s.toNat + (low.toNat + 256 * high.toNat) := by
      rw [BitVec.toNat_add, w]
      omega
    rw [ih (by omega), added]
    omega
  | case2 last s =>
    have l := last.isLt
    simp only [words, List.sum_cons, List.sum_nil] at fits ⊢
    rw [BitVec.toNat_add, BitVec.toNat_setWidth]
    omega
  | case3 s => rfl

theorem toNat_shift (small : s.toNat < 2 ^ 63) : (s.sshiftRight 16).toNat = s.toNat / 2 ^ 16 := by
  have positive : s.msb = false := by
    rw [BitVec.msb_eq_false_iff_two_mul_lt]
    omega
  rw [BitVec.sshiftRight_eq_of_msb_false positive, BitVec.toNat_ushiftRight,
    Nat.shiftRight_eq_div_pow]

theorem toNat_foldOnce (small : s.toNat < 2 ^ 63) :
    (foldOnce s).toNat = carry (2 ^ 16) s.toNat := by
  have low : (s &&& 0xffff).toNat = s.toNat % 2 ^ 16 := by
    rw [BitVec.toNat_and]
    exact Nat.and_two_pow_sub_one_eq_mod s.toNat 16
  rw [foldOnce, BitVec.toNat_add, toNat_shift small, low, carry]
  omega

theorem toNat_foldAgain (small : s.toNat < 2 ^ 63) :
    (foldAgain s).toNat = s.toNat + s.toNat / 2 ^ 16 := by
  rw [foldAgain, BitVec.toNat_add, toNat_shift small]
  omega

/-- The complement, cut to 16 bits. -/
theorem toNat_complement (s : BitVec 64) :
    ((~~~ s).setWidth 16).toNat = 65535 - s.toNat % 2 ^ 16 := by
  have low := s.isLt
  rw [BitVec.toNat_setWidth, BitVec.toNat_not]
  omega

/-- What the two folds leave in the low half is what any number of folds leaves. -/
theorem folded_checkSum (short : bytes.length ≤ 65535) :
    Folded (2 ^ 16) (words bytes).sum (65535 - (checkSum bytes).toNat) := by
  have bound := sum_words_le bytes
  have plain : (addWords bytes 0).toNat = (words bytes).sum := by
    have added : (addWords bytes 0).toNat = (0 : BitVec 64).toNat + (words bytes).sum :=
      toNat_addWords (by simp; omega)
    simpa using added
  have once : (foldOnce (addWords bytes 0)).toNat = carry (2 ^ 16) (words bytes).sum := by
    rw [toNat_foldOnce (by omega), plain]
  have small : carry (2 ^ 16) (words bytes).sum < 2 ^ 63 := by
    unfold carry
    omega
  have again := toNat_foldAgain (s := foldOnce (addWords bytes 0)) (by omega)
  rw [once] at again
  have twice : Folded (2 ^ 16) (words bytes).sum _ := folded_twice (by omega)
  rw [← again] at twice
  have low := twice.below
  rw [checkSum, toNat_complement, Nat.sub_sub_self (by omega)]
  exact twice

theorem words_append {front : List Byte} (even : Even front.length) (rest : List Byte) :
    words (front ++ rest) = words front ++ words rest := by
  fun_induction words front with
  | case1 low high front ih =>
    have even : Even front.length := by
      rw [List.length_cons, List.length_cons, Nat.add_assoc] at even
      exact (Nat.even_add.mp even).mpr even_two
    simp only [List.cons_append, words, ih even]
  | case2 last =>
    rw [List.length_singleton] at even
    exact absurd even Nat.not_even_one
  | case3 => rfl

theorem storeField_at (front rest : List Byte) (low high : Byte) (value : BitVec 16) :
    storeField (front ++ low :: high :: rest) front.length value =
      front ++ value.setWidth 8 :: (value >>> 8).setWidth 8 :: rest := by
  rw [storeField, List.set_append_right _ _ (Nat.le_refl _), Nat.sub_self, List.set_cons_zero,
    List.set_append_right _ _ (Nat.le_add_right _ 1), Nat.add_sub_cancel_left, List.set_cons_succ,
    List.set_cons_zero]

/-- The bytes around a field. -/
theorem exists_around {offset : Nat} {low high : Byte} (first : bytes[offset]? = some low)
    (second : bytes[offset + 1]? = some high) :
    ∃ front rest, bytes = front ++ low :: high :: rest ∧ front.length = offset := by
  obtain ⟨inside, isLow⟩ := List.getElem?_eq_some_iff.mp first
  obtain ⟨inside', isHigh⟩ := List.getElem?_eq_some_iff.mp second
  refine ⟨bytes.take offset, bytes.drop (offset + 2), ?_,
    List.length_take_of_le (Nat.le_of_lt inside)⟩
  rw [← isLow, ← isHigh, ← List.drop_eq_getElem_cons inside', ← List.drop_eq_getElem_cons inside,
    List.take_append_drop]

theorem sum_words_field {front rest : List Byte} (even : Even front.length) (low high : Byte) :
    (words (front ++ low :: high :: rest)).sum =
      (words front).sum + (words rest).sum + (low.toNat + 256 * high.toNat) := by
  rw [words_append even, words, List.sum_append, List.sum_cons]
  omega

/-- The bytes of a stored field make its value. -/
theorem toNat_field (value : BitVec 16) :
    (value.setWidth 8).toNat + 256 * ((value >>> 8).setWidth 8).toNat = value.toNat := by
  have bound := value.isLt
  rw [BitVec.toNat_setWidth, BitVec.toNat_setWidth, BitVec.toNat_ushiftRight,
    Nat.shiftRight_eq_div_pow]
  omega

/-- With the checksum in its field, the sum over all comes out as 0. -/
theorem checkSum_stored {front rest : List Byte} (even : Even front.length)
    (short : (front ++ 0 :: 0 :: rest).length ≤ 65535) :
    checkSum (storeField (front ++ 0 :: 0 :: rest) front.length
      (checkSum (front ++ 0 :: 0 :: rest))) = 0 := by
  have before := folded_checkSum short
  rw [storeField_at]
  generalize checkSum (front ++ 0 :: 0 :: rest) = value at before
  have short' : (front ++ value.setWidth 8 :: (value >>> 8).setWidth 8 :: rest).length ≤ 65535 := by
    simpa using short
  have after := folded_checkSum short'
  rw [sum_words_field even, toNat_field] at after
  have nothing : (0 : Byte).toNat + 256 * (0 : Byte).toNat = 0 := rfl
  rw [sum_words_field even, nothing, Nat.add_zero] at before
  have bound := value.isLt
  have zero := before.complement (by decide)
  have same : 2 ^ 16 - 1 - (65535 - value.toNat) = value.toNat := by omega
  rw [same] at zero
  have whole := after.unique zero
  apply BitVec.eq_of_toNat_eq
  have bound' := (checkSum (front ++ value.setWidth 8 :: (value >>> 8).setWidth 8 :: rest)).isLt
  show _ = 0
  omega

/-- The result is the complement of the one's-complement sum, which is also what
folding the plain sum ends with; and stored in an aligned field that was zero it
makes the result zero. -/
theorem check_sum_complement (bytes : List Byte) (short : bytes.length ≤ 65535) :
    (checkSum bytes).toNat = 65535 - wordSum bytes ∧
      (∀ times, (carry (2 ^ 16))^[times] (words bytes).sum < 2 ^ 16 →
        (carry (2 ^ 16))^[times] (words bytes).sum = wordSum bytes) ∧
      ∀ offset, Even offset → bytes[offset]? = some 0 → bytes[offset + 1]? = some 0 →
        checkSum (storeField bytes offset (checkSum bytes)) = 0 := by
  have sums : Folded (2 ^ 16) (words bytes).sum (wordSum bytes) :=
    folded_sum (by decide) (words_lt bytes)
  have folded := folded_checkSum short
  refine ⟨?_, fun times done => ?_, fun offset aligned low high => ?_⟩
  · have same := folded.unique sums
    have bound := (checkSum bytes).isLt
    omega
  · exact ((folded_self done).of_carries (by decide) times).unique sums
  · obtain ⟨front, rest, split, length⟩ := exists_around low high
    subst split length
    exact checkSum_stored aligned short

/-- The header that is sent, with `check` stored in it. -/
theorem check_sum_complement_ip : checkSum (storeField ip checkOffset (checkSum ip)) = 0 :=
  (check_sum_complement ip (by decide)).2.2 checkOffset (by decide) rfl rfl

end EltexCourse.Guarantees.EtherHeader.CheckSum
