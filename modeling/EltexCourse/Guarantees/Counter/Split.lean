import EltexCourse.Source.Counter.MapReduce

/-!
# task11.2: when counting in shares comes to the same

The loops leave off at the limit, and only there: one that begins behind it
counts until the sum is outside an `int`. The shares are all N/T, so they make
up N when T divides N, and a share of 0 is behind its limit from the first
increment on.
-/

set_option autoImplicit false

namespace EltexCourse.Guarantees.Counter.Split
open Foundations.Decimal Foundations.Looping Source.Counter

/-- The loops of the threads end and never have more than N in their counters,
and what is printed is N, as it is by the other program. -/
structure Same (N T : Nat) : Prop where
  ends : ∃ result, MapReduce.ThreadWork N T result
  within : ∀ num, Comes (MapReduce.workTurn N T) 0 num → num ≤ N
  result : ∀ result, MapReduce.ThreadWork N T result → result ≤ N
  printed : MapReduce.Prints N T N
  sequential : Sequential.Prints N N

variable {N T limit : Nat} {num result : Int}

theorem countTurn_below (fits : limit < 2 ^ 31) {count : Nat} (below : count + 1 < limit) :
    countTurn limit count = some (.next (count + 1 : Nat)) := by
  rw [countTurn, int_of_isInt (by unfold IsInt; omega), Option.bind_eq_bind, Option.bind_some,
    if_neg (by omega)]
  rfl

theorem countTurn_last (fits : limit < 2 ^ 31) {count : Nat} (last : count + 1 = limit) :
    countTurn limit count = some (.stop limit) := by
  rw [countTurn, int_of_isInt (by unfold IsInt; omega), Option.bind_eq_bind, Option.bind_some,
    if_pos (by omega)]
  congr 2
  omega

theorem count_ends (fits : limit < 2 ^ 31) {count : Nat} (below : count < limit) :
    Ends (countTurn limit) count result ↔ result = limit := by
  obtain ⟨left, whole⟩ := Nat.exists_eq_add_of_lt below
  induction left generalizing count with
  | zero => exact ends_stop (countTurn_last fits (by omega))
  | succ left ih =>
    rw [ends_next (countTurn_below fits (by omega))]
    exact ih (by omega) (by omega)

theorem countTurn_next (turned : countTurn limit num = some (.next result)) :
    result = num + 1 ∧ num + 1 ≠ limit := by
  obtain ⟨more, counts, tested⟩ := Option.bind_eq_some_iff.mp turned
  obtain ⟨rfl, -⟩ := int_eq_some.mp counts
  split at tested
  · cases tested
  · next goesOn =>
    cases tested
    exact ⟨rfl, goesOn⟩

theorem countTurn_stop (turned : countTurn limit num = some (.stop result)) :
    num + 1 = limit ∧ num + 1 < 2 ^ 31 := by
  obtain ⟨more, counts, tested⟩ := Option.bind_eq_some_iff.mp turned
  obtain ⟨rfl, fits⟩ := int_eq_some.mp counts
  split at tested
  · next last => exact ⟨last, fits.2⟩
  · cases tested

/-- A limit of 0 is not met again, nor is one that is no `int`. -/
theorem count_never (outside : limit = 0 ∨ 2 ^ 31 ≤ limit) : ¬ Ends (countTurn limit) 0 result := by
  refine never_stops (fun num => 0 ≤ num) (fun num result positive stops => ?_)
    (fun num more positive next => ?_) (Int.le_refl 0)
  · obtain ⟨last, fits⟩ := countTurn_stop stops
    omega
  · have counted := (countTurn_next next).1
    omega

/-- From 0 the loop ends exactly when the limit is a positive int: it is left on
equality only. -/
theorem count_iff : Ends (countTurn limit) 0 result ↔
    result = limit ∧ 0 < limit ∧ limit < 2 ^ 31 := by
  by_cases met : 0 < limit ∧ limit < 2 ^ 31
  · have ends : Ends (countTurn limit) (0 : Nat) result ↔ result = limit := count_ends met.2 met.1
    rw [and_iff_left met]
    exact ends
  · exact iff_of_false (count_never (by omega)) fun all => met all.2

theorem comes_below (positive : 0 < limit) (comes : Comes (countTurn limit) 0 num) :
    num < limit := by
  induction comes with
  | start => omega
  | next _ turned ih =>
    obtain ⟨counted, notYet⟩ := countTurn_next turned
    omega

theorem eq_of_foldlM {results : List Int} {share : Int} (all : ∀ result ∈ results, result = share)
    {before : Int}
    (summed : results.foldlM (fun num result => int (num + result)) before = some num) :
    num = before + results.length * share := by
  induction results generalizing before with
  | nil =>
    cases summed
    simp
  | cons result results ih =>
    obtain ⟨same, all⟩ := List.forall_mem_cons.mp all
    rw [List.foldlM_cons] at summed
    obtain ⟨next, added, summed⟩ := Option.bind_eq_some_iff.mp summed
    obtain ⟨rfl, -⟩ := int_eq_some.mp added
    rw [ih all summed, same, List.length_cons, Int.natCast_succ, Int.add_mul, Int.one_mul]
    omega

theorem foldlM_fits {results : List Int} {share : Nat} (all : ∀ result ∈ results, result = share)
    (before : Nat) (fits : before + results.length * share < 2 ^ 31) :
    results.foldlM (fun num result => int (num + result)) (before : Int) =
      some ((before + results.length * share : Nat) : Int) := by
  induction results generalizing before with
  | nil => simp
  | cons result results ih =>
    obtain ⟨same, all⟩ := List.forall_mem_cons.mp all
    rw [List.length_cons, Nat.succ_mul] at fits ⊢
    have added : int (before + result) = some ((before + share : Nat) : Int) := by
      rw [int_of_isInt (by unfold IsInt; omega), same]
      rfl
    rw [List.foldlM_cons, added, Option.bind_eq_bind, Option.bind_some, ih all _ (by omega)]
    congr 2
    omega

/-- A thread returns its share exactly when that is positive; otherwise its loop passes
the equality by. -/
theorem threadWork_iff : MapReduce.ThreadWork N T result ↔
    result = (N / T : Nat) ∧ 0 < N / T ∧ N / T < 2 ^ 31 := count_iff

/-- The shares are all the same. -/
theorem prints_total (prints : MapReduce.Prints N T num) : num = (T * (N / T) : Nat) := by
  obtain ⟨results, length, work, summed⟩ := prints
  have total := eq_of_foldlM (fun result mem => (threadWork_iff.mp (work result mem)).1) summed
  rw [length, Int.zero_add] at total
  exact_mod_cast total

/-- Where the number of threads divides the limit, all of it is counted. -/
theorem prints_whole (divides : T ∣ N) (positive : 1 ≤ N) (fits : N < 2 ^ 31) :
    MapReduce.Prints N T N := by
  have whole : T * (N / T) = N := Nat.mul_div_cancel' divides
  have share : 0 < N / T := by
    refine Nat.pos_of_ne_zero fun none => ?_
    rw [none, Nat.mul_zero] at whole
    omega
  have small : N / T < 2 ^ 31 := Nat.lt_of_le_of_lt (Nat.div_le_self N T) fits
  have all : ∀ result ∈ List.replicate T ((N / T : Nat) : Int), result = (N / T : Nat) :=
    fun result mem => List.eq_of_mem_replicate mem
  refine ⟨List.replicate T ((N / T : Nat) : Int), List.length_replicate, fun result mem => ?_, ?_⟩
  · exact threadWork_iff.mpr ⟨all result mem, share, small⟩
  · have summed := foldlM_fits all 0
      (by rw [List.length_replicate, Nat.zero_add, whole]; exact fits)
    rw [List.length_replicate, Nat.zero_add, whole] at summed
    exact summed

/-- The two programs agree when T divides N, which has to be an `int`. -/
theorem mapreduce_same (N T : Nat) (positive : 1 ≤ N) (threads : 1 ≤ T) :
    Same N T ↔ T ∣ N ∧ N < 2 ^ 31 := by
  constructor
  · rintro ⟨-, -, -, printed, sequential⟩
    have total := prints_total printed
    exact ⟨⟨N / T, by exact_mod_cast total⟩, (count_iff.mp sequential).2.2⟩
  · rintro ⟨divides, fits⟩
    have share : 0 < N / T := Nat.div_pos (Nat.le_of_dvd positive divides) threads
    have less := Nat.div_le_self N T
    have ends : MapReduce.ThreadWork N T (N / T : Nat) :=
      threadWork_iff.mpr ⟨rfl, share, Nat.lt_of_le_of_lt less fits⟩
    refine ⟨⟨_, ends⟩, fun num comes => ?_, fun result work => ?_,
      prints_whole divides positive fits,
      count_iff.mpr ⟨rfl, positive, fits⟩⟩
    · have below := comes_below share comes
      omega
    · rw [(threadWork_iff.mp work).1]
      exact_mod_cast less

/-- The values in the programs. -/
theorem mapreduce_same_built_in : Same 5000000 4 :=
  (mapreduce_same 5000000 4 (by decide) (by decide)).mpr (by decide)

/-- Three threads do not make up 10, and two that are to count to 1 never end. -/
theorem mapreduce_same_ten : ¬ Same 10 3 ∧ ¬ Same 1 2 := by
  constructor
  · intro same
    have total := prints_total same.printed
    exact absurd total (by decide)
  · intro same
    obtain ⟨result, work⟩ := same.ends
    exact absurd (threadWork_iff.mp work).2.1 (by decide)

end EltexCourse.Guarantees.Counter.Split
