import Mathlib.Logic.Function.Iterate
import EltexCourse.Source.TimeServer.FreeThread

/-!
# task16_cs_models/parallel_buff: which slots the main cycle looks at

`i = 0` in the body of the loop is followed by its `i++`, so a pass after the
first one begins at slot 1: the slots looked at are 0, 1, 2, 1, 2, … A slot that
stays free is found unless it is slot 0, and then only by the first look.
-/

set_option autoImplicit false

namespace EltexCourse.Guarantees.TimeServer.FreeThread
open Foundations.Looping Source.TimeServer.FreeThread
open Source.TimeServer.ParallelBuff (nextSlot)

/-- The loop ends with a slot in which it has seen 0. -/
def Found (isReady : Nat → Fin 3 → Int) : Prop :=
  ∃ i, Ends (scanTurn isReady) scanStart (some i) ∧
    ∃ look, Comes (scanTurn isReady) scanStart { look, i } ∧ isReady look i = 0

variable {isReady : Nat → Fin 3 → Int} {look : Nat}

/-- The slot of a look. -/
def slotAt (look : Nat) : Fin 3 := nextSlot^[look] ⟨0, Nat.zero_lt_succ 2⟩

theorem slotAt_succ (look : Nat) : slotAt (look + 1) = nextSlot (slotAt look) :=
  Function.iterate_succ_apply' nextSlot look _

/-- After the first slot the search goes to and fro between the other two. -/
theorem slotAt_pass (k : Nat) : slotAt (2 * k + 1) = 1 ∧ slotAt (2 * k + 2) = 2 := by
  induction k with
  | zero => exact ⟨rfl, rfl⟩
  | succ k ih =>
    have one : slotAt (2 * (k + 1) + 1) = 1 := by
      rw [slotAt_succ, Nat.mul_succ, ih.2]
      rfl
    refine ⟨one, ?_⟩
    rw [slotAt_succ, one]
    rfl

theorem look_cases (look : Nat) : look = 0 ∨ ∃ k, look = 2 * k + 1 ∨ look = 2 * k + 2 := by
  rcases Nat.eq_zero_or_pos look with first | later
  · exact Or.inl first
  · exact Or.inr ⟨(look - 1) / 2, by omega⟩

def scanAt (look : Nat) : Scan := { look, i := slotAt look }

/-- A slot that is 0 when it is looked at ends the search. -/
theorem scanTurn_free (free : isReady look (slotAt look) = 0) :
    scanTurn isReady (scanAt look) = some (.stop (some (slotAt look))) := by
  rw [scanTurn]
  exact (dif_pos (slotAt look).isLt).trans (if_pos free)

theorem scanTurn_busy (busy : isReady look (slotAt look) ≠ 0) :
    scanTurn isReady (scanAt look) = some (.next (scanAt (look + 1))) := by
  have next : (if (slotAt look : Nat) = 2 then 0 else (slotAt look : Nat)) + 1 =
    nextSlot (slotAt look) := by
    generalize slotAt look = i
    revert i
    decide
  rw [scanTurn]
  refine (dif_pos (slotAt look).isLt).trans ((if_neg busy).trans ?_)
  rw [scanAt, scanAt, slotAt_succ, ← next]

theorem comes_scanAt {s : Scan} (comes : Comes (scanTurn isReady) scanStart s) :
    ∃ look, s = scanAt look := by
  induction comes with
  | start => exact ⟨0, rfl⟩
  | next _ turned ih =>
    obtain ⟨look, rfl⟩ := ih
    by_cases free : isReady look (slotAt look) = 0
    · rw [scanTurn_free free] at turned
      cases turned
    · rw [scanTurn_busy free] at turned
      cases turned
      exact ⟨look + 1, rfl⟩

theorem found_of_comes (comes : Comes (scanTurn isReady) scanStart (scanAt look))
    (free : isReady look (slotAt look) = 0) : Found isReady :=
  ⟨slotAt look, comes.ends_iff.mpr ((ends_stop (scanTurn_free free)).mpr rfl), look, comes, free⟩

/-- The loop ends with the first look that finds 0, at the latest. -/
theorem found_of_free (comes : Comes (scanTurn isReady) scanStart (scanAt look)) (more : Nat)
    (free : isReady (look + more) (slotAt (look + more)) = 0) : Found isReady := by
  induction more generalizing look with
  | zero => exact found_of_comes comes free
  | succ more ih =>
    by_cases now : isReady look (slotAt look) = 0
    · exact found_of_comes comes now
    · rw [← Nat.add_assoc, Nat.add_right_comm] at free
      exact ih (comes.next (scanTurn_busy now)) free

theorem found_iff : Found isReady ↔ ∃ look, isReady look (slotAt look) = 0 := by
  constructor
  · rintro ⟨i, -, look, comes, free⟩
    obtain ⟨here, same⟩ := comes_scanAt comes
    obtain ⟨rfl, slot⟩ := Scan.mk.inj same
    rw [Fin.val_inj] at slot
    exact ⟨look, slot ▸ free⟩
  · rintro ⟨look, free⟩
    exact found_of_free (.start : Comes _ _ (scanAt 0)) look (by rwa [Nat.zero_add])

/-- A slot is free from some moment on. It is found unless it is slot 0, is not
free at the first look, and neither of the other two is free at a look at it. -/
theorem free_thread_found (isReady : Nat → Fin 3 → Int) (slot : Fin 3) (moment : Nat)
    (free : ∀ look, moment ≤ look → isReady look slot = 0) :
    Found isReady ↔ slot ≠ 0 ∨ isReady 0 0 = 0 ∨
      ∃ k, isReady (2 * k + 1) 1 = 0 ∨ isReady (2 * k + 2) 2 = 0 := by
  rw [found_iff]
  constructor
  · rintro ⟨look, seen⟩
    rcases look_cases look with rfl | ⟨k, rfl | rfl⟩
    · exact Or.inr (Or.inl seen)
    · rw [(slotAt_pass k).1] at seen
      exact Or.inr (Or.inr ⟨k, Or.inl seen⟩)
    · rw [(slotAt_pass k).2] at seen
      exact Or.inr (Or.inr ⟨k, Or.inr seen⟩)
  · rintro (other | first | ⟨k, one | two⟩)
    · have one := free (2 * moment + 1) (by omega)
      have two := free (2 * moment + 2) (by omega)
      match slot with
      | 0 => exact absurd rfl other
      | 1 => exact ⟨2 * moment + 1, by rw [(slotAt_pass moment).1]; exact one⟩
      | 2 => exact ⟨2 * moment + 2, by rw [(slotAt_pass moment).2]; exact two⟩
    · exact ⟨0, first⟩
    · exact ⟨2 * k + 1, by rw [(slotAt_pass k).1]; exact one⟩
    · exact ⟨2 * k + 2, by rw [(slotAt_pass k).2]; exact two⟩

/-- Slot 1, from the third look on. -/
theorem free_thread_found_one : Found fun look i => if i = 1 ∧ 2 ≤ look then 0 else 1 := by
  refine (free_thread_found _ 1 2 fun look late => ?_).mpr (Or.inl (by decide))
  exact if_pos ⟨rfl, late⟩

/-- Slot 0, from the fourth look on, when the first pass is over: the loop never ends. -/
theorem free_thread_found_zero :
    (∀ look, 3 ≤ look → (if (0 : Fin 3) = 0 ∧ 3 ≤ look then 0 else 1 : Int) = 0) ∧
      ¬ Found fun look i => if i = 0 ∧ 3 ≤ look then 0 else 1 := by
  refine ⟨fun look late => if_pos ⟨rfl, late⟩, fun found => ?_⟩
  obtain ⟨look, seen⟩ := found_iff.mp found
  rcases look_cases look with rfl | ⟨k, rfl | rfl⟩
  · exact absurd seen (by decide)
  · rw [(slotAt_pass k).1] at seen
    exact absurd seen (by simp)
  · rw [(slotAt_pass k).2] at seen
    exact absurd seen (by simp)

end EltexCourse.Guarantees.TimeServer.FreeThread
