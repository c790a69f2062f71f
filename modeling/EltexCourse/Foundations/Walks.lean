import Mathlib.Data.List.Nodup
import Mathlib.Data.List.Chain
import Mathlib.Data.List.Iterate

/-!
# Walks that wind inwards

A walk goes over the cells of a plane, a row and a column each. It goes straight
on as long as the cell ahead is inside and has not been visited, and turns
clockwise where it cannot.
-/

set_option autoImplicit false

namespace EltexCourse.Foundations.Walks

/-- A row and a column. -/
abbrev Cell := Int × Int

inductive Direction where
  | right | down | left | up
  deriving DecidableEq

namespace Direction

/-- A quarter of a turn, clockwise. -/
def turn : Direction → Direction
  | right => down
  | down => left
  | left => up
  | up => right

def rows : Direction → Int
  | right => 0
  | down => 1
  | left => 0
  | up => -1

def columns : Direction → Int
  | right => 1
  | down => 0
  | left => -1
  | up => 0

def ahead (d : Direction) (c : Cell) : Cell := (c.1 + d.rows, c.2 + d.columns)

theorem iterate_ahead (d : Direction) (count : Nat) (c : Cell) :
    d.ahead^[count] c = (c.1 + count * d.rows, c.2 + count * d.columns) := by
  induction count generalizing c with
  | zero => simp
  | succ count ih =>
    rw [Function.iterate_succ_apply, ih, ahead, Int.natCast_succ, Int.add_mul, Int.add_mul,
      Int.one_mul, Int.one_mul]
    refine Prod.ext ?_ ?_
    · show c.1 + d.rows + count * d.rows = _
      omega
    · show c.2 + d.columns + count * d.columns = _
      omega

/-- No cell comes twice on a straight line. -/
theorem iterate_ahead_inj {d : Direction} {c : Cell} {m n : Nat}
    (same : d.ahead^[m] c = d.ahead^[n] c) :
    m = n := by
  rw [iterate_ahead, iterate_ahead] at same
  obtain ⟨row, column⟩ := Prod.ext_iff.mp same
  cases d <;> simp only [rows, columns] at row column <;> omega

end Direction

def Adjacent (a b : Cell) : Prop := ∃ d : Direction, b = d.ahead a

/-- The walk has come to `c` and looks to `d`; at first it is before the cell it
starts with. -/
inductive Winds (Inside : Cell → Prop) (start : Cell) (facing : Direction) :
    List Cell → Cell → Direction → Prop where
  | enter : Winds Inside start facing [] start facing
  | ahead {walk : List Cell} {c : Cell} {d : Direction} :
      Winds Inside start facing walk c d → Inside (d.ahead c) → d.ahead c ∉ walk →
      Winds Inside start facing (walk ++ [d.ahead c]) (d.ahead c) d
  | turn {walk : List Cell} {c : Cell} {d : Direction} :
      Winds Inside start facing walk c d → ¬ (Inside (d.ahead c) ∧ d.ahead c ∉ walk) →
      Winds Inside start facing walk c d.turn

variable {Inside : Cell → Prop} {start c : Cell} {facing d : Direction} {walk : List Cell}

namespace Winds

theorem inside (winds : Winds Inside start facing walk c d) : ∀ b ∈ walk, Inside b := by
  induction winds with
  | enter => exact List.forall_mem_nil _
  | ahead _ free _ ih => exact List.forall_mem_append.mpr ⟨ih, List.forall_mem_singleton.mpr free⟩
  | turn _ _ ih => exact ih

theorem nodup (winds : Winds Inside start facing walk c d) : walk.Nodup := by
  induction winds with
  | enter => exact List.nodup_nil
  | ahead _ _ new ih =>
    rw [← List.concat_eq_append]
    exact ih.concat new
  | turn _ _ ih => exact ih

/-- The walk has come to its last cell. -/
theorem getLast (winds : Winds Inside start facing walk c d) : ∀ b ∈ walk.getLast?, b = c := by
  induction winds with
  | enter => simp
  | ahead => simp
  | turn _ _ ih => exact ih

theorem adjacent (winds : Winds Inside start facing walk c d) : walk.IsChain Adjacent := by
  induction winds with
  | enter => exact List.isChain_nil
  | @ahead walk c d before _ _ ih =>
    rw [List.isChain_append]
    refine ⟨ih, List.isChain_singleton _, fun b last e first => ?_⟩
    have came := before.getLast b last
    subst came
    simp only [List.head?_cons, Option.mem_some_iff] at first
    exact ⟨d, first.symm⟩
  | turn _ _ ih => exact ih

/-- Straight on over a line of free cells. -/
theorem straight (winds : Winds Inside start facing walk c d) {count : Nat}
    (free : ∀ b ∈ List.iterate d.ahead (d.ahead c) count, Inside b ∧ b ∉ walk) :
    Winds Inside start facing (walk ++ List.iterate d.ahead (d.ahead c) count)
      (d.ahead^[count] c) d := by
  induction count with
  | zero => simpa using winds
  | succ count ih =>
    rw [List.iterate_add] at free ⊢
    obtain ⟨before, next⟩ := List.forall_mem_append.mp free
    obtain ⟨inside, new⟩ := List.forall_mem_singleton.mp next
    have last : d.ahead^[count] (d.ahead c) = d.ahead (d.ahead^[count] c) := by
      rw [← Function.iterate_succ_apply, Function.iterate_succ_apply']
    have notBefore : d.ahead^[count] (d.ahead c) ∉ List.iterate d.ahead (d.ahead c) count := by
      rintro again
      obtain ⟨m, earlier, same⟩ := List.mem_iterate.mp again
      exact absurd (Direction.iterate_ahead_inj same) (Nat.ne_of_gt earlier)
    show Winds Inside start facing (walk ++ (_ ++ [d.ahead^[count] (d.ahead c)])) _ d
    rw [← List.append_assoc, Function.iterate_succ_apply']
    rw [last] at inside new notBefore ⊢
    refine (ih before).ahead inside ?_
    rw [List.mem_append, not_or]
    exact ⟨new, notBefore⟩

end Winds

end EltexCourse.Foundations.Walks
