import Mathlib.Data.List.Range
import EltexCourse.Foundations.Looping

/-!
# task2: `main`

snail_matrix.c. An element outside the matrix has no defined result when it is
assigned, nor has `cnt++` when the sum is outside an `int`. `assigned` is no
variable of the program: it lists the elements that have been assigned, in order.
-/

set_option autoImplicit false

namespace EltexCourse.Source.Matrix
open Foundations.Looping

structure Snail where
  matrix : Int × Int → Option Int
  cnt : Int
  top : Int
  buttom : Int
  left : Int
  right : Int
  assigned : List (Int × Int)

/-- snail_matrix.c:19-21. -/
def start (matrixSize : Int) : Snail :=
  { matrix := fun _ => none, cnt := 1, top := 0, buttom := matrixSize - 1, left := 0,
    right := matrixSize - 1, assigned := [] }

/-- `i` in `for(int i = first; i <= last; i++)`. -/
def upTo (first last : Int) : List Int :=
  (List.range (last + 1 - first).toNat).map fun (turn : Nat) => first + turn

/-- `i` in `for(int i = first; i >= last; i--)`. -/
def downTo (first last : Int) : List Int :=
  (List.range (first + 1 - last).toNat).map fun (turn : Nat) => first - turn

/-- `matrix[i][j] = cnt++`, snail_matrix.c:24. -/
def assign (matrixSize : Int) (s : Snail) (cell : Int × Int) : Option Snail :=
  if 0 ≤ cell.1 ∧ cell.1 < matrixSize ∧ 0 ≤ cell.2 ∧ cell.2 < matrixSize ∧
    s.cnt + 1 < 2147483648 then
    some { s with
      matrix := fun c => if c.1 = cell.1 ∧ c.2 = cell.2 then some s.cnt else s.matrix c
      cnt := s.cnt + 1
      assigned := s.assigned ++ [cell] }
  else none

def fill (matrixSize : Int) (s : Snail) (cells : List (Int × Int)) : Option Snail :=
  cells.foldlM (assign matrixSize) s

/-- snail_matrix.c:23-26. -/
def topRow (matrixSize : Int) (s : Snail) : Option Snail := do
  let s ← fill matrixSize s ((upTo s.left s.right).map fun i => (s.top, i))
  some { s with top := s.top + 1 }

/-- snail_matrix.c:28-31. -/
def rightColumn (matrixSize : Int) (s : Snail) : Option Snail := do
  let s ← fill matrixSize s ((upTo s.top s.buttom).map fun i => (i, s.right))
  some { s with right := s.right - 1 }

/-- snail_matrix.c:33-36. -/
def buttomRow (matrixSize : Int) (s : Snail) : Option Snail := do
  let s ← fill matrixSize s ((downTo s.right s.left).map fun i => (s.buttom, i))
  some { s with buttom := s.buttom - 1 }

/-- snail_matrix.c:38-41. -/
def leftColumn (matrixSize : Int) (s : Snail) : Option Snail := do
  let s ← fill matrixSize s ((downTo s.buttom s.top).map fun i => (i, s.left))
  some { s with left := s.left + 1 }

/-- One turn of the `while` loop, snail_matrix.c:22-42. -/
def turn (matrixSize : Int) (s : Snail) : Option (Turn Snail Snail) :=
  if s.top ≤ s.buttom ∧ s.left ≤ s.right then do
    let s ← topRow matrixSize s
    let s ← rightColumn matrixSize s
    let s ← buttomRow matrixSize s
    let s ← leftColumn matrixSize s
    some (.next s)
  else some (.stop s)

end EltexCourse.Source.Matrix
