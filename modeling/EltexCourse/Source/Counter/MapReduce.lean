import EltexCourse.Foundations.Decimal
import EltexCourse.Foundations.Looping

/-!
# task11.2: `mapreduce` and `sequential`

mapreduce.c and sequential.c, for any values of the macros. A thread counts in
an element of `results` that is its own: nothing else touches it until `main`
has joined the thread, so each loop is followed alone. A sum outside an `int`
has no defined result.
-/

set_option autoImplicit false

namespace EltexCourse.Source.Counter
open Foundations.Decimal Foundations.Looping

/-- An increment, and the test for equality behind it, mapreduce.c:12-14 and
sequential.c:8-10. -/
def countTurn (limit : Nat) (num : Int) : Option (Turn Int Int) := do
  let num ← int (num + 1)
  if num = limit then some (.stop num) else some (.next num)

namespace MapReduce

/-- A turn of the loop in `thread_work`, mapreduce.c:11-15. -/
def workTurn (N T : Nat) : Int → Option (Turn Int Int) := countTurn (N / T)

/-- What a thread leaves in its element, mapreduce.c:7-17. -/
def ThreadWork (N T : Nat) (result : Int) : Prop := Ends (workTurn N T) 0 result

/-- `num += results[i]`, in the order of the joins, mapreduce.c:26-29. -/
def reduce (results : List Int) : Option Int :=
  results.foldlM (fun num result => int (num + result)) 0

/-- What `main` prints, mapreduce.c:19-33. -/
def Prints (N T : Nat) (num : Int) : Prop :=
  ∃ results : List Int, results.length = T ∧ (∀ result ∈ results, ThreadWork N T result) ∧
    reduce results = some num

end MapReduce

namespace Sequential

/-- A turn of the loop in `main`, sequential.c:7-11. -/
def turn (N : Nat) : Int → Option (Turn Int Int) := countTurn N

/-- What `main` prints, sequential.c:4-15. -/
def Prints (N : Nat) (num : Int) : Prop := Ends (turn N) 0 num

end Sequential

end EltexCourse.Source.Counter
