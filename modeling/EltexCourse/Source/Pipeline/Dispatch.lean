import EltexCourse.Source.Pipeline.Shell

/-!
# task12/pipeline_bash: what `main` does with a line

Allocations succeed, so `parse` never returns NULL. Of the two handlers only the
entry of `pipeline_handler` is followed, where its arrays are declared.
-/

set_option autoImplicit false

namespace EltexCourse.Source.Pipeline
open Foundations.CString Foundations.CBuffer

/-- How long `pids` and `pipes` are in `pipeline_handler`. -/
structure Arrays where
  pids : Int
  pipes : Int
  deriving DecidableEq, Repr

/-- `pid_t pids[*count]` and `int pipes[*count-1][2]`, main.c:168-169. -/
def declared (count : Nat) : Arrays := { pids := count, pipes := (count : Int) - 1 }

inductive Handled where
  | exit
  | command
  | pipeline (arrays : Arrays)
  deriving DecidableEq, Repr

/-- A turn of the loop of `main`, behind `fgets`, main.c:35-58. -/
def dispatch (line : Text) : Option Handled := do
  let text ← stringAt line 0
  if text = exitText ++ ['\n'] then some .exit
  else do
    let parsed ← parse line
    if parsed.count = 1 then some .command
    else some (.pipeline (declared parsed.count))

end EltexCourse.Source.Pipeline
