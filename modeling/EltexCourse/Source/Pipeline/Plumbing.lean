import EltexCourse.Foundations.Descriptors

/-!
# task12/pipeline_bash: the descriptors of a pipeline

`pipeline_handler` up to its first `waitpid`, with every `pipe` and `fork`
successful. Of a process only its descriptor table is kept. A child starts with
a copy of its parent's table and is followed to its `execvp`; nothing it does to
its own table is seen by another process, so the order in which the processes
run makes no difference.
-/

set_option autoImplicit false

namespace EltexCourse.Source.Pipeline
open Foundations.Descriptors

/-- What a descriptor refers to: a file the shell was started with, or an end of
`pipes[pipe]`. -/
inductive File (Inherited : Type*) where
  | inherited (file : Inherited)
  | readEnd (pipe : Nat)
  | writeEnd (pipe : Nat)
  deriving DecidableEq, Repr

variable {Inherited : Type*}

/-- The first loop, for `i < m`, main.c:170-175. -/
def makePipes (t : Table (File Inherited)) : Nat → List (Nat × Nat) × Table (File Inherited)
  | 0 => ([], t)
  | i + 1 =>
    let made := makePipes t i
    let opened := made.2.pipe (.readEnd i) (.writeEnd i)
    (made.1 ++ [opened.1], opened.2)

/-- main.c:183-186. `if (i > 0) …` of the child. An index outside `pipes` leaves no
defined result, here and below. -/
def childStdin (pipes : List (Nat × Nat)) (i : Nat) (t : Table (File Inherited)) :
    Option (Table (File Inherited)) :=
  if 0 < i then pipes[i - 1]?.map fun fds => (t.dup2 fds.1 0).close fds.1 else some t

/-- `if (i < *count-1) …` of the child, main.c:187-190. -/
def childStdout (pipes : List (Nat × Nat)) (count i : Nat) (t : Table (File Inherited)) :
    Option (Table (File Inherited)) :=
  if i < count - 1 then pipes[i]?.map fun fds => (t.dup2 fds.2 1).close fds.2 else some t

/-- The table child `i` takes into its `execvp`, main.c:183-195. -/
def childAtExec (pipes : List (Nat × Nat)) (count i : Nat) (t : Table (File Inherited)) :
    Option (Table (File Inherited)) := do
  let t ← childStdin pipes i t
  let t ← childStdout pipes count i t
  some (Table.closePairs pipes t)

/-- The parent's `close(pipes[i-1][0])` behind the fork of child `i`, main.c:202-204. -/
def closeRead (pipes : List (Nat × Nat)) (i : Nat) (t : Table (File Inherited)) :
    Option (Table (File Inherited)) :=
  if 0 < i then pipes[i - 1]?.map fun fds => t.close fds.1 else some t

/-- Its `close(pipes[i][1])`, main.c:205-207. -/
def closeWrite (pipes : List (Nat × Nat)) (count i : Nat) (t : Table (File Inherited)) :
    Option (Table (File Inherited)) :=
  if i < count - 1 then pipes[i]?.map fun fds => t.close fds.2 else some t

/-- The tables of the processes of a pipeline. -/
structure Processes (Inherited : Type*) where
  children : List (Table (File Inherited))
  parent : Table (File Inherited)

/-- The second loop, for the first children, main.c:177-210. -/
def forkChildren (pipes : List (Nat × Nat)) (count : Nat) (t : Table (File Inherited)) :
    Nat → Option (Processes Inherited)
  | 0 => some ⟨[], t⟩
  | i + 1 => do
    let before ← forkChildren pipes count t i
    let child ← childAtExec pipes count i before.parent
    let parent ← closeRead pipes i before.parent
    let parent ← closeWrite pipes count i parent
    some ⟨before.children ++ [child], parent⟩

/-- main.c:167-215. Each child at its `execvp`, the parent before its first `waitpid`.
Below two commands `pipes` would have a length below 1, which C leaves undefined. -/
def pipelineHandler (shell : Table Inherited) (count : Nat) : Option (Processes Inherited) :=
  if 1 < count then do
    let made := makePipes (shell.map .inherited) (count - 1)
    let forked ← forkChildren made.1 count made.2 count
    some { forked with parent := Table.closePairs made.1 forked.parent }
  else none

end EltexCourse.Source.Pipeline
