import EltexCourse.Foundations.Programs
import EltexCourse.Foundations.Transition
import EltexCourse.Source.Pipeline.Plumbing

/-!
# task12/pipeline_bash: `pipeline_handler` while its commands run

The shell and its children side by side, from the first `fork` to the last
`waitpid`, every `pipe`, `fork` and `execvp` successful. A command is any program
that reads its descriptor 0 and writes its descriptor 1. A pipe holds up to
`capacity` bytes: a read of an empty one and a write to a full one wait, the
first as long as somebody has the write end open, the second as long as somebody
has the read end. SIGPIPE ends the process it is sent to, and a process that
ends has no descriptor open. A whole close loop is one step of its process, as
is a `dup2` with the `close` that follows it.
-/

set_option autoImplicit false

namespace EltexCourse.Source.Pipeline.Execution
open Foundations.Descriptors Foundations.Programs Foundations.Transition

variable {Inherited Byte σ : Type}

/-- main.c:177-225. -/
inductive ParentPc where
  /-- Before the `fork` of child `i`. -/
  | forking (i : Nat)
  /-- Behind it. -/
  | closingRead (i : Nat)
  | closingWrite (i : Nat)
  /-- Before the last close loop. -/
  | closing
  /-- Before the `waitpid` of `pids[i]`. -/
  | waiting (i : Nat)
  | returned
  deriving DecidableEq, Repr

/-- main.c:183-199. -/
inductive ChildPc (σ : Type) where
  | absent
  /-- Before `if (i > 0) …`. -/
  | stdin
  /-- Before `if (i < *count-1) …`. -/
  | stdout
  /-- Before the close loop and `execvp`. -/
  | closing
  | running (program : σ)
  | exited (status : Nat)
  /-- By SIGPIPE. -/
  | killed

structure State (Inherited Byte σ : Type) where
  parentPc : ParentPc
  parent : Table (File Inherited)
  childPc : Nat → ChildPc σ
  child : Nat → Table (File Inherited)
  /-- What `pipes[k]` holds. -/
  pipe : Nat → List Byte
  /-- What is left to read in a file of the shell's. -/
  unread : Inherited → List Byte
  /-- What the commands have written to one. -/
  written : Inherited → List Byte
  /-- The child and the status in each `fprintf(stderr, …)`. -/
  reports : List (Nat × Nat)

inductive Action where
  | parent
  | child (i : Nat)
  deriving DecidableEq, Repr

/-- `pipes` with the table in which the first loop leaves the shell. -/
def opened (shell : Table Inherited) (count : Nat) : List (Nat × Nat) × Table (File Inherited) :=
  makePipes (shell.map .inherited) (count - 1)

def initial (shell : Table Inherited) (count : Nat) (unread : Inherited → List Byte) :
    State Inherited Byte σ :=
  { parentPc := .forking 0, parent := (opened shell count).2, childPc := fun _ => .absent,
    child := fun _ => Table.empty, pipe := fun _ => [], unread := unread, written := fun _ => [],
    reports := [] }

namespace State

variable (s : State Inherited Byte σ)

def goesOn (i : Nat) (program : σ) : State Inherited Byte σ :=
  { s with childPc := Function.update s.childPc i (.running program) }

/-- A child before its `execvp`. -/
def prepares (i : Nat) (pc : ChildPc σ) (t : Table (File Inherited)) : State Inherited Byte σ :=
  { s with childPc := Function.update s.childPc i pc, child := Function.update s.child i t }

/-- The kernel closes what the process had open. -/
def ends (i : Nat) (pc : ChildPc σ) : State Inherited Byte σ := s.prepares i pc Table.empty

def fills (k : Nat) (bytes : List Byte) : State Inherited Byte σ :=
  { s with pipe := Function.update s.pipe k bytes }

variable [DecidableEq Inherited]

/-- Whether some process has the file open. -/
def held (count : Nat) (f : File Inherited) : Bool :=
  s.parent.has f || (List.range count).any fun i => (s.child i).has f

def leavesUnread (f : Inherited) (bytes : List Byte) : State Inherited Byte σ :=
  { s with unread := Function.update s.unread f bytes }

def appends (f : Inherited) (b : Byte) : State Inherited Byte σ :=
  { s with written := Function.update s.written f (s.written f ++ [b]) }

/-- A read of descriptor 0 by child `i`. Of an end to write to, or of a number
that is not open, nothing is read. -/
def readStep (count : Nat) (i : Nat) (next : Option Byte → σ) :
    Option (State Inherited Byte σ) :=
  match (s.child i).file 0 with
  | some (.inherited f) =>
    match s.unread f with
    | [] => some (s.goesOn i (next none))
    | b :: rest => some ((s.leavesUnread f rest).goesOn i (next (some b)))
  | some (.readEnd k) =>
    match s.pipe k with
    | [] => if s.held count (.writeEnd k) then none else some (s.goesOn i (next none))
    | b :: rest => some ((s.fills k rest).goesOn i (next (some b)))
  | _ => some (s.goesOn i (next none))

/-- A write to descriptor 1; where there is nothing to write to, nothing is written. -/
def writeStep (count capacity : Nat) (i : Nat) (b : Byte) (next : σ) :
    Option (State Inherited Byte σ) :=
  match (s.child i).file 1 with
  | some (.inherited f) => some ((s.appends f b).goesOn i next)
  | some (.writeEnd k) =>
    if s.held count (.readEnd k) then
      if (s.pipe k).length < capacity then some ((s.fills k (s.pipe k ++ [b])).goesOn i next)
      else none
    else some (s.ends i .killed)
  | _ => some (s.goesOn i next)

end State

/-- The `for` statements go on with the next child, or are left. -/
def nextFork (count i : Nat) : ParentPc := if i + 1 < count then .forking (i + 1) else .closing

def nextWait (count i : Nat) : ParentPc := if i + 1 < count then .waiting (i + 1) else .returned

/-- main.c:177-225. -/
def parentStep (pipes : List (Nat × Nat)) (count : Nat) (s : State Inherited Byte σ) :
    Option (State Inherited Byte σ) :=
  match s.parentPc with
  | .forking i => some { s.prepares i .stdin s.parent with parentPc := .closingRead i }
  | .closingRead i =>
    (closeRead pipes i s.parent).map fun t => { s with parent := t, parentPc := .closingWrite i }
  | .closingWrite i =>
    (closeWrite pipes count i s.parent).map fun t =>
      { s with parent := t, parentPc := nextFork count i }
  | .closing =>
    some { s with parent := Table.closePairs pipes s.parent, parentPc := .waiting 0 }
  | .waiting i =>
    match s.childPc i with
    | .exited status =>
      some { s with
        reports := if status = 0 then s.reports else s.reports ++ [(i, status)]
        parentPc := nextWait count i }
    | .killed => some { s with parentPc := nextWait count i }
    | _ => none
  | .returned => none

variable [DecidableEq Inherited]

/-- main.c:183-197. -/
def childStep (act : σ → Act Byte σ) (capacity : Nat) (pipes : List (Nat × Nat))
    (commands : List σ) (s : State Inherited Byte σ) (i : Nat) : Option (State Inherited Byte σ) :=
  match s.childPc i with
  | .stdin => (childStdin pipes i (s.child i)).map fun t => s.prepares i .stdout t
  | .stdout =>
    (childStdout pipes commands.length i (s.child i)).map fun t => s.prepares i .closing t
  | .closing =>
    commands[i]?.map fun command =>
      s.prepares i (.running command) (Table.closePairs pipes (s.child i))
  | .running program =>
    match act program with
    | .read next => s.readStep commands.length i next
    | .write b next => s.writeStep commands.length capacity i b next
    | .exit status => some (s.ends i (.exited status))
  | _ => none

/-- Every step is logged. -/
def execution (act : σ → Act Byte σ) (capacity : Nat) (shell : Table Inherited)
    (commands : List σ) : System (State Inherited Byte σ) Action Action where
  step s
    | .parent => parentStep (opened shell commands.length).1 commands.length s
    | .child i => childStep act capacity (opened shell commands.length).1 commands s i
  emit _ a := [a]

end EltexCourse.Source.Pipeline.Execution
