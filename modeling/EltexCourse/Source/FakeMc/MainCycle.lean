import Mathlib.Logic.Function.Basic
import EltexCourse.Foundations.Transition
import EltexCourse.Foundations.Decimal

/-!
# task9/fake_mc: two panels and one listing

`refresh_index` of indexes.c, the functions of my_funcs.c and the main cycle of
main.c. Each panel has its own target and window; `namelist` and `ndirs` are
shared and belong to the directory scanned last. One step is one key. What
`stat` and `scandir` return is given with the key. An `int` computed beyond its
range has no defined result. Which directory is scanned is not modelled: any
number of entries may be found.
-/

set_option autoImplicit false

namespace EltexCourse.Source.FakeMc
open Foundations.Transition Foundations.Decimal

/-- `struct index`, indexes.h:3-6. -/
structure Index where
  up : Int
  down : Int
  deriving DecidableEq, Repr

structure Panel where
  target : Int
  ind : Index
  deriving DecidableEq, Repr

inductive Side where
  | left
  | right
  deriving DecidableEq, Repr

def Side.other : Side → Side
  | .left => .right
  | .right => .left

/-- indexes.c:3-11. -/
def refreshIndex (ind : Index) (target : Int) : Option Index :=
  if target < ind.up then do
    let gap ← int (ind.up - target)
    let down ← int (ind.down - gap)
    some { up := target, down }
  else if target = ind.down then do
    let down ← int (ind.down + 1)
    let up ← int (ind.up + 1)
    some { up, down }
  else some ind

/-- my_funcs.c:20-39. The loop of `print_dirs` from `i` to `stop`: the subscripts at
which `namelist` is read, when it ends within so many turns. It returns early where
`stat` fails. -/
def printLoop (shown : Int → Bool) (i stop : Int) : Nat → Option (List Int)
  | 0 => none
  | turns + 1 =>
    if i = stop then some []
    else if shown i then (printLoop shown (i + 1) stop turns).map (i :: ·)
    else some [i]

/-- `print_dirs`, my_funcs.c:15-42. -/
def printDirs (shown : Int → Bool) (ndirs : Int) (ind : Index) (turns : Nat) :
    Option (List Int) :=
  printLoop shown ind.up (if ndirs < ind.down then ndirs else ind.down) turns

/-- `move_down` up to the call of `print_dirs`, my_funcs.c:44-49. -/
def moveDown (ndirs : Int) (panel : Panel) : Option Panel := do
  let last ← int (ndirs - 1)
  let target ← int (panel.target + if panel.target = last then 0 else 1)
  let ind ← refreshIndex panel.ind target
  some { target, ind }

/-- `move_up` up to the call of `print_dirs`, my_funcs.c:51-56. -/
def moveUp (panel : Panel) : Option Panel := do
  let target ← int (panel.target - if panel.target = 0 then 0 else 1)
  let ind ← refreshIndex panel.ind target
  some { target, ind }

/-- What the system calls made for one key return. -/
structure Answers where
  /-- `stat` of the target: whether it is a directory, or failure. -/
  isDir : Option Bool
  /-- `scandir`. -/
  scan : Int
  /-- Whether `stat` of an entry succeeds while it is printed. -/
  shown : Int → Bool

/-- What `open_dir` comes to. -/
inductive Opened where
  /-- It returns -1. -/
  | failed
  /-- The target is no directory. -/
  | unchanged
  | entered (ndirs : Int) (panel : Panel)
  deriving DecidableEq, Repr

/-- `open_dir` up to the call of `print_dirs`, my_funcs.c:58-89. -/
def openDir (panel : Panel) (answers : Answers) : Option Opened :=
  match answers.isDir with
  | none => some .failed
  | some false => some .unchanged
  | some true =>
    if answers.scan < 0 then some .failed
    else do
      let ind ← refreshIndex panel.ind 0
      some (.entered answers.scan { target := 0, ind })

structure State where
  /-- The panel in use. -/
  cnd : Side
  ndirs : Int
  panel : Side → Panel
  running : Bool

inductive Key where
  | down
  | up
  | enter
  | tab
  | quit
  | other
  deriving DecidableEq, Repr

/-- One pass of the main cycle. -/
structure Press where
  key : Key
  answers : Answers

def State.focused (s : State) : Panel := s.panel s.cnd

def State.setFocused (s : State) (panel : Panel) : State :=
  { s with panel := Function.update s.panel s.cnd panel }

/-- The test of `scandir` behind a tab, main.c:94-120. -/
def State.rescan (s : State) (scan : Int) : State :=
  { s with cnd := s.cnd.other, ndirs := scan, running := 0 ≤ scan }

def State.afterOpen (s : State) : Opened → State
  | .failed => { s with running := false }
  | .unchanged => s
  | .entered ndirs panel => { s.setFocused panel with ndirs }

/-- main.c:67-127. -/
def press (s : State) (p : Press) : Option State :=
  if s.running then
    match p.key with
    | .down => (moveDown s.ndirs s.focused).map s.setFocused
    | .up => (moveUp s.focused).map s.setFocused
    | .enter => (openDir s.focused p.answers).map s.afterOpen
    | .tab => some (s.rescan p.answers.scan)
    | .quit => some { s with running := false }
    | .other => some s
  else none

/-- A use of `namelist`. -/
inductive Access where
  /-- `open_dir` reads one entry. -/
  | entry (i ndirs : Int)
  /-- A call of `print_dirs`. -/
  | print (shown : Int → Bool) (ndirs : Int) (ind : Index)

def Opened.accesses (shown : Int → Bool) : Opened → List Access
  | .entered ndirs panel => [.print shown ndirs panel.ind]
  | .failed | .unchanged => []

/-- The uses of `namelist` that one key leads to. The loop that frees the old list in
`open_dir` (my_funcs.c:70-73) is left out: it goes over the same `ndirs` entries from
the first to the last. -/
def accesses (s : State) (p : Press) : List Access :=
  match p.key with
  | .down =>
    (moveDown s.ndirs s.focused).toList.map fun panel => .print p.answers.shown s.ndirs panel.ind
  | .up => (moveUp s.focused).toList.map fun panel => .print p.answers.shown s.ndirs panel.ind
  | .enter =>
    .entry s.focused.target s.ndirs ::
      (openDir s.focused p.answers).toList.flatMap (Opened.accesses p.answers.shown)
  | .tab | .quit | .other => []

/-- The log has one entry for each key. -/
def mainCycle : System State Press (List Access) where
  step := press
  emit s p := [accesses s p]

/-- What main prepares on a terminal of `rows` rows, main.c:53-57. -/
def start (rows ndirs : Int) : State :=
  { cnd := .left
    ndirs
    panel := fun _ => { target := 0, ind := { up := 0, down := rows - 2 } }
    running := true }

/-- The two calls of `print_dirs` before the main cycle, main.c:58-60. -/
def startAccesses (shown : Side → Int → Bool) (rows ndirs : Int) : List Access :=
  [.print (shown .left) ndirs ((start rows ndirs).panel .left).ind,
    .print (shown .right) ndirs ((start rows ndirs).panel .right).ind]

/-- Whatever is scanned has at least one entry. -/
def Scanned (_ : State) (p : Press) : Prop := 1 ≤ p.answers.scan ∧ IsInt p.answers.scan

instance (s : State) (p : Press) : Decidable (Scanned s p) := inferInstanceAs (Decidable (_ ∧ _))

end EltexCourse.Source.FakeMc
