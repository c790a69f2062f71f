import EltexCourse.Foundations.CString
import EltexCourse.Foundations.Transition
import EltexCourse.Foundations.Links

/-!
# task6: the directory as a linked list

DM_abonent_directory.c and the menu of main.c. The heap maps an address to the
block that is live there, a cell or a record. `malloc` succeeds and returns an
address at which nothing is live, which may have been freed before: the action
of the menu names the two addresses an addition gets. A step that uses a block
that is not live (NULL, freed, or of the other kind), or that calls `exit(1)`,
has no defined result.
-/

set_option autoImplicit false

namespace EltexCourse.Source.Abonents.Linked
open Foundations.CString Foundations.Transition

/-- DM_abonent_directory.h:3-7. `struct abonent`: the three strings `scanf` has read. -/
structure Abonent where
  name : Text
  secondName : Text
  tel : Text
  deriving DecidableEq, Repr

/-- DM_abonent_directory.h:9-13. -/
structure Cell (Addr : Type) where
  data : Addr
  prev : Option Addr
  next : Option Addr
  deriving DecidableEq, Repr

inductive Block (Addr : Type) where
  | record (abonent : Abonent)
  | cell (cell : Cell Addr)
  deriving DecidableEq, Repr

variable {Addr : Type}

abbrev Heap (Addr : Type) := Addr → Option (Block Addr)

/-- DM_abonent_directory.h:15-19. -/
structure Directory (Addr : Type) where
  heap : Heap Addr
  head : Option Addr
  tail : Option Addr
  capacity : Int

def Block.asCell : Block Addr → Option (Cell Addr)
  | .cell fields => some fields
  | .record _ => none

def Block.asRecord : Block Addr → Option Abonent
  | .cell _ => none
  | .record strings => some strings

def cellOf (heap : Heap Addr) (a : Addr) : Option (Cell Addr) := (heap a).bind Block.asCell

def recordOf (heap : Heap Addr) (a : Addr) : Option Abonent := (heap a).bind Block.asRecord

/-- `p->next`, `p->prev` and `p->data`. -/
def nextOf (heap : Heap Addr) (a : Addr) : Option (Option Addr) := (cellOf heap a).map Cell.next

def prevOf (heap : Heap Addr) (a : Addr) : Option (Option Addr) := (cellOf heap a).map Cell.prev

def dataOf (heap : Heap Addr) (a : Addr) : Option Addr := (cellOf heap a).map Cell.data

section

variable [DecidableEq Addr]

/-- `p->next = next`. -/
def setNext (heap : Heap Addr) (p : Option Addr) (next : Option Addr) : Option (Heap Addr) := do
  let a ← p
  let cell ← cellOf heap a
  some (Function.update heap a (some (.cell { cell with next })))

def setPrev (heap : Heap Addr) (p : Option Addr) (prev : Option Addr) : Option (Heap Addr) := do
  let a ← p
  let cell ← cellOf heap a
  some (Function.update heap a (some (.cell { cell with prev })))

def free (heap : Heap Addr) (a : Addr) : Option (Heap Addr) :=
  if heap a = none then none else some (Function.update heap a none)

end

/-- DM_abonent_directory.c:8-13. -/
def directoryInit : Directory Addr := ⟨fun _ => none, none, none, 0⟩

section

variable [DecidableEq Addr]

/-- DM_abonent_directory.c:29-57. `malloc` returns `cell`. -/
def cellAdd (dir : Directory Addr) (abonent cell : Addr) : Option (Directory Addr) :=
  if dir.capacity = 100 then none
  else
    match dir.head with
    | none =>
      some { heap := Function.update dir.heap cell (some (.cell ⟨abonent, none, none⟩))
             head := some cell, tail := some cell, capacity := dir.capacity + 1 }
    | some _ => do
      let heap ← setNext (Function.update dir.heap cell (some (.cell ⟨abonent, dir.tail, none⟩)))
        dir.tail (some cell)
      some { dir with heap, tail := some cell, capacity := dir.capacity + 1 }

/-- DM_abonent_directory.c:60-66. The loop of `cell_search`, with the turns that `i <
dir->capacity` leaves. -/
def searchLoop (heap : Heap Addr) (name : Text) : Nat → Option Addr → Option (Option Addr)
  | 0, cur => some cur
  | _ + 1, none => some none
  | turns + 1, some cur => do
    let data ← dataOf heap cur
    let abonent ← recordOf heap data
    if abonent.name = name then some (some cur)
    else do
      let next ← nextOf heap cur
      searchLoop heap name turns next

/-- DM_abonent_directory.c:59-69. -/
def cellSearch (dir : Directory Addr) (name : Text) : Option (Option Addr) :=
  searchLoop dir.heap name dir.capacity.toNat dir.head

/-- `free(cell->data); free(cell);` -/
def release (heap : Heap Addr) (cell : Addr) : Option (Heap Addr) := do
  let data ← dataOf heap cell
  let heap ← free heap data
  free heap cell

/-- DM_abonent_directory.c:73-78. -/
def freeLoop (heap : Heap Addr) : Nat → Option Addr → Option (Heap Addr)
  | 0, _ => some heap
  | _ + 1, none => some heap
  | turns + 1, some cur => do
    let buff ← nextOf heap cur
    let heap ← release heap cur
    freeLoop heap turns buff

/-- DM_abonent_directory.c:71-84. -/
def dirFree (dir : Directory Addr) : Option (Directory Addr) := do
  let heap ← freeLoop dir.heap dir.capacity.toNat dir.head
  some ⟨heap, none, none, 0⟩

/-- DM_abonent_directory.c:86-115. -/
def cellRemove (dir : Directory Addr) : Option Addr → Option (Directory Addr)
  | none => some dir
  | some cell =>
    if dir.head = some cell then do
      let next ← nextOf dir.heap cell
      let heap ← if next = none then some dir.heap else setPrev dir.heap next none
      let head ← nextOf heap cell
      let heap ← release heap cell
      some { dir with heap, head, capacity := dir.capacity - 1 }
    else if dir.tail = some cell then do
      let prev ← prevOf dir.heap cell
      let heap ← if prev = none then some dir.heap else setNext dir.heap prev none
      let tail ← prevOf heap cell
      let heap ← release heap cell
      some { dir with heap, tail, capacity := dir.capacity - 1 }
    else do
      let next ← nextOf dir.heap cell
      let prev ← prevOf dir.heap cell
      let heap ← setPrev dir.heap next prev
      let prev ← prevOf heap cell
      let next ← nextOf heap cell
      let heap ← setNext heap prev next
      let heap ← release heap cell
      some { dir with heap, capacity := dir.capacity - 1 }

/-- main.c:69-73. `while(cur)` of case 4, the records printed; a list that is longer
than `fuel` has no defined result. -/
def printLoop (heap : Heap Addr) : Nat → Option Addr → Option (List Abonent)
  | _, none => some []
  | 0, some _ => none
  | fuel + 1, some cur => do
    let data ← dataOf heap cur
    let abonent ← recordOf heap data
    let next ← nextOf heap cur
    (printLoop heap fuel next).map (abonent :: ·)

def printAll (dir : Directory Addr) : Option (List Abonent) :=
  printLoop dir.heap dir.capacity.toNat dir.head

/-- Case 3: what is printed, if the name is found, main.c:51-67. -/
def searchAndPrint (dir : Directory Addr) (name : Text) : Option (Option Abonent) := do
  let cell ← cellSearch dir name
  match cell with
  | none => some none
  | some cell => do
    let data ← dataOf dir.heap cell
    let abonent ← recordOf dir.heap data
    some (some abonent)

/-- DM_abonent_directory.c:117-119. `abonent_print`. -/
def abonentPrint (ab : Abonent) : Text :=
  ['\n', 'И', 'м', 'я', ':', ' '] ++ ab.name ++
    ['\n', 'Ф', 'а', 'м', 'и', 'л', 'и', 'я', ':', ' '] ++ ab.secondName ++
    ['\n', 'Н', 'о', 'м', 'е', 'р', ':', ' '] ++ ab.tel ++ ['\n', '\n']

inductive Action (Addr : Type) where
  | add (abonent : Abonent) (record cell : Addr)
  | delete (name : Text)
  | search (name : Text)
  | print
  deriving DecidableEq, Repr

/-- The menu, main.c:19-83. -/
def step (dir : Directory Addr) : Action Addr → Option (Directory Addr)
  | .add abonent record cell =>
    if dir.capacity = 100 then some dir
    else cellAdd { dir with heap := Function.update dir.heap record (some (.record abonent)) }
      record cell
  | .delete name =>
    if dir.capacity = 0 then some dir
    else do
      let cell ← cellSearch dir name
      cellRemove dir cell
  | .search name =>
    if dir.capacity = 0 then some dir else (searchAndPrint dir name).map fun _ => dir
  | .print => (printAll dir).map fun _ => dir

/-- A run is observed by what the user asks for. -/
def system : System (Directory Addr) (Action Addr) (Action Addr) := ⟨step, fun _ a => [a]⟩

/-- The addresses `malloc` may return. -/
def Allocates (dir : Directory Addr) : Action Addr → Prop
  | .add _ record cell => dir.heap record = none ∧ dir.heap cell = none ∧ record ≠ cell
  | _ => True

instance (dir : Directory Addr) : (a : Action Addr) → Decidable (Allocates dir a)
  | .add _ _ _ => inferInstanceAs (Decidable (_ ∧ _))
  | .delete _ | .search _ | .print => inferInstanceAs (Decidable True)

/-- Calls of `cell_add`, with a record made for it, and of `cell_remove`. -/
inductive CellCall (Addr : Type) where
  | add (abonent : Abonent) (record cell : Addr)
  | remove (cell : Addr)
  deriving DecidableEq, Repr

def cellStep (dir : Directory Addr) : CellCall Addr → Option (Directory Addr)
  | .add abonent record cell =>
    cellAdd { dir with heap := Function.update dir.heap record (some (.record abonent)) }
      record cell
  | .remove cell => cellRemove dir (some cell)

def cellCalls : System (Directory Addr) (CellCall Addr) (CellCall Addr) :=
  ⟨cellStep, fun _ a => [a]⟩

end

end EltexCourse.Source.Abonents.Linked
