import EltexCourse.Foundations.CBuffer
import EltexCourse.Foundations.Looping
import EltexCourse.Foundations.Transition

/-!
# task4: the directory as an array

abonent_directory.c: the cases 1 to 3 of its menu and the functions they use.
A field is a block of bytes; an access outside a field, outside the array of
entries or to a field without a terminator has no defined result. What a user
types is given with the action, as the strings `scanf("%9s", …)` reads.
-/

set_option autoImplicit false

namespace EltexCourse.Source.Abonents.Array
open Foundations.CString Foundations.CBuffer Foundations.Looping Foundations.Transition

/-- `struct abonent`, abonent_directory.c:5-9. -/
structure Abonent where
  name : Text
  secondName : Text
  tel : Text
  deriving DecidableEq, Repr

/-- `struct Directory`, and the buffer `data` of `main`, abonent_directory.c:11-14 and
63. -/
structure Directory where
  directory : List Abonent
  capacity : Int
  data : Text
  deriving DecidableEq, Repr

/-- `data[i] = 0` for `i < n`. -/
def clearLoop (data : Text) : Nat → Option Text
  | 0 => some data
  | n + 1 => (clearLoop data n).bind fun data => store data n nul

/-- abonent_directory.c:16-20. -/
def clearData (data : Text) : Option Text := clearLoop data 10

/-- abonent_directory.c:22-26. -/
def clearAbonent (ab : Abonent) : Option Abonent := do
  let name ← clearData ab.name
  let secondName ← clearData ab.secondName
  let tel ← clearData ab.tel
  some ⟨name, secondName, tel⟩

/-- abonent_directory.c:28-30. -/
def copyData (data place : Text) : Option Text := strcpy place data

/-- `directory[index]`. -/
def entryAt (directory : List Abonent) (index : Int) : Option Abonent :=
  if 0 ≤ index then directory[index.toNat]? else none

/-- `clear_abonent(&directory[index])`. -/
def clearEntry (directory : List Abonent) (index : Nat) : Option (List Abonent) := do
  let ab ← entryAt directory index
  let ab ← clearAbonent ab
  store directory index ab

def clearEntries (directory : List Abonent) : Nat → Option (List Abonent)
  | 0 => some directory
  | n + 1 => (clearEntries directory n).bind fun directory => clearEntry directory n

/-- abonent_directory.c:32-37. The memory handed over is not initialised. -/
def directoryInit (dir : Directory) : Option Directory :=
  (clearEntries dir.directory 100).map fun directory => { dir with directory, capacity := 0 }

/-- The loop of `find_abonent_index`, with the turns that `i < 100` leaves,
abonent_directory.c:40-44. -/
def findLoop (data : Text) (directory : List Abonent) (i : Int) : Nat → Option Int
  | 0 => some (-1)
  | turns + 1 => do
    let ab ← entryAt directory i
    let wanted ← stringAt data 0
    let name ← stringAt ab.name 0
    if wanted = name then some i else findLoop data directory (i + 1) turns

/-- abonent_directory.c:39-50. -/
def findAbonentIndex (data : Text) (directory : List Abonent) (index : Int) : Option Int :=
  findLoop data directory index (100 - index).toNat

/-- One field of case 1: `data` is cleared, read and copied into place,
abonent_directory.c:78-83. -/
def readField (data place input : Text) : Option (Text × Text) := do
  let data ← clearData data
  let data ← writeString data input
  let data ← store data 9 nul
  let place ← copyData data place
  some (data, place)

/-- The three `copy_data` of one turn of the loop in case 2,
abonent_directory.c:118-120. -/
def copyAbonent (source ab : Abonent) : Option Abonent := do
  let name ← copyData source.name ab.name
  let secondName ← copyData source.secondName ab.secondName
  let tel ← copyData source.tel ab.tel
  some ⟨name, secondName, tel⟩

/-- `for(;index < dir.capacity; index++)`, with the turns left,
abonent_directory.c:117-121. -/
def shiftLoop (directory : List Abonent) (index : Nat) : Nat → Option (List Abonent)
  | 0 => some directory
  | turns + 1 => do
    let source ← entryAt directory (index + 1)
    let ab ← entryAt directory index
    let ab ← copyAbonent source ab
    let directory ← store directory index ab
    shiftLoop directory (index + 1) turns

inductive Action where
  | add (name secondName tel : Text)
  | delete (name : Text)
  deriving DecidableEq, Repr

/-- Case 1, abonent_directory.c:72-100. -/
def addAbonent (dir : Directory) (name secondName tel : Text) : Option Directory := do
  let ab ← entryAt dir.directory dir.capacity
  let (data, name) ← readField dir.data ab.name name
  let (data, secondName) ← readField data ab.secondName secondName
  let (data, tel) ← readField data ab.tel tel
  let directory ← store dir.directory dir.capacity.toNat ⟨name, secondName, tel⟩
  some ⟨directory, dir.capacity + 1, data⟩

/-- abonent_directory.c:115-122. The removal of the entry found: the loop leaves `index`
at the new capacity, or where it was if that is not below it. -/
def deleteAt (dir : Directory) (index : Nat) : Option Directory := do
  let directory ← clearEntry dir.directory index
  let capacity := dir.capacity - 1
  let turns := (capacity - index).toNat
  let directory ← shiftLoop directory index turns
  let directory ← clearEntry directory (index + turns)
  some { dir with directory, capacity }

/-- Case 2, abonent_directory.c:101-123. -/
def deleteAbonent (dir : Directory) (name : Text) : Option Directory := do
  let data ← writeString dir.data name
  let data ← store data 9 nul
  let index ← findAbonentIndex data dir.directory 0
  if index < 0 then some { dir with data }
  else deleteAt { dir with data } index.toNat

def step (dir : Directory) : Action → Option Directory
  | .add name secondName tel =>
    if dir.capacity = 100 then some dir else addAbonent dir name secondName tel
  | .delete name => if dir.capacity = 0 then some dir else deleteAbonent dir name

/-- A run is observed by what the user asks for. -/
def system : System Directory Action Action := ⟨step, fun _ a => [a]⟩

/-- What `scanf("%9s", …)` can read. -/
def Field (s : Text) : Prop := s ≠ [] ∧ nul ∉ s ∧ s.length ≤ 9

instance (s : Text) : Decidable (Field s) := inferInstanceAs (Decidable (_ ∧ _))

def Typed (_ : Directory) : Action → Prop
  | .add name secondName tel => Field name ∧ Field secondName ∧ Field tel
  | .delete name => Field name

instance (dir : Directory) : (a : Action) → Decidable (Typed dir a)
  | .add _ _ _ => inferInstanceAs (Decidable (_ ∧ _))
  | .delete name => inferInstanceAs (Decidable (Field name))

/-- The words may be any bytes; the one to delete has a string that is not empty. -/
def Entered (_ : Directory) : Action → Prop
  | .add name secondName tel => name.length ≤ 9 ∧ secondName.length ≤ 9 ∧ tel.length ≤ 9
  | .delete name => name.length ≤ 9 ∧ name.takeWhile (· ≠ nul) ≠ []

/-- `print_abonent`, abonent_directory.c:52-54. -/
def printAbonent (ab : Abonent) : Option Text := do
  let name ← stringAt ab.name 0
  let secondName ← stringAt ab.secondName 0
  let tel ← stringAt ab.tel 0
  some (['И', 'м', 'я', ':', ' '] ++ name ++
    ['\n', 'Ф', 'а', 'м', 'и', 'л', 'и', 'я', ':', ' '] ++ secondName ++
    ['\n', 'Н', 'о', 'м', 'е', 'р', ':', ' '] ++ tel ++ ['\n', '\n'])

/-- The first letter is a Latin one. -/
def noSuchLine : Text :=
  ['A', 'б', 'о', 'н', 'е', 'н', 'т', 'о', 'в', ' ', 'с', ' ', 'т', 'а', 'к', 'и', 'м', ' ',
    'и', 'м', 'е', 'н', 'е', 'м', ' ', 'н', 'е', 'т', '.', '\n']

/-- `index`, and what has been printed. -/
structure Search where
  index : Int
  printed : List Text

/-- One pass of `while(1)`, abonent_directory.c:131-143. -/
def searchTurn (data : Text) (directory : List Abonent) (s : Search) :
    Option (Turn Search (List Text)) := do
  let buff := s.index
  let index ← findAbonentIndex data directory (s.index + 1)
  if index > buff then do
    let ab ← entryAt directory index
    let line ← printAbonent ab
    some (.next ⟨index, s.printed ++ [line]⟩)
  else if buff > index then some (.stop s.printed)
  else if buff = index then some (.stop (s.printed ++ [noSuchLine]))
  else some (.next { s with index })

/-- What the loop runs with, abonent_directory.c:125-130. -/
def readName (data name : Text) : Option Text := do
  let data ← clearData data
  let data ← writeString data name
  store data 9 nul

/-- The search for a name ends with these lines printed. -/
def Searches (dir : Directory) (name : Text) (lines : List Text) : Prop :=
  ∃ data, readName dir.data name = some data ∧ Ends (searchTurn data dir.directory) ⟨-1, []⟩ lines

/-- The loop, with the turns that `i < dir.capacity` leaves,
abonent_directory.c:146-148. -/
def printLoop (directory : List Abonent) (i : Int) : Nat → Option (List Text)
  | 0 => some []
  | turns + 1 => do
    let ab ← entryAt directory i
    let text ← printAbonent ab
    (printLoop directory (i + 1) turns).map (text :: ·)

def printAll (dir : Directory) : Option (List Text) := printLoop dir.directory 0 dir.capacity.toNat

end EltexCourse.Source.Abonents.Array
