import EltexCourse.Foundations.Cells
import EltexCourse.Foundations.Decimal
import EltexCourse.Foundations.Transition
import EltexCourse.Source.Chat.Data

/-!
# The chat's table of entries in memory

`data.c` again, with the block behind `struct data` and its growth. Allocations
succeed; what `malloc` and `realloc` return has not been written. An access
outside the block has no defined result.
-/

set_option autoImplicit false

namespace EltexCourse.Source.Chat
open Foundations.Cells Foundations.Decimal Foundations.Transition

structure Store where
  size : Int
  capacity : Int
  data : Block DataArr
  deriving DecidableEq, Repr

namespace Store

/-- data.c:6-14. -/
def dataInit : Store := ⟨0, 1, malloc 1⟩

/-- data.c:20-34. The entry is stored field by field. -/
def dataAdd (m : Store) (entry : DataArr) : Option Store := do
  let m ← if m.size = m.capacity then do
      let capacity ← int (m.capacity * 2)
      some { m with capacity, data := realloc m.data capacity.toNat }
    else some m
  let data ← write m.data m.size entry
  let size ← int (m.size + 1)
  some { m with data, size }

/-- The loop of `data_find`, with the turns that `i < m->size` leaves, data.c:45-49. -/
def findLoop (m : Store) (id : Int) (i : Int) : Nat → Option Int
  | 0 => some (-1)
  | turns + 1 => do
    let entry ← read m.data i
    if entry.id = id then some i else findLoop m id (i + 1) turns

/-- data.c:44-51. -/
def dataFind (m : Store) (id : Int) : Option Int := findLoop m id 0 m.size.toNat

/-- The loop of `data_delete`, with the turns that `index < m->size-1` leaves,
data.c:38-40. -/
def shiftLoop (data : Block DataArr) (index : Int) : Nat → Option (Block DataArr)
  | 0 => some data
  | turns + 1 => do
    let entry ← read data (index + 1)
    let data ← write data index entry
    shiftLoop data (index + 1) turns

/-- data.c:36-42. -/
def dataDelete (m : Store) (id : Int) : Option Store := do
  let index ← dataFind m id
  let data ← shiftLoop m.data index (m.size - 1 - index).toNat
  let size ← int (m.size - 1)
  some { m with data, size }

end Store

inductive DataCall where
  | init
  | add (entry : DataArr)
  | delete (id : Int)
  | find (id : Int)
  deriving DecidableEq, Repr

def Store.step (m : Store) : DataCall → Option Store
  | .init => some dataInit
  | .add entry => dataAdd m entry
  | .delete id => dataDelete m id
  | .find id => (dataFind m id).map fun _ => m

/-- Calls in some order behind a first `data_init`. -/
def dataCalls : System Store DataCall DataCall := ⟨Store.step, fun _ a => [a]⟩

end EltexCourse.Source.Chat
