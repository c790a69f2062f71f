import Mathlib.Data.Fintype.Pi
import EltexCourse.Foundations.Transition
import EltexCourse.Foundations.Decimal

/-!
# task11.3: customers, a loader and five cells

main.c with any number of customers. One step is a lock, a read or a write of a
shared variable, a write of the customer's `need`, or an unlock; what stands
between two of these is private. `MIN` is a macro and reads its smaller argument
a second time. A mutex has one permit. The loops' choices are given with the
step. The sums of the source are those of the machine, which keeps the low 32
bits; in C, a sum beyond the range of `int` has no defined value. Each loop prints
while it holds the mutex; that and `sleep` are left out.
-/

set_option autoImplicit false

namespace EltexCourse.Source.Warehouse
open Foundations.Transition Foundations.Decimal

abbrev Cell := Fin 5

/-- Where a customer is in `customer_routine` and `get_items`, main.c:30-81. -/
inductive CustomerPc where
  /-- At the test of `need`. -/
  | testing
  | locking (choice : Cell)
  /-- Before the comparison in `MIN`. -/
  | comparing (choice : Cell)
  /-- `MIN` has compared; `less` says that the cell has less than is needed. -/
  | choosing (choice : Cell) (less : Bool)
  /-- Before the read of the cell in `-=`. -/
  | reading (choice : Cell) (minVal : Int)
  | writing (choice : Cell) (minVal stored : Int)
  /-- Before `*need -= min_val`. -/
  | paying (choice : Cell) (minVal : Int)
  | unlocking (choice : Cell)
  | stopped
  deriving DecidableEq, Repr

/-- Where the loader is in `loader_routine` and `set_item`, main.c:40-113. -/
inductive LoaderPc where
  /-- At the test of `is_loader_working`. -/
  | testing
  | locking (choice : Cell)
  | reading (choice : Cell)
  | writing (choice : Cell) (stored : Int)
  | unlocking (choice : Cell)
  | stopped
  deriving DecidableEq, Repr

variable {ι : Type}

structure State (ι : Type) where
  storedge : Cell → Int
  /-- `cell0` to `cell4`. -/
  mutex : Cell → Nat
  isLoaderWorking : Bool
  need : ι → Int
  customer : ι → CustomerPc
  loader : LoaderPc

inductive Action (ι : Type) where
  /-- The cell is what `rand() % 5` gives at the head of the loop. -/
  | customer (i : ι) (rand : Cell)
  | loader (rand : Cell)
  /-- `main` has joined all customers. -/
  | main
  deriving DecidableEq, Repr

/-- Writes to the cells. -/
inductive Event (ι : Type) where
  | taken (i : ι) (items : Int)
  | loaded (choice : Cell)
  deriving DecidableEq, Repr

section Steps

variable [DecidableEq ι]

def State.setCustomer (s : State ι) (i : ι) (pc : CustomerPc) : State ι :=
  { s with customer := Function.update s.customer i pc }

def State.setNeed (s : State ι) (i : ι) (need : Int) : State ι :=
  { s with need := Function.update s.need i need }

def State.setLoader (s : State ι) (pc : LoaderPc) : State ι := { s with loader := pc }

def State.store (s : State ι) (choice : Cell) (items : Int) : State ι :=
  { s with storedge := Function.update s.storedge choice items }

/-- `pthread_mutex_lock`, which blocks. -/
def State.lock (s : State ι) (choice : Cell) : Option (State ι) :=
  if 0 < s.mutex choice then
    some { s with mutex := Function.update s.mutex choice (s.mutex choice - 1) }
  else none

def State.unlock (s : State ι) (choice : Cell) : State ι :=
  { s with mutex := Function.update s.mutex choice (s.mutex choice + 1) }

/-- `customer_routine` with `get_items`, main.c:30-38 and 48-81. -/
def customerStep (s : State ι) (i : ι) (rand : Cell) : Option (State ι) :=
  match s.customer i with
  | .testing => some (s.setCustomer i (if s.need i ≠ 0 then .locking rand else .stopped))
  | .locking choice => (s.lock choice).map (·.setCustomer i (.comparing choice))
  | .comparing choice =>
    some (s.setCustomer i (.choosing choice (s.storedge choice < s.need i)))
  | .choosing choice less =>
    some (s.setCustomer i (.reading choice (if less then s.storedge choice else s.need i)))
  | .reading choice minVal =>
    some (s.setCustomer i (.writing choice minVal (s.storedge choice)))
  | .writing choice minVal stored =>
    some ((s.store choice (asInt (stored - minVal))).setCustomer i (.paying choice minVal))
  | .paying choice minVal =>
    some ((s.setNeed i (asInt (s.need i - minVal))).setCustomer i (.unlocking choice))
  | .unlocking choice => some ((s.unlock choice).setCustomer i .testing)
  | .stopped => none

/-- `loader_routine` with `set_item`, main.c:40-47 and 83-113. -/
def loaderStep (s : State ι) (rand : Cell) : Option (State ι) :=
  match s.loader with
  | .testing => some (s.setLoader (if s.isLoaderWorking then .locking rand else .stopped))
  | .locking choice => (s.lock choice).map (·.setLoader (.reading choice))
  | .reading choice => some (s.setLoader (.writing choice (s.storedge choice)))
  | .writing choice stored =>
    some ((s.store choice (asInt (stored + 500))).setLoader (.unlocking choice))
  | .unlocking choice => some ((s.unlock choice).setLoader .testing)
  | .stopped => none

def step [Fintype ι] (s : State ι) : Action ι → Option (State ι)
  | .customer i rand => customerStep s i rand
  | .loader rand => loaderStep s rand
  | .main =>
    if ∀ i, s.customer i = .stopped then some { s with isLoaderWorking := false } else none

end Steps

def emit (s : State ι) : Action ι → List (Event ι)
  | .customer i _ =>
    match s.customer i with
    | .writing _ minVal _ => [.taken i minVal]
    | _ => []
  | .loader _ =>
    match s.loader with
    | .writing choice _ => [.loaded choice]
    | _ => []
  | .main => []

def warehouse [DecidableEq ι] [Fintype ι] : System (State ι) (Action ι) (Event ι) where
  step := step
  emit := emit

def start (initial : ι → Int) : State ι :=
  { storedge := fun _ => 500
    mutex := fun _ => 1
    isLoaderWorking := true
    need := initial
    customer := fun _ => .testing
    loader := .testing }

end EltexCourse.Source.Warehouse
