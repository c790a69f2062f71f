import Mathlib.Logic.Function.Basic
import Mathlib.Tactic.Ring
import EltexCourse.Foundations.Transition

/-!
# task_echo: the table of clients

list.c. The heap maps an address to the node that is live there; nothing is
freed before the server ends. `malloc` succeeds and returns an address at which
nothing is live, which is given with the call. A step through an address that
is not live, an `int` counted beyond its range, and a search that does not end
within as many turns as `size` counts nodes, have no defined result.
-/

set_option autoImplicit false

namespace EltexCourse.Source.Echo
open Foundations.Transition

/-- list.h:3-8. -/
structure Node (Addr : Type) where
  ip : Int
  port : Int
  count : Int
  next : Option Addr
  deriving DecidableEq, Repr

abbrev Heap (Addr : Type) := Addr → Option (Node Addr)

/-- `struct list`, and the heap its nodes are in, list.h:10-14. -/
structure ClientList (Addr : Type) where
  heap : Heap Addr
  head : Option Addr
  tail : Option Addr
  size : Int

variable {Addr : Type}

/-- `n++` on an `int`. -/
def increment (n : Int) : Option Int := if n + 1 < 2 ^ 31 then some (n + 1) else none

/-- list.c:4-10. -/
def listInit : ClientList Addr := ⟨fun _ => none, none, none, 0⟩

/-- The loop of `list_find`, list.c:13-19. -/
def findLoop (heap : Heap Addr) (ip port : Int) : Nat → Option Addr → Option (Option Addr)
  | 0, _ => none
  | _ + 1, none => some none
  | turns + 1, some n => do
    let node ← heap n
    if node.ip = ip ∧ node.port = port then some (some n)
    else findLoop heap ip port turns node.next

/-- list.c:12-21. -/
def listFind (list : ClientList Addr) (ip port : Int) : Option (Option Addr) :=
  findLoop list.heap ip port (list.size.toNat + 1) list.head

variable [DecidableEq Addr]

/-- `n->count = count`. -/
def setCount (list : ClientList Addr) (n : Addr) (node : Node Addr) (count : Int) :
    ClientList Addr :=
  { list with heap := Function.update list.heap n (some { node with count }) }

/-- The new table and the count returned, list.c:23-50. -/
def listAdd (list : ClientList Addr) (ip port : Int) (malloc : Addr) :
    Option (ClientList Addr × Int) :=
  match list.head with
  | none => do
    let heap := Function.update list.heap malloc (some ⟨ip, port, 1, none⟩)
    let size ← increment list.size
    some (⟨heap, some malloc, some malloc, size⟩, 1)
  | some _ => do
    let found ← listFind list ip port
    match found with
    | none => do
      let heap := Function.update list.heap malloc (some ⟨ip, port, 1, none⟩)
      let tail ← list.tail
      let last ← heap tail
      let heap := Function.update heap tail (some { last with next := some malloc })
      let size ← increment list.size
      some ({ list with heap, tail := some malloc, size }, 1)
    | some n => do
      let node ← list.heap n
      let count ← increment node.count
      some (setCount list n node count, count)

/-- list.c:52-58. -/
def listSwitchOff (list : ClientList Addr) (ip port : Int) : Option (ClientList Addr) := do
  let found ← listFind list ip port
  match found with
  | none => some list
  | some n => do
    let node ← list.heap n
    some (setCount list n node 0)

inductive Call (Addr : Type) where
  | add (ip port : Int) (malloc : Addr)
  | switchOff (ip port : Int)
  deriving DecidableEq, Repr

inductive Event where
  | added (ip port count : Int)
  | switchedOff (ip port : Int)
  deriving DecidableEq, Repr

def call (list : ClientList Addr) : Call Addr → Option (ClientList Addr × Event)
  | .add ip port malloc =>
    (listAdd list ip port malloc).map fun result => (result.1, .added ip port result.2)
  | .switchOff ip port =>
    (listSwitchOff list ip port).map fun list => (list, .switchedOff ip port)

def calls : System (ClientList Addr) (Call Addr) Event where
  step list c := (call list c).map Prod.fst
  emit list c := ((call list c).map Prod.snd).toList

/-- `malloc` returns an address at which nothing is live. -/
def Allocates (list : ClientList Addr) : Call Addr → Prop
  | .add _ _ malloc => list.heap malloc = none
  | .switchOff _ _ => True

instance : ∀ (list : ClientList Addr) (c : Call Addr), Decidable (Allocates list c)
  | list, .add _ _ malloc => inferInstanceAs (Decidable (list.heap malloc = none))
  | _, .switchOff _ _ => isTrue trivial

end EltexCourse.Source.Echo
