import EltexCourse.Foundations.Transition
import EltexCourse.Source.Drivers.Driver

/-!
# task_drivers: one driver and whatever is sent to it

A driver with time passing, messages written to its pipe `in` in any order, and
its replies taken from `out`.
-/

set_option autoImplicit false

namespace EltexCourse.Source.Drivers
open Foundations.Transition

inductive Happening where
  | send (m : Msg)
  | elapse (ns : Nat)
  /-- The driver takes a step. -/
  | turn
  | receive
  deriving DecidableEq, Repr

inductive Seen where
  | elapsed (ns : Nat)
  /-- `select` has returned. -/
  | selected
  /-- A message with a time was read. -/
  | tasked (sec : Int)
  | replied (m : Msg)
  deriving DecidableEq, Repr

namespace Driver

/-- A write to a full pipe, and a read from an empty one, have to wait. -/
def happen (capacity : Nat) (d : Driver) : Happening → Option Driver
  | .send m =>
    if d.requests.length < capacity then some { d with requests := d.requests ++ [m] } else none
  | .elapse ns => some { d with timer := d.timer.elapse ns }
  | .turn => (d.turn capacity).map Prod.fst
  | .receive =>
    match d.replies with
    | [] => none
    | _ :: replies => some { d with replies }

/-- What is done with one message. -/
def serves (d : Driver) (buff : Msg) : List Seen :=
  if buff.time ≠ 0 then [.tasked buff.time] else (d.handle buff).2.map .replied

def seen (d : Driver) : Happening → List Seen
  | .elapse ns => [.elapsed ns]
  | .turn =>
    match d.pc, d.requests with
    | .waiting, _ => [.selected]
    | .serving, buff :: requests => { d with requests }.serves buff
    | _, _ => []
  | .send _ | .receive => []

end Driver

/-- `capacity` is how many messages a pipe holds. -/
def alone (capacity : Nat) : System Driver Happening Seen := ⟨Driver.happen capacity, Driver.seen⟩

end EltexCourse.Source.Drivers
