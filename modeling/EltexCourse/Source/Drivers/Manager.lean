import Mathlib.Logic.Function.Basic
import EltexCourse.Foundations.Transition
import EltexCourse.Source.Drivers.Driver

/-!
# task_drivers: the manager

The commands of `main` in main.c, what each makes the manager write and read,
and the manager with its drivers as one step system. Every index into `pids`
and `pipes` is checked. `pipe` does not fail; what `fork` returns is given with
the command, and so is the value the field `stat` of a `send_task` happens to
have.

Writing to a driver that has terminated kills the manager (`SIGPIPE`), reading
from it finds the end of the pipe. Of `quit` the writes are modelled; behind
them come only `close` and `waitpid`. The texts printed are not modelled.
-/

set_option autoImplicit false

namespace EltexCourse.Source.Drivers
open Foundations.Transition

/-- `MAX_DRIVERS`, main.c:10. -/
def maxDrivers : Nat := 10

/-- main.c:18-23. `struct drivers`, with `ndrivers` the length of `pids`; `pipes[2 * i]`
and `pipes[2 * i + 1]` are the two pipes of driver `i`. -/
structure Drv where
  pids : List Int
  lastIndex : Nat
  room : pids.length ≤ maxDrivers
  numbered : lastIndex = pids.length
  deriving DecidableEq

abbrev Drv.ndrivers (drv : Drv) : Nat := drv.pids.length

def Drv.initial : Drv := ⟨[], 0, Nat.zero_le _, rfl⟩

theorem Drv.room_add {drv : Drv} (free : drv.ndrivers ≠ maxDrivers) (pid : Int) :
    (drv.pids ++ [pid]).length ≤ maxDrivers := by
  rw [List.length_append, List.length_singleton]
  exact Nat.lt_of_le_of_ne drv.room free

theorem Drv.numbered_add (drv : Drv) (pid : Int) :
    drv.lastIndex + 1 = (drv.pids ++ [pid]).length := by
  rw [drv.numbered, List.length_append, List.length_singleton]

def Drv.add (drv : Drv) (free : drv.ndrivers ≠ maxDrivers) (pid : Int) : Drv :=
  ⟨drv.pids ++ [pid], drv.lastIndex + 1, Drv.room_add free pid, drv.numbered_add pid⟩

/-- The loop of `finf_index`, from index `i` on, main.c:26-31. -/
def findLoop (pid : Int) : List Int → Int → Int
  | [], _ => -1
  | other :: pids, i => if other = pid then i else findLoop pid pids (i + 1)

/-- main.c:25-33. -/
def finfIndex (drv : Drv) (pid : Int) : Int := findLoop pid drv.pids 0

inductive Fault where
  | nullToken
  | outOfBounds
  deriving DecidableEq, Repr

/-- Subscript of an array of `size` elements. -/
def subscript (size : Nat) (i : Int) : Except Fault Nat :=
  if 0 ≤ i ∧ i < size then .ok i.toNat else .error .outOfBounds

def pipeAt (i : Int) : Except Fault Nat := subscript (maxDrivers * 2) i

def pidAt (i : Int) : Except Fault Nat := subscript maxDrivers i

/-- What the manager writes to a driver. -/
inductive Request where
  | task (time stat : Int)
  | status
  | quit
  deriving DecidableEq, Repr

def Request.msg : Request → Msg
  | .task time stat => ⟨time, stat⟩
  | .status => ⟨0, 2⟩
  | .quit => ⟨0, 3⟩

inductive Op where
  | send (i : Nat) (r : Request)
  | receive (i : Nat)
  /-- The end of the process. -/
  | leave
  deriving DecidableEq, Repr

inductive Command where
  | createDriver
  | quit
  | getDrivers
  | sendTask (pid time : Int)
  | getStatus (pid : Int)
  | unknown
  deriving DecidableEq, Repr

/-- What a command comes to: the new table, the number of a driver process it
has started, and the writes and reads that follow. -/
structure Outcome where
  drv : Drv
  started : Option Nat
  todo : List Op
  deriving DecidableEq

/-- main.c:52-72. -/
def createDriver (drv : Drv) (forked : Int) : Except Fault Outcome :=
  if full : drv.ndrivers = maxDrivers then .ok ⟨drv, none, []⟩
  else do
    let _ ← pipeAt (drv.ndrivers * 2)
    let _ ← pipeAt (drv.ndrivers * 2 + 1)
    if forked = -1 then .ok ⟨drv, none, [.leave]⟩
    else do
      let _ ← pipeAt (drv.lastIndex * 2)
      let _ ← pipeAt (drv.lastIndex * 2 + 1)
      let _ ← pidAt drv.ndrivers
      .ok ⟨drv.add full forked, some drv.lastIndex, []⟩

/-- A status request to driver `index`, its reply, and the pid printed, main.c:91-101
and 121-132. -/
def statusRound (index : Int) : Except Fault (List Op) := do
  let i ← pipeAt (index * 2)
  let _ ← pipeAt (index * 2 + 1)
  let _ ← pidAt index
  .ok [.send (i / 2) .status, .receive (i / 2)]

/-- One turn of the first loop of `quit`, main.c:79-81. -/
def quitRound (index : Int) : Except Fault (List Op) := do
  let i ← pipeAt (index * 2)
  .ok [.send (i / 2) .quit]

/-- One turn of the second, `close` and `waitpid`, main.c:82-86. -/
def closeRound (index : Int) : Except Fault (List Op) := do
  let _ ← pipeAt (index * 2)
  let _ ← pipeAt (index * 2 + 1)
  let _ ← pidAt index
  .ok []

/-- `for (int i = 0; i < drv.ndrivers; i++)`. -/
def forDrivers (round : Int → Except Fault (List Op)) : Nat → Except Fault (List Op)
  | 0 => .ok []
  | n + 1 => do
    let before ← forDrivers round n
    let last ← round n
    .ok (before ++ last)

/-- main.c:112-116. -/
def sendTask (drv : Drv) (pid time stat : Int) : Except Fault Outcome := do
  let i ← pipeAt (finfIndex drv pid * 2)
  .ok ⟨drv, none, [.send (i / 2) (.task time stat)]⟩

/-- main.c:51-137. -/
def perform (drv : Drv) (forked stat : Int) : Command → Except Fault Outcome
  | .createDriver => createDriver drv forked
  | .quit => do
    let writes ← forDrivers quitRound drv.ndrivers
    let closes ← forDrivers closeRound drv.ndrivers
    .ok ⟨drv, none, writes ++ closes ++ [.leave]⟩
  | .getDrivers => do
    let rounds ← forDrivers statusRound drv.ndrivers
    .ok ⟨drv, none, rounds⟩
  | .sendTask pid time => sendTask drv pid time stat
  | .getStatus pid => do
    let round ← statusRound (finfIndex drv pid)
    .ok ⟨drv, none, round⟩
  | .unknown => .ok ⟨drv, none, []⟩

structure State where
  drv : Drv
  /-- What is left of the command in hand; between commands nothing. -/
  todo : List Op
  running : Bool
  drivers : Nat → Driver

def State.initial : State :=
  { drv := .initial, todo := [], running := true, drivers := fun _ => .absent }

inductive Action where
  | command (c : Command) (forked stat : Int)
  | manager
  | driver (i : Nat)
  | elapse (ns : Nat)
  deriving DecidableEq, Repr

inductive Event where
  | sent (i : Nat) (r : Request)
  /-- A driver has taken a message from its pipe and written these replies. -/
  | handled (i : Nat) (written : List Msg)
  /-- The manager has read a reply. -/
  | taken (i : Nat) (reply : Msg)
  deriving DecidableEq, Repr

def State.start (s : State) (outcome : Outcome) : State :=
  { s with
    drv := outcome.drv
    todo := outcome.todo
    drivers :=
      match outcome.started with
      | some i => Function.update s.drivers i .created
      | none => s.drivers }

def State.setDriver (s : State) (i : Nat) (d : Driver) : State :=
  { s with drivers := Function.update s.drivers i d }

/-- The next write or read of the manager. -/
def managerStep (capacity : Nat) (s : State) : Option (State × List Event) :=
  match s.todo with
  | [] => none
  | .send i r :: todo =>
    let d := s.drivers i
    if d.pc = .terminated then some ({ s with running := false }, [])
    else if d.requests.length < capacity then
      some ({ s with todo }.setDriver i { d with requests := d.requests ++ [r.msg] }, [.sent i r])
    else none
  | .receive i :: todo =>
    let d := s.drivers i
    match d.replies with
    | reply :: replies => some ({ s with todo }.setDriver i { d with replies }, [.taken i reply])
    | [] => if d.pc = .terminated then some ({ s with todo }, []) else none
  | .leave :: _ => some ({ s with running := false }, [])

def act (capacity : Nat) (s : State) : Action → Option (State × List Event)
  | .command c forked stat =>
    if s.running ∧ s.todo = [] then
      match perform s.drv forked stat c with
      | .ok outcome => some (s.start outcome, [])
      | .error _ => none
    else none
  | .manager => if s.running then managerStep capacity s else none
  | .driver i =>
    match (s.drivers i).turn capacity with
    | some (d, some written) => some (s.setDriver i d, [.handled i written])
    | some (d, none) => some (s.setDriver i d, [])
    | none => none
  | .elapse ns =>
    some ({ s with
      drivers := fun i => { s.drivers i with timer := (s.drivers i).timer.elapse ns } }, [])

/-- A pipe holds `capacity` messages. -/
def system (capacity : Nat) : System State Action Event where
  step s a := (act capacity s a).map Prod.fst
  emit s a := ((act capacity s a).map Prod.snd).getD []

end EltexCourse.Source.Drivers
