import Mathlib.Tactic.Ring

/-!
# task_drivers: a driver process

`driver_handler` of main.c with its timer and its two pipes. Time is counted in
nanoseconds. One step is one return of `select` with the test of the timer, or
the handling of one message. A write to a pipe blocks while it is full. A
message is written and read whole. The end of file that a driver would see
after the manager is gone is not modelled.
-/

set_option autoImplicit false

namespace EltexCourse.Source.Drivers

/-- main.c:13-16. -/
structure Msg where
  time : Int
  stat : Int
  deriving DecidableEq, Repr

/-- A `timerfd` that is set without an interval and never read. -/
inductive Timer where
  | disarmed
  | armed (left : Nat)
  | expired
  deriving DecidableEq, Repr

def nanoseconds : Nat := 10 ^ 9

def Timer.elapse (ns : Nat) : Timer → Timer
  | .armed left => if left ≤ ns then .expired else .armed (left - ns)
  | timer => timer

/-- `timerfd_settime`: a negative time is refused, zero disarms. -/
def Timer.settime (timer : Timer) (sec : Int) : Timer :=
  if sec < 0 then timer
  else if sec = 0 then .disarmed
  else .armed (sec.toNat * nanoseconds)

/-- The seconds `timerfd_gettime` reports. -/
def Timer.gettime : Timer → Int
  | .armed left => (left / nanoseconds : Nat)
  | .disarmed | .expired => 0

inductive DriverPc where
  | absent
  /-- At `select`. -/
  | waiting
  /-- `select` has found a message. -/
  | serving
  | terminated
  deriving DecidableEq, Repr

structure Driver where
  pc : DriverPc
  status : Int
  timer : Timer
  /-- The pipe `in`. -/
  requests : List Msg
  /-- The pipe `out`. -/
  replies : List Msg
  deriving DecidableEq, Repr

def Driver.absent : Driver :=
  { pc := .absent, status := 0, timer := .disarmed, requests := [], replies := [] }

def Driver.created : Driver := { Driver.absent with pc := .waiting }

/-- `select` has returned, main.c:164-175. -/
def Driver.wake (d : Driver) : Driver :=
  { d with
    status := if d.timer = .expired then 0 else d.status
    pc := if d.requests = [] then .waiting else .serving }

/-- What is done with a message, and what is written to `out`, main.c:176-194. -/
def Driver.handle (d : Driver) (buff : Msg) : Driver × List Msg :=
  if buff.time ≠ 0 then
    ({ d with timer := d.timer.settime buff.time, status := 1, pc := .waiting }, [])
  else if buff.stat = 2 then ({ d with pc := .waiting }, [⟨d.timer.gettime, d.status⟩])
  else if buff.stat = 3 then ({ d with pc := .terminated }, [])
  else ({ d with pc := .waiting }, [])

/-- main.c:155-196. One step, and the replies written if a message was handled. -/
def Driver.turn (capacity : Nat) (d : Driver) : Option (Driver × Option (List Msg)) :=
  match d.pc, d.requests with
  | .waiting, _ => some (d.wake, none)
  | .serving, buff :: requests =>
    let served := { d with requests }.handle buff
    if d.replies.length + served.2.length ≤ capacity then
      some ({ served.1 with replies := d.replies ++ served.2 }, some served.2)
    else none
  | _, _ => none

end EltexCourse.Source.Drivers
