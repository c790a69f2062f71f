import Mathlib.Logic.Function.Basic
import EltexCourse.Foundations.Transition
import EltexCourse.Foundations.Decimal

/-!
# task11.2: threads that count to a limit

mutex.c and spinlock.c, for any limit and any number of threads. They differ in
the kind of lock, in the test that ends the loop, and in a line that spinlock.c
prints before it unlocks. One step is a lock, a read or a write of `*num`, a
line printed, or an unlock: `*num = *num + 1` is a read and a write. `main`
creates the threads one after the other, joins them in order, and prints `num`.
-/

set_option autoImplicit false

namespace EltexCourse.Source.Counter
open Foundations.Transition Foundations.Decimal

inductive Version where
  | mutex
  | spinlock
  deriving DecidableEq, Repr

/-- `N`, a constant of the type of `num`. -/
structure Limit where
  value : Int
  nonneg : 0 ≤ value
  isInt : IsInt value

/-- `*num >= N` in mutex.c, `*num == N` in spinlock.c, line 13 of both. -/
def Version.stops : Version → Int → Int → Bool
  | .mutex, num, n => n ≤ num
  | .spinlock, num, n => num = n

/-- Where a thread is in `thread_work`. -/
inductive ThreadPc where
  /-- Not yet created. -/
  | absent
  | locking
  | testing
  /-- Before the read in `*num = *num + 1`. -/
  | reading
  | writing (read : Int)
  /-- Before the line of spinlock.c. -/
  | printing
  | unlocking
  /-- Before the unlock that is followed by `break`. -/
  | leaving
  | returned
  deriving DecidableEq, Repr

/-- Where the write of `*num` is followed by a line. -/
def Version.afterWrite : Version → ThreadPc
  | .mutex => .unlocking
  | .spinlock => .printing

/-- Where `main` is; the numbers are those of its two loops. -/
inductive MainPc where
  | creating (i : Nat)
  | joining (i : Nat)
  | returned
  deriving DecidableEq, Repr

variable {T : Nat}

structure State (T : Nat) where
  num : Int
  /-- One while the lock is free. -/
  lock : Nat
  thread : Fin T → ThreadPc
  main : MainPc

inductive Action (T : Nat) where
  | thread (i : Fin T)
  | main
  deriving DecidableEq, Repr

inductive Event where
  /-- `*num` is written. -/
  | stored (value : Int)
  /-- The line of spinlock.c. -/
  | line (value : Int)
  /-- The line of `main`. -/
  | result (value : Int)
  deriving DecidableEq, Repr

def State.setThread (s : State T) (i : Fin T) (pc : ThreadPc) : State T :=
  { s with thread := Function.update s.thread i pc }

/-- `pthread_mutex_lock` and `pthread_spin_lock`, which wait. -/
def State.acquire (s : State T) : Option (State T) :=
  if 0 < s.lock then some { s with lock := s.lock - 1 } else none

def State.release (s : State T) : State T := { s with lock := s.lock + 1 }

/-- `thread_work`, mutex.c:9-22 and spinlock.c:9-23. -/
def threadWork (version : Version) (limit : Limit) (s : State T) (i : Fin T) :
    Option (State T) :=
  match s.thread i with
  | .absent => none
  | .locking => s.acquire.map (·.setThread i .testing)
  | .testing =>
    some (s.setThread i (if version.stops s.num limit.value then .leaving else .reading))
  | .reading => some (s.setThread i (.writing s.num))
  | .writing read => do
    let num ← int (read + 1)
    some ({ s with num }.setThread i version.afterWrite)
  | .printing => some (s.setThread i .unlocking)
  | .unlocking => some (s.release.setThread i .locking)
  | .leaving => some (s.release.setThread i .returned)
  | .returned => none

/-- mutex.c:24-39 and spinlock.c:25-41. -/
def mainStep (s : State T) : Option (State T) :=
  match s.main with
  | .creating i =>
    if inside : i < T then
      some { s.setThread ⟨i, inside⟩ .locking with main := .creating (i + 1) }
    else some { s with main := .joining 0 }
  | .joining i =>
    if inside : i < T then
      if s.thread ⟨i, inside⟩ = .returned then some { s with main := .joining (i + 1) } else none
    else some { s with main := .returned }
  | .returned => none

def step (version : Version) (limit : Limit) (s : State T) : Action T → Option (State T)
  | .thread i => threadWork version limit s i
  | .main => mainStep s

def emit (s : State T) : Action T → List Event
  | .thread i =>
    match s.thread i with
    | .writing read => [.stored (read + 1)]
    | .printing => [.line s.num]
    | _ => []
  | .main =>
    match s.main with
    | .joining i => if i < T then [] else [.result s.num]
    | _ => []

def threads (version : Version) (limit : Limit) (T : Nat) :
    System (State T) (Action T) Event where
  step := step version limit
  emit := emit

def start (T : Nat) : State T :=
  { num := 0, lock := 1, thread := fun _ => .absent, main := .creating 0 }

end EltexCourse.Source.Counter
