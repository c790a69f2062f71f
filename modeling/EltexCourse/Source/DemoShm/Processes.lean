import Mathlib.Logic.Function.Basic
import EltexCourse.Foundations.Transition

/-!
# task14/POSIX: a server, its clients and "/demo_sem"

server.c and client.c, with any number of clients. The semaphore does not exist
before the server creates it, and no system call fails but the `sem_open` of a
client that comes after `sem_unlink`. `strcpy` and the line that prints the
shared text take time: a process is in them from one step to the next. `sleep`
orders nothing, the text itself and what else is printed are left out.
-/

set_option autoImplicit false

namespace EltexCourse.Source.DemoShm
open Foundations.Transition

/-- server.c:36-82. -/
inductive ServerPc where
  /-- Before `sem_open`. -/
  | opening
  /-- Before `strcpy`. -/
  | announcing
  | copying
  /-- Before `sem_post`. -/
  | posting
  /-- Before `sem_wait`. -/
  | sleeping
  | printing
  /-- Before `sem_unlink`. -/
  | closing
  | returned
  deriving DecidableEq, Repr

/-- client.c:31-66. -/
inductive ClientPc where
  /-- Not yet started. -/
  | absent
  /-- Before `sem_open`. -/
  | opening
  /-- Before `sem_wait`. -/
  | waiting
  | printing
  | copying
  /-- Before `sem_post`. -/
  | posting
  | returned
  deriving DecidableEq, Repr

variable {ι : Type}

structure State (ι : Type) where
  /-- The value of the semaphore. -/
  sem : Nat
  /-- Whether `SEM_NAME` leads to it. -/
  named : Bool
  server : ServerPc
  client : ι → ClientPc

inductive Action (ι : Type) where
  | server
  /-- A client is started, which it is not before the semaphore has been created. -/
  | start (i : ι)
  | client (i : ι)
  deriving DecidableEq, Repr

def initial : State ι :=
  { sem := 0, named := false, server := .opening, client := fun _ => .absent }

def State.setServer (s : State ι) (pc : ServerPc) : State ι := { s with server := pc }

def State.setClient [DecidableEq ι] (s : State ι) (i : ι) (pc : ClientPc) : State ι :=
  { s with client := Function.update s.client i pc }

/-- `sem_wait`, which blocks at 0. -/
def State.wait (s : State ι) : Option (State ι) :=
  if 0 < s.sem then some { s with sem := s.sem - 1 } else none

def State.post (s : State ι) : State ι := { s with sem := s.sem + 1 }

/-- server.c:36-82. -/
def serverStep (s : State ι) : Option (State ι) :=
  match s.server with
  | .opening => some ({ s with sem := 1, named := true }.setServer .announcing)
  | .announcing => some (s.setServer .copying)
  | .copying => some (s.setServer .posting)
  | .posting => some (s.post.setServer .sleeping)
  | .sleeping => s.wait.map fun s => s.setServer .printing
  | .printing => some (s.setServer .closing)
  | .closing => some ({ s with named := false }.setServer .returned)
  | .returned => none

variable [DecidableEq ι]

/-- client.c:31-66. -/
def clientStep (s : State ι) (i : ι) : Option (State ι) :=
  match s.client i with
  | .absent => none
  | .opening => some (s.setClient i (if s.named then .waiting else .returned))
  | .waiting => s.wait.map fun s => s.setClient i .printing
  | .printing => some (s.setClient i .copying)
  | .copying => some (s.setClient i .posting)
  | .posting => some (s.post.setClient i .returned)
  | .returned => none

def startStep (s : State ι) (i : ι) : Option (State ι) :=
  if s.server ≠ .opening ∧ s.client i = .absent then some (s.setClient i .opening) else none

def step (s : State ι) : Action ι → Option (State ι)
  | .server => serverStep s
  | .start i => startStep s i
  | .client i => clientStep s i

def demo : System (State ι) (Action ι) Empty where
  step := step
  emit _ _ := []

end EltexCourse.Source.DemoShm
