import Mathlib.Logic.Function.Basic
import EltexCourse.Foundations.SharedText
import EltexCourse.Foundations.Transition

/-!
# task14/Systev_V: a server, its clients and a semaphore of System V

server.c and client.c, with any number of clients, in a directory whose key has
neither a segment nor a semaphore yet. `strcpy` and the line that prints the
shared text go byte by byte. `semop` fails once the semaphore has been removed,
also for those who are waiting in it, and `shmget` and `semget` of a client fail
as long as there is nothing to find or when it has been removed; no other call
fails. `sleep` orders nothing, `shmdt` and what is printed besides the shared
text are left out. A process is `failed` behind its `exit(1)`.
-/

set_option autoImplicit false

namespace EltexCourse.Source.DemoShm.SystemV
open Foundations.CString Foundations.CBuffer Foundations.SharedText Foundations.Transition

/-- server.c:10. -/
def shmSize : Nat := 1024

/-- `line`, server.c:23. -/
def serverLine : Text := ['h', 'e', 'l', 'l', 'o', '!', '\n']

/-- `line`, client.c:22. -/
def clientLine : Text := ['h', 'i', '!', '\n']

/-- server.c:25-93. -/
inductive ServerPc where
  | shmget
  | semget
  /-- Before `semctl` with `SETVAL`. -/
  | setval
  /-- Before the first `semop`. -/
  | waiting
  /-- In `strcpy`, before byte `k`. -/
  | copying (k : Nat)
  | posting
  /-- Behind `sleep`, before the `semop` that follows it. -/
  | waitingAgain
  /-- In `printf`, before byte `k` of the shared text. -/
  | printing (k : Nat) (seen : Text)
  | postingAgain
  /-- Before `semctl` with `IPC_RMID`. -/
  | removingSem
  /-- Before `shmctl`. -/
  | removingShm
  | returned
  | failed
  deriving DecidableEq, Repr

/-- client.c:24-66. -/
inductive ClientPc where
  /-- Not yet started. -/
  | absent
  | shmget
  | semget
  | waiting
  | printing (k : Nat) (seen : Text)
  | copying (k : Nat)
  | posting
  | returned
  | failed
  deriving DecidableEq, Repr

/-- The semaphore behind the key. -/
inductive Sem where
  | missing
  | value (n : Nat)
  | removed
  deriving DecidableEq, Repr

variable {ι : Type}

inductive Party (ι : Type) where
  | server
  | client (i : ι)
  deriving DecidableEq, Repr

structure State (ι : Type) where
  sem : Sem
  /-- Whether the key leads to the segment. -/
  named : Bool
  /-- The segment. -/
  shm : Nat → Char
  server : ServerPc
  client : ι → ClientPc

inductive Action (ι : Type) where
  | server
  | start (i : ι)
  | client (i : ι)
  deriving DecidableEq, Repr

def initial : State ι :=
  { sem := .missing, named := false, shm := fun _ => nul, server := .shmget,
    client := fun _ => .absent }

namespace State

variable (s : State ι)

def setServer (pc : ServerPc) : State ι := { s with server := pc }

def setClient [DecidableEq ι] (i : ι) (pc : ClientPc) : State ι :=
  { s with client := Function.update s.client i pc }

/-- `semop` with -1: it blocks at 0 and fails without a semaphore, server.c:50-53 and
64-67, client.c:41-44. -/
def wait (passes fails : State ι → State ι) : Option (State ι) :=
  match s.sem with
  | .value 0 => none
  | .value (n + 1) => some (passes { s with sem := .value n })
  | _ => some (fails s)

/-- `semop` with 1, server.c:57-60 and 72-75, client.c:52-55. -/
def post (passes fails : State ι → State ι) : State ι :=
  match s.sem with
  | .value n => passes { s with sem := .value (n + 1) }
  | _ => fails s

/-- One byte of `strcpy(shm, line)`, server.c:55 and client.c:49. -/
def copies (line : Text) (k : Nat) : State ι :=
  { s with shm := Function.update s.shm k (byteAt line k) }

end State

/-- `strcpy` ends with the terminator. -/
def ServerPc.copied (k : Nat) : ServerPc :=
  if k < serverLine.length then .copying (k + 1) else .posting

def ClientPc.copied (k : Nat) : ClientPc :=
  if k < clientLine.length then .copying (k + 1) else .posting

/-- `printf` ends at one. -/
def ServerPc.printed (k : Nat) (seen : Text) (c : Char) : ServerPc :=
  if c = nul then .postingAgain else .printing (k + 1) (seen ++ [c])

def ClientPc.printed (k : Nat) (seen : Text) (c : Char) : ClientPc :=
  if c = nul then .copying 0 else .printing (k + 1) (seen ++ [c])

/-- server.c:25-93. -/
def serverStep (s : State ι) : Option (State ι) :=
  match s.server with
  | .shmget => some ({ s with named := true }.setServer .semget)
  | .semget => some ({ s with sem := .value 0 }.setServer .setval)
  | .setval => some ({ s with sem := .value 1 }.setServer .waiting)
  | .waiting => s.wait (·.setServer (.copying 0)) (·.setServer .failed)
  | .copying k => some ((s.copies serverLine k).setServer (.copied k))
  | .posting => some (s.post (·.setServer .waitingAgain) (·.setServer .failed))
  | .waitingAgain => s.wait (·.setServer (.printing 0 [])) (·.setServer .failed)
  | .printing k seen => some (s.setServer (.printed k seen (s.shm k)))
  | .postingAgain => some (s.post (·.setServer .removingSem) (·.setServer .failed))
  | .removingSem => some ({ s with sem := .removed }.setServer .removingShm)
  | .removingShm => some ({ s with named := false }.setServer .returned)
  | .returned => none
  | .failed => none

variable [DecidableEq ι]

/-- client.c:24-66. -/
def clientStep (s : State ι) (i : ι) : Option (State ι) :=
  match s.client i with
  | .absent => none
  | .shmget => some (s.setClient i (if s.named then .semget else .failed))
  | .semget =>
    match s.sem with
    | .value _ => some (s.setClient i .waiting)
    | _ => some (s.setClient i .failed)
  | .waiting => s.wait (·.setClient i (.printing 0 [])) (·.setClient i .failed)
  | .printing k seen => some (s.setClient i (.printed k seen (s.shm k)))
  | .copying k => some ((s.copies clientLine k).setClient i (.copied k))
  | .posting => some (s.post (·.setClient i .returned) (·.setClient i .failed))
  | .returned => none
  | .failed => none

def startStep (s : State ι) (i : ι) : Option (State ι) :=
  if s.client i = .absent then some (s.setClient i .shmget) else none

def step (s : State ι) : Action ι → Option (State ι)
  | .server => serverStep s
  | .start i => startStep s i
  | .client i => clientStep s i

/-- A text is shown when it has been printed or copied to its end. -/
def serverEvents (s : State ι) : List (Event (Party ι)) :=
  match s.server with
  | .copying k => if k < serverLine.length then [] else [.wrote .server serverLine]
  | .printing k seen => if s.shm k = nul then [.read .server seen] else []
  | _ => []

def clientEvents (s : State ι) (i : ι) : List (Event (Party ι)) :=
  match s.client i with
  | .printing k seen => if s.shm k = nul then [.read (.client i) seen] else []
  | .copying k => if k < clientLine.length then [] else [.wrote (.client i) clientLine]
  | _ => []

def demo : System (State ι) (Action ι) (Event (Party ι)) where
  step := step
  emit s
    | .server => serverEvents s
    | .start _ => []
    | .client i => clientEvents s i

end EltexCourse.Source.DemoShm.SystemV
