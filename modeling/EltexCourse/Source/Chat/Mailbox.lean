import Mathlib.Logic.Function.Basic
import EltexCourse.Foundations.Transition
import EltexCourse.Foundations.CString

/-!
# task14/chat: `shm[0]`, the slot from the clients to the server

Any number of senders run `send_message` with prio 1 or 2 (client.c), and the
two handlers of the server read (server.c): `members_handler` on semaphore 0,
`message_hendler` on semaphore 1. Semaphore 2 admits one writer. A sender posts
it again after `usleep`, which orders nothing: that step may come at any moment
after the post of semaphore prio - 1. What a handler does with its copy is not
part of the slot; it may take any time.
-/

set_option autoImplicit false

namespace EltexCourse.Source.Chat.Mailbox
open Foundations.CString Foundations.Transition

/-- The two handlers, which also name the two values of `prio`. -/
inductive Handler where
  | members
  | messages
  deriving DecidableEq, Repr

/-- `prio`, the value a sender stores in `mtype` and a handler tests for. -/
def Handler.prio : Handler → Int
  | .members => 1
  | .messages => 2

structure Letter where
  kind : Handler
  text : Text
  deriving DecidableEq, Repr

/-- Where a sender is in `send_message`, client.c:273-279. -/
inductive SenderPc where
  | idle
  | entered (letter : Letter)
  | textWritten (letter : Letter)
  | typeWritten (letter : Letter)
  | posted (letter : Letter)
  deriving DecidableEq, Repr

/-- server.c:104-111 and 164-171. Where a handler is in its loop: at `sem_sub`, before
the test of `mtype`, before the copy of `mtext`. -/
inductive ReaderPc where
  | waiting
  | testing
  | copying
  deriving DecidableEq, Repr

structure State (ι : Type*) where
  mtype : Int
  mtext : Text
  /-- Semaphores 0 and 1. -/
  token : Handler → Nat
  /-- Semaphore 2. -/
  writer : Nat
  sender : ι → SenderPc
  reader : Handler → ReaderPc

inductive Action (ι : Type*) where
  | enter (i : ι) (letter : Letter)
  | writeText (i : ι)
  | writeType (i : ι)
  | post (i : ι)
  | release (i : ι)
  | take (h : Handler)
  | test (h : Handler)
  | copy (h : Handler)
  deriving DecidableEq, Repr

inductive Event where
  | sent (letter : Letter)
  | read (letter : Letter)
  | dropped (h : Handler)
  deriving DecidableEq, Repr

variable {ι : Type*} [DecidableEq ι]

/-- server.c:66-68. The segment is zeroed and `main` has set the semaphores. -/
def initial : State ι :=
  { mtype := 0, mtext := [], token := fun _ => 0, writer := 1, sender := fun _ => .idle,
    reader := fun _ => .waiting }

namespace State

def setSender (s : State ι) (i : ι) (pc : SenderPc) : State ι :=
  { s with sender := Function.update s.sender i pc }

def setReader (s : State ι) (h : Handler) (pc : ReaderPc) : State ι :=
  { s with reader := Function.update s.reader h pc }

def addToken (s : State ι) (h : Handler) : State ι :=
  { s with token := Function.update s.token h (s.token h + 1) }

def takeToken (s : State ι) (h : Handler) : State ι :=
  { s with token := Function.update s.token h (s.token h - 1) }

end State

def step (s : State ι) : Action ι → Option (State ι)
  | .enter i letter =>
    if s.sender i = .idle ∧ 0 < s.writer then
      some ({ s with writer := s.writer - 1 }.setSender i (.entered letter))
    else none
  | .writeText i =>
    match s.sender i with
    | .entered letter => some ({ s with mtext := letter.text }.setSender i (.textWritten letter))
    | _ => none
  | .writeType i =>
    match s.sender i with
    | .textWritten letter =>
      some ({ s with mtype := letter.kind.prio }.setSender i (.typeWritten letter))
    | _ => none
  | .post i =>
    match s.sender i with
    | .typeWritten letter => some ((s.addToken letter.kind).setSender i (.posted letter))
    | _ => none
  | .release i =>
    match s.sender i with
    | .posted _ => some ({ s with writer := s.writer + 1 }.setSender i .idle)
    | _ => none
  | .take h =>
    if s.reader h = .waiting ∧ 0 < s.token h then
      some ((s.takeToken h).setReader h .testing)
    else none
  | .test h =>
    if s.reader h = .testing then
      some (s.setReader h (if s.mtype = h.prio then .copying else .waiting))
    else none
  | .copy h =>
    if s.reader h = .copying then some (s.setReader h .waiting) else none

/-- A letter counts as sent with the post of its semaphore. A failed test of
`mtype` sends the handler back to `sem_sub` without its letter. -/
def emit (s : State ι) : Action ι → List Event
  | .post i =>
    match s.sender i with
    | .typeWritten letter => [.sent letter]
    | _ => []
  | .test h => if s.mtype = h.prio then [] else [.dropped h]
  | .copy h => [.read ⟨h, s.mtext⟩]
  | _ => []

def system : System (State ι) (Action ι) Event := ⟨step, emit⟩

def sentLetters (log : List Event) : List Letter :=
  log.filterMap fun
    | .sent letter => some letter
    | _ => none

def readLetters (log : List Event) : List Letter :=
  log.filterMap fun
    | .read letter => some letter
    | _ => none

@[simp] theorem sentLetters_append (log rest : List Event) :
    sentLetters (log ++ rest) = sentLetters log ++ sentLetters rest := by
  simp [sentLetters]

@[simp] theorem readLetters_append (log rest : List Event) :
    readLetters (log ++ rest) = readLetters log ++ readLetters rest := by
  simp [readLetters]

end EltexCourse.Source.Chat.Mailbox
