import Mathlib.Logic.Function.Basic
import EltexCourse.Foundations.Transition
import EltexCourse.Source.Chat.Members

/-!
# task13/chat: server, queue and clients

The two threads of the server (server.c), the System V queue, and any number of
clients (client.c), as one step system. Of the queue only `msgrcv` with a
positive type is used, so it is a FIFO for each type; `msgsnd` does not fail or
block, except that a type below 1 is refused.

One step of a server thread is one `msgrcv` with the first `strtok` call on what it
has received, one later `strtok` call, one turn of a loop (its test and its
`msgsnd`), the exit of a loop, one `data_add`, or one write to a shared variable.
`strtok` keeps its cursor in a static variable, which the two threads share: each
call goes on from wherever the last call of either thread has left it. The cursor
is the text it points at. What becomes of that when the thread whose buffer it
points into writes to the buffer is not modelled; as long as neither thread calls
`strtok` between two calls of the other, no call finds such a cursor.
`members_handler` holds `members_mutex` from its first `strtok` to its test of
`members_online`; `message_hendler` takes it only to look at `members.size`.
Freed tables, the terminal and `refresh_handler`'s drawing are not modelled.
-/

set_option autoImplicit false

namespace EltexCourse.Source.Chat.MessageQueue
open Foundations.CString Foundations.Decimal Foundations.Transition

abbrev Queue := Int → List Text

def msgsnd (q : Queue) (mtype : Int) (mtext : Text) : Queue :=
  if 0 < mtype then Function.update q mtype (q mtype ++ [mtext]) else q

def msgrcv (q : Queue) (mtype : Int) : Option (Text × Queue) :=
  match q mtype with
  | [] => none
  | mtext :: rest => some (mtext, Function.update q mtype rest)

/-- Where `members_handler` is, server.c:54-92. It carries the raw text that it will
broadcast, and during a join the newcomer's entry. -/
inductive MembersPc where
  | receive
  /-- Behind the marker "0". -/
  | leaveName (raw : Text)
  | leaveNumber (raw : Text)
  /-- Behind any other marker. -/
  | joinName (raw : Text)
  | joinNumber (line raw : Text)
  | shareMembers (i : Nat) (member : DataArr) (raw : Text)
  | shareMessages (i : Nat) (member : DataArr) (raw : Text)
  /-- `shair_database` has replayed `i` lines and returned. -/
  | register (i : Nat) (member : DataArr) (raw : Text)
  | broadcast (i : Nat) (raw : Text)
  | decide
  /-- The mutex is released; `members.size = 0` and `exit_flag = 1` follow. -/
  | unlocked
  | cleared
  | stopped
  deriving DecidableEq, Repr

/-- The request that is being taken apart. -/
def MembersPc.parsing : MembersPc → Option Text
  | .leaveName raw | .leaveNumber raw | .joinName raw | .joinNumber _ raw => some raw
  | _ => none

/-- The entry of the join in hand. -/
def MembersPc.newcomer : MembersPc → Option DataArr
  | .shareMembers _ member _ | .shareMessages _ member _ | .register _ member _ => some member
  | _ => none

/-- `members_handler` has not given up its table. -/
def MembersPc.Serving (pc : MembersPc) : Prop := pc ≠ .cleared ∧ pc ≠ .stopped

/-- Where `message_hendler` is, server.c:102-139, with the text it has received. -/
inductive MessagePc where
  | test
  | receive
  | wake
  | broadcast (i : Nat) (raw : Text)
  /-- The broadcast is over, the line not yet split off. -/
  | line (raw : Text)
  | number (line raw : Text)
  | add (entry : DataArr)
  | stopped
  deriving DecidableEq, Repr

/-- The next turn calls `strtok`. -/
def MessagePc.splitting : MessagePc → Bool
  | .receive | .line _ | .number _ _ => true
  | _ => false

structure Server where
  accounts : Accounts
  messages : Data
  exitFlag : Bool
  /-- The static variable of `strtok`. -/
  strtokCursor : Text
  membersPc : MembersPc
  messagePc : MessagePc
  /-- A missing token or index -1 has ended the process. -/
  crashed : Bool
  deriving DecidableEq, Repr

abbrev Server.members (s : Server) : Data := s.accounts.members

def Server.initial : Server :=
  { accounts := Accounts.init, messages := [], exitFlag := false, strtokCursor := [],
    membersPc := .receive, messagePc := .test, crashed := false }

def MembersPc.locked : MembersPc → Bool
  | .leaveName _ | .leaveNumber _ | .joinName _ | .joinNumber _ _ | .shareMembers _ _ _
  | .shareMessages _ _ _ | .register _ _ _ | .broadcast _ _ | .decide => true
  | .receive | .unlocked | .cleared | .stopped => false

/-- server.c:54-66. -/
def membersReceive (s : Server) (q : Queue) : Option (Server × Queue) :=
  match msgrcv q 1 with
  | none => none
  | some (raw, q) =>
    match strtok [' '] raw with
    | (none, _) => some ({ s with crashed := true }, q)
    | (some marker, cursor) =>
      some ({ s with
        strtokCursor := cursor
        membersPc := if marker = ['0'] then .leaveName raw else .joinName raw }, q)

/-- `strtok(NULL, _)` and what becomes of its token. -/
def Server.nextToken (s : Server) (delims : List Char) (taken : Server → Text → Server) : Server :=
  match strtok delims s.strtokCursor with
  | (none, _) => { s with crashed := true }
  | (some token, cursor) => taken { s with strtokCursor := cursor } token

/-- server.c:69-70. -/
def Server.leave (raw : Text) (s : Server) (token : Text) : Server :=
  match s.accounts.leave (atoi token) with
  | none => { s with crashed := true }
  | some accounts => { s with accounts, membersPc := .broadcast 0 raw }

/-- server.c:53-92. Only the two tokens of a join and the second one of a leave are
looked at. -/
def membersHandler (s : Server) (q : Queue) : Option (Server × Queue) :=
  match s.membersPc with
  | .receive => membersReceive s q
  | .leaveName raw =>
    some ({ s with
      strtokCursor := (strtok [' '] s.strtokCursor).2, membersPc := .leaveNumber raw }, q)
  | .leaveNumber raw => some (s.nextToken [' '] (Server.leave raw), q)
  | .joinName raw =>
    some (s.nextToken [' '] fun s line => { s with membersPc := .joinNumber line raw }, q)
  | .joinNumber line raw =>
    some (s.nextToken [' '] fun s token =>
      { s with membersPc := .shareMembers 0 ⟨line, atoi token, 1⟩ raw }, q)
  | .shareMembers i member raw =>
    match s.members[i]? with
    | none => some ({ s with membersPc := .shareMessages 0 member raw }, q)
    | some entry =>
      some ({ s with membersPc := .shareMembers (i + 1) member raw },
        if entry.isOnline ≠ 0 then msgsnd q member.id (memberText entry) else q)
  | .shareMessages i member raw =>
    match s.messages[i]? with
    | none => some ({ s with membersPc := .register i member raw }, q)
    | some entry =>
      some ({ s with membersPc := .shareMessages (i + 1) member raw },
        msgsnd q member.id (historyText entry))
  | .register _ member raw =>
    some ({ s with accounts := (s.accounts.add member).count, membersPc := .broadcast 0 raw }, q)
  | .broadcast i raw =>
    match s.members[i]? with
    | none => some ({ s with membersPc := .decide }, q)
    | some entry => some ({ s with membersPc := .broadcast (i + 1) raw }, msgsnd q entry.id raw)
  | .decide =>
    some ({ s with membersPc := if s.accounts.membersOnline ≤ 0 then .unlocked else .receive }, q)
  | .unlocked =>
    some ({ s with accounts := { s.accounts with members := [] }, membersPc := .cleared }, q)
  | .cleared => some ({ s with exitFlag := true, membersPc := .stopped }, q)
  | .stopped => none

/-- server.c:104-121. -/
def messageReceive (s : Server) (q : Queue) : Option (Server × Queue) :=
  match msgrcv q 2 with
  | none => none
  | some (raw, q) =>
    match strtok [' '] raw with
    | (none, _) => some ({ s with crashed := true }, q)
    | (some marker, cursor) =>
      some ({ s with
        strtokCursor := cursor
        messagePc := if marker = ['4'] then .wake else .broadcast 0 raw }, q)

/-- server.c:102-139. -/
def messageHendler (s : Server) (q : Queue) : Option (Server × Queue) :=
  match s.messagePc with
  | .test => some ({ s with messagePc := if s.exitFlag then .stopped else .receive }, q)
  | .receive => messageReceive s q
  | .wake =>
    if s.membersPc.locked then none
    else some ({ s with messagePc := if s.members = [] then .stopped else .test }, q)
  | .broadcast i raw =>
    match s.members[i]? with
    | none => some ({ s with messagePc := .line raw }, q)
    | some entry => some ({ s with messagePc := .broadcast (i + 1) raw }, msgsnd q entry.id raw)
  | .line raw =>
    some (s.nextToken ['>'] fun s line => { s with messagePc := .number line raw }, q)
  | .number line _ =>
    some (s.nextToken [' '] fun s token => { s with messagePc := .add ⟨line, atoi token, 0⟩ }, q)
  | .add entry => some ({ s with messages := dataAdd s.messages entry, messagePc := .test }, q)
  | .stopped => none

/-- How far `main` of a client has come, client.c:86-130. -/
inductive MainPc where
  | absent
  | running
  /-- "!exit" was typed. -/
  | leaving
  /-- The leave is sent, the wake-up not yet. -/
  | left
  | gone
  deriving DecidableEq, Repr

/-- Where a client's `message_handler` is, client.c:144-184. -/
inductive HandlerPc where
  | test
  | receive
  | stopped
  deriving DecidableEq, Repr

inductive Fault where
  | missingToken
  | badIndex
  deriving DecidableEq, Repr

structure Client where
  nick : Text
  main : MainPc
  handler : HandlerPc
  exitFlag : Bool
  members : Data
  messages : Data
  fault : Option Fault
  deriving DecidableEq, Repr

def Client.absent : Client :=
  { nick := [], main := .absent, handler := .test, exitFlag := false, members := [],
    messages := [], fault := none }

/-- `message_handler` on one received text, client.c:153-182. -/
def Client.process (c : Client) (mtext : Text) : Client :=
  match messageHandlerTokens mtext with
  | none => { c with fault := some .missingToken }
  | some (.leave id) =>
    match markOffline c.members id with
    | none => { c with fault := some .badIndex }
    | some members => { c with members, handler := .test }
  | some (.join line id) =>
    { c with members := dataAdd c.members ⟨line, id, 1⟩, handler := .test }
  | some .exit => { c with exitFlag := true, handler := .stopped }
  | some (.chat line id) =>
    { c with messages := dataAdd c.messages ⟨line, id, 0⟩, handler := .test }

structure State where
  server : Server
  queue : Queue
  clients : Int → Client

def initial : State :=
  { server := Server.initial, queue := fun _ => [], clients := fun _ => Client.absent }

inductive Action where
  | start (pid : Int) (nick : Text)
  | type (pid : Int) (line : Text)
  | leave (pid : Int)
  | wake (pid : Int)
  | poll (pid : Int)
  | members
  | message
  deriving DecidableEq, Repr

def State.setClient (s : State) (pid : Int) (c : Client) : State :=
  { s with clients := Function.update s.clients pid c }

/-- client.c:225-237. `send_message`; a text that overruns `mtext` leaves no defined
successor. -/
def State.send (s : State) (pid : Int) (line : Text) (prio marker : Int) : Option State :=
  (sendMessage pid line prio marker).map fun msg =>
    { s with queue := msgsnd s.queue msg.mtype msg.mtext }

/-- One turn of a client's `message_handler`, client.c:144-184. -/
def pollClient (c : Client) (q : Queue) (pid : Int) : Option (Client × Queue) :=
  match c.handler with
  | .test => some ({ c with handler := if c.exitFlag then .stopped else .receive }, q)
  | .receive =>
    match msgrcv q pid with
    | none => some ({ c with handler := .test }, q)
    | some (mtext, q) => some (c.process mtext, q)
  | .stopped => none

def step (s : State) : Action → Option State
  | .start pid nick =>
    if (s.clients pid).main = .absent ∧ 0 < pid ∧ IsInt pid then
      (s.setClient pid { Client.absent with nick, main := .running }).send pid nick 1 1
    else none
  | .type pid line =>
    let c := s.clients pid
    if c.main = .running ∧ c.fault = none ∧ Submittable line then
      if line = exitLine then
        (s.setClient pid { c with exitFlag := true, main := .leaving }).send pid line pid 3
      else s.send pid line 2 3
    else none
  | .leave pid =>
    let c := s.clients pid
    if c.main = .leaving ∧ c.handler = .stopped ∧ c.fault = none then
      (s.setClient pid { c with main := .left }).send pid c.nick 1 0
    else none
  | .wake pid =>
    let c := s.clients pid
    if c.main = .left then (s.setClient pid { c with main := .gone }).send pid c.nick 2 4
    else none
  | .poll pid =>
    let c := s.clients pid
    if c.main ≠ .absent ∧ c.fault = none then
      (pollClient c s.queue pid).map fun r => { s.setClient pid r.1 with queue := r.2 }
    else none
  | .members =>
    if s.server.crashed then none
    else (membersHandler s.server s.queue).map fun r => { s with server := r.1, queue := r.2 }
  | .message =>
    if s.server.crashed then none
    else (messageHendler s.server s.queue).map fun r => { s with server := r.1, queue := r.2 }

def system : System State Action Action := ⟨step, fun _ a => [a]⟩

end EltexCourse.Source.Chat.MessageQueue
