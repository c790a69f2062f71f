import Mathlib.Data.Fintype.BigOperators
import EltexCourse.Source.Chat.Members
import EltexCourse.Source.Chat.Mailbox

/-!
# task14/chat: `shm[1]`, from the server to the clients

`broadcast` and `shair_database` of the two server threads (server.c), and the
clients' `message_handler` and "!exit" (client.c), around the second slot of
the shared segment. Semaphore 4 admits one writer; semaphore 3 has the tokens
by which clients look at the slot; `am_i_read` has a flag for each client.

Steps are atomic one by one: a `fill`, the write of one flag, the write of the
text, one `sem_post`, one test of the flags, one poll of a client. What the
threads copy from `shm[0]` is left open (`Mailbox` is about that slot): a
request or a line is any text. Clients may poll as long as they like, whether
or not their `exit_flag` is set. `mtype` of the slot is copied and not looked
at, and `broadcast` is only called with pid 0. The terminal is not modelled.

`strtok` keeps its cursor in one static variable for both threads. The calls by which
`members_handler` takes one request apart are one step here: a call of the other thread
between them would change the nickname and the id that it finds, but not that a join
counts one up and a leave one down, nor any step on the slot. `message_hendler` looks
for its line behind the broadcast, from wherever the cursor then stands.
-/

set_option autoImplicit false

namespace EltexCourse.Source.Chat.SharedMemory
open Foundations.CString Foundations.Decimal Foundations.Transition
open Mailbox (Handler)

/-- `shm[1]` with semaphores 3 (`tokens`) and 4 (`writer`). -/
structure Shared where
  mtext : Text
  amIRead : Fin 50 → Int
  tokens : Nat
  writer : Nat

/-- server.c:46-50. -/
def fill (num : Int) : Fin 50 → Int := fun _ => num

/-- server.c:264-270. -/
def checksum (arr : Fin 50 → Int) : Int := ∑ i, arr i

/-- client.c:170. `(pid*2654435761)%30`. The product of an `int` is computed in 64 bits,
which it does not leave. -/
def slotIndex (pid : Int) : Int := (pid * 2654435761).tmod 30

/-- The flag of a client. A negative index lies outside `am_i_read`; see
`membersReceive`. -/
def slot (pid : Int) : Fin 50 := Fin.ofNat 50 (slotIndex pid).toNat

namespace Shared

def setFlag (shm : Shared) (i : Fin 50) (value : Int) : Shared :=
  { shm with amIRead := Function.update shm.amIRead i value }

/-- `sem_sub(4)`, where it does not block, and `sem_post(4)`. -/
def enter (shm : Shared) : Shared := { shm with writer := shm.writer - 1 }

def leave (shm : Shared) : Shared := { shm with writer := shm.writer + 1 }

/-- `sem_post(3)`. -/
def post (shm : Shared) : Shared := { shm with tokens := shm.tokens + 1 }

/-- client.c:176-216. One turn of a client's `message_handler`, which has a token: the
flag is set in both branches, the text is copied in one. -/
def messageHandler (shm : Shared) (pid : Int) : Shared × Option Text :=
  let taken := { shm with tokens := shm.tokens - 1 }
  if shm.amIRead (slot pid) ≠ 1 then (taken.setFlag (slot pid) 1, some shm.mtext)
  else (taken.setFlag (slot pid) 1, none)

end Shared

/-- server.c:206-224. Where a thread is in `broadcast`: `test` is the condition of the
while loop, `post` the for loop in it. -/
inductive BroadcastPc where
  | wait
  | fill
  | write
  | test
  | post (i : Nat)
  | release
  deriving DecidableEq, Repr

/-- server.c:205-225. The slot after a step, and where the thread then is; `none` when
it returns. -/
def broadcast (shm : Shared) (membersOnline : Int) (mtext : Text) :
    BroadcastPc → Option (Shared × Option BroadcastPc)
  | .wait => if 0 < shm.writer then some (shm.enter, some .fill) else none
  | .fill => some ({ shm with amIRead := fill 0 }, some .write)
  | .write => some ({ shm with mtext }, some .test)
  | .test =>
    some (shm, some (if checksum shm.amIRead ≠ membersOnline then .post 0 else .release))
  | .post i =>
    if i < membersOnline then some (shm.post, some (.post (i + 1))) else some (shm, some .test)
  | .release => some (shm.leave, none)

/-- The indices of the two loops of `shair_database`, server.c:234 and 249. -/
inductive Item where
  | member (i : Nat)
  | message (i : Nat)
  deriving DecidableEq, Repr

def Item.next : Item → Item
  | .member i => .member (i + 1)
  | .message i => .message (i + 1)

/-- Where a thread is in `shair_database`. `fill` and `arm` come before the first
item and after each, and lead to the item they carry. `await` is the condition
of the while loop that waits for the newcomer, with the local `text`. -/
inductive SharePc where
  | wait
  | fill (item : Item)
  | arm (item : Item)
  | pick (item : Item)
  | await (item : Item) (text : Text)
  | post (item : Item) (text : Text) (i : Nat)
  | release
  deriving DecidableEq, Repr

/-- server.c:227-262. -/
def shairDatabase (shm : Shared) (accounts : Accounts) (messages : Data) (pid : Int) :
    SharePc → Option (Shared × Option SharePc)
  | .wait => if 0 < shm.writer then some (shm.enter, some (.fill (.member 0))) else none
  | .fill item => some ({ shm with amIRead := fill 1 }, some (.arm item))
  | .arm item => some (shm.setFlag (slot pid) 0, some (.pick item))
  | .pick (.member i) =>
    match accounts.members[i]? with
    | none => some (shm, some (.pick (.message 0)))
    | some entry =>
      if entry.isOnline ≠ 0 then
        some ({ shm with mtext := memberText entry },
          some (.await (.member i) (memberText entry)))
      else some (shm, some (.pick (.member (i + 1))))
  | .pick (.message i) =>
    match messages[i]? with
    | none => some (shm, some .release)
    | some entry =>
      some ({ shm with mtext := historyText entry },
        some (.await (.message i) (historyText entry)))
  | .await item text =>
    some (shm, some (if shm.amIRead (slot pid) ≠ 1 then .post item text 0 else .fill item.next))
  | .post item text i =>
    if i < accounts.membersOnline * 2 then some (shm.post, some (.post item text (i + 1)))
    else some (shm, some (.await item text))
  | .release => some (shm.leave, none)

/-- Where `members_handler` is, with the newcomer's entry during a join and the
raw text it will broadcast. -/
inductive MembersPc where
  | receive
  | share (pc : SharePc) (member : DataArr) (raw : Text)
  | register (member : DataArr) (raw : Text)
  | broadcast (pc : BroadcastPc) (raw : Text)
  | decide
  /-- The mutex is released; `members.size = 0` and `exit_flag = 1` follow. -/
  | unlocked
  | cleared
  | stopped
  deriving DecidableEq, Repr

/-- Where `message_hendler` is. -/
inductive MessagePc where
  | test
  | receive
  | wake
  | broadcast (pc : BroadcastPc) (raw : Text)
  | store
  | stopped
  deriving DecidableEq, Repr

structure Server where
  accounts : Accounts
  messages : Data
  exitFlag : Bool
  /-- The static variable of `strtok`. -/
  strtokCursor : Text
  membersPc : MembersPc
  messagePc : MessagePc
  /-- A missing token, or a write outside an array, has ended the process. -/
  crashed : Bool
  /-- The clients counted in `members_online`: a history variable, which no step reads. -/
  counted : List Int
  deriving DecidableEq, Repr

/-- server.c:17-20. -/
def Server.initial : Server :=
  { accounts := Accounts.init, messages := [], exitFlag := false, strtokCursor := [],
    membersPc := .receive, messagePc := .test, crashed := false, counted := [] }

/-- `members_mutex`. -/
def MembersPc.locked : MembersPc → Bool
  | .share _ _ _ | .register _ _ | .broadcast _ _ | .decide => true
  | .receive | .unlocked | .cleared | .stopped => false

/-- server.c:109-131. The tokens of a request. A leave is marked and counted at once, a
join is counted before `shair_database`, which writes to the flag of the newcomer. -/
def membersReceive (s : Server) (raw : Text) : Server :=
  match membersHandlerTokens raw with
  | none => { s with crashed := true }
  | some (.leave id, cursor) =>
    match s.accounts.leave id with
    | none => { s with crashed := true }
    | some accounts =>
      { s with
        accounts
        strtokCursor := cursor
        membersPc := .broadcast .wait raw
        counted := s.counted.erase id }
  | some (.join line id, cursor) =>
    if slotIndex id < 0 then { s with crashed := true }
    else
      { s with
        accounts := s.accounts.count
        strtokCursor := cursor
        membersPc := .share .wait ⟨line, id, 1⟩ raw
        counted := s.counted ++ [id] }

/-- server.c:103-145. -/
def membersHandler (s : Server) (shm : Shared) : Option (Server × Shared) :=
  match s.membersPc with
  | .receive => none
  | .share pc member raw =>
    (shairDatabase shm s.accounts s.messages member.id pc).map fun (shm, next) =>
      ({ s with membersPc := next.elim (.register member raw) (.share · member raw) }, shm)
  | .register member raw =>
    some ({ s with accounts := s.accounts.add member, membersPc := .broadcast .wait raw }, shm)
  | .broadcast pc raw =>
    (broadcast shm s.accounts.membersOnline raw pc).map fun (shm, next) =>
      ({ s with membersPc := next.elim .decide (.broadcast · raw) }, shm)
  | .decide =>
    some ({ s with membersPc := if s.accounts.membersOnline ≤ 0 then .unlocked else .receive }, shm)
  | .unlocked =>
    some ({ s with accounts := { s.accounts with members := [] }, membersPc := .cleared }, shm)
  | .cleared => some ({ s with exitFlag := true, membersPc := .stopped }, shm)
  | .stopped => none

/-- server.c:169-182. -/
def messageReceive (s : Server) (raw : Text) : Server :=
  match strtok [' '] raw with
  | (none, _) => { s with crashed := true }
  | (some marker, cursor) =>
    { s with
      strtokCursor := cursor
      messagePc := if marker = ['4'] then .wake else .broadcast .wait raw }

/-- server.c:163-194. The tokens behind the marker are looked for after the broadcast,
from wherever the shared cursor then stands. -/
def messageHendler (s : Server) (shm : Shared) : Option (Server × Shared) :=
  match s.messagePc with
  | .test => some ({ s with messagePc := if s.exitFlag then .stopped else .receive }, shm)
  | .receive => none
  | .wake =>
    if s.membersPc.locked then none
    else some ({ s with messagePc := if s.accounts.members = [] then .stopped else .test }, shm)
  | .broadcast pc raw =>
    (broadcast shm s.accounts.membersOnline raw pc).map fun (shm, next) =>
      ({ s with messagePc := next.elim .store (.broadcast · raw) }, shm)
  | .store =>
    match messageHendlerEntry s.strtokCursor with
    | none => some ({ s with crashed := true }, shm)
    | some entry => some ({ s with messages := dataAdd s.messages entry, messagePc := .test }, shm)
  | .stopped => none

/-- Where a client is with its "!exit", which it sends through `shm[1]`,
client.c:119-124 and 264-289. -/
inductive ClientPc where
  | absent
  | running
  | writing
  | posting
  | gone
  deriving DecidableEq, Repr

structure State where
  server : Server
  shm : Shared
  client : Int → ClientPc

/-- The segment is zeroed; `tokens` of semaphore 3 are left from before. -/
def initial (tokens : Nat) : State :=
  { server := Server.initial
    shm := { mtext := [], amIRead := fill 0, tokens, writer := 1 }
    client := fun _ => .absent }

inductive Action where
  | start (pid : Int)
  | quit (pid : Int)
  | write (pid : Int)
  | post (pid : Int)
  | release (pid : Int)
  | poll (pid : Int)
  /-- `members_handler` has copied a text from `shm[0]`; so has `message_hendler`,
  which may also find another `mtype` there. -/
  | request (raw : Text)
  | line (raw : Text)
  | skip
  | members
  | message
  deriving DecidableEq, Repr

def State.setClient (s : State) (pid : Int) (pc : ClientPc) : State :=
  { s with client := Function.update s.client pid pc }

/-- `send_message(&shm[1], "!exit", pid, 3)` goes by the value of `prio`, which is
the pid: up to 2 it works on semaphores 2 and pid - 1 and leaves 3 and 4 alone.
How many tokens a client posts is left open. -/
def step (s : State) : Action → Option State
  | .start pid =>
    if s.client pid = .absent ∧ 0 < pid ∧ IsInt pid then some (s.setClient pid .running) else none
  | .quit pid =>
    if s.client pid = .running then
      if pid ≤ 2 then some (s.setClient pid .writing)
      else if 0 < s.shm.writer then some ({ s with shm := s.shm.enter }.setClient pid .writing)
      else none
    else none
  | .write pid =>
    if s.client pid = .writing then
      (sendMessageShm pid exitLine pid 3).map fun msg =>
        { s with shm := { s.shm with mtext := msg.mtext } }.setClient pid .posting
    else none
  | .post pid =>
    if s.client pid = .posting ∧ ¬ pid ≤ 2 then some { s with shm := s.shm.post } else none
  | .release pid =>
    if s.client pid = .posting then
      if pid ≤ 2 then some (s.setClient pid .gone)
      else some ({ s with shm := s.shm.leave }.setClient pid .gone)
    else none
  | .poll pid =>
    if s.client pid ≠ .absent ∧ 0 < s.shm.tokens then
      some { s with shm := (s.shm.messageHandler pid).1 }
    else none
  | .request raw =>
    if s.server.crashed = false ∧ s.server.membersPc = .receive then
      some { s with server := membersReceive s.server raw }
    else none
  | .line raw =>
    if s.server.crashed = false ∧ s.server.messagePc = .receive then
      some { s with server := messageReceive s.server raw }
    else none
  | .skip =>
    if s.server.crashed = false ∧ s.server.messagePc = .receive then
      some { s with server := { s.server with messagePc := .test } }
    else none
  | .members =>
    if s.server.crashed then none
    else (membersHandler s.server s.shm).map fun r => { s with server := r.1, shm := r.2 }
  | .message =>
    if s.server.crashed then none
    else (messageHendler s.server s.shm).map fun r => { s with server := r.1, shm := r.2 }

/-- A text counts as published when the loop that waits for its readers is left. -/
inductive Event where
  | filled
  | published (mtext : Text) (readers : List Int)
  | polled (pid : Int) (copy : Option Text)
  deriving DecidableEq, Repr

def broadcastEvents (s : State) (mtext : Text) : BroadcastPc → List Event
  | .fill => [.filled]
  | .test =>
    if checksum s.shm.amIRead ≠ s.server.accounts.membersOnline then []
    else [.published mtext s.server.counted]
  | _ => []

def shareEvents (s : State) (pid : Int) : SharePc → List Event
  | .await _ text => if s.shm.amIRead (slot pid) ≠ 1 then [] else [.published text [pid]]
  | _ => []

def emit (s : State) : Action → List Event
  | .poll pid => [.polled pid (s.shm.messageHandler pid).2]
  | .members =>
    match s.server.membersPc with
    | .share pc member _ => shareEvents s member.id pc
    | .broadcast pc raw => broadcastEvents s raw pc
    | _ => []
  | .message =>
    match s.server.messagePc with
    | .broadcast pc raw => broadcastEvents s raw pc
    | _ => []
  | _ => []

def system : System State Action Event := ⟨step, emit⟩

/-- The texts a client has copied. -/
def copies (pid : Int) (log : List Event) : List Text :=
  log.filterMap fun
    | .polled reader copy => if reader = pid then copy else none
    | _ => none

/-- The texts published to a client. -/
def publications (pid : Int) (log : List Event) : List Text :=
  log.filterMap fun
    | .published mtext readers => if pid ∈ readers then some mtext else none
    | _ => none

/-- The clients that have polled since `broadcast` last cleared the flags. -/
def readersSinceFill (log : List Event) : List Int :=
  log.foldl (fun readers event =>
    match event with
    | .filled => []
    | .polled pid _ => readers ++ [pid]
    | .published _ _ => readers) []

@[simp] theorem copies_append (pid : Int) (log rest : List Event) :
    copies pid (log ++ rest) = copies pid log ++ copies pid rest := by
  simp [copies]

@[simp] theorem publications_append (pid : Int) (log rest : List Event) :
    publications pid (log ++ rest) = publications pid log ++ publications pid rest := by
  simp [publications]

end EltexCourse.Source.Chat.SharedMemory
