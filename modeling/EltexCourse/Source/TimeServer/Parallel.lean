import EltexCourse.Source.TimeServer.Buffer
import EltexCourse.Source.TimeServer.Request

/-!
# task16_cs_models/parallel

server.c: a thread for each request, which gets the address of its client in a
block that `main` has allocated before `recvfrom`. `malloc` gives any address
that is not in use, or fails; `recvfrom` and `sendto` may fail, and `sendto` does
when the socket has been closed (`recvfrom` need not: it may have been waiting
then). What a thread does with a block that is not
allocated, or not as it takes it to be, is undefined, and `corrupt` from then on.
The end of `main` and `exit` end all threads. `pthread_create` succeeds; the time
in the answer is left out.
-/

set_option autoImplicit false

namespace EltexCourse.Source.TimeServer.Parallel
open Foundations.CString Foundations.Transition

/-- server.c:12-15. A field that has not been stored is `none`. -/
inductive Block (Client : Type) where
  /-- `struct data_for_handler`, the socket being the only one there is. -/
  | data (client : Option Nat) (fd : Bool)
  /-- `struct sockaddr_in`. -/
  | sockaddr (client : Option (Request Client))
  deriving DecidableEq, Repr

inductive MainPc where
  /-- Before the `malloc` of `data`. -/
  | mallocData
  | mallocClient (data : Nat)
  /-- Before `recvfrom` and the comparison with "kill". -/
  | receiving (data client : Nat)
  /-- Before `data->client = client`. -/
  | storingClient (data client : Nat)
  | storingFd (data client : Nat)
  /-- Before `pthread_create`. -/
  | creating (data client : Nat)
  /-- Before the `free` of these, and `close`. -/
  | freeing (blocks : List Nat) (status : Nat)
  /-- Before `exit` or `return`. -/
  | returning (status : Nat)
  deriving DecidableEq, Repr

inductive HandlerPc where
  | absent
  /-- Before `sendto`. -/
  | sending (args : Nat)
  /-- Before `close`, when `sendto` has failed. -/
  | closing (args : Nat)
  /-- Before `free(data->client)`, with the status of an `exit` that follows. -/
  | freeingClient (args : Nat) (status : Option Nat)
  | freeingData (args : Nat) (status : Option Nat)
  | done (status : Option Nat)
  deriving DecidableEq, Repr

variable {Client : Type}

structure State (Client : Type) where
  heap : Nat → Option (Block Client)
  main : MainPc
  /-- `buff` of `main`. -/
  buff : Text
  /-- Whether `fd` is open. -/
  socket : Bool
  handler : Nat → HandlerPc
  /-- How many threads have been created. -/
  threads : Nat
  /-- The status the process has ended with. -/
  ended : Option Nat
  corrupt : Bool

/-- What `malloc` and `recvfrom` give if they are called. -/
structure Supply (Client : Type) where
  address : Option Nat
  datagram : Option (Client × Text)

inductive Action (Client : Type) where
  | main (supply : Supply Client)
  /-- `sent` is what `sendto` comes to, if it is called with the socket open. -/
  | handler (n : Nat) (sent : Bool)

namespace State

variable (s : State Client)

def setMain (pc : MainPc) : State Client := { s with main := pc }

def setHandler (n : Nat) (pc : HandlerPc) : State Client :=
  { s with handler := Function.update s.handler n pc }

def store (a : Nat) (block : Block Client) : State Client :=
  { s with heap := Function.update s.heap a (some block) }

def breaks : State Client := { s with corrupt := true }

def free (a : Nat) : State Client :=
  match s.heap a with
  | some _ => { s with heap := Function.update s.heap a none }
  | none => s.breaks

/-- A new block, if the address is not in use. -/
def malloc (a : Nat) (block : Block Client) : Option (State Client) :=
  match s.heap a with
  | some _ => none
  | none => some (s.store a block)

/-- `data->client`. -/
def clientOf (a : Nat) : Option Nat :=
  match s.heap a with
  | some (.data client _) => client
  | _ => none

/-- What `sendto` in a handler is called with. -/
def message (args : Nat) : Option (Request Client) :=
  match s.heap args with
  | some (.data (some client) true) =>
    match s.heap client with
    | some (.sockaddr request) => request
    | _ => none
  | _ => none

end State

/-- The loop of `main`, server.c:42-83. -/
def mainStep (s : State Client) (supply : Supply Client) : Option (State Client) :=
  match s.main with
  | .mallocData =>
    match supply.address with
    | none => some (s.setMain (.freeing [] 1))
    | some a => (s.malloc a (.data none false)).map fun s => s.setMain (.mallocClient a)
  | .mallocClient data =>
    match supply.address with
    | none => some (s.setMain (.freeing [data] 1))
    | some a => (s.malloc a (.sockaddr none)).map fun s => s.setMain (.receiving data a)
  | .receiving data client =>
    match supply.datagram with
    | none => some (s.setMain (.freeing [data, client] 1))
    | some (sender, bytes) =>
      match s.heap client with
      | some (.sockaddr _) =>
        let s := { s.store client (.sockaddr (some ⟨s.threads, sender⟩)) with
          buff := overlay s.buff bytes }
        some (s.setMain (if isKill s.buff then .freeing [data, client] 0
          else .storingClient data client))
      | _ => some s.breaks
  | .storingClient data client =>
    match s.heap data with
    | some (.data _ fd) => some ((s.store data (.data (some client) fd)).setMain
      (.storingFd data client))
    | _ => some s.breaks
  | .storingFd data client =>
    match s.heap data with
    | some (.data stored _) => some ((s.store data (.data stored true)).setMain
      (.creating data client))
    | _ => some s.breaks
  | .creating data _ =>
    some { (s.setHandler s.threads (.sending data)).setMain .mallocData with
      threads := s.threads + 1 }
  | .freeing (a :: blocks) status => some ((s.free a).setMain (.freeing blocks status))
  | .freeing [] status => some { s.setMain (.returning status) with socket := false }
  | .returning status => some { s with ended := some status }

/-- `handler`, server.c:86-110. -/
def handlerStep (s : State Client) (n : Nat) (sent : Bool) : Option (State Client) :=
  match s.handler n with
  | .absent => none
  | .sending args =>
    match s.message args with
    | some _ => some (s.setHandler n
      (if s.socket && sent then .freeingClient args none else .closing args))
    | none => some s.breaks
  | .closing args =>
    some { s.setHandler n (.freeingClient args (some 1)) with socket := false }
  | .freeingClient args status =>
    match s.clientOf args with
    | some client => some ((s.free client).setHandler n (.freeingData args status))
    | none => some s.breaks
  | .freeingData args status =>
    some { (s.free args).setHandler n (.done status) with ended := status }
  | .done _ => none

/-- Nothing moves in a process that has ended. -/
def step (s : State Client) : Action Client → Option (State Client)
  | .main supply => if s.ended = none then mainStep s supply else none
  | .handler n sent => if s.ended = none then handlerStep s n sent else none

/-- A datagram is noted whatever it is. -/
def mainEvents (s : State Client) (supply : Supply Client) : List (Event Client Text) :=
  match s.main, supply.datagram with
  | .receiving _ _, some (sender, bytes) =>
    if isKill (overlay s.buff bytes) then [.noted bytes]
    else [.noted bytes, .received ⟨s.threads, sender⟩]
  | _, _ => []

def handlerEvents (s : State Client) (n : Nat) (sent : Bool) : List (Event Client Text) :=
  match s.handler n with
  | .sending args =>
    match s.message args with
    | some request => if s.socket && sent then [.answered request] else []
    | none => []
  | _ => []

def server : System (State Client) (Action Client) (Event Client Text) where
  step := step
  emit s
    | .main supply => mainEvents s supply
    | .handler n sent => handlerEvents s n sent

/-- `buff` is not initialised. -/
def start (junk : Text) : State Client :=
  { heap := fun _ => none, main := .mallocData, buff := junk, socket := true,
    handler := fun _ => .absent, threads := 0, ended := none, corrupt := false }

end EltexCourse.Source.TimeServer.Parallel
