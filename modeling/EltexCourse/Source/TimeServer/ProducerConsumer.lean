import EltexCourse.Source.TimeServer.Request

/-!
# task16_cs_models/producer_consumer

server.c: `main` puts requests and stop markers into a System V queue, three
handlers take them out. All messages have type 1 and are taken with type 0, so
the queue is first in, first out. One step is one `recvfrom`, `msgsnd`, `msgrcv`
or `sendto`, all of which succeed. `buff` keeps what a shorter datagram leaves of
it. The calls of `msgsnd` and `msgrcv` name the size of the whole message and not
of its data, and so also copy the eight bytes behind `msg`, which are left out.
What `main` does after `thread_killer`, up to the removal of the queue, is not
modelled.
-/

set_option autoImplicit false

namespace EltexCourse.Source.TimeServer.ProducerConsumer
open Foundations.CString Foundations.Transition

/-- `struct message` without its type and the socket, server.c:16-25. -/
structure Message (Client : Type) where
  isReady : Int
  client : Request Client
  deriving DecidableEq, Repr

inductive MainPc where
  | receiving
  /-- At the `msgsnd` of a request. -/
  | sending
  /-- In `thread_killer`, with so many `msgsnd` to come. -/
  | killing (left : Nat)
  deriving DecidableEq, Repr

inductive HandlerPc (Client : Type) where
  | receiving
  /-- Before the test of `is_ready`, with a message taken. -/
  | testing (msg : Message Client)
  | stopped
  deriving DecidableEq, Repr

variable {Client : Type}

structure State (Client : Type) where
  queue : List (Message Client)
  main : MainPc
  /-- The variable `msg` of `main`. -/
  msg : Message Client
  buff : Text
  handler : Fin 3 → HandlerPc Client
  /-- How many datagrams have arrived. -/
  arrivals : Nat

inductive Action (Client : Type) where
  /-- The datagram is for `recvfrom`. -/
  | main (datagram : Datagram Client)
  | handler (h : Fin 3)
  deriving DecidableEq, Repr

def State.send (s : State Client) (pc : MainPc) : State Client :=
  { s with queue := s.queue ++ [s.msg], main := pc }

/-- The loop of `main`, server.c:82-103, and `thread_killer`, server.c:152-157. -/
def mainStep (s : State Client) (datagram : Datagram Client) : Option (State Client) :=
  match s.main with
  | .receiving =>
    let buff := overlay s.buff datagram.bytes
    let arrivals := s.arrivals + 1
    if isKill buff then
      some { s with msg := { s.msg with isReady := -1 }, buff, main := .killing 3, arrivals }
    else
      let client : Request Client := ⟨s.arrivals, datagram.client⟩
      some { s with msg := { s.msg with client }, buff, main := .sending, arrivals }
  | .sending => some (s.send .receiving)
  | .killing (left + 1) => some (s.send (.killing left))
  | .killing 0 => none

def State.setHandler (s : State Client) (h : Fin 3) (pc : HandlerPc Client) : State Client :=
  { s with handler := Function.update s.handler h pc }

/-- The loop of `handler`, server.c:117-148. -/
def handlerStep (s : State Client) (h : Fin 3) : Option (State Client) :=
  match s.handler h with
  | .receiving =>
    match s.queue with
    | [] => none
    | msg :: queue => some ({ s with queue }.setHandler h (.testing msg))
  | .testing msg => some (s.setHandler h (if msg.isReady = -1 then .stopped else .receiving))
  | .stopped => none

def step (s : State Client) : Action Client → Option (State Client)
  | .main datagram => mainStep s datagram
  | .handler h => handlerStep s h

/-- A request is received whatever `main` takes it for. A handler that takes a stop
marker is noted. -/
def emit (s : State Client) : Action Client → List (Event Client (Fin 3))
  | .main datagram =>
    match s.main with
    | .receiving =>
      if isKill datagram.bytes then [] else [.received ⟨s.arrivals, datagram.client⟩]
    | _ => []
  | .handler h =>
    match s.handler h with
    | .testing msg => if msg.isReady = -1 then [.noted h] else [.answered msg.client]
    | _ => []

def server : System (State Client) (Action Client) (Event Client (Fin 3)) where
  step := step
  emit := emit

/-- Before the first request neither the address in `msg` nor `buff` is initialised. -/
def start (client : Request Client) (junk : Text) : State Client :=
  { queue := []
    main := .receiving
    msg := { isReady := 1, client }
    buff := junk
    handler := fun _ => .receiving
    arrivals := 0 }

end EltexCourse.Source.TimeServer.ProducerConsumer
