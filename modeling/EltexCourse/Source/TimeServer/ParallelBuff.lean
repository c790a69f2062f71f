import EltexCourse.Source.TimeServer.Request

/-!
# task16_cs_models/parallel_buff

server.c: `main` gives a request to a thread whose slot is free. A slot has one
flag, which `main` sets to 1 and in the end to -1, and the handler to 0. One
step is one read or write of `is_ready` or of the slot's address, one `recvfrom`
or one `sendto`; the system calls succeed. `buff` keeps what a shorter datagram
leaves of it. `usleep` orders nothing. What `main` does after the stop flags, up to
its return, is not modelled.
-/

set_option autoImplicit false

namespace EltexCourse.Source.TimeServer.ParallelBuff
open Foundations.CString Foundations.Transition

/-- `struct data_for_handler` without the socket, server.c:12-16. -/
structure Slot (Client : Type) where
  client : Request Client
  isReady : Int
  deriving DecidableEq, Repr

inductive MainPc where
  /-- Before the test of `data[i].is_ready`. -/
  | scanning (i : Fin 3)
  | receiving (freeThread : Fin 3)
  /-- Before `data[free_thread].client = client`. -/
  | addressing (freeThread : Fin 3)
  /-- Before `data[free_thread].is_ready = 1`. -/
  | starting (freeThread : Fin 3)
  /-- Before the store of -1 in `data[i].is_ready`; `data[2]` comes first. -/
  | stopping (i : Fin 3)
  | finished
  deriving DecidableEq, Repr

inductive HandlerPc where
  /-- Before the comparison of `is_ready` with 0. -/
  | testing
  /-- Before the comparison with -1. -/
  | retesting
  | sending
  /-- Before `is_ready = 0`. -/
  | clearing
  /-- At the end, after `break`. -/
  | stopped
  deriving DecidableEq, Repr

variable {Client : Type}

structure State (Client : Type) where
  data : Fin 3 → Slot Client
  main : MainPc
  /-- The variable `client` of `main`. -/
  client : Request Client
  buff : Text
  handler : Fin 3 → HandlerPc
  /-- How many datagrams have arrived. -/
  arrivals : Nat

inductive Action (Client : Type) where
  /-- The datagram is for `recvfrom`. -/
  | main (datagram : Datagram Client)
  | handler (h : Fin 3)
  deriving DecidableEq, Repr

def State.setMain (s : State Client) (pc : MainPc) : State Client := { s with main := pc }

def State.setHandler (s : State Client) (h : Fin 3) (pc : HandlerPc) : State Client :=
  { s with handler := Function.update s.handler h pc }

def State.setReady (s : State Client) (i : Fin 3) (isReady : Int) : State Client :=
  { s with data := Function.update s.data i { s.data i with isReady } }

def State.setAddress (s : State Client) (i : Fin 3) (client : Request Client) : State Client :=
  { s with data := Function.update s.data i { s.data i with client } }

/-- After `i == 2` the loop goes on with `i = 0` and `i++`. -/
def nextSlot (i : Fin 3) : Fin 3 := if i = 2 then 1 else i + 1

/-- The chain of assignments is carried out from its right end. -/
def afterStop (i : Fin 3) : MainPc :=
  if i = 2 then .stopping 1 else if i = 1 then .stopping 0 else .finished

/-- The loop of `main`, server.c:57-88. -/
def mainStep (s : State Client) (datagram : Datagram Client) : Option (State Client) :=
  match s.main with
  | .scanning i =>
    some (s.setMain (if (s.data i).isReady = 0 then .receiving i else .scanning (nextSlot i)))
  | .receiving freeThread =>
    let buff := overlay s.buff datagram.bytes
    some { s with
      client := ⟨s.arrivals, datagram.client⟩
      buff
      main := if isKill buff then .stopping 2 else .addressing freeThread
      arrivals := s.arrivals + 1 }
  | .addressing freeThread =>
    some ((s.setAddress freeThread s.client).setMain (.starting freeThread))
  | .starting freeThread => some ((s.setReady freeThread 1).setMain (.scanning 0))
  | .stopping i => some ((s.setReady i (-1)).setMain (afterStop i))
  | .finished => none

/-- The loop of `handler`, server.c:101-122. -/
def handlerStep (s : State Client) (h : Fin 3) : Option (State Client) :=
  match s.handler h with
  | .testing =>
    some (s.setHandler h (if (s.data h).isReady = 0 then .testing else .retesting))
  | .retesting =>
    some (s.setHandler h (if (s.data h).isReady = -1 then .stopped else .sending))
  | .sending => some (s.setHandler h .clearing)
  | .clearing => some ((s.setReady h 0).setHandler h .testing)
  | .stopped => none

def step (s : State Client) : Action Client → Option (State Client)
  | .main datagram => mainStep s datagram
  | .handler h => handlerStep s h

/-- A request is received whatever `main` takes it for. Whose step it was is noted,
too. -/
def emit (s : State Client) : Action Client → List (Event Client (Option (Fin 3)))
  | .main datagram =>
    match s.main with
    | .receiving _ =>
      if isKill datagram.bytes then [.noted none]
      else [.noted none, .received ⟨s.arrivals, datagram.client⟩]
    | _ => [.noted none]
  | .handler h =>
    match s.handler h with
    | .sending => [.noted (some h), .answered (s.data h).client]
    | _ => [.noted (some h)]

def server : System (State Client) (Action Client) (Event Client (Option (Fin 3))) where
  step := step
  emit := emit

/-- The addresses and `buff` are not initialised. -/
def start (client : Request Client) (junk : Text) : State Client :=
  { data := fun _ => { client, isReady := 0 }
    main := .scanning 0
    client
    buff := junk
    handler := fun _ => .testing
    arrivals := 0 }

end EltexCourse.Source.TimeServer.ParallelBuff
