import EltexCourse.Foundations.Descriptors
import EltexCourse.Foundations.Transition
import EltexCourse.Source.TimeServer.Buffer

/-!
# task16_cs_models/multyplexed_fd

server.c: one process, which looks with `select` at a UDP and a TCP socket. Both
answer with the time that was read behind `select`, out of the buffer the request
has been received in. What a system call gives is part of the action; `accept`
gives the lowest free descriptor, and none when the process has `limit` of them.
The descriptors 0, 1 and 2 are open from the start, and the sockets have been
bound. `SIGPIPE` and the addresses of TCP clients are left out.
-/

set_option autoImplicit false

namespace EltexCourse.Source.TimeServer.Multiplexed
open Foundations.CString Foundations.CBuffer Foundations.Layers Foundations.Descriptors
open Foundations.Transition

/-- What of `struct tm` is printed. -/
structure Tm where
  hour : Nat
  min : Nat
  sec : Nat
  hour_lt : hour < 24
  min_lt : min < 60
  sec_le : sec ≤ 60
  deriving DecidableEq, Repr

/-- `%02d`, of a number below 100. -/
def twoDigits (n : Nat) : Text := [Nat.digitChar (n / 10), Nat.digitChar (n % 10)]

/-- `"%02d:%02d:%02d\n"`, server.c:98-101. -/
def timeText (timeinfo : Tm) : Text :=
  twoDigits timeinfo.hour ++ [':'] ++ twoDigits timeinfo.min ++ [':'] ++ twoDigits timeinfo.sec ++
    ['\n']

inductive File where
  | terminal | udp | tcp | client
  deriving DecidableEq, Repr

def fdUdp : Nat := 3

def fdTcp : Nat := 4

variable {Client : Type}

/-- Who is answered: the address of a datagram, or `client_fd`. -/
inductive Peer (Client : Type) where
  | udp (client : Client)
  | tcp (clientFd : Nat)
  deriving DecidableEq, Repr

inductive Pc (Client : Type) where
  /-- Before `select`. -/
  | selecting
  /-- Before `recvfrom`, and whether the other socket is ready, too. -/
  | receivingUdp (tcp : Bool) (timeinfo : Tm)
  | sendingUdp (client : Client) (tcp : Bool) (timeinfo : Tm)
  | accepting (timeinfo : Tm)
  | receivingTcp (clientFd : Nat) (timeinfo : Tm)
  | sendingTcp (clientFd : Nat)
  /-- Before both `close`, and `exit` or `return`. -/
  | closing (status : Nat)
  | ended (status : Nat)
  deriving DecidableEq, Repr

structure State (Client : Type) where
  table : Table File
  buff : Text
  pc : Pc Client

inductive Action (Client : Type) where
  /-- `none` is -1; neither socket is ready after a timeout. -/
  | select (ready : Option (Bool × Bool)) (timeinfo : Tm)
  | recvfrom (datagram : Option (Client × Text))
  | sendto (sent : Bool)
  | accept (accepted : Bool)
  | recv (bytes : Option Text)
  | send (sent : Bool)
  | close
  deriving DecidableEq, Repr

inductive Event (Client : Type) where
  /-- Behind a `select` that has found something. -/
  | woke (timeinfo : Tm)
  | accepted (clientFd : Nat)
  | received (peer : Peer Client) (bytes : Text)
  | replied (peer : Peer Client) (bytes : Text)
  deriving DecidableEq, Repr

namespace State

variable (s : State Client)

def goto (pc : Pc Client) : State Client := { s with pc := pc }

/-- The comparison with "kill" and, for any other request, `sprintf`, server.c:93-101
and 135-143. -/
def hear (timeinfo : Tm) (bytes : Text) (next : Pc Client) : State Client :=
  let buff := overlay s.buff bytes
  if isKill buff then { s with buff := buff, pc := .closing 0 }
  else { s with buff := layer buff (timeText timeinfo ++ [nul]), pc := next }

end State

/-- server.c:62-157. -/
def step (limit : Nat) (s : State Client) : Action Client → Option (State Client)
  | .select ready timeinfo =>
    match s.pc with
    | .selecting =>
      match ready with
      | none => some (s.goto (.closing 1))
      | some (udp, tcp) =>
        some (s.goto (if udp then .receivingUdp tcp timeinfo
          else if tcp then .accepting timeinfo else .selecting))
    | _ => none
  | .recvfrom datagram =>
    match s.pc with
    | .receivingUdp tcp timeinfo =>
      match datagram with
      | none => some (s.goto (.closing 1))
      | some (client, bytes) => some (s.hear timeinfo bytes (.sendingUdp client tcp timeinfo))
    | _ => none
  | .sendto sent =>
    match s.pc with
    | .sendingUdp _ tcp timeinfo =>
      if sent then some (s.goto (if tcp then .accepting timeinfo else .selecting))
      else some (s.goto (.closing 1))
    | _ => none
  | .accept accepted =>
    match s.pc with
    | .accepting timeinfo =>
      if accepted then
        let clientFd := s.table.lowestFree
        if clientFd < limit then
          some { s with
            table := s.table.put clientFd .client
            pc := .receivingTcp clientFd timeinfo }
        else none
      else some (s.goto (.closing 1))
    | _ => none
  | .recv bytes =>
    match s.pc with
    | .receivingTcp clientFd timeinfo =>
      match bytes with
      | none => some (s.goto (.closing 1))
      | some bytes => some (s.hear timeinfo bytes (.sendingTcp clientFd))
    | _ => none
  | .send sent =>
    match s.pc with
    | .sendingTcp _ => some (s.goto (if sent then .selecting else .closing 1))
    | _ => none
  | .close =>
    match s.pc with
    | .closing status =>
      some { s with table := (s.table.close fdUdp).close fdTcp, pc := .ended status }
    | _ => none

def events (s : State Client) : Action Client → List (Event Client)
  | .select (some (udp, tcp)) timeinfo => if udp || tcp then [.woke timeinfo] else []
  | .recvfrom (some (client, bytes)) => [.received (.udp client) bytes]
  | .sendto true =>
    match s.pc with
    | .sendingUdp client _ _ => [.replied (.udp client) s.buff]
    | _ => []
  | .accept true => [.accepted s.table.lowestFree]
  | .recv (some bytes) =>
    match s.pc with
    | .receivingTcp clientFd _ => [.received (.tcp clientFd) bytes]
    | _ => []
  | .send true =>
    match s.pc with
    | .sendingTcp clientFd => [.replied (.tcp clientFd) s.buff]
    | _ => []
  | _ => []

def server (limit : Nat) : System (State Client) (Action Client) (Event Client) where
  step := step limit
  emit := events

/-- `buff` is not initialised. -/
def start (junk : Text) : State Client where
  table := ((((Table.empty.put 0 .terminal).put 1 .terminal).put 2 .terminal).put fdUdp .udp).put
    fdTcp .tcp
  buff := junk
  pc := .selecting

end EltexCourse.Source.TimeServer.Multiplexed
