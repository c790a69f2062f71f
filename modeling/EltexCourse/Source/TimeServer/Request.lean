import Mathlib.Logic.Function.Basic
import EltexCourse.Foundations.Transition
import EltexCourse.Source.TimeServer.Buffer

/-!
# task16_cs_models: requests and answers

What the thread-pool servers have in common. A datagram whose bytes are "kill" is
a kill message, any other a request; `main` does not compare the datagram but its
buffer, which the datagram may fill in part only. Of a request only the sender's
address is used. Datagrams are numbered as they arrive, so that requests can be
told apart; no step reads the number.
-/

set_option autoImplicit false

namespace EltexCourse.Source.TimeServer
open Foundations.CString

/-- `struct sockaddr_in client`, with the number of the request. -/
structure Request (Client : Type) where
  arrival : Nat
  client : Client
  deriving DecidableEq, Repr

/-- What `recvfrom` gives. -/
structure Datagram (Client : Type) where
  client : Client
  bytes : Text
  deriving DecidableEq, Repr

/-- Over what the buffer holds a request is not taken for a kill message. -/
def Understood {Client : Type} (buff : Text) (datagram : Datagram Client) : Prop :=
  isKill (overlay buff datagram.bytes) = true → isKill datagram.bytes = true

instance {Client : Type} (buff : Text) (datagram : Datagram Client) :
    Decidable (Understood buff datagram) :=
  inferInstanceAs (Decidable (_ → _))

/-- The datagrams of client.c have sixteen bytes. -/
theorem understood_long {Client : Type} {datagram : Datagram Client}
    (long : 5 ≤ datagram.bytes.length) (buff : Text) : Understood buff datagram := by
  rw [Understood, isKill_long long]
  exact id

/-- Requests and answers, and whatever else is noted of a step. -/
inductive Event (Client Note : Type) where
  | received (request : Request Client)
  /-- `sendto` to the client of the request. -/
  | answered (request : Request Client)
  | noted (note : Note)
  deriving DecidableEq, Repr

variable {Client Note : Type}

def Event.request? : Event Client Note → Option (Request Client)
  | .received request => some request
  | .answered _ | .noted _ => none

def Event.answer? : Event Client Note → Option (Request Client)
  | .answered request => some request
  | .received _ | .noted _ => none

def Event.note? : Event Client Note → Option Note
  | .noted note => some note
  | .received _ | .answered _ => none

def requests (log : List (Event Client Note)) : List (Request Client) :=
  log.filterMap Event.request?

def answers (log : List (Event Client Note)) : List (Request Client) :=
  log.filterMap Event.answer?

def notes (log : List (Event Client Note)) : List Note := log.filterMap Event.note?

section Logs

variable {log events : List (Event Client Note)} {request : Request Client} {note : Note}

/-- The requests of a log are those of its parts, in order. The two lemmas after this
one are the same of the answers and of the notes. -/
theorem requests_append : requests (log ++ events) = requests log ++ requests events :=
  List.filterMap_append ..

theorem answers_append : answers (log ++ events) = answers log ++ answers events :=
  List.filterMap_append ..

theorem notes_append : notes (log ++ events) = notes log ++ notes events :=
  List.filterMap_append ..

/-- What one event adds to a log, for each of the three readings; these are the simp set
of the modules on the handlers. -/
@[simp] theorem requests_received :
    requests (log ++ [.received request]) = requests log ++ [request] := requests_append

@[simp] theorem answers_received : answers (log ++ [.received request]) = answers log := by
  simp [answers, Event.answer?]

@[simp] theorem requests_answered : requests (log ++ [.answered request]) = requests log := by
  simp [requests, Event.request?]

@[simp] theorem answers_answered :
    answers (log ++ [.answered request]) = answers log ++ [request] := by
  simp [answers, Event.answer?]

@[simp] theorem requests_noted : requests (log ++ [.noted note]) = requests log := by
  simp [requests, Event.request?]

@[simp] theorem answers_noted : answers (log ++ [.noted note]) = answers log := by
  simp [answers, Event.answer?]

theorem notes_received : notes (log ++ [.received request]) = notes log := by
  simp [notes, Event.note?]

@[simp] theorem notes_answered : notes (log ++ [.answered request]) = notes log := by
  simp [notes, Event.note?]

@[simp] theorem notes_noted : notes (log ++ [.noted note]) = notes log ++ [note] := by
  simp [notes, Event.note?]

/-- The numbers given stay below the next one. -/
theorem numbered_received {arrivals : Nat} (numbered : ∀ r ∈ requests log, r.arrival < arrivals)
    (client : Client) :
    ∀ r ∈ requests log ++ [⟨arrivals, client⟩], r.arrival < arrivals + 1 := by
  intro r member
  rcases List.mem_append.mp member with old | new
  · exact Nat.lt_succ_of_lt (numbered r old)
  · rw [List.mem_singleton.mp new]
    exact Nat.lt_succ_self arrivals

end Logs

end EltexCourse.Source.TimeServer
