import EltexCourse.Source.Echo.Server

/-!
# task_echo: the server hears itself

The server on a host whose raw socket is also handed a copy of each datagram
the server sends to an address of that host. `sendto` goes to the address that
`recvfrom` reported, the source address of the IP header; the copy comes back
with an IP header of the kernel's, 20 bytes long and from an address of the
host. Copies and other datagrams arrive in any order. `own` is the set of the
host's addresses.
-/

set_option autoImplicit false

namespace EltexCourse.Source.Echo
open Foundations.CString Foundations.Transition

/-- A datagram on its way back, with the number of the external datagram that
the server sent it for, directly or not. -/
structure Copy where
  origin : Nat
  bytes : Text
  deriving DecidableEq, Repr

structure Feedback (Addr : Type) where
  server : Server Addr
  /-- How many external datagrams have arrived. -/
  arrived : Nat
  copies : List Copy

inductive Arrival (Addr : Type) where
  | external (datagram : Text) (malloc : Addr)
  /-- The `i`-th copy, with the IP header it is given. -/
  | copy (i : Nat) (ip : Text) (malloc : Addr)
  deriving DecidableEq, Repr

/-- A reply of the server, on account of an external datagram. -/
structure Answer where
  origin : Nat
  /-- It answers a copy. -/
  toCopy : Bool
  deriving DecidableEq, Repr

/-- What the kernel hands to a raw socket begins with a whole IP header. -/
def WholeHeader (datagram : Text) : Prop :=
  ∃ n ∈ headerSize datagram, 20 ≤ n ∧ n ≤ datagram.length

instance (datagram : Text) : Decidable (WholeHeader datagram) := by
  unfold WholeHeader
  infer_instance

section
variable (own : Int → Bool)

def KernelHeader (ip : Text) : Prop :=
  ip.length = 20 ∧ headerSize ip = some 20 ∧ (saddr ip).any own = true

instance (ip : Text) : Decidable (KernelHeader own ip) :=
  inferInstanceAs (Decidable (_ ∧ _ ∧ _))

/-- The copy of what was sent, if the datagram answered is from this host. -/
def copied (origin : Nat) (datagram : Text) : Option Text → List Copy
  | some sent => if (saddr datagram).any own then [⟨origin, sent⟩] else []
  | none => []

end

/-- The answer made by a turn of the loop. -/
def answers (origin : Nat) (toCopy : Bool) : Option Text → List Answer
  | some _ => [⟨origin, toCopy⟩]
  | none => []

variable {Addr : Type} [DecidableEq Addr]

/-- One turn of the loop on the next datagram. -/
def arrive (own : Int → Bool) (s : Feedback Addr) :
    Arrival Addr → Option (Feedback Addr × List Answer)
  | .external datagram malloc =>
    if WholeHeader datagram then
      (serve s.server datagram malloc).map fun served =>
        ({ server := served.1
           arrived := s.arrived + 1
           copies := s.copies ++ copied own s.arrived datagram served.2 },
          answers s.arrived false served.2)
    else none
  | .copy i ip malloc =>
    match s.copies[i]? with
    | none => none
    | some c =>
      if KernelHeader own ip then
        (serve s.server (ip ++ c.bytes) malloc).map fun served =>
          ({ s with
             server := served.1
             copies := s.copies.eraseIdx i ++ copied own c.origin (ip ++ c.bytes) served.2 },
            answers c.origin true served.2)
      else none

def feedback (own : Int → Bool) : System (Feedback Addr) (Arrival Addr) Answer where
  step s a := (arrive own s a).map Prod.fst
  emit s a := ((arrive own s a).map Prod.snd).getD []

/-- The server at its start; `buff` is not initialised. -/
def feedbackInit (buff : Text) : Feedback Addr := ⟨⟨listInit, buff⟩, 0, []⟩

end EltexCourse.Source.Echo
