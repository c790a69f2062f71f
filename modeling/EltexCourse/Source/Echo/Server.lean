import EltexCourse.Foundations.CBuffer
import EltexCourse.Source.Echo.ClientList

/-!
# task_echo: the server

The main loop of server.c on the bytes of one datagram: a raw socket delivers
it with its IP header, cut to the buffer, which is not cleared in between. Bytes
are characters below 256, 16-bit fields lie in memory low byte first. Reading
past `buff`, which `strlen` does when there is no terminator, has no defined
result; `recvfrom` and `sendto` succeed.
-/

set_option autoImplicit false

namespace EltexCourse.Source.Echo
open Foundations.CString Foundations.CBuffer

/-- `BUFF_SIZE`, server.c:13. -/
def buffSize : Nat := 1028

/-- `SERVER_PORT`, server.c:14. -/
def serverPort : Nat := 8080

/-- `sizeof(struct udphdr)`. -/
def udpSize : Nat := 8

def exitText : Text := ['!', 'e', 'x', 'i', 't', '\n']

/-- What `recvfrom(fd, buff, BUFF_SIZE, …)` leaves in `buff`. -/
def recvfrom (buff datagram : Text) : Text := datagram.take buffSize ++ buff.drop datagram.length

def load (block : Text) (i : Nat) : Option Nat := (block[i]?).map Char.toNat

def load16 (block : Text) (i : Nat) : Option Nat := do
  let low ← load block i
  let high ← load block (i + 1)
  some (low + 256 * high)

def bytes16 (n : Nat) : Text := [Char.ofNat (n % 256), Char.ofNat (n / 256 % 256)]

/-- `htons` and `ntohs`. -/
def swap16 (n : Nat) : Nat := n % 256 * 256 + n / 256 % 256

/-- `iph->ihl * 4`, server.c:75. -/
def headerSize (block : Text) : Option Nat := (load block 0).map fun n => n % 16 * 4

/-- `iph->saddr`, passed as an `int`. -/
def saddr (block : Text) : Option Int := do
  let low ← load16 block 12
  let high ← load16 block 14
  some (Int.bmod (low + 65536 * high : Nat) (2 ^ 32))

/-- `udph->source`. -/
def source (block : Text) (udph : Nat) : Option Nat := load16 block udph

/-- `ntohs(udph->dest)`. -/
def dest (block : Text) (udph : Nat) : Option Nat := (load16 block (udph + 2)).map swap16

/-- A `struct udphdr` with these fields and `check = 0`. -/
def udpHeader (source dest len : Nat) : Text :=
  bytes16 source ++ bytes16 dest ++ bytes16 (swap16 len) ++ bytes16 0

/-- `strcmp(payload, "!exit\n") == 0`, server.c:80. -/
def isExit (block : Text) (payload : Nat) : Bool :=
  (exitText ++ [nul]).isPrefixOf (block.drop payload)

/-- `*count = … + '0'`, server.c:86. -/
def countChar (count : Int) : Char := Char.ofNat ((count + 48) % 256).toNat

/-- What `snprintf` writes to an array of `size` elements. -/
def snprintf (size : Nat) (output : Text) : Text := output.take (size - 1) ++ [nul]

variable {Addr : Type} [DecidableEq Addr]

structure Server (Addr : Type) where
  list : ClientList Addr
  buff : Text

/-- The reply to the payload in `buff`: the new `buff`, and what is sent,
server.c:88-102. -/
def reply (buff : Text) (udph : Nat) (source : Nat) (count : Int) : Option (Text × Text) := do
  let payload := udph + udpSize
  let length ← strlen buff payload
  let buff ← store buff (payload + length - 1) nul
  let text ← stringAt buff payload
  let response := snprintf (buffSize - payload) (text ++ [' ', countChar count])
  let response ← stringAt response 0
  let replyUdph := udpHeader (swap16 serverPort) source (udpSize + response.length + 1)
  let buff ← memcpy buff udph replyUdph
  let buff ← memcpy buff payload (response ++ [nul])
  some (buff, (buff.drop udph).take (udpSize + response.length + 1))

/-- server.c:67-107. One datagram: the new state, and the reply if one is sent. `malloc`
is the address a new node gets. -/
def serve (s : Server Addr) (datagram : Text) (malloc : Addr) :
    Option (Server Addr × Option Text) := do
  let buff := recvfrom s.buff datagram
  let udph ← headerSize buff
  let port ← dest buff udph
  if port = serverPort then do
    let ip ← saddr buff
    let source ← source buff udph
    if isExit buff (udph + udpSize) then do
      let list ← listSwitchOff s.list ip source
      some (⟨list, buff⟩, none)
    else do
      let added ← listAdd s.list ip source malloc
      let sent ← reply buff udph source added.2
      some (⟨added.1, sent.1⟩, some sent.2)
  else some (⟨s.list, buff⟩, none)

end EltexCourse.Source.Echo
