import EltexCourse.Source.Echo.Server

/-!
# task_echo: the client

The main loop of client.c: what it sends for a line, and what it prints for a
datagram that reaches its raw socket. Constants and memory are those of the
server's model.
-/

set_option autoImplicit false

namespace EltexCourse.Source.Echo
open Foundations.CString Foundations.CBuffer

/-- `CLIENT_PORT`, client.c:12. -/
def clientPort : Nat := 8081

/-- client.c:32. What `fgets(buff + sizeof(struct udphdr), BUFF_SIZE - sizeof(struct
udphdr), stdin)` can return. -/
structure Line where
  text : Text
  nonempty : text ≠ []
  fits : text.length < buffSize - udpSize
  oneLine : '\n' ∉ text.dropLast
  noNul : nul ∉ text

/-- The datagram without its IP header, client.c:32-41. -/
def clientSend (buff : Text) (line : Text) : Option Text := do
  let buff ← memcpy buff udpSize (line ++ [nul])
  let length ← strlen buff udpSize
  let buff ← memcpy buff 0
    (udpHeader (swap16 clientPort) (swap16 serverPort) (udpSize + length + 1))
  some (buff.take (udpSize + length + 1))

/-- What is printed behind `Server: `, or `none` for a datagram to another port,
client.c:52-63. -/
def clientReceive (buff : Text) (datagram : Text) : Option (Option Text) := do
  let buff := recvfrom buff datagram
  let udph ← headerSize buff
  let port ← dest buff udph
  if port = clientPort then (stringAt buff (udph + udpSize)).map some else some none

end EltexCourse.Source.Echo
