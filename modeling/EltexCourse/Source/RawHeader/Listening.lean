import EltexCourse.Foundations.Datagrams
import EltexCourse.Foundations.Layers
import EltexCourse.Source.RawHeader.Packets

/-!
# task16_udp_header, task16_ip_header, task16_ether_header, task16_raw_snifer: what is received

The clients get what comes to the host until it is for them; a packet lies in the
buffer over those before it. What reads beyond the buffer is undefined, and
`outside`. The packets are given; a call that fails ends the program and is left
out.
-/

set_option autoImplicit false

namespace EltexCourse.Source.RawHeader
open Foundations.Datagrams Foundations.Layers

/-- What a client makes of its buffer. -/
inductive Seen where
  | nothing
  /-- Printed, before `break`. -/
  | message (text : List Byte)
  | outside
  deriving DecidableEq, Repr

/-- `%s`, from `offset` on. -/
def printString (block : List Byte) (offset : Nat) : Seen :=
  if 0 ∈ block.drop offset then .message ((block.drop offset).takeWhile (· ≠ 0)) else .outside

/-- task16_udp_header/client.c:53-59 and task16_ip_header/client.c:69-75. -/
def lookRaw (buff2 : List Byte) : Seen :=
  match wordAt buff2 (ipLen buff2 0 + 2) with
  | none => .outside
  | some dest => if dest = 8081 then printString buff2 (ipLen buff2 0 + 8) else .nothing

/-- task16_ether_header/client.c:121-125, where the headers have fixed places. -/
def lookEther (recvBuf : List Byte) : Seen :=
  match wordAt recvBuf 36 with
  | none => .outside
  | some dest => if dest = 8081 then printString recvBuf 42 else .nothing

/-- The loop, with a buffer of `size` bytes: lines 45-60 of task16_udp_header/client.c,
61-76 of task16_ip_header, 114-126 of task16_ether_header. -/
def recvLoop (size : Nat) (look : List Byte → Seen) (buff : List Byte) : List (List Byte) → Seen
  | [] => .nothing
  | packet :: rest =>
    let buff := layer buff (packet.take size)
    match look buff with
    | .nothing => recvLoop size look buff rest
    | found => found

/-- The size of `buff2`, task16_udp_header/client.c:44. -/
def rawSize : Nat := 35

/-- The size of `recv_buf`, task16_ether_header/client.c:113. -/
def etherSize : Nat := 1500

/-- What the server sends back, task16_udp_header/server.c:38-48; server.c of the three
is the same there. -/
def answer (buff datagram : List Byte) : List Byte := (layer buff (datagram.take 7)).set 0 0x21

/-- A 32-bit word as a little-endian host loads it. -/
def loadLong (block : List Byte) (offset : Nat) : BitVec 32 :=
  block.getD (offset + 3) 0 ++ block.getD (offset + 2) 0 ++ block.getD (offset + 1) 0 ++
    block.getD offset 0

def ntohl (x : BitVec 32) : BitVec 32 :=
  x.extractLsb' 0 8 ++ x.extractLsb' 8 8 ++ x.extractLsb' 16 8 ++ x.extractLsb' 24 8

/-- The four numbers of the line that `print_ip` prints, snifer.c:14-21. -/
def printIp (ip : BitVec 32) : List Byte :=
  let bytes := [0, 8, 16, 24].map fun shift => ((ip >>> shift) &&& 0xff).setWidth 8
  [bytes.getD 3 0, bytes.getD 2 0, bytes.getD 1 0, bytes.getD 0 0]

/-- snifer.c:11. -/
def bufferSize : Nat := 65536

/-- snifer.c:29-48. The lines printed, or `none` if it has read beyond the buffer. -/
def snif (buff : List Byte) : List (List Byte) → Option (List (List Byte))
  | [] => some []
  | packet :: rest =>
    let buff := layer buff (packet.take bufferSize)
    if buff.getD 9 0 ≠ ipprotoUdp then snif buff rest
    else
      match wordAt buff (ipLen buff 0) with
      | none => none
      | some source =>
        if source ≠ 53 then snif buff rest
        else (snif buff rest).map (printIp (ntohl (loadLong buff 12)) :: ·)

end EltexCourse.Source.RawHeader
