import EltexCourse.Foundations.Datagrams
import EltexCourse.Foundations.Layout
import EltexCourse.Source.EtherHeader.CheckSum

/-!
# task16_udp_header, task16_ip_header, task16_ether_header: what the clients send

Each client fills a block of memory that has not been initialised, field by
field, on a little-endian host. What is assigned with `htons` has its bytes in
network order. The interface, and the answers, are left out.
-/

set_option autoImplicit false

namespace EltexCourse.Source.RawHeader
open Foundations.Datagrams Foundations.Layout
open Source.EtherHeader (storeField checkSum checkOffset)

/-- "Hello!" with its terminator. -/
def hello : List Byte := [0x48, 0x65, 0x6c, 0x6c, 0x6f, 0x21, 0]

def ipprotoUdp : Byte := 17

/-- task16_udp_header/client.c:25-28. The assignments to a `struct udphdr` at `offset`,
which are the same in all three clients. -/
def writeUdp (block : List Byte) (offset : Nat) : List Byte :=
  let block := write block offset (bytesOf 8081)
  let block := write block (offset + 2) (bytesOf 8080)
  let block := write block (offset + 4) (bytesOf 15)
  write block (offset + 6) (bytesOf 0)

/-- `version = 4` and `ihl = 5`, which are the halves of one byte,
task16_ip_header/client.c:25-26. -/
def writeVersion (block : List Byte) (offset : Nat) : List Byte :=
  let block := write block offset [(block.getD offset 0 &&& 0x0f) ||| 0x40]
  write block offset [(block.getD offset 0 &&& 0xf0) ||| 0x05]

/-- `ihl * 4` of the header at `offset`, task16_ip_header/client.c:37. -/
def ipLen (block : List Byte) (offset : Nat) : Nat := (block.getD offset 0 &&& 0x0f).toNat * 4

/-- `buff` of task16_udp_header/client.c, lines 21-28. -/
def udpClient (buff : List Byte) : List Byte :=
  let buff := write buff 8 hello
  writeUdp buff 0

/-- `buff` of task16_ip_header/client.c, lines 21-42. -/
def ipClient (buff : List Byte) : List Byte :=
  let buff := write buff 28 hello
  let buff := writeVersion buff 0
  let buff := write buff 1 [0]
  let buff := write buff 4 (bytesOf 0)
  let buff := write buff 6 (bytesOf 0)
  let buff := write buff 8 [10]
  let buff := write buff 9 [ipprotoUdp]
  let buff := write buff 12 [0, 0, 0, 0]
  let buff := write buff 16 [127, 0, 0, 1]
  writeUdp buff (ipLen buff 0)

structure Mac where
  bytes : List Byte
  six : bytes.length = 6

/-- `packet` of task16_ether_header/client.c, lines 64-92, whose addresses are to be
filled in. -/
def etherClient (packet : List Byte) (destMac srcMac : Mac) (saddr daddr : Address) : List Byte :=
  let packet := write packet 0 destMac.bytes
  let packet := write packet 6 srcMac.bytes
  let packet := write packet 12 (bytesOf 0x0800)
  let packet := writeVersion packet 14
  let packet := write packet 15 [0]
  let packet := write packet 16 (bytesOf (20 + 8 + 7))
  let packet := write packet 18 (bytesOf 12345)
  let packet := write packet 20 (bytesOf 0)
  let packet := write packet 22 [64]
  let packet := write packet 23 [ipprotoUdp]
  let packet := write packet 24 (bytesOf 0)
  let packet := write packet 26 saddr.bytes
  let packet := write packet 30 daddr.bytes
  let packet := writeUdp packet 34
  let packet := write packet 42 hello
  storeField packet (14 + checkOffset) (checkSum ((packet.drop 14).take 20))

end EltexCourse.Source.RawHeader
