/-!
# task16_ether_header: `check_sum`

client.c, on a little-endian host. `ptr` and `count` are the list of the bytes
that are summed. `sum` is a `long` of 64 bits.
-/

set_option autoImplicit false

namespace EltexCourse.Source.EtherHeader

abbrev Byte := BitVec 8

/-- The loop, and the byte behind it when the number of bytes is odd, client.c:34-42. -/
def addWords : List Byte → BitVec 64 → BitVec 64
  | low :: high :: ptr, sum => addWords ptr (sum + (high ++ low).setWidth 64)
  | [last], sum => sum + last.setWidth 64
  | [], sum => sum

/-- `sum = (sum >> 16) + (sum & 0xffff)`, client.c:44. -/
def foldOnce (sum : BitVec 64) : BitVec 64 := sum.sshiftRight 16 + (sum &&& 0xffff)

/-- `sum = sum + (sum >> 16)`, client.c:45. -/
def foldAgain (sum : BitVec 64) : BitVec 64 := sum + sum.sshiftRight 16

/-- client.c:30-48. -/
def checkSum (bytes : List Byte) : BitVec 16 :=
  (~~~ foldAgain (foldOnce (addWords bytes 0))).setWidth 16

/-- The store of a 16-bit field, client.c:92. -/
def storeField (bytes : List Byte) (offset : Nat) (value : BitVec 16) : List Byte :=
  (bytes.set offset (value.setWidth 8)).set (offset + 1) ((value >>> 8).setWidth 8)

/-- The offset of `check` in `struct iphdr`. -/
def checkOffset : Nat := 10

/-- client.c:73-92. `packet.ip` before `check` is computed: 35 bytes, from 192.168.3.4
to 192.168.3.2. -/
def ip : List Byte :=
  [0x45, 0, 0, 35, 0x30, 0x39, 0, 0, 64, 17, 0, 0, 192, 168, 3, 4, 192, 168, 3, 2]

end EltexCourse.Source.EtherHeader
