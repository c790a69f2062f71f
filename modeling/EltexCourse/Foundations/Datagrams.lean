import Mathlib.Data.List.Basic

/-!
# UDP datagrams and IPv4 packets

As bytes, with the words in network order. A packet has no options. What is
parsed are the bytes of a datagram, or packet, and of one only; the checksums
are fields like any other here.
-/

set_option autoImplicit false

namespace EltexCourse.Foundations.Datagrams

abbrev Byte := BitVec 8

def highByte (word : BitVec 16) : Byte := (word >>> 8).setWidth 8

def lowByte (word : BitVec 16) : Byte := word.setWidth 8

def bytesOf (word : BitVec 16) : List Byte := [highByte word, lowByte word]

/-- The word at `offset`. -/
def wordAt (bytes : List Byte) (offset : Nat) : Option (BitVec 16) := do
  let high ← bytes[offset]?
  let low ← bytes[offset + 1]?
  some (high ++ low)

theorem toNat_append_bytes (high low : Byte) :
    (high ++ low : BitVec 16).toNat = 256 * high.toNat + low.toNat := by
  rw [BitVec.toNat_append, ← Nat.shiftLeft_add_eq_or_of_lt low.isLt, Nat.shiftLeft_eq]
  omega

@[simp] theorem high_append_low (word : BitVec 16) : highByte word ++ lowByte word = word := by
  apply BitVec.eq_of_toNat_eq
  have bound := word.isLt
  rw [toNat_append_bytes, highByte, lowByte, BitVec.toNat_setWidth, BitVec.toNat_setWidth,
    BitVec.toNat_ushiftRight, Nat.shiftRight_eq_div_pow]
  omega

@[simp] theorem highByte_append (high low : Byte) : highByte (high ++ low) = high := by
  apply BitVec.eq_of_toNat_eq
  have h := high.isLt
  have l := low.isLt
  rw [highByte, BitVec.toNat_setWidth, BitVec.toNat_ushiftRight, toNat_append_bytes,
    Nat.shiftRight_eq_div_pow]
  omega

@[simp] theorem lowByte_append (high low : Byte) : lowByte (high ++ low) = low := by
  apply BitVec.eq_of_toNat_eq
  have l := low.isLt
  rw [lowByte, BitVec.toNat_setWidth, toNat_append_bytes]
  omega

/-- A word of two bytes in network order reads back at its place. -/
theorem wordAt_front (front rest : List Byte) (word : BitVec 16) :
    wordAt (front ++ (bytesOf word ++ rest)) front.length = some word := by
  simp [wordAt, bytesOf]

structure Udp where
  source : BitVec 16
  dest : BitVec 16
  check : BitVec 16
  data : List Byte
  fits : data.length + 8 < 65536

namespace Udp

variable {udp : Udp} {raw : List Byte}

def length (udp : Udp) : BitVec 16 := BitVec.ofNat 16 (udp.data.length + 8)

def bytes (udp : Udp) : List Byte :=
  bytesOf udp.source ++ bytesOf udp.dest ++ bytesOf udp.length ++ bytesOf udp.check ++ udp.data

def parse : List Byte → Option Udp
  | source :: source' :: dest :: dest' :: len :: len' :: check :: check' :: data =>
    if fits : data.length + 8 < 65536 then
      if (len ++ len' : BitVec 16) = BitVec.ofNat 16 (data.length + 8) then
        some ⟨source ++ source', dest ++ dest', check ++ check', data, fits⟩
      else none
    else none
  | _ => none

theorem parse_bytes (udp : Udp) : parse udp.bytes = some udp := by
  simp [bytes, parse, bytesOf, length, udp.fits]

theorem bytes_of_parse (parsed : parse raw = some udp) : raw = udp.bytes := by
  unfold parse at parsed
  split at parsed
  · split at parsed
    · next source source' dest dest' len len' check check' data fits =>
      split at parsed
      · next same =>
        cases parsed
        simp [Udp.bytes, bytesOf, Udp.length, ← same]
      · cases parsed
    · cases parsed
  · cases parsed

theorem parse_iff : parse raw = some udp ↔ raw = udp.bytes :=
  ⟨bytes_of_parse, fun same => same ▸ parse_bytes udp⟩

end Udp

structure Address where
  a : Byte
  b : Byte
  c : Byte
  d : Byte
  deriving DecidableEq, Repr

def Address.bytes (address : Address) : List Byte := [address.a, address.b, address.c, address.d]

structure Ip where
  tos : Byte
  id : BitVec 16
  fragOff : BitVec 16
  ttl : Byte
  protocol : Byte
  check : BitVec 16
  saddr : Address
  daddr : Address
  data : List Byte
  fits : data.length + 20 < 65536

namespace Ip

variable {ip : Ip} {raw : List Byte}

def length (ip : Ip) : BitVec 16 := BitVec.ofNat 16 (ip.data.length + 20)

/-- Version 4 and five words of header. -/
def header (ip : Ip) : List Byte :=
  [0x45, ip.tos] ++ bytesOf ip.length ++ bytesOf ip.id ++ bytesOf ip.fragOff ++
    [ip.ttl, ip.protocol] ++ bytesOf ip.check ++ ip.saddr.bytes ++ ip.daddr.bytes

def bytes (ip : Ip) : List Byte := ip.header ++ ip.data

def parse : List Byte → Option Ip
  | first :: tos :: len :: len' :: id :: id' :: frag :: frag' :: ttl :: protocol :: check ::
      check' ::
      a :: b :: c :: d :: a' :: b' :: c' :: d' :: data =>
    if fits : data.length + 20 < 65536 then
      if first = 0x45 ∧ (len ++ len' : BitVec 16) = BitVec.ofNat 16 (data.length + 20) then
        some { tos, id := id ++ id', fragOff := frag ++ frag', ttl, protocol
               check := check ++ check', saddr := ⟨a, b, c, d⟩, daddr := ⟨a', b', c', d'⟩,
                 data, fits }
      else none
    else none
  | _ => none

theorem header_length (ip : Ip) : ip.header.length = 20 := rfl

theorem parse_bytes (ip : Ip) : parse ip.bytes = some ip := by
  simp [bytes, header, parse, bytesOf, length, Address.bytes, ip.fits]

theorem bytes_of_parse (parsed : parse raw = some ip) : raw = ip.bytes := by
  unfold parse at parsed
  split at parsed
  · split at parsed
    · split at parsed
      · next same =>
        obtain ⟨rfl, len⟩ := same
        cases parsed
        simp [Ip.bytes, header, bytesOf, Ip.length, Address.bytes, ← len]
      · cases parsed
    · cases parsed
  · cases parsed

theorem parse_iff : parse raw = some ip ↔ raw = ip.bytes :=
  ⟨bytes_of_parse, fun same => same ▸ parse_bytes ip⟩

end Ip

end EltexCourse.Foundations.Datagrams
