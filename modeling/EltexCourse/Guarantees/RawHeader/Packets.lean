import EltexCourse.Guarantees.EtherHeader.CheckSum
import EltexCourse.Source.RawHeader.Packets

/-!
# What the clients with headers of their own send

The datagram is one of UDP, and the frame of task16_ether_header an IPv4 packet
around it whose checksum is right for any addresses. None of their bytes is one
that the memory held before; of the packet of task16_ip_header four are, which
make two fields that the kernel fills in.
-/

set_option autoImplicit false

namespace EltexCourse.Guarantees.RawHeader.Packets
open Foundations.Datagrams Foundations.Layout Source.RawHeader
open Source.EtherHeader (storeField checkSum checkOffset)
open Guarantees.EtherHeader.CheckSum (checkSum_stored storeField_at)

/-- The datagram of all three clients. -/
def greeting : Udp :=
  { source := 8081, dest := 8080, check := 0, data := hello, fits := by decide }

/-- What the three have in common: who sends to whom is up to them. -/
def packet (id : BitVec 16) (ttl : Byte) (check : BitVec 16) (saddr daddr : Address) : Ip :=
  { tos := 0, id, fragOff := 0, ttl, protocol := ipprotoUdp, check, saddr, daddr
    data := greeting.bytes, fits := by decide }

theorem version_byte : ∀ b : Byte, ((b &&& 0x0f ||| 0x40) &&& 0xf0 ||| 0x05) = 0x45 := by decide

theorem writeVersion_eq {block : List Byte} {offset : Nat} (inside : offset < block.length) :
    writeVersion block offset = write block offset [0x45] := by
  obtain ⟨front, old, rest, rfl, rfl⟩ : ∃ front old rest,
      block = front ++ ([old] ++ rest) ∧ front.length = offset := by
    refine ⟨block.take offset, block.get ⟨offset, inside⟩, block.drop (offset + 1), ?_, ?_⟩
    rotate_left
    · exact List.length_take_of_le (Nat.le_of_lt inside)
    rw [List.singleton_append, List.get_eq_getElem, ← List.drop_eq_getElem_cons inside,
      List.take_append_drop]
  have seen (b : Byte) : (front ++ ([b] ++ rest)).getD front.length 0 = b := by simp
  have stored (b b' : Byte) : write (front ++ ([b] ++ rest)) front.length [b'] =
      front ++ ([b'] ++ rest) := write_at _ _ _ rfl
  rw [writeVersion, seen, stored, seen, stored, stored, version_byte]

theorem ipLen_version (rest : List Byte) : ipLen (0x45 :: rest) 0 = 20 := by
  have words : ((0x45 : Byte) &&& 0x0f).toNat = 5 := by decide
  rw [ipLen, List.getD_cons_zero, words]

def udpSizes : List Nat := [2, 2, 2, 2, 7]

theorem udpClient_eq {buff : List Byte} (size : buff.length = 15) :
    udpClient buff = greeting.bytes := by
  have filled := foldl_write udpSizes size
    [(4, hello), (0, bytesOf 8081), (1, bytesOf 8080), (2, bytesOf 15), (3, bytesOf 0)] (by decide)
  exact filled

def ipSizes : List Nat := [1, 1, 2, 2, 2, 1, 1, 2, 4, 4, 2, 2, 2, 2, 7]

/-- The stores up to the one of `daddr`. -/
def ipStores : List (Nat × List Byte) :=
  [(14, hello), (0, [0x45]), (1, [0]), (3, bytesOf 0), (4, bytesOf 0), (5, [10]),
    (6, [ipprotoUdp]), (8, [0, 0, 0, 0]), (9, [127, 0, 0, 1])]

def udpStores : List (Nat × List Byte) :=
  [(10, bytesOf 8081), (11, bytesOf 8080), (12, bytesOf 15), (13, bytesOf 0)]

/-- All but the four bytes of `tot_len` and `check`. -/
theorem ipClient_eq {buff : List Byte} (size : buff.length = 35) :
    ipClient buff = [0x45, 0] ++ ((buff.drop 2).take 2 ++ ([0, 0, 0, 0, 10, ipprotoUdp] ++
      ((buff.drop 10).take 2 ++ ([0, 0, 0, 0, 127, 0, 0, 1] ++ greeting.bytes)))) := by
  have greeted : 0 < (write buff 28 hello).length := by
    rw [write_length (by simp [size, hello]), size]
    decide
  have head := foldl_write ipSizes size ipStores (by decide)
  have whole := foldl_write ipSizes size (ipStores ++ udpStores) (by decide)
  have first : ipLen (ipStores.foldl (store ipSizes) buff) 0 = 20 := by
    rw [head]
    exact ipLen_version _
  have shown : ipClient buff = (ipStores ++ udpStores).foldl (store ipSizes) buff := by
    have begun : ipClient buff = writeUdp (ipStores.foldl (store ipSizes) buff)
        (ipLen (ipStores.foldl (store ipSizes) buff) 0) := by
      rw [ipClient, writeVersion_eq greeted]
      simp [ipStores, store, ipSizes]
    rw [begun, first, List.foldl_append]
    simp [udpStores, store, ipSizes, writeUdp]
  rw [shown, whole]
  simp [ipStores, udpStores, ipSizes, split, replace, greeting, Udp.bytes, Udp.length,
    bytesOf, hello]
  decide

/-- What goes out when the kernel has filled in the length and a checksum. -/
theorem ipClient_filled {buff : List Byte} (size : buff.length = 35) (check : BitVec 16) :
    write (write (ipClient buff) 2 (bytesOf 35)) 10 (bytesOf check) =
      (packet 0 10 check ⟨0, 0, 0, 0⟩ ⟨127, 0, 0, 1⟩).bytes := by
  rw [ipClient_eq size]
  have len : ((buff.drop 2).take 2).length = 2 := by simp [size]
  have check' : ((buff.drop 10).take 2).length = 2 := by simp [size]
  have first (rest : List Byte) : write ([0x45, 0] ++ ((buff.drop 2).take 2 ++ rest)) 2
    (bytesOf 35) =
      [0x45, 0] ++ (bytesOf 35 ++ rest) := write_at _ _ _ len.symm
  have second (rest : List Byte) :
      write (([0x45, 0] ++ (bytesOf 35 ++ [0, 0, 0, 0, 10, ipprotoUdp])) ++
        ((buff.drop 10).take 2 ++ rest)) 10 (bytesOf check) =
      ([0x45, 0] ++ (bytesOf 35 ++ [0, 0, 0, 0, 10, ipprotoUdp])) ++ (bytesOf check ++ rest) :=
    write_at _ _ _ check'.symm
  rw [first, ← List.append_assoc (bytesOf 35), ← List.append_assoc [0x45, 0], second]
  have length (p : Ip) (data : p.data = greeting.bytes) : p.length = 35 := by
    rw [Ip.length, data]
    rfl
  simp [packet, Ip.bytes, Ip.header, length, Address.bytes, bytesOf]
  decide

def etherSizes : List Nat := [6, 6, 2, 1, 1, 2, 2, 2, 1, 1, 2, 4, 4, 2, 2, 2, 2, 7]

def etherStores (destMac srcMac : Mac) (saddr daddr : Address) : List (Nat × List Byte) :=
  [(0, destMac.bytes), (1, srcMac.bytes), (2, bytesOf 0x0800), (3, [0x45]), (4, [0]),
    (5, bytesOf 35), (6, bytesOf 12345), (7, bytesOf 0), (8, [64]), (9, [ipprotoUdp]),
    (10, bytesOf 0), (11, saddr.bytes), (12, daddr.bytes), (13, bytesOf 8081), (14, bytesOf 8080),
    (15, bytesOf 15), (16, bytesOf 0), (17, hello)]

/-- The header up to `check`. -/
def front : List Byte := [0x45, 0, 0, 35, 0x30, 0x39, 0, 0, 64, 17]

theorem packet_header (check : BitVec 16) (saddr daddr : Address) :
    (packet 12345 64 check saddr daddr).header =
      front ++ highByte check :: lowByte check :: (saddr.bytes ++ daddr.bytes) := by
  have length : (packet 12345 64 check saddr daddr).length = 35 := rfl
  rw [Ip.header, length]
  simp only [packet, front, bytesOf, List.cons_append, List.nil_append]
  congr 1

/-- The frame before its checksum is stored. -/
theorem etherStores_filled {block : List Byte} (size : block.length = 49) (destMac srcMac : Mac)
    (saddr daddr : Address) :
    (etherStores destMac srcMac saddr daddr).foldl (store etherSizes) block =
      destMac.bytes ++ srcMac.bytes ++ bytesOf 0x0800 ++ (packet 12345 64 0 saddr daddr).bytes := by
  have datagram : greeting.bytes =
      bytesOf 8081 ++ (bytesOf 8080 ++ (bytesOf 15 ++ (bytesOf 0 ++ hello))) := rfl
  rw [foldl_write etherSizes size, Ip.bytes, packet_header]
  · simp [etherStores, etherSizes, split, replace, packet, datagram, front, bytesOf]
    decide
  · simp [etherStores, etherSizes, destMac.six, srcMac.six, bytesOf, Address.bytes, hello]

/-- The stores of the program in its order, the checksum last, as it is computed over
the header before it. -/
theorem etherClient_stores {block : List Byte} (size : block.length = 49) (destMac srcMac : Mac)
    (saddr daddr : Address) :
    etherClient block destMac srcMac saddr daddr =
      let filled := (etherStores destMac srcMac saddr daddr).foldl (store etherSizes) block
      storeField filled 24 (checkSum ((filled.drop 14).take 20)) := by
  have begun : 14 < (write (write (write block 0 destMac.bytes) 6 srcMac.bytes) 12
      (bytesOf 0x0800)).length := by
    rw [write_length, write_length, write_length, size] <;>
      simp [write_length, size, destMac.six, srcMac.six, bytesOf]
  rw [etherClient, writeVersion_eq begun]
  simp [etherStores, store, etherSizes, writeUdp, checkOffset]

theorem zero_bytes : highByte 0 = 0 ∧ lowByte 0 = 0 := by decide

/-- The frame that is sent: `check` has the bytes of the sum in the order they
were added in. -/
theorem etherClient_eq {block : List Byte} (size : block.length = 49) (destMac srcMac : Mac)
    (saddr daddr : Address) : ∃ check,
    etherClient block destMac srcMac saddr daddr =
      destMac.bytes ++ srcMac.bytes ++ bytesOf 0x0800 ++ (packet 12345 64 check saddr daddr).bytes ∧
    checkSum (packet 12345 64 check saddr daddr).header = 0 := by
  have link : (destMac.bytes ++ srcMac.bytes ++ bytesOf 0x0800).length = 14 := by
    simp [destMac.six, srcMac.six, bytesOf]
  obtain ⟨rest, isRest⟩ : ∃ rest, rest = saddr.bytes ++ daddr.bytes := ⟨_, rfl⟩
  obtain ⟨sum, isSum⟩ : ∃ sum, sum = checkSum (front ++ 0 :: 0 :: rest) := ⟨_, rfl⟩
  have empty : (packet 12345 64 0 saddr daddr).header = front ++ 0 :: 0 :: rest := by
    rw [packet_header, zero_bytes.1, zero_bytes.2, isRest]
  have full : (packet 12345 64 (lowByte sum ++ highByte sum) saddr daddr).header =
      front ++ lowByte sum :: highByte sum :: rest := by
    rw [packet_header, highByte_append, lowByte_append, isRest]
  have summed : ((destMac.bytes ++ srcMac.bytes ++ bytesOf 0x0800 ++
      (packet 12345 64 0 saddr daddr).bytes).drop 14).take 20 = front ++ 0 :: 0 :: rest := by
    rw [← link, List.drop_left, Ip.bytes, ← Ip.header_length (packet 12345 64 0 saddr daddr),
      List.take_left, empty]
  have stored := storeField_at (destMac.bytes ++ srcMac.bytes ++ bytesOf 0x0800 ++ front)
    (rest ++ greeting.bytes) 0 0 sum
  refine ⟨lowByte sum ++ highByte sum, ?_, ?_⟩
  · rw [etherClient_stores size]
    simp only [etherStores_filled size, summed, ← isSum]
    rw [List.length_append, link] at stored
    have data (check : BitVec 16) : (packet 12345 64 check saddr daddr).data = greeting.bytes := rfl
    have ten : front.length = 10 := rfl
    rw [Ip.bytes, Ip.bytes, empty, full, data, data]
    simpa [ten, lowByte, highByte] using stored
  · have short : (front ++ 0 :: 0 :: rest).length ≤ 65535 := by
      rw [isRest]
      show 10 + (4 + 4 + 1 + 1) ≤ 65535
      omega
    have zero := checkSum_stored (by decide) short
    rw [storeField_at, ← isSum] at zero
    rw [full]
    exact zero

/-- Whatever was in memory: task16_udp_header sends the greeting, and
task16_ether_header a packet around it whose header sums up to zero, from and to
the addresses it has been given. What task16_ip_header hands to the kernel is such
a packet, but for two fields which are as they were. -/
theorem greetings_sent :
    (∀ buff : List Byte, buff.length = 15 → Udp.parse (udpClient buff) = some greeting) ∧
    (∀ block destMac srcMac saddr daddr, block.length = 49 → ∃ ip : Ip,
      etherClient block destMac srcMac saddr daddr =
        destMac.bytes ++ srcMac.bytes ++ bytesOf 0x0800 ++ ip.bytes ∧
      checkSum ip.header = 0 ∧ ip.protocol = ipprotoUdp ∧ ip.saddr = saddr ∧ ip.daddr = daddr ∧
      Udp.parse ip.data = some greeting) ∧
    ∀ buff : List Byte, buff.length = 35 →
      (∀ i, i = 2 ∨ i = 3 ∨ i = 10 ∨ i = 11 → (ipClient buff)[i]? = buff[i]?) ∧
      ∀ check, ∃ ip : Ip,
        Ip.parse (write (write (ipClient buff) 2 (bytesOf 35)) 10 (bytesOf check)) =
        some ip ∧ ip.check = check ∧ ip.ttl = 10 ∧ ip.protocol = ipprotoUdp ∧
        Udp.parse ip.data = some greeting := by
  refine ⟨fun buff size => ?_, fun block destMac srcMac saddr daddr size => ?_,
    fun buff size => ⟨?_, ?_⟩⟩
  · rw [udpClient_eq size]
    exact Udp.parse_bytes greeting
  · obtain ⟨check, sent, sums⟩ := etherClient_eq size destMac srcMac saddr daddr
    exact ⟨_, sent, sums, rfl, rfl, rfl, Udp.parse_bytes greeting⟩
  · rw [ipClient_eq size]
    rintro i (rfl | rfl | rfl | rfl) <;> simp [List.getElem?_append, size]
  · intro check
    rw [ipClient_filled size]
    exact ⟨_, Ip.parse_bytes _, rfl, rfl, rfl, Udp.parse_bytes greeting⟩

def destMac : Mac := ⟨[0xff, 0xff, 0xff, 0xff, 0xff, 0xff], rfl⟩

def srcMac : Mac := ⟨[0x20, 0xc1, 0x9b, 0x0c, 0x6c, 0x46], rfl⟩

/-- With the addresses of client.c. -/
theorem greetings_sent_hosts : ∃ ip : Ip,
    etherClient (List.replicate 49 0xaa) destMac srcMac ⟨192, 168, 3, 4⟩ ⟨192, 168, 3, 2⟩ =
      destMac.bytes ++ srcMac.bytes ++ bytesOf 0x0800 ++ ip.bytes ∧
    checkSum ip.header = 0 ∧ Udp.parse ip.data = some greeting := by
  obtain ⟨ip, sent, sums, -, -, -, datagram⟩ :=
    greetings_sent.2.1 (List.replicate 49 0xaa) destMac srcMac
    ⟨192, 168, 3, 4⟩ ⟨192, 168, 3, 2⟩ (List.length_replicate ..)
  exact ⟨ip, sent, sums, datagram⟩

end EltexCourse.Guarantees.RawHeader.Packets
