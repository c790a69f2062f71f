import Mathlib.Data.List.Basic
import EltexCourse.Source.Echo.Server

/-!
# task_echo: one datagram and its reply

A well-formed datagram to the server, where its fields and its payload lie in
`buff`, and the bytes of the reply to a payload that is a string.
-/

set_option autoImplicit false

namespace EltexCourse.Guarantees.Echo.Datagrams
open Foundations.CString Foundations.CBuffer Source.Echo

/-- An IP header of the length it names, a UDP header with the server's port,
and the payload. -/
structure Datagram where
  ip : Text
  udp : Text
  payload : Text
  address : Int
  port : Nat
  header : headerSize ip = some ip.length
  readsAddress : saddr ip = some address
  udpLength : udp.length = udpSize
  readsPort : source udp 0 = some port
  toServer : dest udp 0 = some serverPort

def Datagram.bytes (d : Datagram) : Text := d.ip ++ d.udp ++ d.payload

/-- The address and the port a datagram comes from. -/
abbrev Datagram.client (d : Datagram) : Int × Int := (d.address, d.port)

section
variable {block : Text} {i n : Nat}

/-- A byte read inside a block does not depend on what follows. -/
theorem load_append (found : load block i = some n) (rest : Text) :
    load (block ++ rest) i = some n := by
  obtain ⟨c, inside, rfl⟩ := Option.map_eq_some_iff.mp found
  have bound : i < block.length := (List.getElem?_eq_some_iff.mp inside).1
  rw [load, List.getElem?_append_left bound, inside]
  rfl

theorem load16_append (found : load16 block i = some n) (rest : Text) :
    load16 (block ++ rest) i = some n := by
  simp only [load16, Option.bind_eq_bind, Option.bind_eq_some_iff] at found ⊢
  obtain ⟨low, atLow, high, atHigh, same⟩ := found
  exact ⟨low, load_append atLow rest, high, load_append atHigh rest, same⟩

/-- A byte behind a front part is the byte of the part behind it. -/
theorem load_behind (pre block : Text) (i : Nat) :
    load (pre ++ block) (pre.length + i) = load block i := by
  rw [load, load, List.getElem?_append_right (Nat.le_add_right _ _), Nat.add_sub_cancel_left]

/-- A load inside the second of two blocks does not see the first. -/
theorem load16_behind (pre block : Text) (i : Nat) :
    load16 (pre ++ block) (pre.length + i) = load16 block i := by
  rw [load16, load16, Nat.add_assoc, load_behind, load_behind]

/-- The header's size is in its first byte, so it may be read from the beginning alone.
-/
theorem headerSize_append (found : headerSize block = some n) (rest : Text) :
    headerSize (block ++ rest) = some n := by
  obtain ⟨first, atStart, same⟩ := Option.map_eq_some_iff.mp found
  rw [headerSize, load_append atStart, ← same]
  rfl

/-- The destination port stands at its place in the UDP header, wherever this begins. -/
theorem dest_behind {udp : Text} (found : dest udp 0 = some n) (ip rest : Text) :
    dest (ip ++ (udp ++ rest)) ip.length = some n := by
  obtain ⟨port, inside, same⟩ := Option.map_eq_some_iff.mp found
  rw [dest, load16_behind, load16_append inside, ← same]
  rfl

end

theorem toNat_byte {n : Nat} (byte : n < 256) : (Char.ofNat n).toNat = n := by
  rw [Char.ofNat, dif_pos (Or.inl (by omega))]
  rfl

theorem load16_bytes16 {n : Nat} (small : n < 65536) (rest : Text) :
    load16 (bytes16 n ++ rest) 0 = some n := by
  have low : (Char.ofNat (n % 256)).toNat = n % 256 := toNat_byte (Nat.mod_lt _ (by decide))
  have high : (Char.ofNat (n / 256 % 256)).toNat = n / 256 % 256 :=
    toNat_byte (Nat.mod_lt _ (by decide))
  simp only [load16, load, bytes16, List.cons_append, List.getElem?_cons_zero, Nat.zero_add,
    List.getElem?_cons_succ, Option.map_some, Option.bind_eq_bind, Option.bind_some, low, high]
  congr 1
  omega

theorem swap16_lt (n : Nat) : swap16 n < 65536 := by
  unfold swap16
  omega

theorem swap16_swap16 {n : Nat} (small : n < 65536) : swap16 (swap16 n) = n := by
  have apart (a b : Nat) (high : a < 256) (low : b < 256) :
      (a * 256 + b) % 256 = b ∧ (a * 256 + b) / 256 % 256 = a := by omega
  obtain ⟨low, high⟩ := apart (n % 256) (n / 256 % 256) (Nat.mod_lt _ (by decide))
    (Nat.mod_lt _ (by decide))
  have low : swap16 n % 256 = n / 256 % 256 := low
  have high : swap16 n / 256 % 256 = n % 256 := high
  rw [swap16, low, high]
  omega

/-- The source port of a header that has been built reads back. -/
theorem source_udpHeader {port : Nat} (small : port < 65536) (other len : Nat) :
    source (udpHeader port other len) 0 = some port := by
  rw [source, udpHeader, List.append_assoc, List.append_assoc]
  exact load16_bytes16 small _

/-- So does the destination port, in the order it has on the network. -/
theorem dest_udpHeader {port : Nat} (small : port < 65536) (other len : Nat) :
    dest (udpHeader other (swap16 port) len) 0 = some port := by
  have found := (load16_behind (bytes16 other) (bytes16 (swap16 port) ++ _) 0).trans
    (load16_bytes16 (swap16_lt port) (bytes16 (swap16 len) ++ bytes16 0))
  rw [dest, udpHeader, List.append_assoc, List.append_assoc]
  exact (congrArg (Option.map swap16) found).trans (congrArg some (swap16_swap16 small))

namespace Datagram
variable (d : Datagram) (rest : Text)

theorem headerSize_bytes : headerSize (d.ip ++ (d.udp ++ rest)) = some d.ip.length :=
  headerSize_append d.header _

theorem saddr_bytes : saddr (d.ip ++ (d.udp ++ rest)) = some d.address := by
  have found := d.readsAddress
  simp only [saddr, Option.bind_eq_bind, Option.bind_eq_some_iff] at found ⊢
  obtain ⟨low, atLow, high, atHigh, same⟩ := found
  exact ⟨low, load16_append atLow _, high, load16_append atHigh _, same⟩

theorem source_bytes : source (d.ip ++ (d.udp ++ rest)) d.ip.length = some d.port := by
  have found := load16_behind d.ip (d.udp ++ rest) 0
  rw [source, ← Nat.add_zero d.ip.length, found]
  exact load16_append d.readsPort rest

theorem dest_bytes : dest (d.ip ++ (d.udp ++ rest)) d.ip.length = some serverPort :=
  dest_behind d.toServer _ _

/-- `ihl` has four bits. -/
theorem ip_length_le : d.ip.length ≤ 60 := by
  obtain ⟨n, -, same⟩ := Option.map_eq_some_iff.mp d.header
  omega

end Datagram

/-- What is received lies over the front of the buffer, and the rest of the buffer is
left over from before. -/
theorem recvfrom_fits {datagram : Text} (fits : datagram.length ≤ buffSize) (buff : Text) :
    recvfrom buff datagram = datagram ++ buff.drop datagram.length := by
  rw [recvfrom, List.take_of_length_le fits]

theorem recvfrom_length {buff : Text} (size : buff.length = buffSize) (datagram : Text) :
    (recvfrom buff datagram).length = buffSize := by
  rw [recvfrom, List.length_append, List.length_take, List.length_drop, size]
  omega

/-- The comparison with the exit message sees the text up to its terminator. -/
theorem isExit_iff {m : Text} (noNul : nul ∉ m) (pre post : Text) :
    isExit (pre ++ (m ++ nul :: post)) pre.length = true ↔ m = exitText := by
  rw [isExit, List.drop_left, List.isPrefixOf_iff_prefix]
  constructor
  · rintro ⟨tail, split⟩
    have exit := stringAt_start (s := exitText) (by decide) tail
    rw [← List.singleton_append, ← List.append_assoc, split, stringAt_start noNul] at exit
    exact Option.some.inj exit
  · rintro rfl
    exact ⟨post, by simp⟩

/-- The string that `snprintf` leaves for a payload `m` in an array of `size`
elements. -/
def responseText (size : Nat) (m : Text) (count : Int) : Text :=
  ((m.dropLast ++ [' ', countChar count]).take (size - 1)).takeWhile (· ≠ nul)

theorem responseText_length (size : Nat) (m : Text) (count : Int) :
    (responseText size m count).length ≤ size - 1 :=
  Nat.le_trans (List.takeWhile_sublist _).length_le (List.length_take_le _ _)

theorem udpHeader_length (source dest len : Nat) : (udpHeader source dest len).length = udpSize :=
  rfl

/-- The text of a reply ends at its terminator and holds none before. -/
theorem responseText_noNul (size : Nat) (m : Text) (count : Int) :
    nul ∉ responseText size m count := nul_notMem_takeWhile _

theorem stringAt_snprintf (size : Nat) (output : Text) :
    stringAt (snprintf size output) 0 = some ((output.take (size - 1)).takeWhile (· ≠ nul)) := by
  obtain ⟨post, split⟩ := exists_terminated (output.take (size - 1)) []
  rw [snprintf, split]
  exact stringAt_start (nul_notMem_takeWhile _) post

/-- The bytes sent for a response. -/
def replyBytes (port : Nat) (response : Text) : Text :=
  udpHeader (swap16 serverPort) port (udpSize + response.length + 1) ++ response ++ [nul]

/-- The text of a reply, behind its UDP header. -/
theorem stringAt_reply {response : Text} (noNul : nul ∉ response) (port : Nat) :
    stringAt (replyBytes port response) udpSize = some response := by
  rw [replyBytes, List.append_assoc]
  exact stringAt_at noNul (udpHeader _ port _) []

/-- The last character of the string is cut off; an empty string loses nothing,
but the last byte of the UDP header is cleared. -/
theorem store_cut (ip m : Text) {udp : Text} (udpLength : udp.length = udpSize) (post : Text) :
    ∃ udp' post', udp'.length = udpSize ∧ m.length + post.length =
      m.dropLast.length + post'.length ∧
      store (ip ++ (udp ++ (m ++ nul :: post))) (ip.length + udpSize + m.length - 1) nul =
        some (ip ++ udp' ++ (m.dropLast ++ nul :: post')) := by
  rcases List.eq_nil_or_concat' m with rfl | ⟨front, last, rfl⟩
  · rcases List.eq_nil_or_concat' udp with rfl | ⟨header, check, rfl⟩
    · cases udpLength
    · have stored := store_at (ip ++ header) (nul :: post) check nul
      have index : ip.length + udpSize + ([] : Text).length - 1 = (ip ++ header).length := by
        simp only [List.length_append, List.length_cons, List.length_nil] at udpLength ⊢
        omega
      refine ⟨header ++ [nul], post, by simpa using udpLength, rfl, ?_⟩
      rw [index]
      simpa using stored
  · have stored := store_at (ip ++ udp ++ front) (nul :: post) last nul
    have index : ip.length + udpSize + (front ++ [last]).length - 1 =
      (ip ++ udp ++ front).length := by
      simp only [List.length_append, List.length_cons, List.length_nil, udpLength]
      omega
    refine ⟨udp, nul :: post, udpLength, ?_, ?_⟩
    · simp only [List.length_append, List.length_cons, List.length_nil, List.dropLast_concat]
      omega
    · rw [index, List.dropLast_concat]
      simpa using stored

/-- The reply: header and text are written over the buffer behind the IP header, and
sent from there. -/
theorem reply_spec {ip udp m post : Text} (udpLength : udp.length = udpSize) (noNul : nul ∉ m)
    (size : (ip ++ (udp ++ (m ++ nul :: post))).length = buffSize) (port : Nat) (count : Int) :
    ∃ buff, buff.length = buffSize ∧
      reply (ip ++ (udp ++ (m ++ nul :: post))) ip.length port count = some (buff,
        replyBytes port (responseText (buffSize - (ip.length + udpSize)) m count)) := by
  obtain ⟨udp', post', udpLength', kept, stored⟩ := store_cut ip m udpLength post
  have length : strlen (ip ++ (udp ++ (m ++ nul :: post))) (ip.length + udpSize) =
    some m.length := by
    rw [← udpLength, ← List.length_append, ← List.append_assoc]
    exact strlen_at noNul (ip ++ udp) post
  have clean : nul ∉ m.dropLast := fun inside => noNul (List.dropLast_subset m inside)
  have text : stringAt (ip ++ udp' ++ (m.dropLast ++ nul :: post')) (ip.length + udpSize) =
      some m.dropLast := by
    rw [← udpLength', ← List.length_append]
    exact stringAt_at clean (ip ++ udp') post'
  have response_eq := stringAt_snprintf (buffSize - (ip.length + udpSize))
    (m.dropLast ++ [' ', countChar count])
  change _ = some (responseText (buffSize - (ip.length + udpSize)) m count) at response_eq
  have bound := responseText_length (buffSize - (ip.length + udpSize)) m count
  generalize responseText (buffSize - (ip.length + udpSize)) m count =
    response at response_eq bound ⊢
  generalize header_eq : udpHeader (swap16 serverPort) port (udpSize + response.length + 1) = header
  have headerLength : header.length = udp'.length := by
    rw [← header_eq, udpLength', udpHeader_length]
  have first := memcpy_at ip (m.dropLast ++ nul :: post') headerLength
  have short : (response ++ [nul]).length ≤ (m.dropLast ++ nul :: post').length := by
    simp only [List.length_append, List.length_cons, List.length_nil, udpLength] at size ⊢
    omega
  have second := memcpy_within (ip ++ header) short
  rw [List.length_append, headerLength, udpLength'] at second
  generalize behind_eq : (m.dropLast ++ nul :: post').drop (response ++ [nul]).length = behind
    at second
  have sent : ((ip ++ header ++ (response ++ [nul]) ++ behind).drop ip.length).take
      (udpSize + response.length + 1) = header ++ response ++ [nul] := by
    have count : udpSize + response.length + 1 = (header ++ response ++ [nul]).length := by
      simp only [List.length_append, List.length_singleton, headerLength, udpLength']
    rw [List.append_assoc, List.append_assoc, List.drop_left, ← List.append_assoc,
      ← List.append_assoc, count, List.take_left]
  refine ⟨ip ++ header ++ (response ++ [nul]) ++ behind, ?_, ?_⟩
  · rw [← behind_eq]
    simp only [List.length_append, List.length_cons, List.length_nil, List.length_drop,
      headerLength,
      udpLength, udpLength'] at size short kept ⊢
    omega
  · simp only [reply, length, stored, text, response_eq, header_eq, first, second, sent, replyBytes,
      Option.bind_eq_bind, Option.bind_some]

section
variable {Addr : Type} [DecidableEq Addr] {s : Server Addr} {d : Datagram} {m rest : Text}

/-- Where a payload with a terminator lies after `recvfrom`. -/
theorem recvfrom_bytes (payload : d.payload = m ++ nul :: rest) (fits : d.bytes.length ≤ buffSize)
    (buff : Text) : ∃ post, recvfrom buff d.bytes = d.ip ++ (d.udp ++ (m ++ nul :: post)) := by
  refine ⟨rest ++ buff.drop d.bytes.length, ?_⟩
  rw [recvfrom_fits fits, Datagram.bytes, payload]
  simp

/-- A datagram for the server with a string as its payload: what is done with
it depends on whether the string is the exit text. -/
theorem serve_string (noNul : nul ∉ m) (payload : d.payload = m ++ nul :: rest)
    (fits : d.bytes.length ≤ buffSize) (malloc : Addr) :
    serve s d.bytes malloc =
      if m = exitText then
        (listSwitchOff s.list d.address d.port).map fun list =>
          (⟨list, recvfrom s.buff d.bytes⟩, none)
      else
        (listAdd s.list d.address d.port malloc).bind fun added =>
          (reply (recvfrom s.buff d.bytes) d.ip.length d.port added.2).map fun sent =>
            (⟨added.1, sent.1⟩, some sent.2) := by
  obtain ⟨post, received⟩ := recvfrom_bytes payload fits s.buff
  have exit := isExit_iff noNul (d.ip ++ d.udp) post
  rw [List.length_append, d.udpLength, List.append_assoc] at exit
  simp only [serve, received, d.headerSize_bytes, d.dest_bytes, d.saddr_bytes, d.source_bytes, exit,
    Option.bind_eq_bind, Option.bind_some, if_true, Option.map_eq_bind, Function.comp_def]

theorem serve_exit (payload : d.payload = exitText ++ nul :: rest)
    (fits : d.bytes.length ≤ buffSize) {list : ClientList Addr}
    (off : listSwitchOff s.list d.address d.port = some list) (malloc : Addr) :
    serve s d.bytes malloc = some (⟨list, recvfrom s.buff d.bytes⟩, none) := by
  have noNul : nul ∉ exitText := by decide
  rw [serve_string noNul payload fits, if_pos rfl, off, Option.map_some]

/-- A count that cannot be raised leaves the server without a result. -/
theorem serve_full (noNul : nul ∉ m) (notExit : m ≠ exitText)
    (payload : d.payload = m ++ nul :: rest) (fits : d.bytes.length ≤ buffSize) {malloc : Addr}
    (full : listAdd s.list d.address d.port malloc = none) : serve s d.bytes malloc = none := by
  rw [serve_string noNul payload fits, if_neg notExit, full, Option.bind_none]

/-- Any other message counts for its sender and is answered with the count. -/
theorem serve_message (noNul : nul ∉ m) (notExit : m ≠ exitText)
    (payload : d.payload = m ++ nul :: rest) (fits : d.bytes.length ≤ buffSize)
    (size : s.buff.length = buffSize) {list : ClientList Addr} {count : Int} {malloc : Addr}
    (added : listAdd s.list d.address d.port malloc = some (list, count)) :
    ∃ buff, buff.length = buffSize ∧ serve s d.bytes malloc = some (⟨list, buff⟩,
      some (replyBytes d.port (responseText (buffSize - (d.ip.length + udpSize)) m count))) := by
  obtain ⟨post, received⟩ := recvfrom_bytes payload fits s.buff
  have whole := recvfrom_length size d.bytes
  rw [received] at whole
  obtain ⟨buff, length, sent⟩ := reply_spec d.udpLength noNul whole d.port count
  refine ⟨buff, length, ?_⟩
  rw [serve_string noNul payload fits, if_neg notExit, added, Option.bind_some, received, sent,
    Option.map_some]

end

/-- An IP header of 20 bytes with the source address 127.0.0.1. -/
def localIp : Text :=
  Char.ofNat 0x45 :: List.replicate 11 nul ++
    [Char.ofNat 127, nul, nul, Char.ofNat 1, Char.ofNat 127, nul, nul, Char.ofNat 1]

theorem localIp_headerSize : headerSize localIp = some 20 := by decide

theorem localIp_saddr : saddr localIp = some 16777343 := by decide

end EltexCourse.Guarantees.Echo.Datagrams
