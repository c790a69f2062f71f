import Mathlib.Tactic.IntervalCases
import EltexCourse.Guarantees.Echo.Datagrams
import EltexCourse.Source.Echo.Client

/-!
# task_echo: the way of a line to the server and back

The client leaves room for a UDP header, the server's buffer has to hold an IP
header as well, and the reply has room for two characters more than the line
has. The last character of a line is dropped whatever it is. A line comes back
as it should exactly if it ends with a newline and has at most 998 characters.
-/

set_option autoImplicit false

namespace EltexCourse.Guarantees.Echo.Texts
open Foundations.CString Foundations.CBuffer Source.Echo Datagrams

/-- The IP header the kernel puts in front of a datagram. -/
structure IpHeader where
  bytes : Text
  address : Int
  length : bytes.length = 20
  size : headerSize bytes = some 20
  readsAddress : saddr bytes = some address

def withoutNewline (text : Text) : Text :=
  if text.getLast? = some '\n' then text.dropLast else text

/-- What the client sends for a line. -/
def sentBytes (line : Line) : Text :=
  udpHeader (swap16 clientPort) (swap16 serverPort) (udpSize + line.text.length + 1) ++
    (line.text ++ [nul])

theorem clientSend_eq {buff : Text} (size : buff.length = buffSize) (line : Line) :
    clientSend buff line.text = some (sentBytes line) := by
  have fits : udpSize + (line.text.length + 1) ≤ buffSize := by
    have := line.fits
    unfold buffSize udpSize at *
    omega
  obtain ⟨udp, block, rfl, first⟩ : ∃ udp block, buff = udp ++ block ∧ udp.length = udpSize :=
    ⟨_, _, (List.take_append_drop udpSize buff).symm, by rw [List.length_take]; omega⟩
  have room : (line.text ++ [nul]).length ≤ block.length := by
    rw [List.length_append] at size
    rw [List.length_append, List.length_singleton]
    omega
  have typed := memcpy_within udp room
  generalize block.drop (line.text ++ [nul]).length = post at typed
  have length : strlen (udp ++ (line.text ++ [nul]) ++ post) udp.length =
      some line.text.length := by
    rw [List.append_assoc, List.append_assoc]
    exact strlen_at line.noNul udp post
  have header : memcpy (udp ++ (line.text ++ [nul]) ++ post) 0
      (udpHeader (swap16 clientPort) (swap16 serverPort) (udpSize + line.text.length + 1)) =
      some (sentBytes line ++ post) := by
    have same : (udpHeader (swap16 clientPort) (swap16 serverPort)
        (udpSize + line.text.length + 1)).length = udp.length := first.symm
    simpa [sentBytes] using memcpy_at [] (line.text ++ [nul] ++ post) same
  have whole : udpSize + line.text.length + 1 = (sentBytes line).length := by
    simp only [sentBytes, List.length_append, List.length_singleton, udpHeader_length]
    omega
  rw [first] at typed length
  simp only [clientSend, typed, length, header, Option.bind_eq_bind, Option.bind_some]
  rw [whole, List.take_left]

theorem clientReceive_eq (header : IpHeader) {response : Text} (noNul : nul ∉ response)
    (short : response.length ≤ 999) (buff : Text) :
    clientReceive buff (header.bytes ++ replyBytes (swap16 clientPort) response) =
      some (some response) := by
  have fits : (header.bytes ++ replyBytes (swap16 clientPort) response).length ≤ buffSize := by
    simp only [replyBytes, List.length_append, List.length_singleton, udpHeader_length,
      header.length,
      udpSize, buffSize]
    omega
  have received := recvfrom_fits fits buff
  generalize behind : buff.drop (header.bytes ++ replyBytes (swap16 clientPort) response).length =
    rest at received
  have split : header.bytes ++ replyBytes (swap16 clientPort) response ++ rest =
      header.bytes ++ (udpHeader (swap16 serverPort) (swap16 clientPort)
        (udpSize + response.length + 1) ++ (response ++ nul :: rest)) := by
    simp [replyBytes]
  rw [split] at received
  have clientPort_lt : clientPort < 65536 := by decide
  have place := dest_behind (dest_udpHeader clientPort_lt (swap16 serverPort)
    (udpSize + response.length + 1)) header.bytes (response ++ nul :: rest)
  have string := stringAt_at noNul (header.bytes ++ udpHeader (swap16 serverPort)
    (swap16 clientPort) (udpSize + response.length + 1)) rest
  rw [List.length_append, udpHeader_length, header.length, List.append_assoc] at string
  rw [header.length] at place
  simp only [clientReceive, received, headerSize_append header.size, place, string,
    Option.bind_eq_bind, Option.bind_some, Option.map_some, if_true]

/-- The datagram of a line, if it is not cut. -/
def datagram (header : IpHeader) (line : Line) : Datagram where
  ip := header.bytes
  udp := udpHeader (swap16 clientPort) (swap16 serverPort) (udpSize + line.text.length + 1)
  payload := line.text ++ [nul]
  address := header.address
  port := swap16 clientPort
  header := by rw [header.size, header.length]
  readsAddress := header.readsAddress
  udpLength := rfl
  readsPort := source_udpHeader (swap16_lt _) _ _
  toServer := dest_udpHeader (by decide) _ _

theorem datagram_bytes (header : IpHeader) (line : Line) :
    (datagram header line).bytes = header.bytes ++ sentBytes line :=
  List.append_assoc _ _ _

theorem datagram_length (header : IpHeader) (line : Line) :
    (header.bytes ++ sentBytes line).length = line.text.length + 29 := by
  simp only [sentBytes, List.length_append, List.length_singleton, udpHeader_length, header.length,
    udpSize]
  omega

/-- The terminator of a line of at most 999 characters arrives. -/
theorem payload_arrives (header : IpHeader) {line : Line} (fits : line.text.length ≤ 999)
    (buff : Text) : stringAt (recvfrom buff (header.bytes ++ sentBytes line)) 28 =
    some line.text := by
  have short : (datagram header line).bytes.length ≤ buffSize := by
    rw [datagram_bytes, datagram_length, buffSize]
    omega
  obtain ⟨post, received⟩ := recvfrom_bytes (d := datagram header line) rfl short buff
  have string := stringAt_at line.noNul
    (header.bytes ++ (datagram header line).udp) post
  rw [List.length_append, (datagram header line).udpLength, header.length,
    List.append_assoc] at string
  rw [← datagram_bytes, received]
  exact string

/-- A longer one fills the buffer. -/
theorem payload_cut (header : IpHeader) {line : Line} (long : 1000 ≤ line.text.length)
    {buff : Text} (size : buff.length = buffSize) :
    stringAt (recvfrom buff (header.bytes ++ sentBytes line)) 28 = none := by
  have nothing : buff.drop (header.bytes ++ sentBytes line).length = [] := by
    rw [List.drop_eq_nil_iff, datagram_length, size, buffSize]
    omega
  have cut : (header.bytes ++ sentBytes line).take buffSize =
      header.bytes ++ udpHeader (swap16 clientPort) (swap16 serverPort)
        (udpSize + line.text.length + 1) ++ line.text.take 1000 := by
    have place : buffSize = (header.bytes ++ udpHeader (swap16 clientPort) (swap16 serverPort)
        (udpSize + line.text.length + 1)).length + 1000 := by
      rw [List.length_append, header.length, udpHeader_length]
      rfl
    rw [sentBytes, ← List.append_assoc, place, List.take_length_add_append,
      List.take_append_of_le_length long]
  have inside : (line.text.take 1000).takeWhile (· ≠ nul) = line.text.take 1000 := by
    refine List.takeWhile_eq_self_iff.mpr fun c member => ?_
    simpa using fun (same : c = nul) => line.noNul (same ▸ List.mem_of_mem_take member)
  have behind : (header.bytes ++ udpHeader (swap16 clientPort) (swap16 serverPort)
      (udpSize + line.text.length + 1) ++ line.text.take 1000).drop 28 = line.text.take 1000 := by
    refine List.drop_left' ?_
    rw [List.length_append, header.length, udpHeader_length]
    rfl
  have full : ¬ 28 + (line.text.take 1000).length < (header.bytes ++ udpHeader (swap16 clientPort)
      (swap16 serverPort) (udpSize + line.text.length + 1) ++ line.text.take 1000).length := by
    rw [List.length_append, List.length_append, header.length, udpHeader_length, udpSize]
    omega
  rw [recvfrom, nothing, cut, List.append_nil, stringAt, strlen, skip]
  simp only [behind, inside, if_neg full, Option.map_none]

theorem countChar_digit {n : Nat} (digit : n ≤ 9) :
    Nat.toDigits 10 n = [countChar n] ∧ countChar n ≠ nul := by
  interval_cases n <;> decide

/-- The response to a line that arrives, in the 1000 bytes there are for it. -/
theorem response_line (line : Line) {n : Nat} (digit : n ≤ 9) :
    responseText 1000 line.text n = (line.text.dropLast ++ ' ' :: Nat.toDigits 10 n).take 999 := by
  obtain ⟨digits, notNul⟩ := countChar_digit digit
  rw [responseText, digits]
  refine List.takeWhile_eq_self_iff.mpr fun c member => ?_
  have member := List.mem_of_mem_take member
  simp only [List.mem_append, List.mem_cons, List.not_mem_nil, or_false] at member
  rcases member with inside | rfl | rfl
  · simpa using fun (same : c = nul) => line.noNul (same ▸ List.dropLast_subset _ inside)
  · decide
  · simpa using notNul

/-- The response is the line without its newline, a space and the counter. -/
theorem response_iff (line : Line) {n : Nat} (digit : n ≤ 9) (fits : line.text.length ≤ 999) :
    responseText 1000 line.text n = withoutNewline line.text ++ ' ' :: Nat.toDigits 10 n ↔
      line.text.getLast? = some '\n' ∧ line.text.length ≤ 998 := by
  have positive := List.length_pos_iff.mpr line.nonempty
  have one : (Nat.toDigits 10 n).length = 1 := by rw [(countChar_digit digit).1]; rfl
  rw [response_line line digit]
  constructor
  · intro same
    have length := congrArg List.length same
    simp only [List.length_take, List.length_append, List.length_dropLast, List.length_cons, one]
      at length
    by_cases ended : line.text.getLast? = some '\n'
    · rw [withoutNewline, if_pos ended, List.length_dropLast] at length
      exact ⟨ended, by omega⟩
    · rw [withoutNewline, if_neg ended] at length
      omega
  · rintro ⟨ended, short⟩
    rw [withoutNewline, if_pos ended]
    refine List.take_of_length_le ?_
    simp only [List.length_append, List.length_dropLast, List.length_cons, one]
    omega

/-- A line reaches the server as it is, and the client prints it without its
newline, with a space and the counter behind it. `toServer` and `toClient` are
the two IP headers; the three buffers may hold anything. -/
structure Echoed {Addr : Type} [DecidableEq Addr] (line : Line) (toServer toClient : IpHeader)
    (s : Server Addr) (typed read : Text) (malloc : Addr) (n : Nat) : Prop where
  arrives : ∃ datagram, clientSend typed line.text = some datagram ∧
    stringAt (recvfrom s.buff (toServer.bytes ++ datagram)) 28 = some line.text
  returns : ∃ datagram s' sent, clientSend typed line.text = some datagram ∧
    serve s (toServer.bytes ++ datagram) malloc = some (s', some sent) ∧
    clientReceive read (toClient.bytes ++ sent) =
      some (some (withoutNewline line.text ++ ' ' :: Nat.toDigits 10 n))

section
variable {Addr : Type} [DecidableEq Addr] {line : Line} {toServer toClient : IpHeader}
  {s : Server Addr} {typed read : Text} {malloc : Addr} {list : ClientList Addr} {n : Nat}

theorem serve_line (notExit : line.text ≠ exitText) (fits : line.text.length ≤ 999)
    (size : s.buff.length = buffSize)
    (added : listAdd s.list toServer.address (swap16 clientPort) malloc = some (list, (n : Int))) :
    ∃ s', serve s (toServer.bytes ++ sentBytes line) malloc =
      some (s', some (replyBytes (swap16 clientPort) (responseText 1000 line.text n))) := by
  have short : (datagram toServer line).bytes.length ≤ buffSize := by
    rw [datagram_bytes, datagram_length, buffSize]
    omega
  obtain ⟨buff, -, served⟩ := serve_message (d := datagram toServer line) line.noNul
    notExit rfl short size added
  have room : buffSize - ((datagram toServer line).ip.length + udpSize) = 1000 := by
    show buffSize - (toServer.bytes.length + udpSize) = 1000
    rw [toServer.length]
    rfl
  rw [datagram_bytes, room] at served
  exact ⟨_, served⟩

/-- Whether a line that arrives comes back as it should is up to its response. -/
theorem echoed_response (notExit : line.text ≠ exitText) (fits : line.text.length ≤ 999)
    (size : s.buff.length = buffSize) (typedSize : typed.length = buffSize)
    (added : listAdd s.list toServer.address (swap16 clientPort) malloc = some (list, (n : Int))) :
    Echoed line toServer toClient s typed read malloc n ↔
      responseText 1000 line.text n = withoutNewline line.text ++ ' ' :: Nat.toDigits 10 n := by
  have send := clientSend_eq typedSize line
  obtain ⟨s', served⟩ := serve_line notExit fits size added
  have printed := clientReceive_eq toClient (responseText_noNul 1000 line.text n)
    (responseText_length 1000 line.text n) read
  constructor
  · rintro ⟨-, datagram, s'', sent, sends, serves, prints⟩
    rw [send] at sends
    cases sends
    rw [served] at serves
    cases serves
    rw [printed] at prints
    exact Option.some.inj (Option.some.inj prints)
  · intro same
    rw [same] at printed served
    exact ⟨⟨_, send, payload_arrives toServer fits _⟩, _, _, _, send, served, printed⟩

/-- A line of 1000 characters does not even arrive. -/
theorem not_echoed_long (long : 1000 ≤ line.text.length) (size : s.buff.length = buffSize)
    (typedSize : typed.length = buffSize) :
    ¬ Echoed line toServer toClient s typed read malloc n := by
  rintro ⟨⟨datagram, sends, arrives⟩, -⟩
  rw [clientSend_eq typedSize line] at sends
  cases sends
  rw [payload_cut toServer long size] at arrives
  cases arrives

/-- While the counter has one digit, a line comes back as it should if and only
if it ends with a newline and has at most 998 characters. -/
theorem echoed_iff (notExit : line.text ≠ exitText) (size : s.buff.length = buffSize)
    (typedSize : typed.length = buffSize)
    (added : listAdd s.list toServer.address (swap16 clientPort) malloc = some (list, (n : Int)))
    (digit : n ≤ 9) :
    Echoed line toServer toClient s typed read malloc n ↔
      line.text.getLast? = some '\n' ∧ line.text.length ≤ 998 := by
  by_cases fits : line.text.length ≤ 999
  · rw [← response_iff line digit fits]
    exact echoed_response notExit fits size typedSize added
  · refine iff_of_false (not_echoed_long (by omega) size typedSize) ?_
    rintro ⟨-, short⟩
    omega

end

def localHeader : IpHeader := ⟨localIp, 16777343, rfl, localIp_headerSize, localIp_saddr⟩

/-- The server before its first datagram. -/
def idle : Server Nat := ⟨listInit, List.replicate buffSize nul⟩

theorem first_add (malloc : Nat) :
    ∃ list, listAdd idle.list localHeader.address (swap16 clientPort) malloc =
      some (list, ((1 : Nat) : Int)) :=
  ⟨_, rfl⟩

/-- What is typed before an end of file. -/
def unended : Line := ⟨['a'], by decide, by decide, by decide, by decide⟩

/-- A line of letters. -/
def letters (k : Nat) (fits : k + 1 < buffSize - udpSize) : Line where
  text := List.replicate k 'a' ++ ['\n']
  nonempty := by simp
  fits := by simpa using fits
  oneLine := by simp
  noNul := by simp [nul]

theorem echoed_letters : Echoed (letters 2 (by decide)) localHeader localHeader idle idle.buff
    idle.buff 0 1 := by
  obtain ⟨list, added⟩ := first_add 0
  exact (echoed_iff (by decide) List.length_replicate List.length_replicate added (by decide)).mpr
    ⟨rfl, by decide⟩

/-- The last character before an end of file is lost, and a line of 1000
characters is not terminated in the server's buffer. -/
theorem lost_characters :
    ¬ Echoed unended localHeader localHeader idle idle.buff idle.buff 0 1 ∧
      ¬ Echoed (letters 999 (by decide)) localHeader localHeader idle idle.buff idle.buff 0 1 := by
  constructor
  · obtain ⟨list, added⟩ := first_add 0
    have notExit : unended.text ≠ exitText := by decide
    have fits : unended.text.length ≤ 999 := by decide
    intro echoed
    have same := (echoed_response notExit fits List.length_replicate List.length_replicate
      added).mp echoed
    revert same
    decide
  · refine not_echoed_long ?_ List.length_replicate List.length_replicate
    rw [letters, List.length_append, List.length_replicate, List.length_singleton]

end EltexCourse.Guarantees.Echo.Texts
