import EltexCourse.Guarantees.RawHeader.Packets
import EltexCourse.Source.RawHeader.Listening

/-!
# What the clients with headers of their own receive

Of whole packets, what a client looks at is not what an earlier one has left in
the buffer. So the loop stops at the first packet that is not to be passed over,
whatever came before; if it comes from a server that has been greeted, the line
is the server's answer.
-/

set_option autoImplicit false

namespace EltexCourse.Guarantees.RawHeader.Listening
open Foundations.Datagrams Foundations.Layers Foundations.Layout Source.RawHeader
open Guarantees.RawHeader.Packets

variable {size : Nat} {look : List Byte → Seen} {buff packet : List Byte}
  {earlier later : List (List Byte)}

/-- Of at most seven words of header, and not for port 8081. -/
def PassedOver (packet : List Byte) : Prop :=
  ipLen packet 0 + 4 ≤ rawSize ∧ wordAt packet (ipLen packet 0 + 2) ≠ some 8081

/-- With both of its headers. -/
def Whole (packet : List Byte) : Prop := ipLen packet 0 + 8 ≤ packet.length

/-- Its data begin at `offset`, with a text that ends within `size` bytes. -/
structure Says (size offset : Nat) (packet text : List Byte) : Prop where
  here : ∃ rest, packet.drop offset = text ++ 0 :: rest
  noNul : 0 ∉ text
  fits : offset + text.length < size

/-- Where a packet reaches, the buffer is the packet. -/
theorem layer_packet {i : Nat} (inside : i < packet.length) (fits : i < size) :
    (layer buff (packet.take size))[i]? = packet[i]? := by
  have reaches : i < (packet.take size).length := by
    rw [List.length_take]
    omega
  rw [layer_getElem?, if_pos reaches, List.getElem?_take_of_lt fits]

theorem layer_packet_length (whole : buff.length = size) :
    (layer buff (packet.take size)).length = size := by
  refine (layer_length ?_).trans whole
  rw [whole]
  exact List.length_take_le ..

theorem ipLen_layer (nonempty : 0 < packet.length) (room : 0 < size) :
    ipLen (layer buff (packet.take size)) 0 = ipLen packet 0 := by
  rw [ipLen, ipLen, List.getD_eq_getElem?_getD, layer_packet nonempty room,
    ← List.getD_eq_getElem?_getD]

theorem wordAt_layer {offset : Nat} (inside : offset + 1 < packet.length)
    (fits : offset + 1 < size) :
    wordAt (layer buff (packet.take size)) offset = wordAt packet offset := by
  rw [wordAt, wordAt, layer_packet (by omega) (by omega), layer_packet inside fits]

theorem wordAt_outside {block : List Byte} {offset : Nat} (outside : block.length ≤ offset + 1) :
    wordAt block offset = none := by
  rw [wordAt, List.getElem?_eq_none outside]
  cases block[offset]? <;> rfl

theorem wordAt_some {block : List Byte} {offset : Nat} (inside : offset + 1 < block.length) :
    ∃ word, wordAt block offset = some word := by
  rw [wordAt, List.getElem?_eq_getElem inside, List.getElem?_eq_getElem (Nat.lt_of_succ_lt inside)]
  exact ⟨_, rfl⟩

/-- A string that ends inside the packet and inside the buffer. -/
theorem printString_layer {offset : Nat} {text : List Byte}
    (textEnds : Says size offset packet text) :
    printString (layer buff (packet.take size)) offset = .message text := by
  obtain ⟨⟨rest, here⟩, noNul, fits⟩ := textEnds
  have long : offset + text.length < packet.length := by
    have length := congrArg List.length here
    rw [List.length_drop, List.length_append, List.length_cons] at length
    omega
  have front : ∃ behind, (layer buff (packet.take size)).drop offset = text ++ 0 :: behind := by
    refine ⟨(layer buff (packet.take size)).drop (offset + text.length + 1), ?_⟩
    refine List.ext_getElem? fun i => ?_
    rw [List.getElem?_drop]
    by_cases inside : i ≤ text.length
    · have same : packet[offset + i]? = (text ++ 0 :: rest)[i]? := by
        rw [← here, List.getElem?_drop]
      rw [layer_packet (by omega) (by omega), same]
      rcases Nat.lt_or_eq_of_le inside with less | rfl
      · rw [List.getElem?_append_left less, List.getElem?_append_left less]
      · simp
    · rw [List.getElem?_append_right (by omega)]
      obtain ⟨j, rfl⟩ := Nat.exists_eq_add_of_lt (Nat.lt_of_not_le inside)
      have index : text.length + j + 1 - text.length = j + 1 := by omega
      rw [index, List.getElem?_cons_succ, List.getElem?_drop]
      congr 1
      omega
  obtain ⟨behind, front⟩ := front
  have passes : ∀ b ∈ text, decide (b ≠ 0) = true := fun b inside =>
    decide_eq_true fun zero => noNul (zero ▸ inside)
  rw [printString, front, if_pos (List.mem_append_right _ List.mem_cons_self),
    List.takeWhile_append_of_pos passes]
  simp

/-- Packets that have been passed over leave the loop where it was, with another
buffer. -/
theorem recvLoop_passed (whole : buff.length = size)
    (passed : recvLoop size look buff earlier = .nothing) :
    ∃ buff' : List Byte, buff'.length = size ∧ ∀ rest,
      recvLoop size look buff (earlier ++ rest) = recvLoop size look buff' rest := by
  induction earlier generalizing buff with
  | nil => exact ⟨buff, whole, fun _ => rfl⟩
  | cons p earlier ih =>
    rw [recvLoop] at passed
    split at passed
    · next nothing =>
      obtain ⟨buff', whole', same⟩ := ih (layer_packet_length whole) passed
      refine ⟨buff', whole', fun rest => ?_⟩
      rw [← same rest, List.cons_append, recvLoop, nothing]
    · next found => exact absurd passed found

theorem recvLoop_stops (found : look (layer buff (packet.take size)) ≠ .nothing) :
    recvLoop size look buff (packet :: later) = look (layer buff (packet.take size)) := by
  rw [recvLoop]
  split
  · next nothing => exact absurd nothing found
  · rfl

/-- When the verdict on each packet is its own, the loop goes on as long as all are
passed over. -/
theorem recvLoop_nothing_iff {packets : List (List Byte)} {passed : List Byte → Prop}
    (whole : buff.length = size)
    (verdict : ∀ p ∈ packets, ∀ buff : List Byte, buff.length = size →
      (look (layer buff (p.take size)) = .nothing ↔ passed p)) :
    recvLoop size look buff packets = .nothing ↔ ∀ p ∈ packets, passed p := by
  induction packets generalizing buff with
  | nil => exact iff_of_true rfl (List.forall_mem_nil _)
  | cons p packets ih =>
    rw [List.forall_mem_cons] at verdict ⊢
    by_cases nothing : look (layer buff (p.take size)) = .nothing
    · rw [recvLoop, nothing, and_iff_right ((verdict.1 buff whole).mp nothing)]
      exact ih (layer_packet_length whole) verdict.2
    · rw [recvLoop_stops nothing]
      exact iff_of_false nothing fun both => nothing ((verdict.1 buff whole).mpr both.1)

theorem printString_found (block : List Byte) (offset : Nat) :
    printString block offset ≠ .nothing := by
  unfold printString
  split <;> simp

/-- With a header so long that the port would lie behind the buffer, the read goes
outside. -/
theorem lookRaw_outside (whole : Whole packet) (long : rawSize < ipLen packet 0 + 4)
    (size : buff.length = rawSize) : lookRaw (layer buff (packet.take rawSize)) = .outside := by
  have headers : ipLen packet 0 + 8 ≤ packet.length := whole
  rw [lookRaw, ipLen_layer (by omega) (by decide), wordAt_outside]
  rw [layer_packet_length size]
  omega

/-- Where the word is inside, the verdict is that on the packet. -/
theorem lookRaw_inside (whole : Whole packet) (short : ipLen packet 0 + 4 ≤ rawSize) :
    lookRaw (layer buff (packet.take rawSize)) =
      if wordAt packet (ipLen packet 0 + 2) = some 8081 then
        printString (layer buff (packet.take rawSize)) (ipLen packet 0 + 8)
      else .nothing := by
  have headers : ipLen packet 0 + 8 ≤ packet.length := whole
  have inside : ipLen packet 0 + 2 + 1 < packet.length := by omega
  obtain ⟨dest, word⟩ := wordAt_some inside
  rw [lookRaw, ipLen_layer (by omega) (by decide), wordAt_layer inside (by omega), word]
  simp

theorem lookRaw_nothing_iff (whole : Whole packet) (size : buff.length = rawSize) :
    lookRaw (layer buff (packet.take rawSize)) = .nothing ↔ PassedOver packet := by
  by_cases short : ipLen packet 0 + 4 ≤ rawSize
  · rw [lookRaw_inside whole short, PassedOver, and_iff_right short]
    split
    · next same => exact iff_of_false (printString_found _ _) fun other => other same
    · next other => exact iff_of_true rfl other
  · rw [lookRaw_outside whole (Nat.lt_of_not_le short) size]
    exact iff_of_false (by simp) fun passed => short passed.1

/-- A packet to 8081 is printed, from behind its headers to the first zero byte. -/
theorem lookRaw_message {text : List Byte} (whole : Whole packet)
    (dest : wordAt packet (ipLen packet 0 + 2) = some 8081)
    (textEnds : Says rawSize (ipLen packet 0 + 8) packet text) :
    lookRaw (layer buff (packet.take rawSize)) = .message text := by
  have fits := textEnds.fits
  rw [lookRaw_inside whole (by omega), if_pos dest]
  exact printString_layer textEnds

/-- The other program takes the header's length for 20, so that port and text stand at
fixed places. -/
theorem lookEther_eq (whole : 42 ≤ packet.length) :
    lookEther (layer buff (packet.take etherSize)) =
      if wordAt packet 36 = some 8081 then
        printString (layer buff (packet.take etherSize)) 42
      else .nothing := by
  obtain ⟨dest, word⟩ := wordAt_some (show 36 + 1 < packet.length by omega)
  rw [lookEther, wordAt_layer (by omega) (by decide), word]
  simp

theorem lookEther_nothing_iff (whole : 42 ≤ packet.length) :
    lookEther (layer buff (packet.take etherSize)) = .nothing ↔ wordAt packet 36 ≠ some 8081 := by
  rw [lookEther_eq whole]
  split
  · next same => exact iff_of_false (printString_found _ _) fun other => other same
  · next other => exact iff_of_true rfl other

/-- The clients of task16_udp_header and task16_ip_header, on whole packets: they
wait as long as all are passed over. The first that is not makes them read beyond
`buff2` if it has more than seven words of header; the text of one for them that
ends inside `buff2` is printed as it is. The client of task16_ether_header takes
the first frame with 8081 in two fixed places, whatever it is. -/
theorem first_for_client :
    (∀ buff packets, buff.length = rawSize → (∀ p ∈ packets, Whole p) →
      (recvLoop rawSize lookRaw buff packets = .nothing ↔ ∀ p ∈ packets, PassedOver p) ∧
      ∀ earlier p later, packets = earlier ++ p :: later → (∀ q ∈ earlier, PassedOver q) →
        (rawSize < ipLen p 0 + 4 → recvLoop rawSize lookRaw buff packets = .outside) ∧
        ∀ text, wordAt p (ipLen p 0 + 2) = some 8081 → Says rawSize (ipLen p 0 + 8) p text →
          recvLoop rawSize lookRaw buff packets = .message text) ∧
    ∀ buff packets, buff.length = etherSize → (∀ p ∈ packets, 42 ≤ p.length) →
      (recvLoop etherSize lookEther buff packets = .nothing ↔
        ∀ p ∈ packets, wordAt p 36 ≠ some 8081) ∧
      ∀ earlier p later, packets = earlier ++ p :: later →
        (∀ q ∈ earlier, wordAt q 36 ≠ some 8081) →
        ∀ text, wordAt p 36 = some 8081 → Says etherSize 42 p text →
          recvLoop etherSize lookEther buff packets = .message text := by
  refine ⟨fun buff packets size whole => ⟨?_, ?_⟩, fun buff packets size whole => ⟨?_, ?_⟩⟩
  · exact recvLoop_nothing_iff size fun p inside buff size =>
      lookRaw_nothing_iff (whole p inside) size
  · rintro earlier p later rfl passed
    have waited : recvLoop rawSize lookRaw buff earlier = .nothing :=
      (recvLoop_nothing_iff size fun q inside buff size =>
        lookRaw_nothing_iff (whole q (List.mem_append_left _ inside)) size).mpr passed
    obtain ⟨buff', size', same⟩ := recvLoop_passed size waited
    have here := whole p (List.mem_append_right _ List.mem_cons_self)
    rw [same]
    refine ⟨fun long => ?_, fun text dest textEnds => ?_⟩
    · have outside := lookRaw_outside here long size'
      rw [recvLoop_stops (by simp [outside]), outside]
    · have message : lookRaw (layer buff' (p.take rawSize)) = .message text :=
        lookRaw_message here dest textEnds
      rw [recvLoop_stops (by simp [message]), message]
  · exact recvLoop_nothing_iff size fun p inside buff size => lookEther_nothing_iff (whole p inside)
  · rintro earlier p later rfl passed text dest textEnds
    have waited : recvLoop etherSize lookEther buff earlier = .nothing :=
      (recvLoop_nothing_iff size fun q inside buff _ =>
        lookEther_nothing_iff (whole q (List.mem_append_left _ inside))).mpr passed
    obtain ⟨buff', size', same⟩ := recvLoop_passed size waited
    have here := whole p (List.mem_append_right _ List.mem_cons_self)
    have message : lookEther (layer buff' (p.take etherSize)) = .message text := by
      rw [lookEther_eq here, if_pos dest]
      exact printString_layer textEnds
    rw [same, recvLoop_stops (by simp [message]), message]

/-- With options of twelve bytes. -/
def longHeader : List Byte := 0x48 :: List.replicate 39 0

theorem first_for_client_options :
    recvLoop rawSize lookRaw (List.replicate rawSize 0) [longHeader] = .outside := by
  have whole : ∀ p ∈ [longHeader], Whole p :=
    List.forall_mem_singleton.mpr (show ipLen longHeader 0 + 8 ≤ longHeader.length by decide)
  exact ((first_for_client.1 _ _ (List.length_replicate ..) whole).2 [] longHeader [] rfl
    (List.forall_mem_nil _)).1 (by decide)

theorem answer_hello {served : List Byte} (size : served.length = 7) :
    answer served hello = [0x21, 0x65, 0x6c, 0x6c, 0x6f, 0x21, 0] := by
  have whole : layer served (hello.take 7) = hello := by
    rw [layer, List.drop_eq_nil_of_le (by rw [size]; decide)]
    rfl
  rw [answer, whole]
  rfl

/-- A packet without options around a datagram. -/
theorem plain_packet {header : List Byte} (reply : Udp) (length : header.length = 20)
    (plain : ipLen header 0 = 20) :
    ipLen (header ++ reply.bytes) 0 = 20 ∧ wordAt (header ++ reply.bytes) 22 = some reply.dest ∧
      (header ++ reply.bytes).drop 28 = reply.data := by
  refine ⟨?_, ?_, ?_⟩
  · rw [ipLen, List.getD_eq_getElem?_getD, List.getElem?_append_left (by omega),
      ← List.getD_eq_getElem?_getD]
    exact plain
  · have place : (header ++ bytesOf reply.source).length = 22 := by
      rw [List.length_append, length]
      rfl
    have found := wordAt_front (header ++ bytesOf reply.source)
      (bytesOf reply.length ++ (bytesOf reply.check ++ reply.data)) reply.dest
    rw [place] at found
    simpa [Udp.bytes] using found
  · have place : (header ++ (bytesOf reply.source ++ bytesOf reply.dest ++ bytesOf reply.length ++
        bytesOf reply.check)).length = 28 := by
      rw [List.length_append, length]
      rfl
    rw [Udp.bytes, ← List.append_assoc header, ← place, List.drop_left]

/-- The greeting and its answer. Whatever was in the memory of the two, and
whatever the client has passed over before: when a packet with a plain header
comes, for port 8081 and with what the server has made of the client's datagram,
the line printed is "!ello!". -/
theorem greeting_answered {memory served header : List Byte} {reply : Udp}
    (blank : memory.length = 15) (room : served.length = 7) (size : buff.length = rawSize)
    (passed : recvLoop rawSize lookRaw buff earlier = .nothing)
    (length : header.length = 20) (plain : ipLen header 0 = 20) (dest : reply.dest = 8081)
    (answered : ∃ sent, Udp.parse (udpClient memory) = some sent ∧
      reply.data = answer served sent.data) :
    recvLoop rawSize lookRaw buff (earlier ++ (header ++ reply.bytes) :: later) =
      .message [0x21, 0x65, 0x6c, 0x6c, 0x6f, 0x21] := by
  obtain ⟨sent, parsed, data⟩ := answered
  rw [udpClient_eq blank, Udp.parse_bytes] at parsed
  cases parsed
  have said : reply.data = [0x21, 0x65, 0x6c, 0x6c, 0x6f, 0x21, 0] := data.trans (answer_hello room)
  obtain ⟨short, port, text⟩ := plain_packet reply length plain
  obtain ⟨buff', -, same⟩ := recvLoop_passed size passed
  have whole : Whole (header ++ reply.bytes) := by
    rw [Whole, short]
    simp [Udp.bytes, bytesOf, length]
    omega
  have message : lookRaw (layer buff' ((header ++ reply.bytes).take rawSize)) =
      .message [0x21, 0x65, 0x6c, 0x6c, 0x6f, 0x21] := by
    refine lookRaw_message whole (by rw [short, port, dest]) ⟨⟨[], ?_⟩, by decide, ?_⟩
    · rw [short, text, said]
      rfl
    · rw [short]
      decide
  rw [same, recvLoop_stops (by simp [message]), message]

/-- A header between two programs of one host. -/
def loopbackHeader : List Byte :=
  (Packets.packet 0 64 0 ⟨127, 0, 0, 1⟩ ⟨127, 0, 0, 1⟩).header

/-- Its own datagram comes to the client first. -/
theorem greeting_answered_loopback :
    let reply : Udp := ⟨8080, 8081, 0, answer (List.replicate 7 0xff) hello, by decide⟩
    recvLoop rawSize lookRaw (List.replicate rawSize 0)
      ([loopbackHeader ++ greeting.bytes] ++ (loopbackHeader ++ reply.bytes) :: []) =
      .message [0x21, 0x65, 0x6c, 0x6c, 0x6f, 0x21] := by
  have blank : (List.replicate 15 (0 : Byte)).length = 15 := rfl
  have room : (List.replicate 7 (0xff : Byte)).length = 7 := rfl
  have own : recvLoop rawSize lookRaw (List.replicate rawSize 0)
      [loopbackHeader ++ greeting.bytes] = .nothing := by decide
  have sent : Udp.parse (udpClient (List.replicate 15 0)) = some greeting := by
    rw [udpClient_eq blank]
    exact Udp.parse_bytes greeting
  exact greeting_answered blank room rfl own rfl (by decide) rfl ⟨greeting, sent, rfl⟩

end EltexCourse.Guarantees.RawHeader.Listening
