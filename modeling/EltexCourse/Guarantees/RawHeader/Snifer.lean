import EltexCourse.Guarantees.RawHeader.Listening

/-!
# What snifer.c prints

The buffer has room for any packet, so of whole packets none is read beyond its
end, and the lines are those of the DNS answers: the address they come from, its
four numbers in the order they have in the packet.
-/

set_option autoImplicit false

namespace EltexCourse.Guarantees.RawHeader.Snifer
open Foundations.Datagrams Foundations.Layers Source.RawHeader Guarantees.RawHeader.Listening

variable {buff packet : List Byte} {packets : List (List Byte)}

/-- As `recv` gives it, with the first word of the header behind that of IP. -/
structure Received (packet : List Byte) : Prop where
  ip : 20 ≤ packet.length
  port : ipLen packet 0 + 2 ≤ packet.length
  fits : packet.length ≤ bufferSize

/-- Of UDP, from port 53. -/
def FromDns (packet : List Byte) : Prop :=
  packet.getD 9 0 = ipprotoUdp ∧ wordAt packet (ipLen packet 0) = some 53

instance (packet : List Byte) : Decidable (FromDns packet) :=
  inferInstanceAs (Decidable (_ ∧ _))

/-- The four bytes of `saddr`. -/
def sender (packet : List Byte) : List Byte := (packet.drop 12).take 4

theorem toNat_append_byte {n : Nat} (high : BitVec n) (low : Byte) :
    (high ++ low).toNat = 256 * high.toNat + low.toNat := by
  rw [BitVec.toNat_append, ← Nat.shiftLeft_add_eq_or_of_lt low.isLt, Nat.shiftLeft_eq]
  omega

theorem toNat_long (a b c d : Byte) : (a ++ b ++ c ++ d).toNat =
    256 * (256 * (256 * a.toNat + b.toNat) + c.toNat) + d.toNat := by
  rw [toNat_append_byte, toNat_append_byte, toNat_append_byte]

/-- `ntohl` turns the four bytes around. -/
theorem ntohl_bytes (a b c d : Byte) : ntohl (d ++ c ++ b ++ a) = a ++ b ++ c ++ d := by
  have bounds := And.intro (And.intro a.isLt b.isLt) (And.intro c.isLt d.isLt)
  have byte (k : Nat) (x : Byte) (same : (d ++ c ++ b ++ a).toNat / 2 ^ k % 256 = x.toNat) :
      (d ++ c ++ b ++ a : BitVec 32).extractLsb' k 8 = x := by
    apply BitVec.eq_of_toNat_eq
    rw [BitVec.extractLsb'_toNat, Nat.shiftRight_eq_div_pow]
    exact same
  rw [toNat_long] at byte
  rw [ntohl, byte 0 a (by omega), byte 8 b (by omega), byte 16 c (by omega), byte 24 d (by omega)]

theorem shifted_byte (ip : BitVec 32) (k : Nat) :
    (((ip >>> k) &&& 0xff).setWidth 8 : Byte).toNat = ip.toNat / 2 ^ k % 256 := by
  have mask : (0xff : BitVec 32).toNat = 2 ^ 8 - 1 := rfl
  rw [BitVec.toNat_setWidth, BitVec.toNat_and, BitVec.toNat_ushiftRight, Nat.shiftRight_eq_div_pow,
    mask, Nat.and_two_pow_sub_one_eq_mod]
  omega

/-- Shifts and masks take the address apart into the bytes it was put together from. -/
theorem printIp_bytes (a b c d : Byte) : printIp (a ++ b ++ c ++ d) = [a, b, c, d] := by
  have bounds := And.intro (And.intro a.isLt b.isLt) (And.intro c.isLt d.isLt)
  have byte (k : Nat) (x : Byte) (same : (a ++ b ++ c ++ d).toNat / 2 ^ k % 256 = x.toNat) :
      (((a ++ b ++ c ++ d : BitVec 32) >>> k) &&& 0xff).setWidth 8 = x :=
    BitVec.eq_of_toNat_eq ((shifted_byte _ k).trans same)
  rw [toNat_long] at byte
  simp only [printIp, List.map_cons, List.map_nil, byte 0 d (by omega), byte 8 c (by omega),
    byte 16 b (by omega), byte 24 a (by omega)]
  rfl

/-- A byte of the packet that was received is read as it came. -/
theorem getD_layer {i : Nat} (inside : i < packet.length) (fits : packet.length ≤ bufferSize) :
    (layer buff (packet.take bufferSize)).getD i 0 = packet.getD i 0 := by
  rw [List.getD_eq_getElem?_getD, layer_packet inside (by omega), ← List.getD_eq_getElem?_getD]

/-- The line that is printed for a packet. -/
theorem line_sender (received : Received packet) :
    printIp (ntohl (loadLong (layer buff (packet.take bufferSize)) 12)) = sender packet := by
  obtain ⟨ip, -, fits⟩ := received
  rw [loadLong, getD_layer (by omega) fits, getD_layer (by omega) fits, getD_layer (by omega) fits,
    getD_layer (by omega) fits, ntohl_bytes, printIp_bytes, sender]
  refine List.ext_getElem (by simp; omega) fun i inside inside' => ?_
  have four : i < 4 := inside
  rcases i with _ | _ | _ | _ | i
  · simp [List.getElem?_eq_getElem (show 12 < packet.length by omega)]
  · simp [List.getElem?_eq_getElem (show 12 + 1 < packet.length by omega)]
  · simp [List.getElem?_eq_getElem (show 12 + 2 < packet.length by omega)]
  · simp [List.getElem?_eq_getElem (show 12 + 3 < packet.length by omega)]
  · omega

theorem ipLen_le (block : List Byte) (offset : Nat) : ipLen block offset ≤ 60 := by
  have low : (block.getD offset 0 &&& 0x0f).toNat ≤ 15 := by
    rw [BitVec.toNat_and]
    exact Nat.and_le_right
  rw [ipLen]
  omega

/-- Nothing is read beyond the buffer, and there is a line for each DNS answer, in
their order, with the address of its sender. Each packet is `Received`: it reaches to
the port behind its IP header, so that nothing is left over of an earlier one. -/
theorem senders_printed (size : buff.length = bufferSize)
    (received : ∀ p ∈ packets, Received p) :
    snif buff packets = some ((packets.filter fun p => FromDns p).map sender) := by
  induction packets generalizing buff with
  | nil => rfl
  | cons p packets ih =>
    rw [List.forall_mem_cons] at received
    have size' : (layer buff (p.take bufferSize)).length = bufferSize := layer_packet_length size
    have rest := ih size' received.2
    obtain ⟨ip, port, fits⟩ := received.1
    have header := ipLen_le p 0
    obtain ⟨source, word⟩ := wordAt_some (show ipLen p 0 + 1 < p.length by omega)
    have room : ipLen p 0 + 1 < bufferSize := by
      rw [bufferSize]
      omega
    rw [snif, getD_layer (by omega) fits, ipLen_layer (by omega) (by decide),
      wordAt_layer (by omega) room, word, line_sender received.1, rest, List.filter_cons]
    dsimp only
    by_cases udp : p.getD 9 0 = ipprotoUdp
    · rw [if_neg (not_not_intro udp)]
      by_cases dns : source = 53
      · have taken : FromDns p := ⟨udp, by rw [word, dns]⟩
        rw [if_neg (not_not_intro dns), if_pos (decide_eq_true taken)]
        rfl
      · have other : ¬ FromDns p := fun both => dns (Option.some.inj (word.symm.trans both.2))
        rw [if_pos dns, if_neg (by simpa using other)]
    · have other : ¬ FromDns p := fun both => udp both.1
      rw [if_pos udp, if_neg (by simpa using other)]

/-- From 8.8.8.8, and the same from another port. -/
def dnsAnswer (port : Byte) : List Byte :=
  [0x45, 0, 0, 28, 0, 0, 0, 0, 64, 17, 0, 0, 8, 8, 8, 8, 192, 168, 3, 4] ++
    [0, port, 0x1f, 0x90, 0, 8, 0, 0]

theorem senders_printed_dns :
    snif (List.replicate bufferSize 0) [dnsAnswer 80, dnsAnswer 53] = some [[8, 8, 8, 8]] := by
  have received (port : Byte) : Received (dnsAnswer port) :=
    ⟨show 20 ≤ 28 by decide, show ipLen (dnsAnswer 0) 0 + 2 ≤ 28 by decide,
      show 28 ≤ bufferSize by decide⟩
  rw [senders_printed (List.length_replicate ..) fun p inside => ?_]
  rotate_left
  · rcases List.mem_pair.mp inside with rfl | rfl <;> exact received _
  decide

end EltexCourse.Guarantees.RawHeader.Snifer
