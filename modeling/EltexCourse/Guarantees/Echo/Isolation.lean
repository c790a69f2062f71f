import EltexCourse.Guarantees.Echo.Counts
import EltexCourse.Guarantees.Echo.Datagrams

/-!
# task_echo: one datagram and what was in the buffer before it

The server goes by the string at the payload, not by what it has received. The
string ends in the payload if there is a terminator in it, and else in what
earlier datagrams have left behind it.
-/

set_option autoImplicit false

namespace EltexCourse.Guarantees.Echo.Isolation
open Foundations.CString Foundations.CBuffer Foundations.Transition Source.Echo Counts Datagrams

variable {Addr : Type} [DecidableEq Addr] {d : Datagram} {list : ClientList Addr} {malloc : Addr}

/-- What is decided on a datagram, the new list and the reply do not depend on
what `buff` held. -/
def Isolated (list : ClientList Addr) (malloc : Addr) (d : Datagram) : Prop :=
  ∃ list' sent, ∀ buff : Text, buff.length = buffSize →
    ∃ buff', serve ⟨list, buff⟩ d.bytes malloc = some (⟨list', buff'⟩, sent)

theorem isolated_of_nul (terminated : nul ∈ d.payload) (fits : d.bytes.length ≤ buffSize)
    (adds : (listAdd list d.address d.port malloc).isSome)
    (offs : (listSwitchOff list d.address d.port).isSome) : Isolated list malloc d := by
  obtain ⟨m, rest, payload, noNul⟩ := List.eq_append_cons_of_mem terminated
  obtain ⟨⟨added, count⟩, adds⟩ := Option.isSome_iff_exists.mp adds
  obtain ⟨off, offs⟩ := Option.isSome_iff_exists.mp offs
  by_cases exit : m = exitText
  · subst exit
    exact ⟨off, none, fun buff _ =>
      ⟨recvfrom buff d.bytes, serve_exit (s := ⟨list, buff⟩) payload fits offs malloc⟩⟩
  · refine ⟨added, some (replyBytes d.port
      (responseText (buffSize - (d.ip.length + udpSize)) m count)), fun buff size => ?_⟩
    obtain ⟨buff', -, served⟩ :=
      serve_message (s := ⟨list, buff⟩) noNul exit payload fits size adds
    exact ⟨buff', served⟩

theorem strlen_overrun {pre s : Text} (noNul : nul ∉ s) : strlen (pre ++ s) pre.length = none := by
  have whole : s.takeWhile (· ≠ nul) = s := takeWhile_noNul noNul
  rw [strlen, skip, List.drop_left, whole, List.length_append]
  simp

/-- Where no terminator follows, the length of the string is not defined. -/
theorem serve_overrun (unterminated : nul ∉ d.payload) (fits : d.bytes.length ≤ buffSize)
    {buff : Text} (noNul : nul ∉ buff) : serve ⟨list, buff⟩ d.bytes malloc = none := by
  have clean : nul ∉ d.payload ++ buff.drop d.bytes.length := fun inside =>
    (List.mem_append.mp inside).elim unterminated fun left => noNul (List.drop_subset _ _ left)
  have received : recvfrom buff d.bytes =
      d.ip ++ (d.udp ++ (d.payload ++ buff.drop d.bytes.length)) := by
    rw [recvfrom_fits fits, Datagram.bytes]
    simp
  generalize d.payload ++ buff.drop d.bytes.length = payload at clean received
  have place : (d.ip ++ d.udp).length = d.ip.length + udpSize := by
    rw [List.length_append, d.udpLength]
  have notExit : isExit (d.ip ++ (d.udp ++ payload)) (d.ip.length + udpSize) = false := by
    rw [← List.append_assoc, ← place, isExit, List.drop_left, Bool.eq_false_iff]
    intro exit
    exact clean ((List.isPrefixOf_iff_prefix.mp exit).subset (by decide))
  have endless : strlen (d.ip ++ (d.udp ++ payload)) (d.ip.length + udpSize) = none := by
    rw [← List.append_assoc, ← place]
    exact strlen_overrun clean
  have noReply (port : Nat) (count : Int) :
      reply (d.ip ++ (d.udp ++ payload)) d.ip.length port count = none := by
    rw [reply, endless, Option.bind_eq_bind, Option.bind_none]
  simp only [serve, received, d.headerSize_bytes, d.dest_bytes, d.saddr_bytes,
    d.source_bytes, notExit,
    noReply, Option.bind_eq_bind, Option.bind_some, Option.bind_none, if_true]
  simp

/-- A datagram is served whatever the buffer held, and always in the same way,
exactly if there is a terminator in its payload. -/
theorem isolated_iff (d : Datagram) (fits : d.bytes.length ≤ buffSize) (list : ClientList Addr)
    (malloc : Addr) (adds : (listAdd list d.address d.port malloc).isSome)
    (offs : (listSwitchOff list d.address d.port).isSome) :
    Isolated list malloc d ↔ nul ∈ d.payload := by
  constructor
  · intro ⟨list', sent, same⟩
    by_contra unterminated
    obtain ⟨buff', served⟩ := same (List.replicate buffSize 'x') List.length_replicate
    have noNul : nul ∉ List.replicate buffSize 'x' := fun inside =>
      absurd (List.eq_of_mem_replicate inside) (by decide)
    rw [serve_overrun unterminated fits noNul] at served
    cases served
  · exact fun terminated => isolated_of_nul terminated fits adds offs

/-- In every state of the list in which no count has reached its bound, both
calls are defined. -/
theorem list_defined {log : List Event} (run : calls.Reach Allocates listInit log list)
    (free : list.heap malloc = none) (few : additions log + 1 < 2 ^ 31) (ip port : Int) :
    (listAdd list ip port malloc).isSome ∧ (listSwitchOff list ip port).isSome := by
  obtain ⟨es, rep, tracks, -⟩ := run_tracked represents_init tracks_init run
  rw [List.nil_append] at tracks
  constructor
  · have added := call_defined (c := .add ip port malloc) rep free (tracks.not_full few)
    rwa [call, Option.isSome_map] at added
  · have off := call_defined (c := .switchOff ip port) rep trivial
      (tracks.not_full (Nat.lt_of_succ_lt few))
    rwa [call, Option.isSome_map] at off

/-- From port 8081 of the server's own host. -/
def fromHere (payload : Text) : Datagram where
  ip := localIp
  udp := udpHeader (swap16 8081) (swap16 serverPort) (udpSize + payload.length)
  payload := payload
  address := 16777343
  port := swap16 8081
  header := localIp_headerSize
  readsAddress := localIp_saddr
  udpLength := rfl
  readsPort := source_udpHeader (swap16_lt _) _ _
  toServer := dest_udpHeader (by decide) _ _

theorem isolated_hi : Isolated (listInit : ClientList Nat) 0 (fromHere ['h', 'i', '\n', nul]) :=
  (isolated_iff (fromHere ['h', 'i', '\n', nul]) (by decide) listInit 0 (by decide) (by decide)).mpr
    (by decide)

/-- The text of the reply to "hi" without a terminator, if there is one. -/
def answer (buff : Text) : Option Text :=
  (serve ⟨(listInit : ClientList Nat), buff⟩ (fromHere ['h', 'i']).bytes 0).bind fun result =>
    result.2.bind fun sent => stringAt sent udpSize

/-- What another client has sent before goes into the reply. -/
theorem answer_leaks : ¬ Isolated (listInit : ClientList Nat) 0 (fromHere ['h', 'i']) ∧
    answer (List.replicate buffSize nul) = some ['h', ' ', '1'] ∧
    answer (List.replicate 30 nul ++ ['k', 'e', 'y', '\n'] ++ List.replicate 994 nul) =
      some ['h', 'i', 'k', 'e', 'y', ' ', '1'] := by
  refine ⟨fun ⟨list', sent, same⟩ => ?_, by decide +kernel, by decide +kernel⟩
  obtain ⟨buff', served⟩ := same (List.replicate buffSize 'x') List.length_replicate
  rw [serve_overrun (by decide) (by decide) (by decide +kernel)] at served
  cases served

end EltexCourse.Guarantees.Echo.Isolation
