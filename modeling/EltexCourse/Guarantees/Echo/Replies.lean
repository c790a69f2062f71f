import Mathlib.Tactic.IntervalCases
import EltexCourse.Guarantees.Echo.Counts
import EltexCourse.Guarantees.Echo.Datagrams

/-!
# task_echo: the counter in a reply

The server writes the count of a client into its reply as one character, the
count behind '0' in the character table. For counts up to nine this is their
decimal representation, and for no other count.
-/

set_option autoImplicit false

namespace EltexCourse.Guarantees.Echo.Replies
open Foundations.CString Foundations.CBuffer Foundations.Transition Foundations.Logs Source.Echo
  Counts Datagrams

/-- A datagram whose payload holds a string that ends with a newline. -/
structure Message extends Datagram where
  text : Text
  rest : Text
  payload_eq : payload = text ++ nul :: rest
  noNul : nul ∉ text
  ended : text.getLast? = some '\n'
  short : payload.length < 900

/-- A message the server has received, and the reply if it sent one. -/
structure Received where
  message : Message
  sent : Option Text

variable {Addr : Type} [DecidableEq Addr]

/-- The server under messages; `malloc` is given with each. -/
def session : System (Server Addr) (Message × Addr) Received where
  step s a := (serve s a.1.bytes a.2).map Prod.fst
  emit s a := ((serve s a.1.bytes a.2).map fun result => ⟨a.1, result.2⟩).toList

def Allocates (s : Server Addr) (a : Message × Addr) : Prop := s.list.heap a.2 = none

instance (s : Server Addr) (a : Message × Addr) : Decidable (Allocates s a) :=
  inferInstanceAs (Decidable (s.list.heap a.2 = none))

/-- The messages of a client since its last "!exit". -/
def sinceExit (client : Int × Int) (log : List Received) : Nat :=
  sinceLast (fun r => r.message.client = client ∧ r.message.text = exitText)
    (fun r => r.message.client = client) log

def afterLastSpace (s : Text) : Text := (s.reverse.takeWhile (· ≠ ' ')).reverse

/-- The last word of the reply is the number of messages of the client since its
last "!exit", this one included. -/
def Counted (before : List Received) (r : Received) : Prop :=
  (r.sent.bind fun sent => stringAt sent udpSize).map afterLastSpace =
    some (Nat.toDigits 10 (sinceExit r.message.client before + 1))

instance (before : List Received) (r : Received) : Decidable (Counted before r) :=
  inferInstanceAs (Decidable (_ = _))

theorem afterLastSpace_append (front word : Text) (noSpace : ' ' ∉ word) :
    afterLastSpace (front ++ ' ' :: word) = word := by
  have outside (c : Char) (inside : c ∈ word.reverse) : decide (c ≠ ' ') = true := by
    simpa using fun (same : c = ' ') => noSpace (same ▸ List.mem_reverse.mp inside)
  rw [afterLastSpace, List.reverse_append, List.reverse_cons, List.append_assoc,
    List.takeWhile_append_of_pos outside]
  simp

/-- Where the counter stands alone: it may have become the terminator, or a
space itself. -/
theorem afterLastSpace_response (front : Text) (c : Char) (noNul : nul ∉ front) :
    afterLastSpace ((front ++ [' ', c]).takeWhile (· ≠ nul)) =
      if c = nul ∨ c = ' ' then [] else [c] := by
  have passes (d : Char) (inside : d ∈ front) : decide (d ≠ nul) = true := by
    simpa using fun (same : d = nul) => noNul (same ▸ inside)
  rw [List.takeWhile_append_of_pos passes]
  by_cases terminated : c = nul
  · subst terminated
    exact afterLastSpace_append front [] (by simp)
  · have spaceNotNul : ' ' ≠ nul := by decide
    have kept : [' ', c].takeWhile (· ≠ nul) = [' ', c] := by simp [terminated, spaceNotNul]
    rw [kept]
    by_cases space : c = ' '
    · subst space
      have found := afterLastSpace_append (front ++ [' ']) [] (by simp)
      simpa using found
    · have found := afterLastSpace_append front [c] (by simpa using Ne.symm space)
      simpa [terminated, space] using found

theorem counter_iff {n : Nat} (positive : 0 < n) :
    (if countChar n = nul ∨ countChar n = ' ' then [] else [countChar n]) = Nat.toDigits 10 n ↔
      n ≤ 9 := by
  constructor
  · intro same
    have short : (Nat.toDigits 10 n).length ≤ 1 := by
      rw [← same]
      split <;> simp
    have := (Nat.length_toDigits_le_iff (by decide) (by decide)).mp short
    omega
  · intro digit
    interval_cases n <;> decide

namespace Message
variable (m : Message)

theorem fits : m.bytes.length ≤ buffSize := by
  have header := m.ip_length_le
  have short := m.short
  simp only [Datagram.bytes, List.length_append, m.udpLength, udpSize, buffSize]
  omega

/-- Nothing of the reply to a short message is cut off. -/
theorem response_eq (count : Int) :
    responseText (buffSize - (m.ip.length + udpSize)) m.text count =
      (m.text.dropLast ++ [' ', countChar count]).takeWhile (· ≠ nul) := by
  have header := m.ip_length_le
  have short := m.short
  rw [m.payload_eq, List.length_append, List.length_cons] at short
  have whole : (m.text.dropLast ++ [' ', countChar count]).length ≤
      buffSize - (m.ip.length + udpSize) - 1 := by
    simp only [List.length_append, List.length_dropLast, List.length_cons, List.length_nil, udpSize,
      buffSize]
    omega
  rw [responseText, List.take_of_length_le whole]

/-- The reply to the message when it is the `count`-th of its client. -/
def reply (count : Int) : Text :=
  replyBytes m.port (responseText (buffSize - (m.ip.length + udpSize)) m.text count)

theorem reply_counter {n : Nat} (positive : 0 < n) :
    (stringAt (m.reply n) udpSize).map afterLastSpace = some (Nat.toDigits 10 n) ↔ n ≤ 9 := by
  have clean : nul ∉ m.text.dropLast := fun inside => m.noNul (List.dropLast_subset _ inside)
  rw [reply, stringAt_reply (responseText_noNul _ _ _), Option.map_some, Option.some.injEq,
    m.response_eq, afterLastSpace_response _ _ clean]
  exact counter_iff positive

end Message

section
variable {s : Server Addr} {es : List (Entry Addr)}

/-- What a message does to the table, and its reply; only a full count leaves it
without a result. -/
theorem serve_spec (rep : Represents s.list es) (size : s.buff.length = buffSize) (m : Message)
    {malloc : Addr} (free : s.list.heap malloc = none) :
    (∃ s' es' sent, serve s m.bytes malloc = some (s', sent) ∧ Represents s'.list es' ∧
      s'.buff.length = buffSize ∧ es'.length ≤ es.length + 1 ∧
      (m.text = exitText ∧ sent = none ∧ countOf es' = Function.update (countOf es) m.client 0 ∨
        m.text ≠ exitText ∧ sent = some (m.reply (countOf es m.client + 1)) ∧
          countOf es' = Function.update (countOf es) m.client (countOf es m.client + 1))) ∨
      (serve s m.bytes malloc = none ∧ Full es (.add m.address m.port malloc)) := by
  by_cases exit : m.text = exitText
  · obtain ⟨list, es', off, rep', steps⟩ := listSwitchOff_steps rep m.address m.port
    have payload := m.payload_eq
    rw [exit] at payload
    exact Or.inl ⟨_, es', none, serve_exit payload m.fits off malloc, rep', recvfrom_length size _,
      Nat.le_trans steps.grown (by simp [additions]), Or.inl ⟨exit, rfl, steps.counts⟩⟩
  · rcases listAdd_steps rep m.address m.port free with
      ⟨list, n, es', added, rep', steps⟩ | ⟨added, full⟩
    · obtain rfl := steps.returned _ _ _ rfl
      obtain ⟨buff, length, served⟩ := serve_message m.noNul exit m.payload_eq m.fits
        size added
      exact Or.inl ⟨_, es', _, served, rep', length, Nat.le_trans steps.grown (by simp [additions]),
        Or.inr ⟨exit, rfl, steps.counts⟩⟩
    · exact Or.inr ⟨serve_full m.noNul exit m.payload_eq m.fits added, full⟩

end

/-- A message other than "!exit" is answered, and counted right exactly if it is
at most the ninth. -/
structure Answered (before : List Received) (r : Received) : Prop where
  silent : r.message.text = exitText → r.sent = none
  answered : r.message.text ≠ exitText → r.sent.isSome
  counter : r.message.text ≠ exitText →
    (Counted before r ↔ sinceExit r.message.client before + 1 ≤ 9)

structure Invariant (log : List Received) (s : Server Addr) (es : List (Entry Addr)) : Prop where
  table : Represents s.list es
  size : s.buff.length = buffSize
  counts : ∀ client, countOf es client = sinceExit client log
  length : es.length ≤ log.length
  answered : EachEntry Answered log

/-- The client's own exit starts the count again, and each of its messages adds one. -/
theorem sinceExit_append (client : Int × Int) (log : List Received) (r : Received) :
    sinceExit client (log ++ [r]) =
      if r.message.client = client then
        if r.message.text = exitText then 0 else sinceExit client log + 1
      else sinceExit client log := by
  rw [sinceExit, sinceLast_append]
  by_cases same : r.message.client = client <;> simp [same, sinceExit]

theorem sinceExit_le (client : Int × Int) (log : List Received) :
    sinceExit client log ≤ log.length :=
  Nat.le_trans sinceLast_le List.countP_le_length

section
variable {s : Server Addr} {es : List (Entry Addr)} {log : List Received}

/-- One datagram served: the table counts the messages of each client since its last
exit. -/
theorem invariant_step (inv : Invariant log s es) (m : Message) {malloc : Addr}
    (free : s.list.heap malloc = none) {s' : Server Addr} {sent : Option Text}
    (served : serve s m.bytes malloc = some (s', sent)) :
    ∃ es', Invariant (log ++ [⟨m, sent⟩]) s' es' := by
  obtain ⟨_, es', _, found, rep, size, grown, effect⟩ :=
    (serve_spec inv.table inv.size m free).resolve_right (by simp [served])
  rw [served] at found
  cases found
  refine ⟨es', rep, size, fun client => ?_, ?_, ?_⟩
  · rw [sinceExit_append]
    rcases effect with ⟨exit, -, counts⟩ | ⟨message, -, counts⟩
    · rw [counts, if_pos exit]
      by_cases same : m.client = client
      · rw [if_pos same, ← same, Function.update_self]
        rfl
      · rw [if_neg same, Function.update_of_ne (Ne.symm same), inv.counts]
    · rw [counts, if_neg message]
      by_cases same : m.client = client
      · rw [if_pos same, same, Function.update_self, inv.counts]
        rfl
      · rw [if_neg same, Function.update_of_ne (Ne.symm same), inv.counts]
  · have := inv.length
    rw [List.length_append, List.length_singleton]
    omega
  · refine inv.answered.append ?_
    rcases effect with ⟨exit, rfl, -⟩ | ⟨message, rfl, -⟩
    · exact ⟨fun _ => rfl, fun message => absurd exit message, fun message => absurd exit message⟩
    · refine ⟨fun exit => absurd exit message, fun _ => rfl, fun _ => ?_⟩
      have counter := m.reply_counter (Nat.succ_pos (sinceExit m.client log))
      rw [Nat.cast_succ] at counter
      rw [Counted, inv.counts, Option.bind_some]
      exact counter

theorem serve_defined (inv : Invariant log s es) (few : log.length + 1 < 2 ^ 31) (m : Message)
    {malloc : Addr} (free : s.list.heap malloc = none) : (serve s m.bytes malloc).isSome := by
  rcases serve_spec inv.table inv.size m free with ⟨_, _, _, served, -⟩ | ⟨-, full⟩
  · rw [served]
    rfl
  · have length := inv.length
    rcases full with full | ⟨key, full⟩
    · simp only [adds] at full
      omega
    · have := sinceExit_le key log
      rw [inv.counts] at full
      simp only [adds] at full
      omega

end

/-- In every session each reply ends in the number of messages of its client
since the last "!exit" exactly if this is at most the ninth. -/
theorem replies_count {buff : Text} (size : buff.length = buffSize) {log : List Received}
    {s : Server Addr} (run : session.Reach Allocates ⟨listInit, buff⟩ log s) :
    (∀ before r after, log = before ++ r :: after → Answered before r) ∧
      ∀ a, Allocates s a → log.length + 1 < 2 ^ 31 → (session.step s a).isSome := by
  obtain ⟨es, inv⟩ := run.invariant (fun log s => ∃ es, Invariant log s es)
    ⟨[], represents_init, size, fun _ => rfl, Nat.le_refl _, eachEntry_nil⟩ (by
      rintro log s a t ⟨es, inv⟩ allocates stepped
      obtain ⟨⟨s', sent⟩, served, rfl⟩ := Option.map_eq_some_iff.mp stepped
      have seen : session.emit s a = [⟨a.1, sent⟩] := by simp [session, served]
      rw [seen]
      exact invariant_step inv a.1 allocates served)
  refine ⟨inv.answered, fun a allocates few => ?_⟩
  rw [session, Option.isSome_map]
  exact serve_defined inv few a.1 allocates

/-- From port 8081 of the server's own host. -/
def localMessage (text : Text) (noNul : nul ∉ text) (ended : text.getLast? = some '\n')
    (short : (text ++ [nul]).length < 900) : Message where
  ip := localIp
  udp := udpHeader (swap16 8081) (swap16 serverPort) (udpSize + text.length + 1)
  payload := text ++ [nul]
  address := 16777343
  port := swap16 8081
  header := localIp_headerSize
  readsAddress := localIp_saddr
  udpLength := rfl
  readsPort := source_udpHeader (swap16_lt _) _ _
  toServer := dest_udpHeader (by decide) _ _
  text := text
  rest := []
  payload_eq := rfl
  noNul := noNul
  ended := ended
  short := short

def hello : Message := localMessage ['h', 'i', '\n'] (by decide) rfl (by decide)

def goodbye : Message := localMessage exitText (by decide) rfl (by decide)

theorem replies_count_two : ∃ log s,
    session.Reach Allocates (⟨listInit, List.replicate buffSize nul⟩ : Server Nat) log s ∧
      log.length = 4 ∧ ∀ before r after, log = before ++ r :: after → Answered before r := by
  obtain ⟨log, s, run, length⟩ := System.exists_reach session Allocates
    (⟨listInit, List.replicate buffSize nul⟩ : Server Nat)
    [(hello, 0), (hello, 1), (goodbye, 1), (hello, 1)] (fun log _ => log.length = 4)
    (by decide +kernel)
  exact ⟨log, s, run, length, (replies_count List.length_replicate run).1⟩

/-- The tenth message is answered with ':'. -/
theorem tenth_reply : ¬ ∀ (buff : Text) (log : List Received) (s : Server Nat),
    buff.length = buffSize → session.Reach Allocates ⟨listInit, buff⟩ log s →
      ∀ before r after, log = before ++ r :: after → r.message.text ≠ exitText →
        Counted before r := by
  intro right
  obtain ⟨log, s, run, wrong⟩ := System.exists_reach session Allocates
    (⟨listInit, List.replicate buffSize nul⟩ : Server Nat)
    ((hello, 0) :: List.replicate 9 (hello, 1))
    (fun log _ => ∃ r ∈ log.getLast?, r.message.text ≠ exitText ∧ ¬ Counted log.dropLast r)
    (by decide +kernel)
  obtain ⟨r, last, message, wrong⟩ := wrong
  have split : log = log.dropLast ++ r :: [] := (List.dropLast_append_getLast? r last).symm
  exact wrong (right _ log s List.length_replicate run log.dropLast r [] split message)

end EltexCourse.Guarantees.Echo.Replies
