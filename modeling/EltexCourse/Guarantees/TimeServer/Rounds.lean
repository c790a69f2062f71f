import Mathlib.Tactic.IntervalCases
import EltexCourse.Source.TimeServer.Multiplexed

/-!
# The rounds of multyplexed_fd

The text of the time covers ten bytes of the buffer. What it covers was asked by
the client, so the server is stopped by a request that says so itself, except by
the first of all; what it does not cover goes out to the client as earlier
requests have left it. A descriptor that has been accepted is never closed.
-/

set_option autoImplicit false

namespace EltexCourse.Guarantees.TimeServer.Rounds
open Foundations.CString Foundations.CBuffer Foundations.Layers Foundations.Descriptors
open Foundations.Transition Source.TimeServer Source.TimeServer.Multiplexed

variable {Client : Type} {limit : Nat} {s t : State Client} {log : List (Event Client)}
variable {junk : Text} {peer : Peer Client} {bytes : Text}

def times (log : List (Event Client)) : List Tm :=
  log.filterMap fun
    | .woke timeinfo => some timeinfo
    | _ => none

def texts (log : List (Event Client)) : List Text :=
  log.filterMap fun
    | .received _ bytes => some bytes
    | _ => none

def askers (log : List (Event Client)) : List (Peer Client) :=
  log.filterMap fun
    | .received peer _ => some peer
    | _ => none

def answered (log : List (Event Client)) : List (Peer Client) :=
  log.filterMap fun
    | .replied peer _ => some peer
    | _ => none

def connections (log : List (Event Client)) : List Nat :=
  log.filterMap fun
    | .accepted clientFd => some clientFd
    | _ => none

/-- The ten bytes that `sprintf` writes. -/
def Shows (buff : Text) (timeinfo : Tm) : Prop := buff.take 10 = timeText timeinfo ++ [nul]

/-- An answer to whoever has asked last, with the time of the last `select`. Byte
`i` behind it is that of the last request that has been so long. -/
structure Reply (junk : Text) (earlier : List (Event Client)) (peer : Peer Client)
    (bytes : Text) : Prop where
  length : bytes.length = buffSize
  asked : (askers earlier).getLast? = some peer
  time : ∃ timeinfo, (times earlier).getLast? = some timeinfo ∧ Shows bytes timeinfo
  rest : ∀ i, 10 ≤ i → bytes[i]? = (top junk ((texts earlier).map stored) i)[i]?

/-- In the loop. -/
def Serving : Pc Client → Prop
  | .closing _ => False
  | .ended _ => False
  | _ => True

/-- Out of the loop by `break`. -/
def Left : Pc Client → Prop
  | .closing status => status = 0
  | .ended status => status = 0
  | _ => False

/-- Who is still to be answered. -/
def owedTo : Pc Client → Option (Peer Client)
  | .sendingUdp client _ _ => some (.udp client)
  | .sendingTcp clientFd => some (.tcp clientFd)
  | _ => none

/-- The time that is still to be used. -/
def timeOf : Pc Client → Option Tm
  | .receivingUdp _ timeinfo => some timeinfo
  | .sendingUdp _ _ timeinfo => some timeinfo
  | .accepting timeinfo => some timeinfo
  | .receivingTcp _ timeinfo => some timeinfo
  | _ => none

/-- What a step leaves alone between two rounds. -/
structure Goes (s t : State Client) : Prop where
  before : Serving s.pc
  after : Serving t.pc
  time : ∀ timeinfo, timeOf t.pc = some timeinfo → timeOf s.pc = some timeinfo

inductive Move (limit : Nat) (s t : State Client) : List (Event Client) → Prop where
  | wakes (timeinfo : Tm) (before : Serving s.pc ∧ owedTo s.pc = none)
      (after : Serving t.pc ∧ owedTo t.pc = none) (time : timeOf t.pc = some timeinfo)
      (buff : t.buff = s.buff) (table : t.table = s.table) : Move limit s t [.woke timeinfo]
  | hears (peer : Peer Client) (bytes : Text) (timeinfo : Tm) (goes : Goes s t)
      (time : timeOf s.pc = some timeinfo) (before : owedTo s.pc = none)
      (after : owedTo t.pc = some peer) (goesOn : isKill (overlay s.buff bytes) = false)
      (buff : t.buff = layer (overlay s.buff bytes) (timeText timeinfo ++ [nul]))
      (table : t.table = s.table) : Move limit s t [.received peer bytes]
  | quits (peer : Peer Client) (bytes : Text) (before : Serving s.pc ∧ owedTo s.pc = none)
      (said : isKill (overlay s.buff bytes) = true) (buff : t.buff = overlay s.buff bytes)
      (after : t.pc = .closing 0) (table : t.table = s.table) :
      Move limit s t [.received peer bytes]
  | replies (peer : Peer Client) (goes : Goes s t) (before : owedTo s.pc = some peer)
      (after : owedTo t.pc = none) (buff : t.buff = s.buff) (table : t.table = s.table) :
      Move limit s t [.replied peer s.buff]
  | connects (goes : Goes s t) (before : owedTo s.pc = none) (after : owedTo t.pc = none)
      (buff : t.buff = s.buff) (free : s.table.lowestFree < limit)
      (table : t.table = s.table.put s.table.lowestFree .client) :
      Move limit s t [.accepted s.table.lowestFree]
  | waits (same : t = s) : Move limit s t []
  | fails (before : Serving s.pc) (after : t.pc = .closing 1) (buff : t.buff = s.buff)
      (table : t.table = s.table) : Move limit s t []
  | closes (status : Nat) (before : s.pc = .closing status) (after : t.pc = .ended status)
      (buff : t.buff = s.buff) (table : t.table = (s.table.close fdUdp).close fdTcp) :
      Move limit s t []

/-- Taking in a datagram or a message is one move wherever it happens: whoever sent it
is owed an answer, unless it stops the server. -/
theorem hear_move {timeinfo : Tm} {next : Pc Client} (time : timeOf s.pc = some timeinfo)
    (serving : Serving s.pc) (before : owedTo s.pc = none) (after : owedTo next = some peer)
    (still : Serving next) (later : ∀ tm, timeOf next = some tm → timeOf s.pc = some tm) :
    Move limit s (s.hear timeinfo bytes next) [.received peer bytes] := by
  by_cases said : isKill (overlay s.buff bytes) = true
  · have gone : s.hear timeinfo bytes next =
        { s with buff := overlay s.buff bytes, pc := .closing 0 } := if_pos said
    rw [gone]
    exact .quits peer bytes ⟨serving, before⟩ said rfl rfl rfl
  · have goesOn : s.hear timeinfo bytes next = { s with
        buff := layer (overlay s.buff bytes) (timeText timeinfo ++ [nul]), pc := next } :=
      if_neg said
    rw [goesOn]
    exact .hears peer bytes timeinfo ⟨serving, still, later⟩ time before after
      (Bool.eq_false_iff.mpr said) rfl rfl

/-- Every step is one of the moves, with the events it adds to the log. -/
theorem step_move {action : Action Client} (stepped : step limit s action = some t) :
    Move limit s t (events s action) := by
  cases action with
  | select ready timeinfo =>
    cases pc : s.pc <;> simp only [step, pc, reduceCtorEq] at stepped
    rcases ready with _ | ⟨udp, tcp⟩
    · cases stepped
      exact .fails (by simp [pc, Serving]) rfl rfl rfl
    · cases stepped
      cases udp with
      | true => exact .wakes timeinfo (by simp [pc, Serving, owedTo]) ⟨trivial, rfl⟩ rfl rfl rfl
      | false =>
        cases tcp with
        | true => exact .wakes timeinfo (by simp [pc, Serving, owedTo]) ⟨trivial, rfl⟩ rfl rfl rfl
        | false => exact .waits (by rw [State.goto]; exact pc ▸ rfl)
  | recvfrom datagram =>
    cases pc : s.pc <;> simp only [step, pc, reduceCtorEq] at stepped
    rcases datagram with _ | ⟨client, bytes⟩
    · cases stepped
      exact .fails (by simp [pc, Serving]) rfl rfl rfl
    · cases stepped
      exact hear_move (by rw [pc]; rfl) (by simp [pc, Serving]) (by rw [pc]; rfl) rfl trivial
        fun tm later => by rw [pc]; exact later
  | sendto sent =>
    cases pc : s.pc <;> simp only [step, pc, reduceCtorEq] at stepped
    next client tcp timeinfo =>
    cases sent with
    | true =>
      cases stepped
      have shown : events s (.sendto true) = [.replied (.udp client) s.buff] := by
        simp [events, pc]
      rw [shown]
      refine .replies _ ⟨by simp [pc, Serving], ?_, ?_⟩ (by rw [pc]; rfl) ?_ rfl rfl <;>
        cases tcp <;> simp [State.goto, Serving, owedTo, timeOf, pc]
    | false =>
      cases stepped
      exact .fails (by simp [pc, Serving]) rfl rfl rfl
  | accept accepted =>
    cases pc : s.pc <;> simp only [step, pc, reduceCtorEq] at stepped
    cases accepted with
    | true =>
      rw [if_pos rfl] at stepped
      split at stepped
      · next free =>
        cases stepped
        exact .connects ⟨by simp [pc, Serving], trivial, fun tm later => by rw [pc]; exact later⟩
          (by rw [pc]; rfl) rfl rfl free rfl
      · cases stepped
    | false =>
      cases stepped
      exact .fails (by simp [pc, Serving]) rfl rfl rfl
  | recv bytes =>
    cases pc : s.pc <;> simp only [step, pc, reduceCtorEq] at stepped
    next clientFd timeinfo =>
    cases bytes with
    | none =>
      cases stepped
      exact .fails (by simp [pc, Serving]) rfl rfl rfl
    | some bytes =>
      cases stepped
      have shown : events s (.recv (some bytes)) = [.received (.tcp clientFd) bytes] := by
        simp [events, pc]
      rw [shown]
      exact hear_move (by rw [pc]; rfl) (by simp [pc, Serving]) (by rw [pc]; rfl) rfl trivial
        fun tm later => by cases later
  | send sent =>
    cases pc : s.pc <;> simp only [step, pc, reduceCtorEq] at stepped
    next clientFd =>
    cases sent with
    | true =>
      cases stepped
      have shown : events s (.send true) = [.replied (.tcp clientFd) s.buff] := by
        simp [events, pc]
      rw [shown]
      exact .replies _ ⟨by simp [pc, Serving], trivial, fun tm later => by cases later⟩
        (by rw [pc]; rfl) rfl rfl rfl
    | false =>
      cases stepped
      exact .fails (by simp [pc, Serving]) rfl rfl rfl
  | close =>
    cases pc : s.pc <;> simp only [step, pc, reduceCtorEq] at stepped
    next status =>
    cases stepped
    exact .closes status pc rfl rfl rfl

theorem timeText_length (timeinfo : Tm) : (timeText timeinfo ++ [nul]).length = 10 := rfl

/-- The time with its terminator takes ten bytes; whatever lies behind them in `buff`
stays. -/
theorem layer_time_rest (buff : Text) (timeinfo : Tm) {i : Nat} (behind : 10 ≤ i) :
    (layer buff (timeText timeinfo ++ [nul]))[i]? = buff[i]? := by
  rw [layer_getElem?, timeText_length]
  exact if_neg (Nat.not_lt_of_le behind)

theorem layer_time_shows (buff : Text) (timeinfo : Tm) :
    Shows (layer buff (timeText timeinfo ++ [nul])) timeinfo := by
  have reaches : 10 ≤ (timeText timeinfo ++ [nul]).length := (timeText_length timeinfo).ge
  rw [Shows, layer_take reaches]
  rfl

theorem overlay_length {buff : Text} (size : buff.length = buffSize) :
    (overlay buff bytes).length = buffSize := by
  have fits : (stored bytes).length ≤ buff.length := by
    rw [stored, size]
    exact List.length_take_le ..
  exact (layer_length fits).trans size

theorem layer_time_length {buff : Text} (size : buff.length = buffSize) (timeinfo : Tm) :
    (layer buff (timeText timeinfo ++ [nul])).length = buffSize := by
  have fits : (timeText timeinfo ++ [nul]).length ≤ buff.length := by
    rw [timeText_length, size, buffSize]
    omega
  exact (layer_length fits).trans size

/-- After one more request a place of the buffer still has what the last request long
enough to reach it has left there. -/
theorem overlay_rest {buff : Text} {requests : List Text} {i : Nat}
    (rest : buff[i]? = (top junk (requests.map stored) i)[i]?) :
    (overlay buff bytes)[i]? = (top junk ((requests ++ [bytes]).map stored) i)[i]? := by
  rw [overlay, layer_getElem?, List.map_append, List.map_singleton, top_append, rest]
  split <;> rfl

structure Between (junk : Text) (log : List (Event Client)) (s : State Client) : Prop where
  size : s.buff.length = buffSize
  rest : ∀ i, 10 ≤ i → s.buff[i]? = (top junk ((texts log).map stored) i)[i]?
  time : ∀ timeinfo, timeOf s.pc = some timeinfo → (times log).getLast? = some timeinfo
  shows : ∀ peer, owedTo s.pc = some peer →
    ∃ timeinfo, (times log).getLast? = some timeinfo ∧ Shows s.buff timeinfo
  balance : ∃ owed, askers log = answered log ++ owed ∧ owed.length ≤ 1 ∧
    (Serving s.pc → owed = (owedTo s.pc).toList)

theorem between_start (size : junk.length = buffSize) :
    Between junk [] (start junk : State Client) :=
  ⟨size, fun _ _ => rfl, by simp [start, timeOf], by simp [start, owedTo], [], rfl, Nat.zero_le 1,
    fun _ => rfl⟩

/-- Steps that log nothing about requests and answers. -/
theorem Between.kept {events : List (Event Client)} (between : Between junk log s)
    (buff : t.buff = s.buff) (texts_same : texts (log ++ events) = texts log)
    (askers_same : askers (log ++ events) = askers log)
    (answered_same : answered (log ++ events) = answered log)
    (time : ∀ timeinfo, timeOf t.pc = some timeinfo →
      (times (log ++ events)).getLast? = some timeinfo)
    (none : owedTo t.pc = none) (still : Serving t.pc → Serving s.pc ∧ owedTo s.pc = Option.none) :
    Between junk (log ++ events) t := by
  obtain ⟨owed, split, atMost, serving⟩ := between.balance
  refine ⟨by rw [buff]; exact between.size, ?_, time, fun peer owes => ?_, owed, ?_, atMost,
    fun serves => ?_⟩
  · rw [buff, texts_same]
    exact between.rest
  · rw [none] at owes
    cases owes
  · rw [askers_same, answered_same]
    exact split
  · obtain ⟨before, nobody⟩ := still serves
    rw [serving before, nobody, none]

theorem texts_received (log : List (Event Client)) :
    texts (log ++ [.received peer bytes]) = texts log ++ [bytes] := by simp [texts]

/-- A request that comes when none is at hand is the one still to be answered. -/
theorem Between.asked (between : Between junk log s) (serves : Serving s.pc)
    (none : owedTo s.pc = none) : askers (log ++ [.received peer bytes]) =
      answered (log ++ [.received peer bytes]) ++ [peer] := by
  obtain ⟨owed, split, -, serving⟩ := between.balance
  have nobody : owed = [] := by rw [serving serves, none, Option.toList_none]
  rw [nobody, List.append_nil] at split
  simpa [askers, answered] using split

/-- A request that lets the loop go on: the buffer is left with the time in front. -/
theorem Between.hears {timeinfo : Tm} (between : Between junk log s) (goes : Goes s t)
    (time : timeOf s.pc = some timeinfo) (before : owedTo s.pc = none)
    (after : owedTo t.pc = some peer)
    (buff : t.buff = layer (overlay s.buff bytes) (timeText timeinfo ++ [nul])) :
    Between junk (log ++ [.received peer bytes]) t := by
  have same : times (log ++ [.received peer bytes]) = times log := by simp [times]
  refine ⟨?_, fun i behind => ?_, fun tm later => ?_, fun _ _ => ⟨timeinfo, ?_, ?_⟩, [peer],
    between.asked goes.before before, Nat.le_refl 1, fun _ => by rw [after, Option.toList_some]⟩
  · rw [buff]
    exact layer_time_length (overlay_length between.size) timeinfo
  · rw [buff, layer_time_rest _ _ behind, texts_received]
    exact overlay_rest (between.rest i behind)
  · rw [same]
    exact between.time tm (goes.time tm later)
  · rw [same]
    exact between.time timeinfo time
  · rw [buff]
    exact layer_time_shows _ timeinfo

/-- A kill message stays in the buffer, and its sender unanswered. -/
theorem Between.quits (between : Between junk log s) (serves : Serving s.pc)
    (before : owedTo s.pc = none) (buff : t.buff = overlay s.buff bytes)
    (after : t.pc = .closing 0) : Between junk (log ++ [.received peer bytes]) t := by
  refine ⟨?_, fun i behind => ?_, ?_, ?_, [peer], between.asked serves before, Nat.le_refl 1, ?_⟩
  · rw [buff]
    exact overlay_length between.size
  · rw [buff, texts_received]
    exact overlay_rest (between.rest i behind)
  · simp [after, timeOf]
  · simp [after, owedTo]
  · simp [after, Serving]

/-- The reply settles the request at hand. -/
theorem Between.replies (between : Between junk log s) (goes : Goes s t)
    (before : owedTo s.pc = some peer) (after : owedTo t.pc = none) (buff : t.buff = s.buff) :
    Between junk (log ++ [.replied peer s.buff]) t := by
  have same : times (log ++ [.replied peer s.buff]) = times log := by simp [times]
  have old : texts (log ++ [.replied peer s.buff]) = texts log := by simp [texts]
  obtain ⟨owed, split, -, serving⟩ := between.balance
  have one : owed = [peer] := by rw [serving goes.before, before, Option.toList_some]
  refine ⟨by rw [buff]; exact between.size, ?_, fun tm later => ?_, fun _ owes => ?_, [], ?_,
    Nat.zero_le 1, fun _ => by rw [after, Option.toList_none]⟩
  · rw [buff, old]
    exact between.rest
  · rw [same]
    exact between.time tm (goes.time tm later)
  · rw [after] at owes
    cases owes
  · rw [one] at split
    simpa [askers, answered] using split

/-- Behind the loop nobody is served, and what is owed stays owed. -/
theorem Between.stops (between : Between junk log s) (buff : t.buff = s.buff)
    (noTime : timeOf t.pc = none) (none : owedTo t.pc = none) (passed : ¬ Serving t.pc) :
    Between junk (log ++ []) t := by
  obtain ⟨owed, split, atMost, -⟩ := between.balance
  rw [List.append_nil]
  refine ⟨by rw [buff]; exact between.size, by rw [buff]; exact between.rest, ?_, ?_, owed, split,
    atMost, fun serves => absurd serves passed⟩
  · simp [noTime]
  · simp [none]

/-- Every move keeps the buffer and the debt as the log says: a request received is
owed, a reply sent is not. -/
theorem Between.moves {events : List (Event Client)} (between : Between junk log s)
    (move : Move limit s t events) : Between junk (log ++ events) t := by
  cases move with
  | wakes timeinfo before after time buff table =>
    refine between.kept buff (by simp [texts]) (by simp [askers]) (by simp [answered])
      (fun tm later => ?_) after.2 fun _ => before
    rw [time] at later
    simpa [times] using later
  | hears peer bytes timeinfo goes time before after goesOn buff table =>
    exact between.hears goes time before after buff
  | quits peer bytes before said buff after table =>
    exact between.quits before.1 before.2 buff after
  | replies peer goes before after buff table => exact between.replies goes before after buff
  | connects goes before after buff free table =>
    refine between.kept buff (by simp [texts]) (by simp [askers]) (by simp [answered])
      (fun tm later => ?_) after fun _ => ⟨goes.before, before⟩
    have same : times (log ++ [.accepted s.table.lowestFree]) = times log := by simp [times]
    rw [same]
    exact between.time tm (goes.time tm later)
  | waits same =>
    rw [List.append_nil, same]
    exact between
  | fails before after buff table | closes status before after buff table =>
    exact between.stops buff (by rw [after]; rfl) (by rw [after]; rfl) (by rw [after]; exact id)

/-- The answer that is due is as it should be. -/
theorem Between.reply (between : Between junk log s) (serves : Serving s.pc)
    (owes : owedTo s.pc = some peer) : Reply junk log peer s.buff := by
  obtain ⟨owed, split, -, serving⟩ := between.balance
  rw [serving serves, owes, Option.toList_some] at split
  refine ⟨between.size, ?_, between.shows peer owes, between.rest⟩
  rw [split, List.getLast?_append]
  rfl

/-- Of a log: every answer in it is one to what was there before. -/
def Replies (junk : Text) (log : List (Event Client)) : Prop :=
  ∀ earlier peer bytes later, log = earlier ++ .replied peer bytes :: later →
    Reply junk earlier peer bytes

theorem Replies.append {event : Event Client} (replies : Replies junk log)
    (good : ∀ peer bytes, event = .replied peer bytes → Reply junk log peer bytes) :
    Replies junk (log ++ [event]) := by
  intro earlier peer bytes later split
  rcases List.eq_nil_or_concat later with rfl | ⟨between, last, rfl⟩
  · obtain ⟨rfl, same⟩ := List.append_inj' split rfl
    exact good peer bytes (List.cons.inj same).1
  · rw [List.concat_eq_append, ← List.cons_append, ← List.append_assoc] at split
    exact replies earlier peer bytes between (List.append_inj' split rfl).1

/-- A reply goes to whoever asked last, with the time in front and the requests' remains
behind. -/
theorem Replies.moves {events : List (Event Client)} (replies : Replies junk log)
    (between : Between junk log s) (move : Move limit s t events) :
    Replies junk (log ++ events) := by
  cases move with
  | wakes | hears | quits | connects => exact replies.append fun peer bytes same => by cases same
  | replies peer goes before =>
    refine replies.append fun peer' bytes same => ?_
    cases same
    exact between.reply goes.before before
  | waits | fails | closes =>
    rw [List.append_nil]
    exact replies

/-- Both invariants in every state of every run, for any contents of the buffer at the
start. -/
theorem between_of_reach (size : junk.length = buffSize)
    (run : (server limit).Reach System.Anything (start junk) log s) :
    Between junk log s ∧ Replies junk log :=
  run.invariant (fun log s => Between junk log s ∧ Replies junk log)
    ⟨between_start size, fun earlier _ _ _ split => by simp at split⟩
    fun _ _ _ _ both _ stepped =>
      ⟨both.1.moves (step_move stepped), both.2.moves both.1 (step_move stepped)⟩

/-- Every answer is to the request that came last, shows the time of the last
`select` that found something, and ends with what requests have left in the
buffer, not only the one that is answered. As long as the server is in its loop,
each request but the one at hand has its answer. -/
theorem rounds_answered (size : junk.length = buffSize)
    (run : (server limit).Reach System.Anything (start junk) log s) :
    Replies junk log ∧ ∃ owed, askers log = answered log ++ owed ∧ owed.length ≤ 1 ∧
      (Serving s.pc → owed = (owedTo s.pc).toList) :=
  have both := between_of_reach size run
  ⟨both.2, both.1.balance⟩

def noon : Tm := ⟨12, 0, 0, by decide, by decide, by decide⟩

/-- A request of sixteen bytes, and one of four that gets the end of it. -/
def leftOver : List (Action Char) :=
  [.select (some (true, false)) noon,
    .recvfrom (some ('a', "my secret 123456".toList)), .sendto true,
    .select (some (true, false)) noon, .recvfrom (some ('b', "time".toList)), .sendto true]

theorem rounds_answered_left_over :
    ∃ log s,
      (server 1024).Reach System.Anything (start (List.replicate 16 'x') : State Char) log s ∧
      (log.getLast? =
      some (.replied (.udp 'b') ("12:00:00\n".toList ++ [nul] ++ "123456".toList))) ∧
      Replies (List.replicate 16 'x') log := by
  obtain ⟨log, s, run, last⟩ :=
    System.exists_reach (server 1024) System.Anything (start (List.replicate 16 'x') : State Char)
      leftOver (fun log _ => log.getLast? = some (.replied (.udp 'b')
        ("12:00:00\n".toList ++ [nul] ++ "123456".toList))) (by decide)
  exact ⟨log, s, run, last, (rounds_answered rfl run).1⟩

theorem digitChar_ne_nul : ∀ n < 10, Nat.digitChar n ≠ nul := by decide

/-- Over the text of a time, only a text that is one itself is a kill message. -/
theorem isKill_over_time {buff : Text} {timeinfo : Tm} (shows : Shows buff timeinfo) :
    isKill (overlay buff bytes) = isKill bytes := by
  by_cases long : 5 ≤ bytes.length
  · exact isKill_long long
  · have short : bytes.length < 5 := Nat.lt_of_not_le long
    rw [not_isKill_short short, Bool.eq_false_iff]
    intro said
    have inside : (stored bytes).length ≤ 4 := by
      rw [stored, List.length_take]
      omega
    -- The byte that has to be the terminator is a digit of the minutes.
    have digit : buff[4]? = some (Nat.digitChar (timeinfo.min % 10)) := by
      rw [← List.getElem?_take_of_lt (show 4 < 10 by decide), shows]
      rfl
    have last := (isKill_iff _).mp said 4 (by decide)
    rw [overlay, layer_getElem?, if_neg (Nat.not_lt_of_le inside), digit] at last
    exact digitChar_ne_nul _ (Nat.mod_lt _ (by decide)) (Option.some.inj last)

/-- Whether the comparison finds "kill" after these requests. -/
def Stops (junk : Text) (earlier : List Text) (bytes : Text) : Prop :=
  isKill (if earlier = [] then overlay junk bytes else bytes) = true

structure Heard (junk : Text) (requests : List Text) (s : State Client) : Prop where
  shows : Serving s.pc → (requests = [] ∧ s.buff = junk) ∨
    requests ≠ [] ∧ ∃ timeinfo, Shows s.buff timeinfo
  stops : ∀ earlier bytes later, requests = earlier ++ bytes :: later →
    (Stops junk earlier bytes ↔ later = [] ∧ Left s.pc)
  left : Left s.pc → requests ≠ []

theorem heard_start (junk : Text) : Heard junk [] (start junk : State Client) :=
  ⟨fun _ => Or.inl ⟨rfl, rfl⟩, by simp, fun left => left.elim⟩

theorem not_left {pc : Pc Client} (serving : Serving pc) : ¬ Left pc := by
  cases pc <;> simp_all [Serving, Left]

/-- What the comparison in the loop finds. -/
theorem Heard.compares {requests : List Text} (heard : Heard junk requests s)
    (serving : Serving s.pc) :
    Stops junk requests bytes ↔ isKill (overlay s.buff bytes) = true := by
  rcases heard.shows serving with ⟨none, same⟩ | ⟨some, timeinfo, shows⟩
  · rw [Stops, if_pos none, same]
  · rw [Stops, if_neg some, isKill_over_time shows]

theorem Heard.kept {requests : List Text} (heard : Heard junk requests s)
    (shows : Serving t.pc → Serving s.pc ∧ t.buff = s.buff) (left : Left t.pc ↔ Left s.pc) :
    Heard junk requests t := by
  refine ⟨fun serving => ?_, fun earlier bytes later split => ?_, fun gone => ?_⟩
  · obtain ⟨before, buff⟩ := shows serving
    rw [buff]
    exact heard.shows before
  · rw [left]
    exact heard.stops earlier bytes later split
  · exact heard.left (left.mp gone)

/-- After a request the server is on its way out exactly if the buffer reads "kill". -/
theorem Heard.hears {requests : List Text} (heard : Heard junk requests s)
    (serving : Serving s.pc) (shows : Serving t.pc → ∃ timeinfo, Shows t.buff timeinfo)
    (after : Left t.pc ↔ isKill (overlay s.buff bytes) = true) :
    Heard junk (requests ++ [bytes]) t := by
  refine ⟨fun still => Or.inr ⟨by simp, shows still⟩, fun earlier bytes' later split => ?_,
    fun _ => by simp⟩
  rcases List.eq_nil_or_concat later with rfl | ⟨between, last, rfl⟩
  · obtain ⟨rfl, same⟩ := List.append_inj' split rfl
    obtain ⟨rfl, -⟩ := List.cons.inj same
    rw [heard.compares serving, after]
    exact (and_iff_right rfl).symm
  · rw [List.concat_eq_append, ← List.cons_append, ← List.append_assoc] at split
    rw [heard.stops earlier bytes' between (List.append_inj' split rfl).1]
    exact iff_of_false (fun both => not_left serving both.2) fun both => by simp at both

theorem Heard.moves {events : List (Event Client)} (heard : Heard junk (texts log) s)
    (move : Move limit s t events) : Heard junk (texts (log ++ events)) t := by
  have quiet (same : texts (log ++ events) = texts log)
      (shows : Serving t.pc → Serving s.pc ∧ t.buff = s.buff) (left : Left t.pc ↔ Left s.pc) :
      Heard junk (texts (log ++ events)) t := by
    rw [same]
    exact heard.kept shows left
  have more (peer : Peer Client) (bytes : Text) :
      texts (log ++ [.received peer bytes]) = texts log ++ [bytes] := by simp [texts]
  cases move with
  | wakes timeinfo before after time buff table =>
    exact quiet (by simp [texts]) (fun _ => ⟨before.1, buff⟩)
      (iff_of_false (not_left after.1) (not_left before.1))
  | hears peer bytes timeinfo goes time before after goesOn buff table =>
    rw [more]
    refine heard.hears goes.before (fun _ => ⟨timeinfo, ?_⟩) (iff_of_false (not_left goes.after) ?_)
    · rw [buff]
      exact layer_time_shows _ timeinfo
    · rw [goesOn]
      exact Bool.false_ne_true
  | quits peer bytes before said buff after table =>
    rw [more]
    refine heard.hears before.1 (fun still => ?_) (iff_of_true ?_ said)
    · rw [after] at still
      exact still.elim
    · rw [after]
      exact rfl
  | replies peer goes before after buff table =>
    exact quiet (by simp [texts]) (fun _ => ⟨goes.before, buff⟩)
      (iff_of_false (not_left goes.after) (not_left goes.before))
  | connects goes before after buff free table =>
    exact quiet (by simp [texts]) (fun _ => ⟨goes.before, buff⟩)
      (iff_of_false (not_left goes.after) (not_left goes.before))
  | waits same =>
    exact quiet (by simp) (fun still => ⟨same ▸ still, by rw [same]⟩) (by rw [same])
  | fails before after buff table =>
    refine quiet (by simp) (fun _ => ⟨before, buff⟩) (iff_of_false ?_ (not_left before))
    rw [after]
    exact Nat.one_ne_zero
  | closes status before after buff table =>
    refine quiet (by simp) (fun still => ?_) (by rw [before, after]; exact Iff.rfl)
    rw [after] at still
    exact still.elim

/-- The server leaves its loop in peace on the first request that says "kill"
itself, a first one being read with what the buffer held before. -/
theorem stopped_by_kill
    (run : (server limit).Reach System.Anything (start junk) log s) :
    (Left s.pc ↔ ∃ earlier last, texts log = earlier ++ [last] ∧ Stops junk earlier last) ∧
      ∀ earlier bytes later, texts log = earlier ++ bytes :: later → later ≠ [] →
        ¬ Stops junk earlier bytes := by
  have heard : Heard junk (texts log) s :=
    run.invariant (fun log s => Heard junk (texts log) s) (heard_start junk)
      fun _ _ _ _ heard _ stepped => heard.moves (step_move stepped)
  refine ⟨⟨fun left => ?_, ?_⟩, fun earlier bytes later split more stops => ?_⟩
  · rcases List.eq_nil_or_concat (texts log) with none | ⟨earlier, last, split⟩
    · exact absurd none (heard.left left)
    · rw [List.concat_eq_append] at split
      exact ⟨earlier, last, split, (heard.stops earlier last [] split).mpr ⟨rfl, left⟩⟩
  · rintro ⟨earlier, last, split, stops⟩
    exact ((heard.stops earlier last [] split).mp stops).2
  · exact more ((heard.stops earlier bytes later split).mp stops).1

/-- The second of two requests, over the time that has answered the first. -/
def stopping : List (Action Char) :=
  [.select (some (true, false)) noon, .recvfrom (some ('a', "time".toList)), .sendto true,
    .select (some (false, true)) noon, .accept true, .recv (some kill)]

theorem stopped_by_kill_second :
    ∃ log s,
      (server 1024).Reach System.Anything (start (List.replicate 16 'x') : State Char) log s ∧
      (texts log = ["time".toList, kill] ∧ s.pc = .closing 0) ∧
      (Left s.pc ↔ ∃ earlier last, texts log = earlier ++ [last] ∧
        Stops (List.replicate 16 'x') earlier last) := by
  obtain ⟨log, s, run, both⟩ :=
    System.exists_reach (server 1024) System.Anything (start (List.replicate 16 'x') : State Char)
      stopping (fun log s => texts log = ["time".toList, kill] ∧ s.pc = .closing 0) (by decide)
  exact ⟨log, s, run, both, (stopped_by_kill run).1⟩

def Ended : Pc Client → Prop
  | .ended _ => True
  | _ => False

structure Opened (limit : Nat) (log : List (Event Client)) (s : State Client) : Prop where
  numbers : connections log = List.range' 5 (connections log).length
  kept : ∀ fd ∈ connections log, s.table.file fd = some .client ∧ fd < limit
  dense : ¬ Ended s.pc → ∀ fd, (s.table.file fd).isSome = true ↔ fd < 5 + (connections log).length

theorem opened_start : Opened limit [] (start junk : State Client) := by
  refine ⟨rfl, fun fd inside => absurd inside List.not_mem_nil, fun _ fd => ?_⟩
  simp only [start, Table.file_put, Function.update_apply, fdUdp, fdTcp, Table.empty]
  by_cases small : fd < 5
  · interval_cases fd <;> simp [connections]
  · simp [connections, show fd ≠ 0 by omega, show fd ≠ 1 by omega, show fd ≠ 2 by omega,
      show fd ≠ 3 by omega, show fd ≠ 4 by omega, Nat.le_of_not_lt small]

theorem serving_not_ended {pc : Pc Client} (serving : Serving pc) : ¬ Ended pc := by
  cases pc <;> simp_all [Serving, Ended]

theorem Opened.same {events : List (Event Client)} (opened : Opened limit log s)
    (quiet : connections (log ++ events) = connections log) (table : t.table = s.table)
    (before : ¬ Ended s.pc) : Opened limit (log ++ events) t := by
  refine ⟨?_, ?_, fun _ => ?_⟩
  · rw [quiet]
    exact opened.numbers
  · rw [quiet, table]
    exact opened.kept
  · rw [quiet, table]
    exact opened.dense before

/-- A connection takes the lowest free descriptor, one more than the last, as no
connection is ever closed. -/
theorem Opened.connects (opened : Opened limit log s) (before : ¬ Ended s.pc)
    (free : s.table.lowestFree < limit)
    (table : t.table = s.table.put s.table.lowestFree .client) :
    Opened limit (log ++ [.accepted s.table.lowestFree]) t := by
  have next : s.table.lowestFree = 5 + (connections log).length :=
    Table.lowestFree_eq (opened.dense before)
  have more : connections (log ++ [.accepted s.table.lowestFree]) =
      connections log ++ [s.table.lowestFree] := by simp [connections]
  have file : t.table.file = Function.update s.table.file s.table.lowestFree (some .client) := by
    rw [table, Table.file_put]
  refine ⟨?_, fun fd inside => ?_, fun _ fd => ?_⟩
  · rw [more, List.length_append, List.length_singleton, List.range'_1_concat,
      ← opened.numbers, next]
  · rw [more] at inside
    rw [file]
    rcases List.mem_append.mp inside with old | new
    · have known := opened.kept fd old
      have other : fd ≠ s.table.lowestFree := by
        rintro rfl
        rw [s.table.file_lowestFree] at known
        cases known.1
      rw [Function.update_of_ne other]
      exact known
    · obtain rfl := List.mem_singleton.mp new
      exact ⟨Function.update_self .., free⟩
  · rw [more, List.length_append, List.length_singleton, file]
    by_cases own : fd = s.table.lowestFree
    · rw [own, Function.update_self]
      exact iff_of_true rfl (by omega)
    · rw [Function.update_of_ne own, opened.dense before]
      omega

/-- Every other move up to the end leaves the connections as they are. -/
theorem Opened.moves {events : List (Event Client)} (opened : Opened limit log s)
    (move : Move limit s t events) : Opened limit (log ++ events) t := by
  cases move with
  | wakes timeinfo before after time buff table =>
    exact opened.same (by simp [connections]) table (serving_not_ended before.1)
  | hears peer bytes timeinfo goes time before after goesOn buff table =>
    exact opened.same (by simp [connections]) table (serving_not_ended goes.before)
  | quits peer bytes before said buff after table =>
    exact opened.same (by simp [connections]) table (serving_not_ended before.1)
  | replies peer goes before after buff table =>
    exact opened.same (by simp [connections]) table (serving_not_ended goes.before)
  | connects goes before after buff free table =>
    exact opened.connects (serving_not_ended goes.before) free table
  | waits same =>
    rw [List.append_nil, same]
    exact opened
  | fails before after buff table =>
    exact opened.same (by simp) table (serving_not_ended before)
  | closes status before after buff table =>
    rw [List.append_nil]
    refine ⟨opened.numbers, fun fd inside => ?_, fun still => ?_⟩
    · have large : 5 ≤ fd := by
        rw [opened.numbers, List.mem_range'_1] at inside
        exact inside.1
      rw [table, Table.file_close, Table.file_close, Function.update_of_ne, Function.update_of_ne]
      · exact opened.kept fd inside
      · rw [fdUdp]
        omega
      · rw [fdTcp]
        omega
    · rw [after] at still
      exact absurd trivial still

/-- The connections take the numbers from 5 on and keep them, so that after
`limit - 5` of them no client is accepted any more. -/
theorem descriptors_used_up
    (run : (server limit).Reach System.Anything (start junk) log s) :
    connections log = List.range' 5 (connections log).length ∧
      (∀ fd ∈ connections log, s.table.file fd = some .client ∧ fd < limit) ∧
      ∀ timeinfo, s.pc = .accepting timeinfo →
        ((∃ t, step limit s (.accept true) = some t) ↔ 5 + (connections log).length < limit) := by
  have opened : Opened limit log s :=
    run.invariant (Opened limit) opened_start fun _ _ _ _ opened _ stepped =>
      opened.moves (step_move stepped)
  refine ⟨opened.numbers, opened.kept, fun timeinfo pc => ?_⟩
  have next : s.table.lowestFree = 5 + (connections log).length :=
    Table.lowestFree_eq (opened.dense (by simp [pc, Ended]))
  rw [← next]
  simp only [step, pc, if_true]
  split <;> simp_all

/-- With a limit of 6: the second client is not accepted. -/
def twoClients : List (Action Char) :=
  [.select (some (false, true)) noon, .accept true, .recv (some "time".toList), .send true,
    .select (some (false, true)) noon]

theorem descriptors_used_up_two :
    ∃ log s, (server 6).Reach System.Anything (start (List.replicate 16 'x') : State Char) log s ∧
      (connections log = [5] ∧ s.pc = .accepting noon) ∧
      ¬ ∃ t, step 6 s (.accept true) = some t := by
  obtain ⟨log, s, run, fds, pc⟩ :=
    System.exists_reach (server 6) System.Anything (start (List.replicate 16 'x') : State Char)
      twoClients (fun log s => connections log = [5] ∧ s.pc = .accepting noon) (by decide)
  refine ⟨log, s, run, ⟨fds, pc⟩, ?_⟩
  rw [(descriptors_used_up run).2.2 noon pc, fds]
  decide

end EltexCourse.Guarantees.TimeServer.Rounds
