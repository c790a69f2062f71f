import EltexCourse.Guarantees.Chat.Tables

/-!
# Who shuts a client down

A client stops on a line "!exit" from anywhere: the comparison is made with what
`strtok` finds before '>', and the sender of the text is not looked at. The
input loop keeps only a line that is "!exit" as a whole from being broadcast. So
a client is safe from the others as long as nobody types another line whose
first field before '>' is "!exit"; such a line stops every member it is sent to,
and every newcomer it is replayed to. A nickname can become such a line, too, when
`message_hendler` looks for its own tokens in the middle of a request.
-/

set_option autoImplicit false

namespace EltexCourse.Guarantees.Chat.Shutdown
open Foundations.CString Foundations.Decimal Foundations.Transition
open Source.Chat Source.Chat.MessageQueue Traffic Requests

/-- Pids are above 2 and nicknames words. Apart from "!exit" itself no line is
typed that has "!exit" before its first '>', leading '>' aside. -/
def NoCommand (s : State) : Action → Prop
  | .type _ line => line = exitLine ∨ (strtok ['>'] line).1 ≠ some exitLine
  | a => Named s a

/-- And each thread of the server takes its texts apart undisturbed. -/
def Guarded (s : State) (a : Action) : Prop := NoCommand s a ∧ Apart s a

instance (s : State) : (a : Action) → Decidable (NoCommand s a)
  | .type _ line =>
    inferInstanceAs (Decidable (line = exitLine ∨ (strtok ['>'] line).1 ≠ some exitLine))
  | .start pid nick => inferInstanceAs (Decidable (Named s (.start pid nick)))
  | .leave _ | .wake _ | .poll _ | .members | .message => inferInstanceAs (Decidable True)

instance (s : State) (a : Action) : Decidable (Guarded s a) :=
  inferInstanceAs (Decidable (_ ∧ _))

/-- A client's `message_handler` does not stop on this text. -/
def Harmless (mtext : Text) : Prop := messageHandlerTokens mtext ≠ some .exit

/-- `message_hendler` has still to look for the line behind its marker. -/
def Reading : MessagePc → Prop
  | .broadcast _ _ | .line _ => True
  | _ => False

/-- A text with the marker of a line stops its reader exactly when its first field
before '>' is the command. -/
theorem messageHandler_exit {mtext cursor : Text}
    (marker : strtok [' '] mtext = (some ['3'], cursor)) :
    messageHandlerTokens mtext = some .exit ↔ (strtok ['>'] cursor).1 = some exitLine := by
  simp only [messageHandlerTokens, marker]
  rw [if_neg (by decide), if_neg (by decide)]
  rcases strtok ['>'] cursor with ⟨_ | line, rest⟩
  · simp
  · by_cases command : line = exitLine
    · simp [command]
    · simp only [command, if_false, Option.some.injEq, iff_false]
      split <;> simp

theorem harmless_lineText {line : Text} (plain : (strtok ['>'] line).1 ≠ some exitLine)
    (pid : Int) :
    Harmless (lineText 3 line pid) := by
  rw [Harmless, Ne, messageHandler_exit (strtok_lineText 3 line pid),
    strtok_append_delim (by simp), strtok_word_end (printInt_ne_nil pid)
      (printInt_outside (by decide))]
  have number : printInt pid ≠ exitLine := by
    intro same
    have mark : '!' ∈ printInt pid := by rw [same]; decide
    exact @printInt_outside pid ['!'] (by decide) '!' mark (by simp)
  cases first : (strtok ['>'] line).1 with
  | none => simpa using number
  | some token => simpa [first] using plain

structure Invariant (s : State) : Prop where
  tables : Tables.Invariant s
  queued : ∀ p, 2 < p → ∀ mtext ∈ s.queue p, Harmless mtext
  lines : ∀ mtext ∈ s.queue 2, Marked '3' mtext → Harmless mtext
  line : ∀ i raw, s.server.messagePc = .broadcast i raw → Harmless raw
  request : ∀ i raw, s.server.membersPc = .broadcast i raw → Harmless raw
  /-- While a request is taken apart the cursor is in it. -/
  cursor : Reading s.server.messagePc → s.server.membersPc.parsing = none →
    (strtok ['>'] s.server.strtokCursor).1 ≠ some exitLine
  split : ∀ line raw, s.server.messagePc = .number line raw → line ≠ exitLine
  adding : ∀ entry, s.server.messagePc = .add entry → entry.line ≠ exitLine
  stored : ∀ entry ∈ s.server.messages, entry.line ≠ exitLine
  running : ∀ p, (s.clients p).main = .running → (s.clients p).exitFlag = false

theorem invariant_initial : Invariant initial := by
  refine ⟨Tables.invariant_initial, ?_, ?_, ?_, ?_, ?_, ?_, ?_, ?_, ?_⟩
  · exact fun _ _ mtext inside => absurd inside List.not_mem_nil
  · exact fun mtext inside => absurd inside List.not_mem_nil
  · exact fun i raw pc => MessagePc.noConfusion pc
  · exact fun i raw pc => MembersPc.noConfusion pc
  · exact fun reading => absurd reading (by simp [initial, Server.initial, Reading])
  · exact fun line raw pc => MessagePc.noConfusion pc
  · exact fun entry pc => MessagePc.noConfusion pc
  · exact fun entry inside => absurd inside List.not_mem_nil
  · exact fun p running => MainPc.noConfusion running

/-- Whatever is sent to a client is harmless. -/
theorem harmless_sent {s : State} {a : Action} {p : Int} {mtext : Text} (inv : Invariant s)
    (origin : Sends s a p mtext) : Harmless mtext := by
  have readable := inv.tables.orderly.readable
  cases origin with
  | exit => simp [Harmless, messageHandler_exitWord]
  | member pc found flag =>
    simp [Harmless, (readable.members _ (List.mem_of_getElem? found)).text]
  | history pc found =>
    have inside := List.mem_of_getElem? found
    simp [Harmless, (readable.messages _ inside).text, inv.stored _ inside]
  | request pc found => exact inv.request _ _ pc
  | line pc found => exact inv.line _ _ pc

/-- Whatever a step puts into a client's queue is harmless, given that the texts the
server holds are. -/
theorem queued_step {s t : State} {a : Action} (inv : Invariant s) (stepped : step s a = some t)
    {p : Int} (client : 2 < p) : ∀ mtext ∈ t.queue p, Harmless mtext := by
  have queued := inv.queued p client
  cases client_move inv.tables.orderly.untouched stepped client with
  | still tables queue => rwa [queue]
  | sent origin tables queue =>
    intro mtext inside
    rw [queue] at inside
    rcases List.mem_append.mp inside with old | isNew
    · exact queued mtext old
    · exact List.mem_singleton.mp isNew ▸ harmless_sent inv origin
  | read present head queue isClient =>
    intro mtext inside
    exact queued mtext (by rw [head, ← queue]; simp [inside])

theorem process_exitFlag {c : Client} {mtext : Text} (harmless : Harmless mtext) :
    (c.process mtext).exitFlag = c.exitFlag := by
  unfold Client.process
  unfold Harmless at harmless
  cases tokens : messageHandlerTokens mtext with
  | none => rfl
  | some notice =>
    cases notice with
    | leave id =>
      dsimp only
      split <;> rfl
    | join line id => rfl
    | exit => exact absurd tokens harmless
    | chat line id => rfl

/-- The request that is broadcast, a join or a leave, is not marked as a line. -/
theorem request_members {s : State} {server : Server} {queue : Queue} (inv : Invariant s)
    (moved : MembersMove s.server s.queue server queue) :
    ∀ i raw, server.membersPc = .broadcast i raw → Harmless raw := by
  intro j text after
  cases moved with
  | crash | tokenCrash => exact inv.request j text after
  | leaveNumber pc found =>
    obtain ⟨_, rfl⟩ := MembersPc.broadcast.inj after
    obtain ⟨_, _, notice, _⟩ := (inv.tables.orderly.parsing (by rw [pc]; rfl)).takeLeave
      (inv.tables.orderly.takeLeave pc found)
    simp [Harmless, notice]
  | @register i member raw pc =>
    obtain ⟨_, rfl⟩ := MembersPc.broadcast.inj after
    have joining : s.server.membersPc.newcomer = some member := by simp [pc, MembersPc.newcomer]
    have join : raw = memberText member := by simpa [Tables.InHand, pc] using inv.tables.inHand
    rw [Harmless, join, (inv.tables.orderly.readable.newcomer member joining).1.text]
    simp
  | broadcast pc found =>
    obtain ⟨_, rfl⟩ := MembersPc.broadcast.inj after
    exact inv.request _ _ pc
  | takeLeave | takeJoin | leaveName | joinName | joinNumber | shareMember | shareMembersEnd
  | shareMessage | shareMessagesEnd | broadcastEnd | goOn | unlock | clear | exit => cases after

theorem invariant_members {s : State} {server : Server} {queue : Queue} (inv : Invariant s)
    (tables : Tables.Invariant { s with server, queue })
    (queued : ∀ p, 2 < p → ∀ mtext ∈ queue p, Harmless mtext)
    (moved : MembersMove s.server s.queue server queue) : Invariant { s with server, queue } := by
  obtain ⟨messages, messagePc⟩ := membersMove_untouched moved
  refine ⟨tables, queued, ?_, messagePc ▸ inv.line, request_members inv moved, ?_,
    messagePc ▸ inv.split, messagePc ▸ inv.adding, messages ▸ inv.stored, inv.running⟩
  · intro mtext (inside : mtext ∈ queue 2) marked
    rcases membersMove_sends moved (p := 2) (by decide) with same | ⟨new, origin, added⟩
    · exact inv.lines mtext (same ▸ inside) marked
    · rw [added] at inside
      rcases List.mem_append.mp inside with old | isNew
      · exact inv.lines mtext old marked
      · exact List.mem_singleton.mp isNew ▸ harmless_sent inv origin
  · intro reading taken
    rcases cursor_members inv.tables.orderly moved taken with ⟨same, before⟩ | empty
    · exact same ▸ inv.cursor (messagePc ▸ reading) before
    · simp [empty]

/-- Any turn of `message_hendler`. What it stores is the first field of the line it
broadcasts, for which its three `strtok` calls have to see one text. -/
theorem invariant_message {s : State} {server : Server} {queue : Queue} (inv : Invariant s)
    (apart : MembersApart s .message) (tables : Tables.Invariant { s with server, queue })
    (queued : ∀ p, 2 < p → ∀ mtext ∈ queue p, Harmless mtext)
    (moved : MessageMove s.server s.queue server queue) : Invariant { s with server, queue } := by
  have orderly := inv.tables.orderly
  have lines : ∀ mtext ∈ queue 2, Marked '3' mtext → Harmless mtext :=
    fun mtext inside => inv.lines mtext (orderly.lines_message moved mtext inside)
  have request : ∀ i raw, server.membersPc = .broadcast i raw → Harmless raw :=
    fun i raw pc => inv.request i raw (messageMove_membersPc moved ▸ pc)
  cases moved with
  | crash | tokenCrash => exact { inv with tables, queued, lines, request }
  | @takeLine raw cursor marker rest pc head found isLine =>
    have taken : raw ∈ s.queue 2 := by simp [head]
    have marked : marker = ['3'] := by
      rcases orderly.lines raw taken with three | four
      · simpa [Marked, found] using three
      · exact absurd (by simpa [Marked, found] using four) isLine
    have harmless := inv.lines raw taken (by simp [Marked, found, marked])
    refine { inv with tables, queued, lines, request, line := ?_, cursor := ?_, split := by simp,
                      adding := by simp }
    · intro i text inHand
      obtain ⟨_, rfl⟩ := MessagePc.broadcast.inj inHand
      exact harmless
    · intro _ _ command
      rw [← messageHandler_exit (marked ▸ found)] at command
      exact harmless command
  | @broadcast i entry raw pc found =>
    refine { inv with tables, queued, lines, request, line := ?_, split := by simp,
                      adding := by simp, cursor := fun _ => inv.cursor (by simp [pc, Reading]) }
    intro j text inHand
    obtain ⟨_, rfl⟩ := MessagePc.broadcast.inj inHand
    exact inv.line i raw pc
  | broadcastEnd pc =>
    exact { inv with tables, queued, lines, request, line := by simp, split := by simp,
                     adding := by simp, cursor := fun _ => inv.cursor (by simp [pc, Reading]) }
  | @line raw line cursor pc found =>
    refine { inv with tables, queued, lines, request, line := by simp, split := ?_,
                      adding := by simp, cursor := fun reading => reading.elim }
    intro first text after command
    obtain ⟨rfl, _⟩ := MessagePc.number.inj after
    have plain := inv.cursor (by simp [pc, Reading]) (apart rfl (by rw [pc]; rfl))
    rw [found, command] at plain
    exact plain rfl
  | number pc found =>
    refine { inv with tables, queued, lines, request, line := by simp, split := by simp,
                      adding := ?_, cursor := fun reading => reading.elim }
    intro entry after
    obtain rfl := MessagePc.add.inj after
    exact inv.split _ _ pc
  | @add entry pc =>
    refine { inv with tables, queued, lines, request, line := by simp, split := by simp,
                      adding := by simp, cursor := fun reading => reading.elim, stored := ?_ }
    intro other inside
    rcases List.mem_append.mp inside with old | isNew
    · exact inv.stored other old
    · exact List.mem_singleton.mp isNew ▸ inv.adding entry pc
  | takeWake | goOn | exit | wakeEmpty | wakeOther =>
    exact { inv with tables, queued, lines, request, line := by simp, split := by simp,
                     adding := by simp, cursor := fun reading => reading.elim }

theorem NoCommand.named {s : State} {a : Action} (allowed : NoCommand s a) : Named s a := by
  cases a with
  | type pid line => trivial
  | start | leave | wake | poll | members | message => exact allowed

theorem running_update {clients : Int → Client} {pid : Int} {c : Client}
    (running : ∀ p, (clients p).main = .running → (clients p).exitFlag = false)
    (own : c.main = .running → c.exitFlag = false) :
    ∀ p, (Function.update clients pid c p).main = .running →
      (Function.update clients pid c p).exitFlag = false := by
  intro p
  by_cases same : p = pid
  · subst same
    rwa [Function.update_self]
  · rw [Function.update_of_ne same]
    exact running p

/-- A client's step. -/
theorem Invariant.aside {s t : State} (inv : Invariant s) (tables : Tables.Invariant t)
    (queued : ∀ p, 2 < p → ∀ mtext ∈ t.queue p, Harmless mtext) (server : t.server = s.server)
    (lines : ∀ mtext ∈ t.queue 2, Marked '3' mtext → Harmless mtext)
    (running : ∀ p, (t.clients p).main = .running → (t.clients p).exitFlag = false) :
    Invariant t :=
  ⟨tables, queued, lines, server ▸ inv.line, server ▸ inv.request, server ▸ inv.cursor,
    server ▸ inv.split, server ▸ inv.adding, server ▸ inv.stored, running⟩

theorem invariant_step {s t : State} {a : Action} (inv : Invariant s) (allowed : Guarded s a)
    (stepped : step s a = some t) : Invariant t := by
  obtain ⟨noCommand, apart⟩ := allowed
  have tables := Tables.invariant_step inv.tables ⟨noCommand.named, apart⟩ stepped
  have queued (p : Int) (client : 2 < p) := queued_step inv stepped client
  have pids := inv.tables.orderly.pids
  have sent {new : Text} (harmless : Marked '3' new → Harmless new) :
      ∀ mtext ∈ msgsnd s.queue 2 new 2, Marked '3' mtext → Harmless mtext := by
    intro mtext inside
    rw [msgsnd_self (by decide)] at inside
    rcases List.mem_append.mp inside with old | isNew
    · exact inv.lines mtext old
    · exact List.mem_singleton.mp isNew ▸ harmless
  cases step_move stepped with
  | start => exact inv.aside tables queued rfl inv.lines (running_update inv.running fun _ => rfl)
  | @say pid line running healthy other =>
    refine inv.aside tables queued rfl (sent fun _ => ?_) inv.running
    exact harmless_lineText (noCommand.resolve_left other) pid
  | @quit pid running healthy =>
    refine inv.aside tables queued rfl ?_
      (running_update inv.running fun running => MainPc.noConfusion running)
    intro mtext (inside : mtext ∈ msgsnd s.queue pid (exitText pid) 2)
    have client := pids pid (by simp [running])
    rw [msgsnd_of_ne (by omega)] at inside
    exact inv.lines mtext inside
  | leave =>
    exact inv.aside tables queued rfl inv.lines
      (running_update inv.running fun running => MainPc.noConfusion running)
  | @wake pid left =>
    refine inv.aside tables queued rfl (sent fun three => ?_)
      (running_update inv.running fun running => MainPc.noConfusion running)
    simp [Marked, strtok_lineText, printInt_four] at three
  | look =>
    exact inv.aside tables queued rfl inv.lines (running_update inv.running (inv.running _))
  | @hear pid mtext rest present healthy head =>
    have client := pids pid present
    refine inv.aside tables queued rfl ?_ (running_update inv.running ?_)
    · intro other (inside : other ∈ Function.update s.queue pid rest 2)
      rw [Function.update_of_ne (by omega)] at inside
      exact inv.lines other inside
    · rw [process_main, process_exitFlag (inv.queued pid client mtext (by simp [head]))]
      exact inv.running pid
  | members running moved => exact invariant_members inv tables queued moved
  | message running moved => exact invariant_message inv apart.1 tables queued moved

/-- In every run in which nobody types a command for the others, and in which each
thread leaves the cursor alone while the other one takes a text apart, a client whose
own user has not typed "!exit" keeps running. -/
theorem only_own_user_stops {log : List Action} {s : State}
    (run : system.Reach Guarded initial log s) {p : Int}
    (running : (s.clients p).main = .running) : (s.clients p).exitFlag = false :=
  (run.stateInvariant Invariant invariant_initial
    fun _ _ _ inv allowed stepped => invariant_step inv allowed stepped).running p running

/-- "a" (3) and "b" (4) join; "a" types a line, which both are sent. -/
def lineFromFirst (line : Text) : List Action :=
  .start 3 ['a'] :: List.replicate 9 .members ++
  .start 4 ['b'] :: List.replicate 11 .members ++
  .type 3 line :: List.replicate 8 .message

theorem only_own_user_stops_quoted :
    ∃ log s, system.Reach Guarded initial log s ∧
      (s.clients 4).messages = [⟨['n', 'o', ' ', '!', 'e', 'x', 'i', 't'], 3, 0⟩] ∧
      (s.clients 4).exitFlag = false := by
  obtain ⟨log, s, run, running, read⟩ := system.exists_reach Guarded initial
    (lineFromFirst ['n', 'o', ' ', '!', 'e', 'x', 'i', 't'] ++ List.replicate 6 (Action.poll 4))
    (fun _ s => (s.clients 4).main = .running ∧
      (s.clients 4).messages = [⟨['n', 'o', ' ', '!', 'e', 'x', 'i', 't'], 3, 0⟩]) (by decide)
  exact ⟨log, s, run, read, only_own_user_stops run running⟩

/-- "a" types "h", and while it is broadcast 5 joins as "!exit>x". `message_hendler`
takes both its tokens from that join. `members_handler` gets what is left of it for a
nickname, and its number from the line "6 x" of "b". Then "c" (7) joins. -/
def lineFromNickname : List Action :=
  List.flatten [lineFromFirst ['h'] |>.dropLast.dropLast.dropLast,
    [.start 5 (exitLine ++ ['>', 'x']), .members, .message, .message, .message, .members,
      .type 4 ['6', ' ', 'x'], .message, .message, .members],
    List.replicate 6 .message, List.replicate 12 .members,
    .start 7 ['c'] :: List.replicate 17 .members, List.replicate 8 (.poll 7)]

/-- "c" is replayed the line "!exit" that nobody has typed. -/
theorem stopped_by_nickname :
    ∃ log s, system.Reach NoCommand initial log s ∧
      (s.clients 7).main = .running ∧ (s.clients 7).exitFlag = true := by
  obtain ⟨log, s, run, stopped⟩ := system.exists_reach NoCommand initial lineFromNickname
    (fun _ s => (s.clients 7).main = .running ∧ (s.clients 7).exitFlag = true) (by decide +kernel)
  exact ⟨log, s, run, stopped⟩

/-- The user of "a" types "!exit>". It stops "b", who is online, and later "c"
(5), to whom it is replayed as "3 !exit>0". And nobody has to type anything for a
nickname to stop a client. -/
theorem others_stopped :
    (∃ log s, system.Reach Named initial log s ∧
      (s.clients 4).main = .running ∧ (s.clients 4).exitFlag = true ∧
      (s.clients 5).main = .running ∧ (s.clients 5).exitFlag = true) ∧
    ∃ log s, system.Reach NoCommand initial log s ∧
      (s.clients 7).main = .running ∧ (s.clients 7).exitFlag = true := by
  refine ⟨?_, stopped_by_nickname⟩
  obtain ⟨log, s, run, stopped⟩ := system.exists_reach Named initial
    (List.flatten [lineFromFirst (exitLine ++ ['>']), List.replicate 6 (.poll 4),
      .start 5 ['c'] :: List.replicate 14 .members, List.replicate 6 (.poll 5)])
    (fun _ s => (s.clients 4).main = .running ∧ (s.clients 4).exitFlag = true ∧
      (s.clients 5).main = .running ∧ (s.clients 5).exitFlag = true) (by decide)
  exact ⟨log, s, run, stopped⟩

end EltexCourse.Guarantees.Chat.Shutdown
