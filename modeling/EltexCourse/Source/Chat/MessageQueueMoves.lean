import EltexCourse.Source.Chat.MessageQueue

/-!
# What a step of task13/chat can do

Each step function inverted once: `MembersMove` and `MessageMove` list the turns
of the two server threads with the tests they passed, `Move` the steps of the
whole system. Proofs about runs go by cases on these.
-/

set_option autoImplicit false

namespace EltexCourse.Source.Chat.MessageQueue
open Foundations.CString Foundations.Decimal Foundations.Transition

@[simp] theorem msgsnd_self {q : Queue} {mtype : Int} (positive : 0 < mtype) (mtext : Text) :
    msgsnd q mtype mtext mtype = q mtype ++ [mtext] := by
  simp [msgsnd, positive]

/-- A message for one type is not seen by those who read another. -/
theorem msgsnd_of_ne {q : Queue} {mtype other : Int} (different : other ≠ mtype) (mtext : Text) :
    msgsnd q mtype mtext other = q other := by
  unfold msgsnd
  split
  · exact Function.update_of_ne different _ _
  · rfl

/-- A `msgsnd` adds its text to one type, or to none. -/
theorem msgsnd_cases (q : Queue) (mtype other : Int) (mtext : Text) :
    msgsnd q mtype mtext other = q other ∨
      (other = mtype ∧ 0 < mtype ∧ msgsnd q mtype mtext other = q other ++ [mtext]) := by
  by_cases same : other = mtype
  · subst same
    by_cases positive : 0 < other
    · exact Or.inr ⟨rfl, positive, msgsnd_self positive mtext⟩
    · exact Or.inl (by simp [msgsnd, positive])
  · exact Or.inl (msgsnd_of_ne same mtext)

/-- `msgrcv` takes the oldest message of its type and leaves the other types alone. -/
theorem msgrcv_some {q q' : Queue} {mtype : Int} {mtext : Text}
    (received : msgrcv q mtype = some (mtext, q')) :
    ∃ rest, q mtype = mtext :: rest ∧ q' = Function.update q mtype rest := by
  unfold msgrcv at received
  split at received
  · cases received
  next head rest queued =>
    cases received
    exact ⟨rest, queued, rfl⟩

/-- A call of `strtok` for the next token either comes back with NULL, which the code
does not look at, or moves the cursor behind the token. -/
theorem nextToken_cases (s : Server) (delims : List Char) (taken : Server → Text → Server) :
    ((strtok delims s.strtokCursor).1 = none ∧
      s.nextToken delims taken = { s with crashed := true }) ∨
    ∃ token cursor, strtok delims s.strtokCursor = (some token, cursor) ∧
      s.nextToken delims taken = taken { s with strtokCursor := cursor } token := by
  unfold Server.nextToken
  split
  next cursor missing => exact Or.inl ⟨congrArg Prod.fst missing, rfl⟩
  next token cursor found => exact Or.inr ⟨token, cursor, found, rfl⟩

/-- While a request is taken apart the table is in use, and nobody is in hand. -/
theorem parsing_serving {pc : MembersPc} {raw : Text} (parsing : pc.parsing = some raw) :
    pc.Serving ∧ pc.newcomer = none := by
  cases pc <;> simp_all [MembersPc.parsing, MembersPc.newcomer, MembersPc.Serving]

inductive MembersMove (s : Server) (q : Queue) : Server → Queue → Prop where
  | crash {raw : Text} {rest : List Text} (pc : s.membersPc = .receive) (head : q 1 = raw :: rest)
      (broken : (strtok [' '] raw).1 = none) :
      MembersMove s q { s with crashed := true } (Function.update q 1 rest)
  | takeLeave {raw cursor : Text} {rest : List Text} (pc : s.membersPc = .receive)
      (head : q 1 = raw :: rest) (found : strtok [' '] raw = (some ['0'], cursor)) :
      MembersMove s q { s with strtokCursor := cursor, membersPc := .leaveName raw }
        (Function.update q 1 rest)
  | takeJoin {raw cursor marker : Text} {rest : List Text} (pc : s.membersPc = .receive)
      (head : q 1 = raw :: rest) (found : strtok [' '] raw = (some marker, cursor))
      (other : marker ≠ ['0']) :
      MembersMove s q { s with strtokCursor := cursor, membersPc := .joinName raw }
        (Function.update q 1 rest)
  /-- A token that is missing, or a leave of nobody. -/
  | tokenCrash {raw cursor : Text} (pc : s.membersPc.parsing = some raw)
      (broken : (strtok [' '] s.strtokCursor).1 = none ∨ ∃ number rest,
        s.membersPc = .leaveNumber raw ∧ strtok [' '] s.strtokCursor = (some number, rest) ∧
          s.accounts.leave (atoi number) = none) :
      MembersMove s q { s with strtokCursor := cursor, crashed := true } q
  | leaveName {raw : Text} (pc : s.membersPc = .leaveName raw) :
      MembersMove s q
        { s with
          strtokCursor := (strtok [' '] s.strtokCursor).2, membersPc := .leaveNumber raw } q
  | leaveNumber {raw cursor number : Text} {accounts : Accounts}
      (pc : s.membersPc = .leaveNumber raw)
      (found : strtok [' '] s.strtokCursor = (some number, cursor))
      (marked : s.accounts.leave (atoi number) = some accounts) :
      MembersMove s q { s with accounts, strtokCursor := cursor, membersPc := .broadcast 0 raw } q
  | joinName {raw cursor line : Text} (pc : s.membersPc = .joinName raw)
      (found : strtok [' '] s.strtokCursor = (some line, cursor)) :
      MembersMove s q { s with strtokCursor := cursor, membersPc := .joinNumber line raw } q
  | joinNumber {raw cursor line number : Text} (pc : s.membersPc = .joinNumber line raw)
      (found : strtok [' '] s.strtokCursor = (some number, cursor)) :
      MembersMove s q
        { s with
          strtokCursor := cursor, membersPc := .shareMembers 0 ⟨line, atoi number, 1⟩ raw } q
  | shareMember {i : Nat} {member entry : DataArr} {raw : Text}
      (pc : s.membersPc = .shareMembers i member raw) (found : s.members[i]? = some entry) :
      MembersMove s q { s with membersPc := .shareMembers (i + 1) member raw }
        (if entry.isOnline ≠ 0 then msgsnd q member.id (memberText entry) else q)
  | shareMembersEnd {i : Nat} {member : DataArr} {raw : Text}
      (pc : s.membersPc = .shareMembers i member raw) (done : s.members.length ≤ i) :
      MembersMove s q { s with membersPc := .shareMessages 0 member raw } q
  | shareMessage {i : Nat} {member entry : DataArr} {raw : Text}
      (pc : s.membersPc = .shareMessages i member raw) (found : s.messages[i]? = some entry) :
      MembersMove s q { s with membersPc := .shareMessages (i + 1) member raw }
        (msgsnd q member.id (historyText entry))
  | shareMessagesEnd {i : Nat} {member : DataArr} {raw : Text}
      (pc : s.membersPc = .shareMessages i member raw) (done : s.messages.length ≤ i) :
      MembersMove s q { s with membersPc := .register i member raw } q
  | register {i : Nat} {member : DataArr} {raw : Text}
      (pc : s.membersPc = .register i member raw) :
      MembersMove s q
        { s with accounts := (s.accounts.add member).count, membersPc := .broadcast 0 raw } q
  | broadcast {i : Nat} {entry : DataArr} {raw : Text}
      (pc : s.membersPc = .broadcast i raw) (found : s.members[i]? = some entry) :
      MembersMove s q { s with membersPc := .broadcast (i + 1) raw } (msgsnd q entry.id raw)
  | broadcastEnd {i : Nat} {raw : Text}
      (pc : s.membersPc = .broadcast i raw) (done : s.members.length ≤ i) :
      MembersMove s q { s with membersPc := .decide } q
  | goOn (pc : s.membersPc = .decide) (somebody : 0 < s.accounts.membersOnline) :
      MembersMove s q { s with membersPc := .receive } q
  | unlock (pc : s.membersPc = .decide) (nobody : s.accounts.membersOnline ≤ 0) :
      MembersMove s q { s with membersPc := .unlocked } q
  | clear (pc : s.membersPc = .unlocked) :
      MembersMove s q
        { s with accounts := { s.accounts with members := [] }, membersPc := .cleared } q
  | exit (pc : s.membersPc = .cleared) :
      MembersMove s q { s with exitFlag := true, membersPc := .stopped } q

theorem membersReceive_move {s s' : Server} {q q' : Queue} (pc : s.membersPc = .receive)
    (stepped : membersReceive s q = some (s', q')) : MembersMove s q s' q' := by
  unfold membersReceive at stepped
  split at stepped
  · cases stepped
  next raw q₁ received =>
    obtain ⟨rest, head, rfl⟩ := msgrcv_some received
    split at stepped
    next cursor missing =>
      cases stepped
      exact .crash pc head (congrArg Prod.fst missing)
    next marker cursor found =>
      cases stepped
      split
      next leaves =>
        subst leaves
        exact .takeLeave pc head found
      next other => exact .takeJoin pc head found other

/-- Every turn of `members_handler` is one of the moves listed, with all that the code
has tested. -/
theorem membersHandler_move {s s' : Server} {q q' : Queue}
    (stepped : membersHandler s q = some (s', q')) : MembersMove s q s' q' := by
  unfold membersHandler at stepped
  split at stepped
  next pc => exact membersReceive_move pc stepped
  next raw pc =>
    cases stepped
    exact .leaveName pc
  next raw pc =>
    rcases nextToken_cases s [' '] (Server.leave raw) with ⟨missing, crash⟩ |
      ⟨number, cursor, found, leave⟩
    · rw [crash] at stepped
      cases stepped
      exact .tokenCrash (by rw [pc]; rfl) (.inl missing)
    · rw [leave, Server.leave] at stepped
      split at stepped
      next unmarked =>
        cases stepped
        exact .tokenCrash (by rw [pc]; rfl) (.inr ⟨number, cursor, pc, found, unmarked⟩)
      next accounts marked =>
        cases stepped
        exact .leaveNumber pc found marked
  next raw pc =>
    rcases nextToken_cases s [' '] fun s line => { s with membersPc := .joinNumber line raw } with
      ⟨missing, crash⟩ | ⟨line, cursor, found, goesOn⟩
    · rw [crash] at stepped
      cases stepped
      exact .tokenCrash (by rw [pc]; rfl) (.inl missing)
    · rw [goesOn] at stepped
      cases stepped
      exact .joinName pc found
  next line raw pc =>
    rcases nextToken_cases s [' '] fun s token =>
        { s with membersPc := .shareMembers 0 ⟨line, atoi token, 1⟩ raw } with
      ⟨missing, crash⟩ | ⟨number, cursor, found, goesOn⟩
    · rw [crash] at stepped
      cases stepped
      exact .tokenCrash (by rw [pc]; rfl) (.inl missing)
    · rw [goesOn] at stepped
      cases stepped
      exact .joinNumber pc found
  next i member raw pc =>
    split at stepped
    next done =>
      cases stepped
      exact .shareMembersEnd pc (List.getElem?_eq_none_iff.mp done)
    next entry found =>
      cases stepped
      exact .shareMember pc found
  next i member raw pc =>
    split at stepped
    next done =>
      cases stepped
      exact .shareMessagesEnd pc (List.getElem?_eq_none_iff.mp done)
    next entry found =>
      cases stepped
      exact .shareMessage pc found
  next i member raw pc =>
    cases stepped
    exact .register pc
  next i raw pc =>
    split at stepped
    next done =>
      cases stepped
      exact .broadcastEnd pc (List.getElem?_eq_none_iff.mp done)
    next entry found =>
      cases stepped
      exact .broadcast pc found
  next pc =>
    split at stepped
    next nobody =>
      cases stepped
      exact .unlock pc nobody
    next somebody =>
      cases stepped
      exact .goOn pc (by omega)
  next pc =>
    cases stepped
    exact .clear pc
  next pc =>
    cases stepped
    exact .exit pc
  next => cases stepped

inductive MessageMove (s : Server) (q : Queue) : Server → Queue → Prop where
  | crash {raw : Text} {rest : List Text} (pc : s.messagePc = .receive) (head : q 2 = raw :: rest)
      (broken : (strtok [' '] raw).1 = none) :
      MessageMove s q { s with crashed := true } (Function.update q 2 rest)
  | takeWake {raw cursor : Text} {rest : List Text} (pc : s.messagePc = .receive)
      (head : q 2 = raw :: rest) (marker : strtok [' '] raw = (some ['4'], cursor)) :
      MessageMove s q { s with strtokCursor := cursor, messagePc := .wake }
        (Function.update q 2 rest)
  | takeLine {raw cursor marker : Text} {rest : List Text} (pc : s.messagePc = .receive)
      (head : q 2 = raw :: rest) (found : strtok [' '] raw = (some marker, cursor))
      (line : marker ≠ ['4']) :
      MessageMove s q { s with strtokCursor := cursor, messagePc := .broadcast 0 raw }
        (Function.update q 2 rest)
  | goOn (pc : s.messagePc = .test) (flag : s.exitFlag = false) :
      MessageMove s q { s with messagePc := .receive } q
  | exit (pc : s.messagePc = .test) (flag : s.exitFlag = true) :
      MessageMove s q { s with messagePc := .stopped } q
  | wakeEmpty (pc : s.messagePc = .wake) (unlocked : s.membersPc.locked = false)
      (empty : s.members = []) : MessageMove s q { s with messagePc := .stopped } q
  | wakeOther (pc : s.messagePc = .wake) (unlocked : s.membersPc.locked = false)
      (somebody : s.members ≠ []) : MessageMove s q { s with messagePc := .test } q
  | broadcast {i : Nat} {entry : DataArr} {raw : Text}
      (pc : s.messagePc = .broadcast i raw) (found : s.members[i]? = some entry) :
      MessageMove s q { s with messagePc := .broadcast (i + 1) raw } (msgsnd q entry.id raw)
  | broadcastEnd {i : Nat} {raw : Text}
      (pc : s.messagePc = .broadcast i raw) (done : s.members.length ≤ i) :
      MessageMove s q { s with messagePc := .line raw } q
  | tokenCrash (pc : s.messagePc.splitting = true) : MessageMove s q { s with crashed := true } q
  | line {raw line cursor : Text} (pc : s.messagePc = .line raw)
      (found : strtok ['>'] s.strtokCursor = (some line, cursor)) :
      MessageMove s q { s with strtokCursor := cursor, messagePc := .number line raw } q
  | number {raw line number cursor : Text} (pc : s.messagePc = .number line raw)
      (found : strtok [' '] s.strtokCursor = (some number, cursor)) :
      MessageMove s q
        { s with strtokCursor := cursor, messagePc := .add ⟨line, atoi number, 0⟩ } q
  | add {entry : DataArr} (pc : s.messagePc = .add entry) :
      MessageMove s q { s with messages := dataAdd s.messages entry, messagePc := .test } q

theorem messageReceive_move {s s' : Server} {q q' : Queue} (pc : s.messagePc = .receive)
    (stepped : messageReceive s q = some (s', q')) : MessageMove s q s' q' := by
  unfold messageReceive at stepped
  split at stepped
  · cases stepped
  next raw q₁ received =>
    obtain ⟨rest, head, rfl⟩ := msgrcv_some received
    split at stepped
    next cursor missing =>
      cases stepped
      exact .crash pc head (congrArg Prod.fst missing)
    next marker cursor found =>
      split at stepped
      next wake =>
        subst wake
        cases stepped
        exact .takeWake pc head found
      next line =>
        cases stepped
        exact .takeLine pc head found line

theorem messageHendler_move {s s' : Server} {q q' : Queue}
    (stepped : messageHendler s q = some (s', q')) : MessageMove s q s' q' := by
  unfold messageHendler at stepped
  split at stepped
  next pc =>
    split at stepped
    next flag =>
      cases stepped
      exact .exit pc flag
    next flag =>
      cases stepped
      exact .goOn pc (by simpa using flag)
  next pc => exact messageReceive_move pc stepped
  next pc =>
    split at stepped
    · cases stepped
    next unlocked =>
      have unlocked : s.membersPc.locked = false := by simpa using unlocked
      split at stepped
      next empty =>
        cases stepped
        exact .wakeEmpty pc unlocked empty
      next somebody =>
        cases stepped
        exact .wakeOther pc unlocked somebody
  next i raw pc =>
    split at stepped
    next done =>
      cases stepped
      exact .broadcastEnd pc (List.getElem?_eq_none_iff.mp done)
    next entry found =>
      cases stepped
      exact .broadcast pc found
  next raw pc =>
    rcases nextToken_cases s ['>'] fun s line => { s with messagePc := .number line raw } with
      ⟨missing, crash⟩ | ⟨line, cursor, found, goesOn⟩
    · rw [crash] at stepped
      cases stepped
      exact .tokenCrash (by rw [pc]; rfl)
    · rw [goesOn] at stepped
      cases stepped
      exact .line pc found
  next line raw pc =>
    rcases nextToken_cases s [' '] fun s token =>
        { s with messagePc := .add ⟨line, atoi token, 0⟩ } with
      ⟨missing, crash⟩ | ⟨number, cursor, found, goesOn⟩
    · rw [crash] at stepped
      cases stepped
      exact .tokenCrash (by rw [pc]; rfl)
    · rw [goesOn] at stepped
      cases stepped
      exact .number pc found
  next entry pc =>
    cases stepped
    exact .add pc
  next => cases stepped

/-- A table given up stays given up. -/
theorem membersMove_serving {s s' : Server} {q q' : Queue} (moved : MembersMove s q s' q')
    (serving : s'.membersPc.Serving) : s.membersPc.Serving := by
  cases moved with
  | clear => exact absurd rfl serving.1
  | exit => exact absurd rfl serving.2
  | crash pc | takeLeave pc | takeJoin pc | leaveName pc | leaveNumber pc | joinName pc
  | joinNumber pc | shareMember pc | shareMembersEnd pc | shareMessage pc | shareMessagesEnd pc
  | register pc | broadcast pc | broadcastEnd pc | goOn pc | unlock pc =>
    simp [MembersPc.Serving, pc]
  | tokenCrash => exact serving

/-- Giving it up sends nothing. -/
theorem membersMove_given_up {s s' : Server} {q q' : Queue} (moved : MembersMove s q s' q')
    (stopped : ¬ s'.membersPc.Serving) : q' = q := by
  cases moved with
  | clear | exit | tokenCrash => rfl
  | crash pc => exact absurd (by simp [MembersPc.Serving, pc]) stopped
  | takeLeave | takeJoin | leaveName | leaveNumber | joinName | joinNumber | shareMember
  | shareMembersEnd | shareMessage | shareMessagesEnd | register | broadcast | broadcastEnd | goOn
  | unlock => exact absurd (by simp [MembersPc.Serving]) stopped

/-- `members_handler` leaves the lines and the other thread alone. -/
theorem membersMove_untouched {s s' : Server} {q q' : Queue} (moved : MembersMove s q s' q') :
    s'.messages = s.messages ∧ s'.messagePc = s.messagePc := by
  cases moved <;> exact ⟨rfl, rfl⟩

/-- `message_hendler` leaves the other thread where it is, and the accounts alone. -/
theorem messageMove_membersPc {s s' : Server} {q q' : Queue} (moved : MessageMove s q s' q') :
    s'.membersPc = s.membersPc := by
  cases moved <;> rfl

theorem messageMove_accounts {s s' : Server} {q q' : Queue} (moved : MessageMove s q s' q') :
    s'.accounts = s.accounts := by
  cases moved <;> rfl

/-- What "!exit" sends to its own client: `send_message` looks at the type. -/
def exitText (pid : Int) : Text :=
  if pid = 2 then lineText 3 exitLine pid else wordText 3 exitLine pid

inductive Move (s : State) : Action → State → Prop where
  | start {pid : Int} {nick : Text} (fresh : (s.clients pid).main = .absent) (positive : 0 < pid)
      (fits : IsInt pid) :
      Move s (.start pid nick)
        { s.setClient pid { Client.absent with nick, main := .running } with
          queue := msgsnd s.queue 1 (wordText 1 nick pid) }
  | say {pid : Int} {line : Text} (running : (s.clients pid).main = .running)
      (healthy : (s.clients pid).fault = none) (other : line ≠ exitLine) :
      Move s (.type pid line) { s with queue := msgsnd s.queue 2 (lineText 3 line pid) }
  | quit {pid : Int} (running : (s.clients pid).main = .running)
      (healthy : (s.clients pid).fault = none) :
      Move s (.type pid exitLine)
        { s.setClient pid { s.clients pid with exitFlag := true, main := .leaving } with
          queue := msgsnd s.queue pid (exitText pid) }
  | leave {pid : Int} (leaving : (s.clients pid).main = .leaving)
      (stopped : (s.clients pid).handler = .stopped) :
      Move s (.leave pid)
        { s.setClient pid { s.clients pid with main := .left } with
          queue := msgsnd s.queue 1 (wordText 0 (s.clients pid).nick pid) }
  | wake {pid : Int} (left : (s.clients pid).main = .left) :
      Move s (.wake pid)
        { s.setClient pid { s.clients pid with main := .gone } with
          queue := msgsnd s.queue 2 (lineText 4 (s.clients pid).nick pid) }
  | look {pid : Int} (present : (s.clients pid).main ≠ .absent)
      (healthy : (s.clients pid).fault = none) (handler : HandlerPc) :
      Move s (.poll pid) (s.setClient pid { s.clients pid with handler })
  | hear {pid : Int} {mtext : Text} {rest : List Text} (present : (s.clients pid).main ≠ .absent)
      (healthy : (s.clients pid).fault = none) (head : s.queue pid = mtext :: rest) :
      Move s (.poll pid)
        { s.setClient pid ((s.clients pid).process mtext) with
          queue := Function.update s.queue pid rest }
  | members {server : Server} {queue : Queue} (running : s.server.crashed = false)
      (moved : MembersMove s.server s.queue server queue) :
      Move s .members { s with server, queue }
  | message {server : Server} {queue : Queue} (running : s.server.crashed = false)
      (moved : MessageMove s.server s.queue server queue) :
      Move s .message { s with server, queue }

theorem send_some {s t : State} {pid prio marker : Int} {line : Text}
    (sent : s.send pid line prio marker = some t) :
    t = { s with
      queue := msgsnd s.queue prio
        (if prio = 2 then lineText marker line pid else wordText marker line pid) } := by
  simp only [State.send, sendMessage, Option.map_eq_some_iff] at sent
  obtain ⟨msg, message, rfl⟩ := sent
  obtain ⟨_, isMessage⟩ := Option.ite_none_right_eq_some.mp message
  obtain rfl := Option.some.inj isMessage
  rfl

/-- Every step is a move of one of the two threads or of one client. -/
theorem step_move {s t : State} {a : Action} (stepped : step s a = some t) : Move s a t := by
  cases a with
  | start pid nick =>
    simp only [step] at stepped
    split at stepped
    next guard =>
      obtain ⟨fresh, positive, fits⟩ := guard
      obtain rfl := send_some stepped
      exact .start fresh positive fits
    · cases stepped
  | type pid line =>
    simp only [step] at stepped
    split at stepped
    next guard =>
      obtain ⟨running, healthy, _⟩ := guard
      split at stepped
      next quits =>
        subst quits
        obtain rfl := send_some stepped
        exact .quit running healthy
      next other =>
        obtain rfl := send_some stepped
        exact .say running healthy other
    · cases stepped
  | leave pid =>
    simp only [step] at stepped
    split at stepped
    next guard =>
      obtain ⟨leaving, stopped, _⟩ := guard
      obtain rfl := send_some stepped
      exact .leave leaving stopped
    · cases stepped
  | wake pid =>
    simp only [step] at stepped
    split at stepped
    next left =>
      obtain rfl := send_some stepped
      exact .wake left
    · cases stepped
  | poll pid =>
    simp only [step] at stepped
    split at stepped
    next guard =>
      obtain ⟨present, healthy⟩ := guard
      obtain ⟨⟨client, queue⟩, polled, rfl⟩ := Option.map_eq_some_iff.mp stepped
      unfold pollClient at polled
      split at polled
      · cases polled
        exact .look present healthy _
      · split at polled
        · cases polled
          exact .look present healthy _
        next mtext q received =>
          obtain ⟨rest, head, rfl⟩ := msgrcv_some received
          cases polled
          exact .hear present healthy head
      · cases polled
    · cases stepped
  | members =>
    simp only [step] at stepped
    split at stepped
    · cases stepped
    next running =>
      obtain ⟨⟨server, queue⟩, turned, rfl⟩ := Option.map_eq_some_iff.mp stepped
      exact .members (by simpa using running) (membersHandler_move turned)
  | message =>
    simp only [step] at stepped
    split at stepped
    · cases stepped
    next running =>
      obtain ⟨⟨server, queue⟩, turned, rfl⟩ := Option.map_eq_some_iff.mp stepped
      exact .message (by simpa using running) (messageHendler_move turned)

/-- The texts put into the queue of a client. -/
inductive Sends (s : State) : Action → Int → Text → Prop where
  | exit {p : Int} (running : (s.clients p).main = .running) :
      Sends s (.type p exitLine) p (wordText 3 exitLine p)
  | member {i : Nat} {member entry : DataArr} {raw : Text}
      (pc : s.server.membersPc = .shareMembers i member raw)
      (found : s.server.members[i]? = some entry) (flag : entry.isOnline ≠ 0) :
      Sends s .members member.id (memberText entry)
  | history {i : Nat} {member entry : DataArr} {raw : Text}
      (pc : s.server.membersPc = .shareMessages i member raw)
      (found : s.server.messages[i]? = some entry) :
      Sends s .members member.id (historyText entry)
  | request {i : Nat} {entry : DataArr} {raw : Text} (pc : s.server.membersPc = .broadcast i raw)
      (found : s.server.members[i]? = some entry) : Sends s .members entry.id raw
  | line {i : Nat} {entry : DataArr} {raw : Text} (pc : s.server.messagePc = .broadcast i raw)
      (found : s.server.members[i]? = some entry) : Sends s .message entry.id raw

structure SameTables (c c' : Client) : Prop where
  members : c'.members = c.members
  messages : c'.messages = c.messages
  fault : c'.fault = c.fault

inductive ClientMove (s : State) (a : Action) (t : State) (p : Int) : Prop where
  | still (tables : SameTables (s.clients p) (t.clients p)) (queue : t.queue p = s.queue p)
  | sent {mtext : Text} (origin : Sends s a p mtext)
      (tables : SameTables (s.clients p) (t.clients p)) (queue : t.queue p = s.queue p ++ [mtext])
  | read {mtext : Text} {rest : List Text} (present : (s.clients p).main ≠ .absent)
      (head : s.queue p = mtext :: rest) (queue : t.queue p = rest)
      (client : t.clients p = (s.clients p).process mtext)

theorem SameTables.refl (c : Client) : SameTables c c := ⟨rfl, rfl, rfl⟩

/-- What `members_handler` puts into a client's queue is a member, a line or the request
it broadcasts. -/
theorem membersMove_sends {s : State} {server : Server} {queue : Queue}
    (moved : MembersMove s.server s.queue server queue) {p : Int} (client : p ≠ 1) :
    queue p = s.queue p ∨ ∃ mtext, Sends s .members p mtext ∧ queue p = s.queue p ++ [mtext] := by
  cases moved with
  | crash | takeLeave | takeJoin => exact Or.inl (Function.update_of_ne client _ _)
  | @shareMember i member entry raw pc found =>
    split
    next flag =>
      rcases msgsnd_cases s.queue member.id p (memberText entry) with same | ⟨rfl, _, added⟩
      · exact Or.inl same
      · exact Or.inr ⟨_, .member pc found flag, added⟩
    · exact Or.inl rfl
  | @shareMessage i member entry raw pc found =>
    rcases msgsnd_cases s.queue member.id p (historyText entry) with same | ⟨rfl, _, added⟩
    · exact Or.inl same
    · exact Or.inr ⟨_, .history pc found, added⟩
  | @broadcast i entry raw pc found =>
    rcases msgsnd_cases s.queue entry.id p raw with same | ⟨rfl, _, added⟩
    · exact Or.inl same
    · exact Or.inr ⟨_, .request pc found, added⟩
  | tokenCrash | leaveName | leaveNumber | joinName | joinNumber | shareMembersEnd
  | shareMessagesEnd
  | register | broadcastEnd | goOn | unlock | clear | exit => exact Or.inl rfl

theorem messageMove_sends {s : State} {server : Server} {queue : Queue}
    (moved : MessageMove s.server s.queue server queue) {p : Int} (client : p ≠ 2) :
    queue p = s.queue p ∨ ∃ mtext, Sends s .message p mtext ∧ queue p = s.queue p ++ [mtext] := by
  cases moved with
  | crash | takeWake | takeLine => exact Or.inl (Function.update_of_ne client _ _)
  | @broadcast i entry raw pc found =>
    rcases msgsnd_cases s.queue entry.id p raw with same | ⟨rfl, _, added⟩
    · exact Or.inl same
    · exact Or.inr ⟨_, .line pc found, added⟩
  | goOn | exit | wakeEmpty | wakeOther | broadcastEnd | tokenCrash | line | number | add =>
    exact Or.inl rfl

/-- No client has a table before it has been started. -/
def Untouched (s : State) : Prop :=
  ∀ p, (s.clients p).main = .absent → s.clients p = Client.absent

theorem setClient_self (s : State) (p : Int) (c : Client) : (s.setClient p c).clients p = c :=
  Function.update_self _ _ _

theorem setClient_of_ne (s : State) {p other : Int} (different : other ≠ p) (c : Client) :
    (s.setClient p c).clients other = s.clients other :=
  Function.update_of_ne different _ _

theorem process_main (c : Client) (mtext : Text) : (c.process mtext).main = c.main := by
  unfold Client.process
  split
  · rfl
  · split <;> rfl
  · rfl
  · rfl
  · rfl

theorem process_nick (c : Client) (mtext : Text) : (c.process mtext).nick = c.nick := by
  unfold Client.process
  split
  · rfl
  · split <;> rfl
  · rfl
  · rfl
  · rfl

/-- A client that has not been started stays as it is, but for its queue. -/
theorem untouched_step {s t : State} {a : Action} (untouched : Untouched s)
    (stepped : step s a = some t) : Untouched t := by
  have replaced {pid : Int} {c : Client} (present : c.main ≠ .absent) :
      ∀ p, (Function.update s.clients pid c p).main = .absent →
        Function.update s.clients pid c p = Client.absent := by
    intro p absent
    by_cases own : p = pid
    · subst own
      rw [Function.update_self] at absent
      exact absurd absent present
    · rw [Function.update_of_ne own] at absent ⊢
      exact untouched p absent
  cases step_move stepped with
  | start | quit | leave | wake => exact replaced (by simp)
  | look present => exact replaced present
  | hear present => exact replaced (by rwa [process_main])
  | say | members | message => exact untouched

def startedPid : Action → Option Int
  | .start pid _ => some pid
  | _ => none

/-- A client that was not there before a step has been started by it. -/
theorem started_of_present {s t : State} {a : Action} {p : Int} (stepped : step s a = some t)
    (absent : (s.clients p).main = .absent) (present : (t.clients p).main ≠ .absent) :
    p ∈ startedPid a := by
  have own {pid : Int} {c : Client}
      (present : (Function.update s.clients pid c p).main ≠ .absent) : p = pid := by
    by_contra different
    exact present ((Function.update_of_ne different c s.clients).symm ▸ absent)
  cases step_move stepped with
  | start => rw [own present]; rfl
  | quit running | leave running | wake running =>
    rw [own present] at absent
    simp [absent] at running
  | look started | hear started =>
    rw [own present] at absent
    exact absurd absent started
  | say | members | message => exact absurd absent present

/-- What a step means for one client: nothing, a text sent to it, a text read by it, or
a step of its own main thread. -/
theorem client_move {s t : State} {a : Action} (untouched : Untouched s)
    (stepped : step s a = some t) {p : Int} (client : 2 < p) : ClientMove s a t p := by
  have elsewhere {mtype : Int} (server : mtype = 1 ∨ mtype = 2) (mtext : Text) :
      msgsnd s.queue mtype mtext p = s.queue p := msgsnd_of_ne (by omega) mtext
  have replaced {pid : Int} {c : Client} (same : SameTables (s.clients pid) c) :
      SameTables (s.clients p) (Function.update s.clients pid c p) := by
    by_cases own : p = pid
    · subst own
      rwa [Function.update_self]
    · rw [Function.update_of_ne own]
      exact .refl _
  cases step_move stepped with
  | @start pid nick fresh =>
    exact .still (replaced (by rw [untouched pid fresh]; exact ⟨rfl, rfl, rfl⟩))
      (elsewhere (.inl rfl) _)
  | say => exact .still (.refl _) (elsewhere (.inr rfl) _)
  | @quit pid running healthy =>
    by_cases own : p = pid
    · subst own
      refine .sent (.exit running) (replaced ⟨rfl, rfl, rfl⟩) ?_
      have text : exitText p = wordText 3 exitLine p := if_neg (by omega)
      exact text ▸ msgsnd_self (by omega) _
    · exact .still (replaced ⟨rfl, rfl, rfl⟩) (msgsnd_of_ne own _)
  | leave => exact .still (replaced ⟨rfl, rfl, rfl⟩) (elsewhere (.inl rfl) _)
  | wake => exact .still (replaced ⟨rfl, rfl, rfl⟩) (elsewhere (.inr rfl) _)
  | look => exact .still (replaced ⟨rfl, rfl, rfl⟩) rfl
  | @hear pid mtext rest present healthy head =>
    by_cases own : p = pid
    · subst own
      exact .read present head (Function.update_self _ _ _) (setClient_self s p _)
    · refine .still ?_ (Function.update_of_ne own _ _)
      exact (setClient_of_ne s own ((s.clients pid).process mtext)) ▸ .refl _
  | members running moved =>
    rcases membersMove_sends moved (p := p) (by omega) with same | ⟨mtext, origin, added⟩
    · exact .still (.refl _) same
    · exact .sent origin (.refl _) added
  | message running moved =>
    rcases messageMove_sends moved (p := p) (by omega) with same | ⟨mtext, origin, added⟩
    · exact .still (.refl _) same
    · exact .sent origin (.refl _) added

end EltexCourse.Source.Chat.MessageQueue
