import EltexCourse.Guarantees.Chat.Requests

/-!
# Each chat line reaches each member once

What is counted are the texts themselves: those that `message_hendler` takes from the
queue, and those that the server puts into the queue of a member, both read off the
queue before and after a step. A broadcast reads the live size of the member table: a
newcomer registered before the loop ends is still reached, one registered after it is
not. What the newcomer has not been replayed it must get from the broadcast, so nothing
is lost exactly where no line ends its broadcast between the last replayed one and the
registration. `message_hendler` runs without `members_mutex`, so nothing sees to that.
-/

set_option autoImplicit false

namespace EltexCourse.Guarantees.Chat.Delivery
open Foundations.CString Foundations.Decimal Foundations.Transition
open Source.Chat Source.Chat.MessageQueue Traffic Requests

/-- Of a queue, all in the order in which it comes. -/
inductive Event where
  /-- A chat line is taken by the server. -/
  | taken (mtext : Text)
  /-- It is put into the queue of the member that is watched. -/
  | put (mtext : Text)
  deriving DecidableEq, Repr

/-- The chat lines that a step of the server has removed from its queue, and those that
it has added to the queue of `p`. -/
def seen (p : Int) (s t : State) : List Event :=
  (((s.queue 2).take ((s.queue 2).length - (t.queue 2).length)).filter (Marked '3' ·)).map .taken ++
    (((t.queue p).drop (s.queue p).length).filter (Marked '3' ·)).map .put

def observe (p : Int) (s : State) (a : Action) : List Event :=
  if a = .members ∨ a = .message then ((step s a).map (seen p s)).getD [] else []

def watched (p : Int) : System State Action Event := ⟨step, observe p⟩

def takenLines (log : List Event) : List Text :=
  log.filterMap fun
    | .taken mtext => some mtext
    | .put _ => none

def putLines (log : List Event) : List Text :=
  log.filterMap fun
    | .taken _ => none
    | .put mtext => some mtext

/-- The lines taken have been put into the queue of the member, each once. -/
def SentOnce (log : List Event) : Prop := putLines log = takenLines log

/-- The broadcast of the line in hand is over, and the line is not stored yet. -/
def MessagePc.past : MessagePc → Bool
  | .line _ | .number _ _ | .add _ => true
  | _ => false

/-- At a registration, the newcomer has been replayed every line whose broadcast
is over. -/
def NonePassed (s : State) : Action → Prop
  | .members =>
    match s.server.membersPc with
    | .register i _ _ => s.server.messages.length = i ∧ MessagePc.past s.server.messagePc = false
    | _ => True
  | _ => True

instance (s : State) (a : Action) : Decidable (NonePassed s a) := by
  unfold NonePassed
  split
  · split <;> infer_instance
  · infer_instance

def Synchronised (s : State) (a : Action) : Prop := Intact s a ∧ NonePassed s a

instance (s : State) (a : Action) : Decidable (Synchronised s a) :=
  inferInstanceAs (Decidable (_ ∧ _))

/-- Both handlers wait for their next message. -/
def Idle (s : Server) : Prop :=
  s.crashed = false ∧ s.membersPc = .receive ∧ (s.messagePc = .test ∨ s.messagePc = .receive)

instance (s : Server) : Decidable (Idle s) := inferInstanceAs (Decidable (_ ∧ _ ∧ _))

/-- The text of a line that is read back as the entry it is printed from. -/
structure Written (mtext line : Text) (pid : Int) : Prop where
  whole : Line line
  fits : IsInt pid
  same : mtext = lineText 3 line pid

/-- The line that `message_hendler` has taken and not stored. -/
def textsInHand : MessagePc → List Text
  | .broadcast _ raw | .line raw | .number _ raw => [raw]
  | .add entry => [historyText entry]
  | _ => []

/-- `strtok` finds in it what was written, unless a request has been taken apart in
between: then it finds nothing. -/
def Held (s : Server) : Prop :=
  match s.messagePc with
  | .broadcast _ raw | .line raw => ∃ line pid, Written raw line pid ∧
      (s.membersPc.parsing = none →
        s.strtokCursor = line ++ '>' :: printInt pid ∨ s.strtokCursor = [])
  | .number line raw => ∃ pid, Written raw line pid ∧
      (s.membersPc.parsing = none → s.strtokCursor = printInt pid ∨ s.strtokCursor = [])
  | _ => True

/-- The text of the request in hand. -/
def carried : MembersPc → Option Text
  | .leaveName raw | .leaveNumber raw | .joinName raw | .joinNumber _ raw
  | .shareMembers _ _ raw | .shareMessages _ _ raw | .register _ _ raw | .broadcast _ raw =>
    some raw
  | _ => none

/-- How many lines have been replayed to the newcomer. -/
def replays : MembersPc → Nat
  | .shareMessages i _ _ | .register i _ _ => i
  | _ => 0

/-- And how many to `p`. -/
def replayed (pc : MembersPc) (p : Int) : Nat :=
  if pc.newcomer.map (·.id) = some p then replays pc else 0

/-- The broadcast in hand has passed index `x` of the member table. -/
def passed (pc : MessagePc) (x : Nat) : Bool :=
  match pc with
  | .broadcast j _ => x < j
  | pc => MessagePc.past pc

/-- `p` has been sent so many of the lines taken. -/
def sent (s : Server) (p : Int) : Nat :=
  if p ∈ ids s.members then
    s.messages.length + (passed s.messagePc ((ids s.members).idxOf p)).toNat
  else replayed s.membersPc p

structure Invariant (p : Int) (log : List Event) (s : State) : Prop where
  orderly : Orderly s
  fits : ∀ pid, (s.clients pid).main ≠ .absent → IsInt pid
  written : ∀ mtext ∈ s.queue 2, Marked '3' mtext → ∃ line pid, Written mtext line pid
  held : Held s.server
  request : ∀ raw, carried s.server.membersPc = some raw → ¬ Marked '3' raw
  stored : replays s.server.membersPc ≤ s.server.messages.length
  inside : s.server.membersPc.Serving →
    ∀ j raw, s.server.messagePc = .broadcast j raw → j ≤ s.server.members.length
  taken : takenLines log =
    s.server.messages.map historyText ++ textsInHand s.server.messagePc
  put : s.server.membersPc.Serving →
    putLines log = (takenLines log).take (sent s.server p)

theorem invariant_initial (p : Int) : Invariant p [] initial := by
  refine ⟨orderly_initial, fun _ present => absurd rfl present, ?_, trivial, ?_, Nat.zero_le _, ?_,
    rfl, fun _ => rfl⟩
  · exact fun mtext inside => absurd inside List.not_mem_nil
  · exact fun raw inHand => by cases inHand
  · exact fun _ j raw pc => MessagePc.noConfusion pc

section Events

variable {p : Int} {s t : State} {mtext : Text}

@[simp] theorem takenLines_taken (log : List Event) (mtext : Text) :
    takenLines (log ++ [.taken mtext]) = takenLines log ++ [mtext] :=
  List.filterMap_append

@[simp] theorem takenLines_put (log : List Event) (mtext : Text) :
    takenLines (log ++ [.put mtext]) = takenLines log :=
  List.filterMap_append.trans (List.append_nil _)

@[simp] theorem putLines_taken (log : List Event) (mtext : Text) :
    putLines (log ++ [.taken mtext]) = putLines log :=
  List.filterMap_append.trans (List.append_nil _)

@[simp] theorem putLines_put (log : List Event) (mtext : Text) :
    putLines (log ++ [.put mtext]) = putLines log ++ [mtext] :=
  List.filterMap_append

theorem seen_nothing (lines : t.queue 2 = s.queue 2) (queue : t.queue p = s.queue p) :
    seen p s t = [] := by
  simp [seen, lines, queue]

/-- A text added to the queue of the client counts if it is marked as a line, whoever
has put it there and for whatever reason. -/
theorem seen_put (lines : t.queue 2 = s.queue 2) (queue : t.queue p = s.queue p ++ [mtext]) :
    seen p s t = if Marked '3' mtext then [.put mtext] else [] := by
  by_cases marked : Marked '3' mtext <;> simp [seen, lines, queue, marked]

theorem seen_taken (lines : s.queue 2 = mtext :: t.queue 2) (queue : t.queue p = s.queue p) :
    seen p s t = if Marked '3' mtext then [.taken mtext] else [] := by
  by_cases marked : Marked '3' mtext <;> simp [seen, lines, queue, marked]

end Events

section Members

variable {p : Int} {log : List Event} {s : State} {server : Server} {queue : Queue}

/-- `members_handler` leaves the line that `message_hendler` has in hand alone. The cursor
they share it leaves as it was, or behind the last token of a request, with nothing in it. -/
theorem held_members (orderly : Orderly s) (held : Held s.server)
    (moved : MembersMove s.server s.queue server queue) : Held server := by
  have kept {text : Text} (found : s.server.membersPc.parsing = none →
      s.server.strtokCursor = text ∨ s.server.strtokCursor = [])
      (free : server.membersPc.parsing = none) :
      server.strtokCursor = text ∨ server.strtokCursor = [] := by
    rcases cursor_members orderly moved free with ⟨same, before⟩ | empty
    · exact same ▸ found before
    · exact Or.inr empty
  unfold Held at held ⊢
  rw [(membersMove_untouched moved).2]
  split
  next pc =>
    rw [pc] at held
    obtain ⟨line, pid, written, found⟩ := held
    exact ⟨line, pid, written, kept found⟩
  next pc =>
    rw [pc] at held
    obtain ⟨line, pid, written, found⟩ := held
    exact ⟨line, pid, written, kept found⟩
  next pc =>
    rw [pc] at held
    obtain ⟨pid, written, found⟩ := held
    exact ⟨pid, written, kept found⟩
  · trivial

/-- A request has the marker of a join or of a leave. -/
theorem request_unmarked (orderly : Orderly s) (pc : s.server.membersPc = .receive) {raw : Text}
    {rest : List Text} (head : s.queue 1 = raw :: rest) : ¬ Marked '3' raw := by
  obtain ⟨pending, texts, -⟩ := (orderly.register (by simp [MembersPc.Serving, pc])).pending
  rw [show s.server.membersPc.parsing = none by simp [pc, MembersPc.parsing], head] at texts
  cases pending with
  | nil => cases texts
  | cons r pending =>
    obtain ⟨rfl, -⟩ := List.cons.inj texts
    cases r with
    | enter p => simp [Marked, Registration.requestText, strtok_wordText]
    | leave p => simp [Marked, Registration.requestText, strtok_wordText, printInt_zero]

/-- Nothing is sent to `p` by a turn that leaves the tables, and what is replayed, as
they are. -/
theorem sent_congr {s t : Server} (members : ids t.members = ids s.members)
    (messages : t.messages = s.messages) (messagePc : t.messagePc = s.messagePc)
    (replay : p ∉ ids s.members → replayed t.membersPc p = replayed s.membersPc p) :
    sent t p = sent s p := by
  unfold sent
  rw [members, messages, messagePc]
  split
  · rfl
  next absent => exact replay absent

/-- A turn of `members_handler` by which no line is put anywhere. -/
theorem Invariant.quiet (inv : Invariant p log s) (orderly : Orderly { s with server, queue })
    (moved : MembersMove s.server s.queue server queue)
    (unseen : seen p s { s with server, queue } = [])
    (request : ∀ raw, carried server.membersPc = some raw → ¬ Marked '3' raw)
    (stored : replays server.membersPc ≤ s.server.messages.length)
    (members : server.membersPc.Serving → ids server.members = ids s.server.members)
    (replay : p ∉ ids s.server.members →
      replayed server.membersPc p = replayed s.server.membersPc p)
    (stays : server.membersPc.Serving → s.server.members.length ≤ server.members.length) :
    Invariant p (log ++ seen p s { s with server, queue }) { s with server, queue } := by
  obtain ⟨messages, messagePc⟩ := membersMove_untouched moved
  rw [unseen, List.append_nil]
  refine ⟨orderly, inv.fits, ?_, held_members inv.orderly inv.held moved, request,
    messages ▸ stored, fun serving j raw pc => ?_, ?_, fun serving => ?_⟩
  · intro mtext (inside : mtext ∈ queue 2)
    rw [inv.orderly.lines_members moved] at inside
    exact inv.written mtext inside
  · exact (inv.inside (membersMove_serving moved serving) j raw (messagePc ▸ pc)).trans
      (stays serving)
  · rw [messages, messagePc]
    exact inv.taken
  · rw [sent_congr (members serving) messages messagePc replay]
    exact inv.put (membersMove_serving moved serving)

/-- A turn of `members_handler` that goes on with the request it has, or with none, and
leaves the table as it is. -/
theorem Invariant.onward (inv : Invariant p log s) (orderly : Orderly { s with server, queue })
    (moved : MembersMove s.server s.queue server queue)
    (unseen : seen p s { s with server, queue } = [])
    (accounts : server.accounts = s.server.accounts)
    (carries : ∀ raw, carried server.membersPc = some raw → carried s.server.membersPc = some raw)
    (stored : replays server.membersPc ≤ s.server.messages.length)
    (replay : replayed server.membersPc p = replayed s.server.membersPc p) :
    Invariant p (log ++ seen p s { s with server, queue }) { s with server, queue } := by
  have members : server.members = s.server.members := congrArg Accounts.members accounts
  exact inv.quiet orderly moved unseen (fun raw inHand => inv.request raw (carries raw inHand))
    stored (fun _ => congrArg ids members) (fun _ => replay) fun _ => by rw [members]

/-- The newcomer is sent the next stored line. -/
theorem Invariant.share {i : Nat} {member entry : DataArr} {raw : Text} (inv : Invariant p log s)
    (client : 2 < p) (pc : s.server.membersPc = .shareMessages i member raw)
    (found : s.server.messages[i]? = some entry)
    (orderly : Orderly { s with
      server := { s.server with membersPc := .shareMessages (i + 1) member raw }
      queue := msgsnd s.queue member.id (historyText entry) }) :
    Invariant p
      (log ++ seen p s { s with
        server := { s.server with membersPc := .shareMessages (i + 1) member raw }
        queue := msgsnd s.queue member.id (historyText entry) })
      { s with
        server := { s.server with membersPc := .shareMessages (i + 1) member raw }
        queue := msgsnd s.queue member.id (historyText entry) } := by
  have moved := MembersMove.shareMessage (q := s.queue) pc found
  have below : i < s.server.messages.length := (List.getElem?_eq_some_iff.mp found).1
  have joining : s.server.membersPc.newcomer = some member := by simp [pc, MembersPc.newcomer]
  by_cases own : member.id = p
  · subst own
    have absent := (inv.orderly.newcomer joining).2
    have put := inv.put (by simp [pc, MembersPc.Serving])
    have lines : msgsnd s.queue member.id (historyText entry) 2 = s.queue 2 :=
      inv.orderly.lines_members moved
    have marked : Marked '3' (historyText entry) := marked_lineText rfl entry.line entry.id
    have here : (takenLines log)[i]? = some (historyText entry) := by
      rw [inv.taken, List.getElem?_append_left (by simpa using below), List.getElem?_map, found]
      rfl
    rw [seen_put lines (msgsnd_self (by omega) _), if_pos marked]
    simp only [sent, if_neg absent, replayed, joining, Option.map_some, if_true] at put
    refine { inv with
      orderly
      written := fun mtext inside => inv.written mtext (lines ▸ inside)
      held := held_members inv.orderly inv.held moved
      request := fun raw inHand => inv.request raw (by rw [pc]; exact inHand)
      stored := below
      inside := fun _ => inv.inside (by simp [pc, MembersPc.Serving])
      taken := ?_
      put := fun _ => ?_ }
    · rw [takenLines_put]
      exact inv.taken
    · rw [pc, replays] at put
      simp only [sent, if_neg absent, replayed, MembersPc.newcomer, Option.map_some,
        if_true, replays,
        putLines_put, takenLines_put, List.take_add_one, here, put]
      rfl
  · refine inv.quiet orderly moved ?_
      (fun raw inHand => inv.request raw (by rw [pc]; exact inHand)) below (fun _ => rfl)
        (fun _ => ?_)
      fun _ => Nat.le_refl _
    · exact seen_nothing (inv.orderly.lines_members moved) (msgsnd_of_ne (Ne.symm own) _)
    · simp [replayed, pc, MembersPc.newcomer, own]

/-- A broadcast still in its loop has not passed an index beyond the table. -/
theorem not_passed_end {s : Server}
    (inside : ∀ j raw, s.messagePc = .broadcast j raw → j ≤ s.members.length)
    (notPast : MessagePc.past s.messagePc = false) :
    passed s.messagePc (ids s.members).length = false := by
  cases pc : s.messagePc with
  | broadcast j raw =>
    have bound := inside j raw pc
    simpa [passed, ids] using bound
  | test | receive | wake | line | number | add | stopped => simpa [passed, pc] using notPast

/-- A newcomer that has been sent all stored lines enters the table, behind the
index of a broadcast. -/
theorem Invariant.register {i : Nat} {member : DataArr} {raw : Text} (inv : Invariant p log s)
    (pc : s.server.membersPc = .register i member raw)
    (replayedAll : s.server.messages.length = i)
    (notPast : MessagePc.past s.server.messagePc = false)
    (orderly : Orderly { s with server := { s.server with
      accounts := (s.server.accounts.add member).count, membersPc := .broadcast 0 raw } }) :
    Invariant p log { s with server := { s.server with
      accounts := (s.server.accounts.add member).count, membersPc := .broadcast 0 raw } } := by
  have serving : s.server.membersPc.Serving := by simp [pc, MembersPc.Serving]
  have unpassed := not_passed_end (inv.inside serving) notPast
  have before : replayed s.server.membersPc p = if member.id = p then i else 0 := by
    simp [replayed, pc, MembersPc.newcomer, replays]
  refine { inv with
    orderly
    held := held_members inv.orderly inv.held (MembersMove.register (q := s.queue) pc)
    request := fun raw inHand => inv.request raw (by rw [pc]; exact inHand)
    stored := Nat.zero_le _
    inside := fun _ j raw broadcasting => ?_
    put := fun _ => ?_ }
  · have before := inv.inside serving j raw broadcasting
    simp only [Server.members, Accounts.count, Accounts.add, dataAdd, List.length_append]
    exact Nat.le_add_right_of_le before
  · rw [inv.put serving]
    congr 1
    simp only [sent, Server.members, Accounts.count, Accounts.add, ids_dataAdd]
    by_cases old : p ∈ ids s.server.accounts.members
    · rw [if_pos old, if_pos (by simp [old]), List.idxOf_append_of_mem old]
    · rw [if_neg old]
      by_cases own : member.id = p
      · subst own
        rw [before, if_pos rfl, if_pos (by simp), List.idxOf_append_of_notMem old]
        simp [replayedAll, unpassed]
      · rw [before, if_neg own, if_neg (by simp [old, Ne.symm own])]
        simp [replayed, MembersPc.newcomer]

/-- Any turn of `members_handler`. Lines are put by a replay only; a registration needs
the condition, as from then on the broadcasts reach the newcomer. -/
theorem invariant_members (inv : Invariant p log s) (client : 2 < p)
    (nonePassed : NonePassed s .members) (orderly : Orderly { s with server, queue })
    (moved : MembersMove s.server s.queue server queue) :
    Invariant p (log ++ seen p s { s with server, queue }) { s with server, queue } := by
  have lines := inv.orderly.lines_members moved
  have unseen (same : queue p = s.queue p) : seen p s { s with server, queue } = [] :=
    seen_nothing lines same
  -- What a turn sends that is not marked as a line is not counted.
  have unmarked {mtype : Int} {mtext : Text} (other : ¬ Marked '3' mtext)
      (kept : msgsnd s.queue mtype mtext 2 = s.queue 2) (server : Server) :
      seen p s { s with server, queue := msgsnd s.queue mtype mtext } = [] := by
    rcases msgsnd_cases s.queue mtype p mtext with same | ⟨-, -, added⟩
    · exact seen_nothing kept same
    · rw [seen_put kept added, if_neg other]
  have quiet := inv.quiet orderly moved
  have onward := inv.onward orderly moved
  cases moved with
  | crash pc head broken => exact absurd broken (inv.orderly.marker pc head)
  | tokenCrash parsing broken => exact absurd broken (inv.orderly.unbroken parsing)
  | @shareMessage i member entry raw pc found => exact inv.share client pc found orderly
  | @register i member raw pc =>
    simp only [NonePassed, pc] at nonePassed
    rw [unseen rfl, List.append_nil]
    exact inv.register pc nonePassed.1 nonePassed.2 orderly
  | takeLeave pc head | takeJoin pc head =>
    refine quiet (unseen (Function.update_of_ne (by omega) _ _)) (fun raw inHand => ?_)
      (Nat.zero_le _) (fun _ => rfl) (fun _ => by simp [replayed, pc, MembersPc.newcomer])
      fun _ => Nat.le_refl _
    obtain rfl := Option.some.inj inHand
    exact request_unmarked inv.orderly pc head
  | leaveName pc | joinName pc =>
    exact onward (unseen rfl) rfl (fun raw inHand => by rwa [pc]) (Nat.zero_le _)
      (by simp [replayed, pc, MembersPc.newcomer])
  | @leaveNumber raw cursor number accounts pc found marked =>
    obtain ⟨members, first, rfl⟩ := Option.map_eq_some_iff.mp marked
    have same := markOffline_ids first
    refine quiet (unseen rfl) (fun raw inHand => inv.request raw (by rw [pc]; exact inHand))
      (Nat.zero_le _)
      (fun _ => same) (fun _ => by simp [replayed, pc, MembersPc.newcomer]) fun _ => ?_
    exact Nat.le_of_eq (by simpa [ids] using (congrArg List.length same).symm)
  | joinNumber pc found | shareMembersEnd pc done =>
    exact onward (unseen rfl) rfl (fun raw inHand => by rwa [pc]) (Nat.zero_le _)
      (by simp [replayed, pc, MembersPc.newcomer, replays])
  | @shareMember i member entry raw pc found =>
    have other : ¬ Marked '3' (memberText entry) := by
      simp [Marked, memberText, strtok_wordText]
    refine onward ?_ rfl (fun raw inHand => by rwa [pc]) (Nat.zero_le _)
      (by simp [replayed, pc, MembersPc.newcomer, replays])
    by_cases flag : entry.isOnline = 0
    · exact seen_nothing lines (by simp [flag])
    · simp only [if_pos flag] at lines ⊢
      exact unmarked other lines _
  | shareMessagesEnd pc done =>
    have stored := inv.stored
    rw [pc] at stored
    exact onward (unseen rfl) rfl (fun raw inHand => by rwa [pc]) stored
      (by simp [replayed, pc, MembersPc.newcomer, replays])
  | @broadcast i entry raw pc found =>
    have other := inv.request raw (by rw [pc]; rfl)
    exact onward (unmarked other lines _) rfl (fun raw inHand => by rwa [pc]) (Nat.zero_le _)
      (by simp [replayed, pc, MembersPc.newcomer])
  | broadcastEnd pc | goOn pc | unlock pc =>
    exact onward (unseen rfl) rfl (fun raw inHand => by cases inHand) (Nat.zero_le _)
      (by simp [replayed, pc, MembersPc.newcomer])
  | clear pc =>
    exact quiet (unseen rfl) (fun raw inHand => by cases inHand) (Nat.zero_le _)
      (fun serving => absurd rfl serving.1) (fun _ => by simp [replayed, pc, MembersPc.newcomer])
      fun serving => absurd rfl serving.1
  | exit pc =>
    exact quiet (unseen rfl) (fun raw inHand => by cases inHand) (Nat.zero_le _)
      (fun serving => absurd rfl serving.2) (fun _ => by simp [replayed, pc, MembersPc.newcomer])
      fun serving => absurd rfl serving.2

end Members

section Message

variable {p : Int} {log : List Event} {s : State} {server : Server} {queue : Queue}

theorem idxOf_lt {m : Data} (present : p ∈ ids m) : (ids m).idxOf p < m.length := by
  simpa [ids] using List.idxOf_lt_length_of_mem present

/-- Ids do not repeat, so each stands at its own index. -/
theorem idxOf_id {m : Data} {entry : DataArr} {j : Nat} (unique : (ids m).Nodup)
    (found : m[j]? = some entry) : (ids m).idxOf entry.id = j := by
  have isId : (ids m)[j]? = some entry.id := by simp [ids, found]
  obtain ⟨inside, value⟩ := List.getElem?_eq_some_iff.mp isId
  rw [← value]
  exact unique.idxOf_getElem j inside

/-- A turn of `message_hendler` by which nothing is put anywhere and no line is taken. -/
theorem Invariant.still (inv : Invariant p log s) (orderly : Orderly { s with server, queue })
    (moved : MessageMove s.server s.queue server queue)
    (unseen : seen p s { s with server, queue } = []) (held : Held server)
    (inside : s.server.membersPc.Serving →
      ∀ j raw, server.messagePc = .broadcast j raw → j ≤ s.server.members.length)
    (grown : s.server.messages.length ≤ server.messages.length)
    (taken : server.messages.map historyText ++ textsInHand server.messagePc =
      s.server.messages.map historyText ++ textsInHand s.server.messagePc)
    (same : p ∈ ids s.server.members →
      server.messages.length + (passed server.messagePc ((ids s.server.members).idxOf p)).toNat =
        s.server.messages.length +
          (passed s.server.messagePc ((ids s.server.members).idxOf p)).toNat) :
    Invariant p (log ++ seen p s { s with server, queue }) { s with server, queue } := by
  have membersPc := messageMove_membersPc moved
  have members : server.members = s.server.members :=
    congrArg Accounts.members (messageMove_accounts moved)
  rw [unseen, List.append_nil]
  refine ⟨orderly, inv.fits,
    fun mtext inside => inv.written mtext (inv.orderly.lines_message moved _ inside),
    held, membersPc ▸ inv.request, ?_, fun serving j raw pc => ?_, inv.taken.trans taken.symm,
    fun serving => ?_⟩
  · exact membersPc ▸ inv.stored.trans grown
  · rw [members]
    exact inside (membersPc ▸ serving) j raw pc
  · have unchanged : sent server p = sent s.server p := by
      unfold sent
      rw [members, membersPc]
      split
      next present => exact same present
      · rfl
    rw [unchanged]
    exact inv.put (membersPc ▸ serving)

/-- With no line in hand, no more lines have been sent than are stored. -/
theorem Invariant.bound (inv : Invariant p log s)
    (waiting : ∀ x, passed s.server.messagePc x = false) :
    sent s.server p ≤ s.server.messages.length := by
  unfold sent
  split
  · simp [waiting]
  · unfold replayed
    split
    · exact inv.stored
    · exact Nat.zero_le _

/-- A line is taken, and nobody has been sent it yet. -/
theorem Invariant.take {raw cursor marker : Text} {rest : List Text} (inv : Invariant p log s)
    (client : 2 < p) (pc : s.server.messagePc = .receive) (head : s.queue 2 = raw :: rest)
    (found : strtok [' '] raw = (some marker, cursor)) (line : marker ≠ ['4'])
    (orderly : Orderly { s with
      server := { s.server with strtokCursor := cursor, messagePc := .broadcast 0 raw }
      queue := Function.update s.queue 2 rest }) :
    Invariant p
      (log ++ seen p s { s with
        server := { s.server with strtokCursor := cursor, messagePc := .broadcast 0 raw }
        queue := Function.update s.queue 2 rest })
      { s with
        server := { s.server with strtokCursor := cursor, messagePc := .broadcast 0 raw }
        queue := Function.update s.queue 2 rest } := by
  have marked : Marked '3' raw := by
    rcases inv.orderly.lines raw (by simp [head]) with three | four
    · exact three
    · exact absurd (by simpa [Marked, found] using four) line
  obtain ⟨text, pid, written⟩ := inv.written raw (by simp [head]) marked
  have tokens := found
  rw [written.same, strtok_lineText] at tokens
  have cursor_eq : cursor = text ++ '>' :: printInt pid := (Prod.mk.inj tokens).2.symm
  have popped : s.queue 2 = raw :: Function.update s.queue 2 rest 2 := by simp [head]
  have elsewhere : Function.update s.queue 2 rest p = s.queue p :=
    Function.update_of_ne (by omega) _ _
  have bound := inv.bound fun x => by rw [pc]; rfl
  have nothing : textsInHand s.server.messagePc = [] := by rw [pc]; rfl
  have taken := inv.taken
  rw [nothing, List.append_nil] at taken
  rw [seen_taken popped elsewhere, if_pos marked]
  refine { inv with
    orderly
    written := fun mtext inside => ?_
    held := ⟨text, pid, written, fun _ => Or.inl cursor_eq⟩
    inside := fun _ j text broadcasting => ?_
    taken := ?_
    put := fun serving => ?_ }
  · exact inv.written mtext (by rw [popped]; exact List.mem_cons_of_mem _ inside)
  · obtain ⟨rfl, -⟩ := MessagePc.broadcast.inj broadcasting
    exact Nat.zero_le _
  · rw [takenLines_taken, taken]
    rfl
  · have same : sent { s.server with strtokCursor := cursor, messagePc := .broadcast 0 raw } p =
        sent s.server p := by
      simp [sent, pc, passed, MessagePc.past]
    have put := inv.put serving
    rw [same, putLines_taken, takenLines_taken, put, List.take_append_of_le_length]
    rw [taken, List.length_map]
    exact bound

/-- The broadcast sends the line in hand to the entry at its index. -/
theorem Invariant.pass {j : Nat} {entry : DataArr} {raw : Text} (inv : Invariant p log s)
    (client : 2 < p) (pc : s.server.messagePc = .broadcast j raw)
    (found : s.server.members[j]? = some entry)
    (orderly : Orderly { s with
      server := { s.server with messagePc := .broadcast (j + 1) raw }
      queue := msgsnd s.queue entry.id raw }) :
    Invariant p
      (log ++ seen p s { s with
        server := { s.server with messagePc := .broadcast (j + 1) raw }
        queue := msgsnd s.queue entry.id raw })
      { s with
        server := { s.server with messagePc := .broadcast (j + 1) raw }
        queue := msgsnd s.queue entry.id raw } := by
  have inTable : entry.id ∈ ids s.server.members :=
    List.mem_map_of_mem (List.mem_of_getElem? found)
  have known := inv.orderly.member_pid inTable
  have inside : j < s.server.members.length := (List.getElem?_eq_some_iff.mp found).1
  have index := idxOf_id inv.orderly.unique found
  have lines : msgsnd s.queue entry.id raw 2 = s.queue 2 := msgsnd_of_ne (by omega) _
  have held := inv.held
  have taken := inv.taken
  rw [Held, pc] at held
  rw [pc] at taken
  by_cases own : entry.id = p
  · subst own
    have marked := inv.orderly.line j raw pc
    rw [seen_put lines (msgsnd_self (by omega) _), if_pos marked]
    refine { inv with
      orderly
      written := fun mtext inside => inv.written mtext (lines ▸ inside)
      held := held
      inside := fun _ k text broadcasting => ?_
      taken := ?_
      put := fun serving => ?_ }
    · obtain ⟨rfl, -⟩ := MessagePc.broadcast.inj broadcasting
      exact inside
    · rw [takenLines_put]
      exact taken
    · have put := inv.put serving
      have here : (takenLines log)[s.server.messages.length]? = some raw := by
        rw [taken]
        simp [textsInHand]
      simp only [sent, if_pos inTable, pc, passed, index, Nat.lt_irrefl, decide_false] at put
      simp only [sent, if_pos inTable, passed, index, Nat.lt_succ_self, decide_true, putLines_put,
        takenLines_put, put]
      simp [List.take_add_one, here]
  · refine inv.still orderly (MessageMove.broadcast (q := s.queue) pc found)
      (seen_nothing lines (msgsnd_of_ne (Ne.symm own) raw)) held ?_ (Nat.le_refl _)
      (by rw [pc]; rfl) fun present => ?_
    · intro _ k text broadcasting
      obtain ⟨rfl, -⟩ := MessagePc.broadcast.inj broadcasting
      exact inside
    · have elsewhere : (ids s.server.members).idxOf p ≠ j := by
        intro same
        exact own ((List.idxOf_inj inTable).mp (index.trans same.symm))
      have decided : decide ((ids s.server.members).idxOf p < j + 1) =
          decide ((ids s.server.members).idxOf p < j) := by
        rw [decide_eq_decide]
        omega
      simp only [pc, passed, decided]

/-- Any turn of `message_hendler`. A line counts as sent to the client from the moment
at which the loop has passed its index in the table. -/
theorem invariant_message (inv : Invariant p log s) (client : 2 < p)
    (apart : MembersApart s .message) (orderly : Orderly { s with server, queue })
    (moved : MessageMove s.server s.queue server queue) :
    Invariant p (log ++ seen p s { s with server, queue }) { s with server, queue } := by
  have still := inv.still orderly moved
  have held := inv.held
  have free (splitting : s.server.messagePc.splitting = true) := apart rfl splitting
  cases moved with
  | @crash raw rest pc head broken =>
    rcases inv.orderly.lines raw (by simp [head]) with three | four
    · rw [Marked, broken] at three
      cases three
    · rw [Marked, broken] at four
      cases four
  | @takeWake raw cursor rest pc head marker =>
    have unmarked : ¬ Marked '3' raw := by simp [Marked, marker]
    refine still ?_ trivial (by simp) (Nat.le_refl _) (by rw [pc]; rfl)
      (by simp [pc, passed, MessagePc.past])
    have popped : s.queue 2 = raw :: Function.update s.queue 2 rest 2 := by simp [head]
    rw [seen_taken popped (Function.update_of_ne (by omega) _ _), if_neg unmarked]
  | takeLine pc head found line => exact inv.take client pc head found line orderly
  | goOn pc | exit pc | wakeEmpty pc | wakeOther pc =>
    exact still (seen_nothing rfl rfl) trivial (by simp) (Nat.le_refl _) (by rw [pc]; rfl)
      (by simp [pc, passed, MessagePc.past])
  | broadcast pc found => exact inv.pass client pc found orderly
  | @broadcastEnd j raw pc done =>
    rw [Held, pc] at held
    refine still (seen_nothing rfl rfl) held (by simp) (Nat.le_refl _) (by rw [pc]; rfl)
      fun present => ?_
    have reached : (ids s.server.members).idxOf p < j := lt_of_lt_of_le (idxOf_lt present) done
    simp [pc, passed, MessagePc.past, reached]
  | tokenCrash =>
    exact still (seen_nothing rfl rfl) held inv.inside (Nat.le_refl _) rfl fun _ => rfl
  | @line raw line cursor pc found =>
    rw [Held, pc] at held
    obtain ⟨text, pid, written, known⟩ := held
    rcases known (free (by rw [pc]; rfl)) with whole | empty
    · rw [whole, strtok_bracket_line written.whole] at found
      obtain ⟨isLine, rfl⟩ := Prod.mk.inj found
      obtain rfl := Option.some.inj isLine
      exact still (seen_nothing rfl rfl) ⟨pid, written, fun _ => Or.inl rfl⟩ (by simp)
        (Nat.le_refl _) (by rw [pc]; rfl) (by simp [pc, passed, MessagePc.past])
    · rw [empty] at found
      cases found
  | @number raw line number cursor pc found =>
    rw [Held, pc] at held
    obtain ⟨pid, written, known⟩ := held
    rcases known (free (by rw [pc]; rfl)) with whole | empty
    · rw [whole, strtok_space_number] at found
      obtain ⟨isNumber, rfl⟩ := Prod.mk.inj found
      obtain rfl := Option.some.inj isNumber
      refine still (seen_nothing rfl rfl) trivial (by simp) (Nat.le_refl _) ?_
        (by simp [pc, passed, MessagePc.past])
      rw [pc, written.same]
      simp [textsInHand, historyText, atoi_printInt written.fits]
    · rw [empty] at found
      cases found
  | @add entry pc =>
    refine still (seen_nothing rfl rfl) trivial (by simp) ?_ ?_ ?_
    · simp [dataAdd]
    · simp [pc, dataAdd, textsInHand]
    · simp [pc, dataAdd, passed, MessagePc.past]

end Message

/-- Every client that has been started has an int as its pid, so that `atoi` reads it as
it was printed. -/
theorem fits_step {s t : State} {a : Action} (stepped : step s a = some t)
    (fits : ∀ pid, (s.clients pid).main ≠ .absent → IsInt pid) :
    ∀ pid, (t.clients pid).main ≠ .absent → IsInt pid := by
  intro p present
  by_cases before : (s.clients p).main = .absent
  · have started := started_of_present stepped before present
    cases step_move stepped with
    | start fresh positive isInt => exact Option.some.inj started ▸ isInt
    | say | quit | leave | wake | look | hear | members | message => cases started
  · exact fits p before

/-- What a client sends is a line as it was typed, or is not marked as one. -/
theorem written_step {s t : State} {a : Action} (plain : Plain s a) (orderly : Orderly s)
    (stepped : step s a = some t) (client : a ≠ .members ∧ a ≠ .message)
    (fits : ∀ pid, (s.clients pid).main ≠ .absent → IsInt pid)
    (written : ∀ mtext ∈ s.queue 2, Marked '3' mtext → ∃ line pid, Written mtext line pid) :
    ∀ mtext ∈ t.queue 2, Marked '3' mtext → ∃ line pid, Written mtext line pid := by
  have kept {queue : Queue} (same : queue 2 = s.queue 2) :
      ∀ mtext ∈ queue 2, Marked '3' mtext → ∃ line pid, Written mtext line pid := by
    rw [same]
    exact written
  cases step_move stepped with
  | @start pid nick =>
    exact kept (msgsnd_of_ne (show (2 : Int) ≠ 1 by decide) (wordText 1 nick pid))
  | @leave pid =>
    exact kept (msgsnd_of_ne (show (2 : Int) ≠ 1 by decide) (wordText 0 (s.clients pid).nick pid))
  | @say pid line running healthy other =>
    intro mtext (inside : mtext ∈ msgsnd s.queue 2 (lineText 3 line pid) 2) marked
    rw [msgsnd_self (by decide)] at inside
    rcases List.mem_append.mp inside with old | isNew
    · exact written mtext old marked
    · exact ⟨line, pid, plain, fits pid (by simp [running]), List.mem_singleton.mp isNew⟩
  | @wake pid left =>
    intro mtext (inside : mtext ∈ msgsnd s.queue 2 (lineText 4 (s.clients pid).nick pid) 2) marked
    rw [msgsnd_self (by decide)] at inside
    rcases List.mem_append.mp inside with old | isNew
    · exact written mtext old marked
    · rw [List.mem_singleton.mp isNew, Marked, strtok_lineText] at marked
      cases marked
  | @quit pid running =>
    have client := orderly.pids pid (by simp [running])
    exact kept (msgsnd_of_ne (by omega) _)
  | look => exact kept rfl
  | @hear pid mtext rest present =>
    have client := orderly.pids pid present
    exact kept (Function.update_of_ne (by omega) _ _)
  | members => exact absurd rfl client.1
  | message => exact absurd rfl client.2

/-- One step under the condition. The log holds what was seen in the queues, so the
invariant ties the texts themselves to what the server has stored. -/
theorem invariant_step {p : Int} (client : 2 < p) {log : List Event} {s t : State} {a : Action}
    (inv : Invariant p log s) (allowed : Synchronised s a) (stepped : step s a = some t) :
    Invariant p (log ++ observe p s a) t := by
  obtain ⟨⟨plain, apart⟩, nonePassed⟩ := allowed
  have orderly := orderly_step inv.orderly ⟨plain.named, apart⟩ stepped
  have watched (server : a = .members ∨ a = .message) : observe p s a = seen p s t := by
    rw [observe, if_pos server, stepped]
    rfl
  -- A step of a client adds at most one text of type 2, and is not counted.
  have aside (isClient : a ≠ .members ∧ a ≠ .message) (same : t.server = s.server) :
      Invariant p (log ++ observe p s a) t := by
    rw [observe, if_neg (by simp [isClient]), List.append_nil]
    exact ⟨orderly, fits_step stepped inv.fits,
      written_step plain inv.orderly stepped isClient inv.fits inv.written, same ▸ inv.held,
      same ▸ inv.request, same ▸ inv.stored, same ▸ inv.inside, same ▸ inv.taken, same ▸ inv.put⟩
  cases step_move stepped with
  | start | say | quit | leave | wake | look | hear => exact aside (by simp) rfl
  | members running moved =>
    rw [watched (.inl rfl)]
    exact invariant_members inv client nonePassed orderly moved
  | message running moved =>
    rw [watched (.inr rfl)]
    exact invariant_message inv client apart.1 orderly moved

/-- In every run in which each newcomer has been replayed, when it is registered, all
lines whose broadcast is over, and in which the texts are read as they were written:
once both handlers wait, the lines that a joined member has been sent are the lines
that the server has taken, each once and in that order. -/
theorem lines_sent_once {p : Int} {log : List Event} {s : State}
    (run : (watched p).Reach Synchronised initial log s) (idle : Idle s.server)
    (joined : p ∈ onlineIds s.server.members) : SentOnce log := by
  have inTable := mem_ids_of_mem_onlineIds joined
  have orderly := run.stateInvariant Orderly orderly_initial
    fun _ _ _ orderly allowed stepped => orderly_step orderly allowed.1.undivided stepped
  have inv := run.invariant (Invariant p) (invariant_initial p)
    fun _ _ _ _ inv allowed stepped =>
      invariant_step (orderly.member_pid inTable) inv allowed stepped
  obtain ⟨-, receiving, waiting⟩ := idle
  have nothing : textsInHand s.server.messagePc = [] ∧
      passed s.server.messagePc ((ids s.server.members).idxOf p) = false := by
    rcases waiting with pc | pc <;> simp [pc, textsInHand, passed, MessagePc.past]
  have taken := inv.taken
  rw [nothing.1, List.append_nil] at taken
  rw [SentOnce, inv.put (by simp [receiving, MembersPc.Serving]), sent, if_pos inTable, nothing.2]
  exact List.take_of_length_le (by simp [taken])

/-- "a" (3) joins alone. -/
def firstJoin : List Action := .start 3 ['a'] :: List.replicate 9 .members

/-- "b" (4) joins up to the end of its replay. -/
def secondJoin : List Action := .start 4 ['b'] :: List.replicate 6 .members

/-- "h" from "a" is broadcast and stored. -/
def firstLine : List Action := .type 3 ['h'] :: List.replicate 7 .message

/-- "b" is registered and its join broadcast to both. -/
def registration : List Action := List.replicate 5 .members

/-- "b" is registered in time, and "h" is put into its queue by the broadcast. -/
theorem lines_sent_once_both :
    ∃ log s, (watched 4).Reach Synchronised initial log s ∧ Idle s.server ∧
      (4 : Int) ∈ onlineIds s.server.members ∧ takenLines log = [lineText 3 ['h'] 3] ∧
      SentOnce log := by
  obtain ⟨log, s, run, idle, joined, taken⟩ := (watched 4).exists_reach Synchronised initial
    (firstJoin ++ secondJoin ++ registration ++ firstLine ++ [Action.message])
    (fun log s => Idle s.server ∧ (4 : Int) ∈ onlineIds s.server.members ∧
      takenLines log = [lineText 3 ['h'] 3]) (by decide)
  exact ⟨log, s, run, idle, joined, taken, lines_sent_once run idle joined⟩

/-- The line's broadcast and store fall between the replay and the registration of
"b", into whose queue it is put neither way. -/
theorem line_lost :
    ∃ log s, (watched 4).Reach Intact initial log s ∧ Idle s.server ∧
      (4 : Int) ∈ onlineIds s.server.members ∧ takenLines log = [lineText 3 ['h'] 3] ∧
      putLines log = [] ∧ ¬ SentOnce log := by
  obtain ⟨log, s, run, idle, joined, taken, lost⟩ := (watched 4).exists_reach Intact initial
    (firstJoin ++ secondJoin ++ firstLine ++ registration)
    (fun log s => Idle s.server ∧ (4 : Int) ∈ onlineIds s.server.members ∧
      takenLines log = [lineText 3 ['h'] 3] ∧ putLines log = []) (by decide)
  exact ⟨log, s, run, idle, joined, taken, lost, by simp [SentOnce, taken, lost]⟩

end EltexCourse.Guarantees.Chat.Delivery
