import EltexCourse.Foundations.Logs
import EltexCourse.Source.Chat.MessageQueueMoves

/-!
# Messages to members that have left

Entries are never deleted, and `broadcast` sends to every entry. So a member that
has left goes on receiving: the notice of its own leave is broadcast after its
flag is cleared, and every request and line after it as well. `shair_database`
is different, it sends to the newcomer only.
-/

set_option autoImplicit false

namespace EltexCourse.Guarantees.Chat.Departures
open Foundations.CString Foundations.Decimal Foundations.Logs Foundations.Transition
open Source.Chat Source.Chat.MessageQueue

/-- What the server does about a pid. -/
inductive Event where
  | joined (pid : Int)
  /-- The member is marked offline. -/
  | left (pid : Int)
  /-- A text with this type is put into the queue. -/
  | sent (pid : Int)
  deriving DecidableEq, Repr

/-- The request of which the next turn of `members_handler` finds the number. -/
def request (s : State) : Option MemberRequest :=
  match s.server.membersPc, (strtok [' '] s.server.strtokCursor).1 with
  | .leaveNumber _, some number => some (.leave (atoi number))
  | .joinNumber line _, some number => some (.join line (atoi number))
  | _, _ => none

/-- The member that it marks offline. -/
def leaver (s : State) : Option Int :=
  match request s with
  | some (.leave id) => if (s.server.accounts.leave id).isSome then some id else none
  | _ => none

def joiner (s : State) : Option Int :=
  match request s with
  | some (.join _ id) => some id
  | _ => none

/-- The type of the `msgsnd` a thread makes in a turn. -/
def addressee (s : Server) : Action → Option Int
  | .members =>
    match s.membersPc with
    | .shareMembers i member _ =>
      if (s.members[i]?).any (·.isOnline ≠ 0) then some member.id else none
    | .shareMessages i member _ => if i < s.messages.length then some member.id else none
    | .broadcast i _ => (s.members[i]?).map (·.id)
    | _ => none
  | .message =>
    match s.messagePc with
    | .broadcast i _ => (s.members[i]?).map (·.id)
    | _ => none
  | _ => none

/-- `msgsnd` refuses a type below 1. -/
def enqueued : Option Int → List Event
  | some pid => if 0 < pid then [.sent pid] else []
  | none => []

def observe (s : State) : Action → List Event
  | .members =>
    (leaver s).toList.map .left ++ (joiner s).toList.map .joined ++
      enqueued (addressee s.server .members)
  | a => enqueued (addressee s.server a)

def watched : System State Action Event := ⟨step, observe⟩

/-- The pid has left since it last joined. -/
def Departed (p : Int) (log : List Event) : Prop := 0 < sinceLast (· = .joined p) (· = .left p) log

/-- Nothing is sent to a pid that has left and not joined again. -/
def Silent (log : List Event) : Prop :=
  EachEntry (fun before e => ∀ p, e = .sent p → ¬ Departed p before) log

/-- `members_handler` marks nobody offline. -/
def NobodyLeaves (s : State) (a : Action) : Prop := a = .members → ∀ p ∈ leaver s, p ≤ 0

instance (s : State) (a : Action) : Decidable (NobodyLeaves s a) :=
  inferInstanceAs (Decidable (_ → _))

theorem departed_append (p : Int) (log : List Event) (e : Event) :
    Departed p (log ++ [e]) ↔ e ≠ .joined p ∧ (e = .left p ∨ Departed p log) := by
  unfold Departed
  rw [sinceLast_append]
  by_cases joins : e = .joined p
  · simp [joins]
  · by_cases leaves : e = .left p <;> simp [joins, leaves]

theorem departed_sent (p q : Int) (log : List Event) :
    Departed p (log ++ [.sent q]) ↔ Departed p log := by
  simp [departed_append]

theorem departed_enqueued (p : Int) (log : List Event) (receiver : Option Int) :
    Departed p (log ++ enqueued receiver) ↔ Departed p log := by
  unfold enqueued
  split
  · split
    · exact departed_sent p _ log
    · rw [List.append_nil]
  · rw [List.append_nil]

/-- Who has left is in the log. -/
theorem left_of_departed {p : Int} {log : List Event} (departed : Departed p log) :
    .left p ∈ log := by
  have counted := Nat.lt_of_lt_of_le departed sinceLast_le
  obtain ⟨e, inside, isLeft⟩ := List.countP_pos_iff.mp counted
  rwa [← of_decide_eq_true isLeft]

/-- An event of sending names the receiver, a positive id, and stands for one `msgsnd`.
-/
theorem mem_enqueued {receiver : Option Int} {e : Event} (sent : e ∈ enqueued receiver) :
    ∃ p, e = .sent p ∧ 0 < p ∧ receiver = some p := by
  unfold enqueued at sent
  split at sent
  next pid =>
    split at sent
    next positive => exact ⟨pid, List.mem_singleton.mp sent, positive, rfl⟩
    · exact absurd sent List.not_mem_nil
  · exact absurd sent List.not_mem_nil

theorem left_mem_observe {s : State} {a : Action} {p : Int} :
    .left p ∈ observe s a ↔ a = .members ∧ leaver s = some p := by
  have notSent (receiver : Option Int) : .left p ∉ enqueued receiver := by
    intro inside
    obtain ⟨q, same, -⟩ := mem_enqueued inside
    cases same
  cases a with
  | members => simp [observe, notSent]
  | start | type | leave | wake | poll | message => simp [observe, notSent]

/-- What is logged as sent goes to the client that the step has as its addressee. -/
theorem sent_mem_observe {s : State} {a : Action} {p : Int} (sent : .sent p ∈ observe s a) :
    0 < p ∧ addressee s.server a = some p := by
  have inside : .sent p ∈ enqueued (addressee s.server a) := by
    cases a with
    | members => simpa [observe] using sent
    | start | type | leave | wake | poll | message => exact sent
  obtain ⟨q, same, positive, receiver⟩ := mem_enqueued inside
  cases same
  exact ⟨positive, receiver⟩

/-- A turn that takes no request only sends. -/
theorem observe_of_busy {s : State} (busy : request s = none) :
    observe s .members = enqueued (addressee s.server .members) := by
  simp [observe, leaver, joiner, busy]

theorem observe_message (s : State) :
    observe s .message = enqueued (addressee s.server .message) := by
  simp only [observe]

theorem request_eq_none {s : State} (elsewhere : s.server.membersPc.parsing = none) :
    request s = none := by
  unfold request
  split
  next pc _ => simp [pc, MembersPc.parsing] at elsewhere
  next pc _ => simp [pc, MembersPc.parsing] at elsewhere
  · rfl

/-- A turn that takes a request apart sends nothing. -/
theorem addressee_of_parsing {s : Server} {raw : Text} (parsing : s.membersPc.parsing = some raw) :
    addressee s .members = none := by
  cases pc : s.membersPc with
  | leaveName | leaveNumber | joinName | joinNumber => simp [addressee, pc]
  | receive | shareMembers | shareMessages | register | broadcast | decide | unlocked | cleared
  | stopped => simp [pc, MembersPc.parsing] at parsing

/-- Nor does one that calls `strtok` on a line. -/
theorem addressee_of_splitting {s : Server} (splitting : s.messagePc.splitting = true) :
    addressee s .message = none := by
  cases pc : s.messagePc with
  | receive | line | number => simp [addressee, pc]
  | test | wake | broadcast | add | stopped => simp [pc, MessagePc.splitting] at splitting

theorem addressee_of_request {s : State} {taken : MemberRequest} (found : request s = some taken) :
    addressee s.server .members = none := by
  cases parsing : s.server.membersPc.parsing with
  | none => cases (request_eq_none parsing).symm.trans found
  | some raw => exact addressee_of_parsing parsing

/-- Somebody leaves when a leave is read to its end and an entry of its id is found. -/
theorem leaver_spec {s : State} {p : Int} (leaves : leaver s = some p) :
    request s = some (.leave p) ∧ (s.server.accounts.leave p).isSome := by
  unfold leaver at leaves
  split at leaves
  next id found =>
    split at leaves
    next marked =>
      cases leaves
      exact ⟨found, marked⟩
    · cases leaves
  · cases leaves

theorem observe_leave {s : State} {p : Int} (leaves : leaver s = some p) :
    observe s .members = [.left p] := by
  have found := (leaver_spec leaves).1
  simp [observe, leaves, joiner, found, addressee_of_request found, enqueued]

theorem count_sent {s : State} {a : Action} {p : Int} (positive : 0 < p) :
    (observe s a).count (.sent p) = if addressee s.server a = some p then 1 else 0 := by
  have counted (receiver : Option Int) :
      (enqueued receiver).count (.sent p) = if receiver = some p then 1 else 0 := by
    unfold enqueued
    split
    next q =>
      split
      next valid => simp [List.count_singleton]
      next refused =>
        have other : q ≠ p := by omega
        simp [other]
    · simp
  cases a with
  | members =>
    rw [observe, List.count_append, counted, List.count_eq_zero_of_not_mem (by simp), Nat.zero_add]
  | start | type | leave | wake | poll | message => simp only [observe, counted]

/-- `msgsnd` adds one text to the queue of its type, and none to the others. -/
theorem msgsnd_count (q : Queue) (mtype : Int) (mtext : Text) {p : Int} (positive : 0 < p) :
    ∃ texts, msgsnd q mtype mtext p = q p ++ texts ∧
      texts.length = if some mtype = some p then 1 else 0 := by
  by_cases same : mtype = p
  · subst same
    exact ⟨[mtext], msgsnd_self positive mtext, by simp⟩
  · exact ⟨[], by rw [msgsnd_of_ne (Ne.symm same), List.append_nil], by simp [same]⟩

/-- A step of the server puts as many texts into the queue of a client as its `sent`
events say. -/
def Told (s : State) : Prop :=
  ∀ a t, a = .members ∨ a = .message → step s a = some t → ∀ p, 2 < p →
    ∃ texts, t.queue p = s.queue p ++ texts ∧ texts.length = (observe s a).count (.sent p)

/-- In every state: the texts a step of the server adds to the queue of a client are as
many as the events it logs for it. -/
theorem told (s : State) : Told s := by
  intro a t server stepped p client
  have positive : 0 < p := by omega
  have unsent {queue : Queue} (same : queue p = s.queue p) (nobody : addressee s.server a = none) :
      ∃ texts, queue p = s.queue p ++ texts ∧
        texts.length = if addressee s.server a = some p then 1 else 0 :=
    ⟨[], by rw [same, List.append_nil], by simp [nobody]⟩
  rw [count_sent positive]
  cases step_move stepped with
  | start | say | quit | leave | wake | look | hear => simp at server
  | members running moved =>
    cases moved with
    | crash pc | takeLeave pc | takeJoin pc =>
      exact unsent (Function.update_of_ne (by omega) _ _) (by simp [addressee, pc])
    | @shareMember i member entry raw pc found =>
      by_cases flag : entry.isOnline = 0
      · exact unsent (by simp [flag]) (by simp [addressee, pc, found, flag])
      · have receiver : addressee s.server .members = some member.id := by
          simp [addressee, pc, found, flag]
        rw [receiver]
        simpa [flag] using msgsnd_count s.queue member.id (memberText entry) positive
    | @shareMessage i member entry raw pc found =>
      have inside : i < s.server.messages.length := (List.getElem?_eq_some_iff.mp found).1
      have receiver : addressee s.server .members = some member.id := by
        simp [addressee, pc, inside]
      rw [receiver]
      exact msgsnd_count s.queue member.id (historyText entry) positive
    | @broadcast i entry raw pc found =>
      have receiver : addressee s.server .members = some entry.id := by
        simp [addressee, pc, found]
      rw [receiver]
      exact msgsnd_count s.queue entry.id raw positive
    | shareMembersEnd pc done | shareMessagesEnd pc done | broadcastEnd pc done =>
      exact unsent rfl (by simp [addressee, pc, done])
    | tokenCrash parsing => exact unsent rfl (addressee_of_parsing parsing)
    | leaveName pc | leaveNumber pc | joinName pc | joinNumber pc | register pc | goOn pc
    | unlock pc
    | clear pc | exit pc => exact unsent rfl (by simp [addressee, pc])
  | message running moved =>
    cases moved with
    | crash pc | takeWake pc | takeLine pc =>
      exact unsent (Function.update_of_ne (by omega) _ _) (by simp [addressee, pc])
    | @broadcast i entry raw pc found =>
      have receiver : addressee s.server .message = some entry.id := by
        simp [addressee, pc, found]
      rw [receiver]
      exact msgsnd_count s.queue entry.id raw positive
    | broadcastEnd pc done => exact unsent rfl (by simp [addressee, pc, done])
    | tokenCrash splitting => exact unsent rfl (addressee_of_splitting splitting)
    | goOn pc | exit pc | wakeEmpty pc | wakeOther pc | line pc | number pc | add pc =>
      exact unsent rfl (by simp [addressee, pc])

theorem nobody_left {log : List Event} {s : State} (run : watched.Reach NobodyLeaves initial log s)
    {p : Int} (positive : 0 < p) : .left p ∉ log := by
  apply run.invariant (fun log _ => .left p ∉ log) List.not_mem_nil
  intro log s a t absent allowed _ inside
  rcases List.mem_append.mp inside with earlier | now
  · exact absent earlier
  · obtain ⟨isMembers, leaves⟩ := left_mem_observe.mp now
    have bound := allowed isMembers p leaves
    omega

theorem sent_positive {ok : State → Action → Prop} {log : List Event} {s : State}
    (run : watched.Reach ok initial log s) : ∀ p, .sent p ∈ log → 0 < p := by
  apply run.invariant (fun log _ => ∀ p, .sent p ∈ log → 0 < p) (by simp)
  intro log s a t earlier _ _ p inside
  rcases List.mem_append.mp inside with old | now
  · exact earlier p old
  · exact (sent_mem_observe now).1

theorem silent_of_nobody_leaves {log : List Event} {s : State}
    (run : watched.Reach NobodyLeaves initial log s) : Silent log := by
  rintro before _ after rfl p rfl departed
  have positive : 0 < p := sent_positive run p (by simp)
  exact nobody_left run positive (List.mem_append_left _ (left_of_departed departed))

theorem observe_join {s : State} {p : Int} (joins : joiner s = some p) :
    observe s .members = [.joined p] := by
  unfold joiner at joins
  split at joins
  next line id found =>
    cases joins
    simp [observe, leaver, joiner, found, addressee_of_request found, enqueued]
  · cases joins

/-- Nobody is in a join and away. -/
def Present (log : List Event) (s : State) : Prop :=
  ∀ member, s.server.membersPc.newcomer = some member → ¬ Departed member.id log

/-- A newcomer is logged as joined by the step that takes its number, and no leave is
taken before it is in the table. -/
theorem present_step {log : List Event} {s t : State} {a : Action} (present : Present log s)
    (stepped : step s a = some t) : Present (log ++ observe s a) t := by
  have kept {server : Server} (receiver : Option Int)
      (membersPc : server.membersPc.newcomer = s.server.membersPc.newcomer)
      (shown : observe s a = enqueued receiver) :
      ∀ member, server.membersPc.newcomer = some member →
        ¬ Departed member.id (log ++ observe s a) := by
    intro member newcomer
    rw [shown, departed_enqueued]
    exact present member (membersPc ▸ newcomer)
  cases step_move stepped with
  | start | say | quit | leave | wake | look | hear => exact kept none rfl rfl
  | message running moved =>
    exact kept _ (congrArg _ (messageMove_membersPc moved)) (observe_message s)
  | members running moved =>
    cases moved with
    | @joinNumber raw cursor line number pc found =>
      have joins : joiner s = some (atoi number) := by simp [joiner, request, pc, found]
      intro member newcomer
      obtain rfl : ⟨line, atoi number, 1⟩ = member := Option.some.inj newcomer
      simp [observe_join joins, departed_append]
    | shareMember pc | shareMembersEnd pc | shareMessage pc | shareMessagesEnd pc =>
      exact kept _ (by simp [pc, MembersPc.newcomer])
        (observe_of_busy (request_eq_none (by rw [pc]; rfl)))
    | crash pc => exact fun member newcomer => by simp [pc, MembersPc.newcomer] at newcomer
    | tokenCrash parsing =>
      intro member newcomer
      rw [(parsing_serving parsing).2] at newcomer
      cases newcomer
    | takeLeave | takeJoin | leaveName | leaveNumber | joinName | register | broadcast
    | broadcastEnd | goOn | unlock | clear | exit =>
      exact fun member newcomer => by simp [MembersPc.newcomer] at newcomer

/-- In every run, whoever `shair_database` sends to has not left since its join. -/
theorem shared_with_present {log : List Event} {s : State}
    (run : watched.Reach System.Anything initial log s) : Present log s :=
  run.invariant Present (fun member newcomer => by simp [initial, Server.initial,
    MembersPc.newcomer] at newcomer) fun _ _ _ _ present _ stepped => present_step present stepped

/-- `broadcast`, run by `members_handler`, has an entry of this pid before it. -/
def Announcing (s : Server) (p : Int) : Prop :=
  ∃ i raw k entry, s.membersPc = .broadcast i raw ∧ i ≤ k ∧ s.members[k]? = some entry ∧
    entry.id = p

/-- A leave is followed by the broadcast of its notice, from the first entry on. -/
theorem announcing_of_leave {s t : State} {p : Int} (leaves : leaver s = some p)
    (stepped : step s .members = some t) : Announcing t.server p := by
  obtain ⟨isRequest, known⟩ := leaver_spec leaves
  cases step_move stepped with
  | members running moved =>
    cases moved with
    | @leaveNumber raw cursor number accounts pc found cleared =>
      obtain rfl : atoi number = p := by simpa [request, pc, found] using isRequest
      obtain ⟨members, first, rfl⟩ := Option.map_eq_some_iff.mp cleared
      obtain ⟨before, entry, after, -, key, -, split⟩ := markOffline_some first
      refine ⟨0, raw, before.length, { entry with isOnline := 0 }, rfl, Nat.zero_le _, ?_, key⟩
      simp [Server.members, split]
    | tokenCrash parsing broken =>
      rcases broken with missing | ⟨number, rest, pc, found, unmarked⟩
      · simp [request, missing] at isRequest
      · obtain rfl : atoi number = p := by simpa [request, pc, found] using isRequest
        simp [unmarked] at known
    | joinNumber pc found => simp [request, pc, found] at isRequest
    | crash pc | takeLeave pc | takeJoin pc | leaveName pc | joinName pc | shareMember pc
    | shareMembersEnd pc | shareMessage pc | shareMessagesEnd pc | register pc | broadcast pc
    | broadcastEnd pc | goOn pc | unlock pc | clear pc | exit pc => simp [request, pc] at isRequest

/-- One turn of the server either sends to that entry or keeps it ahead. -/
theorem announcing_step {s t : State} {a : Action} {p : Int} (positive : 0 < p)
    (announcing : Announcing s.server p) (stepped : step s a = some t) :
    observe s a = [.sent p] ∨ (Announcing t.server p ∧ ∃ receiver, observe s a = enqueued receiver)
    := by
  obtain ⟨i, raw, k, entry, pc, ahead, found, key⟩ := announcing
  have busy : request s = none := request_eq_none (by rw [pc]; rfl)
  have kept {server : Server} (membersPc : server.membersPc = s.server.membersPc)
      (accounts : server.accounts = s.server.accounts) : Announcing server p :=
    ⟨i, raw, k, entry, membersPc.trans pc, ahead,
      by rw [Server.members, accounts]; exact found, key⟩
  cases step_move stepped with
  | start | say | quit | leave | wake | look | hear =>
    exact Or.inr ⟨kept rfl rfl, none, by simp [observe, addressee, enqueued]⟩
  | message running moved =>
    exact Or.inr ⟨kept (messageMove_membersPc moved) (messageMove_accounts moved), _,
      observe_message s⟩
  | members running moved =>
    cases moved with
    | @broadcast j head raw' at_ here =>
      obtain ⟨rfl, rfl⟩ : i = j ∧ raw = raw' := by simpa [pc] using at_
      rcases Nat.eq_or_lt_of_le ahead with rfl | later
      · left
        rw [observe_of_busy busy]
        simp [addressee, pc, found, enqueued, key, positive]
      · exact Or.inr ⟨⟨i + 1, raw, k, entry, rfl, later, found, key⟩, _, observe_of_busy busy⟩
    | @broadcastEnd j raw' at_ done =>
      obtain ⟨rfl, rfl⟩ : i = j ∧ raw = raw' := by simpa [pc] using at_
      have inside : k < s.server.members.length := (List.getElem?_eq_some_iff.mp found).1
      omega
    | tokenCrash parsing => simp [pc, MembersPc.parsing] at parsing
    | crash other | takeLeave other | takeJoin other | leaveName other | leaveNumber other
    | joinName other | joinNumber other | shareMember other | shareMembersEnd other
    | shareMessage other | shareMessagesEnd other | register other | goOn other | unlock other
    | clear other | exit other => simp [pc] at other

/-- Whoever has left has been sent something since, or is about to be. -/
def Followed (log : List Event) (s : State) : Prop :=
  ∀ p, 0 < p → .left p ∈ log → ¬ Silent log ∨ (Departed p log ∧ Announcing s.server p)

/-- One step towards the notice: until the broadcast has passed the entry of the one who
left, this is still to come. -/
theorem followed_step {log : List Event} {s t : State} {a : Action} (followed : Followed log s)
    (stepped : step s a = some t) : Followed (log ++ observe s a) t := by
  intro p positive inside
  rcases List.mem_append.mp inside with earlier | now
  · rcases followed p positive earlier with broken | ⟨departed, announcing⟩
    · exact Or.inl fun silent => broken silent.of_append
    · rcases announcing_step positive announcing stepped with shown | ⟨ahead, receiver, shown⟩
      · rw [shown]
        exact Or.inl fun silent => silent.last p rfl departed
      · rw [shown]
        exact Or.inr ⟨(departed_enqueued p log receiver).mpr departed, ahead⟩
  · obtain ⟨rfl, leaves⟩ := left_mem_observe.mp now
    rw [observe_leave leaves]
    exact Or.inr ⟨(departed_append p log _).mpr (by simp), announcing_of_leave leaves stepped⟩

/-- The log counts what is put into the queue of each client. Where nobody is ever
marked offline, nobody who has left is written to. And that is the only way: in any
other run somebody is, unless `members_handler` is still in the `broadcast` of a
leave. -/
theorem silent_iff_nobody_leaves {log : List Event} {s : State}
    (run : watched.Reach System.Anything initial log s) :
    Told s ∧ (watched.Reach NobodyLeaves initial log s → Silent log) ∧
      ((∀ i raw, s.server.membersPc ≠ .broadcast i raw) →
        Silent log → watched.Reach NobodyLeaves initial log s) := by
  refine ⟨told s, silent_of_nobody_leaves, fun idle silent => ?_⟩
  · have followed := run.invariant Followed (by simp [Followed])
      fun _ _ _ _ followed _ stepped => followed_step followed stepped
    apply run.restrict fun e => ∃ p, 0 < p ∧ e = .left p
    · intro s a stays
      simp only [NobodyLeaves, not_forall] at stays
      obtain ⟨isMembers, p, leaves, positive⟩ := stays
      exact ⟨.left p, left_mem_observe.mpr ⟨isMembers, leaves⟩, p, by omega, rfl⟩
    · rintro _ inside ⟨p, positive, rfl⟩
      rcases followed p positive inside with broken | ⟨-, i, raw, k, entry, pc, -⟩
      · exact broken silent
      · exact idle i raw pc

/-- "a" (3) joins alone and says "h". -/
def quietDay : List Action :=
  List.flatten [.start 3 ['a'] :: List.replicate 9 .members,
    .type 3 ['h'] :: List.replicate 7 .message]

theorem silent_iff_nobody_leaves_quiet :
    ∃ log s, watched.Reach NobodyLeaves initial log s ∧ log = [.joined 3, .sent 3, .sent 3] ∧
      Silent log := by
  obtain ⟨log, s, run, shown⟩ := watched.exists_reach NobodyLeaves initial quietDay
    (fun log _ => log = [.joined 3, .sent 3, .sent 3]) (by decide)
  have anyRun := run.mono fun _ _ _ => trivial
  exact ⟨log, s, run, shown, (silent_iff_nobody_leaves anyRun).2.1 run⟩

/-- "a" (3) and "b" (4) join, "a" leaves, "b" says "h". -/
def departure : List Action :=
  List.flatten [.start 3 ['a'] :: List.replicate 9 .members,
    .start 4 ['b'] :: List.replicate 11 .members, [.type 3 exitLine, .poll 3, .leave 3],
    List.replicate 7 .members, .type 4 ['h'] :: List.replicate 7 .message]

/-- "a" is sent the notice of its leave by one thread and the line by the other. -/
theorem departed_addressed :
    ∃ log s, watched.Reach System.Anything initial log s ∧
      log.drop 6 = [.left 3, .sent 3, .sent 4, .sent 3, .sent 4] ∧ ¬ Silent log := by
  obtain ⟨log, s, run, shown⟩ := watched.exists_reach System.Anything initial departure
    (fun log _ => log.drop 6 = [.left 3, .sent 3, .sent 4, .sent 3, .sent 4]) (by decide)
  refine ⟨log, s, run, shown, fun silent => ?_⟩
  have split : log = (log.take 6 ++ [.left 3]) ++ .sent 3 :: [.sent 4, .sent 3, .sent 4] := by
    rw [List.append_assoc, List.singleton_append, ← shown, List.take_append_drop]
  exact silent _ _ _ split 3 rfl ((departed_append 3 _ _).mpr (by simp))

end EltexCourse.Guarantees.Chat.Departures
