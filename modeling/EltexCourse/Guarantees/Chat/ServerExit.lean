import EltexCourse.Guarantees.Chat.Requests

/-!
# task13/chat: how the server ends

`members_handler` leaves its loop when the last leave is handled, sets
`members.size` to 0 and then `exit_flag`, and returns. `message_hendler` waits in
`msgrcv` for type 2 and looks at these only between two messages. A client sends its
leave and then its wake-up, so the last text of type 2 is a wake-up; but the two are
taken by different threads, and the wake-up that overtakes its sender's leave wakes
`message_hendler` for nothing.
-/

set_option autoImplicit false

namespace EltexCourse.Guarantees.Chat.ServerExit
open Foundations.CString Foundations.Decimal Foundations.Transition
open Source.Chat Source.Chat.MessageQueue Traffic Requests

/-- The client has joined and its wake-up is still to come. -/
def Present (s : State) (pid : Int) : Prop :=
  (s.clients pid).main ≠ .absent ∧ (s.clients pid).main ≠ .gone

instance (s : State) (pid : Int) : Decidable (Present s pid) :=
  inferInstanceAs (Decidable (_ ∧ _))

/-- `message_hendler` waits for a message that nobody is left to send. -/
structure Stuck (s : State) : Prop where
  alive : s.server.crashed = false
  returned : s.server.membersPc = .stopped
  nobody : ∀ pid, ¬ Present s pid
  drained : s.queue 2 = []
  waiting : s.server.messagePc = .receive

/-- The number that `members_handler` finds next in the request in hand. -/
def numberFound (s : Server) : Option Int := (strtok [' '] s.strtokCursor).1.map atoi

/-- `members_handler` has emptied the table by the time at which `message_hendler` looks
at it for the last wake-up: that of the last client, with nothing of type 2 behind it.
Nobody has the id 2: as a client it would take the server's messages, as a member
it would add to them. -/
def ClearedFirst (s : State) : Action → Prop
  | .start pid _ => pid ≠ 2
  | .members => ∀ line raw, s.server.membersPc = .joinNumber line raw →
      numberFound s.server ≠ some 2
  | .message => s.server.messagePc = .wake → s.queue 2 = [] → (∀ pid, ¬ Present s pid) →
      ¬ s.server.membersPc.Serving
  | _ => True

/-- The texts of type 2 end in a wake-up, or `message_hendler` has taken it. -/
def Awoken (s : State) : Prop :=
  match (s.queue 2).getLast? with
  | some mtext => Marked '4' mtext
  | none => s.server.messagePc = .wake ∨ s.server.messagePc = .stopped

structure Invariant (s : State) : Prop where
  ownQueue : (s.clients 2).main = .absent
  members : 2 ∉ ids s.server.members
  newcomer : s.server.membersPc.newcomer.map (·.id) ≠ some 2
  emptied : ¬ s.server.membersPc.Serving → s.server.members = []
  /-- Before the first client there is no request, and no member. -/
  idle : (∀ pid, (s.clients pid).main = .absent) →
    s.server.membersPc = .receive ∧ s.queue 1 = [] ∧ s.server.members = []
  awoken : s.server.crashed = false → (∃ pid, (s.clients pid).main ≠ .absent) →
    (∀ pid, ¬ Present s pid) → Awoken s

theorem invariant_initial : Invariant initial :=
  ⟨rfl, List.not_mem_nil, (fun same => by cases same), fun _ => rfl, fun _ => ⟨rfl, rfl, rfl⟩,
    fun _ ⟨_, present⟩ => absurd rfl present⟩

theorem Awoken.congr {s t : State} (awoken : Awoken s) (lines : t.queue 2 = s.queue 2)
    (messagePc : t.server.messagePc = s.server.messagePc) : Awoken t := by
  unfold Awoken
  rw [lines, messagePc]
  exact awoken

section Server

variable {s : State} {server : Server} {queue : Queue}

/-- Nobody is sent anything under the id 2. -/
theorem Invariant.lines_members (inv : Invariant s)
    (moved : MembersMove s.server s.queue server queue) : queue 2 = s.queue 2 := by
  rcases membersMove_sends moved (p := 2) (by decide) with same | ⟨mtext, origin, -⟩
  · exact same
  · have members := inv.members
    have newcomer := inv.newcomer
    generalize two : (2 : Int) = receiver at origin members newcomer
    cases origin with
    | member pc | history pc => simp [pc, MembersPc.newcomer] at newcomer
    | request pc found =>
      exact absurd (List.mem_map_of_mem (List.mem_of_getElem? found)) members

/-- `members_handler` waits for the first client. -/
theorem Invariant.begun (inv : Invariant s)
    (moved : MembersMove s.server s.queue server queue) :
    ∃ pid, (s.clients pid).main ≠ .absent := by
  by_contra none
  obtain ⟨pc, requests, -⟩ := inv.idle (not_exists_not.mp none)
  cases moved with
  | crash _ head | takeLeave _ head | takeJoin _ head => simp [requests] at head
  | tokenCrash other => simp [pc, MembersPc.parsing] at other
  | leaveName other | leaveNumber other | joinName other | joinNumber other | shareMember other
  | shareMembersEnd other | shareMessage other | shareMessagesEnd other | register other
  | broadcast other | broadcastEnd other | goOn other | unlock other | clear other | exit other =>
    simp [pc] at other

/-- Any turn of `members_handler`. Its last ones empty the table and set the flag; until
then the wake-ups still to come are counted. -/
theorem invariant_members (inv : Invariant s) (allowed : ClearedFirst s .members)
    (running : s.server.crashed = false) (moved : MembersMove s.server s.queue server queue) :
    Invariant { s with server, queue } := by
  have begun := inv.begun moved
  have awoken (nobody : ∀ pid, ¬ Present s pid) : Awoken { s with server, queue } :=
    (inv.awoken running begun nobody).congr (inv.lines_members moved)
      (membersMove_untouched moved).2
  have members := inv.members
  have newcomer := inv.newcomer
  refine ⟨inv.ownQueue, ?_, ?_, ?_, fun absent => ?_, fun _ _ => awoken⟩
  · cases moved with
    | leaveNumber pc found marked =>
      obtain ⟨members, first, rfl⟩ := Option.map_eq_some_iff.mp marked
      simpa only [Server.members, markOffline_ids first] using inv.members
    | @register i member raw pc =>
      have other : 2 ≠ member.id := fun same => newcomer (by simp [pc, MembersPc.newcomer, same])
      rw [Server.members, Accounts.count, Accounts.add, ids_dataAdd]
      simp [members, other]
    | clear => exact List.not_mem_nil
    | crash | takeLeave | takeJoin | tokenCrash | leaveName | joinName | joinNumber | shareMember
    | shareMembersEnd | shareMessage | shareMessagesEnd | broadcast | broadcastEnd | goOn | unlock
    | exit => exact members
  · cases moved with
    | joinNumber pc found =>
      have number := allowed _ _ pc
      simpa [numberFound, found, MembersPc.newcomer] using number
    | shareMember pc | shareMembersEnd pc | shareMessage pc | shareMessagesEnd pc =>
      simpa [pc, MembersPc.newcomer] using newcomer
    | crash | tokenCrash => exact newcomer
    | takeLeave | takeJoin | leaveName | leaveNumber | joinName | register | broadcast
    | broadcastEnd | goOn | unlock | clear | exit => simp [MembersPc.newcomer]
  · have emptied := inv.emptied
    cases moved with
    | clear => exact fun _ => rfl
    | exit pc => exact fun _ => emptied (by simp [pc, MembersPc.Serving])
    | crash | tokenCrash => exact emptied
    | takeLeave | takeJoin | leaveName | leaveNumber | joinName | joinNumber | shareMember
    | shareMembersEnd | shareMessage | shareMessagesEnd | register | broadcast | broadcastEnd | goOn
    | unlock => exact fun stopped => absurd (by simp [MembersPc.Serving]) stopped
  · obtain ⟨pid, present⟩ := begun
    exact absurd (absent pid) present

/-- What is taken of type 2 is a wake-up when it is the last, and if it is the last of
all then the table is empty when `message_hendler` looks at it. -/
theorem awoken_message (inv : Invariant s) (allowed : ClearedFirst s .message)
    (before : Awoken s) (nobody : ∀ pid, ¬ Present s pid)
    (moved : MessageMove s.server s.queue server queue) (alive : server.crashed = false) :
    Awoken { s with server, queue } := by
  have busy (same : queue 2 = s.queue 2)
      (elsewhere : s.server.messagePc ≠ .wake ∧ s.server.messagePc ≠ .stopped) :
      Awoken { s with server, queue } := by
    simp only [Awoken, same] at before ⊢
    split at before
    · exact before
    · exact absurd before (not_or.mpr elsewhere)
  cases moved with
  | crash | tokenCrash => cases alive
  | @takeWake raw cursor rest pc head =>
    simp only [Awoken, head, List.getLast?_cons, Function.update_self] at before ⊢
    cases last : rest.getLast? with
    | none => exact Or.inl trivial
    | some mtext => simpa [last] using before
  | @takeLine raw cursor marker rest pc head found line =>
    simp only [Awoken, head, List.getLast?_cons, Function.update_self] at before ⊢
    cases last : rest.getLast? with
    | none =>
      have isWake : Marked '4' raw := by simpa [last] using before
      rw [Marked, found] at isWake
      exact absurd (Option.some.inj isWake) line
    | some mtext => simpa [last] using before
  | wakeEmpty =>
    simp only [Awoken] at before ⊢
    split at before
    · exact before
    · exact Or.inr trivial
  | wakeOther pc unlocked somebody =>
    simp only [Awoken] at before ⊢
    split at before
    · exact before
    next drained =>
      have stopped := allowed pc (List.getLast?_eq_none_iff.mp drained) nobody
      exact absurd (inv.emptied stopped) somebody
  | @broadcast i entry raw pc found =>
    have other : (2 : Int) ≠ entry.id := fun same => inv.members
      (same ▸ List.mem_map_of_mem (List.mem_of_getElem? found))
    exact busy (msgsnd_of_ne other raw) (by simp [pc])
  | goOn pc | exit pc | broadcastEnd pc | line pc | number pc | add pc =>
    exact busy rfl (by simp [pc])

/-- Any turn of `message_hendler`. It waits again after its last wake-up only if the
table was not yet empty, which the condition excludes. -/
theorem invariant_message (inv : Invariant s) (allowed : ClearedFirst s .message)
    (running : s.server.crashed = false) (moved : MessageMove s.server s.queue server queue) :
    Invariant { s with server, queue } := by
  have membersPc := messageMove_membersPc moved
  have members : server.members = s.server.members :=
    congrArg Accounts.members (messageMove_accounts moved)
  refine ⟨inv.ownQueue, by rw [members]; exact inv.members, by rw [membersPc]; exact inv.newcomer,
    by rw [members, membersPc]; exact inv.emptied, fun absent => ?_, fun alive begun nobody =>
      awoken_message inv allowed (inv.awoken running begun nobody) nobody moved alive⟩
  obtain ⟨waiting, requests, nobody⟩ := inv.idle absent
  refine ⟨membersPc.trans waiting, ?_, members.trans nobody⟩
  cases moved with
  | @crash _ rest | @takeWake _ _ rest | @takeLine _ _ _ rest =>
    exact (Function.update_of_ne (show (1 : Int) ≠ 2 by decide) rest s.queue).trans requests
  | broadcast pc found => simp [nobody] at found
  | goOn | exit | wakeEmpty | wakeOther | broadcastEnd | tokenCrash | line | number | add =>
    exact requests

end Server

theorem invariant_step {s t : State} {a : Action} (inv : Invariant s) (allowed : ClearedFirst s a)
    (stepped : step s a = some t) : Invariant t := by
  have notServer {pid : Int} (present : (s.clients pid).main ≠ .absent) : pid ≠ 2 :=
    fun same => present (same ▸ inv.ownQueue)
  -- A step to which the client is still there.
  have owing {pid : Int} {c : Client} {queue : Queue} (other : pid ≠ 2)
      (started : c.main ≠ .absent) (staying : c.main ≠ .gone) :
      Invariant { s.setClient pid c with queue } := by
    have present : Present { s.setClient pid c with queue } pid := by
      simpa [Present, State.setClient] using And.intro started staying
    refine ⟨?_, inv.members, inv.newcomer, inv.emptied, fun absent => ?_, fun _ _ nobody => ?_⟩
    · exact (congrArg Client.main (Function.update_of_ne other.symm c s.clients)).trans inv.ownQueue
    · exact absurd (absent pid) present.1
    · exact absurd present (nobody pid)
  have reading {pid : Int} {c : Client} {queue : Queue} (present : (s.clients pid).main ≠ .absent)
      (main : c.main = (s.clients pid).main) (lines : queue 2 = s.queue 2) :
      Invariant { s.setClient pid c with queue } := by
    have mains (p : Int) : (Function.update s.clients pid c p).main = (s.clients p).main :=
      Requests.update_unchanged Client.main main p
    have here : (Function.update s.clients pid c pid).main ≠ .absent := by rwa [mains]
    refine ⟨(mains 2).trans inv.ownQueue, inv.members, inv.newcomer, inv.emptied,
      fun absent => absurd (absent pid) here, fun alive _ nobody => ?_⟩
    have before : ∀ p, ¬ Present s p := by simpa [Present, State.setClient, mains] using nobody
    exact (inv.awoken alive ⟨pid, present⟩ before).congr lines rfl
  cases step_move stepped with
  | start => exact owing allowed (by simp) (by simp)
  | quit running => exact owing (notServer (by simp [running])) (by simp) (by simp)
  | leave leaving => exact owing (notServer (by simp [leaving])) (by simp) (by simp)
  | members running moved => exact invariant_members inv allowed running moved
  | message running moved => exact invariant_message inv allowed running moved
  | @say pid line running =>
    exact ⟨inv.ownQueue, inv.members, inv.newcomer, inv.emptied,
      fun absent => absurd (absent pid) (by simp [running]),
      fun _ _ nobody => absurd ⟨by simp [running], by simp [running]⟩ (nobody pid)⟩
  | @wake pid left =>
    have other : pid ≠ 2 := notServer (by simp [left])
    refine ⟨?_, inv.members, inv.newcomer, inv.emptied, fun absent => ?_, fun _ _ _ => ?_⟩
    · exact (congrArg Client.main (Function.update_of_ne other.symm _ s.clients)).trans inv.ownQueue
    · exact absurd (absent pid) (by simp [State.setClient])
    · have sent := msgsnd_self (q := s.queue) (show (0 : Int) < 2 by decide)
        (lineText 4 (s.clients pid).nick pid)
      rw [Awoken]
      simp only [sent, List.getLast?_concat]
      exact marked_lineText rfl _ pid
  | look present => exact reading present rfl rfl
  | @hear pid mtext rest present =>
    exact reading present (process_main _ _) (Function.update_of_ne (notServer present).symm _ _)

/-- In every run in which `members_handler` has emptied the table before
`message_hendler` looks at it for the last wake-up, the server is never left waiting
for nobody. -/
theorem never_stuck {log : List Action} {s : State}
    (run : system.Reach ClearedFirst initial log s) : ¬ Stuck s := by
  intro stuck
  have inv := run.stateInvariant Invariant invariant_initial
    fun _ _ _ inv allowed stepped => invariant_step inv allowed stepped
  have begun : ∃ pid, (s.clients pid).main ≠ .absent := by
    by_contra none
    have waiting := (inv.idle (not_exists_not.mp none)).1
    rw [stuck.returned] at waiting
    cases waiting
  have awoken := inv.awoken stuck.alive begun stuck.nobody
  simp [Awoken, stuck.drained, stuck.waiting] at awoken

/-- Only client 3 is started, as "a". -/
def Alone (_ : State) : Action → Prop
  | .start pid nick => pid = 3 ∧ nick = ['a']
  | _ => True

instance (s : State) : (a : Action) → Decidable (Alone s a)
  | .start _ _ => inferInstanceAs (Decidable (_ ∧ _))
  | .type _ _ | .leave _ | .wake _ | .poll _ | .members | .message =>
    inferInstanceAs (Decidable True)

theorem alone_absent {log : List Action} {s : State} (run : system.Reach Alone initial log s) :
    ∀ pid, pid ≠ 3 → (s.clients pid).main = .absent := by
  refine run.stateInvariant (fun s => ∀ pid, pid ≠ 3 → (s.clients pid).main = .absent)
    (fun _ _ => rfl) ?_
  intro s a t absent allowed stepped pid other
  have owner {own : Int} (present : (s.clients own).main ≠ .absent) : own = 3 :=
    Classical.byContradiction fun stranger => present (absent own stranger)
  have apart {own : Int} (c : Client) (isFirst : own = 3) :
      (Function.update s.clients own c pid).main = .absent := by
    rw [Function.update_of_ne (isFirst ▸ other)]
    exact absent pid other
  cases step_move stepped with
  | start => exact apart _ allowed.1
  | quit running => exact apart _ (owner (by simp [running]))
  | leave leaving => exact apart _ (owner (by simp [leaving]))
  | wake left => exact apart _ (owner (by simp [left]))
  | look present | hear present => exact apart _ (owner present)
  | say | members | message => exact absent pid other

/-- Client 3 joins and types "!exit"; it leaves when its `message_handler` has
seen its flag. `message_hendler` waits all the while. -/
def joinAndLeave : List Action :=
  .start 3 ['a'] :: .message :: List.replicate 9 .members ++
    [.type 3 exitLine, .poll 3, .leave 3, .wake 3]

/-- `message_hendler` takes no wake-up before `members_handler` has returned. -/
def ReturnedFirst (s : State) : Action → Prop
  | .start pid _ => pid = 3
  | .members => numberFound s.server ≠ some 2
  | .message => s.server.messagePc = .wake → s.server.membersPc = .stopped
  | _ => True

instance (s : State) : (a : Action) → Decidable (ReturnedFirst s a)
  | .start pid _ => inferInstanceAs (Decidable (pid = 3))
  | .members => inferInstanceAs (Decidable (_ ≠ _))
  | .message => inferInstanceAs (Decidable (_ → _))
  | .type _ _ | .leave _ | .wake _ | .poll _ => inferInstanceAs (Decidable True)

theorem ReturnedFirst.cleared {s : State} {a : Action} (allowed : ReturnedFirst s a) :
    ClearedFirst s a := by
  cases a with
  | start pid nick =>
    have isFirst : pid = 3 := allowed
    show pid ≠ 2
    omega
  | members => exact fun line raw _ => allowed
  | message => exact fun pc _ _ serving => serving.2 (allowed pc)
  | type | leave | wake | poll => trivial

/-- `members_handler` handles the leave to its end, `message_hendler` then takes
the wake-up and stops. -/
theorem never_stuck_prompt :
    ∃ log s, system.Reach ClearedFirst initial log s ∧ s.server.membersPc = .stopped ∧
      s.server.messagePc = .stopped ∧ (s.clients 3).main = .gone ∧ ¬ Stuck s := by
  obtain ⟨log, s, run, members, message, gone⟩ := system.exists_reach ReturnedFirst initial
    (joinAndLeave ++ List.replicate 8 Action.members ++ List.replicate 2 Action.message)
    (fun _ s => s.server.membersPc = .stopped ∧ s.server.messagePc = .stopped ∧
      (s.clients 3).main = .gone) (by decide)
  have run : system.Reach ClearedFirst initial log s := run.mono fun _ _ => ReturnedFirst.cleared
  exact ⟨log, s, run, members, message, gone, never_stuck run⟩

/-- `message_hendler` takes the wake-up while the leave is still queued: it finds
a member, tests `exit_flag`, and waits again. `members_handler` then handles the
leave and returns. -/
theorem stuck_after_early_wake :
    ∃ log s, system.Reach Named initial log s ∧ (s.clients 3).main = .gone ∧ Stuck s := by
  obtain ⟨log, s, run, gone, alive, returned, drained, waiting⟩ := system.exists_reach Alone initial
    (joinAndLeave ++ List.replicate 3 Action.message ++ List.replicate 8 Action.members)
    (fun _ s => (s.clients 3).main = .gone ∧ s.server.crashed = false ∧
      s.server.membersPc = .stopped ∧ s.queue 2 = [] ∧ s.server.messagePc = .receive) (by decide)
  refine ⟨log, s, run.mono ?_, gone, alive, returned, ?_, drained, waiting⟩
  · intro s a allowed
    cases a with
    | start pid nick =>
      obtain ⟨rfl, rfl⟩ := allowed
      exact ⟨by decide, by decide⟩
    | type | leave | wake | poll | members | message => trivial
  · intro pid present
    by_cases isFirst : pid = 3
    · exact present.2 (isFirst ▸ gone)
    · exact present.1 (alone_absent run pid isFirst)

end EltexCourse.Guarantees.Chat.ServerExit
