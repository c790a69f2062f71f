import EltexCourse.Guarantees.Chat.Registration
import EltexCourse.Guarantees.Chat.Traffic

/-!
# Requests and lines in task13/chat

Where pids are above 2 and nicknames are words, the queue of type 1 holds the
clients' requests and nothing else, so `members` is a register of the clients as
long as `members_handler` serves: each request is read as it was written, unless
`message_hendler` moves the cursor of `strtok` between two of its tokens. The texts a
client can receive from `message_hendler` all carry the marker of a line.
-/

set_option autoImplicit false

namespace EltexCourse.Guarantees.Chat.Requests
open Foundations.CString Foundations.Decimal Foundations.Transition Foundations.Enrolment
open Source.Chat Source.Chat.MessageQueue Traffic Registration

def party (c : Client) : Party :=
  { nick := c.nick
    phase := match c.main with
      | .absent => .outside
      | .running | .leaving => .inside
      | .left | .gone => .departed }

/-- The first token of a text. -/
def Marked (marker : Char) (mtext : Text) : Prop := (strtok [' '] mtext).1 = some [marker]

instance (marker : Char) (mtext : Text) : Decidable (Marked marker mtext) :=
  inferInstanceAs (Decidable (_ = _))

/-- What the calls of `strtok` still to come make of a request. -/
def remaining (pc : MembersPc) (cursor : Text) : Option (MemberRequest × Text) :=
  match pc with
  | .leaveName _ => leaveNumber (strtok [' '] cursor).2
  | .leaveNumber _ => leaveNumber cursor
  | .joinName _ =>
    match strtok [' '] cursor with
    | (none, _) => none
    | (some line, cursor) => joinNumber line cursor
  | .joinNumber line _ => joinNumber line cursor
  | _ => none
where
  leaveNumber (cursor : Text) : Option (MemberRequest × Text) :=
    match strtok [' '] cursor with
    | (none, _) => none
    | (some number, cursor) => some (.leave (atoi number), cursor)
  joinNumber (line cursor : Text) : Option (MemberRequest × Text) :=
    match strtok [' '] cursor with
    | (none, _) => none
    | (some number, cursor) => some (.join line (atoi number), cursor)

/-- The marker found, the rest of a request is still to be looked for. -/
theorem remaining_leave {raw cursor : Text} (found : strtok [' '] raw = (some ['0'], cursor)) :
    remaining (.leaveName raw) cursor = membersHandlerTokens raw := by
  simp only [membersHandlerTokens, found, if_true]
  rfl

theorem remaining_join {raw marker cursor : Text} (found : strtok [' '] raw = (some marker, cursor))
    (other : marker ≠ ['0']) : remaining (.joinName raw) cursor = membersHandlerTokens raw := by
  simp only [membersHandlerTokens, found, if_neg other]
  rfl

structure Orderly (s : State) : Prop where
  readable : Readable s.server
  untouched : Untouched s
  pids : ∀ p, (s.clients p).main ≠ .absent → 2 < p
  lines : ∀ mtext ∈ s.queue 2, Marked '3' mtext ∨ Marked '4' mtext
  line : ∀ i raw, s.server.messagePc = .broadcast i raw → Marked '3' raw
  emptied : ¬ s.server.membersPc.Serving → s.server.members = []
  register : s.server.membersPc.Serving →
    Register (fun p => party (s.clients p)) (s.server.membersPc.parsing.toList ++ s.queue 1)
      s.server.members s.server.membersPc.newcomer
  tokens : ∀ raw, s.server.membersPc.parsing = some raw →
    remaining s.server.membersPc s.server.strtokCursor = membersHandlerTokens raw

theorem party_outside {c : Client} : (party c).phase = .outside ↔ c.main = .absent := by
  cases main : c.main <;> simp [party, main]

theorem newcomer_serving {pc : MembersPc} {member : DataArr} (joining : pc.newcomer = some member) :
    pc.Serving := by
  cases pc <;> simp_all [MembersPc.newcomer, MembersPc.Serving]

theorem Orderly.unique {s : State} (orderly : Orderly s) : (ids s.server.members).Nodup := by
  by_cases serving : s.server.membersPc.Serving
  · exact (orderly.register serving).unique
  · rw [orderly.emptied serving]
    exact List.nodup_nil

theorem Orderly.serving_of_member {s : State} (orderly : Orderly s) {p : Int}
    (member : p ∈ ids s.server.members) : s.server.membersPc.Serving := by
  by_contra stopped
  rw [orderly.emptied stopped] at member
  exact absurd member List.not_mem_nil

/-- A client that has not left is not offline in the table. -/
theorem Orderly.online_of_inside {s : State} (orderly : Orderly s) {p : Int}
    (inside : (party (s.clients p)).phase = .inside) (member : p ∈ ids s.server.members) :
    p ∈ onlineIds s.server.members :=
  (orderly.register (orderly.serving_of_member member)).online_of_inside inside member

/-- Only pids above 2 are in the table, and so no broadcast goes to one of the two types
the server reads itself. -/
theorem Orderly.member_pid {s : State} (orderly : Orderly s) {p : Int}
    (member : p ∈ ids s.server.members) : 2 < p := by
  have entered := (orderly.register (orderly.serving_of_member member)).entered (Or.inl member)
  exact orderly.pids p fun absent => entered (party_outside.mpr absent)

theorem Orderly.newcomer {s : State} (orderly : Orderly s) {member : DataArr}
    (joining : s.server.membersPc.newcomer = some member) :
    2 < member.id ∧ member.id ∉ ids s.server.members := by
  have register := orderly.register (newcomer_serving joining)
  have entered := register.entered (p := member.id) (Or.inr (by simp [joining]))
  exact ⟨orderly.pids _ fun absent => entered (party_outside.mpr absent),
    (register.fresh member joining).1⟩

/-- What the register says of the request in hand. -/
theorem Orderly.parsing {s : State} (orderly : Orderly s) {raw : Text}
    (parsing : s.server.membersPc.parsing = some raw) :
    Register (fun p => party (s.clients p)) (raw :: s.queue 1) s.server.members none := by
  obtain ⟨serving, nobody⟩ := parsing_serving parsing
  have register := orderly.register serving
  rwa [parsing, nobody] at register

/-- Once its number is found, a request is what was sent. -/
theorem Orderly.takeLeave {s : State} (orderly : Orderly s) {raw cursor number : Text}
    (pc : s.server.membersPc = .leaveNumber raw)
    (found : strtok [' '] s.server.strtokCursor = (some number, cursor)) :
    membersHandlerTokens raw = some (.leave (atoi number), cursor) := by
  have tokens := orderly.tokens raw (by rw [pc]; rfl)
  simpa only [pc, remaining, remaining.leaveNumber, found, eq_comm] using tokens

theorem Orderly.takeJoin {s : State} (orderly : Orderly s) {raw cursor line number : Text}
    (pc : s.server.membersPc = .joinNumber line raw)
    (found : strtok [' '] s.server.strtokCursor = (some number, cursor)) :
    membersHandlerTokens raw = some (.join line (atoi number), cursor) := by
  have tokens := orderly.tokens raw (by rw [pc]; rfl)
  simpa only [pc, remaining, remaining.joinNumber, found, eq_comm] using tokens

/-- No request breaks `members_handler`: a marker is there, and so is every token and
the member that leaves. -/
theorem Orderly.marker {s : State} (orderly : Orderly s) (pc : s.server.membersPc = .receive)
    {raw : Text} {rest : List Text} (head : s.queue 1 = raw :: rest) :
    (strtok [' '] raw).1 ≠ none := by
  have register := orderly.register (by simp [MembersPc.Serving, pc])
  rw [head, show s.server.membersPc.newcomer = none by simp [pc, MembersPc.newcomer],
    show s.server.membersPc.parsing = none by simp [pc, MembersPc.parsing]] at register
  intro missing
  apply register.unbroken.1
  rw [membersHandlerTokens]
  split
  · rfl
  next found =>
    rw [found] at missing
    cases missing

theorem remaining_none {pc : MembersPc} {cursor raw : Text} (parsing : pc.parsing = some raw)
    (missing : (strtok [' '] cursor).1 = none) : remaining pc cursor = none := by
  obtain ⟨rest, nothing⟩ : ∃ rest, strtok [' '] cursor = (none, rest) := ⟨_, Prod.ext missing rfl⟩
  cases pc with
  | leaveName | leaveNumber | joinName | joinNumber =>
    simp [remaining, remaining.leaveNumber, remaining.joinNumber, nothing, strtok_none nothing]
  | receive | shareMembers | shareMessages | register | broadcast | decide | unlocked | cleared
  | stopped => cases parsing

/-- No `strtok` call on a request comes back with NULL, and no leave is for an unknown
id, so the server does not crash on one. -/
theorem Orderly.unbroken {s : State} (orderly : Orderly s) {raw : Text}
    (parsing : s.server.membersPc.parsing = some raw) :
    ¬ ((strtok [' '] s.server.strtokCursor).1 = none ∨ ∃ number rest,
      s.server.membersPc = .leaveNumber raw ∧
        strtok [' '] s.server.strtokCursor = (some number, rest) ∧
        s.server.accounts.leave (atoi number) = none) := by
  obtain ⟨read, known⟩ := (orderly.parsing parsing).unbroken
  rintro (missing | ⟨number, rest, pc, found, unmarked⟩)
  · exact read ((orderly.tokens raw parsing).symm.trans (remaining_none parsing missing))
  · exact known _ _ (orderly.takeLeave pc found) (Option.map_eq_none_iff.mp unmarked)

theorem orderly_initial : Orderly initial := by
  refine ⟨readable_initial, fun _ _ => rfl, fun p present => absurd rfl present, ?_, ?_,
    fun _ => rfl, fun _ => register_initial fun _ => rfl, ?_⟩
  · exact fun mtext inside => absurd inside List.not_mem_nil
  · exact fun i raw broadcasting => MessagePc.noConfusion broadcasting
  · exact fun raw parsing => absurd parsing (by simp [initial, Server.initial, MembersPc.parsing])

/-- A turn that changes no table, with the requests in hand and in the queue as they
were. -/
theorem Orderly.turn {s : State} {server : Server} {queue : Queue} (orderly : Orderly s)
    (readable : Readable server) (accounts : server.accounts = s.server.accounts)
    (newcomer : server.membersPc.newcomer = s.server.membersPc.newcomer)
    (serving : server.membersPc.Serving ↔ s.server.membersPc.Serving)
    (requests : server.membersPc.parsing.toList ++ queue 1 =
      s.server.membersPc.parsing.toList ++ s.queue 1)
    (tokens : ∀ raw, server.membersPc.parsing = some raw →
      remaining server.membersPc server.strtokCursor = membersHandlerTokens raw)
    (lines : ∀ mtext ∈ queue 2, mtext ∈ s.queue 2)
    (line : ∀ i raw, server.messagePc = .broadcast i raw → Marked '3' raw) :
    Orderly { s with server, queue } := by
  have members : server.members = s.server.members := congrArg Accounts.members accounts
  refine ⟨readable, orderly.untouched, orderly.pids,
    fun mtext inside => orderly.lines _ (lines _ inside), line, ?_, fun serves => ?_, tokens⟩
  · exact fun stopped => members.trans (orderly.emptied fun serves => stopped (serving.mpr serves))
  · simp only [requests, members, newcomer]
    exact orderly.register (serving.mp serves)

/-- A turn of `members_handler` with no request in hand, which may send something to a
client: what is queued for the server stays. -/
theorem Orderly.sends {s : State} {pc : MembersPc} {queue : Queue} (orderly : Orderly s)
    (readable : Readable { s.server with membersPc := pc })
    (before : s.server.membersPc.parsing = none) (after : pc.parsing = none)
    (newcomer : pc.newcomer = s.server.membersPc.newcomer)
    (serving : pc.Serving ↔ s.server.membersPc.Serving)
    (kept : ∀ mtype ≤ 2, queue mtype = s.queue mtype) :
    Orderly { s with server := { s.server with membersPc := pc }, queue } := by
  refine orderly.turn readable rfl newcomer serving ?_ (fun raw parsing => ?_) ?_ orderly.line
  · rw [before, kept 1 (by decide)]
    exact congrArg (·.toList ++ s.queue 1) after
  · cases after.symm.trans parsing
  · rw [kept 2 (by decide)]
    exact fun _ inside => inside

/-- A turn that takes one token more of the request in hand. -/
theorem Orderly.splits {s : State} {pc : MembersPc} {raw cursor : Text} (orderly : Orderly s)
    (readable : Readable { s.server with strtokCursor := cursor, membersPc := pc })
    (before : s.server.membersPc.parsing = some raw) (after : pc.parsing = some raw)
    (same : remaining pc cursor = remaining s.server.membersPc s.server.strtokCursor) :
    Orderly { s with server := { s.server with strtokCursor := cursor, membersPc := pc } } := by
  obtain ⟨serving, nobody⟩ := parsing_serving before
  obtain ⟨serving', nobody'⟩ := parsing_serving after
  refine orderly.turn readable rfl (nobody'.trans nobody.symm) (iff_of_true serving' serving) ?_
    (fun other parsing => ?_) (fun _ inside => inside) orderly.line
  · rw [before]
    exact congrArg (·.toList ++ s.queue 1) after
  · cases after.symm.trans parsing
    exact same.trans (orderly.tokens raw before)

/-- What is sent to a client leaves the messages for the server as they are. -/
theorem msgsnd_client {q : Queue} {p : Int} (client : 2 < p) (mtext : Text) :
    ∀ mtype ≤ 2, msgsnd q p mtext mtype = q mtype :=
  fun _ server => msgsnd_of_ne (by omega) mtext

/-- Any turn of `members_handler`: it takes the requests in the order they were sent,
and the table follows the registers. -/
theorem orderly_members {s : State} {server : Server} {queue : Queue} (orderly : Orderly s)
    (moved : MembersMove s.server s.queue server queue) : Orderly { s with server, queue } := by
  have readable := readable_members orderly.readable moved
  cases moved with
  | crash pc head broken => exact absurd broken (orderly.marker pc head)
  | tokenCrash parsing broken => exact absurd broken (orderly.unbroken parsing)
  | takeLeave pc head found =>
    exact orderly.turn readable rfl (by simp [pc, MembersPc.newcomer])
      (by simp [pc, MembersPc.Serving]) (by simp [pc, MembersPc.parsing, head])
      (fun _ parsing => Option.some.inj parsing ▸ remaining_leave found) (fun _ inside => inside)
      orderly.line
  | takeJoin pc head found other =>
    exact orderly.turn readable rfl (by simp [pc, MembersPc.newcomer])
      (by simp [pc, MembersPc.Serving]) (by simp [pc, MembersPc.parsing, head])
      (fun _ parsing => Option.some.inj parsing ▸ remaining_join found other)
      (fun _ inside => inside) orderly.line
  | @leaveName raw pc =>
    exact orderly.splits readable (by rw [pc]; rfl) rfl (by rw [pc]; rfl)
  | @joinName raw cursor line pc found =>
    exact orderly.splits readable (by rw [pc]; rfl) rfl (by simp only [pc, remaining, found])
  | @leaveNumber raw cursor number accounts pc found marked =>
    obtain ⟨members, first, rfl⟩ := Option.map_eq_some_iff.mp marked
    have parsing : s.server.membersPc.parsing = some raw := by rw [pc]; rfl
    obtain ⟨_, _, _, taken⟩ := (orderly.parsing parsing).takeLeave (orderly.takeLeave pc found)
    refine ⟨readable, orderly.untouched, orderly.pids, orderly.lines, orderly.line, ?_,
      fun _ => taken members first, ?_⟩
    · simp [MembersPc.Serving]
    · simp [MembersPc.parsing]
  | @joinNumber raw cursor line number pc found =>
    have parsing : s.server.membersPc.parsing = some raw := by rw [pc]; rfl
    obtain ⟨_, _, _, taken⟩ := (orderly.parsing parsing).takeJoin (orderly.takeJoin pc found)
    refine ⟨readable, orderly.untouched, orderly.pids, orderly.lines, orderly.line, ?_,
      fun _ => taken, ?_⟩
    · simp [MembersPc.Serving]
    · simp [MembersPc.parsing]
  | @shareMember i member entry raw pc found =>
    have joining : s.server.membersPc.newcomer = some member := by simp [pc, MembersPc.newcomer]
    have client := (orderly.newcomer joining).1
    refine orderly.sends readable (by rw [pc]; rfl) rfl (by rw [pc]; rfl)
      (by simp [pc, MembersPc.Serving]) fun mtype server => ?_
    split
    · exact msgsnd_client client _ mtype server
    · rfl
  | @shareMessage i member entry raw pc found =>
    have joining : s.server.membersPc.newcomer = some member := by simp [pc, MembersPc.newcomer]
    exact orderly.sends readable (by rw [pc]; rfl) rfl (by rw [pc]; rfl)
      (by simp [pc, MembersPc.Serving]) (msgsnd_client (orderly.newcomer joining).1 _)
  | @broadcast i entry raw pc found =>
    have client := orderly.member_pid (List.mem_map_of_mem (List.mem_of_getElem? found))
    exact orderly.sends readable (by rw [pc]; rfl) rfl (by rw [pc]; rfl)
      (by simp [pc, MembersPc.Serving]) (msgsnd_client client raw)
  | @register i member raw pc =>
    have register := orderly.register (by simp [pc, MembersPc.Serving])
    rw [show s.server.membersPc.newcomer = some member by simp [pc, MembersPc.newcomer],
      show s.server.membersPc.parsing = none by simp [pc, MembersPc.parsing]] at register
    refine ⟨readable, orderly.untouched, orderly.pids, orderly.lines, orderly.line, ?_,
      fun _ => register.add, ?_⟩
    · simp [MembersPc.Serving]
    · simp [MembersPc.parsing]
  | shareMembersEnd pc | shareMessagesEnd pc | broadcastEnd pc | goOn pc | unlock pc =>
    exact orderly.sends readable (by rw [pc]; rfl) rfl (by rw [pc]; rfl)
      (by simp [pc, MembersPc.Serving]) fun _ _ => rfl
  | clear pc =>
    exact ⟨readable, orderly.untouched, orderly.pids, orderly.lines, orderly.line, fun _ => rfl,
      fun serving => absurd rfl serving.1, by simp [MembersPc.parsing]⟩
  | exit pc =>
    have empty := orderly.emptied (by simp [pc, MembersPc.Serving])
    exact ⟨readable, orderly.untouched, orderly.pids, orderly.lines, orderly.line, fun _ => empty,
      fun serving => absurd rfl serving.2, by simp [MembersPc.parsing]⟩

/-- Any turn of `message_hendler`. Its `strtok` calls overwrite the cursor, which is
harmless as long as no request is in hand; this is what the condition is for. -/
theorem orderly_message {s : State} {server : Server} {queue : Queue} (orderly : Orderly s)
    (apart : MembersApart s .message) (moved : MessageMove s.server s.queue server queue) :
    Orderly { s with server, queue } := by
  have readable := readable_message orderly.readable moved
  have requests {q : Queue} (same : q 1 = s.queue 1) :
      s.server.membersPc.parsing.toList ++ q 1 = s.server.membersPc.parsing.toList ++ s.queue 1 :=
    congrArg _ same
  have popped (rest : List Text) : Function.update s.queue 2 rest 1 = s.queue 1 :=
    Function.update_of_ne (by decide) _ _
  -- Only a turn that calls `strtok` moves the cursor, and no request is in hand then.
  have whole {cursor : Text} (splitting : s.server.messagePc.splitting = true) :
      ∀ raw, s.server.membersPc.parsing = some raw →
        remaining s.server.membersPc cursor = membersHandlerTokens raw := by
    intro raw parsing
    rw [apart rfl splitting] at parsing
    cases parsing
  have lines {raw : Text} {rest : List Text} (head : s.queue 2 = raw :: rest) :
      ∀ mtext ∈ Function.update s.queue 2 rest 2, mtext ∈ s.queue 2 := by
    intro mtext inside
    rw [Function.update_self] at inside
    simp [head, inside]
  cases moved with
  | crash pc head =>
    exact orderly.turn readable rfl rfl Iff.rfl (requests (popped _)) orderly.tokens (lines head)
      orderly.line
  | takeWake pc head marker =>
    exact orderly.turn readable rfl rfl Iff.rfl (requests (popped _))
      (whole (by rw [pc]; rfl)) (lines head) (by simp)
  | @takeLine raw cursor marker rest pc head found isLine =>
    refine orderly.turn readable rfl rfl Iff.rfl (requests (popped _)) (whole (by rw [pc]; rfl))
      (lines head) fun i text inHand => ?_
    obtain ⟨_, rfl⟩ := MessagePc.broadcast.inj inHand
    rcases orderly.lines raw (by simp [head]) with line | wake
    · exact line
    · rw [Marked, found] at wake
      exact absurd (Option.some.inj wake) isLine
  | @broadcast i entry raw pc found =>
    have client := orderly.member_pid (List.mem_map_of_mem (List.mem_of_getElem? found))
    refine orderly.turn readable rfl rfl Iff.rfl (requests (msgsnd_of_ne (by omega) _))
      orderly.tokens (by simp [msgsnd_of_ne (show 2 ≠ entry.id by omega)]) fun j text inHand => ?_
    obtain ⟨_, rfl⟩ := MessagePc.broadcast.inj inHand
    exact orderly.line i raw pc
  | goOn | exit | wakeEmpty | wakeOther | broadcastEnd | add =>
    exact orderly.turn readable rfl rfl Iff.rfl rfl orderly.tokens (fun _ inside => inside)
      (by simp)
  | line pc | number pc =>
    exact orderly.turn readable rfl rfl Iff.rfl rfl (whole (by rw [pc]; rfl))
      (fun _ inside => inside) (by simp)
  | tokenCrash =>
    exact orderly.turn readable rfl rfl Iff.rfl rfl orderly.tokens (fun _ inside => inside)
      orderly.line

/-- A request leaves nothing behind `strtok`'s cursor. -/
theorem cursor_members {s : State} {server : Server} {queue : Queue} (orderly : Orderly s)
    (moved : MembersMove s.server s.queue server queue)
    (taken : server.membersPc.parsing = none) :
    (server.strtokCursor = s.server.strtokCursor ∧ s.server.membersPc.parsing = none) ∨
      server.strtokCursor = [] := by
  cases moved with
  | leaveNumber pc found =>
    exact Or.inr ((orderly.parsing (by rw [pc]; rfl)).takeLeave (orderly.takeLeave pc found)).2.1
  | joinNumber pc found =>
    exact Or.inr ((orderly.parsing (by rw [pc]; rfl)).takeJoin (orderly.takeJoin pc found)).2.1
  | crash => exact Or.inl ⟨rfl, taken⟩
  | tokenCrash parsing => exact absurd (parsing.symm.trans taken) (by simp)
  | takeLeave | takeJoin | leaveName | joinName => cases taken
  | shareMember pc | shareMembersEnd pc | shareMessage pc | shareMessagesEnd pc | register pc
  | broadcast pc | broadcastEnd pc | goOn pc | unlock pc | clear pc | exit pc =>
    exact Or.inl ⟨rfl, by rw [pc]; rfl⟩

/-- Nobody has the pid 2, so the lines are left to `message_hendler`. -/
theorem Orderly.lines_members {s : State} {server : Server} {queue : Queue} (orderly : Orderly s)
    (moved : MembersMove s.server s.queue server queue) : queue 2 = s.queue 2 := by
  rcases membersMove_sends moved (p := 2) (by decide) with same | ⟨mtext, origin, -⟩
  · exact same
  · generalize two : (2 : Int) = receiver at origin
    cases origin with
    | @member i member entry raw pc | @history i member entry raw pc =>
      have joining : s.server.membersPc.newcomer = some member := by simp [pc, MembersPc.newcomer]
      have client := (orderly.newcomer joining).1
      omega
    | request pc found =>
      have client := orderly.member_pid (List.mem_map_of_mem (List.mem_of_getElem? found))
      omega

theorem Orderly.lines_message {s : State} {server : Server} {queue : Queue} (orderly : Orderly s)
    (moved : MessageMove s.server s.queue server queue) :
    ∀ mtext ∈ queue 2, mtext ∈ s.queue 2 := by
  intro mtext inside
  cases moved with
  | crash pc head | takeWake pc head | takeLine pc head =>
    rw [Function.update_self] at inside
    simp [head, inside]
  | @broadcast i entry raw pc found =>
    have client := orderly.member_pid (List.mem_map_of_mem (List.mem_of_getElem? found))
    rwa [msgsnd_of_ne (by omega)] at inside
  | goOn | exit | wakeEmpty | wakeOther | broadcastEnd | tokenCrash | line | number | add =>
    exact inside

/-- What is not changed in the one client replaced is changed in none. -/
theorem update_unchanged {α : Type} (f : Client → α) {clients : Int → Client} {pid : Int}
    {c : Client} (same : f c = f (clients pid)) (p : Int) :
    f (Function.update clients pid c p) = f (clients p) := by
  by_cases own : p = pid
  · subst own
    rwa [Function.update_self]
  · rw [Function.update_of_ne own]

theorem pids_update {clients : Int → Client} {pid : Int} {c : Client}
    (pids : ∀ p, (clients p).main ≠ .absent → 2 < p) (own : 2 < pid) :
    ∀ p, (Function.update clients pid c p).main ≠ .absent → 2 < p := by
  intro p present
  by_cases same : p = pid
  · rwa [same]
  · rw [Function.update_of_ne same] at present
    exact pids p present

/-- A client's step: the server is unchanged. -/
theorem Orderly.client {s t : State} (orderly : Orderly s) (server : t.server = s.server)
    (untouched : Untouched t) (pids : ∀ p, (t.clients p).main ≠ .absent → 2 < p)
    (lines : ∀ mtext ∈ t.queue 2, Marked '3' mtext ∨ Marked '4' mtext)
    (register : ∀ taken members newcomer,
      Register (fun p => party (s.clients p)) (taken ++ s.queue 1) members newcomer →
        Register (fun p => party (t.clients p)) (taken ++ t.queue 1) members newcomer) :
    Orderly t :=
  ⟨server ▸ orderly.readable, untouched, pids, lines, server ▸ orderly.line,
    server ▸ orderly.emptied,
    fun serving => server ▸ register _ _ _ (orderly.register (server ▸ serving)),
    server ▸ orderly.tokens⟩

/-- One that sends no request. -/
theorem Orderly.aside {s t : State} (orderly : Orderly s) (server : t.server = s.server)
    (untouched : Untouched t) (pids : ∀ p, (t.clients p).main ≠ .absent → 2 < p)
    (lines : ∀ mtext ∈ t.queue 2, Marked '3' mtext ∨ Marked '4' mtext)
    (parties : ∀ p, party (t.clients p) = party (s.clients p))
    (requests : t.queue 1 = s.queue 1) : Orderly t :=
  orderly.client server untouched pids lines fun _ _ _ register => by
    simpa only [requests, parties] using register

theorem marked_lineText {marker : Int} {digit : Char} (prints : printInt marker = [digit])
    (line : Text) (pid : Int) : Marked digit (lineText marker line pid) := by
  simp [Marked, strtok_lineText, prints]

theorem marked_wordText {marker : Int} {digit : Char} (prints : printInt marker = [digit])
    (line : Text) (pid : Int) : Marked digit (wordText marker line pid) := by
  simp [Marked, strtok_wordText, prints]

theorem orderly_step {s t : State} {a : Action} (orderly : Orderly s) (allowed : Undivided s a)
    (stepped : step s a = some t) : Orderly t := by
  obtain ⟨named, apart⟩ := allowed
  have untouched := untouched_step orderly.untouched stepped
  have added {digit : Char} {mtext : Text} (marked : Marked digit mtext)
      (known : digit = '3' ∨ digit = '4') :
      ∀ other ∈ msgsnd s.queue 2 mtext 2, Marked '3' other ∨ Marked '4' other := by
    intro other inside
    rw [msgsnd_self (by decide)] at inside
    rcases List.mem_append.mp inside with old | isNew
    · exact orderly.lines other old
    · obtain rfl := List.mem_singleton.mp isNew
      rcases known with rfl | rfl
      · exact Or.inl marked
      · exact Or.inr marked
  cases step_move stepped with
  | @start pid nick fresh positive fits =>
    obtain ⟨above, word⟩ := named
    refine orderly.client rfl untouched (pids_update orderly.pids above) ?_ ?_
    · intro other (inside : other ∈ msgsnd s.queue 1 (wordText 1 nick pid) 2)
      rw [msgsnd_of_ne (by decide)] at inside
      exact orderly.lines other inside
    · intro taken members newcomer register
      simp only [State.setClient, msgsnd_self (show (0 : Int) < 1 by decide), ← List.append_assoc]
      refine register.sendJoin (party_outside.mpr fresh) fits word ?_ fun q other => ?_
      · simp [party]
      · simp [other]
  | @say pid line running healthy other =>
    exact orderly.aside rfl untouched orderly.pids
      (added (marked_lineText rfl line pid) (.inl rfl)) (fun _ => rfl)
      (msgsnd_of_ne (show (1 : Int) ≠ 2 by decide) (lineText 3 line pid))
  | @quit pid running healthy =>
    have client := orderly.pids pid (by simp [running])
    have beyond {mtype : Int} (server : mtype = 1 ∨ mtype = 2) :
        msgsnd s.queue pid (exitText pid) mtype = s.queue mtype :=
      msgsnd_of_ne (by omega) _
    refine orderly.aside rfl untouched (pids_update orderly.pids client) ?_
      (update_unchanged party (by simp [party, running])) (beyond (.inl rfl))
    intro other (inside : other ∈ msgsnd s.queue pid (exitText pid) 2)
    exact orderly.lines other (beyond (.inr rfl) ▸ inside)
  | @leave pid leaving stopped =>
    have client := orderly.pids pid (by simp [leaving])
    have inside : (party (s.clients pid)).phase = .inside := by simp [party, leaving]
    refine orderly.client rfl untouched (pids_update orderly.pids client) ?_ ?_
    · intro other (inside : other ∈ msgsnd s.queue 1 (wordText 0 (s.clients pid).nick pid) 2)
      rw [msgsnd_of_ne (by decide)] at inside
      exact orderly.lines other inside
    · intro taken members newcomer register
      simp only [State.setClient, msgsnd_self (show (0 : Int) < 1 by decide), ← List.append_assoc]
      refine register.sendLeave inside ?_ fun q other => ?_
      · simp [party]
      · simp [other]
  | @wake pid left =>
    have client := orderly.pids pid (by simp [left])
    exact orderly.aside rfl untouched (pids_update orderly.pids client)
      (added (marked_lineText rfl _ pid) (.inr rfl))
      (update_unchanged party (by simp [party, left]))
      (msgsnd_of_ne (show (1 : Int) ≠ 2 by decide) (lineText 4 (s.clients pid).nick pid))
  | @look pid present healthy handler =>
    exact orderly.aside rfl untouched (pids_update orderly.pids (orderly.pids pid present))
      orderly.lines (update_unchanged party rfl) rfl
  | @hear pid mtext rest present healthy head =>
    have client := orderly.pids pid present
    have beyond {mtype : Int} (server : mtype = 1 ∨ mtype = 2) :
        Function.update s.queue pid rest mtype = s.queue mtype :=
      Function.update_of_ne (by omega) _ _
    refine orderly.aside rfl untouched (pids_update orderly.pids client) ?_
      (update_unchanged party (by simp [party, process_main, process_nick])) (beyond (.inl rfl))
    intro other (inside : other ∈ Function.update s.queue pid rest 2)
    exact orderly.lines other (beyond (.inr rfl) ▸ inside)
  | members running moved => exact orderly_members orderly moved
  | message running moved => exact orderly_message orderly apart.1 moved

end EltexCourse.Guarantees.Chat.Requests
