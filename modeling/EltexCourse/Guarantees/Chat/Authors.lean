import EltexCourse.Guarantees.Chat.Tables

/-!
# Authors are known before their lines

A client reads its texts in the order in which the server sent them. So it is
enough that the join of an author is sent to a client before any line of that
author: by `shair_database` to a newcomer, by the broadcast of the join to
everybody else. Neither is certain. `shair_database` leaves out the members that
are offline but replays their lines, and `message_hendler` broadcasts a line
without looking where `members_handler` is with its author.
-/

set_option autoImplicit false

namespace EltexCourse.Guarantees.Chat.Authors
open Foundations.CString Foundations.Decimal Foundations.Transition
open Source.Chat Source.Chat.MessageQueue Traffic Requests

/-- The id a client adds to its members on this text. -/
def joined (mtext : Text) : Option Int :=
  match messageHandlerTokens mtext with
  | some (.join _ id) => some id
  | _ => none

/-- The author of the chat line a client makes of this text. -/
def author (mtext : Text) : Option Int :=
  match messageHandlerTokens mtext with
  | some (.chat _ id) => some id
  | _ => none

/-- The ids in a client's member table when it has read the texts queued for it. -/
def roster (s : State) (p : Int) : List Int :=
  ids (s.clients p).members ++ (s.queue p).filterMap joined

/-- Every line among the texts comes after the join of its author. -/
def Known (known : List Int) : List Text → Prop
  | [] => True
  | mtext :: rest => (∀ id ∈ author mtext, id ∈ known) ∧ Known (known ++ (joined mtext).toList) rest

/-- The stored line that a turn of `members_handler` replays. -/
def replaying (s : Server) : Option DataArr :=
  match s.membersPc with
  | .shareMessages i _ _ => s.messages[i]?
  | _ => none

/-- The index of the member to which the broadcast of a line sends next, and the line. -/
def lineTurn (s : Server) : Option (Nat × Text) :=
  match s.messagePc with
  | .broadcast i raw => if i < s.members.length then some (i, raw) else none
  | _ => none

/-- The index at which the broadcast of a request is, and the request. -/
def requestTurn (s : Server) : Option (Nat × Text) :=
  match s.membersPc with
  | .broadcast j raw => some (j, raw)
  | _ => none

/-- The join of `id` has been sent to the member at index `i`: the member has been
registered, and the broadcast of its join is over or past `i`. -/
def Announced (s : Server) (id : Int) (i : Nat) : Prop :=
  id ∈ ids s.members ∧ ∀ turn ∈ requestTurn s, joined turn.2 = some id → i < turn.1

instance (s : Server) (id : Int) (i : Nat) : Decidable (Announced s id i) :=
  inferInstanceAs (Decidable (_ ∧ _))

/-- What `message_hendler` has in hand of type 2, and what it will take. -/
def underway (s : State) : List Text :=
  match s.server.messagePc with
  | .broadcast _ raw => raw :: s.queue 2
  | _ => s.queue 2

/-- The next turn of `members_handler` enters the newcomer into the table. -/
def registering : MembersPc → Bool
  | .register _ _ _ => true
  | _ => false

/-- A newcomer is registered when no line of a member that is offline is on its way,
so nobody is sent a line whose author has left before it came. -/
def NoneOfFormer (s : State) : Prop :=
  registering s.server.membersPc = true → ∀ mtext ∈ underway s, Marked '3' mtext →
    ∀ id ∈ author mtext, id ∈ ids s.server.members → id ∈ onlineIds s.server.members

instance (s : State) : Decidable (NoneOfFormer s) :=
  inferInstanceAs (Decidable (_ → ∀ mtext ∈ underway s, _ → ∀ id ∈ author mtext, _ → _))

/-- What the server would have to see to: a line is replayed while its author is
online, is broadcast to a member to whom the join of its author has been sent, and is
through before a newcomer is registered to whom that join will not be sent. -/
structure AuthorsFirst (s : State) (a : Action) : Prop where
  intact : Intact s a
  replays : a = .members → ∀ entry ∈ replaying s.server, entry.id ∈ onlineIds s.server.members
  broadcasts : a = .message → ∀ turn ∈ lineTurn s.server, ∀ id ∈ author turn.2,
    Announced s.server id turn.1
  registers : a = .members → NoneOfFormer s

instance (s : State) (a : Action) : Decidable (AuthorsFirst s a) :=
  decidable_of_iff (Intact s a ∧
      (a = .members → ∀ entry ∈ replaying s.server, entry.id ∈ onlineIds s.server.members) ∧
      (a = .message → ∀ turn ∈ lineTurn s.server, ∀ id ∈ author turn.2,
        Announced s.server id turn.1) ∧ (a = .members → NoneOfFormer s))
    ⟨fun h => ⟨h.1, h.2.1, h.2.2.1, h.2.2.2⟩,
      fun h => ⟨h.intact, h.replays, h.broadcasts, h.registers⟩⟩

/-- The print loop of `refresh_handler` finds the author of every line. -/
def AuthorsFound (c : Client) : Prop :=
  ∀ entry ∈ c.messages, dataFind c.members entry.id ≠ -1

instance (c : Client) : Decidable (AuthorsFound c) := by
  unfold AuthorsFound
  infer_instance

/-- A text at the end of the queue names nobody new if its author is known already or
joined by an earlier text. -/
theorem known_append {known : List Int} {texts : List Text} {mtext : Text} :
    Known known (texts ++ [mtext]) ↔
      Known known texts ∧ ∀ id ∈ author mtext, id ∈ known ++ texts.filterMap joined := by
  induction texts generalizing known with
  | nil => simp [Known]
  | cons head rest ih =>
    rw [List.cons_append, Known, Known, ih, and_assoc]
    refine and_congr_right fun _ => and_congr_right fun _ => forall₂_congr fun id _ => ?_
    cases first : joined head with
    | none => simp [List.filterMap_cons_none first]
    | some id => simp [List.filterMap_cons_some first]

theorem process_ids (c : Client) (mtext : Text) :
    ids (c.process mtext).members = ids c.members ++ (joined mtext).toList := by
  unfold Client.process joined
  cases messageHandlerTokens mtext with
  | none => simp
  | some notice =>
    cases notice with
    | leave id =>
      cases found : markOffline c.members id with
      | none => simp [found]
      | some members => simp [found, markOffline_ids found]
    | join line id => simp [dataAdd]
    | exit => simp
    | chat line id => simp

theorem process_messages (c : Client) (mtext : Text) :
    ∀ entry ∈ (c.process mtext).messages, entry ∈ c.messages ∨ entry.id ∈ author mtext := by
  unfold Client.process author
  intro entry inside
  cases tokens : messageHandlerTokens mtext with
  | none => simp_all
  | some notice =>
    rw [tokens] at inside
    cases notice with
    | leave id =>
      dsimp only at inside
      split at inside <;> exact Or.inl inside
    | join line id => exact Or.inl inside
    | exit => exact Or.inl inside
    | chat line id =>
      rcases List.mem_append.mp inside with old | isNew
      · exact Or.inl old
      · exact Or.inr (by simp [List.mem_singleton.mp isNew])

theorem heed_ids {m d : Data} {mtext : Text} (read : Tables.heed m mtext = some d) :
    ids d = ids m ++ (joined mtext).toList := by
  unfold Tables.heed at read
  unfold joined
  cases tokens : messageHandlerTokens mtext with
  | none =>
    rw [tokens] at read
    simp [Option.some.inj read]
  | some notice =>
    rw [tokens] at read
    cases notice with
    | leave id => simp [markOffline_ids read]
    | join line id => simp [← Option.some.inj read]
    | exit | chat => simp [Option.some.inj read]

/-- Every id in a table that has been read was there or has been told. -/
theorem consume_ids {m d : Data} {texts : List Text} (read : Tables.consume m texts = some d) :
    ids d = ids m ++ texts.filterMap joined := by
  induction texts generalizing m with
  | nil => simp [Option.some.inj read]
  | cons mtext rest ih =>
    rw [Tables.consume_cons] at read
    obtain ⟨next, first, read⟩ := Option.bind_eq_some_iff.mp read
    rw [ih read, heed_ids first, List.append_assoc]
    cases told : joined mtext with
    | none => simp [List.filterMap_cons_none told]
    | some id => simp [List.filterMap_cons_some told]

/-- A member that is offline is either known to a member or has nothing on its way. -/
def FormerKnown (s : State) : Prop :=
  ∀ p ∈ ids s.server.members, ∀ id ∈ ids s.server.members, id ∉ onlineIds s.server.members →
    id ∈ roster s p ∨ ∀ mtext ∈ underway s, Marked '3' mtext → author mtext ≠ some id

/-- The texts come after the joins of their authors, in the queue of each client and in
its tables. -/
structure Invariant (s : State) : Prop where
  tables : Tables.Invariant s
  request : ∀ turn ∈ requestTurn s.server, author turn.2 = none
  known : ∀ p, 2 < p → Known (ids (s.clients p).members) (s.queue p)
  shown : ∀ p, 2 < p → ∀ entry ∈ (s.clients p).messages, entry.id ∈ ids (s.clients p).members
  former : FormerKnown s

theorem invariant_initial : Invariant initial :=
  ⟨Tables.invariant_initial, (fun _ none => by cases none), fun _ _ => trivial,
    fun _ _ _ inside => absurd inside List.not_mem_nil,
    fun _ inside => absurd inside List.not_mem_nil⟩

/-- Who is online is on the roster of every member, or about to be told to it. -/
theorem told_or_owed {s : State} {p id : Int} (tables : Tables.Invariant s)
    (serving : s.server.membersPc.Serving) (client : 2 < p) (there : Tables.Joined s.server p)
    (isOnline : id ∈ onlineIds s.server.members) :
    id ∈ roster s p ∨ id ∈ (Tables.owed s.server p).filterMap joined := by
  obtain ⟨d, read, agreed⟩ := tables.followed serving p client
  have inside : id ∈ ids d := by
    apply mem_ids_of_mem_onlineIds
    rwa [onlineIds, agreed.online there]
  rwa [consume_ids read, List.filterMap_append, ← List.append_assoc, List.mem_append] at inside

/-- Reading moves ids from the queue to the table, and texts are only added. -/
theorem roster_subset {s t : State} {a : Action} {p : Int} (moved : ClientMove s a t p) :
    roster s p ⊆ roster t p := by
  unfold roster
  cases moved with
  | still tables queue => rw [tables.members, queue]; exact List.Subset.refl _
  | sent origin tables queue =>
    rw [tables.members, queue, List.filterMap_append, ← List.append_assoc]
    exact List.subset_append_left _ _
  | @read mtext rest present head queue client =>
    rw [client, queue, head, process_ids, List.append_assoc]
    cases first : joined mtext with
    | none => simp [List.filterMap_cons_none first]
    | some id => simp [List.filterMap_cons_some first]

theorem author_historyText {entry : DataArr} (stored : Stored entry) {id : Int}
    (named : id ∈ author (historyText entry)) : id = entry.id := by
  rw [author, stored.text] at named
  by_cases quits : entry.line = exitLine
  · simp [quits] at named
  · simpa [quits, eq_comm] using named

/-- A stored line is replayed to a newcomer that has been told of all who are online. -/
theorem replayed_after_author {s : State} (inv : Invariant s) (allowed : AuthorsFirst s .members)
    {i : Nat} {member entry : DataArr} {raw : Text}
    (pc : s.server.membersPc = .shareMessages i member raw)
    (found : s.server.messages[i]? = some entry) (client : 2 < member.id) :
    ∀ id ∈ author (historyText entry), id ∈ roster s member.id := by
  intro id named
  have stored := inv.tables.orderly.readable.messages entry (List.mem_of_getElem? found)
  obtain rfl := author_historyText stored named
  have isOnline := allowed.replays rfl entry (by simp [replaying, pc, found])
  have there : Tables.Joined s.server member.id := Or.inr (by simp [pc, MembersPc.newcomer])
  rcases told_or_owed inv.tables (by simp [pc, MembersPc.Serving]) client there isOnline with
    told | owed
  · exact told
  · simp [Tables.owed, pc] at owed

/-- What a member is still owed of a join, the broadcast of which is past its index:
nothing. -/
theorem not_owed {s : State} (inv : Invariant s) {i : Nat} {entry : DataArr} {id : Int}
    (found : s.server.members[i]? = some entry) (announced : Announced s.server id i) :
    id ∉ (Tables.owed s.server entry.id).filterMap joined := by
  have inTable : entry.id ∈ ids s.server.members :=
    List.mem_map_of_mem (List.mem_of_getElem? found)
  intro owed
  obtain ⟨mtext, inside, told⟩ := List.mem_filterMap.mp owed
  unfold Tables.owed at inside
  split at inside
  next member _ pc =>
    split at inside
    next own =>
      have joining : s.server.membersPc.newcomer = some member := by simp [pc, MembersPc.newcomer]
      exact (inv.tables.orderly.newcomer joining).2 (own ▸ inTable)
    · exact absurd inside List.not_mem_nil
  next j raw pc =>
    split at inside
    next ahead =>
      obtain rfl := List.mem_singleton.mp inside
      have past : i < j := announced.2 (j, mtext) (by simp [requestTurn, pc]) told
      exact Tables.not_mem_drop inv.tables.orderly.unique found past ahead
    · exact absurd inside List.not_mem_nil
  · exact absurd inside List.not_mem_nil

/-- A line is broadcast to a member that has been told of its author, whether or not
the author has left by then. -/
theorem line_after_author {s : State} (inv : Invariant s) (allowed : AuthorsFirst s .message)
    {i : Nat} {entry : DataArr} {raw : Text} (pc : s.server.messagePc = .broadcast i raw)
    (found : s.server.members[i]? = some entry) :
    ∀ id ∈ author raw, id ∈ roster s entry.id := by
  have inTable : entry.id ∈ ids s.server.members :=
    List.mem_map_of_mem (List.mem_of_getElem? found)
  have below : i < s.server.members.length := (List.getElem?_eq_some_iff.mp found).1
  have serving := inv.tables.orderly.serving_of_member inTable
  intro id named
  have announced := allowed.broadcasts rfl (i, raw) (by simp [lineTurn, pc, below]) id named
  by_cases isOnline : id ∈ onlineIds s.server.members
  · have client := inv.tables.orderly.member_pid inTable
    exact (told_or_owed inv.tables serving client (Or.inl inTable) isOnline).resolve_right
      (not_owed inv found announced)
  · rcases inv.former _ inTable id announced.1 isOnline with told | none
    · exact told
    · exact absurd named (none raw (by simp [underway, pc]) (inv.tables.orderly.line i raw pc))

/-- Whatever is sent to a client comes after the join of its author. -/
theorem sent_after_author {s : State} {a : Action} {p : Int} {mtext : Text} (inv : Invariant s)
    (allowed : AuthorsFirst s a) (client : 2 < p) (origin : Sends s a p mtext) :
    ∀ id ∈ author mtext, id ∈ roster s p := by
  cases origin with
  | exit => simp [author, messageHandler_exitWord]
  | @member i member entry raw pc found flag =>
    simp [author, (inv.tables.orderly.readable.members entry (List.mem_of_getElem? found)).text]
  | history pc found => exact replayed_after_author inv allowed pc found client
  | @request i entry raw pc found =>
    simp [inv.request (i, mtext) (by simp [requestTurn, pc])]
  | line pc found => exact line_after_author inv allowed pc found

section Steps

variable {s : State} {server : Server} {queue : Queue}

/-- No step changes that which takes nobody offline, registers nobody, and puts no line
on its way. -/
theorem FormerKnown.mono {s t : State} (former : FormerKnown s)
    (members : t.server.members = s.server.members)
    (grown : ∀ p ∈ ids s.server.members, roster s p ⊆ roster t p)
    (lines : ∀ mtext ∈ underway t, Marked '3' mtext → mtext ∈ underway s) : FormerKnown t := by
  rw [FormerKnown, members]
  intro p member id known offline
  rcases former p member id known offline with told | none
  · exact Or.inl (grown p member told)
  · exact Or.inr fun mtext inside marked => none mtext (lines mtext inside marked) marked

theorem underway_members (orderly : Orderly s)
    (moved : MembersMove s.server s.queue server queue) :
    underway { s with server, queue } = underway s := by
  simp only [underway, (membersMove_untouched moved).2, orderly.lines_members moved]

/-- A turn of `members_handler` keeps what is known of those who have left, as it only
adds to the table and to the queues; for a newcomer the condition says so. -/
theorem former_members (inv : Invariant s) (allowed : AuthorsFirst s .members)
    (moved : MembersMove s.server s.queue server queue)
    (grown : ∀ p, 2 < p → roster s p ⊆ roster { s with server, queue } p) :
    FormerKnown { s with server, queue } := by
  have orderly := inv.tables.orderly
  have sameLines := underway_members orderly moved
  have known (p : Int) (member : p ∈ ids s.server.members) := grown p (orderly.member_pid member)
  have kept (members : server.members = s.server.members) : FormerKnown { s with server, queue } :=
    inv.former.mono members known fun mtext inside _ => sameLines ▸ inside
  cases moved with
  | @leaveNumber raw cursor number accounts pc found marked =>
    obtain ⟨members, first, rfl⟩ := Option.map_eq_some_iff.mp marked
    intro p member id inTable offline
    replace member : p ∈ ids s.server.members := markOffline_ids first ▸ member
    replace inTable : id ∈ ids s.server.members := markOffline_ids first ▸ inTable
    by_cases before : id ∈ onlineIds s.server.members
    · -- It leaves now, and has been told to every member by its join.
      refine Or.inl (known p member ?_)
      refine (told_or_owed inv.tables (by simp [pc, MembersPc.Serving]) (orderly.member_pid member)
        (Or.inl member) before).resolve_right ?_
      simp [Tables.owed, pc]
    · rcases inv.former p member id inTable before with told | none
      · exact Or.inl (known p member told)
      · exact Or.inr fun mtext inside => none mtext (sameLines ▸ inside)
  | @register i newcomer raw pc =>
    have isOnline := (orderly.readable.newcomer newcomer (by simp [pc, MembersPc.newcomer])).2
    have none := allowed.registers rfl (by rw [pc]; rfl)
    have online : onlineIds (s.server.accounts.add newcomer).count.members =
        onlineIds s.server.members ++ [newcomer.id] := by
      simp [Accounts.count, Accounts.add, dataAdd, onlineIds, online_cons, isOnline]
    have all : ids (s.server.accounts.add newcomer).count.members =
        ids s.server.members ++ [newcomer.id] := by
      simp [Accounts.count, Accounts.add]
    intro p member id inTable offline
    simp only [Server.members, online, all, List.mem_append,
      List.mem_singleton] at member inTable offline
    obtain ⟨before, other⟩ := not_or.mp offline
    have old := inTable.resolve_right other
    rcases member with member | rfl
    · rcases inv.former p member id old before with told | none
      · exact Or.inl (known p member told)
      · exact Or.inr fun mtext inside => none mtext (sameLines ▸ inside)
    · -- The newcomer is not told of those who are offline, and none of them has a line
      -- on its way.
      refine Or.inr fun mtext inside marked isAuthor => before ?_
      exact none mtext (sameLines ▸ inside) marked id isAuthor old
  | clear => exact fun p member => absurd member List.not_mem_nil
  | crash | takeLeave | takeJoin | tokenCrash | leaveName | joinName | joinNumber | shareMember
  | shareMembersEnd | shareMessage | shareMessagesEnd | broadcast | broadcastEnd | goOn | unlock
  | exit => exact kept rfl

theorem underway_message (orderly : Orderly s)
    (moved : MessageMove s.server s.queue server queue) :
    ∀ mtext ∈ underway { s with server, queue }, mtext ∈ underway s := by
  have fewer := orderly.lines_message moved
  intro mtext inside
  have queued (old : mtext ∈ s.queue 2) : mtext ∈ underway s := by
    unfold underway
    split
    · exact List.mem_cons_of_mem _ old
    · exact old
  cases moved with
  | @takeLine raw cursor marker rest pc head =>
    rcases List.mem_cons.mp inside with rfl | later
    · exact queued (by simp [head])
    · exact queued (fewer mtext later)
  | broadcast pc =>
    rcases List.mem_cons.mp inside with rfl | later
    · simp [underway, pc]
    · exact queued (fewer mtext later)
  | crash pc =>
    simp only [underway, pc] at inside
    exact queued (fewer mtext inside)
  | tokenCrash => exact inside
  | takeWake | goOn | exit | wakeEmpty | wakeOther | broadcastEnd | line | number | add =>
    exact queued (fewer mtext inside)

/-- The text of a request is none of a line. -/
theorem request_members (inv : Invariant s)
    (moved : MembersMove s.server s.queue server queue) :
    ∀ turn ∈ requestTurn server, author turn.2 = none := by
  have orderly := inv.tables.orderly
  have inHand := inv.tables.inHand
  have request := inv.request
  cases moved with
  | crash | tokenCrash => exact request
  | @leaveNumber raw cursor number accounts pc found marked =>
    have notice :=
      ((orderly.parsing (by rw [pc]; rfl)).takeLeave (orderly.takeLeave pc found)).2.2.1
    rintro turn isTurn
    obtain rfl := Option.some.inj isTurn
    simp [author, notice]
  | @register i member raw pc =>
    have registered := (orderly.readable.newcomer member (by simp [pc, MembersPc.newcomer])).1
    have text : raw = memberText member := by simpa [Tables.InHand, pc] using inHand
    rintro turn isTurn
    obtain rfl := Option.some.inj isTurn
    simp [author, text, registered.text]
  | @broadcast i entry raw pc =>
    rintro turn isTurn
    obtain rfl := Option.some.inj isTurn
    exact request (i, raw) (by simp [requestTurn, pc])
  | takeLeave | takeJoin | leaveName | joinName | joinNumber | shareMember | shareMembersEnd
  | shareMessage | shareMessagesEnd | broadcastEnd | goOn | unlock | clear | exit =>
    exact fun turn isTurn => by cases isTurn

end Steps

/-- A client that types has not left. -/
theorem former_step {s t : State} {a : Action} (inv : Invariant s) (allowed : AuthorsFirst s a)
    (stepped : step s a = some t) (grown : ∀ p, 2 < p → roster s p ⊆ roster t p) :
    FormerKnown t := by
  have orderly := inv.tables.orderly
  have known (p : Int) (member : p ∈ ids s.server.members) := grown p (orderly.member_pid member)
  have aside (server : t.server = s.server) (lines : t.queue 2 = s.queue 2) : FormerKnown t := by
    refine inv.former.mono (by rw [server]) known fun mtext inside _ => ?_
    simpa only [underway, server, lines] using inside
  have added {line : Text} (server : t.server = s.server)
    (lines : t.queue 2 = s.queue 2 ++ [line]) :
      ∀ mtext ∈ underway t, mtext ∈ underway s ∨ mtext = line := by
    intro mtext inside
    simp only [underway, server, lines] at inside ⊢
    split at inside <;> simpa [or_assoc] using inside
  cases step_move stepped with
  | @start pid nick =>
    exact aside rfl (msgsnd_of_ne (show (2 : Int) ≠ 1 by decide) (wordText 1 nick pid))
  | @leave pid =>
    exact aside rfl
      (msgsnd_of_ne (show (2 : Int) ≠ 1 by decide) (wordText 0 (s.clients pid).nick pid))
  | @quit pid running =>
    have client := orderly.pids pid (by simp [running])
    exact aside rfl (msgsnd_of_ne (by omega) _)
  | look => exact aside rfl rfl
  | @hear pid mtext rest present =>
    have client := orderly.pids pid present
    exact aside rfl (Function.update_of_ne (by omega) _ _)
  | @wake pid left =>
    refine inv.former.mono rfl known fun mtext inside marked => ?_
    have sent := msgsnd_self (q := s.queue) (show (0 : Int) < 2 by decide)
      (lineText 4 (s.clients pid).nick pid)
    rcases added rfl sent mtext inside with old | rfl
    · exact old
    · rw [Marked, strtok_lineText] at marked
      cases marked
  | @say pid line running healthy other =>
    have client := orderly.pids pid (by simp [running])
    have inside : (party (s.clients pid)).phase = .inside := by simp [party, running]
    have whole : Line line := allowed.intact.1
    have sent := msgsnd_self (q := s.queue) (show (0 : Int) < 2 by decide) (lineText 3 line pid)
    intro p member id inTable offline
    have register := orderly.register (orderly.serving_of_member member)
    have fits := (register.valid pid (by simp [inside])).1
    rcases inv.former p member id inTable offline with told | none
    · exact Or.inl (known p member told)
    · refine Or.inr fun mtext isUnderway marked => ?_
      rcases added rfl sent mtext isUnderway with old | rfl
      · exact none mtext old marked
      · intro isAuthor
        rw [author, messageHandler_line whole fits, if_neg other] at isAuthor
        obtain rfl := Option.some.inj isAuthor
        exact offline (orderly.online_of_inside inside inTable)
  | members running moved => exact former_members inv allowed moved grown
  | message running moved =>
    exact inv.former.mono (congrArg Accounts.members (messageMove_accounts moved)) known
      fun mtext inside _ => underway_message orderly moved mtext inside

/-- One step of any thread or client, under the condition: the tables of the server and
of each client go on agreeing, and whoever is named in a text is found in it. -/
theorem invariant_step {s t : State} {a : Action} (inv : Invariant s) (allowed : AuthorsFirst s a)
    (stepped : step s a = some t) : Invariant t := by
  have moves {p : Int} (client : 2 < p) :=
    client_move inv.tables.orderly.untouched stepped client
  have grown (p : Int) (client : 2 < p) : roster s p ⊆ roster t p := roster_subset (moves client)
  refine ⟨Tables.invariant_step inv.tables allowed.intact.undivided stepped, ?_,
    fun p client => ?_, fun p client => ?_, former_step inv allowed stepped grown⟩
  · cases step_move stepped with
    | start | say | quit | leave | wake | look | hear => exact inv.request
    | members running moved => exact request_members inv moved
    | message running moved =>
      simp only [requestTurn, messageMove_membersPc moved]
      exact inv.request
  · have known := inv.known p client
    cases moves client with
    | still tables queue => rwa [tables.members, queue]
    | sent origin tables queue =>
      rw [tables.members, queue, known_append]
      exact ⟨known, sent_after_author inv allowed client origin⟩
    | @read mtext rest present head queue client =>
      rw [head, Known] at known
      rw [client, queue, process_ids]
      exact known.2
  · have shown := inv.shown p client
    cases moves client with
    | still tables queue => rwa [tables.members, tables.messages]
    | sent origin tables queue => rwa [tables.members, tables.messages]
    | @read mtext rest present head queue isClient =>
      have known := inv.known p client
      rw [head, Known] at known
      intro entry inside
      rw [isClient] at inside ⊢
      rw [process_ids]
      rcases process_messages _ mtext entry inside with old | isNew
      · exact List.mem_append_left _ (shown entry old)
      · exact List.mem_append_left _ (known.1 _ isNew)

/-- In every run in which the server replays lines only while their authors are online,
broadcasts them only where their authors' joins have been broadcast, and registers
nobody while a line of a member that has left is on its way, no client ever prints a
line whose author it does not find. -/
theorem authors_found {log : List Action} {s : State}
    (run : system.Reach AuthorsFirst initial log s) (p : Int) : AuthorsFound (s.clients p) := by
  have inv := run.stateInvariant Invariant invariant_initial
    fun _ _ _ inv allowed stepped => invariant_step inv allowed stepped
  intro entry inside
  rw [Ne, dataFind_eq_neg_one_iff, not_not]
  by_cases present : (s.clients p).main = .absent
  · rw [inv.tables.orderly.untouched p present] at inside
    exact absurd inside List.not_mem_nil
  · exact inv.shown p (inv.tables.orderly.pids p present) entry inside

/-- "a" (3) joins alone. -/
def firstJoin : List Action := .start 3 ['a'] :: List.replicate 9 .members

/-- "b" (4) joins "a". -/
def secondJoin : List Action := .start 4 ['b'] :: List.replicate 11 .members

/-- "h" from "a" is broadcast to both and stored. -/
def firstLine : List Action := .type 3 ['h'] :: List.replicate 8 .message

/-- "a" leaves, "b" stays. -/
def firstLeave : List Action :=
  .type 3 exitLine :: .poll 3 :: .leave 3 :: List.replicate 7 .members

/-- "c" (5) joins and reads everything sent to it. -/
def thirdJoin : List Action :=
  .start 5 ['c'] :: (List.replicate 14 .members ++ List.replicate 6 (.poll 5))

theorem authors_found_second :
    ∃ log s, system.Reach AuthorsFirst initial log s ∧ (s.clients 4).messages.length = 1 ∧
      AuthorsFound (s.clients 4) := by
  obtain ⟨log, s, run, read⟩ := system.exists_reach AuthorsFirst initial
    (firstJoin ++ secondJoin ++ firstLine ++ List.replicate 6 (Action.poll 4))
    (fun _ s => (s.clients 4).messages.length = 1) (by decide)
  exact ⟨log, s, run, read, authors_found run 4⟩

/-- "c" has read all its texts: its own join, that of "b", and a line of "a",
who is not in its table. -/
theorem author_missing :
    ∃ log s, system.Reach Intact initial log s ∧ (s.clients 5).main = .running ∧
      s.queue 5 = [] ∧ (s.clients 5).messages = [⟨['h'], 3, 0⟩] ∧
      dataFind (s.clients 5).members 3 = -1 ∧ ¬ AuthorsFound (s.clients 5) := by
  obtain ⟨log, s, run, running, read, messages, missing⟩ := system.exists_reach Intact initial
    (firstJoin ++ secondJoin ++ firstLine ++ firstLeave ++ thirdJoin)
    (fun _ s => (s.clients 5).main = .running ∧ s.queue 5 = [] ∧
      (s.clients 5).messages = [⟨['h'], 3, 0⟩] ∧ dataFind (s.clients 5).members 3 = -1) (by decide)
  exact ⟨log, s, run, running, read, messages, missing,
    fun found => found ⟨['h'], 3, 0⟩ (by simp [messages]) missing⟩

end EltexCourse.Guarantees.Chat.Authors
