import EltexCourse.Guarantees.Chat.Requests

/-!
# The clients' member tables follow the server's

A client's table is what it has read of its queue. What it will be when the
client has read the queue, and what the turn in hand of `members_handler` still
owes it, agrees with the server's table at every moment. The snapshot of
`shair_database`, the registration and the broadcast of the join fit together
because the newcomer is registered before its own join is broadcast and after
its snapshot has been taken. They do so as long as `members_handler` finds the tokens
of its own requests: the cursor of `strtok` is shared with the other thread.
-/

set_option autoImplicit false

namespace EltexCourse.Guarantees.Chat.Tables
open Foundations.CString Foundations.Decimal Foundations.Transition
open Source.Chat Source.Chat.MessageQueue Traffic Requests

/-- What `message_handler` makes of a member table on one text. Texts that are
not about members leave it alone; `none` is a leave that is not found. -/
def heed (m : Data) (mtext : Text) : Option Data :=
  match messageHandlerTokens mtext with
  | some (.leave id) => markOffline m id
  | some (.join line id) => some (dataAdd m ⟨line, id, 1⟩)
  | _ => some m

def consume (m : Data) (texts : List Text) : Option Data := texts.foldlM heed m

theorem consume_cons (m : Data) (mtext : Text) (rest : List Text) :
    consume m (mtext :: rest) = (heed m mtext).bind (consume · rest) := rfl

/-- A queue is read in order, so its front part can be read first and the rest against
the table it leaves. -/
theorem consume_append (m : Data) (texts rest : List Text) :
    consume m (texts ++ rest) = (consume m texts).bind (consume · rest) :=
  List.foldlM_append

theorem consume_singleton (m : Data) (mtext : Text) : consume m [mtext] = heed m mtext := by
  simp [consume]

theorem consume_prefix {m : Data} {texts rest : List Text}
    (readable : (consume m (texts ++ rest)).isSome) : (consume m texts).isSome := by
  rw [consume_append] at readable
  cases read : consume m texts with
  | none => simp [read] at readable
  | some d => rfl

/-- A text of marker "3" is not about members. -/
theorem notice_marked {mtext : Text} (marked : Marked '3' mtext) {notice : Notice}
    (read : messageHandlerTokens mtext = some notice) :
    notice = .exit ∨ ∃ line id, notice = .chat line id := by
  obtain ⟨cursor, found⟩ : ∃ cursor, strtok [' '] mtext = (some ['3'], cursor) :=
    ⟨_, Prod.ext marked rfl⟩
  simp only [messageHandlerTokens, found] at read
  rw [if_neg (by decide), if_neg (by decide)] at read
  split at read
  · cases read
  · split at read
    · exact Or.inl (Option.some.inj read).symm
    · split at read
      · cases read
      · exact Or.inr ⟨_, _, (Option.some.inj read).symm⟩

theorem heed_marked {mtext : Text} (marked : Marked '3' mtext) (m : Data) :
    heed m mtext = some m := by
  unfold heed
  cases tokens : messageHandlerTokens mtext with
  | none => rfl
  | some notice =>
    rcases notice_marked marked tokens with rfl | ⟨line, id, rfl⟩
    · rfl
    · rfl

theorem consume_skip {mtext : Text} (marked : Marked '3' mtext) (m : Data)
    (texts rest : List Text) :
    consume m (texts ++ [mtext] ++ rest) = consume m (texts ++ rest) := by
  simp only [consume_append, consume_singleton, heed_marked marked, Option.bind_fun_some]

theorem process_heed {c : Client} {mtext : Text} {m : Data}
    (heeded : heed c.members mtext = some m) :
    (c.process mtext).members = m ∧
      ((c.process mtext).fault = some .badIndex → c.fault = some .badIndex) := by
  unfold heed at heeded
  unfold Client.process
  cases tokens : messageHandlerTokens mtext with
  | none =>
    rw [tokens] at heeded
    exact ⟨Option.some.inj heeded, by simp⟩
  | some notice =>
    rw [tokens] at heeded
    cases notice with
    | leave id =>
      replace heeded : markOffline c.members id = some m := heeded
      simp [heeded]
    | join line id => exact ⟨Option.some.inj heeded, fun fault => fault⟩
    | exit => exact ⟨Option.some.inj heeded, fun fault => fault⟩
    | chat line id => exact ⟨Option.some.inj heeded, fun fault => fault⟩

/-- The texts about members that the turn in hand has still to send to `p`. -/
def owed (s : Server) (p : Int) : List Text :=
  match s.membersPc with
  | .shareMembers i member _ =>
    if member.id = p then (online (s.members.drop i)).map memberText else []
  | .broadcast i raw => if p ∈ ids (s.members.drop i) then [raw] else []
  | _ => []

/-- `p` is in the table, or its join is in hand. -/
def Joined (s : Server) (p : Int) : Prop :=
  p ∈ ids s.members ∨ s.membersPc.newcomer.map (·.id) = some p

/-- A client's table agrees with the server's: its own if it has joined, else it
is empty. -/
structure Agreed (s : Server) (p : Int) (d : Data) : Prop where
  online : Joined s p → online d = online s.members
  unique : (ids d).Nodup
  subset : ids d ⊆ ids s.members
  outside : ¬ Joined s p → d = []

def Followed (s : State) (p : Int) : Prop :=
  ∃ d, consume (s.clients p).members (s.queue p ++ owed s.server p) = some d ∧
    Agreed s.server p d

/-- The text to be broadcast for the join in hand. -/
def InHand (pc : MembersPc) : Prop :=
  match pc with
  | .shareMembers _ member raw | .shareMessages _ member raw | .register _ member raw =>
    raw = memberText member
  | _ => True

structure Invariant (s : State) : Prop where
  orderly : Orderly s
  inHand : InHand s.server.membersPc
  faultless : ∀ p, (s.clients p).fault ≠ some .badIndex
  sound : ∀ p, 2 < p → (consume (s.clients p).members (s.queue p)).isSome
  followed : s.server.membersPc.Serving → ∀ p, 2 < p → Followed s p

theorem invariant_initial : Invariant initial := by
  refine ⟨orderly_initial, trivial, ?_, fun _ _ => rfl, fun _ p _ => ⟨[], rfl, ?_⟩⟩
  · simp [initial, Client.absent]
  · exact ⟨fun _ => rfl, List.nodup_nil, List.Subset.refl _, fun _ => rfl⟩

/-- Reading a text, or being sent one that is not about members, changes nothing
about what the table will be. -/
theorem consume_client {s t : State} {a : Action} {p : Int} (moved : ClientMove s a t p)
    (aside : a ≠ .members) (line : ∀ i raw, s.server.messagePc = .broadcast i raw → Marked '3' raw)
    {rest : List Text} (readable : (consume (s.clients p).members (s.queue p ++ rest)).isSome) :
    consume (t.clients p).members (t.queue p ++ rest) =
      consume (s.clients p).members (s.queue p ++ rest) := by
  cases moved with
  | still tables queue => rw [tables.members, queue]
  | sent origin tables queue =>
    rw [tables.members, queue]
    cases origin with
    | exit => exact consume_skip (marked_wordText rfl exitLine p) _ _ _
    | line pc found => exact consume_skip (line _ _ pc) _ _ _
    | member | history | request => exact absurd rfl aside
  | @read mtext queued present head queue client =>
    rw [head, List.cons_append, consume_cons] at readable ⊢
    cases heeded : heed (s.clients p).members mtext with
    | none => simp [heeded] at readable
    | some m => rw [client, queue, (process_heed heeded).1, Option.bind_some]

theorem sound_of_followed {s : State} {p : Int} (followed : Followed s p) :
    (consume (s.clients p).members (s.queue p)).isSome := by
  obtain ⟨d, read, _⟩ := followed
  exact consume_prefix (by rw [read]; rfl)

theorem Agreed.congr {s t : Server} {p : Int} {d : Data} (agreed : Agreed s p d)
    (members : t.members = s.members) (newcomer : t.membersPc.newcomer = s.membersPc.newcomer) :
    Agreed t p d := by
  have joined : Joined t p ↔ Joined s p := by rw [Joined, Joined, members, newcomer]
  exact ⟨fun known => members ▸ agreed.online (joined.mp known), agreed.unique,
    members ▸ agreed.subset, fun unknown => agreed.outside fun known => unknown (joined.mpr known)⟩

theorem drop_found {m : Data} {i : Nat} {entry : DataArr} (found : m[i]? = some entry) :
    m.drop i = entry :: m.drop (i + 1) := by
  obtain ⟨inside, rfl⟩ := List.getElem?_eq_some_iff.mp found
  exact List.drop_eq_getElem_cons inside

/-- The snapshot makes an empty table the online part of the server's. -/
theorem consume_snapshot {m : Data} (registered : ∀ entry ∈ m, Registered entry) :
    ∀ d : Data, consume d ((online m).map memberText) = some (d ++ online m) := by
  induction m with
  | nil => simp [consume]
  | cons entry rest ih =>
    intro d
    have first := registered entry (by simp)
    rw [online_cons]
    by_cases flag : entry.isOnline = 0
    · simpa [flag] using ih (fun e inside => registered e (by simp [inside])) d
    · have isOne : entry.isOnline = 1 := first.flag.resolve_left flag
      have entry_eq : (⟨entry.line, entry.id, 1⟩ : DataArr) = entry := by rw [← isOne]
      rw [if_pos flag, List.map_cons, consume_cons, heed, first.text]
      simp only [Option.bind_some, entry_eq, dataAdd]
      rw [ih fun e inside => registered e (by simp [inside])]
      simp

/-- A turn that changes no table, and sends no more than it owed. -/
theorem Followed.turn {s : State} {server : Server} {queue : Queue} {p : Int}
    (followed : Followed s p) (accounts : server.accounts = s.server.accounts)
    (newcomer : server.membersPc.newcomer = s.server.membersPc.newcomer)
    (same : consume (s.clients p).members (queue p ++ owed server p) =
      consume (s.clients p).members (s.queue p ++ owed s.server p)) :
    Followed { s with server, queue } p := by
  obtain ⟨d, read, agreed⟩ := followed
  exact ⟨d, same.trans read, agreed.congr (congrArg Accounts.members accounts) newcomer⟩

theorem ids_drop_nodup {m : Data} (unique : (ids m).Nodup) (i : Nat) : (ids (m.drop i)).Nodup :=
  unique.sublist ((List.drop_sublist i m).map _)

/-- Behind its own index an id does not come again. -/
theorem not_mem_drop {m : Data} {i j : Nat} {entry : DataArr} (unique : (ids m).Nodup)
    (found : m[i]? = some entry) (past : i < j) : entry.id ∉ ids (m.drop j) := by
  intro ahead
  have rest := ids_drop_nodup unique i
  rw [drop_found found, ids_cons] at rest
  refine (List.nodup_cons.mp rest).1 ?_
  have later : (m.drop j).Sublist (m.drop (i + 1)) := List.drop_sublist_drop_left m past
  exact (later.map _).subset ahead

/-- One entry of the snapshot: what was owed to the newcomer is in its queue now, or was
for an offline member and is owed to nobody. -/
theorem owed_shareMember {s : State} {i : Nat} {member entry : DataArr} {raw : Text} {p : Int}
    (client : 2 < p) (pc : s.server.membersPc = .shareMembers i member raw)
    (found : s.server.members[i]? = some entry) :
    (if entry.isOnline ≠ 0 then msgsnd s.queue member.id (memberText entry) else s.queue) p ++
        owed { s.server with membersPc := .shareMembers (i + 1) member raw } p =
      s.queue p ++ owed s.server p := by
  simp only [owed, pc]
  by_cases own : member.id = p
  · subst own
    rw [if_pos rfl, if_pos rfl, drop_found found, online_cons]
    by_cases flag : entry.isOnline = 0
    · simp [flag]
    · rw [if_pos flag, if_pos flag, msgsnd_self (by omega)]
      simp
  · rw [if_neg own, if_neg own]
    split
    · rw [msgsnd_of_ne (Ne.symm own)]
    · rfl

/-- One step of the broadcast: what was owed to the entry at the index is in its queue,
and the others are owed what they were. -/
theorem owed_broadcast {s : State} {i : Nat} {entry : DataArr} {raw : Text} {p : Int}
    (client : 2 < p) (unique : (ids s.server.members).Nodup)
    (pc : s.server.membersPc = .broadcast i raw) (found : s.server.members[i]? = some entry) :
    msgsnd s.queue entry.id raw p ++ owed { s.server with membersPc := .broadcast (i + 1) raw } p =
      s.queue p ++ owed s.server p := by
  have rest := ids_drop_nodup unique i
  simp only [owed, pc, drop_found found, ids_cons] at rest ⊢
  by_cases own : entry.id = p
  · subst own
    rw [if_neg (List.nodup_cons.mp rest).1, if_pos (by simp), msgsnd_self (by omega),
      List.append_nil]
  · rw [msgsnd_of_ne (Ne.symm own)]
    simp [Ne.symm own]

theorem followed_takeLeave {s : State} {p id : Int} {members : Data} {raw cursor : Text}
    (inv : Invariant s) (followed : Followed s p) (pc : s.server.membersPc = .leaveNumber raw)
    (tokens : membersHandlerTokens raw = some (.leave id, cursor))
    (found : markOffline s.server.members id = some members) (membersOnline : Int) :
    Followed { s with
      server := { s.server with accounts := ⟨members, membersOnline⟩, strtokCursor := cursor,
                                membersPc := .broadcast 0 raw } } p := by
  have parsing : s.server.membersPc.parsing = some raw := by rw [pc]; rfl
  obtain ⟨member, _, notice, _⟩ := (inv.orderly.parsing parsing).takeLeave tokens
  obtain ⟨d, read, agreed⟩ := followed
  have sameIds := markOffline_ids found
  have nobody : s.server.membersPc.newcomer = none := by simp [pc, MembersPc.newcomer]
  have joined : Joined s.server p ↔ p ∈ ids s.server.members := by simp [Joined, nobody]
  simp only [owed, pc, List.append_nil] at read
  by_cases present : p ∈ ids s.server.members
  · have online := agreed.online (joined.mpr present)
    have known : id ∈ ids d := mem_ids_of_mem_onlineIds (by rwa [onlineIds, online])
    obtain ⟨d', marked⟩ := markOffline_isSome known
    refine ⟨d', ?_, ?_, ?_, ?_, ?_⟩
    · simp only [owed, List.drop_zero, sameIds, if_pos present]
      rw [consume_append, read, Option.bind_some, consume_singleton, heed, notice]
      exact marked
    · intro _
      rw [markOffline_online agreed.unique marked, online,
        ← markOffline_online inv.orderly.unique found]
    · exact markOffline_ids marked ▸ agreed.unique
    · rw [markOffline_ids marked, Server.members, sameIds]
      exact agreed.subset
    · exact fun unknown => absurd (Or.inl (sameIds.symm ▸ present)) unknown
  · have empty := agreed.outside fun known => present (joined.mp known)
    subst empty
    refine ⟨[], ?_, ?_, List.nodup_nil, by simp, fun _ => rfl⟩
    · simpa only [owed, List.drop_zero, sameIds, if_neg present, List.append_nil] using read
    · rintro (known | known)
      · exact absurd (sameIds ▸ known) present
      · simp [MembersPc.newcomer] at known

/-- A join read to its end: from here on the newcomer is owed the snapshot, and the
others nothing yet. -/
theorem followed_takeJoin {s : State} {p id : Int} {raw cursor line : Text}
    (inv : Invariant s) (followed : Followed s p)
    (pc : s.server.membersPc = .joinNumber line raw)
    (tokens : membersHandlerTokens raw = some (.join line id, cursor)) :
    Followed { s with
      server := { s.server with strtokCursor := cursor,
                                membersPc := .shareMembers 0 ⟨line, id, 1⟩ raw } } p := by
  have parsing : s.server.membersPc.parsing = some raw := by rw [pc]; rfl
  obtain ⟨fresh, _⟩ := (inv.orderly.parsing parsing).takeJoin tokens
  obtain ⟨d, read, agreed⟩ := followed
  have nobody : s.server.membersPc.newcomer = none := by simp [pc, MembersPc.newcomer]
  simp only [owed, pc, List.append_nil] at read
  by_cases own : id = p
  · subst own
    have unknown : ¬ Joined s.server id := by simp [Joined, nobody, fresh]
    obtain rfl := agreed.outside unknown
    refine ⟨online s.server.members, ?_, ?_, ?_, ?_, ?_⟩
    · simp only [owed, if_true, List.drop_zero]
      rw [consume_append, read, Option.bind_some,
        consume_snapshot inv.orderly.readable.members, List.nil_append]
    · exact fun _ => online_online _
    · exact inv.orderly.unique.sublist (onlineIds_sublist _)
    · exact (onlineIds_sublist _).subset
    · exact fun unknown => absurd (Or.inr rfl) unknown
  · refine ⟨d, ?_, ?_, agreed.unique, agreed.subset, ?_⟩
    · simpa only [owed, if_neg own, List.append_nil] using read
    · rintro (known | known)
      · exact agreed.online (Or.inl known)
      · exact absurd (by simpa [MembersPc.newcomer] using known) own
    · intro unknown
      refine agreed.outside fun known => unknown ?_
      rcases known with inTable | joining
      · exact Or.inl inTable
      · simp [nobody] at joining

/-- The newcomer enters the table with the snapshot in its queue and its own join owed
to it as to the others. -/
theorem followed_register {s : State} {p : Int} {i : Nat} {member : DataArr} {raw : Text}
    (inv : Invariant s) (followed : Followed s p)
    (pc : s.server.membersPc = .register i member raw) :
    Followed { s with
      server := { s.server with accounts := (s.server.accounts.add member).count,
                                membersPc := .broadcast 0 raw } } p := by
  obtain ⟨d, read, agreed⟩ := followed
  have joining : s.server.membersPc.newcomer = some member := by simp [pc, MembersPc.newcomer]
  have fresh := (inv.orderly.newcomer joining).2
  obtain ⟨registered, isOnline⟩ := inv.orderly.readable.newcomer member joining
  have text : raw = memberText member := by simpa [InHand, pc] using inv.inHand
  have joined : Joined s.server p ↔ p ∈ ids (dataAdd s.server.members member) := by
    simp [Joined, joining, eq_comm]
  simp only [owed, pc, List.append_nil] at read
  by_cases present : p ∈ ids (dataAdd s.server.members member)
  · have online_eq := agreed.online (joined.mpr present)
    refine ⟨dataAdd d member, ?_, ?_, ?_, ?_, ?_⟩
    · simp only [owed, List.drop_zero, Server.members, Accounts.count, Accounts.add, if_pos present]
      rw [consume_append, read, Option.bind_some, consume_singleton, heed, text, registered.text,
        ← isOnline]
    · intro _
      simp only [Server.members, Accounts.count, Accounts.add, dataAdd, online_append]
      rw [online_eq]
    · exact ids_dataAdd_nodup agreed.unique fun known => fresh (agreed.subset known)
    · simp only [Server.members, Accounts.count, Accounts.add, ids_dataAdd]
      exact List.append_subset.mpr
        ⟨fun _ inside => List.mem_append_left _ (agreed.subset inside),
          List.subset_append_right _ _⟩
    · exact fun unknown => absurd (Or.inl present) unknown
  · obtain rfl := agreed.outside fun known => present (joined.mp known)
    refine ⟨[], ?_, ?_, List.nodup_nil, by simp, fun _ => rfl⟩
    · simpa only [owed, List.drop_zero, Server.members, Accounts.count, Accounts.add,
        if_neg present, List.append_nil] using read
    · rintro (known | known)
      · exact absurd known present
      · simp [MembersPc.newcomer] at known

/-- Any turn of `members_handler`, seen by one client: what is queued and what is owed,
read in order, still leads to the server's table. -/
theorem followed_members {s : State} {server : Server} {queue : Queue} (inv : Invariant s)
    (moved : MembersMove s.server s.queue server queue) (serving : server.membersPc.Serving)
    {p : Int}
    (client : 2 < p) : Followed { s with server, queue } p := by
  have followed := inv.followed (membersMove_serving moved serving) p client
  cases moved with
  | crash pc head broken => exact absurd broken (inv.orderly.marker pc head)
  | tokenCrash parsing broken => exact absurd broken (inv.orderly.unbroken parsing)
  | takeLeave pc head | takeJoin pc head =>
    refine followed.turn rfl (by simp [pc, MembersPc.newcomer]) ?_
    rw [Function.update_of_ne (show p ≠ 1 by omega)]
    simp [owed, pc]
  | leaveName pc | joinName pc =>
    exact followed.turn rfl (by simp [pc, MembersPc.newcomer]) (by simp [owed, pc])
  | leaveNumber pc found marked =>
    obtain ⟨members, first, rfl⟩ := Option.map_eq_some_iff.mp marked
    exact followed_takeLeave inv followed pc (inv.orderly.takeLeave pc found) first _
  | joinNumber pc found =>
    exact followed_takeJoin inv followed pc (inv.orderly.takeJoin pc found)
  | shareMember pc found =>
    exact followed.turn rfl (by simp [pc, MembersPc.newcomer])
      (by rw [owed_shareMember client pc found])
  | shareMembersEnd pc done =>
    refine followed.turn rfl (by simp [pc, MembersPc.newcomer]) ?_
    simp [owed, pc, List.drop_eq_nil_of_le done]
  | @shareMessage i member entry raw pc found =>
    refine followed.turn rfl (by simp [pc, MembersPc.newcomer]) ?_
    simp only [owed, pc]
    rcases msgsnd_cases s.queue member.id p (historyText entry) with same | ⟨rfl, _, added⟩
    · rw [same]
    · rw [added]
      exact consume_skip (marked_lineText rfl entry.line entry.id) _ _ []
  | register pc => exact followed_register inv followed pc
  | broadcast pc found =>
    exact followed.turn rfl (by simp [pc, MembersPc.newcomer])
      (by rw [owed_broadcast client inv.orderly.unique pc found])
  | broadcastEnd pc done =>
    refine followed.turn rfl (by simp [pc, MembersPc.newcomer]) ?_
    simp [owed, pc, List.drop_eq_nil_of_le done]
  | shareMessagesEnd pc | goOn pc | unlock pc =>
    refine followed.turn rfl (by simp [pc, MembersPc.newcomer]) ?_
    simp [owed, pc]
  | clear pc => exact absurd rfl serving.1
  | exit pc => exact absurd rfl serving.2

/-- The request in hand is a whole join or leave, so that its broadcast can be read by
every client. -/
theorem inHand_members {s : State} {server : Server} {queue : Queue} (inv : Invariant s)
    (moved : MembersMove s.server s.queue server queue) : InHand server.membersPc := by
  have inHand := inv.inHand
  cases moved with
  | crash | tokenCrash => exact inHand
  | joinNumber pc found =>
    exact ((inv.orderly.parsing (by rw [pc]; rfl)).takeJoin (inv.orderly.takeJoin pc found)).2.2.1
  | shareMember pc | shareMembersEnd pc | shareMessage pc | shareMessagesEnd pc =>
    rw [pc] at inHand
    exact inHand
  | takeLeave | takeJoin | leaveName | leaveNumber | joinName | register | broadcast | broadcastEnd
  | goOn | unlock | clear
  | exit => trivial

theorem sound_members {s : State} {server : Server} {queue : Queue} (inv : Invariant s)
    (moved : MembersMove s.server s.queue server queue) {p : Int} (client : 2 < p) :
    (consume (s.clients p).members (queue p)).isSome := by
  by_cases serving : server.membersPc.Serving
  · exact sound_of_followed (followed_members inv moved serving client)
  · rw [membersMove_given_up moved serving]
    exact inv.sound p client

/-- No leave a client reads is missed. -/
theorem faultless_step {s t : State} {a : Action} (inv : Invariant s) (orderly : Orderly t)
    (stepped : step s a = some t) (p : Int) : (t.clients p).fault ≠ some .badIndex := by
  by_cases present : (t.clients p).main = .absent
  · rw [orderly.untouched p present]
    simp [Client.absent]
  · have client := orderly.pids p present
    cases client_move inv.orderly.untouched stepped client with
    | still tables => exact tables.fault ▸ inv.faultless p
    | sent origin tables => exact tables.fault ▸ inv.faultless p
    | @read mtext rest started head queue isClient =>
      have sound := inv.sound p client
      rw [head, consume_cons] at sound
      cases heeded : heed (s.clients p).members mtext with
      | none => simp [heeded] at sound
      | some m =>
        rw [isClient]
        exact fun fault => inv.faultless p ((process_heed heeded).2 fault)

/-- A step that is not a turn of `members_handler`. -/
theorem invariant_aside {s t : State} {a : Action} (inv : Invariant s) (orderly : Orderly t)
    (stepped : step s a = some t) (aside : a ≠ .members)
    (membersPc : t.server.membersPc = s.server.membersPc)
    (members : t.server.members = s.server.members) : Invariant t := by
  have kept {p : Int} (client : 2 < p) {rest : List Text}
      (readable : (consume (s.clients p).members (s.queue p ++ rest)).isSome) :=
    consume_client (client_move inv.orderly.untouched stepped client) aside
      inv.orderly.line readable
  refine ⟨orderly, membersPc ▸ inv.inHand, faultless_step inv orderly stepped, ?_, ?_⟩
  · intro p client
    have sound := inv.sound p client
    rw [← List.append_nil (s.queue p)] at sound
    rw [← List.append_nil (t.queue p), kept client sound]
    exact sound
  · intro serving p client
    obtain ⟨d, read, agreed⟩ := inv.followed (membersPc ▸ serving) p client
    have sameOwed : owed t.server p = owed s.server p := by simp only [owed, membersPc, members]
    refine ⟨d, ?_, agreed.congr members (by rw [membersPc])⟩
    rw [sameOwed, kept client (by rw [read]; rfl), read]

/-- One step of a thread or of a client keeps every client behind the server by what is
queued and owed, and by nothing else. -/
theorem invariant_step {s t : State} {a : Action} (inv : Invariant s) (allowed : Undivided s a)
    (stepped : step s a = some t) : Invariant t := by
  have orderly := orderly_step inv.orderly allowed stepped
  cases step_move stepped with
  | start | say | quit | leave | wake | look | hear =>
    exact invariant_aside inv orderly stepped (by simp) rfl rfl
  | message running moved =>
    exact invariant_aside inv orderly stepped (by simp) (messageMove_membersPc moved)
      (congrArg Accounts.members (messageMove_accounts moved))
  | members running moved =>
    exact ⟨orderly, inHand_members inv moved, inv.faultless,
      fun p client => sound_members inv moved client,
      fun serving p client => followed_members inv moved serving client⟩

/-- The pairs a member table shows as online. -/
def rollCall (m : Data) : Set (Int × Text) :=
  { pair | ∃ entry ∈ m, entry.isOnline = 1 ∧ (entry.id, entry.line) = pair }

theorem rollCall_online (m : Data) : rollCall m = rollCall (online m) := by
  ext pair
  constructor
  · rintro ⟨entry, inside, isOnline, rfl⟩
    exact ⟨entry, List.mem_filter.mpr ⟨inside, by simp [isOnline]⟩, isOnline, rfl⟩
  · rintro ⟨entry, inside, isOnline, rfl⟩
    exact ⟨entry, (online_sublist m).subset inside, isOnline, rfl⟩

/-- No client misses a leave, and whenever `members_handler` waits, a client online in
the server's table that has read all its texts shows the same pairs as that table. -/
structure Agrees (s : State) : Prop where
  faultless : ∀ p, (s.clients p).fault ≠ some .badIndex
  same : s.server.membersPc = .receive → ∀ p ∈ onlineIds s.server.members, s.queue p = [] →
    rollCall (s.clients p).members = rollCall s.server.members

/-- The member tables agree in every run with pids above 2 and nicknames of one word in
which neither thread of the server calls `strtok` between two calls of the other one on
the same text. -/
theorem tables_agree {log : List Action} {s : State} (run : system.Reach Undivided initial log s) :
    Agrees s := by
  have inv := run.stateInvariant Invariant invariant_initial
    fun _ _ _ inv allowed stepped => invariant_step inv allowed stepped
  refine ⟨inv.faultless, fun pc p member allRead => ?_⟩
  have inTable := mem_ids_of_mem_onlineIds member
  obtain ⟨d, read, agreed⟩ :=
    inv.followed (by simp [MembersPc.Serving, pc]) p (inv.orderly.member_pid inTable)
  simp only [owed, pc, allRead, List.append_nil] at read
  obtain rfl : (s.clients p).members = d := Option.some.inj read
  rw [rollCall_online, agreed.online (Or.inl inTable), ← rollCall_online]

/-- "a" (3) and "b" (4) join, "c" (5) joins and leaves, and "a" reads it all. -/
def threeClients : List Action :=
  .start 3 ['a'] :: List.replicate 9 .members ++
  .start 4 ['b'] :: List.replicate 11 .members ++
  .start 5 ['c'] :: List.replicate 13 .members ++
  [.type 5 exitLine, .poll 5, .leave 5] ++ List.replicate 8 .members ++
  List.replicate 8 (.poll 3)

theorem tables_agree_three :
    ∃ log s, system.Reach Undivided initial log s ∧
      (s.clients 3).members = [⟨['a'], 3, 1⟩, ⟨['b'], 4, 1⟩, ⟨['c'], 5, 0⟩] ∧
      rollCall (s.clients 3).members = rollCall s.server.members := by
  obtain ⟨log, s, run, pc, member, allRead, table⟩ := system.exists_reach Undivided initial
    threeClients
    (fun _ s => s.server.membersPc = .receive ∧ (3 : Int) ∈ onlineIds s.server.members ∧
      s.queue 3 = [] ∧
      (s.clients 3).members = [⟨['a'], 3, 1⟩, ⟨['b'], 4, 1⟩, ⟨['c'], 5, 0⟩]) (by decide)
  exact ⟨log, s, run, table, (tables_agree run).same pc 3 member allRead⟩

/-- "a" (3) and "b" (4) join, "a" leaves. "c" (5) joins, and `message_hendler` takes the
wake-up of "a" between the two tokens of that join. -/
def wakeBetween : List Action :=
  .start 3 ['a'] :: List.replicate 9 .members ++
  .start 4 ['b'] :: List.replicate 11 .members ++
  [.type 3 exitLine, .poll 3, .leave 3] ++ List.replicate 7 .members ++
  [.wake 3, .start 5 ['c'], .members, .members, .message, .message] ++
  List.replicate 11 .members ++ List.replicate 8 (.poll 4)

/-- The server has "c" under what `atoi` makes of the wake-up, "b" has it as 5. -/
theorem wake_taken_for_number :
    ∃ log s, system.Reach Named initial log s ∧
      s.server.members = [⟨['a'], 3, 0⟩, ⟨['b'], 4, 1⟩, ⟨['c'], 0, 1⟩] ∧
      (s.clients 4).members = [⟨['a'], 3, 0⟩, ⟨['b'], 4, 1⟩, ⟨['c'], 5, 1⟩] ∧ ¬ Agrees s := by
  obtain ⟨log, s, run, pc, allRead, server, client⟩ := system.exists_reach Named initial
    wakeBetween
    (fun _ s => s.server.membersPc = .receive ∧ s.queue 4 = [] ∧
      s.server.members = [⟨['a'], 3, 0⟩, ⟨['b'], 4, 1⟩, ⟨['c'], 0, 1⟩] ∧
      (s.clients 4).members = [⟨['a'], 3, 0⟩, ⟨['b'], 4, 1⟩, ⟨['c'], 5, 1⟩]) (by decide)
  refine ⟨log, s, run, server, client, fun agrees => ?_⟩
  have same := agrees.same pc 4 (by rw [server]; decide) allRead
  have shown : ((5, ['c']) : Int × Text) ∈ rollCall (s.clients 4).members :=
    ⟨⟨['c'], 5, 1⟩, by rw [client]; decide, rfl, rfl⟩
  rw [same, rollCall, server] at shown
  obtain ⟨entry, inside, -, pair⟩ := shown
  have none : ∀ entry ∈ [⟨['a'], 3, 0⟩, ⟨['b'], 4, 1⟩, (⟨['c'], 0, 1⟩ : DataArr)],
      (entry.id, entry.line) ≠ (5, ['c']) := by decide
  exact none entry inside pair

end EltexCourse.Guarantees.Chat.Tables
