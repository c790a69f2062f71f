import EltexCourse.Source.Chat.MessageQueueMoves

/-!
# Texts and entries in every run

What holds of the server's tables whatever the clients send: every nickname
stored is one word, every line stored is one line, every id is an int. So the
texts `shair_database` prints from the tables are read back by a client as the
entries they were printed from.
-/

set_option autoImplicit false

namespace EltexCourse.Guarantees.Chat.Traffic
open Foundations.CString Foundations.Decimal Foundations.Transition
open Source.Chat Source.Chat.MessageQueue

/-- Pids above 2 and nicknames of one word. -/
def Named (_ : State) : Action → Prop
  | .start pid nick => 2 < pid ∧ Word nick
  | _ => True

instance (s : State) (a : Action) : Decidable (Named s a) := by
  unfold Named
  split <;> infer_instance

/-- And lines of one token. -/
def Plain (s : State) : Action → Prop
  | .type _ line => Line line
  | a => Named s a

instance (s : State) (a : Action) : Decidable (Plain s a) := by
  unfold Plain
  split <;> infer_instance

theorem Plain.named {s : State} {a : Action} (plain : Plain s a) : Named s a := by
  cases a with
  | type => trivial
  | start | leave | wake | poll | members | message => exact plain

/-- `message_hendler` makes no call of `strtok` between two of the calls with which
`members_handler` takes a request apart. -/
def MembersApart (s : State) (a : Action) : Prop :=
  a = .message → s.server.messagePc.splitting = true → s.server.membersPc.parsing = none

instance (s : State) (a : Action) : Decidable (MembersApart s a) :=
  inferInstanceAs (Decidable (_ → _ → _))

/-- The next turn calls `strtok`. -/
def membersSplitting : MembersPc → Bool
  | .receive | .leaveName _ | .leaveNumber _ | .joinName _ | .joinNumber _ _ => true
  | _ => false

/-- `strtok` has been called on the line in hand, and will be called again. -/
def dividing : MessagePc → Bool
  | .broadcast _ _ | .line _ | .number _ _ => true
  | _ => false

/-- Nor does `members_handler` make one between the calls with which `message_hendler`
takes a line apart, the broadcast of the line included. -/
def MessageApart (s : State) (a : Action) : Prop :=
  a = .members → membersSplitting s.server.membersPc = true →
    dividing s.server.messagePc = false

instance (s : State) (a : Action) : Decidable (MessageApart s a) :=
  inferInstanceAs (Decidable (_ → _ → _))

/-- Each thread of the server takes its texts apart undisturbed by the other one. -/
def Apart (s : State) (a : Action) : Prop := MembersApart s a ∧ MessageApart s a

instance (s : State) (a : Action) : Decidable (Apart s a) :=
  inferInstanceAs (Decidable (_ ∧ _))

/-- The clients are as they should be, and the server reads their requests as they
are written. -/
def Undivided (s : State) (a : Action) : Prop := Named s a ∧ Apart s a

instance (s : State) (a : Action) : Decidable (Undivided s a) :=
  inferInstanceAs (Decidable (_ ∧ _))

/-- So it does their lines. -/
def Intact (s : State) (a : Action) : Prop := Plain s a ∧ Apart s a

instance (s : State) (a : Action) : Decidable (Intact s a) :=
  inferInstanceAs (Decidable (_ ∧ _))

/-- In particular no request is divided by the other thread's calls. -/
theorem Intact.undivided {s : State} {a : Action} (intact : Intact s a) : Undivided s a :=
  ⟨intact.1.named, intact.2⟩

structure Registered (entry : DataArr) : Prop where
  word : Word entry.line
  fits : IsInt entry.id
  flag : entry.isOnline = 0 ∨ entry.isOnline = 1

structure Stored (entry : DataArr) : Prop where
  line : Line entry.line
  fits : IsInt entry.id

/-- A member is replayed to a newcomer in a text that it reads back as this member's
join. -/
theorem Registered.text {entry : DataArr} (registered : Registered entry) :
    messageHandlerTokens (memberText entry) = some (.join entry.line entry.id) :=
  messageHandler_join registered.word registered.fits

/-- A stored line is replayed as a line, or as the command if that is what was stored.
-/
theorem Stored.text {entry : DataArr} (stored : Stored entry) :
    messageHandlerTokens (historyText entry) =
      some (if entry.line = exitLine then .exit else .chat entry.line entry.id) :=
  messageHandler_line stored.line stored.fits

structure Readable (s : Server) : Prop where
  members : ∀ entry ∈ s.members, Registered entry
  word : ∀ line raw, s.membersPc = .joinNumber line raw → Word line
  newcomer : ∀ entry, s.membersPc.newcomer = some entry → Registered entry ∧ entry.isOnline = 1
  messages : ∀ entry ∈ s.messages, Stored entry
  line : ∀ line raw, s.messagePc = .number line raw → Line line
  adding : ∀ entry, s.messagePc = .add entry → Stored entry

theorem readable_initial : Readable Server.initial := by
  have members : Server.initial.members = [] := rfl
  refine ⟨by simp [members], ?_, ?_, ?_, ?_, ?_⟩
  · simp [Server.initial]
  · simp [Server.initial, MembersPc.newcomer]
  · simp [Server.initial]
  · simp [Server.initial]
  · simp [Server.initial]

theorem registered_markOffline {m m' : Data} {id : Int} (found : markOffline m id = some m')
    (registered : ∀ entry ∈ m, Registered entry) : ∀ entry ∈ m', Registered entry := by
  obtain ⟨before, entry, after, rfl, _, _, rfl⟩ := markOffline_some found
  intro other member
  rcases List.mem_append.mp member with earlier | later
  · exact registered other (by simp [earlier])
  · rcases List.mem_cons.mp later with rfl | later
    · have old := registered entry (by simp)
      exact ⟨old.word, old.fits, Or.inl rfl⟩
    · exact registered other (by simp [later])

/-- Any turn of `members_handler` leaves entries that can be read back: it registers
what `strtok` has split off. -/
theorem readable_members {s s' : Server} {q q' : Queue} (readable : Readable s)
    (moved : MembersMove s q s' q') : Readable s' := by
  cases moved with
  | crash | tokenCrash => exact { readable with }
  | takeLeave | takeJoin | leaveName =>
    exact { readable with word := by simp, newcomer := by simp [MembersPc.newcomer] }
  | leaveNumber pc found marked =>
    obtain ⟨members, found, rfl⟩ := Option.map_eq_some_iff.mp marked
    exact { readable with
      members := registered_markOffline found readable.members
      word := by simp
      newcomer := by simp [MembersPc.newcomer] }
  | joinName pc found =>
    refine { readable with
      word := fun line raw after => ?_
      newcomer := by simp [MembersPc.newcomer] }
    obtain ⟨rfl, rfl⟩ := MembersPc.joinNumber.inj after
    exact word_of_strtok found
  | joinNumber pc found =>
    refine { readable with word := by simp, newcomer := fun entry joining => ?_ }
    obtain rfl := Option.some.inj joining
    exact ⟨⟨readable.word _ _ pc, atoi_isInt _, Or.inr rfl⟩, rfl⟩
  | shareMember pc | shareMembersEnd pc | shareMessage pc | shareMessagesEnd pc =>
    exact { readable with
      word := by simp
      newcomer := fun entry joining => readable.newcomer entry
        (by simpa [pc, MembersPc.newcomer] using joining) }
  | @register i member raw pc =>
    obtain ⟨registered, _⟩ := readable.newcomer member (by simp [pc, MembersPc.newcomer])
    refine { readable with
      members := fun entry inside => ?_
      word := by simp
      newcomer := by simp [MembersPc.newcomer] }
    rcases List.mem_append.mp inside with old | isNew
    · exact readable.members entry old
    · exact List.mem_singleton.mp isNew ▸ registered
  | broadcast | broadcastEnd | goOn | unlock | exit =>
    exact { readable with word := by simp, newcomer := by simp [MembersPc.newcomer] }
  | clear =>
    exact { readable with
      members := fun entry inside => absurd inside List.not_mem_nil
      word := by simp
      newcomer := by simp [MembersPc.newcomer] }

theorem readable_message {s s' : Server} {q q' : Queue} (readable : Readable s)
    (moved : MessageMove s q s' q') : Readable s' := by
  cases moved with
  | line pc found =>
    refine { readable with line := fun line raw after => ?_, adding := by simp }
    obtain ⟨rfl, rfl⟩ := MessagePc.number.inj after
    exact line_of_strtok found
  | number pc found =>
    refine { readable with line := by simp, adding := fun entry after => ?_ }
    obtain rfl := MessagePc.add.inj after
    exact ⟨readable.line _ _ pc, atoi_isInt _⟩
  | @add entry pc =>
    refine { readable with messages := fun other inside => ?_, line := by simp, adding := by simp }
    rcases List.mem_append.mp inside with old | isNew
    · exact readable.messages other old
    · exact List.mem_singleton.mp isNew ▸ readable.adding entry pc
  | crash | tokenCrash => exact { readable with }
  | takeWake | takeLine | goOn | exit | wakeEmpty | wakeOther | broadcast | broadcastEnd =>
    exact { readable with line := by simp, adding := by simp }

end EltexCourse.Guarantees.Chat.Traffic
