import EltexCourse.Foundations.Enrolment
import EltexCourse.Source.Chat.Wire

/-!
# The member table as a register of the clients

Both servers take joins and leaves from a queue and keep them in `members`. The
table, with the join in hand, is a register of the clients that lags behind them
by the requests still queued. A join is therefore new to the table, and a leave
finds its client online.
-/

set_option autoImplicit false

namespace EltexCourse.Guarantees.Chat.Registration
open Foundations.CString Foundations.Decimal Foundations.Enrolment Source.Chat

/-- What a client has done, and the nickname it was started with. -/
structure Party where
  phase : Phase
  nick : Text

variable {parties parties' : Int → Party} {texts rest : List Text} {members members' : Data}
variable {newcomer : Option DataArr} {member : DataArr} {raw cursor line nick : Text} {p id : Int}

/-- A client is in the register from the moment its join is taken. -/
def presence (members : Data) (newcomer : Option DataArr) (p : Int) : Presence :=
  if p ∈ onlineIds members ∨ newcomer.map (·.id) = some p then .present
  else if p ∈ ids members then .former
  else .unknown

def requestText (parties : Int → Party) : Request Int → Text
  | .enter p => wordText 1 (parties p).nick p
  | .leave p => wordText 0 (parties p).nick p

/-- What `members_handler` reads of it. -/
def readRequest (parties : Int → Party) : Request Int → MemberRequest
  | .enter p => .join (parties p).nick p
  | .leave p => .leave p

/-- And what a client makes of it when it is broadcast. -/
def readNotice (parties : Int → Party) : Request Int → Notice
  | .enter p => .join (parties p).nick p
  | .leave p => .leave p

structure Register (parties : Int → Party) (texts : List Text) (members : Data)
    (newcomer : Option DataArr) : Prop where
  valid : ∀ p, (parties p).phase ≠ .outside → IsInt p ∧ Word (parties p).nick
  unique : (ids members).Nodup
  fresh : ∀ member, newcomer = some member → member.id ∉ ids members ∧ member.isOnline = 1
  pending : ∃ pending, texts = pending.map (requestText parties) ∧
    Enrolled (fun p => (parties p).phase) pending (presence members newcomer)

theorem presence_none (members : Data) (p : Int) :
    presence members none p =
      if p ∈ onlineIds members then .present else if p ∈ ids members then .former else
        .unknown := by
  simp [presence]

theorem presence_of_mem (inTable : p ∈ ids members) : presence members newcomer p ≠ .unknown := by
  unfold presence
  simp only [inTable, if_true]
  split <;> simp

/-- The server reads a request as the client wrote it: one word as nickname and an int
as pid come back as they are. -/
theorem membersHandler_request {r : Request Int} (fits : IsInt r.who)
    (word : Word (parties r.who).nick) :
    membersHandlerTokens (requestText parties r) = some (readRequest parties r, []) := by
  cases r with
  | enter p => exact membersHandler_join word fits
  | leave p => exact membersHandler_leave word fits

theorem messageHandler_request {r : Request Int} (fits : IsInt r.who)
    (word : Word (parties r.who).nick) :
    messageHandlerTokens (requestText parties r) = some (readNotice parties r) := by
  cases r with
  | enter p => exact messageHandler_join word fits
  | leave p => exact messageHandler_leave word fits

theorem register_initial (outside : ∀ p, (parties p).phase = .outside) :
    Register parties [] [] none := by
  refine ⟨fun p entered => absurd (outside p) entered, List.nodup_nil, by simp, [], rfl,
    fun p => ?_⟩
  have unknown : presence [] none p = .unknown := by simp [presence, onlineIds]
  simp only [outside p, unknown]
  exact .outside

/-- Who is in the register has been started. -/
theorem Register.entered (register : Register parties texts members newcomer)
    (known : p ∈ ids members ∨ newcomer.map (·.id) = some p) : (parties p).phase ≠ .outside := by
  obtain ⟨pending, _, enrolled⟩ := register.pending
  refine enrolled.entered ?_
  rcases known with inTable | joining
  · exact presence_of_mem inTable
  · simp [presence, joining]

/-- And who is in the table and has not left is online there. -/
theorem Register.online_of_inside (register : Register parties texts members newcomer)
    (inside : (parties p).phase = .inside) (member : p ∈ ids members) : p ∈ onlineIds members := by
  obtain ⟨pending, _, enrolled⟩ := register.pending
  by_contra offline
  have notNew : newcomer.map (·.id) ≠ some p := by
    intro joining
    obtain ⟨entry, isNew, rfl⟩ := Option.map_eq_some_iff.mp joining
    exact (register.fresh entry isNew).1 member
  have standing := enrolled p
  simp only [presence, offline, notNew, member, or_self, if_true, if_false] at standing
  exact (inside ▸ standing).not_former rfl

/-- The request at the head of the queue. -/
theorem Register.head (register : Register parties (raw :: rest) members newcomer) :
    ∃ r pending, raw = requestText parties r ∧ rest = pending.map (requestText parties) ∧
      Enrolled (fun p => (parties p).phase) (r :: pending) (presence members newcomer) ∧
      membersHandlerTokens raw = some (readRequest parties r, []) ∧
      messageHandlerTokens raw = some (readNotice parties r) := by
  obtain ⟨pending, texts, enrolled⟩ := register.pending
  cases pending with
  | nil => cases texts
  | cons r pending =>
    obtain ⟨rfl, isRest⟩ := List.cons.inj texts
    obtain ⟨fits, word⟩ := register.valid r.who (enrolled.requested List.mem_cons_self)
    exact ⟨r, pending, rfl, isRest, enrolled, membersHandler_request fits word,
      messageHandler_request fits word⟩

theorem onlineIds_markOffline (unique : (ids members).Nodup)
    (found : markOffline members id = some members') (p : Int) :
    p ∈ onlineIds members' ↔ p ≠ id ∧ p ∈ onlineIds members := by
  simp only [onlineIds, ids, markOffline_online unique found, List.mem_map, List.mem_filter]
  constructor
  · rintro ⟨entry, ⟨inside, other⟩, rfl⟩
    exact ⟨by simpa using other, entry, inside, rfl⟩
  · rintro ⟨other, entry, inside, rfl⟩
    exact ⟨entry, ⟨inside, by simpa using other⟩, rfl⟩

/-- A leave finds its client online, and takes it out of the register. -/
theorem Register.takeLeave (register : Register parties (raw :: rest) members none)
    (tokens : membersHandlerTokens raw = some (.leave id, cursor)) :
    id ∈ onlineIds members ∧ cursor = [] ∧ messageHandlerTokens raw = some (.leave id) ∧
      ∀ members', markOffline members id = some members' → Register parties rest members' none := by
  obtain ⟨r, pending, _, texts, enrolled, read, notice⟩ := register.head
  rw [tokens] at read
  cases r with
  | enter p => simp [readRequest] at read
  | leave p =>
    obtain ⟨rfl, rfl⟩ : id = p ∧ cursor = [] := by simpa [readRequest] using read
    obtain ⟨present, taken⟩ := enrolled.takeLeave
    have isOnline : id ∈ onlineIds members := by
      rw [presence_none] at present
      by_contra absent
      rw [if_neg absent] at present
      split at present <;> cases present
    refine ⟨isOnline, rfl, notice, fun members' found => ?_⟩
    have sameIds := markOffline_ids found
    have online := onlineIds_markOffline register.unique found
    refine ⟨register.valid, sameIds ▸ register.unique, by simp, pending, texts, taken _ ?_ ?_⟩
    · simp [presence, online, sameIds, mem_ids_of_mem_onlineIds isOnline]
    · intro p other
      simp only [presence_none, online p, sameIds, other, ne_eq, not_false_eq_true, true_and]

/-- A join is new to the table, and takes its client into the register. -/
theorem Register.takeJoin (register : Register parties (raw :: rest) members none)
    (tokens : membersHandlerTokens raw = some (.join line id, cursor)) :
    id ∉ ids members ∧ cursor = [] ∧ raw = wordText 1 line id ∧
      Register parties rest members (some ⟨line, id, 1⟩) := by
  obtain ⟨r, pending, rfl, texts, enrolled, read, _⟩ := register.head
  rw [tokens] at read
  cases r with
  | leave p => simp [readRequest] at read
  | enter p =>
    obtain ⟨⟨rfl, rfl⟩, rfl⟩ : (line = (parties p).nick ∧ id = p) ∧ cursor = [] := by
      simpa [readRequest] using read
    obtain ⟨unknown, taken⟩ := enrolled.takeEnter
    have fresh : id ∉ ids members := fun inTable => presence_of_mem inTable unknown
    refine ⟨fresh, rfl, rfl, register.valid, register.unique, ?_, pending, texts, taken _ ?_ ?_⟩
    · rintro member isNew
      obtain rfl := Option.some.inj isNew
      exact ⟨fresh, rfl⟩
    · simp [presence]
    · intro p other
      simp [presence, Ne.symm other]

/-- No request breaks `members_handler`. -/
theorem Register.unbroken (register : Register parties (raw :: rest) members none) :
    membersHandlerTokens raw ≠ none ∧ ∀ id cursor,
      membersHandlerTokens raw = some (.leave id, cursor) → markOffline members id ≠ none := by
  refine ⟨fun missing => ?_, fun id cursor tokens unmarked => ?_⟩
  · obtain ⟨r, pending, _, _, _, read, _⟩ := register.head
    simp [missing] at read
  · obtain ⟨isOnline, _⟩ := register.takeLeave tokens
    obtain ⟨members', found⟩ := markOffline_isSome (mem_ids_of_mem_onlineIds isOnline)
    simp [found] at unmarked

/-- The join in hand is entered into the table. -/
theorem Register.add (register : Register parties texts members (some member)) :
    Register parties texts (dataAdd members member) none := by
  obtain ⟨fresh, isOnline⟩ := register.fresh member rfl
  obtain ⟨pending, isTexts, enrolled⟩ := register.pending
  refine ⟨register.valid, ids_dataAdd_nodup register.unique fresh, by simp, pending, isTexts, ?_⟩
  have same : presence (dataAdd members member) none = presence members (some member) := by
    funext p
    have online : onlineIds (dataAdd members member) = onlineIds members ++ [member.id] := by
      simp [dataAdd, onlineIds, online_cons, isOnline]
    simp only [presence, ids_dataAdd, online]
    by_cases own : member.id = p
    · simp [own]
    · simp [own, Ne.symm own]
  exact same ▸ enrolled

theorem requestText_congr {pending : List (Request Int)}
    (same : ∀ r ∈ pending, (parties' r.who).nick = (parties r.who).nick) :
    pending.map (requestText parties') = pending.map (requestText parties) := by
  refine List.map_congr_left fun r inside => ?_
  cases r with
  | enter p => exact congrArg (wordText 1 · p) (same _ inside)
  | leave p => exact congrArg (wordText 0 · p) (same _ inside)

/-- A client sends its join: it is the last of the pending ones, and its id is not in
the table. -/
theorem Register.sendJoin (register : Register parties texts members newcomer)
    (outside : (parties p).phase = .outside) (fits : IsInt p) (word : Word nick)
    (entered : parties' p = ⟨.inside, nick⟩) (others : ∀ q, q ≠ p → parties' q = parties q) :
    Register parties' (texts ++ [wordText 1 nick p]) members newcomer := by
  obtain ⟨pending, rfl, enrolled⟩ := register.pending
  refine ⟨?_, register.unique, register.fresh, pending ++ [.enter p], ?_, ?_⟩
  · intro q started
    by_cases own : q = p
    · subst own
      rw [entered]
      exact ⟨fits, word⟩
    · rw [others q own] at started ⊢
      exact register.valid q started
  · have unsent : ∀ r ∈ pending, (parties' r.who).nick = (parties r.who).nick := by
      intro r inside
      rw [others r.who fun own => enrolled.requested inside (own ▸ outside)]
    rw [List.map_append, requestText_congr unsent]
    simp [requestText, entered]
  · refine enrolled.submitEnter outside (by rw [entered]) fun q other => ?_
    rw [others q other]

theorem Register.sendLeave (register : Register parties texts members newcomer)
    (inside : (parties p).phase = .inside) (left : parties' p = ⟨.departed, (parties p).nick⟩)
    (others : ∀ q, q ≠ p → parties' q = parties q) :
    Register parties' (texts ++ [wordText 0 (parties p).nick p]) members newcomer := by
  obtain ⟨pending, rfl, enrolled⟩ := register.pending
  have nicks (q : Int) : (parties' q).nick = (parties q).nick := by
    by_cases own : q = p
    · subst own
      rw [left]
    · rw [others q own]
  refine ⟨?_, register.unique, register.fresh, pending ++ [.leave p], ?_, ?_⟩
  · intro q started
    rw [nicks]
    by_cases own : q = p
    · subst own
      exact register.valid q (by simp [inside])
    · rw [others q own] at started
      exact register.valid q started
  · rw [List.map_append, requestText_congr fun r _ => nicks r.who]
    simp [requestText, nicks]
  · refine enrolled.submitLeave inside (by rw [left]) fun q other => ?_
    rw [others q other]

end EltexCourse.Guarantees.Chat.Registration
