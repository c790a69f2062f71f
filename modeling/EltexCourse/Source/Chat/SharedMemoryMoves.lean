import EltexCourse.Source.Chat.SharedMemory

/-!
# What a step around `shm[1]` can do

`View` keeps of a state what matters to the slot: the slot itself, what each
handler has to do with it, the clients counted, and the clients' "!exit". A step
of the system is a `Move` of its view, with the same events; the moves leave
open what the server does between two visits to the slot, and how many tokens
are posted. Proofs about runs go by cases on them.
-/

set_option autoImplicit false

namespace EltexCourse.Source.Chat.SharedMemory
open Foundations.CString Foundations.Decimal Foundations.Transition
open Mailbox (Handler)

/-- What a handler has to do with the slot. -/
inductive Duty where
  | none
  | share (pc : SharePc) (pid : Int)
  | broadcast (pc : BroadcastPc) (mtext : Text)
  deriving DecidableEq, Repr

def MembersPc.duty : MembersPc → Duty
  | .share pc member _ => .share pc member.id
  | .broadcast pc raw => .broadcast pc raw
  | _ => .none

def MessagePc.duty : MessagePc → Duty
  | .broadcast pc raw => .broadcast pc raw
  | _ => .none

def Server.duty (s : Server) : Handler → Duty
  | .members => s.membersPc.duty
  | .messages => s.messagePc.duty

structure View where
  duty : Handler → Duty
  shm : Shared
  counted : List Int
  membersOnline : Int
  client : Int → ClientPc

def State.view (s : State) : View :=
  { duty := s.server.duty, shm := s.shm, counted := s.server.counted,
    membersOnline := s.server.accounts.membersOnline, client := s.client }

/-- The handler is past `sem_sub(4)` and before `sem_post(4)`. -/
def Duty.Inside : Duty → Prop
  | .none | .share .wait _ | .broadcast .wait _ => False
  | .share _ _ | .broadcast _ _ => True

/-- It is about to fill, after `sem_sub(4)`. -/
def Duty.Entering : Duty → Prop
  | .share (.fill _) _ | .broadcast .fill _ => True
  | _ => False

/-- It is at `sem_post(4)`. -/
def Duty.Releasing : Duty → Prop
  | .share .release _ | .broadcast .release _ => True
  | _ => False

/-- In the while loop of `broadcast`. -/
def BroadcastPc.Looping : BroadcastPc → Prop
  | .test | .post _ => True
  | _ => False

/-- In the while loop of `shair_database` for one item. -/
def SharePc.Awaiting (text : Text) : SharePc → Prop
  | .await _ text' | .post _ text' _ => text' = text
  | _ => False

namespace View

def setClient (v : View) (pid : Int) (pc : ClientPc) : View :=
  { v with client := Function.update v.client pid pc }

/-- A handler's turn. -/
def turn (v : View) (h : Handler) (d : Duty) (shm : Shared) : View :=
  { v with shm, duty := Function.update v.duty h d }

@[simp] theorem turn_shm (v : View) (h : Handler) (d : Duty) (shm : Shared) :
    (v.turn h d shm).shm = shm := rfl

@[simp] theorem turn_counted (v : View) (h : Handler) (d : Duty) (shm : Shared) :
    (v.turn h d shm).counted = v.counted := rfl

theorem turn_client (v : View) (h : Handler) (d : Duty) (shm : Shared) :
    (v.turn h d shm).client = v.client := rfl

@[simp] theorem turn_duty_self (v : View) (h : Handler) (d : Duty) (shm : Shared) :
    (v.turn h d shm).duty h = d := by
  simp [turn]

/-- A turn of one handler leaves the other's place as it is. -/
theorem turn_duty_of_ne {v : View} {h h' : Handler} (other : h' ≠ h) (d : Duty) (shm : Shared) :
    (v.turn h d shm).duty h' = v.duty h' := by
  simp [turn, other]

end View

inductive Move (v : View) : Action → List Event → View → Prop where
  | start {pid : Int} (fresh : v.client pid = .absent) :
      Move v (.start pid) [] (v.setClient pid .running)
  | quit {pid : Int} (running : v.client pid = .running) (guarded : ¬ pid ≤ 2)
      (free : 0 < v.shm.writer) :
      Move v (.quit pid) [] ({ v with shm := v.shm.enter }.setClient pid .writing)
  | quitLow {pid : Int} (running : v.client pid = .running) (low : pid ≤ 2) :
      Move v (.quit pid) [] (v.setClient pid .writing)
  | write {pid : Int} (mtext : Text) (writing : v.client pid = .writing) :
      Move v (.write pid) [] ({ v with shm := { v.shm with mtext } }.setClient pid .posting)
  | post {pid : Int} (posting : v.client pid = .posting) :
      Move v (.post pid) [] { v with shm := v.shm.post }
  | release {pid : Int} (posting : v.client pid = .posting) (guarded : ¬ pid ≤ 2) :
      Move v (.release pid) [] ({ v with shm := v.shm.leave }.setClient pid .gone)
  | releaseLow {pid : Int} (posting : v.client pid = .posting) (low : pid ≤ 2) :
      Move v (.release pid) [] (v.setClient pid .gone)
  | poll {pid : Int} (present : v.client pid ≠ .absent) :
      Move v (.poll pid) [.polled pid (v.shm.messageHandler pid).2]
        { v with shm := (v.shm.messageHandler pid).1 }
  | join {raw line cursor : Text} {id : Int}
      (tokens : membersHandlerTokens raw = some (.join line id, cursor))
      (idle : v.duty .members = .none) :
      Move v (.request raw) []
        { v.turn .members (.share .wait id) v.shm with
          counted := v.counted ++ [id], membersOnline := v.membersOnline + 1 }
  | depart {raw cursor : Text} {id : Int}
      (tokens : membersHandlerTokens raw = some (.leave id, cursor))
      (idle : v.duty .members = .none) :
      Move v (.request raw) []
        { v.turn .members (.broadcast .wait raw) v.shm with
          counted := v.counted.erase id, membersOnline := v.membersOnline - 1 }
  /-- Outside of the slot. -/
  | aside {a : Action} {h : Handler} {d : Duty} (outside : ¬ (v.duty h).Inside)
      (remains : ¬ d.Inside) : Move v a [] (v.turn h d v.shm)
  | enter {a : Action} {h : Handler} {d : Duty} (outside : ¬ (v.duty h).Inside)
      (entering : d.Entering) (free : 0 < v.shm.writer) : Move v a [] (v.turn h d v.shm.enter)
  | leave {a : Action} {h : Handler} (releasing : (v.duty h).Releasing) :
      Move v a [] (v.turn h .none v.shm.leave)
  | clear {a : Action} {h : Handler} {mtext : Text} (duty : v.duty h = .broadcast .fill mtext) :
      Move v a [.filled] (v.turn h (.broadcast .write mtext) { v.shm with amIRead := fill 0 })
  | publish {a : Action} {h : Handler} {mtext : Text} (duty : v.duty h = .broadcast .write mtext) :
      Move v a [] (v.turn h (.broadcast .test mtext) { v.shm with mtext })
  | spin {a : Action} {h : Handler} {mtext : Text} {pc pc' : BroadcastPc} (tokens : Nat)
      (duty : v.duty h = .broadcast pc mtext) (before : pc.Looping) (after : pc'.Looping) :
      Move v a [] (v.turn h (.broadcast pc' mtext) { v.shm with tokens })
  | exit {a : Action} {h : Handler} {mtext : Text} (duty : v.duty h = .broadcast .test mtext)
      (full : checksum v.shm.amIRead = v.membersOnline) :
      Move v a [.published mtext v.counted] (v.turn h (.broadcast .release mtext) v.shm)
  | refill {a : Action} {h : Handler} {item : Item} {pid : Int}
      (duty : v.duty h = .share (.fill item) pid) :
      Move v a [] (v.turn h (.share (.arm item) pid) { v.shm with amIRead := fill 1 })
  | arm {a : Action} {h : Handler} {item : Item} {pid : Int}
      (duty : v.duty h = .share (.arm item) pid) :
      Move v a [] (v.turn h (.share (.pick item) pid) (v.shm.setFlag (slot pid) 0))
  | skip {a : Action} {h : Handler} {item item' : Item} {pid : Int}
      (duty : v.duty h = .share (.pick item) pid) :
      Move v a [] (v.turn h (.share (.pick item') pid) v.shm)
  | finish {a : Action} {h : Handler} {item : Item} {pid : Int}
      (duty : v.duty h = .share (.pick item) pid) :
      Move v a [] (v.turn h (.share .release pid) v.shm)
  | offer {a : Action} {h : Handler} {item : Item} {pid : Int} (mtext : Text)
      (duty : v.duty h = .share (.pick item) pid) :
      Move v a [] (v.turn h (.share (.await item mtext) pid) { v.shm with mtext })
  | await {a : Action} {h : Handler} {pid : Int} {mtext : Text} {pc pc' : SharePc} (tokens : Nat)
      (duty : v.duty h = .share pc pid) (before : pc.Awaiting mtext) (after : pc'.Awaiting mtext) :
      Move v a [] (v.turn h (.share pc' pid) { v.shm with tokens })
  | read {a : Action} {h : Handler} {item item' : Item} {mtext : Text} {pid : Int}
      (duty : v.duty h = .share (.await item mtext) pid) (set : v.shm.amIRead (slot pid) = 1) :
      Move v a [.published mtext [pid]] (v.turn h (.share (.fill item') pid) v.shm)

/-- A turn of `members_handler` that keeps the counters, as it looks from the slot. -/
theorem view_members {s : State} {server : Server} (shm : Shared)
    (messages : server.messagePc = s.server.messagePc) (counted : server.counted = s.server.counted)
    (online : server.accounts.membersOnline = s.server.accounts.membersOnline) :
    ({ s with server, shm } : State).view = s.view.turn .members server.membersPc.duty shm := by
  have duty : server.duty = Function.update s.server.duty .members server.membersPc.duty := by
    funext h
    cases h <;> simp [Server.duty, messages]
  simp [State.view, View.turn, duty, counted, online]

theorem view_messages {s : State} {server : Server} (shm : Shared)
    (members : server.membersPc = s.server.membersPc) (counted : server.counted = s.server.counted)
    (online : server.accounts.membersOnline = s.server.accounts.membersOnline) :
    ({ s with server, shm } : State).view = s.view.turn .messages server.messagePc.duty shm := by
  have duty : server.duty = Function.update s.server.duty .messages server.messagePc.duty := by
    funext h
    cases h <;> simp [Server.duty, members]
  simp [State.view, View.turn, duty, counted, online]

/-- A turn of `members_handler` that has nothing to do with the slot. -/
theorem aside_members {s : State} {server : Server} {a : Action}
    (messages : server.messagePc = s.server.messagePc) (counted : server.counted = s.server.counted)
    (online : server.accounts.membersOnline = s.server.accounts.membersOnline)
    (outside : ¬ s.server.membersPc.duty.Inside) (remains : ¬ server.membersPc.duty.Inside) :
    Move s.view a [] ({ s with server } : State).view := by
  have view : ({ s with server } : State).view = _ := view_members s.shm messages counted online
  rw [view]
  exact .aside outside remains

theorem aside_messages {s : State} {server : Server} {a : Action}
    (members : server.membersPc = s.server.membersPc) (counted : server.counted = s.server.counted)
    (online : server.accounts.membersOnline = s.server.accounts.membersOnline)
    (outside : ¬ s.server.messagePc.duty.Inside) (remains : ¬ server.messagePc.duty.Inside) :
    Move s.view a [] ({ s with server } : State).view := by
  have view : ({ s with server } : State).view = _ := view_messages s.shm members counted online
  rw [view]
  exact .aside outside remains

/-- Every step of `broadcast` is one of the moves, for whichever handler has called it.
-/
theorem broadcast_move {s : State} {a : Action} {h : Handler} {mtext : Text} {pc : BroadcastPc}
    {shm : Shared} {next : Option BroadcastPc} (duty : s.view.duty h = .broadcast pc mtext)
    (stepped : broadcast s.shm s.server.accounts.membersOnline mtext pc = some (shm, next)) :
    Move s.view a (broadcastEvents s mtext pc)
      (s.view.turn h (next.elim .none (.broadcast · mtext)) shm) := by
  cases pc with
  | wait =>
    simp only [broadcast] at stepped
    split at stepped
    next free =>
      cases stepped
      exact .enter (by simp [duty, Duty.Inside]) trivial free
    · cases stepped
  | fill =>
    cases stepped
    exact .clear duty
  | write =>
    cases stepped
    exact .publish duty
  | test =>
    cases stepped
    by_cases full : checksum s.shm.amIRead = s.server.accounts.membersOnline
    · simp only [broadcastEvents, full, ne_eq, not_true_eq_false, if_false, Option.elim_some]
      exact .exit duty full
    · simp only [broadcastEvents, full, ne_eq, not_false_eq_true, if_true, Option.elim_some]
      exact .spin s.shm.tokens duty trivial trivial
  | post i =>
    simp only [broadcast] at stepped
    split at stepped
    · cases stepped
      exact .spin (s.shm.tokens + 1) duty trivial trivial
    · cases stepped
      exact .spin s.shm.tokens duty trivial trivial
  | release =>
    cases stepped
    exact .leave (by simp [duty, Duty.Releasing])

theorem share_move {s : State} {a : Action} {h : Handler} {pid : Int} {pc : SharePc}
    {shm : Shared} {next : Option SharePc} (duty : s.view.duty h = .share pc pid)
    (stepped :
      shairDatabase s.shm s.server.accounts s.server.messages pid pc = some (shm, next)) :
    Move s.view a (shareEvents s pid pc)
      (s.view.turn h (next.elim .none (.share · pid)) shm) := by
  cases pc with
  | wait =>
    simp only [shairDatabase] at stepped
    split at stepped
    next free =>
      cases stepped
      exact .enter (by simp [duty, Duty.Inside]) trivial free
    · cases stepped
  | fill item =>
    cases stepped
    exact .refill duty
  | arm item =>
    cases stepped
    exact .arm duty
  | pick item =>
    cases item with
    | member i =>
      simp only [shairDatabase] at stepped
      split at stepped
      · cases stepped
        exact .skip duty
      · split at stepped
        · cases stepped
          exact .offer _ duty
        · cases stepped
          exact .skip duty
    | message i =>
      simp only [shairDatabase] at stepped
      split at stepped
      · cases stepped
        exact .finish duty
      · cases stepped
        exact .offer _ duty
  | await item text =>
    cases stepped
    by_cases set : s.shm.amIRead (slot pid) = 1
    · simp only [shareEvents, set, ne_eq, not_true_eq_false, if_false, Option.elim_some]
      exact .read duty set
    · simp only [shareEvents, set, ne_eq, not_false_eq_true, if_true, Option.elim_some]
      exact .await s.shm.tokens duty rfl rfl
  | post item text i =>
    simp only [shairDatabase] at stepped
    split at stepped
    · cases stepped
      exact .await (s.shm.tokens + 1) duty rfl rfl
    · cases stepped
      exact .await s.shm.tokens duty rfl rfl
  | release =>
    cases stepped
    exact .leave (by simp [duty, Duty.Releasing])

/-- Only the taking of a request changes who is counted. -/
theorem membersHandler_frame {s server : Server} {shm shm' : Shared}
    (stepped : membersHandler s shm = some (server, shm')) :
    server.messagePc = s.messagePc ∧ server.counted = s.counted ∧
      server.accounts.membersOnline = s.accounts.membersOnline := by
  unfold membersHandler at stepped
  split at stepped
  · cases stepped
  · obtain ⟨_, _, isNext⟩ := Option.map_eq_some_iff.mp stepped
    cases isNext
    exact ⟨rfl, rfl, rfl⟩
  · cases stepped
    exact ⟨rfl, rfl, rfl⟩
  · obtain ⟨_, _, isNext⟩ := Option.map_eq_some_iff.mp stepped
    cases isNext
    exact ⟨rfl, rfl, rfl⟩
  all_goals
    cases stepped
    try exact ⟨rfl, rfl, rfl⟩

/-- `message_hendler` leaves the other thread's place and the counters alone. -/
theorem messageHendler_frame {s server : Server} {shm shm' : Shared}
    (stepped : messageHendler s shm = some (server, shm')) :
    server.membersPc = s.membersPc ∧ server.counted = s.counted ∧
      server.accounts.membersOnline = s.accounts.membersOnline := by
  unfold messageHendler at stepped
  split at stepped
  · cases stepped
    exact ⟨rfl, rfl, rfl⟩
  · cases stepped
  · split at stepped <;> cases stepped
    exact ⟨rfl, rfl, rfl⟩
  · obtain ⟨_, _, isNext⟩ := Option.map_eq_some_iff.mp stepped
    cases isNext
    exact ⟨rfl, rfl, rfl⟩
  · split at stepped <;> cases stepped <;> exact ⟨rfl, rfl, rfl⟩
  · cases stepped

/-- Every turn of `members_handler` is one of the moves: its own, or one of the function
it has called. -/
theorem members_move {s : State} {a : Action} {server : Server} {shm : Shared}
    (stepped : membersHandler s.server s.shm = some (server, shm)) :
    Move s.view a (emit s .members) ({ s with server, shm } : State).view := by
  obtain ⟨messages, counted, online⟩ := membersHandler_frame stepped
  rw [view_members shm messages counted online]
  have duty : s.view.duty .members = s.server.membersPc.duty := rfl
  have idle {d : Duty} (outside : ¬ s.server.membersPc.duty.Inside) (remains : ¬ d.Inside) :
      Move s.view a [] (s.view.turn .members d s.shm) := .aside outside remains
  unfold membersHandler at stepped
  split at stepped
  · cases stepped
  next pc member raw isPc =>
    obtain ⟨⟨shm, next⟩, shared, isNext⟩ := Option.map_eq_some_iff.mp stepped
    cases isNext
    have moved := share_move (a := a) (by rw [duty, isPc]; rfl) shared
    simp only [emit, isPc]
    cases next <;> exact moved
  next member raw isPc =>
    cases stepped
    simp only [emit, isPc]
    exact idle (by simp [isPc, MembersPc.duty, Duty.Inside]) id
  next pc raw isPc =>
    obtain ⟨⟨shm, next⟩, moved, isNext⟩ := Option.map_eq_some_iff.mp stepped
    cases isNext
    have moved := broadcast_move (a := a) (by rw [duty, isPc]; rfl) moved
    simp only [emit, isPc]
    cases next <;> exact moved
  next isPc =>
    cases stepped
    simp only [emit, isPc]
    refine idle (by simp [isPc, MembersPc.duty, Duty.Inside]) ?_
    split <;> exact id
  next isPc =>
    cases stepped
    simp only [emit, isPc]
    exact idle (by simp [isPc, MembersPc.duty, Duty.Inside]) id
  next isPc =>
    cases stepped
    simp only [emit, isPc]
    exact idle (by simp [isPc, MembersPc.duty, Duty.Inside]) id
  · cases stepped

theorem message_move {s : State} {a : Action} {server : Server} {shm : Shared}
    (stepped : messageHendler s.server s.shm = some (server, shm)) :
    Move s.view a (emit s .message) ({ s with server, shm } : State).view := by
  obtain ⟨members, counted, online⟩ := messageHendler_frame stepped
  rw [view_messages shm members counted online]
  have duty : s.view.duty .messages = s.server.messagePc.duty := rfl
  have idle {d : Duty} (outside : ¬ s.server.messagePc.duty.Inside) (remains : ¬ d.Inside) :
      Move s.view a [] (s.view.turn .messages d s.shm) := .aside outside remains
  unfold messageHendler at stepped
  split at stepped
  next isPc =>
    cases stepped
    simp only [emit, isPc]
    refine idle (by simp [isPc, MessagePc.duty, Duty.Inside]) ?_
    split <;> exact id
  · cases stepped
  next isPc =>
    split at stepped
    · cases stepped
    · cases stepped
      simp only [emit, isPc]
      refine idle (by simp [isPc, MessagePc.duty, Duty.Inside]) ?_
      split <;> exact id
  next pc raw isPc =>
    obtain ⟨⟨shm, next⟩, moved, isNext⟩ := Option.map_eq_some_iff.mp stepped
    cases isNext
    have moved := broadcast_move (a := a) (by rw [duty, isPc]; rfl) moved
    simp only [emit, isPc]
    cases next <;> exact moved
  next isPc =>
    have outside : ¬ s.server.messagePc.duty.Inside := by
      simp [isPc, MessagePc.duty, Duty.Inside]
    split at stepped
    · cases stepped
      simp only [emit, isPc]
      exact idle outside id
    · cases stepped
      simp only [emit, isPc]
      exact idle outside id
  · cases stepped

/-- A request changes table and counter as it is taken apart, or breaks the server. -/
theorem request_move {s : State} {raw : Text} (receiving : s.server.membersPc = .receive) :
    Move s.view (.request raw) []
      ({ s with server := membersReceive s.server raw } : State).view := by
  have idle : s.view.duty .members = .none := by
    simp [State.view, Server.duty, receiving, MembersPc.duty]
  have crash : Move s.view (.request raw) []
      ({ s with server := { s.server with crashed := true } } : State).view := by
    have outside : ¬ s.server.membersPc.duty.Inside := by
      simp [receiving, MembersPc.duty, Duty.Inside]
    exact aside_members rfl rfl rfl outside outside
  unfold membersReceive
  split
  · exact crash
  next id cursor tokens =>
    split
    · exact crash
    next accounts left =>
      obtain ⟨members, _, rfl⟩ := Option.map_eq_some_iff.mp left
      convert Move.depart (v := s.view) tokens idle using 1
      simp only [State.view, View.turn]
      congr 1
      funext h
      cases h <;> simp [Server.duty, MembersPc.duty]
  next line id cursor tokens =>
    split
    · exact crash
    · convert Move.join (v := s.view) tokens idle using 1
      simp only [State.view, View.turn, Accounts.count]
      congr 1
      funext h
      cases h <;> simp [Server.duty, MembersPc.duty]

theorem line_move {s : State} {raw : Text} (receiving : s.server.messagePc = .receive) :
    Move s.view (.line raw) [] ({ s with server := messageReceive s.server raw } : State).view := by
  have outside : ¬ s.server.messagePc.duty.Inside := by
    simp [receiving, MessagePc.duty, Duty.Inside]
  unfold messageReceive
  split
  · exact aside_messages rfl rfl rfl outside outside
  · refine aside_messages rfl rfl rfl outside ?_
    dsimp only
    split <;> exact id

/-- Every step of the handlers and clients is one of the moves listed. -/
theorem step_move {s t : State} {a : Action} (stepped : step s a = some t) :
    Move s.view a (emit s a) t.view := by
  cases a with
  | start pid =>
    simp only [step] at stepped
    split at stepped
    next guard =>
      cases stepped
      exact .start guard.1
    · cases stepped
  | quit pid =>
    simp only [step] at stepped
    split at stepped
    next running =>
      split at stepped
      next low =>
        cases stepped
        exact .quitLow running low
      next guarded =>
        split at stepped
        next free =>
          cases stepped
          exact .quit running guarded free
        · cases stepped
    · cases stepped
  | write pid =>
    simp only [step] at stepped
    split at stepped
    next writing =>
      obtain ⟨msg, _, rfl⟩ := Option.map_eq_some_iff.mp stepped
      exact .write msg.mtext writing
    · cases stepped
  | post pid =>
    simp only [step] at stepped
    split at stepped
    next guard =>
      cases stepped
      exact .post guard.1
    · cases stepped
  | release pid =>
    simp only [step] at stepped
    split at stepped
    next posting =>
      split at stepped
      next low =>
        cases stepped
        exact .releaseLow posting low
      next guarded =>
        cases stepped
        exact .release posting guarded
    · cases stepped
  | poll pid =>
    simp only [step] at stepped
    split at stepped
    next guard =>
      cases stepped
      exact .poll guard.1
    · cases stepped
  | request raw =>
    simp only [step] at stepped
    split at stepped
    next guard =>
      cases stepped
      exact request_move guard.2
    · cases stepped
  | line raw =>
    simp only [step] at stepped
    split at stepped
    next guard =>
      cases stepped
      exact line_move guard.2
    · cases stepped
  | skip =>
    simp only [step] at stepped
    split at stepped
    next guard =>
      cases stepped
      exact aside_messages rfl rfl rfl (by simp [guard.2, MessagePc.duty, Duty.Inside]) id
    · cases stepped
  | members =>
    simp only [step] at stepped
    split at stepped
    · cases stepped
    · obtain ⟨⟨server, shm⟩, moved, rfl⟩ := Option.map_eq_some_iff.mp stepped
      exact members_move moved
  | message =>
    simp only [step] at stepped
    split at stepped
    · cases stepped
    · obtain ⟨⟨server, shm⟩, moved, rfl⟩ := Option.map_eq_some_iff.mp stepped
      exact message_move moved

end EltexCourse.Source.Chat.SharedMemory
