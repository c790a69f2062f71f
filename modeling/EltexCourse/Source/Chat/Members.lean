import EltexCourse.Source.Chat.Wire

/-!
# Accounts of `members_handler`

The table `members` and the counter `members_online` of the server, and what
one processed message does to them in task13/chat and in task14/chat. Sending,
locking and printing do not touch them. `none` stands for a missing token or
for the write through index -1.
-/

set_option autoImplicit false

namespace EltexCourse.Source.Chat
open Foundations.CString

structure Accounts where
  members : Data
  membersOnline : Int
  deriving DecidableEq, Repr

/-- `data_init(&members); members_online = members.size`, server.c:50-51 of task13/chat.
-/
def Accounts.init : Accounts := ⟨[], 0⟩

/-- `members.data[data_find(&members, id)].is_online = 0; members_online--`,
server.c:69-70 of task13/chat. -/
def Accounts.leave (a : Accounts) (id : Int) : Option Accounts :=
  (markOffline a.members id).map fun members => ⟨members, a.membersOnline - 1⟩

def Accounts.add (a : Accounts) (member : DataArr) : Accounts :=
  { a with members := dataAdd a.members member }

def Accounts.count (a : Accounts) : Accounts :=
  { a with membersOnline := a.membersOnline + 1 }

/-- task13/chat: `data_add` comes before `members_online++`, server.c:65-81. -/
def membersHandlerMessage (a : Accounts) (mtext : Text) : Option Accounts :=
  match membersHandlerTokens mtext with
  | none => none
  | some (.leave id, _) => a.leave id
  | some (.join line id, _) => some (a.add ⟨line, id, 1⟩).count

/-- task14/chat: `members_online++` comes before `shair_database` and `data_add`,
server.c:116-134. -/
def membersHandlerMessageShm (a : Accounts) (mtext : Text) : Option Accounts :=
  match membersHandlerTokens mtext with
  | none => none
  | some (.leave id, _) => a.leave id
  | some (.join line id, _) => some (a.count.add ⟨line, id, 1⟩)

/-- server.c:53-92 of task13/chat, 103-145 of task14/chat. The accounts after each
message after which the loop goes on; the loop stops when `members_online <= 0`. -/
def membersHandlerLoop (message : Accounts → Text → Option Accounts) :
    Accounts → List Text → Option (List Accounts)
  | _, [] => some []
  | a, mtext :: rest =>
    match message a mtext with
    | none => none
    | some a' =>
      if a'.membersOnline ≤ 0 then some []
      else (membersHandlerLoop message a' rest).map (a' :: ·)

/-- The order of counting and adding makes no difference to the accounts. -/
theorem membersHandlerMessageShm_eq : membersHandlerMessageShm = membersHandlerMessage := by
  funext a mtext
  unfold membersHandlerMessageShm membersHandlerMessage
  split <;> simp_all [Accounts.add, Accounts.count]

end EltexCourse.Source.Chat
