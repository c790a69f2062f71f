import EltexCourse.Source.Chat.SharedMemory

/-!
# task14/chat: the index of a read flag

client.c and server.c. `int` has 32 bits and `long` 64, the type of the constant
and so of the products; a product that a `long` does not hold has no defined
result. The conversion to `int` keeps the low 32 bits.
-/

set_option autoImplicit false

namespace EltexCourse.Source.Chat.FlagSlots

/-- `pid*2654435761`. -/
def product (pid : Int) : Option Int :=
  if -2 ^ 63 ≤ pid * 2654435761 ∧ pid * 2654435761 < 2 ^ 63 then some (pid * 2654435761) else none

/-- `(pid*2654435761)%30`. -/
def wideId (pid : Int) : Option Int := (product pid).map fun wide => wide.tmod 30

/-- `id` in `message_handler`, client.c:170. -/
def messageHandlerId (pid : Int) : Option Int := wideId pid

/-- `id` in `shair_database`, server.c:229. -/
def shairDatabaseId (pid : Int) : Option Int := wideId pid

/-- `pid%30` in `broadcast`, behind `pid *= 2654435761`, server.c:208-210. -/
def broadcastId (pid : Int) : Option Int :=
  (product pid).map fun wide => (wide.bmod (2 ^ 32)).tmod 30

end EltexCourse.Source.Chat.FlagSlots
