import EltexCourse.Foundations.Looping
import EltexCourse.Source.TimeServer.ParallelBuff

/-!
# task16_cs_models/parallel_buff: the `for` loop of the main cycle

server.c. `isReady` says what each look of the loop would find in each of the
three flags; a look is one comparison of `data[i].is_ready` with 0. The result
is `free_thread`, which has no value behind the loop unless it was set in it.
-/

set_option autoImplicit false

namespace EltexCourse.Source.TimeServer.FreeThread
open Foundations.Looping

structure Scan where
  look : Nat
  i : Nat
  deriving DecidableEq, Repr

/-- server.c:59-68. -/
def scanTurn (isReady : Nat → Fin 3 → Int) (s : Scan) : Option (Turn Scan (Option (Fin 3))) :=
  if inside : s.i < 3 then
    if isReady s.look ⟨s.i, inside⟩ = 0 then some (.stop (some ⟨s.i, inside⟩))
    else some (.next { look := s.look + 1, i := (if s.i = 2 then 0 else s.i) + 1 })
  else some (.stop none)

def scanStart : Scan := { look := 0, i := 0 }

end EltexCourse.Source.TimeServer.FreeThread
