import EltexCourse.Foundations.CBuffer
import EltexCourse.Foundations.Layers

/-!
# task16_cs_models: the buffer of main

`recv` and `recvfrom` store at most `BUFF_SIZE` bytes and leave the others as
they are; the comparison with "kill" reads what is there then.
-/

set_option autoImplicit false

namespace EltexCourse.Source.TimeServer
open Foundations.CString Foundations.CBuffer Foundations.Layers

def buffSize : Nat := 16

/-- What is stored of a datagram. -/
def stored (bytes : Text) : Text := bytes.take buffSize

/-- A datagram over what the buffer has held before. -/
def overlay (buff bytes : Text) : Text := layer buff (stored bytes)

def kill : Text := ['k', 'i', 'l', 'l', nul]

/-- `strcmp(buff, "kill") == 0`: line 68 of parallel/server.c, 79 of parallel_buff, 93
of producer_consumer, 93 and 135 of multyplexed_fd. -/
def isKill (buff : Text) : Bool := buff.take 5 = kill

theorem isKill_iff (buff : Text) : isKill buff = true ↔ ∀ i < 5, buff[i]? = kill[i]? := by
  rw [isKill, decide_eq_true_eq]
  exact take_eq_iff kill

/-- A datagram of five bytes or more decides alone; what was in the buffer does not
matter. -/
theorem isKill_long {buff bytes : Text} (long : 5 ≤ bytes.length) :
    isKill (overlay buff bytes) = isKill bytes := by
  have reaches : 5 ≤ (stored bytes).length := by
    rw [stored, List.length_take, buffSize]
    omega
  rw [isKill, isKill, overlay, layer_take reaches, stored, List.take_take]
  rfl

/-- A kill message is one over whatever the buffer has held. -/
theorem isKill_overlay {bytes : Text} (said : isKill bytes = true) (buff : Text) :
    isKill (overlay buff bytes) = true := by
  have long : 5 ≤ bytes.length := by
    have length := congrArg List.length (of_decide_eq_true said)
    rw [List.length_take] at length
    have five : kill.length = 5 := rfl
    omega
  rw [isKill_long long]
  exact said

theorem not_isKill_short {bytes : Text} (short : bytes.length < 5) : isKill bytes = false := by
  rw [isKill, decide_eq_false_iff_not]
  intro same
  have long := congrArg List.length same
  rw [List.length_take] at long
  have five : kill.length = 5 := rfl
  omega

end EltexCourse.Source.TimeServer
