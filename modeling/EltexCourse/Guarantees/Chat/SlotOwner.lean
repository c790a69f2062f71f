import EltexCourse.Foundations.Semaphore
import EltexCourse.Source.Chat.SharedMemoryMoves

/-!
# Semaphore 4 and the one writer of `shm[1]`

A handler in `broadcast` or `shair_database`, and a client that sends its "!exit"
with a pid above 2, take semaphore 4 before they touch the slot and post it when
they are done. At most one of them is in between, in every run.
-/

set_option autoImplicit false

namespace EltexCourse.Guarantees.Chat.SlotOwner
open Foundations.CString Foundations.Semaphore Source.Chat Source.Chat.SharedMemory
open Mailbox (Handler)

inductive Party where
  | handler (h : Handler)
  | client (pid : Int)
  deriving DecidableEq, Repr

def Holds (v : View) : Party → Prop
  | .handler h => (v.duty h).Inside
  | .client pid => ¬ pid ≤ 2 ∧ (v.client pid = .writing ∨ v.client pid = .posting)

/-- Semaphore 4 is free, or one party holds it. -/
def Owned (v : View) : Prop := Exclusive v.shm.writer (Holds v)

variable {v w : View} {a : Action} {events : List Event} {h h' : Handler} {d : Duty} {shm : Shared}
variable {pid : Int} {pc : ClientPc}

theorem inside_of_entering (entering : d.Entering) : d.Inside := by
  unfold Duty.Entering at entering
  split at entering
  · trivial
  · trivial
  · exact absurd entering id

theorem inside_of_releasing (releasing : d.Releasing) : d.Inside := by
  unfold Duty.Releasing at releasing
  split at releasing
  · trivial
  · trivial
  · exact absurd releasing id

theorem inside_of_looping {pc : BroadcastPc} {mtext : Text} (looping : pc.Looping) :
    (Duty.broadcast pc mtext).Inside := by
  cases pc
  case test => trivial
  case post => trivial
  all_goals exact absurd looping id

theorem inside_of_awaiting {pc : SharePc} {mtext : Text} {pid : Int} (waiting : pc.Awaiting mtext) :
    (Duty.share pc pid).Inside := by
  cases pc
  case await => trivial
  case post => trivial
  all_goals exact absurd waiting id

/-- A turn of a handler changes nobody else's hold of the slot. -/
theorem holds_turn (party : Party) :
    Holds (v.turn h d shm) party ↔ if party = .handler h then d.Inside else Holds v party := by
  cases party with
  | handler h' =>
    by_cases own : h' = h
    · simp [Holds, own]
    · simp [Holds, own, View.turn_duty_of_ne own]
  | client pid => simp [Holds, View.turn_client]

theorem holds_setClient_of_ne {party : Party} (other : party ≠ .client pid) :
    Holds ({ v with shm }.setClient pid pc) party ↔ Holds v party := by
  cases party with
  | handler h => rfl
  | client p =>
    have different : p ≠ pid := fun same => other (by rw [same])
    simp [Holds, View.setClient, different]

/-- A turn that neither takes nor posts the semaphore. -/
theorem Owned.turn (owned : Owned v) (same : d.Inside ↔ (v.duty h).Inside)
    (writer : shm.writer = v.shm.writer) : Owned (v.turn h d shm) := by
  unfold Owned
  rw [View.turn_shm, writer]
  refine owned.congr fun party => ?_
  rw [holds_turn]
  split
  next own =>
    rw [own]
    exact same
  · rfl

theorem Owned.turnInside (owned : Owned v) (before : (v.duty h).Inside) (after : d.Inside)
    (writer : shm.writer = v.shm.writer) : Owned (v.turn h d shm) :=
  owned.turn (iff_of_true after before) writer

/-- A client's step that neither takes nor posts it. -/
theorem Owned.client (owned : Owned v) (writer : shm.writer = v.shm.writer)
    (same : ¬ pid ≤ 2 → (pc = .writing ∨ pc = .posting ↔
      v.client pid = .writing ∨ v.client pid = .posting)) :
    Owned ({ v with shm }.setClient pid pc) := by
  have writer' : ({ v with shm }.setClient pid pc).shm.writer = v.shm.writer := writer
  unfold Owned
  rw [writer']
  refine owned.congr fun party => ?_
  by_cases own : party = .client pid
  · subst own
    simp only [Holds, View.setClient, Function.update_self]
    exact and_congr_right same
  · exact holds_setClient_of_ne own

theorem messageHandler_writer (shm : Shared) (pid : Int) :
    (shm.messageHandler pid).1.writer = shm.writer := by
  unfold Shared.messageHandler
  split <;> rfl

/-- One step: whoever gets semaphore 2 holds the slot alone, up to its own release. -/
theorem owned_step (owned : Owned v) (moved : Move v a events w) : Owned w := by
  cases moved with
  | start fresh =>
    refine owned.client rfl fun _ => ?_
    simp [fresh]
  | @quit pid running guarded free =>
    refine owned.acquire (i := .client pid) free ⟨guarded, ?_⟩ fun party other => ?_
    · simp [View.setClient]
    · exact holds_setClient_of_ne other
  | quitLow running low => exact owned.client rfl fun guarded => absurd low guarded
  | write mtext writing =>
    refine owned.client rfl fun _ => ?_
    simp [writing]
  | post posting => exact owned
  | @release pid posting guarded =>
    refine owned.release (i := .client pid) ⟨guarded, .inr posting⟩ ?_ fun party other => ?_
    · simp [Holds, View.setClient]
    · exact holds_setClient_of_ne other
  | releaseLow posting low => exact owned.client rfl fun guarded => absurd low guarded
  | poll present =>
    unfold Owned
    rw [messageHandler_writer]
    exact owned
  | join tokens idle => exact owned.turn (by simp [idle, Duty.Inside]) rfl
  | depart tokens idle => exact owned.turn (by simp [idle, Duty.Inside]) rfl
  | aside outside remains => exact owned.turn (iff_of_false remains outside) rfl
  | @enter _ h d outside entering free =>
    refine owned.acquire (i := .handler h) free ?_ fun party other => ?_
    · simp [holds_turn, inside_of_entering entering]
    · simp [holds_turn, other]
  | @leave _ h releasing =>
    refine owned.release (i := .handler h) (inside_of_releasing releasing) ?_ fun party other => ?_
    · simp [holds_turn, Duty.Inside]
    · simp [holds_turn, other]
  | clear duty => exact owned.turnInside (by simp [duty, Duty.Inside]) trivial rfl
  | publish duty => exact owned.turnInside (by simp [duty, Duty.Inside]) trivial rfl
  | spin tokens duty before after =>
    exact owned.turnInside (duty ▸ inside_of_looping before) (inside_of_looping after) rfl
  | exit duty full => exact owned.turnInside (by simp [duty, Duty.Inside]) trivial rfl
  | refill duty => exact owned.turnInside (by simp [duty, Duty.Inside]) trivial rfl
  | arm duty => exact owned.turnInside (by simp [duty, Duty.Inside]) trivial rfl
  | skip duty => exact owned.turnInside (by simp [duty, Duty.Inside]) trivial rfl
  | finish duty => exact owned.turnInside (by simp [duty, Duty.Inside]) trivial rfl
  | offer mtext duty => exact owned.turnInside (by simp [duty, Duty.Inside]) trivial rfl
  | await tokens duty before after =>
    exact owned.turnInside (duty ▸ inside_of_awaiting before) (inside_of_awaiting after) rfl
  | read duty set => exact owned.turnInside (by simp [duty, Duty.Inside]) trivial rfl

/-- At the beginning semaphore 2 is free and nobody holds the slot. -/
theorem owned_initial (tokens : Nat) : Owned (initial tokens).view := by
  refine .free rfl fun party => ?_
  cases party with
  | handler h => cases h <;> exact id
  | client pid => simp [Holds, initial, State.view]

/-- A handler inside keeps the other out. -/
theorem Owned.other_outside (owned : Owned v) (inside : (v.duty h).Inside) (other : h' ≠ h) :
    ¬ (v.duty h').Inside := by
  intro both
  have same : Party.handler h' = .handler h := owned.unique both inside
  exact other (Party.handler.inj same)

end EltexCourse.Guarantees.Chat.SlotOwner
