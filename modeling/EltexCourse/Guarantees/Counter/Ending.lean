import EltexCourse.Foundations.Custody
import EltexCourse.Foundations.Ranking
import EltexCourse.Guarantees.Counter.Exact

/-!
# task11.2: how long the threads count

Each step brings the program nearer to its end by one, whoever takes it: a round
of a thread that counts has as many steps as it lowers what is left to count, and
a thread has a last round of three steps. So the number of steps is known from
the start, and does not depend on their order.
-/

set_option autoImplicit false

namespace EltexCourse.Guarantees.Counter.Ending
open Foundations.Custody Foundations.Ranking Foundations.Transition Source.Counter
open Guarantees.Counter.Exact

variable {T : Nat} {version : Version} {limit : Limit} {s t : State T} {i : Fin T}
  {log events : List Event}

/-- The steps of a round that counts. -/
def perCount : Version → Nat
  | .mutex => 5
  | .spinlock => 6

/-- The steps to the end of the thread, less those of counting rounds to come. -/
def threadLeft : ThreadPc → Nat
  | .absent => 0
  | .locking => 3
  | .testing => 2
  | .reading => 1
  | .writing _ => 0
  | .printing => 5
  | .unlocking => 4
  | .leaving => 1
  | .returned => 0

/-- The steps of `main`, and the last rounds of the threads it has yet to create. -/
def mainLeft (T : Nat) : MainPc → Nat
  | .creating i => 4 * (T - i) + T + 2
  | .joining i => T - i + 1
  | .returned => 0

def left (version : Version) (limit : Limit) (s : State T) : Nat :=
  perCount version * (limit.value - s.num).toNat + ∑ i, threadLeft (s.thread i) + mainLeft T s.main

/-- All steps, from the start. -/
def allSteps (version : Version) (limit : Limit) (T : Nat) : Nat :=
  perCount version * limit.value.toNat + 5 * T + 2

theorem left_start : left version limit (start T) = allSteps version limit T := by
  simp only [left, start, threadLeft, mainLeft, allSteps, Finset.sum_const_zero, Int.sub_zero]
  omega

/-- A thread that moves changes its own share of the steps left and no other. -/
theorem sum_setThread (s : State T) (i : Fin T) (pc : ThreadPc) :
    ∑ j, threadLeft ((s.setThread i pc).thread j) + threadLeft (s.thread i) =
      ∑ j, threadLeft (s.thread j) + threadLeft pc := by
  have changed := sum_change (fun j => threadLeft (s.thread j))
    (fun j => threadLeft ((s.setThread i pc).thread j)) i fun j other => by rw [setThread_ne other]
  rw [setThread_thread] at changed
  exact changed

theorem afterWrite_left (version : Version) :
    threadLeft version.afterWrite + 1 = perCount version := by
  cases version <;> rfl

/-- Every step of a thread takes one from the steps left, as what is still to be counted
is shared between all threads. -/
theorem lowers_of_thread (move : ThreadMove version limit s i t events)
    (knows : Knows limit.value s.num (s.thread i)) :
    left version limit t + 1 = left version limit s := by
  -- All but the write leave `num` alone.
  have quiet (u : State T) (pc : ThreadPc) (same : u.thread = s.thread ∧ u.num = s.num ∧
    u.main = s.main)
      (less : threadLeft pc + 1 = threadLeft (s.thread i)) :
      left version limit (u.setThread i pc) + 1 = left version limit s := by
    obtain ⟨thread, num, main⟩ := same
    have sum := sum_setThread u i pc
    have num' : (u.setThread i pc).num = s.num := num
    have main' : (u.setThread i pc).main = s.main := main
    rw [thread] at sum
    simp only [left, num', main']
    omega
  cases move with
  | locks free pc => exact quiet _ _ ⟨rfl, rfl, rfl⟩ (by rw [pc]; rfl)
  | goesOn below pc => exact quiet _ _ ⟨rfl, rfl, rfl⟩ (by rw [pc]; rfl)
  | stops done pc => exact quiet _ _ ⟨rfl, rfl, rfl⟩ (by rw [pc]; rfl)
  | reads pc => exact quiet _ _ ⟨rfl, rfl, rfl⟩ (by rw [pc]; rfl)
  | writes read pc =>
    rw [pc] at knows
    obtain ⟨rfl, below⟩ := knows
    have sum := sum_setThread { s with num := s.num + 1 } i version.afterWrite
    have after := afterWrite_left version
    have less : (limit.value - s.num).toNat = (limit.value - (s.num + 1)).toNat + 1 := by omega
    have here : threadLeft (s.thread i) = 0 := by rw [pc]; rfl
    show perCount version * (limit.value - (s.num + 1)).toNat + _ + _ + 1 = _
    simp only [left, less, Nat.mul_succ]
    have same : (({ s with num := s.num + 1 } : State T).setThread i version.afterWrite).main =
        s.main := rfl
    simp only [here] at sum
    rw [same]
    omega
  | prints pc => exact quiet _ _ ⟨rfl, rfl, rfl⟩ (by rw [pc]; rfl)
  | unlocks pc => exact quiet _ _ ⟨rfl, rfl, rfl⟩ (by rw [pc]; rfl)
  | leaves pc => exact quiet _ _ ⟨rfl, rfl, rfl⟩ (by rw [pc]; rfl)

theorem lowers_of_main (move : MainMove s t events) (joined : Exact.Joined s) :
    left version limit t + 1 = left version limit s := by
  cases move with
  | creates i pc =>
    simp only [Exact.Joined, pc] at joined
    have absent := (joined i).mpr (Nat.le_refl _)
    have sum := sum_setThread s i .locking
    have before : threadLeft (s.thread i) = 0 := by rw [absent]; rfl
    have after : threadLeft .locking = 3 := rfl
    have inside := i.isLt
    show perCount version * (limit.value - s.num).toNat +
      ∑ j, threadLeft ((s.setThread i .locking).thread j) + mainLeft T (.creating (i + 1)) + 1 = _
    simp only [left, pc, mainLeft]
    omega
  | created i all pc =>
    simp only [left, pc, mainLeft]
    omega
  | joins i returned pc =>
    have inside := i.isLt
    simp only [left, pc, mainLeft]
    omega
  | prints i all pc =>
    simp only [left, pc, mainLeft]
    omega

/-- So every step of the program does, and the invariant goes with it. -/
theorem step_lowers (nonempty : 0 < T) {a : Action T} (sound : Sound version limit log s)
    (stepped : step version limit s a = some t) :
    Sound version limit (log ++ emit s a) t ∧ left version limit t + 1 = left version limit s := by
  cases a with
  | thread i =>
    have move := threadWork_move stepped
    exact ⟨move.sound sound, lowers_of_thread move (sound.counts.knows i)⟩
  | main =>
    have move := mainStep_move stepped
    exact ⟨move.sound nonempty sound, lowers_of_main move sound.joined⟩

theorem left_returned (nonempty : 0 < T) (sound : Sound version limit log s)
    (returned : s.main = .returned) : left version limit s = 0 := by
  have joined := sound.joined
  simp only [Exact.Joined, returned] at joined
  have done := counts_done nonempty sound.counts joined
  simp [left, returned, mainLeft, joined, threadLeft, done]

/-- No order of the steps goes on for longer than `allSteps`, none stops before
`main` has returned, and then it has had exactly so many. -/
theorem counting_ends (nonempty : 0 < T) {actions : List (Action T)}
    (run : (recorded (threads version limit T)).Reach System.Anything (start T) actions s) :
    actions.length ≤ allSteps version limit T ∧
      (s.main = .returned ↔ actions.length = allSteps version limit T) ∧
      (s.main = .returned ∨ ∃ a t, step version limit s a = some t) := by
  obtain ⟨⟨log, plain, sound⟩, counted⟩ := length_add_rank (left version limit)
    start_sound (fun _ _ _ _ sound stepped => step_lowers nonempty sound stepped) run
  rw [left_start] at counted
  have moves := somebody_moves nonempty plain
  refine ⟨by omega, ⟨fun returned => ?_, fun all => ?_⟩, moves⟩
  · have nothing := left_returned nonempty sound returned
    omega
  · refine moves.resolve_right ?_
    rintro ⟨a, t, stepped⟩
    have less := (step_lowers nonempty sound stepped).2
    omega

theorem counting_ends_two : ∃ actions s,
    (recorded (threads .spinlock two 2)).Reach System.Anything (start 2) actions s ∧
      s.main = .returned ∧ actions.length = 24 := by
  obtain ⟨log, s, run, returned⟩ := System.exists_reach (recorded (threads .spinlock two 2))
    System.Anything (start 2) schedule (fun _ s => s.main = .returned) (by decide +kernel)
  exact ⟨log, s, run, returned, (counting_ends (by decide) run).2.1.mp returned⟩

end EltexCourse.Guarantees.Counter.Ending
