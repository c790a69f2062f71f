import Mathlib.Logic.Basic

/-!
# Loops that may not end

A loop is given by what one turn makes of its state: the loop is over with a
result, or goes on in a new state; a turn may have no defined outcome. It ends
with a result if some number of turns is enough.
-/

set_option autoImplicit false

namespace EltexCourse.Foundations.Looping

inductive Turn (State Result : Type*) where
  | stop (result : Result)
  | next (s : State)

variable {State Result : Type*} {turn : State → Option (Turn State Result)} {s t : State}
  {result other : Result}

/-- The loop within so many turns. -/
def loop (turn : State → Option (Turn State Result)) : Nat → State → Option Result
  | 0, _ => none
  | turns + 1, s =>
    match turn s with
    | some (.stop result) => some result
    | some (.next t) => loop turn turns t
    | none => none

def Ends (turn : State → Option (Turn State Result)) (s : State) (result : Result) : Prop :=
  ∃ turns, loop turn turns s = some result

theorem ends_stop (stops : turn s = some (.stop result)) : Ends turn s other ↔ other = result := by
  constructor
  · rintro ⟨turns, ended⟩
    cases turns with
    | zero => cases ended
    | succ turns =>
      rw [loop, stops] at ended
      exact (Option.some.inj ended).symm
  · rintro rfl
    exact ⟨1, by rw [loop, stops]⟩

theorem ends_next (goesOn : turn s = some (.next t)) : Ends turn s result ↔ Ends turn t result := by
  constructor
  · rintro ⟨turns, ended⟩
    cases turns with
    | zero => cases ended
    | succ turns =>
      rw [loop, goesOn] at ended
      exact ⟨turns, ended⟩
  · rintro ⟨turns, ended⟩
    exact ⟨turns + 1, by rw [loop, goesOn]; exact ended⟩

/-- A loop that never comes to a turn in which it is over does not end. -/
theorem never_stops (invariant : State → Prop)
    (noStop : ∀ s result, invariant s → turn s ≠ some (.stop result))
    (kept : ∀ s t, invariant s → turn s = some (.next t) → invariant t)
    (holds : invariant s) : ¬ Ends turn s result := by
  rintro ⟨turns, ended⟩
  induction turns generalizing s with
  | zero => cases ended
  | succ turns ih =>
    rw [loop] at ended
    split at ended
    · next stops => exact noStop s _ holds stops
    · next next => exact ih (kept s _ holds next) ended
    · cases ended

/-- A loop that can always go on never ends. -/
theorem never_ends (invariant : State → Prop)
    (goesOn : ∀ s, invariant s → ∃ t, turn s = some (.next t) ∧ invariant t)
    (holds : invariant s) : ¬ Ends turn s result := by
  refine never_stops invariant (fun s result holds stops => ?_) (fun s t holds next => ?_) holds
  · obtain ⟨t, next, -⟩ := goesOn s holds
    rw [next] at stops
    cases stops
  · obtain ⟨u, next', holds⟩ := goesOn s holds
    rw [next] at next'
    cases next'
    exact holds

/-- The state after so many turns, if the loop goes on that long. -/
def goOn (turn : State → Option (Turn State Result)) : Nat → State → Option State
  | 0, s => some s
  | turns + 1, s =>
    match turn s with
    | some (.next t) => goOn turn turns t
    | _ => none

theorem ends_goOn {turns : Nat} (goes : goOn turn turns s = some t) :
    Ends turn s result ↔ Ends turn t result := by
  induction turns generalizing s with
  | zero =>
    obtain rfl := Option.some.inj goes
    exact Iff.rfl
  | succ turns ih =>
    rw [goOn] at goes
    split at goes
    · next next => exact (ends_next next).trans (ih goes)
    · cases goes

/-- The states in which a turn of the loop begins. -/
inductive Comes (turn : State → Option (Turn State Result)) (s : State) : State → Prop where
  | start : Comes turn s s
  | next {t u : State} : Comes turn s t → turn t = some (.next u) → Comes turn s u

/-- From any state the loop comes to it has the same end. -/
theorem Comes.ends_iff (comes : Comes turn s t) : Ends turn s result ↔ Ends turn t result := by
  induction comes with
  | start => exact Iff.rfl
  | next _ next ih => exact ih.trans (ends_next next)

end EltexCourse.Foundations.Looping
