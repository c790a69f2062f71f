import EltexCourse.Foundations.Transition

/-!
# Runs that come to an end

A system whose every step lowers a rank has no run longer than its first rank.
`total` is such a rank for parties that each have their own work left.
-/

set_option autoImplicit false

namespace EltexCourse.Foundations.Ranking
open Transition

/-- What the first `count` parties have left to do, together. -/
def total (work : Nat → Nat) : Nat → Nat
  | 0 => 0
  | count + 1 => total work count + work count

variable {work work' : Nat → Nat} {count : Nat}

theorem total_le (less : ∀ j < count, work' j ≤ work j) : total work' count ≤ total work count := by
  induction count with
  | zero => exact Nat.le_refl _
  | succ count ih =>
    have before := ih fun j inside => less j (by omega)
    have last := less count (by omega)
    simp only [total]
    omega

/-- One party has done something and nobody has more to do. -/
theorem total_lt (less : ∀ j < count, work' j ≤ work j) {i : Nat} (inside : i < count)
    (strict : work' i < work i) : total work' count < total work count := by
  induction count with
  | zero => omega
  | succ count ih =>
    have last := less count (by omega)
    simp only [total]
    by_cases own : i = count
    · subst own
      have before : total work' i ≤ total work i := total_le fun j here => less j (by omega)
      omega
    · have before := ih (fun j here => less j (by omega)) (by omega)
      omega

theorem total_add_const (work : Nat → Nat) (c count : Nat) :
    total (fun j => work j + c) count = total work count + count * c := by
  induction count with
  | zero => simp [total]
  | succ count ih =>
    simp only [total, ih, Nat.succ_mul]
    omega

/-- `ranked s r` says that at most `r` steps can follow; a step has one event. -/
theorem length_le {State Action Event : Type*} {M : System State Action Event} {start : State}
    (ranked : State → Nat → Prop) {most : Nat} (base : ranked start most)
    (lowered : ∀ s a t r, ranked s r → M.step s a = some t → ∃ r' < r, ranked t r')
    (logged : ∀ s a, (M.emit s a).length = 1) {log : List Event} {s : State}
    (run : M.Reach System.Anything start log s) : ∃ r, ranked s r ∧ log.length + r ≤ most := by
  refine run.invariant (fun log s => ∃ r, ranked s r ∧ log.length + r ≤ most)
    ⟨most, base, by simp⟩ ?_
  rintro log s a t ⟨r, here, bound⟩ - stepped
  obtain ⟨r', less, there⟩ := lowered s a t r here stepped
  refine ⟨r', there, ?_⟩
  rw [List.length_append, logged]
  omega

section Recorded

variable {State Action Event : Type*} {M : System State Action Event}
  {ok : State → Action → Prop} {start s : State}

/-- The same system, with the actions themselves as what is observed. -/
def recorded (M : System State Action Event) : System State Action Action where
  step := M.step
  emit _ action := [action]

/-- A rank that every step of a run lowers by one counts its steps. -/
theorem length_add_rank {assertion : List Event → State → Prop} (rank : State → Nat)
    (base : assertion [] start)
    (lowered : ∀ log s a t, assertion log s → M.step s a = some t →
      assertion (log ++ M.emit s a) t ∧ rank t + 1 = rank s)
    {actions : List Action} (run : (recorded M).Reach System.Anything start actions s) :
    (∃ log, M.Reach System.Anything start log s ∧ assertion log s) ∧
      actions.length + rank s = rank start := by
  induction run with
  | refl => exact ⟨⟨[], .refl, base⟩, Nat.zero_add _⟩
  | tail action _ allowed stepped ih =>
    obtain ⟨⟨log, run, holds⟩, counted⟩ := ih
    obtain ⟨kept, less⟩ := lowered log _ action _ holds stepped
    refine ⟨⟨_, run.tail action allowed stepped, kept⟩, ?_⟩
    rw [← counted, ← less, List.length_append]
    show _ + 1 + _ = _
    omega

end Recorded

end EltexCourse.Foundations.Ranking
