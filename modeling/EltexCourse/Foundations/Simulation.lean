import Mathlib.Data.List.Basic
import EltexCourse.Foundations.Transition

/-!
# Runs answered by runs

Two systems seen through the same observations. If each step of one can be
answered by the other, which takes as many steps as it needs to show the same
and come to a related state, then each run of the one can be answered.
-/

set_option autoImplicit false

namespace EltexCourse.Foundations.Transition.System

variable {S A E T B F O : Type*} {M : System S A E} {ok : S → A → Prop} {start s : S}
  {start' : T}

/-- If every permitted step of the one system is answered by steps of the other that
show the same, so is every run. -/
theorem Reach.answered (N : System T B F) (ok' : T → B → Prop) (view : E → List O)
    (view' : F → List O) (related : S → T → Prop)
    (initial : related start start')
    (answer : ∀ s t a s', related s t → ok s a → M.step s a = some s' →
      ∃ log t', N.Reach ok' t log t' ∧ log.flatMap view' = (M.emit s a).flatMap view ∧
        related s' t')
    {log : List E} (run : M.Reach ok start log s) :
    ∃ log' t, N.Reach ok' start' log' t ∧ log'.flatMap view' = log.flatMap view ∧ related s t := by
  induction run with
  | refl => exact ⟨[], start', .refl, rfl, initial⟩
  | tail a _ allowed stepped ih =>
    obtain ⟨earlier, t, before, seen, together⟩ := ih
    obtain ⟨later, t', onward, shown, together'⟩ := answer _ _ a _ together allowed stepped
    exact ⟨earlier ++ later, t', before.append onward,
      by rw [List.flatMap_append, List.flatMap_append, seen, shown], together'⟩

end EltexCourse.Foundations.Transition.System
