import EltexCourse.Foundations.Transition

/-!
# Runs that can be brought to an end

`Leads` says that some order of permitted steps comes from one state to another. A goal is
in reach wherever an invariant holds, if from there the next lower value of a
rank is in reach.
-/

set_option autoImplicit false

namespace EltexCourse.Foundations.Transition.System

variable {State Action Event : Type*} {M : System State Action Event}
  {permitted : State → Action → Prop} {s t u : State}

def Leads (M : System State Action Event) (permitted : State → Action → Prop)
    (s t : State) : Prop :=
  ∃ log, M.Reach permitted s log t

theorem Leads.refl (s : State) : M.Leads permitted s s := ⟨[], .refl⟩

theorem Leads.step {a : Action} (may : permitted s a) (stepped : M.step s a = some t) :
    M.Leads permitted s t :=
  ⟨_, .tail a .refl may stepped⟩

/-- One permitted sequence of steps after the other is one. -/
theorem Leads.trans (first : M.Leads permitted s t) (second : M.Leads permitted t u) :
    M.Leads permitted s u := by
  obtain ⟨log, run⟩ := first
  obtain ⟨later, run'⟩ := second
  exact ⟨log ++ later, run.append run'⟩

instance : Trans (M.Leads permitted) (M.Leads permitted) (M.Leads permitted) := ⟨Leads.trans⟩

theorem Leads.keeps (leads : M.Leads permitted s t) (assertion : State → Prop) (base : assertion s)
    (preserved : ∀ s a t, assertion s → permitted s a → M.step s a = some t → assertion t) :
    assertion t := by
  obtain ⟨log, run⟩ := leads
  exact run.stateInvariant assertion base preserved

/-- If from everywhere a permitted sequence of steps reaches the goal or a state of
lower rank, some sequence reaches the goal. -/
theorem leads_of_rank (holds goal : State → Prop) (rank : State → Nat)
    (onward : ∀ s, holds s → goal s ∨
      ∃ t, M.Leads permitted s t ∧ holds t ∧ rank t < rank s)
    (here : holds s) : ∃ t, M.Leads permitted s t ∧ holds t ∧ goal t := by
  induction left : rank s using Nat.strongRecOn generalizing s with
  | ind n ih =>
    subst left
    rcases onward s here with done | ⟨t, leads, there, lower⟩
    · exact ⟨s, .refl s, here, done⟩
    · obtain ⟨u, leads', last, done⟩ := ih (rank t) lower there rfl
      exact ⟨u, leads.trans leads', last, done⟩

end EltexCourse.Foundations.Transition.System
