import Mathlib.Logic.Basic

/-!
# Partial step systems with observations

A system is a partial step function on states, driven by an action that names
the party taking the step, together with the events each step lets an observer
see. A disabled action has no successor. `Reach ok start log s` says that a run
from `start`, all of whose steps satisfied `ok` in the state they were taken
in, observed `log` and ended in `s`. Nothing here assumes fairness: a run may
starve any party.
-/

set_option autoImplicit false

namespace EltexCourse.Foundations.Transition

/-- `step s a = none` means that action `a` is not enabled in `s`. -/
structure System (State Action Event : Type*) where
  step : State → Action → Option State
  emit : State → Action → List Event

variable {State Action Event : Type*}

namespace System

/-- Runs are extended at their end; `ok` restricts each step by its prestate. -/
inductive Reach (M : System State Action Event) (ok : State → Action → Prop) (start : State) :
    List Event → State → Prop where
  | refl : Reach M ok start [] start
  | tail {log : List Event} {s t : State} (a : Action) (before : Reach M ok start log s)
      (allowed : ok s a) (stepped : M.step s a = some t) :
      Reach M ok start (log ++ M.emit s a) t

/-- The unrestricted step condition. -/
def Anything (_ : State) (_ : Action) : Prop := True

instance (s : State) (a : Action) : Decidable (Anything s a) := inferInstanceAs (Decidable True)

/-- Invariant rule: an assertion about log and state that holds at the start
and survives every allowed step holds at the end of every run. -/
theorem Reach.invariant {M : System State Action Event} {ok : State → Action → Prop}
    {start : State} (assertion : List Event → State → Prop) (base : assertion [] start)
    (preserved : ∀ log s a t, assertion log s → ok s a → M.step s a = some t →
      assertion (log ++ M.emit s a) t)
    {log : List Event} {s : State} (run : M.Reach ok start log s) : assertion log s := by
  induction run with
  | refl => exact base
  | tail a _ allowed stepped ih => exact preserved _ _ a _ ih allowed stepped

/-- Invariant rule for assertions that do not mention the log. -/
theorem Reach.stateInvariant {M : System State Action Event} {ok : State → Action → Prop}
    {start : State} (assertion : State → Prop) (base : assertion start)
    (preserved : ∀ s a t, assertion s → ok s a → M.step s a = some t → assertion t)
    {log : List Event} {s : State} (run : M.Reach ok start log s) : assertion s :=
  run.invariant (fun _ s => assertion s) base (fun _ s a t => preserved s a t)

theorem Reach.append {M : System State Action Event} {ok : State → Action → Prop}
    {start middle s : State} {log later : List Event} (first : M.Reach ok start log middle)
    (second : M.Reach ok middle later s) : M.Reach ok start (log ++ later) s := by
  induction second with
  | refl => rwa [List.append_nil]
  | tail a _ allowed stepped ih =>
    rw [← List.append_assoc]
    exact .tail a ih allowed stepped

/-- A run whose steps meet a condition meets every weaker one. -/
theorem Reach.mono {M : System State Action Event} {ok weaker : State → Action → Prop}
    (weakened : ∀ s a, ok s a → weaker s a) {start : State} {log : List Event} {s : State}
    (run : M.Reach ok start log s) : M.Reach weaker start log s := by
  induction run with
  | refl => exact .refl
  | tail a _ allowed stepped ih => exact .tail a ih (weakened _ a allowed) stepped

/-- If each step outside a stricter condition shows a bad event, the runs whose
log has none meet that condition. -/
theorem Reach.restrict {M : System State Action Event} {ok stricter : State → Action → Prop}
    (bad : Event → Prop) (shown : ∀ s a, ¬ stricter s a → ∃ e ∈ M.emit s a, bad e)
    {start : State} {log : List Event} {s : State} (run : M.Reach ok start log s)
    (clean : ∀ e ∈ log, ¬ bad e) : M.Reach stricter start log s := by
  induction run with
  | refl => exact .refl
  | @tail log s t a before allowed stepped ih =>
    have earlier := ih fun e inside => clean e (List.mem_append_left _ inside)
    refine .tail a earlier ?_ stepped
    refine Classical.byContradiction fun outside => ?_
    obtain ⟨e, emitted, isBad⟩ := shown s a outside
    exact clean e (List.mem_append_right _ emitted) isBad

/-- Execute a schedule, checking the step condition before each action. -/
def play (M : System State Action Event) (ok : State → Action → Prop)
    [∀ s a, Decidable (ok s a)] : List Event → State → List Action → Option (List Event × State)
  | log, s, [] => some (log, s)
  | log, s, a :: rest =>
    if ok s a then
      match M.step s a with
      | some t => play M ok (log ++ M.emit s a) t rest
      | none => none
    else none

theorem reach_of_play {M : System State Action Event} {ok : State → Action → Prop}
    [∀ s a, Decidable (ok s a)] {start : State} (schedule : List Action) {log : List Event}
    {s : State} {result : List Event × State} (run : M.Reach ok start log s)
    (played : M.play ok log s schedule = some result) :
    M.Reach ok start result.1 result.2 := by
  induction schedule generalizing log s with
  | nil =>
    simp only [play, Option.some.injEq] at played
    subst played
    exact run
  | cons a rest ih =>
    simp only [play] at played
    split at played
    · rename_i allowed
      split at played
      · rename_i t stepped
        exact ih (.tail a run allowed stepped) played
      · cases played
    · cases played

/-- A schedule whose execution ends in a state passing a test shows that such a
state is reachable. -/
theorem exists_reach (M : System State Action Event) (ok : State → Action → Prop)
    [∀ s a, Decidable (ok s a)] (start : State) (schedule : List Action)
    (test : List Event → State → Prop) [∀ log s, Decidable (test log s)]
    (passed : (M.play ok [] start schedule).any (fun r => decide (test r.1 r.2)) = true) :
    ∃ log s, M.Reach ok start log s ∧ test log s := by
  cases played : M.play ok [] start schedule with
  | none => simp [played] at passed
  | some result =>
    rw [played] at passed
    exact ⟨result.1, result.2, reach_of_play schedule .refl played, of_decide_eq_true passed⟩

/-- Every state that the schedule comes through exists and is good, given the
actions before it. -/
def Keeps (M : System State Action Event) (good : List Action → State → Prop) :
    List Action → State → List Action → Prop
  | past, s, [] => good past s
  | past, s, a :: rest =>
    good past s ∧ ∃ t, M.step s a = some t ∧ Keeps M good (past ++ [a]) t rest

/-- Every action of the schedule meets the condition in the state it is taken in. -/
def Meets (M : System State Action Event) (cond : State → Action → Prop) :
    State → List Action → Prop
  | _, [] => True
  | s, a :: rest => cond s a ∧ ∀ t, M.step s a = some t → Meets M cond t rest

theorem Meets.cons {M : System State Action Event} {cond : State → Action → Prop} {s t : State}
    {a : Action} {rest : List Action} (stepped : M.step s a = some t) (here : cond s a)
    (later : M.Meets cond t rest) : M.Meets cond s (a :: rest) := by
  refine ⟨here, fun t' again => ?_⟩
  cases stepped.symm.trans again
  exact later

theorem Keeps.good {M : System State Action Event} {good : List Action → State → Prop}
    {past : List Action} {s : State} {schedule : List Action}
    (keeps : M.Keeps good past s schedule) : good past s := by
  cases schedule with
  | nil => exact keeps
  | cons a rest => exact keeps.1

/-- If an invariant lasts as long as a condition on the actions is met, and the
first action that does not meet it leads to a bad state or to none, then the
schedules that come through good states only are those whose actions meet it. -/
theorem keeps_iff {M : System State Action Event} {good : List Action → State → Prop}
    {allowed cond : State → Action → Prop} (invariant : List Action → State → Prop)
    (sound : ∀ past s, invariant past s → good past s)
    (kept : ∀ past s a, invariant past s → allowed s a → cond s a →
      ∃ t, M.step s a = some t ∧ invariant (past ++ [a]) t)
    (broken : ∀ past s a t, invariant past s → allowed s a → ¬ cond s a →
      M.step s a = some t → ¬ good (past ++ [a]) t)
    {past : List Action} {s : State} {schedule : List Action} (holds : invariant past s)
    (valid : M.Meets allowed s schedule) :
    M.Keeps good past s schedule ↔ M.Meets cond s schedule := by
  induction schedule generalizing past s with
  | nil => exact iff_of_true (sound past s holds) trivial
  | cons a rest ih =>
    obtain ⟨isAllowed, later⟩ := valid
    constructor
    · rintro ⟨-, t, stepped, onward⟩
      have met : cond s a := Classical.byContradiction fun unmet =>
        broken past s a t holds isAllowed unmet stepped onward.good
      obtain ⟨t', stepped', holds'⟩ := kept past s a holds isAllowed met
      cases stepped'.symm.trans stepped
      refine ⟨met, fun t'' again => ?_⟩
      cases stepped.symm.trans again
      exact (ih holds' (later _ stepped)).mp onward
    · rintro ⟨met, onward⟩
      obtain ⟨t, stepped, holds'⟩ := kept past s a holds isAllowed met
      exact ⟨sound past s holds, t, stepped, (ih holds' (later t stepped)).mpr (onward t stepped)⟩

end System

end EltexCourse.Foundations.Transition
