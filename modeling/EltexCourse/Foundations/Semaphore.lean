import Mathlib.Logic.Function.Basic

/-!
# A binary semaphore and who holds it

A counting semaphore with one permit, seen from its parties: `holds i` says that
party `i` is past its wait and before its post. How many parties there are does
not matter. The second part is about a family of semaphores, of which a party
holds at most one at a time.
-/

set_option autoImplicit false

namespace EltexCourse.Foundations.Semaphore

variable {ι : Type*} {permits : Nat} {holds holds' : ι → Prop} {i j : ι}

/-- The permit is there, or one party has it. -/
inductive Exclusive (permits : Nat) (holds : ι → Prop) : Prop where
  | free (one : permits = 1) (nobody : ∀ i, ¬ holds i)
  | held (zero : permits = 0) (holder : ι) (inside : holds holder)
      (alone : ∀ i, holds i → i = holder)

theorem Exclusive.unique (exclusive : Exclusive permits holds) (one : holds i) (other : holds j) :
    i = j := by
  cases exclusive with
  | free _ nobody => exact absurd one (nobody i)
  | held _ holder _ alone => rw [alone i one, alone j other]

theorem Exclusive.nobody (exclusive : Exclusive permits holds) (free : 0 < permits) (i : ι) :
    ¬ holds i := by
  cases exclusive with
  | free _ nobody => exact nobody i
  | held zero => omega

theorem Exclusive.congr (exclusive : Exclusive permits holds) (same : ∀ j, holds' j ↔ holds j) :
    Exclusive permits holds' := by
  have equal : holds' = holds := funext fun j => propext (same j)
  exact equal ▸ exclusive

/-- A wait that does not block. -/
theorem Exclusive.acquire (exclusive : Exclusive permits holds) (free : 0 < permits)
    (takes : holds' i) (others : ∀ j, j ≠ i → (holds' j ↔ holds j)) :
    Exclusive (permits - 1) holds' := by
  have nobody := exclusive.nobody free
  cases exclusive with
  | free one =>
    refine .held (by omega) i takes fun j inside => Classical.byContradiction fun other => ?_
    exact nobody j ((others j other).mp inside)
  | held zero => omega

/-- A post by the holder. -/
theorem Exclusive.release (exclusive : Exclusive permits holds) (had : holds i)
    (gives : ¬ holds' i) (others : ∀ j, j ≠ i → (holds' j ↔ holds j)) :
    Exclusive (permits + 1) holds' := by
  cases exclusive with
  | free _ nobody => exact absurd had (nobody i)
  | held zero holder _ alone =>
    refine .free (by omega) fun j inside => ?_
    by_cases own : j = i
    · exact gives (own ▸ inside)
    · have same : j = holder := alone j ((others j own).mp inside)
      exact own (same.trans (alone i had).symm)

section Family

variable {κ : Type*} [DecidableEq κ] {permits permits' : κ → Nat} {before after : κ → Prop}
  {holds holds' : κ → ι → Prop} {i : ι}

/-- What a step of a party that holds `before` and then `after` does to them. -/
inductive Turn (permits permits' : κ → Nat) (before after : κ → Prop) : Prop where
  | keeps (unchanged : permits' = permits) (same : ∀ k, after k ↔ before k)
  | acquires (k : κ) (free : 0 < permits k)
      (taken : permits' = Function.update permits k (permits k - 1))
      (outside : ∀ l, ¬ before l) (inside : ∀ l, after l ↔ l = k)
  | releases (k : κ) (given : permits' = Function.update permits k (permits k + 1))
      (inside : ∀ l, before l ↔ l = k) (outside : ∀ l, ¬ after l)

/-- A turn of one party keeps all the semaphores right, if nobody else changes what it
holds. -/
theorem Turn.exclusive (turn : Turn permits permits' (fun k => holds k i) (fun k => holds' k i))
    (others : ∀ j, j ≠ i → ∀ k, holds' k j ↔ holds k j)
    (exclusive : ∀ k, Exclusive (permits k) (holds k)) (k : κ) :
    Exclusive (permits' k) (holds' k) := by
  cases turn with
  | keeps unchanged same =>
    rw [unchanged]
    apply (exclusive k).congr
    intro j
    by_cases own : j = i
    · exact own ▸ same k
    · exact others j own k
  | acquires l free taken outside inside =>
    rw [taken]
    by_cases this : k = l
    · subst this
      rw [Function.update_self]
      exact (exclusive k).acquire free ((inside k).mpr rfl) fun j other => others j other k
    · rw [Function.update_of_ne this]
      apply (exclusive k).congr
      intro j
      by_cases own : j = i
      · subst own
        exact ⟨fun holding => absurd ((inside k).mp holding) this,
          fun held => absurd held (outside k)⟩
      · exact others j own k
  | releases l given inside outside =>
    rw [given]
    by_cases this : k = l
    · subst this
      rw [Function.update_self]
      exact (exclusive k).release ((inside k).mpr rfl) (outside k) fun j other => others j other k
    · rw [Function.update_of_ne this]
      apply (exclusive k).congr
      intro j
      by_cases own : j = i
      · subst own
        exact ⟨fun holding => absurd holding (outside k),
          fun held => absurd ((inside k).mp held) this⟩
      · exact others j own k

end Family

end EltexCourse.Foundations.Semaphore
