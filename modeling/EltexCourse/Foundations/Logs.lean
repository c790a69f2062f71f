import Mathlib.Data.List.Basic
import Mathlib.Data.List.TakeWhile

/-!
# What a log says of its entries

A log grows at its end. `EachEntry P log` says that `P` holds of every entry
together with the entries before it; `sinceLast` counts the entries of one kind
since the last one of another.
-/

set_option autoImplicit false

namespace EltexCourse.Foundations.Logs

variable {α : Type*} {P : List α → α → Prop} {log : List α} {e : α}

def EachEntry (P : List α → α → Prop) (log : List α) : Prop :=
  ∀ before e after, log = before ++ e :: after → P before e

theorem eachEntry_nil : EachEntry P [] := fun before e after split => by simp at split

/-- A new entry has to be right by what was logged before it. -/
theorem EachEntry.append (each : EachEntry P log) (new : P log e) : EachEntry P (log ++ [e]) := by
  intro before other after split
  rcases List.eq_nil_or_concat' after with rfl | ⟨between, last, rfl⟩
  · obtain ⟨rfl, same⟩ := List.append_inj' split rfl
    exact List.singleton_inj.mp same ▸ new
  · rw [← List.cons_append, ← List.append_assoc] at split
    exact each _ _ _ (List.append_inj' split rfl).1

theorem EachEntry.of_append {more : List α} (each : EachEntry P (log ++ more)) :
    EachEntry P log := by
  intro before other after split
  exact each before other (after ++ more) (by rw [split, List.append_assoc, List.cons_append])

/-- The last entry as an instance. -/
theorem EachEntry.last (each : EachEntry P (log ++ [e])) : P log e := each log e [] rfl

/-- The entries that count since the last one that resets. -/
def sinceLast (resets counts : α → Bool) (log : List α) : Nat :=
  (log.reverse.takeWhile fun e => !resets e).countP counts

variable {resets counts : α → Bool}

theorem sinceLast_append : sinceLast resets counts (log ++ [e]) =
    if resets e then 0
    else if counts e then sinceLast resets counts log + 1 else sinceLast resets counts log := by
  rw [sinceLast, List.reverse_append, List.reverse_singleton, List.singleton_append]
  by_cases reset : resets e = true
  · rw [List.takeWhile_cons_of_neg (by simp [reset]), if_pos reset]
    rfl
  · rw [List.takeWhile_cons_of_pos (by simp [reset]), List.countP_cons, if_neg reset]
    split <;> rfl

/-- There are no more such entries since the last reset than in the whole log. -/
theorem sinceLast_le : sinceLast resets counts log ≤ log.countP counts := by
  rw [← List.countP_reverse]
  exact (List.takeWhile_sublist _).countP_le

end EltexCourse.Foundations.Logs
