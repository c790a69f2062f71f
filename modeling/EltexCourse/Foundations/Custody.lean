import Mathlib.Algebra.BigOperators.Group.Finset.Basic
import Mathlib.Data.Fintype.BigOperators
import Mathlib.Data.List.Perm.Basic

/-!
# Who has an item that was issued and is not settled

Items are issued once, pass from one keeper to another, and are settled. Each
keeper has a list; an item issued is settled or with exactly one keeper, because
the numbers of its occurrences add up.
-/

set_option autoImplicit false

namespace EltexCourse.Foundations.Custody

variable {α κ : Type*} [DecidableEq α] [Fintype κ]

/-- What a change at one index does to a sum. -/
theorem sum_change {κ M : Type*} [Fintype κ] [DecidableEq κ] [AddCommMonoid M] (f f' : κ → M)
    (k : κ) (others : ∀ l, l ≠ k → f' l = f l) : ∑ l, f' l + f k = ∑ l, f l + f' k := by
  have rest : ∑ l ∈ Finset.univ.erase k, f' l = ∑ l ∈ Finset.univ.erase k, f l :=
    Finset.sum_congr rfl fun l inside => others l (Finset.ne_of_mem_erase inside)
  calc ∑ l, f' l + f k = f' k + ∑ l ∈ Finset.univ.erase k, f l + f k := by
        rw [← Finset.add_sum_erase Finset.univ f' (Finset.mem_univ k), rest]
    _ = f k + ∑ l ∈ Finset.univ.erase k, f l + f' k := by ac_rfl
    _ = ∑ l, f l + f' k := by rw [Finset.add_sum_erase Finset.univ f (Finset.mem_univ k)]

/-- Every item that was issued has been settled or is kept, once. -/
structure Balanced (issued settled : List α) (kept : κ → List α) : Prop where
  distinct : issued.Nodup
  balance : ∀ x, issued.count x = settled.count x + ∑ k, (kept k).count x

variable {issued settled : List α} {kept kept' : κ → List α} {k l : κ} {x : α}

namespace Balanced

theorem settled_nodup (custody : Balanced issued settled kept) : settled.Nodup := by
  apply List.nodup_iff_count_le_one.mpr
  intro x
  have once := List.nodup_iff_count_le_one.mp custody.distinct x
  have balance := custody.balance x
  omega

theorem settled_subset (custody : Balanced issued settled kept) (done : x ∈ settled) :
    x ∈ issued := by
  have balance := custody.balance x
  have positive := List.count_pos_iff.mpr done
  apply List.count_pos_iff.mp
  omega

/-- When nobody keeps anything, everything is settled. -/
theorem settled_perm (custody : Balanced issued settled kept) (empty : ∀ k, kept k = []) :
    settled.Perm issued := by
  apply List.perm_iff_count.mpr
  intro x
  rw [custody.balance x]
  simp [empty]

theorem start : Balanced ([] : List α) [] fun _ : κ => [] := by
  constructor
  · exact List.nodup_nil
  · intro x
    simp

/-- The keepers may be described in another way. -/
theorem congr (custody : Balanced issued settled kept) (same : ∀ k, kept' k = kept k) :
    Balanced issued settled kept' :=
  (funext same : kept' = kept) ▸ custody

variable [DecidableEq κ]

theorem issue (custody : Balanced issued settled kept) (k : κ) (fresh : x ∉ issued)
    (receives : kept' k = kept k ++ [x]) (others : ∀ l, l ≠ k → kept' l = kept l) :
    Balanced (issued ++ [x]) settled kept' := by
  constructor
  · exact List.nodup_append.mpr ⟨custody.distinct, List.nodup_singleton x, fun y old z new same =>
      fresh (List.mem_singleton.mp new ▸ same ▸ old)⟩
  · intro y
    have balance := custody.balance y
    have sum := sum_change (fun l => (kept l).count y) (fun l => (kept' l).count y) k
      fun l other => congrArg _ (others l other)
    simp only [receives, List.count_append] at sum ⊢
    omega

theorem settle (custody : Balanced issued settled kept) (k : κ) (gives : kept k = x :: kept' k)
    (others : ∀ l, l ≠ k → kept' l = kept l) : Balanced issued (settled ++ [x]) kept' := by
  refine ⟨custody.distinct, fun y => ?_⟩
  have balance := custody.balance y
  have sum := sum_change (fun l => (kept l).count y) (fun l => (kept' l).count y) k
    fun l other => congrArg _ (others l other)
  have item : (x :: kept' k).count y = (kept' k).count y + [x].count y := by
    rw [← List.singleton_append, List.count_append, Nat.add_comm]
  simp only [gives, item] at sum
  rw [List.count_append]
  omega

/-- Any number of items go from `k` to `l` at once. -/
theorem handOver (custody : Balanced issued settled kept) (k l : κ) (different : l ≠ k)
    {xs : List α} (gives : kept k = xs ++ kept' k) (receives : kept' l = kept l ++ xs)
    (others : ∀ m, m ≠ k → m ≠ l → kept' m = kept m) : Balanced issued settled kept' := by
  refine ⟨custody.distinct, fun y => ?_⟩
  have balance := custody.balance y
  -- In between `k` has given and `l` has not received.
  have given := sum_change (fun m => (kept m).count y)
    (fun m => (Function.update kept' l (kept l) m).count y) k (by
      intro m other
      by_cases last : m = l
      · rw [last, Function.update_self]
      · rw [Function.update_of_ne last, others m other last])
  have received := sum_change (fun m => (Function.update kept' l (kept l) m).count y)
    (fun m => (kept' m).count y) l fun m other => by rw [Function.update_of_ne other]
  rw [Function.update_of_ne different.symm, gives, List.count_append] at given
  rw [Function.update_self, receives, List.count_append] at received
  omega

/-- One holder hands the first thing it holds to another one. -/
theorem pass (custody : Balanced issued settled kept) (k l : κ) (different : l ≠ k)
    (gives : kept k = x :: kept' k) (receives : kept' l = kept l ++ [x])
    (others : ∀ m, m ≠ k → m ≠ l → kept' m = kept m) : Balanced issued settled kept' :=
  custody.handOver k l different (gives.trans List.singleton_append.symm) receives others

end Balanced

end EltexCourse.Foundations.Custody
