import Mathlib.Data.List.Nodup

/-!
# Who has to free which block

The live blocks of a heap, each with one owner. An owner takes a block that was
not live, frees one of its own, or hands all it has to somebody who has nothing.
There may be any number of owners.
-/

set_option autoImplicit false

namespace EltexCourse.Foundations.Ownership

variable {κ : Type*}

structure Owned (live : Nat → Prop) (blocks : κ → List Nat) : Prop where
  isLive : ∀ k a, a ∈ blocks k → live a
  owner : ∀ a, live a → ∃ k, a ∈ blocks k
  apart : ∀ k l a, a ∈ blocks k → a ∈ blocks l → k = l
  nodup : ∀ k, (blocks k).Nodup

variable {live live' : Nat → Prop} {blocks blocks' : κ → List Nat} {k l : κ} {a : Nat}

namespace Owned

theorem start (nothing : ∀ a, ¬ live a) (none : ∀ k, blocks k = []) : Owned live blocks := by
  refine ⟨fun k a inside => ?_, fun a here => absurd here (nothing a), fun k l a inside => ?_,
    fun k => ?_⟩
  · rw [none k] at inside
    cases inside
  · rw [none k] at inside
    cases inside
  · rw [none k]
    exact List.nodup_nil

theorem congr (owned : Owned live blocks) (lives : ∀ a, live' a ↔ live a)
    (same : ∀ k, blocks' k = blocks k) : Owned live' blocks' := by
  obtain rfl : blocks' = blocks := funext same
  obtain rfl : live' = live := funext fun a => propext (lives a)
  exact owned

theorem fresh (owned : Owned live blocks) (free : ¬ live a) (k : κ) : a ∉ blocks k :=
  fun inside => free (owned.isLive k a inside)

/-- `malloc`. -/
theorem take (owned : Owned live blocks) (free : ¬ live a)
    (lives : ∀ b, live' b ↔ live b ∨ b = a) (takes : blocks' k = blocks k ++ [a])
    (others : ∀ l, l ≠ k → blocks' l = blocks l) : Owned live' blocks' := by
  have member (l : κ) (b : Nat) : b ∈ blocks' l ↔ b ∈ blocks l ∨ l = k ∧ b = a := by
    by_cases own : l = k
    · subst own
      simp [takes]
    · rw [others l own]
      simp [own]
  refine ⟨fun l b inside => ?_, fun b here => ?_, fun l m b one other => ?_, fun l => ?_⟩
  · rcases (member l b).mp inside with old | ⟨-, new⟩
    · exact (lives b).mpr (Or.inl (owned.isLive l b old))
    · exact (lives b).mpr (Or.inr new)
  · rcases (lives b).mp here with old | new
    · obtain ⟨l, inside⟩ := owned.owner b old
      exact ⟨l, (member l b).mpr (Or.inl inside)⟩
    · exact ⟨k, (member k b).mpr (Or.inr ⟨rfl, new⟩)⟩
  · rcases (member l b).mp one with old | ⟨first, new⟩ <;>
      rcases (member m b).mp other with old' | ⟨second, new'⟩
    · exact owned.apart l m b old old'
    · exact absurd (new' ▸ old) (owned.fresh free l)
    · exact absurd (new ▸ old') (owned.fresh free m)
    · rw [first, second]
  · by_cases own : l = k
    · subst own
      rw [takes]
      refine List.nodup_append.mpr ⟨owned.nodup l, List.nodup_singleton a,
        fun b old c new same => ?_⟩
      exact owned.fresh free l (List.mem_singleton.mp new ▸ same ▸ old)
    · rw [others l own]
      exact owned.nodup l

/-- `free`. -/
theorem release (owned : Owned live blocks) (lives : ∀ b, live' b ↔ live b ∧ b ≠ a)
    (gives : (blocks k).Perm (a :: blocks' k)) (others : ∀ l, l ≠ k → blocks' l = blocks l) :
    Owned live' blocks' := by
  have nodup := gives.nodup_iff.mp (owned.nodup k)
  rw [List.nodup_cons] at nodup
  have mine : a ∈ blocks k := gives.mem_iff.mpr List.mem_cons_self
  have member (l : κ) (b : Nat) : b ∈ blocks' l ↔ b ∈ blocks l ∧ b ≠ a := by
    by_cases own : l = k
    · subst own
      rw [gives.mem_iff, List.mem_cons]
      constructor
      · exact fun inside => ⟨Or.inr inside, fun same => nodup.1 (same ▸ inside)⟩
      · exact fun both => both.1.resolve_left both.2
    · rw [others l own]
      exact ⟨fun inside => ⟨inside, fun same => own (owned.apart l k a (same ▸ inside) mine)⟩,
        fun both => both.1⟩
  refine ⟨fun l b inside => ?_, fun b here => ?_, fun l m b one other => ?_, fun l => ?_⟩
  · obtain ⟨old, other⟩ := (member l b).mp inside
    exact (lives b).mpr ⟨owned.isLive l b old, other⟩
  · obtain ⟨old, other⟩ := (lives b).mp here
    obtain ⟨l, inside⟩ := owned.owner b old
    exact ⟨l, (member l b).mpr ⟨inside, other⟩⟩
  · exact owned.apart l m b ((member l b).mp one).1 ((member m b).mp other).1
  · by_cases own : l = k
    · exact own ▸ nodup.2
    · rw [others l own]
      exact owned.nodup l

/-- What `k` has goes to `l`. -/
theorem handOver (owned : Owned live blocks) (different : l ≠ k) (empty : blocks l = [])
    (gives : blocks' k = []) (receives : blocks' l = blocks k)
    (others : ∀ m, m ≠ k → m ≠ l → blocks' m = blocks m) : Owned live blocks' := by
  -- Each has what its source had, and no two have the same source.
  have source (m : κ) : blocks' m = [] ∨
      ∃ n, blocks' m = blocks n ∧ ((m = l ∧ n = k) ∨ (m ≠ k ∧ m ≠ l ∧ n = m)) := by
    by_cases first : m = k
    · exact Or.inl (first ▸ gives)
    · by_cases second : m = l
      · exact Or.inr ⟨k, second ▸ receives, Or.inl ⟨second, rfl⟩⟩
      · exact Or.inr ⟨m, others m first second, Or.inr ⟨first, second, rfl⟩⟩
  refine ⟨fun m a inside => ?_, fun a here => ?_, fun m n a one other => ?_, fun m => ?_⟩
  · rcases source m with none | ⟨n, same, -⟩
    · rw [none] at inside
      cases inside
    · exact owned.isLive n a (same ▸ inside)
  · obtain ⟨m, inside⟩ := owned.owner a here
    by_cases first : m = k
    · exact ⟨l, by rw [receives, ← first]; exact inside⟩
    · refine ⟨m, ?_⟩
      rw [others m first fun same => ?_]
      · exact inside
      · rw [same, empty] at inside
        cases inside
  · rcases source m with none | ⟨m', same, place⟩
    · rw [none] at one
      cases one
    · rcases source n with none | ⟨n', same', place'⟩
      · rw [none] at other
        cases other
      · have equal := owned.apart m' n' a (same ▸ one) (same' ▸ other)
        rcases place with ⟨rfl, rfl⟩ | ⟨notK, notL, rfl⟩ <;>
          rcases place' with ⟨rfl, rfl⟩ | ⟨notK', notL', rfl⟩
        · rfl
        · exact absurd equal.symm notK'
        · exact absurd equal notK
        · exact equal
  · rcases source m with none | ⟨n, same, -⟩
    · rw [none]
      exact List.nodup_nil
    · rw [same]
      exact owned.nodup n

end Owned

end EltexCourse.Foundations.Ownership
