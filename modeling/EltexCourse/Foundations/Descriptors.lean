import Mathlib.Logic.Function.Basic
import Mathlib.Data.List.Basic

/-!
# Descriptor tables

The open descriptors of one process, as POSIX keeps them: finitely many numbers,
each with the open file it refers to. `pipe` takes the two lowest free numbers,
`dup2` makes its second argument another name for the first one's file, and
`close` of a number that is not open changes nothing.
-/

set_option autoImplicit false

namespace EltexCourse.Foundations.Descriptors

structure Table (File : Type*) where
  file : Nat → Option File
  bound : Nat
  closed : ∀ fd, bound ≤ fd → file fd = none

variable {File : Type*}

namespace Table

def empty : Table File := ⟨fun _ => none, 0, fun _ _ => rfl⟩

theorem map_closed {File' : Type*} (f : File → File') (t : Table File) (fd : Nat)
    (beyond : t.bound ≤ fd) : (t.file fd).map f = none := by
  rw [t.closed fd beyond, Option.map_none]

def map {File' : Type*} (f : File → File') (t : Table File) : Table File' :=
  ⟨fun fd => (t.file fd).map f, t.bound, map_closed f t⟩

def lowestFree (t : Table File) : Nat :=
  ((List.range t.bound).find? fun fd => (t.file fd).isNone).getD t.bound

/-- The lowest free descriptor is free. -/
theorem file_lowestFree (t : Table File) : t.file t.lowestFree = none := by
  unfold lowestFree
  cases found : (List.range t.bound).find? fun fd => (t.file fd).isNone with
  | none => exact t.closed _ (Nat.le_refl _)
  | some fd =>
    have free : (t.file fd).isNone = true := by simpa using List.find?_some found
    exact Option.isNone_iff_eq_none.mp free

theorem lowestFree_le {t : Table File} {fd : Nat} (free : t.file fd = none) :
    t.lowestFree ≤ fd := by
  unfold lowestFree
  cases found : (List.range t.bound).find? fun fd => (t.file fd).isNone with
  | none =>
    have taken := List.find?_eq_none.mp found
    refine Nat.le_of_not_lt fun below => taken fd (List.mem_range.mpr below) ?_
    simp [free]
  | some first =>
    obtain ⟨-, -, least⟩ := List.find?_range_eq_some.mp found
    refine Nat.le_of_not_lt fun below => ?_
    simpa [free] using least fd below

/-- The next number, when those below it are in use and no others. -/
theorem lowestFree_eq {t : Table File} {n : Nat}
    (dense : ∀ fd, (t.file fd).isSome = true ↔ fd < n) :
    t.lowestFree = n := by
  have free (fd : Nat) (beyond : n ≤ fd) : t.file fd = none := by
    rw [← Option.not_isSome_iff_eq_none, dense]
    exact Nat.not_lt_of_le beyond
  refine Nat.le_antisymm (lowestFree_le (free n (Nat.le_refl n))) (Nat.le_of_not_lt fun below => ?_)
  have used := (dense _).mpr below
  rw [t.file_lowestFree] at used
  cases used

theorem put_closed (t : Table File) (fd : Nat) (f : File) (other : Nat)
    (beyond : max t.bound (fd + 1) ≤ other) :
    Function.update t.file fd (some f) other = none := by
  rw [Function.update_of_ne (by omega)]
  exact t.closed other (by omega)

/-- `fd` refers to `f` from now on, whatever it referred to before. -/
def put (t : Table File) (fd : Nat) (f : File) : Table File :=
  ⟨Function.update t.file fd (some f), max t.bound (fd + 1), t.put_closed fd f⟩

@[simp] theorem file_put (t : Table File) (fd : Nat) (f : File) :
    (t.put fd f).file = Function.update t.file fd (some f) := rfl

/-- Whether some number refers to the file. -/
def has [DecidableEq File] (t : Table File) (f : File) : Bool :=
  (List.range t.bound).any fun fd =>
    match t.file fd with
    | some g => decide (g = f)
    | none => false

/-- A file is held when some descriptor refers to it. -/
theorem has_iff [DecidableEq File] (t : Table File) (f : File) :
    t.has f = true ↔ ∃ fd, t.file fd = some f := by
  unfold has
  rw [List.any_eq_true]
  constructor
  · rintro ⟨fd, -, refers⟩
    cases at_fd : t.file fd with
    | none => simp [at_fd] at refers
    | some g =>
      obtain rfl : g = f := by simpa [at_fd] using refers
      exact ⟨fd, at_fd⟩
  · rintro ⟨fd, at_fd⟩
    refine ⟨fd, List.mem_range.mpr (Nat.lt_of_not_le fun beyond => ?_), by simp [at_fd]⟩
    rw [t.closed fd beyond] at at_fd
    cases at_fd

/-- The two ends get the two lowest free descriptors, the read end the first. -/
def pipe (t : Table File) (readEnd writeEnd : File) : (Nat × Nat) × Table File :=
  let read := t.lowestFree
  let opened := t.put read readEnd
  let write := opened.lowestFree
  ((read, write), opened.put write writeEnd)

/-- `pipe` opens two descriptors that were free, for the two ends, and changes no other.
-/
theorem pipe_spec {t t' : Table File} {readEnd writeEnd : File} {fds : Nat × Nat}
    (made : t.pipe readEnd writeEnd = (fds, t')) :
    t.file fds.1 = none ∧ t.file fds.2 = none ∧ t'.file fds.1 = some readEnd ∧
      t'.file fds.2 = some writeEnd ∧
      ∀ fd, fd ≠ fds.1 → fd ≠ fds.2 → t'.file fd = t.file fd := by
  obtain ⟨rfl, rfl⟩ := Prod.mk.inj made
  have readFree := t.file_lowestFree
  have writeFree := (t.put t.lowestFree readEnd).file_lowestFree
  have apart : (t.put t.lowestFree readEnd).lowestFree ≠ t.lowestFree := by
    intro same
    rw [same, file_put, Function.update_self] at writeFree
    cases writeFree
  refine ⟨readFree, ?_, ?_, ?_, ?_⟩
  · rwa [file_put, Function.update_of_ne apart] at writeFree
  · rw [file_put, Function.update_of_ne apart.symm, file_put, Function.update_self]
  · rw [file_put, Function.update_self]
  · intro fd notRead notWrite
    rw [file_put, Function.update_of_ne notWrite, file_put, Function.update_of_ne notRead]

/-- Of a descriptor that is not open, `dup2` makes nothing. -/
def dup2 (t : Table File) (old new : Nat) : Table File :=
  match t.file old with
  | none => t
  | some f => t.put new f

/-- `dup2` makes the new descriptor refer to the file of the old one and leaves all
others. -/
theorem file_dup2 {t : Table File} {old : Nat} {f : File} (isOpen : t.file old = some f)
    (new : Nat) : (t.dup2 old new).file = Function.update t.file new (some f) := by
  simp [dup2, isOpen]

theorem close_closed (t : Table File) (fd other : Nat) (beyond : t.bound ≤ other) :
    Function.update t.file fd none other = none := by
  by_cases same : other = fd
  · rw [same, Function.update_self]
  · rw [Function.update_of_ne same, t.closed other beyond]

def close (t : Table File) (fd : Nat) : Table File :=
  ⟨Function.update t.file fd none, t.bound, t.close_closed fd⟩

@[simp] theorem file_close (t : Table File) (fd : Nat) :
    (t.close fd).file = Function.update t.file fd none := rfl

/-- The ends of many pipes, one after the other. -/
def closePairs (pairs : List (Nat × Nat)) (t : Table File) : Table File :=
  pairs.foldl (fun t fds => (t.close fds.1).close fds.2) t

/-- The number stands in one of the pairs. -/
def Among (pairs : List (Nat × Nat)) (fd : Nat) : Prop :=
  ∃ fds ∈ pairs, fd = fds.1 ∨ fd = fds.2

theorem among_append (pairs : List (Nat × Nat)) (new : Nat × Nat) (fd : Nat) :
    Among (pairs ++ [new]) fd ↔ Among pairs fd ∨ fd = new.1 ∨ fd = new.2 := by
  simp [Among, or_and_right, exists_or]

theorem among_cons (first : Nat × Nat) (rest : List (Nat × Nat)) (fd : Nat) :
    Among (first :: rest) fd ↔ (fd = first.1 ∨ fd = first.2) ∨ Among rest fd := by
  simp [Among]

/-- Both descriptors of a pipe in the list are in it. -/
theorem among_at {pairs : List (Nat × Nat)} {k : Nat} {fds : Nat × Nat}
    (at_k : pairs[k]? = some fds) : Among pairs fds.1 ∧ Among pairs fds.2 :=
  have inside := List.mem_of_getElem? at_k
  ⟨⟨fds, inside, Or.inl rfl⟩, ⟨fds, inside, Or.inr rfl⟩⟩

theorem ne_of_not_among {pairs : List (Nat × Nat)} {k fd : Nat} {fds : Nat × Nat}
    (other : ¬ Among pairs fd) (at_k : pairs[k]? = some fds) : fd ≠ fds.1 ∧ fd ≠ fds.2 :=
  ⟨fun same => other (same ▸ (among_at at_k).1), fun same => other (same ▸ (among_at at_k).2)⟩

/-- A descriptor that is in none of the pairs is not closed. -/
theorem file_closePairs_of_not {pairs : List (Nat × Nat)} {fd : Nat} (other : ¬ Among pairs fd)
    (t : Table File) : (closePairs pairs t).file fd = t.file fd := by
  induction pairs generalizing t with
  | nil => rfl
  | cons first rest ih =>
    rw [among_cons, not_or, not_or] at other
    obtain ⟨⟨notRead, notWrite⟩, later⟩ := other
    refine (ih later _).trans ?_
    rw [file_close, Function.update_of_ne notWrite, file_close, Function.update_of_ne notRead]

/-- Closing a number twice, or one that is not open, does no harm. -/
theorem file_closePairs {pairs : List (Nat × Nat)} {fd : Nat} (t : Table File)
    (closes : Among pairs fd ∨ t.file fd = none) : (closePairs pairs t).file fd = none := by
  induction pairs generalizing t with
  | nil => exact closes.resolve_left fun ⟨_, inside, _⟩ => absurd inside List.not_mem_nil
  | cons first rest ih =>
    refine ih _ ?_
    rw [among_cons] at closes
    simp only [file_close, Function.update_apply]
    grind

end Table

end EltexCourse.Foundations.Descriptors
