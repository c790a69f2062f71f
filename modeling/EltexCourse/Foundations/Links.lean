import Mathlib.Logic.Function.Basic
import Mathlib.Data.List.Nodup

/-!
# Chains of links

Linked records in memory, seen through one pointer field: `link a` is what the
field of the record at `a` holds, `none` when no record is live there. A null
pointer is `none` as well, one level further in. `Path link p as q` says that
following the field from `p` visits the addresses `as` and then arrives at `q`.
-/

set_option autoImplicit false

namespace EltexCourse.Foundations.Links

variable {Addr : Type*}

/-- One of several things with different labels is taken out. -/
theorem nodup_middle {α : Type*} {f : α → Addr} {xs ys : List α} {e : α}
    (distinct : ((xs ++ e :: ys).map f).Nodup) :
    ((xs ++ ys).map f).Nodup ∧ ∀ x ∈ xs ++ ys, f x ≠ f e := by
  rw [List.map_append, List.map_cons, List.nodup_middle, List.nodup_cons,
    ← List.map_append] at distinct
  exact ⟨distinct.2, fun x inside same => distinct.1 (same ▸ List.mem_map_of_mem inside)⟩

def Path (link : Addr → Option (Option Addr)) (p : Option Addr) :
    List Addr → Option Addr → Prop
  | [], q => p = q
  | a :: as, q => p = some a ∧ ∃ p', link a = some p' ∧ Path link p' as q

variable {link link' : Addr → Option (Option Addr)} {p q m : Option Addr} {a b x : Addr}
  {as xs ys : List Addr}

@[simp] theorem path_nil : Path link p [] q ↔ p = q := Iff.rfl

theorem path_cons :
    Path link p (a :: as) q ↔ p = some a ∧ ∃ p', link a = some p' ∧ Path link p' as q := Iff.rfl

theorem path_append : Path link p (xs ++ ys) q ↔ ∃ m, Path link p xs m ∧ Path link m ys q := by
  induction xs generalizing p with
  | nil => simp
  | cons a xs ih =>
    simp only [List.cons_append, path_cons, ih]
    constructor
    · rintro ⟨rfl, p', at_a, m, front, back⟩
      exact ⟨m, ⟨rfl, p', at_a, front⟩, back⟩
    · rintro ⟨m, ⟨rfl, p', at_a, front⟩, back⟩
      exact ⟨rfl, p', at_a, m, front, back⟩

theorem path_snoc : Path link p (xs ++ [a]) q ↔ Path link p xs (some a) ∧ link a = some q := by
  rw [path_append]
  constructor
  · rintro ⟨_, front, rfl, _, at_a, rfl⟩
    exact ⟨front, at_a⟩
  · rintro ⟨front, at_a⟩
    exact ⟨_, front, rfl, _, at_a, rfl⟩

/-- Only the fields of the records visited matter. -/
theorem Path.frame (path : Path link p as q) (same : ∀ a ∈ as, link' a = link a) :
    Path link' p as q := by
  induction as generalizing p with
  | nil => exact path
  | cons a as ih =>
    obtain ⟨rfl, p', at_a, rest⟩ := path
    exact ⟨rfl, p', by rw [same a (by simp), at_a],
      ih rest fun b inside => same b (by simp [inside])⟩

theorem Path.start (path : Path link p (a :: as) q) : p = some a := path.1

theorem Path.exists_start (path : Path link p as q) (nonempty : as ≠ []) : ∃ a, p = some a := by
  obtain ⟨a, rest, rfl⟩ := List.exists_cons_of_ne_nil nonempty
  exact ⟨a, path.start⟩

/-- A path that begins with `xs` starts at one of these. -/
theorem Path.start_ne (path : Path link p (xs ++ ys) q) (nonempty : xs ≠ []) (outside : x ∉ xs) :
    p ≠ some x := by
  obtain ⟨a, as, rfl⟩ := List.exists_cons_of_ne_nil nonempty
  obtain rfl := path.start
  intro same
  cases same
  exact outside (by simp)

theorem Path.neighbours (path : Path link p (xs ++ a :: b :: ys) q) : link a = some (some b) := by
  obtain ⟨_, -, -, p', at_a, rest⟩ := path_append.mp path
  rw [at_a, rest.start]

/-- In a path that ends at a null pointer a record that leads somewhere leads to the next one. -/
theorem Path.behind (path : Path link p as none) (member : a ∈ as) (at_a : link a = some (some b)) :
    ∃ xs ys, as = xs ++ a :: b :: ys := by
  obtain ⟨xs, rest, rfl⟩ := List.append_of_mem member
  obtain ⟨_, -, -, p', at_a', onward⟩ := path_append.mp path
  cases at_a.symm.trans at_a'
  cases rest with
  | nil => cases onward
  | cons c ys =>
    cases onward.start
    exact ⟨xs, ys, rfl⟩

/-- A path up to a null pointer is given by where it starts. -/
theorem Path.unique {bs : List Addr} (path : Path link p as none) (other : Path link p bs none) :
    as = bs := by
  induction as generalizing p bs with
  | nil =>
    obtain rfl := path
    cases bs with
    | nil => rfl
    | cons b bs => cases other.start
  | cons a as ih =>
    obtain ⟨rfl, p', at_a, rest⟩ := path
    cases bs with
    | nil => cases other
    | cons b bs =>
      obtain ⟨same, p'', at_b, rest'⟩ := other
      cases same
      cases at_a.symm.trans at_b
      rw [ih rest rest']

/-- Two fields that lead through the same records in opposite directions are inverse there. -/
theorem Path.inverse {back : Addr → Option (Option Addr)} (path : Path link p as none)
    (reversed : Path back q as.reverse none) (left : a ∈ as) (right : b ∈ as) :
    link a = some (some b) ↔ back b = some (some a) := by
  constructor
  · intro at_a
    obtain ⟨xs, ys, rfl⟩ := path.behind left at_a
    simp only [List.reverse_append, List.reverse_cons, List.append_assoc, List.singleton_append]
      at reversed
    exact reversed.neighbours
  · intro at_b
    obtain ⟨xs, ys, same⟩ := reversed.behind (List.mem_reverse.mpr right) at_b
    obtain rfl := List.reverse_eq_iff.mp same
    simp only [List.reverse_append, List.reverse_cons, List.append_assoc, List.singleton_append]
      at path
    exact path.neighbours

variable [DecidableEq Addr]

/-- A write to a record that is not visited. -/
theorem Path.update (path : Path link p as q) (outside : b ∉ as) (value : Option (Option Addr)) :
    Path (Function.update link b value) p as q :=
  path.frame fun a inside =>
    Function.update_of_ne (fun (same : a = b) => outside (same ▸ inside)) _ _

/-- The last record visited is made to lead elsewhere. -/
theorem Path.redirect (path : Path link p (xs ++ [b]) q) (outside : b ∉ xs) (m : Option Addr) :
    Path (Function.update link b (some m)) p (xs ++ [b]) m :=
  path_snoc.mpr ⟨(path_snoc.mp path).1.update outside _, Function.update_self _ _ _⟩

/-- A record is taken out behind its predecessor `b`. -/
theorem Path.unlink (path : Path link p (xs ++ b :: x :: ys) q)
    (distinct : (xs ++ b :: x :: ys).Nodup)
    (at_x : link x = some m) : Path (Function.update link b (some m)) p (xs ++ b :: ys) q := by
  obtain ⟨_, front, rfl, p', at_b, rfl, m', at_x', back⟩ := path_append.mp path
  rw [at_x] at at_x'
  cases at_x'
  have apart := List.nodup_append.mp distinct
  have outside : b ∉ xs := fun inside => apart.2.2 b inside b (by simp) rfl
  have behind : b ∉ ys := fun inside => (List.nodup_cons.mp apart.2.1).1 (by simp [inside])
  exact path_append.mpr ⟨some b, front.update outside _, rfl, m, Function.update_self _ _ _,
    back.update behind _⟩

end EltexCourse.Foundations.Links
