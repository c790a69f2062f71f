import Mathlib.Data.List.Induction
import EltexCourse.Foundations.CString

/-!
# Absolute path names

A directory is the list of the names on the way to it from the root. It has one
canonical path name; every path name leads to a directory if ".." is taken to
undo the name before it, as it is without symbolic links.
-/

set_option autoImplicit false

namespace EltexCourse.Foundations.Pathnames
open CString

/-- The name of the directory above. -/
def dotDot : Text := ['.', '.']

/-- Where a name leads from a directory; the empty one and "." stay there. -/
def walk (directory : List Text) (name : Text) : List Text :=
  if name = dotDot then directory.dropLast
  else if name = [] ∨ name = ['.'] then directory
  else directory ++ [name]

/-- Each name with its slash. -/
def behindRoot (directory : List Text) : Text := directory.flatMap ('/' :: ·)

def canonical (directory : List Text) : Text :=
  if directory = [] then ['/'] else behindRoot directory

/-- Where an absolute path name leads. -/
def target (text : Text) : List Text := (text.splitOn '/').foldl walk []

/-- The canonical name of where a path name leads. -/
def resolve (text : Text) : Text := canonical (target text)

/-- The name of an entry, other than "." and "..". -/
structure Proper (name : Text) : Prop where
  nonempty : name ≠ []
  noSlash : '/' ∉ name
  notDot : name ≠ ['.']
  notDotDot : name ≠ dotDot

variable {directory other : List Text} {name suffix : Text}

theorem walk_dotDot (directory : List Text) : walk directory dotDot = directory.dropLast :=
  if_pos rfl

theorem walk_proper (proper : Proper name) : walk directory name = directory ++ [name] := by
  rw [walk, if_neg proper.notDotDot, if_neg (not_or.mpr ⟨proper.nonempty, proper.notDot⟩)]

/-- A name and then the way back. -/
theorem walk_back (proper : Proper name) : walk (walk directory name) dotDot = directory := by
  rw [walk_proper proper, walk_dotDot, List.dropLast_concat]

/-- A name with something behind it is still a name. -/
theorem Proper.append (proper : Proper name) (nonempty : suffix ≠ []) (noSlash : '/' ∉ suffix) :
    Proper (name ++ suffix) := by
  have front := List.length_pos_iff.mpr proper.nonempty
  have back := List.length_pos_iff.mpr nonempty
  constructor
  · exact List.append_ne_nil_of_left_ne_nil proper.nonempty suffix
  · rw [List.mem_append, not_or]
    exact ⟨proper.noSlash, noSlash⟩
  · intro dot
    have length := congrArg List.length dot
    rw [List.length_append, List.length_singleton] at length
    omega
  · intro dots
    have length := congrArg List.length dots
    rw [List.length_append, dotDot, List.length_cons, List.length_singleton] at length
    obtain ⟨c, rfl⟩ := List.length_eq_one_iff.mp (show name.length = 1 by omega)
    have same := (List.cons.inj dots).1
    exact proper.notDot (same ▸ rfl)

theorem behindRoot_append (directory other : List Text) :
    behindRoot (directory ++ other) = behindRoot directory ++ behindRoot other :=
  List.flatMap_append

/-- One directory more is one slash and its name more. -/
theorem behindRoot_concat (directory : List Text) (name : Text) :
    behindRoot (directory ++ [name]) = behindRoot directory ++ '/' :: name := by
  rw [behindRoot_append, behindRoot, behindRoot, List.flatMap_singleton]

/-- The text of a path with one name more is that of the path, a slash and the name, at
the root without a second slash. -/
theorem canonical_concat (directory : List Text) (name : Text) :
    canonical (directory ++ [name]) = behindRoot directory ++ '/' :: name := by
  rw [canonical, if_neg (List.concat_ne_nil _ _), behindRoot_concat]

/-- Every character of a path is a slash or one of a name in it. -/
theorem mem_canonical {c : Char} (inside : c ∈ canonical directory) :
    c = '/' ∨ ∃ name ∈ directory, c ∈ name := by
  unfold canonical at inside
  split at inside
  · exact Or.inl (List.mem_singleton.mp inside)
  · obtain ⟨name, listed, within⟩ := List.mem_flatMap.mp inside
    rcases List.mem_cons.mp within with slash | letter
    · exact Or.inl slash
    · exact Or.inr ⟨name, listed, letter⟩

/-- A text with a slash and a piece without one behind it leads where the piece leads
from there. -/
theorem target_slash (text : Text) (noSlash : '/' ∉ name) :
    target (text ++ '/' :: name) = walk (target text) name := by
  rw [target, List.splitOn_append_cons_self, List.splitOn_eq_singleton noSlash, List.foldl_append,
    List.foldl_cons, List.foldl_nil, target]

theorem target_behindRoot (proper : ∀ name ∈ directory, Proper name) :
    target (behindRoot directory) = directory := by
  induction directory using List.reverseRecOn with
  | nil => rfl
  | append_singleton directory name ih =>
    rw [List.forall_mem_append, List.forall_mem_singleton] at proper
    obtain ⟨earlier, last⟩ := proper
    rw [behindRoot_concat, target_slash _ last.noSlash, ih earlier, walk_proper last]

/-- The text of a path leads back to the path. -/
theorem target_canonical (proper : ∀ name ∈ directory, Proper name) :
    target (canonical directory) = directory := by
  unfold canonical
  split
  next root =>
    rw [root]
    rfl
  · exact target_behindRoot proper

/-- Different directories have different names. -/
theorem canonical_injective (proper : ∀ name ∈ directory, Proper name)
    (proper' : ∀ name ∈ other, Proper name) (same : canonical directory = canonical other) :
    directory = other := by
  rw [← target_canonical proper, same, target_canonical proper']

theorem mem_splitOn {piece text : Text} (listed : piece ∈ text.splitOn '/') {c : Char}
    (inside : c ∈ piece) : c ∈ text := by
  induction text generalizing piece with
  | nil =>
    rw [List.splitOn_nil, List.mem_singleton] at listed
    exact absurd (listed ▸ inside) List.not_mem_nil
  | cons d text ih =>
    rw [List.splitOn_cons_eq_if_modifyHead] at listed
    split at listed
    · rcases List.mem_cons.mp listed with empty | later
      · exact absurd (empty ▸ inside) List.not_mem_nil
      · exact List.mem_cons_of_mem d (ih later inside)
    · obtain ⟨first, rest, pieces⟩ := List.exists_cons_of_ne_nil (List.splitOn_ne_nil '/' text)
      rw [pieces] at listed ih
      rcases List.mem_cons.mp listed with head | later
      · rcases List.mem_cons.mp (head ▸ inside) with same | within
        · exact same ▸ List.mem_cons_self
        · exact List.mem_cons_of_mem d (ih List.mem_cons_self within)
      · exact List.mem_cons_of_mem d (ih (List.mem_cons_of_mem first later) inside)

theorem mem_walk {step : Text} (listed : name ∈ walk directory step) :
    name ∈ directory ∨ name = step := by
  unfold walk at listed
  split at listed
  · exact Or.inl (List.dropLast_subset _ listed)
  · split at listed
    · exact Or.inl listed
    · exact (List.mem_append.mp listed).imp_right List.mem_singleton.mp

theorem mem_foldl_walk {steps : List Text} (listed : name ∈ steps.foldl walk directory) :
    name ∈ directory ∨ name ∈ steps := by
  induction steps generalizing directory with
  | nil => exact Or.inl listed
  | cons step steps ih =>
    rcases ih listed with early | late
    · rcases mem_walk early with already | rfl
      · exact Or.inl already
      · exact Or.inr List.mem_cons_self
    · exact Or.inr (List.mem_cons_of_mem step late)

theorem mem_resolve {text : Text} {c : Char} (inside : c ∈ resolve text) : c = '/' ∨ c ∈ text := by
  refine (mem_canonical inside).imp_right fun ⟨name, listed, within⟩ => ?_
  rcases mem_foldl_walk listed with nowhere | piece
  · exact absurd nowhere List.not_mem_nil
  · exact mem_splitOn piece within

end EltexCourse.Foundations.Pathnames
