import EltexCourse.Guarantees.Abonents.Linked

/-!
# task6: the two ends of the linked directory

The removal of the head moves `head` only. When the head is the tail as well
this leaves `tail` at the freed cell, and nothing else does.
-/

set_option autoImplicit false

namespace EltexCourse.Guarantees.Abonents.Ends
open Foundations.Transition Foundations.Links Source.Abonents.Linked Linked

variable {Addr : Type} {dir dir' : Directory Addr} {es : List (Entry Addr)}

/-- From `head` along `next` the cells `cs`, all live, and then NULL; the last of
them is `tail`, and `prev` leads back. -/
structure Chain (dir : Directory Addr) (cs : List Addr) : Prop where
  nonempty : cs ≠ []
  forward : Path (nextOf dir.heap) dir.head cs none
  tail : dir.tail = cs.getLast?
  front : ∀ a, dir.head = some a → prevOf dir.heap a = some none
  inverse : ∀ a ∈ cs, ∀ b ∈ cs,
    nextOf dir.heap a = some (some b) ↔ prevOf dir.heap b = some (some a)
  capacity : dir.capacity = cs.length

def WellLinked (dir : Directory Addr) : Prop :=
  (dir.head = none ∧ dir.tail = none ∧ dir.capacity = 0) ∨ ∃ cs, Chain dir cs

/-- A cell is added below 100 entries at fresh addresses, or one of the list removed. -/
def Valid (dir : Directory Addr) : CellCall Addr → Prop
  | .add _ record cell => dir.capacity < 100 ∧ dir.heap record = none ∧ dir.heap cell = none ∧
      record ≠ cell
  | .remove cell => ∃ cs, Path (nextOf dir.heap) dir.head cs none ∧ cell ∈ cs

/-- The only cell is not removed. -/
def LeavesOne (dir : Directory Addr) : CellCall Addr → Prop
  | .add _ _ _ => True
  | .remove _ => dir.capacity ≠ 1

theorem chain_of_represents (represents : Represents dir es) (nonempty : es ≠ []) :
    Chain dir (cells es) where
  nonempty := mt List.map_eq_nil_iff.mp nonempty
  forward := represents.forward
  tail := by
    obtain ⟨front, l, rfl⟩ := List.eq_nil_or_concat' es |>.resolve_left nonempty
    have backward := represents.backward nonempty
    simp only [cells, List.map_append, List.map_singleton, List.reverse_append,
      List.reverse_singleton, List.singleton_append] at backward ⊢
    rw [backward.start, List.getLast?_concat]
  front := by
    intro a atHead
    obtain ⟨first, rest, rfl⟩ := List.exists_cons_of_ne_nil nonempty
    have backward := represents.backward nonempty
    rw [cells, List.map_cons, List.reverse_cons] at backward
    have same : some a = some first.cell := atHead.symm.trans represents.forward.start
    cases same
    exact (path_snoc.mp backward).2
  inverse a left b right := represents.forward.inverse (represents.backward nonempty) left right
  capacity := by rw [represents.capacity, cells, List.length_map]

theorem not_wellLinked {a : Addr} (noHead : dir.head = none) (tail : dir.tail = some a) :
    ¬ WellLinked dir := by
  intro linked
  rcases linked with ⟨-, noTail, -⟩ | ⟨cs, chain⟩
  · rw [tail] at noTail
    cases noTail
  · obtain ⟨b, atHead⟩ := chain.forward.exists_start chain.nonempty
    rw [noHead] at atHead
    cases atHead

/-- The list, and what `tail` is while there is none. -/
def Tidy (dir : Directory Addr) : Prop :=
  ∃ es, Represents dir es ∧ (es = [] → dir.tail = none)

theorem tidy_init : Tidy (directoryInit : Directory Addr) := ⟨[], represents_init, fun _ => rfl⟩

theorem Tidy.wellLinked (tidy : Tidy dir) : WellLinked dir := by
  obtain ⟨es, represents, ends⟩ := tidy
  by_cases nonempty : es = []
  · subst nonempty
    exact .inl ⟨represents.forward, ends rfl, represents.capacity⟩
  · exact .inr ⟨cells es, chain_of_represents represents nonempty⟩

/-- A cell of the list is the cell of an entry. -/
theorem entry_of_valid [DecidableEq Addr] (represents : Represents dir es) {cell : Addr}
    (valid : Valid dir (.remove cell)) : ∃ xs e ys, es = xs ++ e :: ys ∧ e.cell = cell := by
  obtain ⟨cs, path, member⟩ := valid
  rw [path.unique represents.forward] at member
  obtain ⟨e, inside, same⟩ := List.mem_map.mp member
  obtain ⟨xs, ys, split⟩ := List.append_of_mem inside
  exact ⟨xs, e, ys, split, same⟩

section

variable [DecidableEq Addr] {cell : Addr}

theorem remove_head_tail (atHead : dir.head = some cell)
    (removed : cellRemove dir (some cell) = some dir') : dir'.tail = dir.tail := by
  rw [cellRemove, if_pos atHead] at removed
  obtain ⟨next, -, relinked⟩ := Option.bind_eq_some_iff.mp removed
  split at relinked
  all_goals
    obtain ⟨_, -, moved⟩ := Option.bind_eq_some_iff.mp relinked
    obtain ⟨_, -, released⟩ := Option.bind_eq_some_iff.mp moved
    obtain ⟨_, -, same⟩ := Option.bind_eq_some_iff.mp released
    cases same
    rfl

/-- The only cell is head and tail; the tail keeps its address. -/
theorem remove_only {e : Entry Addr} (represents : Represents dir [e]) :
    ∃ dir', cellRemove dir (some e.cell) = some dir' ∧ Represents dir' [] ∧
      dir'.tail = some e.cell := by
  obtain ⟨dir', removed, represents'⟩ := remove_first represents
  have tail := remove_head_tail represents.forward.start removed
  have backward := represents.backward (List.cons_ne_nil e [])
  exact ⟨dir', removed, represents', tail.trans backward.start⟩

theorem tidy_step {a : CellCall Addr} (tidy : Tidy dir) (valid : Valid dir a)
    (leavesOne : LeavesOne dir a) : ∃ dir', cellCalls.step dir a = some dir' ∧ Tidy dir' := by
  obtain ⟨es, represents, -⟩ := tidy
  have capacity := represents.capacity
  cases a with
  | add abonent record cell =>
    obtain ⟨room, freeRecord, freeCell, apart⟩ := valid
    obtain ⟨dir', added, represents'⟩ :=
      add_entry abonent represents (by omega) freeRecord freeCell apart
    exact ⟨dir', added, _, represents', fun nothing => absurd nothing (by simp)⟩
  | remove cell =>
    obtain ⟨xs, e, ys, rfl, rfl⟩ := entry_of_valid represents valid
    obtain ⟨dir', removed, represents'⟩ := remove_entry represents
    refine ⟨dir', removed, _, represents', fun nothing => absurd ?_ leavesOne⟩
    obtain ⟨rfl, rfl⟩ := List.append_eq_nil_iff.mp nothing
    exact capacity

theorem dangling_step {a : CellCall Addr} (tidy : Tidy dir) (valid : Valid dir a)
    (last : ¬ LeavesOne dir a) (stepped : cellCalls.step dir a = some dir') :
    ¬ WellLinked dir' := by
  obtain ⟨es, represents, -⟩ := tidy
  have capacity := represents.capacity
  cases a with
  | add _ _ _ => exact absurd trivial last
  | remove cell =>
    have one : dir.capacity = 1 := Decidable.not_not.mp last
    obtain ⟨xs, e, ys, rfl, rfl⟩ := entry_of_valid represents valid
    simp only [List.length_append, List.length_cons] at capacity
    obtain rfl := List.eq_nil_of_length_eq_zero (l := xs) (by omega)
    obtain rfl := List.eq_nil_of_length_eq_zero (l := ys) (by omega)
    obtain ⟨dir'', removed, represents', tail⟩ := remove_only represents
    cases removed.symm.trans stepped
    exact not_wellLinked represents'.forward tail

/-- The links are in order after every call of a sequence exactly if none of its
removals is of the only cell. -/
theorem wellLinked_iff (calls : List (CellCall Addr))
    (valid : cellCalls.Meets Valid directoryInit calls) :
    cellCalls.Keeps (fun _ dir => WellLinked dir) [] directoryInit calls ↔
      cellCalls.Meets LeavesOne directoryInit calls :=
  System.keeps_iff (fun _ dir => Tidy dir) (fun _ _ tidy => tidy.wellLinked)
    (fun _ _ _ => tidy_step) (fun _ _ _ _ => dangling_step) tidy_init valid

end

/-- Two are added and the first is removed. -/
def pair : List (CellCall Nat) := [.add bob 1 2, .add ann 3 4, .remove 2]

theorem wellLinked_pair : cellCalls.Keeps (fun _ dir => WellLinked dir) [] directoryInit pair := by
  refine (wellLinked_iff pair ?_).mpr ?_
  · exact .cons rfl ⟨by decide, rfl, rfl, by decide⟩ (.cons rfl ⟨by decide, rfl, rfl, by decide⟩
      (.cons rfl ⟨[2, 4], ⟨rfl, _, rfl, rfl, _, rfl, rfl⟩, by decide⟩ trivial))
  · exact .cons rfl trivial (.cons rfl trivial (.cons rfl (show (2 : Int) ≠ 1 by decide) trivial))

/-- "bob" alone, removed. -/
def alone : List (CellCall Nat) := [.add bob 1 2, .remove 2]

/-- The tail of the empty directory is the freed cell. -/
theorem alone_dangles : cellCalls.Meets Valid directoryInit alone ∧
    ¬ cellCalls.Keeps (fun _ dir => WellLinked dir) [] directoryInit alone ∧
    ∃ dir dir', cellCalls.step directoryInit (.add bob 1 2) = some dir ∧
      cellCalls.step dir (.remove 2) = some dir' ∧ dir'.head = none ∧ dir'.tail = some 2 ∧
      dir'.heap 2 = none := by
  refine ⟨.cons rfl ⟨by decide, rfl, rfl, by decide⟩ (.cons rfl ⟨[2], ?_, by decide⟩ trivial),
    fun keeps => ?_, _, _, rfl, rfl, rfl, rfl, rfl⟩
  · exact ⟨rfl, none, rfl, rfl⟩
  · obtain ⟨-, dir, added, -, dir', removed, linked⟩ := keeps
    cases added
    cases removed
    exact not_wellLinked rfl rfl linked

end EltexCourse.Guarantees.Abonents.Ends
