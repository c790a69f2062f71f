import Mathlib.Data.Set.Finite.Basic
import Mathlib.Data.Fintype.EquivFin
import EltexCourse.Foundations.Simulation
import EltexCourse.Guarantees.Abonents.Linked
import EltexCourse.Guarantees.Abonents.Search

/-!
# task4 and task6: two versions of one directory

The array and the linked cells are asked the same, and tell the same: all
entries in the same order, and for a name the entry that comes first (task4 goes
on to the others, task6 stops there). The words are those the shorter fields of
task4 hold.
-/

set_option autoImplicit false

namespace EltexCourse.Guarantees.Abonents.Versions
open Foundations.CString Foundations.Transition Source.Abonents Abonents

variable {Addr : Type}

/-- What the user of task4 asks for instead: a search and a print change nothing. -/
def command : Linked.Action Addr → List Array.Action
  | .add abonent _ _ => [.add abonent.name abonent.secondName abonent.tel]
  | .delete name => [.delete name]
  | .search _ | .print => []

/-- The words fit into the fields of task4. -/
def Fits : Linked.Action Addr → Prop
  | .add abonent _ _ =>
    Array.Field abonent.name ∧ Array.Field abonent.secondName ∧ Array.Field abonent.tel
  | .delete name => Array.Field name
  | .search _ | .print => True

instance : (a : Linked.Action Addr) → Decidable (Fits a)
  | .add _ _ _ => inferInstanceAs (Decidable (_ ∧ _))
  | .delete name => inferInstanceAs (Decidable (Array.Field name))
  | .search _ | .print => inferInstanceAs (Decidable True)

def Admits (dir : Linked.Directory Addr) (a : Linked.Action Addr) : Prop :=
  Linked.Allocates dir a ∧ Fits a

instance [DecidableEq Addr] (dir : Linked.Directory Addr) (a : Linked.Action Addr) :
    Decidable (Admits dir a) :=
  inferInstanceAs (Decidable (_ ∧ _))

/-- The same is printed, but for the empty line in front of each entry of task6. -/
structure Agree (dir : Linked.Directory Addr) (dir' : Array.Directory) : Prop where
  capacity : dir.capacity = dir'.capacity
  printed : ∃ entries texts, Linked.printAll dir = some entries ∧
    Array.printAll dir' = some texts ∧ entries.map Linked.abonentPrint = texts.map ('\n' :: ·)
  searched : ∀ name, Array.Field name → ∃ found first others,
    Linked.searchAndPrint dir name = some found ∧ Array.Searches dir' name (first :: others) ∧
    found.map Linked.abonentPrint =
      if first = Array.noSuchLine then none else some ('\n' :: first)

/-- The entry as task4 reads it. -/
def record (abonent : Linked.Abonent) : Array.Record :=
  ⟨abonent.name, abonent.secondName, abonent.tel⟩

structure Alike (dir : Linked.Directory Addr) (dir' : Array.Directory)
    (es : List (Linked.Entry Addr)) :
    Prop where
  linked : Linked.Represents dir es
  array : Array.Represents dir' ((Linked.abonents es).map record)

variable {dir : Linked.Directory Addr} {dir' : Array.Directory} {es : List (Linked.Entry Addr)}

theorem abonentPrint_eq (abonent : Linked.Abonent) :
    Linked.abonentPrint abonent = '\n' :: Search.lineOf (record abonent) := rfl

theorem printLoop_lines {directory : List Array.Abonent} {pre xs post : List Array.Record}
    (rows : Array.Rows directory (pre ++ (xs ++ post))) :
    Array.printLoop directory pre.length xs.length = some (xs.map Search.lineOf) := by
  induction xs generalizing pre with
  | nil => rfl
  | cons r xs ih =>
    obtain ⟨ab, entry, reads⟩ := rows.entryAt
    have behind : Array.Rows directory ((pre ++ [r]) ++ (xs ++ post)) := by simpa using rows
    have later := ih behind
    rw [List.length_append, List.length_singleton, Int.natCast_add, Int.natCast_one] at later
    rw [List.length_cons, Array.printLoop, entry]
    simp only [Option.bind_eq_bind, Option.bind_some, Search.printAbonent_line reads, later,
      Option.map_some, List.map_cons]

theorem printAll_lines {xs : List Array.Record} (represents : Array.Represents dir' xs) :
    Array.printAll dir' = some (xs.map Search.lineOf) := by
  have rows : Array.Rows dir'.directory ([] ++ Array.padded xs) := represents.rows
  rw [Array.printAll, represents.capacity, Int.toNat_natCast]
  exact printLoop_lines rows

/-- The search of task4 prints first what the search of task6 finds. -/
theorem linesFor_first (xs : List Linked.Abonent) (name : Text) :
    ∃ first others, Search.linesFor (xs.map record) name = first :: others ∧
      (xs.find? fun abonent => abonent.name = name).map Linked.abonentPrint =
        if first = Array.noSuchLine then none else some ('\n' :: first) := by
  have named : (xs.map record).filter (·.name = name) = (xs.filter (·.name = name)).map record :=
    List.filter_map ..
  rw [← List.head?_filter, Search.linesFor, named]
  cases matched : xs.filter (·.name = name) with
  | nil =>
    have absent : ∀ r ∈ xs.map record, r.name ≠ name := by
      rw [matched, List.map_nil] at named
      simpa using named
    exact ⟨Array.noSuchLine, [], by rw [if_pos absent]; rfl, by rw [if_pos rfl]; rfl⟩
  | cons abonent rest =>
    exact ⟨Search.lineOf (record abonent), _, rfl, by rw [if_neg (Search.lineOf_ne _)]; rfl⟩

theorem Alike.agree (alike : Alike dir dir' es) : Agree dir dir' where
  capacity := by rw [alike.linked.capacity, alike.array.capacity, List.length_map, List.length_map]
  printed := by
    refine ⟨Linked.abonents es, _, Linked.printAll_abonents alike.linked,
      printAll_lines alike.array, ?_⟩
    generalize Linked.abonents es = xs
    simp only [List.map_map]
    exact List.map_congr_left fun abonent _ => abonentPrint_eq abonent
  searched name typed := by
    obtain ⟨first, others, lines, same⟩ := linesFor_first (Linked.abonents es) name
    exact ⟨_, first, others, Linked.searchAndPrint_found alike.linked name,
      (Search.searches_iff alike.array typed).mpr lines.symm, same⟩

theorem Fits.typed {a : Linked.Action Addr} (fits : Fits a) (dir : Array.Directory) :
    ∀ b ∈ command a, Array.Typed dir b := by
  cases a with
  | add _ _ _ | delete _ => exact List.forall_mem_singleton.mpr fits
  | search _ | print => exact List.forall_mem_nil _

/-- The two references do the same. -/
theorem reference_command (xs : List Linked.Abonent) (a : Linked.Action Addr) :
    (Linked.reference xs a).map record =
      (command a).foldl Array.reference (xs.map record) := by
  cases a with
  | add abonent _ _ =>
    simp only [Linked.reference, command, List.foldl_cons, List.foldl_nil, Array.reference,
      List.length_map]
    split
    · rfl
    · rw [List.map_append]
      rfl
  | delete name =>
    simp only [Linked.reference, command, List.foldl_cons, List.foldl_nil, Array.reference,
      List.eraseP_map]
    rfl
  | search _ | print => rfl

/-- Any sequence of such entries is a run of the array version, with the entries of the
reference. -/
theorem typed_run {xs : List Array.Record} (represents : Array.Represents dir' xs)
    {log : List Array.Action} (typed : ∀ dir, ∀ b ∈ log, Array.Typed dir b) :
    ∃ after, Array.system.Reach Array.Typed dir' log after ∧
      Array.Represents after (log.foldl Array.reference xs) := by
  induction log using List.reverseRecOn with
  | nil => exact ⟨dir', .refl, represents⟩
  | append_singleton log b ih =>
    obtain ⟨middle, run, represents⟩ := ih fun dir b inside => typed dir b (by simp [inside])
    have isTyped := typed middle b (by simp)
    obtain ⟨after, stepped, represents'⟩ := Array.represents_step represents isTyped
    exact ⟨after, .tail b run isTyped stepped, by rwa [List.foldl_append]⟩

section

variable [DecidableEq Addr]

theorem Alike.followed (alike : Alike dir dir' es) {a : Linked.Action Addr} (admits : Admits dir a)
    {next : Linked.Directory Addr} (stepped : Linked.step dir a = some next) :
    ∃ after es', Array.system.Reach Array.Typed dir' (command a) after ∧ Alike next after es' := by
  obtain ⟨_, es', stepped', linked, same⟩ := Linked.represents_step alike.linked admits.1
  cases stepped'.symm.trans stepped
  obtain ⟨after, run, array⟩ := typed_run alike.array admits.2.typed
  rw [← reference_command, ← same] at array
  exact ⟨after, es', run, linked, array⟩

end

section

variable [Infinite Addr]

/-- Only the blocks of the entries are taken. -/
theorem fresh_pair (linked : Linked.Represents dir es) :
    ∃ r c, dir.heap r = none ∧ dir.heap c = none ∧ r ≠ c := by
  classical
  have free {a : Addr} (outside : a ∉ (Linked.cells es ++ es.map Linked.Entry.record).toFinset) :
      dir.heap a = none := by
    refine Classical.byContradiction fun live => outside ?_
    rcases linked.owned.complete a live with ⟨e, inside, rfl⟩ | ⟨e, inside, rfl⟩
    · simpa using .inl ⟨e, inside, rfl⟩
    · simpa using .inr ⟨e, inside, rfl⟩
  obtain ⟨r, outside⟩ := Infinite.exists_notMem_finset
    (Linked.cells es ++ es.map Linked.Entry.record).toFinset
  obtain ⟨c, outside'⟩ := Infinite.exists_notMem_finset
    (insert r (Linked.cells es ++ es.map Linked.Entry.record).toFinset)
  rw [Finset.mem_insert, not_or] at outside'
  exact ⟨r, c, free outside, free outside'.2, Ne.symm outside'.1⟩

/-- Every request to the array version is one to the linked one, with some free
addresses for its blocks. -/
theorem exists_action (linked : Linked.Represents dir es) {b : Array.Action}
    (typed : Array.Typed dir' b) : ∃ a : Linked.Action Addr, command a = [b] ∧ Admits dir a := by
  cases b with
  | add name secondName tel =>
    obtain ⟨r, c, free⟩ := fresh_pair linked
    exact ⟨.add ⟨name, secondName, tel⟩ r c, rfl, free, typed⟩
  | delete name => exact ⟨.delete name, rfl, trivial, typed⟩

theorem Alike.replied [DecidableEq Addr] (alike : Alike dir dir' es) {b : Array.Action}
    {next : Array.Directory} (typed : Array.Typed dir' b)
    (stepped : Array.step dir' b = some next) :
    ∃ a after es', command a = [b] ∧ Admits dir a ∧ Linked.step dir a = some after ∧
      Alike after next es' := by
  obtain ⟨a, same, admits⟩ := exists_action alike.linked typed
  obtain ⟨after, es', stepped', linked, entries⟩ := Linked.represents_step alike.linked admits.1
  obtain ⟨_, again, array⟩ := Array.represents_step alike.array typed
  cases again.symm.trans stepped
  refine ⟨a, after, es', same, admits, stepped', linked, ?_⟩
  rwa [entries, reference_command, same]

end

/-- Each run of either version has one of the other that is asked the same and
tells the same. -/
theorem versions_agree [DecidableEq Addr] [Infinite Addr] (memory : Array.Directory)
    (shaped : Array.Shaped memory) :
    ∃ start, Array.directoryInit memory = some start ∧
      (∀ (log : List (Linked.Action Addr)) dir,
        Linked.system.Reach Admits Linked.directoryInit log dir →
        ∃ dir', Array.system.Reach Array.Typed start (log.flatMap command) dir' ∧ Agree dir dir') ∧
      ∀ log dir', Array.system.Reach Array.Typed start log dir' →
        ∃ (linkedLog : List (Linked.Action Addr)) (dir : Linked.Directory Addr),
          Linked.system.Reach Admits Linked.directoryInit linkedLog dir ∧
          linkedLog.flatMap command = log ∧ Agree dir dir' := by
  obtain ⟨start, cleared, represents⟩ := Array.directoryInit_represents shaped
  have initial : Alike (Linked.directoryInit : Linked.Directory Addr) start [] :=
    ⟨Linked.represents_init, represents⟩
  refine ⟨start, cleared, fun log dir run => ?_, fun log dir' run => ?_⟩
  · obtain ⟨log', dir', run', seen, es, alike⟩ := run.answered Array.system Array.Typed command
      (fun b => [b]) (fun dir dir' => ∃ es, Alike dir dir' es) ⟨[], initial⟩
      fun dir dir' a next ⟨es, alike⟩ admits stepped => by
        obtain ⟨after, es', run, alike'⟩ := alike.followed admits stepped
        exact ⟨command a, after, run, by simp [Linked.system], es', alike'⟩
    rw [List.flatMap_singleton'] at seen
    exact ⟨dir', seen ▸ run', alike.agree⟩
  · obtain ⟨linkedLog, dir, run', seen, es, alike⟩ := run.answered Linked.system Admits
      (fun b => [b])
      command (fun dir' dir => ∃ es, Alike dir dir' es) ⟨[], initial⟩
      fun dir' dir b next ⟨es, alike⟩ typed stepped => by
        obtain ⟨a, after, es', same, admits, added, alike'⟩ := alike.replied typed stepped
        exact ⟨[a], after, .tail a .refl admits added, by simp [same, Array.system], es', alike'⟩
    rw [List.flatMap_singleton'] at seen
    exact ⟨linkedLog, dir, run', seen, alike.agree⟩

/-- The removed "bob" and the one who is added again. -/
theorem versions_agree_reuse :
    ∃ start dir dir', Array.directoryInit Array.junk = some start ∧
      Linked.system.Reach Admits Linked.directoryInit Linked.reuse dir ∧
      Array.system.Reach Array.Typed start (Linked.reuse.flatMap command) dir' ∧
        Agree dir dir' := by
  obtain ⟨start, cleared, alike, -⟩ := @versions_agree Nat _ _ Array.junk Array.junk_shaped
  obtain ⟨log, dir, run, rfl⟩ := Linked.system.exists_reach Admits Linked.directoryInit Linked.reuse
    (fun log _ => log = Linked.reuse) (by decide)
  obtain ⟨dir', run', agree⟩ := alike _ _ run
  exact ⟨start, dir, dir', cleared, run, run', agree⟩

end EltexCourse.Guarantees.Abonents.Versions
