import EltexCourse.Guarantees.Abonents.Array

/-!
# task4: the search for a name

Each turn of the loop prints the first match behind the last one. The blank
entries behind the list match no name, so the turn behind the last match gets
-1, which is below the last index, or equal to it when there was none.
-/

set_option autoImplicit false

namespace EltexCourse.Guarantees.Abonents.Search
open Foundations.CString Foundations.CBuffer Foundations.Looping Foundations.Transition
  Source.Abonents.Array Abonents.Array

/-- The entries below the capacity with the name, in the order of the array. -/
def matching (dir : Directory) (name : Text) : List Abonent :=
  (dir.directory.take dir.capacity.toNat).filter fun ab => stringAt ab.name 0 = some name

/-- Each of them is printed once, in order; the line that there is none is
printed only then. -/
structure Answers (dir : Directory) (name : Text) (lines : List Text) : Prop where
  entries : (lines.filter (· ≠ noSuchLine)).map some = (matching dir name).map printAbonent
  none : noSuchLine ∈ lines ↔ matching dir name = []

/-- What is printed for an entry. -/
def lineOf (r : Record) : Text :=
  ['И', 'м', 'я', ':', ' '] ++ r.name ++
    ['\n', 'Ф', 'а', 'м', 'и', 'л', 'и', 'я', ':', ' '] ++ r.secondName ++
    ['\n', 'Н', 'о', 'м', 'е', 'р', ':', ' '] ++ r.tel ++ ['\n', '\n']

/-- The line for an entry is never the one that says there is none. -/
theorem lineOf_ne (r : Record) : lineOf r ≠ noSuchLine := by
  intro same
  cases same

variable {data name : Text} {directory : List Abonent} {pre rest before behind rs : List Record}
  {r : Record} {printed lines : List Text} {dir : Directory} {xs : List Record}

theorem printAbonent_line {ab : Abonent} (reads : Reads ab r) :
    printAbonent ab = some (lineOf r) := by
  have name := (fieldString_some reads.name).2
  have secondName := (fieldString_some reads.secondName).2
  have tel := (fieldString_some reads.tel).2
  simp only [printAbonent, name, secondName, tel, Option.bind_eq_bind, Option.bind_some]
  rfl

/-- The loop has looked at `pre`. -/
def lookedAt (pre : List Record) (printed : List Text) : Search := ⟨(pre.length : Int) - 1, printed⟩

theorem find_from (size : (pre ++ rest).length = 100) :
    findAbonentIndex data directory ((lookedAt pre printed).index + 1) =
      findLoop data directory pre.length rest.length := by
  have place : (lookedAt pre printed).index + 1 = (pre.length : Int) := Int.sub_add_cancel ..
  have turns : (100 - (pre.length : Int)).toNat = rest.length := by
    rw [List.length_append] at size
    omega
  rw [findAbonentIndex, place, turns]

/-- A turn that finds one more entry of the name prints it and goes on behind it. -/
theorem turn_match (size : (pre ++ (before ++ r :: behind)).length = 100)
    (typed : stringAt data 0 = some name) (absent : ∀ r ∈ before, r.name ≠ name)
    (isNamed : r.name = name) (rows : Rows directory (pre ++ (before ++ r :: behind))) :
    searchTurn data directory (lookedAt pre printed) =
      some (.next (lookedAt (pre ++ before ++ [r]) (printed ++ [lineOf r]))) := by
  have found : findLoop data directory pre.length (before ++ r :: behind).length =
      some ((pre ++ before).length : Int) := findLoop_found typed absent isNamed rows
  rw [← List.append_assoc] at rows
  obtain ⟨ab, entry, reads⟩ := rows.entryAt
  have later : ((pre ++ before).length : Int) > (pre.length : Int) - 1 := by
    rw [List.length_append]
    omega
  have place : lookedAt (pre ++ before ++ [r]) (printed ++ [lineOf r]) =
      ⟨(pre ++ before).length, printed ++ [lineOf r]⟩ := by
    simp only [lookedAt, List.length_append, List.length_singleton, Int.natCast_add,
      Int.natCast_one,
      Int.add_sub_cancel]
  rw [searchTurn, find_from size, found, Option.bind_eq_bind, Option.bind_some]
  rw [show (lookedAt pre printed).index = (pre.length : Int) - 1 from rfl, if_pos later,
    entry, place]
  simp only [Option.bind_eq_bind, Option.bind_some, printAbonent_line reads]
  rfl

/-- A turn that finds none ends the loop, with the message only if nothing had been
found before. -/
theorem turn_stop (size : (pre ++ rest).length = 100) (typed : stringAt data 0 = some name)
    (absent : ∀ r ∈ rest, r.name ≠ name) (rows : Rows directory (pre ++ rest)) :
    searchTurn data directory (lookedAt pre printed) =
      some (.stop (if pre = [] then printed ++ [noSuchLine] else printed)) := by
  have found := findLoop_absent typed absent rows
  rw [searchTurn, find_from size, found, Option.bind_eq_bind, Option.bind_some]
  cases pre with
  | nil => rfl
  | cons first pre =>
    have place : (lookedAt (first :: pre) printed).index = pre.length :=
      Int.add_sub_cancel (pre.length : Int) 1
    rw [place, if_neg (by omega), if_pos (by omega), if_neg (List.cons_ne_nil first pre)]
    rfl

/-- From any place on, the loop ends with a line for every entry of the name that is
left, in order. -/
theorem search_ends (size : (pre ++ rest).length = 100) (typed : stringAt data 0 = some name)
    (rows : Rows directory (pre ++ rest)) :
    Ends (searchTurn data directory) (lookedAt pre printed) lines ↔
      lines = printed ++ (rest.filter (·.name = name)).map lineOf ++
        if pre = [] ∧ ∀ r ∈ rest, r.name ≠ name then [noSuchLine] else [] := by
  induction length : rest.length using Nat.strong_induction_on generalizing pre rest printed with
  | h n ih =>
    subst length
    cases matched : rest.find? fun r => r.name = name with
    | none =>
      have absent : ∀ r ∈ rest, r.name ≠ name := by simpa using matched
      have nothing : rest.filter (·.name = name) = [] := by simpa using matched
      rw [ends_stop (turn_stop size typed absent rows), nothing]
      by_cases first : pre = []
      · rw [if_pos first, if_pos ⟨first, absent⟩, List.map_nil, List.append_nil]
      · rw [if_neg first, if_neg fun both => first both.1, List.map_nil, List.append_nil,
          List.append_nil]
    | some r =>
      obtain ⟨isNamed, before, behind, rfl, unlike⟩ := List.find?_eq_some_iff_append.mp matched
      have isNamed : r.name = name := by simpa using isNamed
      have absent : ∀ r ∈ before, r.name ≠ name := by simpa using unlike
      have nothing : before.filter (·.name = name) = [] := by simpa using absent
      have shorter : behind.length < (before ++ r :: behind).length := by
        rw [List.length_append, List.length_cons]
        omega
      rw [ends_next (turn_match size typed absent isNamed rows),
        ih behind.length shorter (by simpa using size) (by simpa using rows) rfl,
          List.filter_append,
        nothing,
          if_neg fun both => List.append_ne_nil_of_right_ne_nil _ (List.cons_ne_nil r []) both.1,
        if_neg fun both => both.2 r (by simp) isNamed]
      simp [isNamed]

theorem readName_spec (size : data.length = 10) (typed : Field name) :
    ∃ data', readName data name = some data' ∧ stringAt data' 0 = some name := by
  obtain ⟨written, wrote, length, string⟩ :=
    writeString_spec (show name.length < (List.replicate 10 nul).length from
      Nat.lt_succ_of_le typed.2.2) typed.2.1
  obtain ⟨data', stored, -, string'⟩ := store_last (length.trans List.length_replicate) string
  refine ⟨data', ?_, string'⟩
  simp only [readName, clearData_eq size, wrote, stored, Option.bind_eq_bind, Option.bind_some]

theorem rows_matching (rows : Rows directory rs) :
    (directory.filter fun ab => stringAt ab.name 0 = some name).map printAbonent =
      ((rs.filter (·.name = name)).map lineOf).map some := by
  induction rows with
  | nil => rfl
  | @cons ab r directory rs reads rows ih =>
    have same : stringAt ab.name 0 = some name ↔ r.name = name := by
      rw [(fieldString_some reads.name).2, Option.some_inj]
    by_cases isNamed : r.name = name
    · rw [List.filter_cons_of_pos (by simpa using same.mpr isNamed),
        List.filter_cons_of_pos (by simpa using isNamed), List.map_cons, List.map_cons,
          List.map_cons,
        ih, printAbonent_line reads]
    · rw [List.filter_cons_of_neg (by simpa using mt same.mp isNamed),
        List.filter_cons_of_neg (by simpa using isNamed), ih]

/-- The entries of the name, read field by field, are printed as the reference says. -/
theorem matching_lines (name : Text) (represents : Represents dir xs) :
    (matching dir name).map printAbonent =
      ((xs.filter (·.name = name)).map lineOf).map some := by
  obtain ⟨front, back, split, used, -⟩ := represents.rows.split
  rw [matching, represents.capacity, split, Int.toNat_natCast, ← used.length_eq, List.take_left']
  · exact rows_matching used
  · rfl

/-- The lines of a search in a list. -/
def linesFor (xs : List Record) (name : Text) : List Text :=
  (xs.filter (·.name = name)).map lineOf ++
    if ∀ r ∈ xs, r.name ≠ name then [noSuchLine] else []

theorem searches_iff (represents : Represents dir xs) (typed : Field name) :
    Searches dir name lines ↔ lines = linesFor xs name := by
  obtain ⟨data, read, string⟩ := readName_spec represents.data typed
  have unnamed (r : Record) (padding : r ∈ List.replicate (100 - xs.length) Record.blank) :
      r.name ≠ name := by
    rw [List.eq_of_mem_replicate padding]
    exact Ne.symm typed.1
  have listed : (padded xs).filter (·.name = name) = xs.filter (·.name = name) := by
    have blank : (List.replicate (100 - xs.length) Record.blank).filter (·.name = name) = [] := by
      simpa using unnamed
    rw [padded, List.filter_append, blank, List.append_nil]
  have nowhere : (∀ r ∈ padded xs, r.name ≠ name) ↔ ∀ r ∈ xs, r.name ≠ name := by
    rw [padded, List.forall_mem_append, and_iff_left unnamed]
  have ends : Ends (searchTurn data dir.directory) (lookedAt [] []) lines ↔ lines =
    linesFor xs name := by
    have rows : Rows dir.directory ([] ++ padded xs) := represents.rows
    have size : ([] ++ padded xs).length = 100 := padded_length represents.bound
    rw [search_ends size string rows, listed, linesFor, List.nil_append]
    simp only [true_and, nowhere]
  constructor
  · intro searched
    obtain ⟨data', read', found⟩ := searched
    cases read.symm.trans read'
    exact ends.mp found
  · exact fun same => ⟨data, read, ends.mpr same⟩

theorem answers (represents : Represents dir xs) : Answers dir name (linesFor xs name) := by
  have entries := matching_lines name represents
  have nothing : matching dir name = [] ↔ ∀ r ∈ xs, r.name ≠ name := by
    rw [← List.map_eq_nil_iff, entries, List.map_eq_nil_iff, List.map_eq_nil_iff,
      List.filter_eq_nil_iff]
    simp only [decide_eq_true_eq, ne_eq]
  have unlike (line : Text) (member : line ∈ (xs.filter (·.name = name)).map lineOf) :
      line ≠ noSuchLine := by
    obtain ⟨r, -, rfl⟩ := List.mem_map.mp member
    exact lineOf_ne r
  constructor
  · rw [entries, linesFor, List.filter_append, List.filter_eq_self.mpr (by simpa using unlike)]
    split
    · rw [List.filter_cons_of_neg (by simp)]
      simp
    · simp
  · rw [nothing, linesFor, List.mem_append]
    constructor
    · intro member
      rcases member with listed | last
      · exact absurd rfl (unlike _ listed)
      · split at last
        · assumption
        · cases last
    · intro absent
      rw [if_pos absent]
      exact .inr (List.mem_singleton_self _)

end EltexCourse.Guarantees.Abonents.Search
