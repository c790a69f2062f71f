import Mathlib.Data.List.Basic
import Mathlib.Data.List.Forall2
import EltexCourse.Source.Abonents.Array

/-!
# task4: the directory array is a list

The array is read as the strings its fields begin with; what `strcpy` leaves
behind a terminator is not looked at. So read, the first `capacity` entries are
the list and all others are blank, which is what lets the search walk all 100 of
them.
-/

set_option autoImplicit false

namespace EltexCourse.Guarantees.Abonents.Array
open Foundations.CString Foundations.CBuffer Foundations.Transition Source.Abonents.Array

/-- The string of a field of 10 bytes. -/
def fieldString (field : Text) : Option Text := if field.length = 10 then stringAt field 0 else none

/-- A field that reads as a string has ten bytes and a terminator in them. -/
theorem fieldString_some {field s : Text} (read : fieldString field = some s) :
    field.length = 10 ∧ stringAt field 0 = some s :=
  Option.ite_none_right_eq_some.mp read

theorem fieldString_fits {field s : Text} (read : fieldString field = some s) :
    nul ∉ s ∧ s.length ≤ 9 := by
  obtain ⟨size, found⟩ := fieldString_some read
  obtain ⟨noNul, post, rfl⟩ := stringAt_parts found
  rw [List.length_append, List.length_cons] at size
  exact ⟨noNul, by omega⟩

theorem clearLoop_eq {data : Text} {n : Nat} (fits : n ≤ data.length) :
    clearLoop data n = some (List.replicate n nul ++ data.drop n) := by
  induction n with
  | zero => rfl
  | succ n ih =>
    have stored := store_at (List.replicate n nul) (data.drop (n + 1)) data[n] nul
    rw [List.length_replicate, List.getElem_cons_drop] at stored
    rw [clearLoop, ih (by omega), Option.bind_some, stored, List.replicate_succ']
    simp

theorem clearData_eq {data : Text} (size : data.length = 10) :
    clearData data = some (List.replicate 10 nul) := by
  rw [clearData, clearLoop_eq (by omega), List.drop_of_length_le (by omega), List.append_nil]

theorem copyData_spec {source place s : Text} (read : fieldString source = some s)
    (size : place.length = 10) :
    ∃ place', copyData source place = some place' ∧ fieldString place' = some s := by
  obtain ⟨noNul, fits⟩ := fieldString_fits read
  have room : s.length < place.length := by omega
  obtain ⟨place', written, same, found⟩ := writeString_spec room noNul
  refine ⟨place', ?_, ?_⟩
  · rw [copyData, strcpy, (fieldString_some read).2, Option.bind_some, written]
  · rw [fieldString, if_pos (by omega), found]

/-- The terminator `main` puts at the end of `data` changes no string in it. -/
theorem store_last {data s : Text} (size : data.length = 10) (read : stringAt data 0 = some s) :
    ∃ data', store data 9 nul = some data' ∧ data'.length = 10 ∧ stringAt data' 0 = some s := by
  obtain ⟨noNul, post, rfl⟩ := stringAt_parts read
  rw [List.length_append, List.length_cons] at size
  rcases List.eq_nil_or_concat' post with rfl | ⟨post, last, rfl⟩
  · have stored := store_at s [] nul nul
    rw [show s.length = 9 by simpa using size] at stored
    exact ⟨_, stored, by simpa using size, stringAt_start noNul []⟩
  · have stored := store_at (s ++ nul :: post) [] last nul
    rw [List.length_append, List.length_singleton] at size
    rw [show (s ++ nul :: post).length = 9 by simp; omega, List.append_assoc,
      List.cons_append] at stored
    refine ⟨_, stored, by simp; omega, ?_⟩
    rw [List.append_assoc, List.cons_append]
    exact stringAt_start noNul _

/-- One answer of the user, of nine characters at most, comes through the buffer into
the field. -/
theorem readField_spec {data place input : Text} (dataSize : data.length = 10)
    (placeSize : place.length = 10) (fits : input.length ≤ 9) :
    ∃ data' place', readField data place input = some (data', place') ∧ data'.length = 10 ∧
      fieldString place' = some (input.takeWhile (· ≠ nul)) := by
  have room : input.length < (List.replicate 10 nul).length := by
    rw [List.length_replicate]
    omega
  obtain ⟨typed, written, typedSize, found⟩ := writeString_cut room
  rw [List.length_replicate] at typedSize
  obtain ⟨data', stored, size, read⟩ := store_last typedSize found
  have source : fieldString data' = some (input.takeWhile (· ≠ nul)) := by
    rw [fieldString, if_pos size, read]
  obtain ⟨place', copied, string⟩ := copyData_spec source placeSize
  refine ⟨data', place', ?_, size, string⟩
  simp only [readField, clearData_eq dataSize, written, stored, copied, Option.bind_eq_bind,
    Option.bind_some]

/-- The strings of an entry. -/
structure Record where
  name : Text
  secondName : Text
  tel : Text
  deriving DecidableEq, Repr

def Record.blank : Record := ⟨[], [], []⟩

/-- Three fields of 10 bytes, each with a terminator, and what they say. -/
structure Reads (ab : Abonent) (r : Record) : Prop where
  name : fieldString ab.name = some r.name
  secondName : fieldString ab.secondName = some r.secondName
  tel : fieldString ab.tel = some r.tel

/-- An entry may also hold no strings yet. -/
structure Sized (ab : Abonent) : Prop where
  name : ab.name.length = 10
  secondName : ab.secondName.length = 10
  tel : ab.tel.length = 10

theorem Reads.sized {ab : Abonent} {r : Record} (reads : Reads ab r) : Sized ab :=
  ⟨(fieldString_some reads.name).1, (fieldString_some reads.secondName).1,
    (fieldString_some reads.tel).1⟩

theorem clearAbonent_blank {ab : Abonent} (sized : Sized ab) :
    ∃ ab', clearAbonent ab = some ab' ∧ Reads ab' .blank := by
  refine ⟨_, by simp [clearAbonent, clearData_eq sized.name, clearData_eq sized.secondName,
    clearData_eq sized.tel]; rfl, ?_⟩
  exact ⟨rfl, rfl, rfl⟩

theorem copyAbonent_reads {source ab : Abonent} {r : Record} (reads : Reads source r)
    (sized : Sized ab) : ∃ ab', copyAbonent source ab = some ab' ∧ Reads ab' r := by
  obtain ⟨name, copied, read⟩ := copyData_spec reads.name sized.name
  obtain ⟨secondName, copied₂, read₂⟩ := copyData_spec reads.secondName sized.secondName
  obtain ⟨tel, copied₃, read₃⟩ := copyData_spec reads.tel sized.tel
  exact ⟨⟨name, secondName, tel⟩, by simp [copyAbonent, copied, copied₂, copied₃], read,
    read₂, read₃⟩

/-- Entry by entry. -/
abbrev Rows (directory : List Abonent) (rs : List Record) : Prop := List.Forall₂ Reads directory rs

variable {directory : List Abonent} {pre post rs : List Record} {r : Record}

theorem Rows.split (rows : Rows directory (pre ++ post)) :
    ∃ front back, directory = front ++ back ∧ Rows front pre ∧ Rows back post :=
  ⟨_, _, (List.take_append_drop pre.length directory).symm, List.forall₂_take_append _ _ _ rows,
    List.forall₂_drop_append _ _ _ rows⟩

/-- The entry at an index is the one the list has there. -/
theorem Rows.entryAt (rows : Rows directory (pre ++ r :: post)) :
    ∃ ab, entryAt directory pre.length = some ab ∧ Reads ab r := by
  obtain ⟨front, back, rfl, before, behind⟩ := rows.split
  cases behind with
  | @cons ab _ back _ reads behind =>
    refine ⟨ab, ?_, reads⟩
    rw [Source.Abonents.Array.entryAt, if_pos (by omega), Int.toNat_natCast, ← before.length_eq]
    exact getElem?_at front back ab

/-- An entry stored at an index changes that one of the list. -/
theorem Rows.store (rows : Rows directory (pre ++ r :: post)) {ab : Abonent} {r' : Record}
    (reads : Reads ab r') :
    ∃ directory', store directory pre.length ab = some directory' ∧
      Rows directory' (pre ++ r' :: post) := by
  obtain ⟨front, back, rfl, before, behind⟩ := rows.split
  cases behind with
  | @cons old _ back _ _ behind =>
    refine ⟨_, ?_, List.rel_append before (.cons reads behind)⟩
    rw [← before.length_eq]
    exact store_at front back old ab

theorem clearEntry_blank (rows : Rows directory (pre ++ r :: post)) :
    ∃ directory', clearEntry directory pre.length = some directory' ∧
      Rows directory' (pre ++ .blank :: post) := by
  obtain ⟨ab, found, reads⟩ := rows.entryAt
  obtain ⟨ab', cleared, blank⟩ := clearAbonent_blank reads.sized
  obtain ⟨directory', stored, rows'⟩ := rows.store blank
  exact ⟨directory', by simp [clearEntry, found, cleared, stored], rows'⟩

/-- The loop moves what follows one place down; the last of it stands there twice. -/
theorem shiftLoop_moves (moved : List Record)
    (rows : Rows directory (pre ++ r :: (moved ++ post))) :
    ∃ directory' last, shiftLoop directory pre.length moved.length = some directory' ∧
      Rows directory' (pre ++ (moved ++ last :: post)) := by
  induction moved generalizing directory pre r with
  | nil => exact ⟨directory, r, rfl, rows⟩
  | cons next moved ih =>
    have following : Rows directory ((pre ++ [r]) ++ next :: (moved ++ post)) := by simpa using rows
    obtain ⟨source, foundSource, reads⟩ := following.entryAt
    obtain ⟨ab, found, replaced⟩ := rows.entryAt
    obtain ⟨ab', copied, reads'⟩ := copyAbonent_reads reads replaced.sized
    obtain ⟨directory₁, stored, rows₁⟩ := rows.store reads'
    have remaining : Rows directory₁ ((pre ++ [next]) ++ next :: (moved ++ post)) := by
      simpa using rows₁
    obtain ⟨directory₂, last, shifted, rows₂⟩ := ih remaining
    rw [List.length_append, List.length_singleton] at foundSource shifted
    refine ⟨directory₂, last, ?_, by simpa using rows₂⟩
    have foundNext : Source.Abonents.Array.entryAt directory ((pre.length : Int) + 1) =
      some source :=
      foundSource
    simp only [List.length_cons, shiftLoop, foundNext, found, copied, stored, shifted,
      Option.bind_eq_bind, Option.bind_some]

/-- The search looks at all that is left and returns -1 if none has the name. -/
theorem findLoop_absent {data wanted : Text} (typed : stringAt data 0 = some wanted)
    (absent : ∀ r ∈ post, r.name ≠ wanted) (rows : Rows directory (pre ++ post)) :
    findLoop data directory pre.length post.length = some (-1) := by
  induction post generalizing pre with
  | nil => rfl
  | cons r post ih =>
    obtain ⟨ab, found, reads⟩ := rows.entryAt
    have name := (fieldString_some reads.name).2
    have other : wanted ≠ r.name := fun same => absent r (by simp) same.symm
    have remaining : Rows directory ((pre ++ [r]) ++ post) := by simpa using rows
    have rest := ih (fun r inside => absent r (by simp [inside])) remaining
    rw [List.length_append, List.length_singleton] at rest
    have next : findLoop data directory ((pre.length : Int) + 1) post.length = some (-1) := rest
    simp only [List.length_cons, findLoop, found, typed, name, other, next, Option.bind_eq_bind,
      Option.bind_some, if_false]

theorem findLoop_found {data wanted : Text} (typed : stringAt data 0 = some wanted)
    {before behind : List Record} (absent : ∀ r ∈ before, r.name ≠ wanted)
    (isNamed : r.name = wanted)
    (rows : Rows directory (pre ++ (before ++ r :: behind))) :
    findLoop data directory pre.length (before ++ r :: behind).length =
      some ((pre ++ before).length : Nat) := by
  induction before generalizing pre with
  | nil =>
    obtain ⟨ab, found, reads⟩ := rows.entryAt
    have name := (fieldString_some reads.name).2
    simp [findLoop, found, typed, name, isNamed]
  | cons first before ih =>
    obtain ⟨ab, found, reads⟩ := rows.entryAt
    have name := (fieldString_some reads.name).2
    have other : wanted ≠ first.name := fun same => absent first (by simp) same.symm
    have remaining : Rows directory ((pre ++ [first]) ++ (before ++ r :: behind)) := by
      simpa using rows
    have rest := ih (fun r inside => absent r (by simp [inside])) remaining
    rw [List.append_assoc, List.length_append, List.length_singleton] at rest
    have next : findLoop data directory ((pre.length : Int) + 1) (before ++ r :: behind).length =
      some ((pre ++ ([first] ++ before)).length : Nat) := rest
    simp only [List.cons_append, List.length_cons, findLoop, found, typed, name, other, next,
      Option.bind_eq_bind, Option.bind_some, if_false]
    rfl

/-- The list, padded to the size of the array. -/
def padded (xs : List Record) : List Record := xs ++ List.replicate (100 - xs.length) .blank

structure Represents (dir : Directory) (xs : List Record) : Prop where
  rows : Rows dir.directory (padded xs)
  capacity : dir.capacity = xs.length
  bound : xs.length ≤ 100
  data : dir.data.length = 10

variable {dir : Directory} {xs : List Record}

/-- Below 100 entries the array goes on with a blank one. -/
theorem padded_room (room : xs.length < 100) :
    padded xs = xs ++ .blank :: List.replicate (100 - (xs.length + 1)) .blank := by
  rw [padded, ← List.replicate_succ]
  congr 2
  omega

theorem padded_snoc (xs : List Record) (r : Record) :
    padded (xs ++ [r]) = xs ++ r :: List.replicate (100 - (xs.length + 1)) .blank := by
  simp [padded]

/-- With room, an addition puts the words typed, up to a terminator in them, behind the
entries there are. -/
theorem add_represents (represents : Represents dir xs) (room : xs.length < 100)
    {name secondName tel : Text} (isName : name.length ≤ 9) (isSecond : secondName.length ≤ 9)
    (isTel : tel.length ≤ 9) :
    ∃ dir', addAbonent dir name secondName tel = some dir' ∧
      Represents dir' (xs ++ [⟨name.takeWhile (· ≠ nul), secondName.takeWhile (· ≠ nul),
        tel.takeWhile (· ≠ nul)⟩]) := by
  have rows := represents.rows
  have capacity := represents.capacity
  rw [padded_room room] at rows
  obtain ⟨ab, found, reads⟩ := rows.entryAt
  have sized := reads.sized
  obtain ⟨data₁, name', read₁, size₁, string₁⟩ :=
    readField_spec represents.data sized.name isName
  obtain ⟨data₂, second', read₂, size₂, string₂⟩ :=
    readField_spec size₁ sized.secondName isSecond
  obtain ⟨data₃, tel', read₃, size₃, string₃⟩ :=
    readField_spec size₂ sized.tel isTel
  have typed : Reads ⟨name', second', tel'⟩ ⟨_, _, _⟩ := ⟨string₁, string₂, string₃⟩
  obtain ⟨directory, stored, rows'⟩ := rows.store typed
  refine ⟨⟨directory, dir.capacity + 1, data₃⟩, ?_, ?_, ?_, ?_, size₃⟩
  · rw [addAbonent, capacity, found]
    simp [read₁, read₂, read₃, stored]
  · rwa [padded_snoc]
  · simp [capacity]
  · simp only [List.length_append, List.length_singleton]
    omega

/-- A deletion moves the entries behind it down by one and clears the last place. -/
theorem deleteAt_represents {before behind : List Record}
    (represents : Represents dir (before ++ r :: behind)) :
    ∃ dir', deleteAt dir before.length = some dir' ∧ Represents dir' (before ++ behind) := by
  have capacity := represents.capacity
  have bound := represents.bound
  have rows := represents.rows
  simp only [List.length_append, List.length_cons] at capacity bound
  rw [padded, List.append_assoc, List.cons_append] at rows
  obtain ⟨directory₁, cleared, rows₁⟩ := clearEntry_blank rows
  obtain ⟨directory₂, last, shifted, rows₂⟩ := shiftLoop_moves behind rows₁
  rw [← List.append_assoc] at rows₂
  obtain ⟨directory₃, clearedLast, rows₃⟩ := clearEntry_blank rows₂
  have turns : (dir.capacity - 1 - (before.length : Int)).toNat = behind.length := by omega
  rw [List.length_append] at clearedLast
  refine ⟨{ dir with directory := directory₃, capacity := dir.capacity - 1 }, ?_, ?_, ?_, ?_,
    represents.data⟩
  · simp [deleteAt, cleared, turns, shifted, clearedLast]
  · rw [padded_room (by simp; omega)]
    simpa [Nat.add_assoc] using rows₃
  · simp only [List.length_append]
    omega
  · simp only [List.length_append]
    omega

/-- What the user is told to expect of each command. -/
def reference (xs : List Record) : Action → List Record
  | .add name secondName tel => if xs.length = 100 then xs else xs ++ [⟨name, secondName, tel⟩]
  | .delete name => xs.eraseP (·.name = name)

theorem padded_length (bound : xs.length ≤ 100) : (padded xs).length = 100 := by
  rw [padded, List.length_append, List.length_replicate]
  omega

/-- The word typed and the string it is read as. -/
theorem delete_represents (represents : Represents dir xs) {word name : Text}
    (string : word.takeWhile (· ≠ nul) = name) (fits : word.length ≤ 9) (nonempty : name ≠ []) :
    ∃ dir', deleteAbonent dir word = some dir' ∧
      Represents dir' (xs.eraseP (·.name = name)) := by
  have size := padded_length represents.bound
  have data := represents.data
  obtain ⟨typed, written, typedSize, found⟩ :=
    writeString_cut (show word.length < dir.data.length by omega)
  rw [string] at found
  obtain ⟨data', stored, dataSize, read⟩ := store_last (typedSize.trans data) found
  have typedIn : Represents { dir with data := data' } xs :=
    ⟨represents.rows, represents.capacity, represents.bound, dataSize⟩
  cases matched : xs.find? fun r => r.name = name with
  | none =>
    have others : ∀ r ∈ xs, ¬ r.name = name := by simpa using matched
    have absent : ∀ r ∈ padded xs, r.name ≠ name := by
      intro r inside
      rcases List.mem_append.mp inside with listed | blank
      · exact others r listed
      · rw [List.eq_of_mem_replicate blank]
        exact nonempty.symm
    have rows : Rows dir.directory ([] ++ padded xs) := represents.rows
    have index := findLoop_absent read absent rows
    rw [size] at index
    have search : findAbonentIndex data' dir.directory 0 = some (-1) := index
    refine ⟨{ dir with data := data' }, ?_, ?_⟩
    · simp [deleteAbonent, written, stored, search]
    · rwa [List.eraseP_of_forall_not (by simpa using others)]
  | some r =>
    obtain ⟨isNamed, before, behind, rfl, unlike⟩ := List.find?_eq_some_iff_append.mp matched
    have others : ∀ r ∈ before, ¬ r.name = name := by simpa using unlike
    have isNamed : r.name = name := by simpa using isNamed
    obtain ⟨dir', deleted, represents'⟩ := deleteAt_represents typedIn
    refine ⟨dir', ?_, ?_⟩
    · have rows := represents.rows
      rw [padded, List.append_assoc, List.cons_append] at rows size
      rw [← List.nil_append (before ++ _)] at rows
      have index := findLoop_found read others isNamed rows
      rw [size] at index
      have search : findAbonentIndex data' dir.directory 0 = some (before.length : Int) := index
      have found : ¬ (before.length : Int) < 0 := by omega
      simp only [deleteAbonent, written, stored, search, found, deleted, Option.bind_eq_bind,
        Option.bind_some, if_false, Int.toNat_natCast]
    · rwa [List.eraseP_append_right _ (by simpa using others),
        List.eraseP_cons_of_pos (by simpa using isNamed)]

/-- The words of a command as the strings they are read as. -/
def strings : Action → Action
  | .add name secondName tel => .add (name.takeWhile (· ≠ nul)) (secondName.takeWhile (· ≠ nul))
      (tel.takeWhile (· ≠ nul))
  | .delete name => .delete (name.takeWhile (· ≠ nul))

/-- Each option does to the list what the reference does with the strings the user has
entered. -/
theorem entered_step (represents : Represents dir xs) {a : Action} (entered : Entered dir a) :
    ∃ dir', step dir a = some dir' ∧ Represents dir' (reference xs (strings a)) := by
  have capacity := represents.capacity
  cases a with
  | add name secondName tel =>
    obtain ⟨isName, isSecond, isTel⟩ := entered
    simp only [step, strings, reference]
    by_cases full : xs.length = 100
    · exact ⟨dir, by simp [capacity, full], by rwa [if_pos full]⟩
    · have room : xs.length < 100 := Nat.lt_of_le_of_ne represents.bound full
      have notFull : dir.capacity ≠ 100 := by omega
      rw [if_neg notFull, if_neg full]
      exact add_represents represents room isName isSecond isTel
  | delete name =>
    simp only [step, strings, reference]
    by_cases isEmpty : dir.capacity = 0
    · obtain rfl : xs = [] := List.eq_nil_of_length_eq_zero (by omega)
      exact ⟨dir, by rw [if_pos isEmpty], represents⟩
    · rw [if_neg isEmpty]
      exact delete_represents represents rfl entered.1 entered.2

/-- Words of nine characters at most are such strings as they stand. -/
theorem represents_step (represents : Represents dir xs) {a : Action} (typed : Typed dir a) :
    ∃ dir', step dir a = some dir' ∧ Represents dir' (reference xs a) := by
  have whole {s : Text} (field : Field s) : s.takeWhile (· ≠ nul) = s := takeWhile_noNul field.2.1
  have entered : Entered dir a ∧ strings a = a := by
    cases a with
    | add name secondName tel =>
      obtain ⟨isName, isSecond, isTel⟩ := typed
      refine ⟨⟨isName.2.2, isSecond.2.2, isTel.2.2⟩, ?_⟩
      rw [strings, whole isName, whole isSecond, whole isTel]
    | delete name =>
      refine ⟨⟨typed.2.2, ?_⟩, ?_⟩
      · rw [whole typed]
        exact typed.1
      · rw [strings, whole typed]
  obtain ⟨dir', stepped, represents'⟩ := entered_step represents entered.1
  rw [entered.2] at represents'
  exact ⟨dir', stepped, represents'⟩

/-- The memory `directory_init` finds, whatever is in it. -/
structure Shaped (dir : Directory) : Prop where
  entries : dir.directory.length = 100
  fields : ∀ ab ∈ dir.directory, Sized ab
  data : dir.data.length = 10

theorem clearEntries_blank (sized : ∀ ab ∈ directory, Sized ab) {n : Nat}
    (inside : n ≤ directory.length) :
    ∃ front, clearEntries directory n = some (front ++ directory.drop n) ∧
      Rows front (List.replicate n .blank) := by
  induction n with
  | zero => exact ⟨[], rfl, .nil⟩
  | succ n ih =>
    obtain ⟨front, cleared, rows⟩ := ih (by omega)
    have place : front.length = n := rows.length_eq.trans List.length_replicate
    have found := getElem?_at front (directory.drop (n + 1)) directory[n]
    obtain ⟨ab, blanked, blank⟩ := clearAbonent_blank (sized directory[n] (List.getElem_mem _))
    have stored := store_at front (directory.drop (n + 1)) directory[n] ab
    rw [place, List.getElem_cons_drop] at found stored
    refine ⟨front ++ [ab], ?_, ?_⟩
    · have entry : entryAt (front ++ directory.drop n) n = some directory[n] := by
        rwa [entryAt, if_pos (by omega)]
      simp [clearEntries, cleared, clearEntry, entry, blanked, stored]
    · rw [List.replicate_succ']
      exact List.rel_append rows (.cons blank .nil)

/-- Whatever was in the memory, the directory is empty at the start. -/
theorem directoryInit_represents {memory : Directory} (shaped : Shaped memory) :
    ∃ dir, directoryInit memory = some dir ∧ Represents dir [] := by
  obtain ⟨front, cleared, rows⟩ :=
    clearEntries_blank shaped.fields (n := 100) (by rw [shaped.entries])
  rw [List.drop_of_length_le (by rw [shaped.entries]), List.append_nil] at cleared
  exact ⟨⟨front, 0, memory.data⟩, by simp [directoryInit, cleared], rows, rfl, by simp, shaped.data⟩

theorem Rows.getElem? (rows : Rows directory rs) {i : Nat} {ab : Abonent}
    (at_i : directory[i]? = some ab) : ∃ r, rs[i]? = some r ∧ Reads ab r := by
  obtain ⟨inside, rfl⟩ := List.getElem?_eq_some_iff.mp at_i
  have inside' : i < rs.length := rows.length_eq ▸ inside
  exact ⟨rs[i], List.getElem?_eq_getElem inside', rows.get inside inside'⟩

/-- The array stands for the list. -/
structure Refines (dir : Directory) (xs : List Record) : Prop where
  capacity : 0 ≤ dir.capacity ∧ dir.capacity ≤ 100 ∧ dir.capacity = xs.length
  size : dir.directory.length = 100
  used : ∀ (i : Nat) (ab : Abonent) (r : Record), dir.directory[i]? = some ab → xs[i]? = some r →
    Reads ab r
  unused : ∀ (i : Nat) (ab : Abonent), dir.directory[i]? = some ab → xs.length ≤ i →
    stringAt ab.name 0 = some []
  terminated : ∀ ab ∈ dir.directory, ∃ r, Reads ab r
  defined : ∀ a, Typed dir a → ∃ dir', step dir a = some dir'

/-- So the array shows the same as the list, entry by entry. -/
theorem Represents.refines (represents : Represents dir xs) : Refines dir xs where
  capacity := by
    have capacity := represents.capacity
    have bound := represents.bound
    omega
  size := represents.rows.length_eq.trans (padded_length represents.bound)
  used i ab r at_i listed := by
    obtain ⟨read, padding, reads⟩ := represents.rows.getElem? at_i
    have inside := (List.getElem?_eq_some_iff.mp listed).1
    rw [padded, List.getElem?_append_left inside, listed] at padding
    cases padding
    exact reads
  unused i ab at_i beyond := by
    obtain ⟨read, padding, reads⟩ := represents.rows.getElem? at_i
    rw [padded, List.getElem?_append_right beyond] at padding
    rw [List.eq_of_mem_replicate (List.mem_of_getElem? padding)] at reads
    exact (fieldString_some reads.name).2
  terminated ab inside := by
    obtain ⟨i, at_i⟩ := List.getElem?_of_mem inside
    obtain ⟨read, _, reads⟩ := represents.rows.getElem? at_i
    exact ⟨read, reads⟩
  defined a typed := by
    obtain ⟨dir', stepped, _⟩ := represents_step represents typed
    exact ⟨dir', stepped⟩

/-- From whatever the memory held, after every sequence of additions and
removals, the array is the list the commands stand for. -/
theorem array_refines (memory : Directory) (shaped : Shaped memory) :
    ∃ start, directoryInit memory = some start ∧
      ∀ log dir, system.Reach Typed start log dir → Refines dir (log.foldl reference []) := by
  obtain ⟨start, cleared, represents⟩ := directoryInit_represents shaped
  refine ⟨start, cleared, fun log dir run => Represents.refines ?_⟩
  refine run.invariant (fun log dir => Represents dir (log.foldl reference [])) represents ?_
  intro log dir a dir' represents typed stepped
  obtain ⟨_, stepped', represents'⟩ := represents_step represents typed
  cases stepped'.symm.trans stepped
  rwa [List.foldl_append]

/-- Memory in which no field has a terminator. -/
def junk : Directory :=
  let field := List.replicate 10 'x'
  ⟨List.replicate 100 ⟨field, field, field⟩, 7, field⟩

theorem junk_shaped : Shaped junk where
  entries := List.length_replicate
  fields ab inside := by
    rw [List.eq_of_mem_replicate inside]
    exact ⟨rfl, rfl, rfl⟩
  data := List.length_replicate

theorem array_refines_one :
    ∃ start dir, directoryInit junk = some start ∧
      system.Reach Typed start [.add ['b', 'o', 'b'] ['w'] ['1']] dir ∧
      Refines dir [⟨['b', 'o', 'b'], ['w'], ['1']⟩] := by
  obtain ⟨start, cleared, refines⟩ := array_refines junk junk_shaped
  have typed : Typed start (.add ['b', 'o', 'b'] ['w'] ['1']) := ⟨by decide, by decide, by decide⟩
  obtain ⟨dir, added⟩ := (refines [] start .refl).defined _ typed
  have run : system.Reach Typed start [.add ['b', 'o', 'b'] ['w'] ['1']] dir :=
    .tail _ .refl typed added
  exact ⟨start, dir, cleared, run, refines _ _ run⟩

end EltexCourse.Guarantees.Abonents.Array
