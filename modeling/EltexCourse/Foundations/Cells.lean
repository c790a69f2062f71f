import Mathlib.Data.List.Basic
import EltexCourse.Foundations.CBuffer

/-!
# Memory that need not have been written

A block straight from `malloc` has cells that hold nothing yet: `none`. A read
of such a cell, like one outside the block, has no defined result. The second
half is about strings in blocks of characters.
-/

set_option autoImplicit false

namespace EltexCourse.Foundations.Cells
open CString CBuffer

abbrev Block (α : Type*) := List (Option α)

section Arrays

variable {α : Type*}

def malloc (n : Nat) : Block α := List.replicate n none

def realloc (cells : Block α) (n : Nat) : Block α :=
  cells.take n ++ malloc (n - cells.length)

def read (cells : Block α) (i : Int) : Option α :=
  if 0 ≤ i then cells[i.toNat]?.join else none

def write (cells : Block α) (i : Int) (x : α) : Option (Block α) :=
  if 0 ≤ i then store cells i.toNat (some x) else none

theorem malloc_length (n : Nat) : (malloc n : Block α).length = n := List.length_replicate

/-- A larger block keeps the old cells and has fresh ones behind them, with nothing in
them yet. -/
theorem realloc_more {cells : Block α} {n : Nat} (more : cells.length ≤ n) :
    realloc cells n = cells ++ malloc (n - cells.length) := by
  rw [realloc, List.take_of_length_le more]

/-- A read gives what has been written to the cell, and nothing where nothing has. -/
theorem read_eq_some {cells : Block α} {i : Nat} {x : α} :
    read cells i = some x ↔ cells[i]? = some (some x) := by
  rw [read, if_pos (Int.natCast_nonneg i), Int.toNat_natCast, Option.join_eq_some_iff]

theorem read_at (pre post : Block α) (x : α) :
    read (pre ++ some x :: post) pre.length = some x := by
  simp [read]

theorem write_at (pre post : Block α) (old : Option α) (x : α) :
    write (pre ++ old :: post) pre.length x = some (pre ++ some x :: post) := by
  rw [write, if_pos (Int.natCast_nonneg _), Int.toNat_natCast]
  exact store_at pre post old (some x)

/-- The cell behind what has been written. -/
theorem write_next (xs : List α) (old : Option α) (post : Block α) (x : α) :
    write (xs.map some ++ old :: post) xs.length x = some ((xs ++ [x]).map some ++ post) := by
  have written := write_at (xs.map some) post old x
  rw [List.length_map] at written
  rw [written]
  simp

/-- There is nothing in front of a block to write to. -/
theorem write_before {cells : Block α} {i : Int} (before : i < 0) (x : α) :
    write cells i x = none :=
  if_neg (by omega)

theorem read_before {cells : Block α} {i : Int} (before : i < 0) : read cells i = none :=
  if_neg (by omega)

end Arrays

/-- The C string at the start of a block. -/
def stringIn : Block Char → Option Text
  | some c :: cells => if c = nul then some [] else (stringIn cells).map (c :: ·)
  | _ => none

def strcpy (cells : Block Char) (s : Text) : Option (Block Char) :=
  if s.length < cells.length then some (s.map some ++ some nul :: cells.drop (s.length + 1))
  else none

def strcat (cells : Block Char) (s : Text) : Option (Block Char) := do
  let front ← stringIn cells
  strcpy cells (front ++ s)

variable {cells cells' : Block Char} {s front : Text}

/-- A string with its terminator reads back, whatever is behind it. -/
theorem stringIn_text (noNul : nul ∉ s) (rest : Block Char) :
    stringIn (s.map some ++ some nul :: rest) = some s := by
  induction s with
  | nil => rfl
  | cons c s ih =>
    obtain ⟨different, noNul⟩ := List.ne_and_not_mem_of_not_mem_cons noNul
    rw [List.map_cons, List.cons_append, stringIn, if_neg (Ne.symm different), ih noNul,
      Option.map_some]

/-- What reads as a string stands at the beginning of the block with its terminator. -/
theorem stringIn_parts (found : stringIn cells = some s) :
    nul ∉ s ∧ ∃ rest, cells = s.map some ++ some nul :: rest := by
  induction cells generalizing s with
  | nil => cases found
  | cons cell cells ih =>
    cases cell with
    | none => cases found
    | some c =>
      rw [stringIn] at found
      split at found
      · next ends =>
        cases found
        exact ⟨List.not_mem_nil, cells, by rw [ends]; rfl⟩
      · next goesOn =>
        obtain ⟨tail, inner, rfl⟩ := Option.map_eq_some_iff.mp found
        obtain ⟨noNul, rest, rfl⟩ := ih inner
        refine ⟨?_, rest, rfl⟩
        rw [List.mem_cons, not_or]
        exact ⟨fun same => goesOn same.symm, noNul⟩

/-- A block of other characters holds no string. -/
theorem stringIn_unterminated (noNul : nul ∉ s) : stringIn (s.map some) = none := by
  refine Option.eq_none_iff_forall_not_mem.mpr fun found inBlock => ?_
  obtain ⟨-, rest, whole⟩ := stringIn_parts inBlock
  have inside : some nul ∈ s.map some := by
    rw [whole]
    exact List.mem_append_right _ List.mem_cons_self
  obtain ⟨c, member, same⟩ := List.mem_map.mp inside
  cases same
  exact noNul member

/-- `strcpy` stays inside the block exactly when the string and its terminator fit, and
then leaves the cells behind them. -/
theorem strcpy_iff : strcpy cells s = some cells' ↔
    s.length < cells.length ∧ cells' = s.map some ++ some nul :: cells.drop (s.length + 1) := by
  unfold strcpy
  split
  · next fits => simp [fits, eq_comm]
  · next tooLong => simp [tooLong]

theorem strcpy_length (copied : strcpy cells s = some cells') : cells'.length = cells.length := by
  obtain ⟨fits, rfl⟩ := strcpy_iff.mp copied
  simp only [List.length_append, List.length_map, List.length_cons, List.length_drop]
  omega

theorem stringIn_strcpy (copied : strcpy cells s = some cells') (noNul : nul ∉ s) :
    stringIn cells' = some s := by
  obtain ⟨-, rfl⟩ := strcpy_iff.mp copied
  exact stringIn_text noNul _

theorem strcat_eq (found : stringIn cells = some front) (s : Text) :
    strcat cells s = strcpy cells (front ++ s) := by
  rw [strcat, found, Option.bind_eq_bind, Option.bind_some]

/-- It is defined when a string is there to begin with and both fit. -/
theorem strcat_iff : strcat cells s = some cells' ↔
    ∃ front, stringIn cells = some front ∧ strcpy cells (front ++ s) = some cells' := by
  rw [strcat, Option.bind_eq_bind, Option.bind_eq_some_iff]

theorem strcat_length (joined : strcat cells s = some cells') : cells'.length = cells.length := by
  obtain ⟨front, -, copied⟩ := strcat_iff.mp joined
  exact strcpy_length copied

/-- What has been joined reads back as both strings. -/
theorem stringIn_strcat (joined : strcat cells s = some cells')
    (found : stringIn cells = some front)
    (noNul : nul ∉ s) : stringIn cells' = some (front ++ s) := by
  rw [strcat_eq found] at joined
  refine stringIn_strcpy joined fun inside => ?_
  rcases List.mem_append.mp inside with old | new
  · exact (stringIn_parts found).1 old
  · exact noNul new

theorem strcpy_fits (fits : s.length < cells.length) :
    ∃ cells', strcpy cells s = some cells' ∧ cells'.length = cells.length := by
  have copied := strcpy_iff.mpr ⟨fits, rfl⟩
  exact ⟨_, copied, strcpy_length copied⟩

theorem strcat_fits (found : stringIn cells = some front)
    (fits : front.length + s.length < cells.length) :
    ∃ cells', strcat cells s = some cells' ∧ cells'.length = cells.length := by
  rw [strcat_eq found]
  exact strcpy_fits (by rwa [List.length_append])

end EltexCourse.Foundations.Cells
