import EltexCourse.Guarantees.SimpleBash.Parsing

/-!
# task10/simple_bash: the array of `parse_command`

A token is stored at the place that its number is, and the array has grown
before the next store if that was its last place. The size is at most twice the
number of tokens, or 64.
-/

set_option autoImplicit false

namespace EltexCourse.Guarantees.SimpleBash.Tokens
open Foundations.CString Foundations.CBuffer Foundations.Cells Foundations.Runs Source.SimpleBash
  Parsing

/-- Where the maximal runs of characters other than the delimiters begin. -/
def runStarts (s : Text) : List Nat := starts (solid delims) s

def runAt (s : Text) (i : Nat) : Text := run (solid delims) s i

/-- The array of `bufferSize` places, and the strings that it leads to. -/
structure Returned (s input : Text) (slots : Block (Option Nat)) (bufferSize : Nat) : Prop where
  size : slots.length = bufferSize
  below : (runStarts s).length < bufferSize
  slots : slots = ((runStarts s).map some ++ [none]).map some ++
    malloc (bufferSize - ((runStarts s).length + 1))
  strings : ∀ i ∈ runStarts s, stringAt input i = some (runAt s i)

/-- On a terminated string no store is outside the array, and what is returned
are the maximal runs in order, followed by NULL. The size of the array is an
`int` as long as there are fewer than 2^30 of them. -/
theorem parse_command_runs (s post : Text) (noNul : nul ∉ s)
    (few : 2 * (runStarts s).length < 2 ^ 31) :
    ∃ input slots bufferSize, parseCommand (s ++ nul :: post) = some (input, slots) ∧
      Returned s input slots bufferSize := by
  have runs := tokens_runs delims s
  have count : (tokens delims s).length = (runStarts s).length := by
    rw [runs, List.length_map, runStarts]
  obtain ⟨s', array, found, result, filled, parsed⟩ :=
    parseCommand_parsed noNul (by rw [count]; exact few) post
  have places : found = runStarts s := by
    rw [parsed.places, runStarts]
    simp
  subst places
  have strings := parsed.strings
  have room := filled.room
  rw [runs, List.forall₂_map_right_iff] at strings
  refine ⟨_, _, array.bufferSize.toNat, result, ?_, by omega, rfl, List.forall₂_same.mp strings⟩
  simp only [List.length_append, List.length_map, List.length_singleton, malloc_length]
  omega

theorem parse_command_runs_ls :
    ∃ input slots bufferSize, parseCommand (['l', 's', ' ', '-', 'l'] ++ nul :: []) =
        some (input, slots) ∧
      Returned ['l', 's', ' ', '-', 'l'] input slots bufferSize :=
  parse_command_runs ['l', 's', ' ', '-', 'l'] [] (by decide) (by decide)

end EltexCourse.Guarantees.SimpleBash.Tokens
