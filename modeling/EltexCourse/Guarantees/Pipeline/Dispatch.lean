import Mathlib.Data.List.Basic
import EltexCourse.Guarantees.Pipeline.Parsing
import EltexCourse.Source.Pipeline.Dispatch

/-!
# task12/pipeline_bash: which lines come to `pipeline_handler`

The number of commands is that of the segments with a word in them, and `main`
tells only one from all other numbers. There is no segment with a word exactly
when the line has nothing but spaces and '|' before its newline.
-/

set_option autoImplicit false

namespace EltexCourse.Guarantees.Pipeline.Dispatch
open Foundations.CString Foundations.CBuffer Foundations.InputLines Source.Pipeline Parsing

/-- What `parse` looks at: up to the newline or the terminator. -/
def looked (line : Text) : Text := line.takeWhile fun c => c ≠ '\n' ∧ c ≠ nul

/-- There is a character that stands for something. -/
def Solid (line : Text) : Prop := ∃ c ∈ looked line, c ≠ ' ' ∧ c ≠ '|'

def PositiveArrays (handled : Handled) : Prop :=
  ∀ arrays, handled = .pipeline arrays → 0 < arrays.pids ∧ 0 < arrays.pipes

variable {line block stdin : Text}

theorem exists_segment (s : Text) :
    (∃ segment ∈ s.splitOn '|', HasWord segment) ↔ ∃ c ∈ s, c ≠ ' ' ∧ c ≠ '|' := by
  induction length : s.length using Nat.strong_induction_on generalizing s with
  | h size ih =>
    subst length
    rcases exists_first (· ≠ '|') s with only | ⟨front, c, rest, rfl, before, bar⟩
    · have whole : s.splitOn '|' = [s] := List.splitOnP_eq_singleton fun c inside => by
        simpa using only c inside
      rw [whole]
      simp only [List.mem_singleton, exists_eq_left]
      constructor
      · rintro ⟨c, inside, solid⟩
        exact ⟨c, inside, solid, by simpa using only c inside⟩
      · rintro ⟨c, inside, solid, -⟩
        exact ⟨c, inside, solid⟩
    · obtain rfl : c = '|' := by simpa using bar
      have clean : ∀ c ∈ front, c ≠ '|' := fun c inside => by simpa using before c inside
      have first : front.splitOn '|' = [front] := List.splitOnP_eq_singleton fun c inside => by
        simpa using clean c inside
      have split : (front ++ '|' :: rest).splitOn '|' = front :: rest.splitOn '|' := by
        rw [List.splitOn, List.splitOnP_append_cons _ _ (by simp)]
        exact congrArg (· ++ rest.splitOn '|') first
      have later := ih rest.length (by rw [List.length_append, List.length_cons]; omega) rest rfl
      have word : HasWord front ↔ ∃ c ∈ front, c ≠ ' ' ∧ c ≠ '|' := by
        constructor
        · rintro ⟨c, inside, solid⟩
          exact ⟨c, inside, solid, clean c inside⟩
        · rintro ⟨c, inside, solid, -⟩
          exact ⟨c, inside, solid⟩
      rw [split, List.exists_mem_cons_iff, later, word]
      simp only [List.mem_append, or_and_right, exists_or, List.exists_mem_cons_iff]
      simp

theorem segments_eq_nil (line : Text) :
    segments line = [] ↔ ¬ ∃ c ∈ line.takeWhile (· ≠ '\n'), c ≠ ' ' ∧ c ≠ '|' := by
  rw [segments, List.filter_eq_nil_iff, ← exists_segment]
  simp

/-- The newline is looked for in the string that the block holds. -/
theorem takeWhile_looked (line : Text) :
    (line.takeWhile (· ≠ nul)).takeWhile (· ≠ '\n') = looked line := by
  rw [List.takeWhile_takeWhile, looked]
  congr 1
  funext c
  simp

theorem looked_terminated (line junk : Text) : looked (line ++ nul :: junk) = looked line := by
  induction line with
  | nil => rfl
  | cons c line ih =>
    unfold looked at ih ⊢
    rw [List.cons_append, List.takeWhile_cons, List.takeWhile_cons, ih]

/-- What `main` does with a line that the block holds, whatever lies behind it. -/
theorem dispatch_line (line junk : Text) :
    ∃ handled, dispatch (line ++ nul :: junk) = some handled ∧
      (PositiveArrays handled ↔ Solid line) := by
  obtain ⟨post, terminated⟩ := exists_terminated line junk
  have noNul := nul_notMem_takeWhile line
  have parses := parse_parsed noNul post
  have count : (parsedOf (segments (line.takeWhile (· ≠ nul)))).count =
      (segments (line.takeWhile (· ≠ nul))).length := rfl
  have none := segments_eq_nil (line.takeWhile (· ≠ nul))
  rw [takeWhile_looked] at none
  rw [terminated, dispatch, stringAt_start noNul, Option.bind_eq_bind, Option.bind_some]
  split
  · next exit =>
    have seen := takeWhile_looked line
    rw [exit] at seen
    refine ⟨_, rfl, iff_of_true (fun arrays pipeline => by cases pipeline) ⟨'e', ?_, by decide⟩⟩
    rw [← seen]
    decide
  · rw [parses, Option.bind_eq_bind, Option.bind_some, count]
    generalize segments (line.takeWhile (· ≠ nul)) = found at none
    match found with
    | [] =>
      refine ⟨_, rfl, iff_of_false (fun positive => ?_) (none.mp rfl)⟩
      exact absurd (positive _ rfl).1 (by decide)
    | [one] =>
      have solid := not_not.mp (mt none.mpr (List.cons_ne_nil one []))
      exact ⟨_, rfl, iff_of_true (fun arrays pipeline => by cases pipeline) solid⟩
    | one :: two :: more =>
      have solid := not_not.mp (mt none.mpr (List.cons_ne_nil one (two :: more)))
      refine ⟨.pipeline (declared (one :: two :: more).length), if_neg (by simp),
        iff_of_true ?_ solid⟩
      rintro arrays pipeline
      cases pipeline
      simp only [declared, List.length_cons]
      omega

/-- For every line that `fgets` returns, the arrays of `pipeline_handler` have
positive lengths exactly when the line has a character other than a space and
'|' before its newline. -/
theorem dispatch_positive (block stdin : Text) (sized : block.length = maxCommandSize)
    (more : stdin ≠ []) :
    ∃ line rest handled, fgets block maxCommandSize stdin = some (some (line, rest)) ∧
      dispatch line = some handled ∧ (PositiveArrays handled ↔ Solid line) := by
  obtain ⟨junk, got, -⟩ :=
    fgets_some (show 0 < maxCommandSize by decide) (Nat.le_of_eq sized.symm) more
  obtain ⟨handled, does, positive⟩ := dispatch_line (fgetsTake (maxCommandSize - 1) stdin).1 junk
  refine ⟨_, _, handled, got, does, ?_⟩
  rw [positive, Solid, Solid, looked_terminated]

theorem dispatch_positive_ls :
    ∃ line rest handled, fgets (List.replicate 60 nul) maxCommandSize ['l', 's', '\n'] =
        some (some (line, rest)) ∧
      dispatch line = some handled ∧ (PositiveArrays handled ↔ Solid line) :=
  dispatch_positive (List.replicate 60 nul) ['l', 's', '\n'] (by decide) (by decide)

/-- A blank line is a pipeline of no commands. -/
theorem dispatch_positive_blank :
    ∃ line, fgets (List.replicate 60 nul) maxCommandSize ['\n'] = some (some (line, [])) ∧
      dispatch line = some (.pipeline { pids := 0, pipes := -1 }) ∧
      ¬ PositiveArrays (.pipeline { pids := 0, pipes := -1 }) := by
  refine ⟨'\n' :: List.replicate 59 nul, by decide +kernel, by decide +kernel, fun positive => ?_⟩
  exact absurd (positive _ rfl).1 (by decide)

end EltexCourse.Guarantees.Pipeline.Dispatch
