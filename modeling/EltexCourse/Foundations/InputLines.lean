import EltexCourse.Foundations.CBuffer

/-!
# A stream read with `fgets`

`fgetsTake room` is what one call takes from a stream when the buffer has room
for so many characters besides the terminator: up to and with the first newline,
or as many as there is room for, or the rest. `lines` splits the stream as a
whole; a last line need not have a newline.
-/

set_option autoImplicit false

namespace EltexCourse.Foundations.InputLines
open CString CBuffer

/-- What is read, and what is left of the stream. -/
def fgetsTake : Nat → Text → Text × Text
  | 0, stream => ([], stream)
  | _ + 1, [] => ([], [])
  | room + 1, c :: stream =>
    if c = '\n' then ([c], stream)
    else (c :: (fgetsTake room stream).1, (fgetsTake room stream).2)

/-- `fgets(block, size, stream)`: NULL at the end of the stream, else the block
with what was read and the rest. -/
def fgets (block : Text) (size : Nat) (stream : Text) : Option (Option (Text × Text)) :=
  if stream = [] then some none
  else do
    let block ← writeString block (fgetsTake (size - 1) stream).1
    some (some (block, (fgetsTake (size - 1) stream).2))

def readsLoop (room : Nat) : Nat → Text → List Text
  | 0, _ => []
  | _ + 1, [] => []
  | turns + 1, stream => (fgetsTake room stream).1 :: readsLoop room turns (fgetsTake room stream).2

/-- What one call after the other reads, up to the end of the stream. -/
def reads (room : Nat) (stream : Text) : List Text := readsLoop room stream.length stream

def lines (stream : Text) : List Text :=
  if (stream.splitOn '\n').getLast? = some [] then (stream.splitOn '\n').dropLast
  else stream.splitOn '\n'

variable {room : Nat} {line rest stream : Text}

theorem fgetsTake_line (noLine : '\n' ∉ line) (fits : line.length < room) (rest : Text) :
    fgetsTake room (line ++ '\n' :: rest) = (line ++ ['\n'], rest) := by
  induction line generalizing room with
  | nil =>
    cases room with
    | zero => exact absurd fits (Nat.lt_irrefl 0)
    | succ room => rfl
  | cons c line ih =>
    obtain ⟨different, noLine⟩ := List.ne_and_not_mem_of_not_mem_cons noLine
    cases room with
    | zero => exact absurd fits (Nat.not_lt_zero _)
    | succ room =>
      have rest := ih noLine (Nat.lt_of_succ_lt_succ fits)
      rw [List.cons_append, fgetsTake, if_neg (Ne.symm different), rest]
      rfl

theorem fgetsTake_full (noLine : '\n' ∉ line) (rest : Text) :
    fgetsTake line.length (line ++ rest) = (line, rest) := by
  induction line with
  | nil => rfl
  | cons c line ih =>
    obtain ⟨different, noLine⟩ := List.ne_and_not_mem_of_not_mem_cons noLine
    rw [List.cons_append, List.length_cons, fgetsTake, if_neg (Ne.symm different), ih noLine]

theorem fgetsTake_last (noLine : '\n' ∉ line) (fits : line.length ≤ room) :
    fgetsTake room line = (line, []) := by
  induction line generalizing room with
  | nil => cases room <;> rfl
  | cons c line ih =>
    obtain ⟨different, noLine⟩ := List.ne_and_not_mem_of_not_mem_cons noLine
    cases room with
    | zero => exact absurd fits (Nat.not_succ_le_zero _)
    | succ room =>
      rw [fgetsTake, if_neg (Ne.symm different), ih noLine (Nat.le_of_succ_le_succ fits)]

/-- Nothing is lost or made up. -/
theorem fgetsTake_append (room : Nat) (stream : Text) :
    (fgetsTake room stream).1 ++ (fgetsTake room stream).2 = stream := by
  induction stream generalizing room with
  | nil => cases room <;> rfl
  | cons c stream ih =>
    cases room with
    | zero => rfl
    | succ room =>
      unfold fgetsTake
      split
      · rfl
      · exact congrArg (c :: ·) (ih room)

theorem fgetsTake_length (room : Nat) (stream : Text) :
    (fgetsTake room stream).1.length ≤ room := by
  induction stream generalizing room with
  | nil => cases room <;> exact Nat.zero_le _
  | cons c stream ih =>
    cases room with
    | zero => exact Nat.zero_le _
    | succ room =>
      unfold fgetsTake
      split
      · exact Nat.succ_le_succ (Nat.zero_le room)
      · exact Nat.succ_le_succ (ih room)

/-- As long as there is something to read and room for it, something is read. -/
theorem fgetsTake_shorter (hasRoom : 0 < room) (nonempty : stream ≠ []) :
    (fgetsTake room stream).2.length < stream.length := by
  cases stream with
  | nil => exact absurd rfl nonempty
  | cons c stream =>
    cases room with
    | zero => exact absurd hasRoom (Nat.lt_irrefl 0)
    | succ room =>
      have whole := congrArg List.length (fgetsTake_append room stream)
      rw [List.length_append] at whole
      unfold fgetsTake
      split
      · exact Nat.lt_succ_self _
      · simp only [List.length_cons]
        omega

/-- A call that finds something to read leaves it as a string in the block. -/
theorem fgets_some {block : Text} {size : Nat} (positive : 0 < size) (fits : size ≤ block.length)
    (nonempty : stream ≠ []) :
    ∃ junk, fgets block size stream = some (some ((fgetsTake (size - 1) stream).1 ++ nul :: junk,
        (fgetsTake (size - 1) stream).2)) ∧
      ((fgetsTake (size - 1) stream).1 ++ nul :: junk).length = block.length := by
  have bound := fgetsTake_length (size - 1) stream
  have room : (fgetsTake (size - 1) stream).1.length < block.length := by omega
  refine ⟨block.drop ((fgetsTake (size - 1) stream).1.length + 1), ?_, ?_⟩
  · rw [fgets, if_neg nonempty, writeString, if_pos room]
    rfl
  · simp only [List.length_append, List.length_cons, List.length_drop]
    omega

/-- A newline ends what is read. -/
theorem fgetsTake_newline (room : Nat) (stream : Text) :
    '\n' ∉ (fgetsTake room stream).1 ∨
      ∃ line, '\n' ∉ line ∧ (fgetsTake room stream).1 = line ++ ['\n'] := by
  induction stream generalizing room with
  | nil => cases room <;> exact .inl List.not_mem_nil
  | cons c stream ih =>
    cases room with
    | zero => exact .inl List.not_mem_nil
    | succ room =>
      unfold fgetsTake
      split
      · next newline => exact .inr ⟨[], List.not_mem_nil, by rw [newline]; rfl⟩
      · next other =>
        rcases ih room with noLine | ⟨line, noLine, taken⟩
        · exact .inl (by simpa [Ne.symm other] using noLine)
        · exact .inr ⟨c :: line, by simpa [Ne.symm other] using noLine, by rw [taken]; rfl⟩

theorem reads_nil (room : Nat) : reads room [] = [] := rfl

theorem readsLoop_enough (hasRoom : 0 < room) {turns : Nat} (enough : stream.length ≤ turns) :
    readsLoop room turns stream = reads room stream := by
  suffices same : ∀ turns' : Nat, stream.length ≤ turns' →
      readsLoop room turns stream = readsLoop room turns' stream from same _ (Nat.le_refl _)
  induction turns generalizing stream with
  | zero =>
    intro turns' _
    obtain rfl : stream = [] := List.eq_nil_of_length_eq_zero (Nat.le_zero.mp enough)
    cases turns' <;> rfl
  | succ turns ih =>
    intro turns' enough'
    cases stream with
    | nil => cases turns' <;> rfl
    | cons c stream =>
      have shorter := fgetsTake_shorter hasRoom (List.cons_ne_nil c stream)
      cases turns' with
      | zero => exact absurd enough' (Nat.not_succ_le_zero _)
      | succ turns' =>
        rw [readsLoop, readsLoop, ih (by omega) turns' (by omega)]
        · exact List.cons_ne_nil c stream
        · exact List.cons_ne_nil c stream

/-- As long as there is input, one read after the other takes the front of what is left.
-/
theorem reads_cons (hasRoom : 0 < room) (nonempty : stream ≠ []) :
    reads room stream = (fgetsTake room stream).1 :: reads room (fgetsTake room stream).2 := by
  obtain ⟨turns, length⟩ := Nat.exists_eq_add_one.mpr (List.length_pos_iff.mpr nonempty)
  have shorter := fgetsTake_shorter hasRoom nonempty
  rw [reads, length, readsLoop, readsLoop_enough hasRoom (by omega)]
  exact nonempty

theorem reads_nonempty (hasRoom : 0 < room) {piece : Text} (member : piece ∈ reads room stream) :
    piece ≠ [] := by
  induction length : stream.length using Nat.strong_induction_on generalizing stream with
  | h size ih =>
    subst length
    by_cases nonempty : stream = []
    · subst nonempty
      exact absurd member List.not_mem_nil
    · have shorter := fgetsTake_shorter hasRoom nonempty
      rw [reads_cons hasRoom nonempty] at member
      rcases List.mem_cons.mp member with rfl | later
      · intro nothing
        have whole := congrArg List.length (fgetsTake_append room stream)
        rw [List.length_append, nothing, List.length_nil] at whole
        omega
      · exact ih _ shorter later rfl

theorem lines_nil : lines [] = [] := rfl

theorem lines_last (noLine : '\n' ∉ line) (nonempty : line ≠ []) : lines line = [line] := by
  have single : line.splitOn '\n' = [line] := by
    apply List.splitOnP_eq_singleton
    intro c inside
    simpa using fun same : c = '\n' => noLine (same ▸ inside)
  simp [lines, single, nonempty]

/-- A newline ends a line, and the next one begins behind it. -/
theorem lines_line (noLine : '\n' ∉ line) (rest : Text) :
    lines (line ++ '\n' :: rest) = line :: lines rest := by
  have split : (line ++ '\n' :: rest).splitOn '\n' = line :: rest.splitOn '\n' := by
    have single : line.splitOn '\n' = [line] := by
      apply List.splitOnP_eq_singleton
      intro c inside
      simpa using fun same : c = '\n' => noLine (same ▸ inside)
    rw [List.splitOn, List.splitOnP_append_cons _ _ (by simp)]
    exact congrArg (· ++ rest.splitOn '\n') single
  obtain ⟨first, others, pieces⟩ := List.exists_cons_of_ne_nil (List.splitOn_ne_nil '\n' rest)
  simp only [lines, split, pieces, List.getLast?_cons_cons, List.dropLast_cons_cons]
  split <;> rfl

/-- A stream is at its end, starts with a whole line, or is a last line. -/
theorem first_line (stream : Text) : stream = [] ∨
    (∃ line rest, '\n' ∉ line ∧ stream = line ++ '\n' :: rest) ∨ ('\n' ∉ stream ∧ stream ≠ []) := by
  rcases exists_first (· ≠ '\n') stream with only | ⟨line, c, rest, rfl, before, newline⟩
  · have noLine : '\n' ∉ stream := fun inside => by simpa using only _ inside
    by_cases empty : stream = []
    · exact .inl empty
    · exact .inr (.inr ⟨noLine, empty⟩)
  · obtain rfl : c = '\n' := by simpa using newline
    exact .inr (.inl ⟨line, rest, fun inside => by simpa using before _ inside, rfl⟩)

end EltexCourse.Foundations.InputLines
