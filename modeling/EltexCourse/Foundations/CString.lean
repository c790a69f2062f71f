import Mathlib.Data.List.TakeWhile
import Mathlib.Data.List.TakeDrop

/-!
# C strings and `strtok`

A C string is the list of its characters before the terminator. `strtok` keeps
a cursor into the buffer between calls; the buffer from the cursor on is passed
and returned here, so a call that continues a string is the same function on
the returned rest. The terminators `strtok` writes into the buffer lie before
the cursor and are not seen by later calls.
-/

set_option autoImplicit false

namespace EltexCourse.Foundations.CString

abbrev Text := List Char

/-- Leading delimiters are skipped. The token ends at the next delimiter, which
is overwritten and skipped as well, or at the terminator, where the cursor then
stays. There is no token when only delimiters are left. -/
def strtok (delims rest : Text) : Option Text × Text :=
  match rest.dropWhile (· ∈ delims) with
  | [] => (none, [])
  | c :: cs =>
    (some ((c :: cs).takeWhile (· ∉ delims)), ((c :: cs).dropWhile (· ∉ delims)).drop 1)

variable {delims token rest tail : Text} {c : Char}

@[simp] theorem strtok_nil (delims : Text) : strtok delims [] = (none, []) := rfl

/-- Without a token the cursor is at the terminator. -/
theorem strtok_none (missing : strtok delims rest = (none, tail)) : tail = [] := by
  unfold strtok at missing
  split at missing
  · exact (Prod.mk.inj missing).2.symm
  · cases missing

theorem strtok_skip (member : c ∈ delims) (rest : Text) :
    strtok delims (c :: rest) = strtok delims rest := by
  simp [strtok, List.dropWhile_cons, member]

theorem takeWhile_token (outside : ∀ c ∈ token, c ∉ delims) (tail : Text) :
    (token ++ tail).takeWhile (· ∉ delims) = token ++ tail.takeWhile (· ∉ delims) := by
  apply List.takeWhile_append_of_pos
  intro c member
  simpa using outside c member

theorem dropWhile_token (outside : ∀ c ∈ token, c ∉ delims) (tail : Text) :
    (token ++ tail).dropWhile (· ∉ delims) = tail.dropWhile (· ∉ delims) := by
  apply List.dropWhile_append_of_pos
  intro c member
  simpa using outside c member

/-- A nonempty word without delimiters at the cursor is the next token. -/
theorem strtok_word (nonempty : token ≠ []) (outside : ∀ c ∈ token, c ∉ delims) (tail : Text) :
    strtok delims (token ++ tail) =
      (some (token ++ tail.takeWhile (· ∉ delims)), (tail.dropWhile (· ∉ delims)).drop 1) := by
  obtain ⟨c, cs, rfl⟩ := List.exists_cons_of_ne_nil nonempty
  have first : c ∉ delims := outside c (by simp)
  have start : (c :: cs ++ tail).dropWhile (· ∈ delims) = c :: (cs ++ tail) := by
    simp [first]
  simp only [strtok, start]
  rw [← List.cons_append, takeWhile_token outside, dropWhile_token outside]

/-- A token with a delimiter behind it: the rest begins behind that delimiter, which is
lost. -/
theorem strtok_word_delim (nonempty : token ≠ []) (outside : ∀ c ∈ token, c ∉ delims)
    (member : c ∈ delims) (tail : Text) :
    strtok delims (token ++ c :: tail) = (some token, tail) := by
  rw [strtok_word nonempty outside]
  simp [member]

theorem strtok_word_end (nonempty : token ≠ []) (outside : ∀ c ∈ token, c ∉ delims) :
    strtok delims token = (some token, []) := by
  simpa using strtok_word nonempty outside []

/-- The first token of two strings joined by a delimiter is that of the first
string that has one. -/
theorem strtok_append_delim (member : c ∈ delims) (rest tail : Text) :
    (strtok delims (rest ++ c :: tail)).1 = (strtok delims rest).1.or (strtok delims tail).1 := by
  induction rest with
  | nil => simp [strtok_skip member]
  | cons d rest ih =>
    by_cases skipped : d ∈ delims
    · rw [List.cons_append, strtok_skip skipped, strtok_skip skipped, ih]
    · have ends : (rest ++ c :: tail).takeWhile (· ∉ delims) = rest.takeWhile (· ∉ delims) := by
        rw [List.takeWhile_append]
        simp only [List.takeWhile_cons, member, not_true_eq_false, decide_false]
        split
        next whole => simpa using (List.takeWhile_prefix _).eq_of_length whole |>.symm
        · rfl
      simpa [strtok, skipped] using ends

/-- Where a token comes from: delimiters, the token itself, then either the end
of the string or one delimiter and the rest. -/
theorem strtok_some (found : strtok delims rest = (some token, tail)) :
    token ≠ [] ∧ (∀ c ∈ token, c ∉ delims) ∧
      ∃ skipped, (rest = skipped ++ token ∧ tail = []) ∨
        ∃ d ∈ delims, rest = skipped ++ token ++ d :: tail := by
  have parts := List.takeWhile_append_dropWhile (p := fun c => decide (c ∈ delims)) (l := rest)
  simp only [strtok] at found
  split at found
  · simp at found
  next c cs start =>
    simp only [Prod.mk.injEq, Option.some.injEq] at found
    obtain ⟨isToken, isTail⟩ := found
    have first : c ∉ delims := by
      have head := List.head_dropWhile_not (fun c => decide (c ∈ delims))
        (show rest.dropWhile (fun c => decide (c ∈ delims)) ≠ [] by rw [start]; simp)
      simpa [start] using head
    have word := List.takeWhile_append_dropWhile (p := fun c => decide (c ∉ delims)) (l := c :: cs)
    rw [isToken] at word
    refine ⟨?_, ?_, rest.takeWhile (· ∈ delims), ?_⟩
    · rw [← isToken]
      simp [first]
    · intro d member
      rw [← isToken] at member
      simpa using List.mem_takeWhile_imp member
    · rw [start, ← word] at parts
      cases stop : (c :: cs).dropWhile (· ∉ delims) with
      | nil =>
        rw [stop] at parts isTail
        exact Or.inl ⟨by simpa using parts.symm, by simpa using isTail.symm⟩
      | cons d ds =>
        have delim := List.head_dropWhile_not (fun c => decide (c ∉ delims))
          (show (c :: cs).dropWhile (fun c => decide (c ∉ delims)) ≠ [] by rw [stop]; simp)
        simp only [stop, List.head_cons] at delim
        rw [stop] at parts isTail
        exact Or.inr ⟨d, by simpa using delim, by simpa [← isTail] using parts.symm⟩

theorem strtok_token_ne_nil (found : strtok delims rest = (some token, tail)) : token ≠ [] :=
  (strtok_some found).1

theorem strtok_token_outside (found : strtok delims rest = (some token, tail)) :
    ∀ c ∈ token, c ∉ delims :=
  (strtok_some found).2.1

/-- A call consumes its token, and the delimiter behind it if it stopped at one. -/
theorem strtok_length (found : strtok delims rest = (some token, tail)) :
    token.length + tail.length ≤ rest.length ∧
      (tail ≠ [] → token.length + tail.length < rest.length) := by
  obtain ⟨_, _, skipped, ⟨rfl, rfl⟩ | ⟨d, _, rfl⟩⟩ := strtok_some found
  · simp
  · simp only [List.length_append, List.length_cons]
    omega

end EltexCourse.Foundations.CString
