import EltexCourse.Source.Substr.Reading

/-!
# task3: how far the buffers of `main` grow

The size is not changed with the allocation, so the test for growth is true for
one index, the ninth: the buffer becomes 20 bytes and stays so. Nineteen
characters and their terminator have room in it.
-/

set_option autoImplicit false

namespace EltexCourse.Guarantees.Substr.Growth
open Foundations.CString Foundations.CBuffer Foundations.Cells Source.Substr

/-- As many bytes as the size says are the text. -/
def Holds (typed : Text) (s : Growing) : Prop :=
  s.strSize = typed.length ∧ s.str.take s.strSize = typed.map some

/-- And the next one ends it as a C string. -/
def Terminated (s : Growing) : Prop := s.str[s.strSize]? = some (some nul)

variable {typed done input : Text} {s t : Growing} {c : Char}

/-- The bytes that are allocated for so many characters. -/
def allocated (count : Nat) : Nat := if count ≤ 9 then 10 else 20

structure Taken (done : Text) (s : Growing) : Prop where
  strSize : s.strSize = 10
  i : s.i = done.length
  length : s.str.length = allocated done.length
  holds : s.str.take done.length = done.map some
  ended : s.str[done.length]? = some (some nul) ↔ done ≠ []

theorem taken_fresh : Taken [] fresh :=
  ⟨rfl, rfl, rfl, rfl, iff_of_false (by decide) fun nonempty => absurd rfl nonempty⟩

/-- The block in which a character is stored. -/
theorem Taken.grown (taken : Taken done s) :
    ∃ rest, (if s.i + 1 = s.strSize then realloc s.str (s.strSize * 2) else s.str) =
        done.map some ++ rest ∧
      done.length + rest.length = allocated (done.length + 1) := by
  have front := List.take_append_drop done.length s.str
  rw [taken.holds] at front
  have length := taken.length
  have whole : done.length + (s.str.drop done.length).length = s.str.length := by
    rw [← front]
    simp
  rw [taken.strSize, taken.i]
  by_cases grows : done.length + 1 = 10
  · have ten : s.str.length = 10 := by
      rw [length, allocated, if_pos (by omega)]
    refine ⟨s.str.drop done.length ++ malloc 10, ?_, ?_⟩
    · rw [if_pos grows, realloc_more (by omega), ← List.append_assoc, front, ten]
    · rw [List.length_append, malloc_length, ← Nat.add_assoc, whole, ten, allocated,
        if_neg (by omega)]
  · refine ⟨s.str.drop done.length, by rw [if_neg grows, front], ?_⟩
    rw [whole, length]
    unfold allocated
    split <;> split <;> omega

theorem Taken.put (taken : Taken done s) (room : done.length < 19) (c : Char) :
    ∃ t, s.put c = some t ∧ Taken (done ++ [c]) t := by
  obtain ⟨rest, grown, length⟩ := taken.grown
  have two : 2 ≤ rest.length := by
    unfold allocated at length
    split at length <;> omega
  obtain ⟨x, y, rest, rfl⟩ : ∃ x y more, rest = x :: y :: more := by
    match rest, two with
    | x :: y :: more, _ => exact ⟨x, y, more, rfl⟩
  have stored := write_next done x (y :: rest) c
  have ended := write_next (done ++ [c]) y rest nul
  have next : (done ++ [c]).length = done.length + 1 := List.length_append
  rw [next] at ended
  have put : s.put c = some { s with
      str := (done ++ [c] ++ [nul]).map some ++ rest, i := done.length + 1 } := by
    rw [Growing.put, grown, taken.i, stored, Option.bind_eq_bind, Option.bind_some, ended,
      Option.bind_some]
  refine ⟨_, put, taken.strSize, ?_, ?_, ?_, iff_of_true ?_ (by simp)⟩
  · rw [next]
  · rw [next, ← length]
    simp only [List.length_append, List.length_map, List.length_cons, List.length_nil]
    omega
  · show (((done ++ [c]) ++ [nul]).map some ++ rest).take (done ++ [c]).length =
      (done ++ [c]).map some
    rw [List.map_append, List.append_assoc]
    exact List.take_left' (List.length_map _)
  · rw [next]
    simp

theorem Taken.put_full (taken : Taken done s) (full : done.length = 19) (c : Char) :
    s.put c = none := by
  obtain ⟨rest, grown, length⟩ := taken.grown
  rw [full, allocated, if_neg (by decide)] at length
  obtain ⟨x, rfl⟩ := List.length_eq_one_iff.mp (show rest.length = 1 by omega)
  have stored := write_next done x [] c
  have outside : write ((done ++ [c]).map some ++ []) (done.length + 1 : Nat) nul = none := by
    rw [write, if_pos (Int.natCast_nonneg _), Int.toNat_natCast, store, if_neg (by simp)]
  rw [Growing.put, grown, taken.i, stored, Option.bind_eq_bind, Option.bind_some, outside,
    Option.bind_none]

theorem readLoop_taken (taken : Taken done s) (noNewline : '\n' ∉ typed)
    (few : done.length + typed.length ≤ 19) (input : Text) :
    ∃ t, readLoop (typed ++ '\n' :: input) s = some ({ t with strSize := t.i }, input) ∧
      Taken (done ++ typed) t := by
  induction typed generalizing done s with
  | nil =>
    rw [List.append_nil]
    exact ⟨s, rfl, taken⟩
  | cons c typed ih =>
    obtain ⟨goesOn, noNewline⟩ := List.ne_and_not_mem_of_not_mem_cons noNewline
    rw [List.length_cons] at few
    obtain ⟨t, put, taken⟩ := taken.put (by omega) c
    obtain ⟨u, rest, taken⟩ :=
      ih taken noNewline (by rw [List.length_append, List.length_singleton]; omega)
    refine ⟨u, ?_, by rwa [← List.append_cons] at taken⟩
    rw [List.cons_append, readLoop, if_neg (Ne.symm goesOn), put, Option.bind_eq_bind,
      Option.bind_some, rest]

theorem readLoop_full (taken : Taken done s) (short : done.length ≤ 19) (noNewline : '\n' ∉ typed)
    (many : 19 < done.length + typed.length) (input : Text) :
    readLoop (typed ++ '\n' :: input) s = none := by
  induction typed generalizing done s with
  | nil =>
    rw [List.length_nil] at many
    omega
  | cons c typed ih =>
    obtain ⟨goesOn, noNewline⟩ := List.ne_and_not_mem_of_not_mem_cons noNewline
    rw [List.length_cons] at many
    rw [List.cons_append, readLoop, if_neg (Ne.symm goesOn)]
    rcases Nat.lt_or_ge done.length 19 with room | full
    · obtain ⟨t, put, taken⟩ := taken.put room c
      have next : (done ++ [c]).length = done.length + 1 := List.length_append
      rw [put, Option.bind_eq_bind, Option.bind_some]
      exact ih taken (by omega) noNewline (by omega)
    · rw [taken.put_full (by omega), Option.bind_eq_bind, Option.bind_none]

/-- A line is read in whole if it has at most nineteen characters. -/
theorem readLoop_fresh (noNewline : '\n' ∉ typed) (input : Text) :
    (typed.length ≤ 19 ∧ ∃ s, readLoop (typed ++ '\n' :: input) fresh = some (s, input) ∧
        Holds typed s ∧ (Terminated s ↔ typed ≠ [])) ∨
      (19 < typed.length ∧ readLoop (typed ++ '\n' :: input) fresh = none) := by
  rcases Nat.lt_or_ge 19 typed.length with many | few
  · exact Or.inr ⟨many, readLoop_full taken_fresh (by decide) noNewline
      (by rwa [List.length_nil, Nat.zero_add]) input⟩
  · obtain ⟨t, reads, taken⟩ := readLoop_taken taken_fresh noNewline
      (by rwa [List.length_nil, Nat.zero_add]) input
    rw [List.nil_append] at taken
    refine Or.inl ⟨few, _, reads, ⟨taken.i, ?_⟩, ?_⟩
    · show t.str.take t.i = _
      rw [taken.i, taken.holds]
    · show t.str[t.i]? = _ ↔ _
      rw [taken.i]
      exact taken.ended

/-- Both lines stay in their buffers and are held by them if neither has more
than nineteen characters; they can be read as C strings if neither is empty. -/
theorem growing_buffers (text pattern input : Text) (noNewline : '\n' ∉ text)
    (noNewline' : '\n' ∉ pattern) :
    ((∃ str sstr, readLines (text ++ '\n' :: (pattern ++ '\n' :: input)) = some (str, sstr) ∧
        Holds text str ∧ Holds pattern sstr) ↔ text.length ≤ 19 ∧ pattern.length ≤ 19) ∧
      ((∃ str sstr, readLines (text ++ '\n' :: (pattern ++ '\n' :: input)) = some (str, sstr) ∧
        (Holds text str ∧ Terminated str) ∧ Holds pattern sstr ∧ Terminated sstr) ↔
        (text ≠ [] ∧ text.length ≤ 19) ∧ pattern ≠ [] ∧ pattern.length ≤ 19) := by
  rcases readLoop_fresh noNewline (pattern ++ '\n' :: input) with
    ⟨few, str, reads, holds, ended⟩ | ⟨many, fails⟩
  · rcases readLoop_fresh noNewline' input with
      ⟨few', sstr, reads', holds', ended'⟩ | ⟨many, fails⟩
    · have both : readLines (text ++ '\n' :: (pattern ++ '\n' :: input)) = some (str, sstr) := by
        rw [readLines, reads, Option.bind_eq_bind, Option.bind_some, reads', Option.bind_some]
      rw [both]
      refine ⟨iff_of_true ⟨str, sstr, rfl, holds, holds'⟩ ⟨few, few'⟩, ?_, ?_⟩
      · rintro ⟨a, b, same, ⟨_, terminated⟩, _, terminated'⟩
        cases same
        exact ⟨⟨ended.mp terminated, few⟩, ended'.mp terminated', few'⟩
      · rintro ⟨⟨nonempty, _⟩, nonempty', _⟩
        exact ⟨str, sstr, rfl, ⟨holds, ended.mpr nonempty⟩, holds', ended'.mpr nonempty'⟩
    · have fails : readLines (text ++ '\n' :: (pattern ++ '\n' :: input)) = none := by
        rw [readLines, reads, Option.bind_eq_bind, Option.bind_some, fails, Option.bind_none]
      rw [fails]
      exact ⟨iff_of_false (by simp) (by omega), iff_of_false (by simp) (by omega)⟩
  · have fails : readLines (text ++ '\n' :: (pattern ++ '\n' :: input)) = none := by
      rw [readLines, fails, Option.bind_eq_bind, Option.bind_none]
    rw [fails]
    exact ⟨iff_of_false (by simp) (by omega), iff_of_false (by simp) (by omega)⟩

theorem growing_buffers_ab :
    (∃ str sstr, readLines ("ab".toList ++ '\n' :: ("b".toList ++ '\n' :: [])) = some (str, sstr) ∧
        Holds "ab".toList str ∧ Holds "b".toList sstr) ∧
      ∃ str sstr, readLines ("ab".toList ++ '\n' :: ("b".toList ++ '\n' :: [])) = some (str, sstr) ∧
        (Holds "ab".toList str ∧ Terminated str) ∧ Holds "b".toList sstr ∧ Terminated sstr := by
  have read := growing_buffers ['a', 'b'] ['b'] [] (by decide) (by decide)
  exact ⟨read.1.mpr (by decide), read.2.mpr (by decide)⟩

/-- Twenty characters. -/
theorem growing_buffers_twenty :
    '\n' ∉ List.replicate 20 'a' ∧
      readLoop (List.replicate 20 'a' ++ ['\n']) fresh = none ∧
      ¬ ∃ s, readLoop (List.replicate 20 'a' ++ ['\n']) fresh = some (s, []) ∧
        Holds (List.replicate 20 'a') s := by
  have fails : readLoop (List.replicate 20 'a' ++ ['\n']) fresh = none := by decide +kernel
  refine ⟨by decide, fails, ?_⟩
  rw [fails]
  rintro ⟨s, none, _⟩
  cases none

end EltexCourse.Guarantees.Substr.Growth
