import Mathlib.Data.List.Forall2
import EltexCourse.Foundations.Runs
import EltexCourse.Source.SimpleBash.ParseCommand

/-!
# task10/simple_bash: `parse_command` and a plain split

What the array holds after so many tokens, and what is left of the input: every
token stands terminated where it was found, and the string that the input now
starts with is at most its first token.
-/

set_option autoImplicit false

namespace EltexCourse.Guarantees.SimpleBash.Parsing
open Foundations.CString Foundations.CBuffer Foundations.Cells Foundations.Decimal
  Foundations.Runs Source.SimpleBash

structure Filled (array : Tokens) (places : List Nat) : Prop where
  slots : array.slots = (places.map some).map some ++
    malloc (array.bufferSize.toNat - places.length)
  position : array.position = places.length
  room : (places.length : Int) < array.bufferSize
  bound : array.bufferSize ≤ max 64 (2 * places.length)

variable {array : Tokens} {places : List Nat} {input s : Text}

theorem filled_start : Filled { slots := malloc 64, position := 0, bufferSize := 64 } [] :=
  ⟨rfl, rfl, by decide, by decide⟩

/-- A store behind what has been stored. -/
theorem Filled.behind (filled : Filled array places) (slot : Option Nat) :
    write array.slots array.position slot = some ((places.map some ++ [slot]).map some ++
      malloc (array.bufferSize.toNat - (places.length + 1))) := by
  have room := filled.room
  have more : array.bufferSize.toNat - places.length =
      array.bufferSize.toNat - (places.length + 1) + 1 := by omega
  have written := write_next (places.map some) none
    (malloc (array.bufferSize.toNat - (places.length + 1))) slot
  rw [List.length_map] at written
  rw [filled.slots, more, filled.position]
  exact written

theorem Filled.push (filled : Filled array places) (few : 2 * (places.length + 1) < 2 ^ 31)
    (place : Nat) :
    ∃ array', array.push place = some array' ∧ Filled array' (places ++ [place]) := by
  have room := filled.room
  have bound := filled.bound
  have stored := filled.behind (some place)
  have slots : places.map some ++ [some place] = (places ++ [place]).map some := by simp
  have length : (places ++ [place]).length = places.length + 1 := by simp
  rw [slots] at stored
  by_cases full : array.bufferSize ≤ (array.position + 1 : Nat)
  · have exact : array.bufferSize = (places.length + 1 : Nat) := by
      rw [filled.position] at full
      omega
    have fits : IsInt (array.bufferSize * 2) := by
      unfold IsInt
      omega
    have none : array.bufferSize.toNat - (places.length + 1) = 0 := by omega
    rw [none] at stored
    have stored : write array.slots array.position (some place) =
        some (((places ++ [place]).map some).map some) := by
      rw [stored]
      exact congrArg some (List.append_nil _)
    have more : (((places ++ [place]).map some).map some).length ≤
      (array.bufferSize * 2).toNat := by
      simp only [List.length_map, length]
      omega
    refine ⟨_, by simp only [Tokens.push, stored, if_pos full, int_of_isInt fits,
      Option.bind_eq_bind, Option.bind_some]; rfl, ?_, ?_, ?_, ?_⟩
    · rw [realloc_more more, List.length_map, List.length_map]
    · rw [length, filled.position]
    · show ((places ++ [place]).length : Int) < array.bufferSize * 2
      omega
    · show array.bufferSize * 2 ≤ max 64 (2 * (places ++ [place]).length : Nat)
      omega
  · refine ⟨_, by simp only [Tokens.push, stored, if_neg full, Option.bind_eq_bind,
      Option.bind_some]; rfl, ?_, ?_, ?_, ?_⟩
    · rw [length]
    · rw [length, filled.position]
    · show ((places ++ [place]).length : Int) < array.bufferSize
      rw [filled.position] at full
      omega
    · show array.bufferSize ≤ max 64 (2 * (places ++ [place]).length : Nat)
      omega

theorem delims_pure : nul ∉ delims := by decide

/-- What stands in front of the first terminator: delimiters, and at most a word. -/
def FirstWord (s : Text) : Prop :=
  ∃ lead word behind, s = lead ++ word ++ behind ∧ (∀ c ∈ lead, c ∈ delims) ∧
    (∀ c ∈ word, c ∉ delims) ∧ nul ∉ lead ++ word ∧ (behind = [] ∨ ∃ rest, behind = nul :: rest)

theorem FirstWord.string (first : FirstWord s) (post : Text) :
    ∃ lead word, stringAt (s ++ nul :: post) 0 = some (lead ++ word) ∧ (∀ c ∈ lead, c ∈ delims) ∧
      ∀ c ∈ word, c ∉ delims := by
  obtain ⟨lead, word, behind, rfl, skipped, outside, noNul, rfl | ⟨rest, rfl⟩⟩ := first
  · exact ⟨lead, word, by rw [List.append_nil]; exact stringAt_start noNul post, skipped, outside⟩
  · refine ⟨lead, word, ?_, skipped, outside⟩
    rw [List.append_assoc _ (nul :: rest)]
    exact stringAt_start noNul (rest ++ nul :: post)

/-- What the scan of `s` behind `pre` leaves. -/
structure Parsed (pre s post s' : Text) (found : List Nat) : Prop where
  length : s'.length = s.length
  first : FirstWord s'
  strings : List.Forall₂ (fun place word => stringAt (pre ++ s' ++ nul :: post) place = some word)
    found (tokens delims s)
  places : found = (starts (solid delims) s).map (pre.length + ·)

theorem parsed_none (noNul : nul ∉ s) (only : ∀ c ∈ s, c ∈ delims) (pre post : Text) :
    Parsed pre s post s [] := by
  refine ⟨rfl, ?_, ?_, ?_⟩
  · exact ⟨s, [], [], by simp, only, by simp, by simpa using noNul, .inl rfl⟩
  · rw [tokens_only only]
    exact .nil
  · rw [starts_none (solid_delims only), List.map_nil]

/-- The last token runs to the end of the string. -/
theorem parsed_last {lead word : Text} (noNul : nul ∉ lead ++ word)
    (skipped : ∀ c ∈ lead, c ∈ delims)
    (nonempty : word ≠ []) (outside : ∀ c ∈ word, c ∉ delims) (pre post : Text) :
    Parsed pre (lead ++ word) post (lead ++ word) [(pre ++ lead).length] := by
  have clean : nul ∉ word := fun inside => noNul (List.mem_append_right _ inside)
  refine ⟨rfl, ?_, ?_, ?_⟩
  · exact ⟨lead, word, [], by simp, skipped, outside, noNul, .inl rfl⟩
  · rw [tokens_last skipped nonempty outside]
    refine .cons ?_ .nil
    simpa using stringAt_at clean (pre ++ lead) post
  · rw [starts_parts_last skipped nonempty outside, List.map_singleton, List.length_append]

/-- A terminator takes the place of the delimiter behind a token. -/
theorem Parsed.more {pre lead word tail tail' post : Text} {d : Char} {found : List Nat}
    (parsed : Parsed (pre ++ lead ++ word ++ [nul]) tail post tail' found)
    (front : nul ∉ lead ++ word) (skipped : ∀ c ∈ lead, c ∈ delims) (nonempty : word ≠ [])
    (outside : ∀ c ∈ word, c ∉ delims) (isDelim : d ∈ delims) :
    Parsed pre (lead ++ (word ++ d :: tail)) post (lead ++ word ++ nul :: tail')
      ((pre ++ lead).length :: found) := by
  have clean : nul ∉ word := fun inside => front (List.mem_append_right _ inside)
  refine ⟨?_, ?_, ?_, ?_⟩
  · have same := parsed.length
    simp only [List.length_append, List.length_cons]
    omega
  · exact ⟨lead, word, nul :: tail', rfl, skipped, outside, front, .inr ⟨tail', rfl⟩⟩
  · rw [tokens_more skipped nonempty outside isDelim]
    have whole : pre ++ lead ++ word ++ [nul] ++ tail' ++ nul :: post =
        pre ++ (lead ++ word ++ nul :: tail') ++ nul :: post := by simp
    refine .cons ?_ (whole ▸ parsed.strings)
    rw [← whole]
    exact stringAt_token clean (.inl rfl) (pre ++ lead) post
  · rw [starts_parts_more skipped nonempty outside isDelim, List.map_cons, List.map_map,
      List.length_append, parsed.places]
    congr 1
    refine List.map_congr_left fun i _ => ?_
    simp only [Function.comp_apply, List.length_append, List.length_singleton]
    omega

theorem parseLoop_spec (noNul : nul ∉ s) (pre post : Text) {fuel : Nat} (enough : s.length < fuel)
    (filled : Filled array places)
    (few : 2 * (places.length + (tokens delims s).length) < 2 ^ 31) :
    ∃ s' array' found, ((strtokR delims (pre ++ s ++ nul :: post) pre.length).bind fun next =>
        parseLoop fuel next.2.1 next.1 next.2.2 array) = some (pre ++ s' ++ nul :: post, array') ∧
      Filled array' (places ++ found) ∧ Parsed pre s post s' found := by
  induction length : s.length using Nat.strong_induction_on generalizing s pre fuel array
    places with
  | h size ih =>
    subst length
    obtain ⟨fuel, rfl⟩ := Nat.exists_eq_add_one.mpr (Nat.zero_lt_of_lt enough)
    cases parts delims s with
    | none only =>
      refine ⟨s, array, [], ?_, by rwa [List.append_nil], parsed_none noNul only pre post⟩
      rw [strtokR_none delims_pure only, Option.bind_some, parseLoop]
    | @last lead word skipped nonempty outside =>
      have clean : nul ∉ word := fun inside => noNul (List.mem_append_right _ inside)
      have split : tokens delims (lead ++ word) = [word] := tokens_last skipped nonempty outside
      obtain ⟨array', pushed, filled'⟩ := filled.push (by simpa [split] using few)
        (pre ++ lead).length
      have stop := strtokR_none (s := []) delims_pure (by simp) (pre ++ lead ++ word) post
      obtain ⟨fuel, rfl⟩ : ∃ more, fuel = more + 1 := by
        have positive := List.length_pos_iff.mpr nonempty
        rw [List.length_append] at enough
        exact Nat.exists_eq_add_one.mpr (by omega)
      refine ⟨lead ++ word, array', [(pre ++ lead).length], ?_, filled',
        parsed_last noNul skipped nonempty outside pre post⟩
      rw [List.append_nil] at stop
      rw [strtokR_last skipped nonempty outside clean, Option.bind_some, parseLoop, pushed,
        Option.bind_eq_bind, Option.bind_some, stop, Option.bind_eq_bind, Option.bind_some,
        parseLoop]
      simp only [List.append_assoc]
    | @more lead word tail d skipped nonempty outside isDelim =>
      obtain ⟨front, behind⟩ : nul ∉ lead ++ word ∧ nul ∉ tail := by
        simp only [List.mem_append, List.mem_cons, not_or] at noNul ⊢
        exact ⟨⟨noNul.1, noNul.2.1⟩, noNul.2.2.2⟩
      have clean : nul ∉ word := fun inside => front (List.mem_append_right _ inside)
      have split : tokens delims (lead ++ (word ++ d :: tail)) = word :: tokens delims tail :=
        tokens_more skipped nonempty outside isDelim tail
      rw [split, List.length_cons] at few
      obtain ⟨array', pushed, filled'⟩ := filled.push (by omega) (pre ++ lead).length
      have shorter : tail.length < (lead ++ (word ++ d :: tail)).length := by
        simp only [List.length_append, List.length_cons]
        omega
      have enough' : tail.length < fuel := by omega
      obtain ⟨tail', array'', found, scanned, filled'', parsed⟩ := ih tail.length shorter behind
        (pre ++ lead ++ word ++ [nul]) enough' filled'
        (by rw [List.length_append, List.length_singleton]; omega) rfl
      refine ⟨lead ++ word ++ nul :: tail', array'', (pre ++ lead).length :: found, ?_, ?_,
        parsed.more front skipped nonempty outside isDelim⟩
      · rw [strtokR_delim delims_pure skipped nonempty outside clean isDelim, Option.bind_some,
          parseLoop, pushed, Option.bind_eq_bind, Option.bind_some]
        simp only [List.append_assoc, List.cons_append, List.nil_append] at scanned ⊢
        exact scanned
      · rwa [List.append_assoc] at filled''

/-- What the child is given. -/
theorem argv_spec {words : List Text} (strings :
    List.Forall₂ (fun place word => stringAt input place = some word) places words)
    (free : Block (Option Nat)) :
    argv input ((places.map some ++ [none]).map some ++ free) = some words := by
  induction strings with
  | nil => rfl
  | @cons place word places words string strings ih =>
    simp only [List.map_cons, List.cons_append, argv, string, ih, Option.bind_eq_bind,
      Option.bind_some]

/-- What `parse_command` leaves of a terminated string and returns. -/
theorem parseCommand_parsed (noNul : nul ∉ s) (few : 2 * (tokens delims s).length < 2 ^ 31)
    (post : Text) :
    ∃ s' array found, parseCommand (s ++ nul :: post) = some (s' ++ nul :: post,
        (found.map some ++ [none]).map some ++
          malloc (array.bufferSize.toNat - (found.length + 1))) ∧
      Filled array found ∧ Parsed [] s post s' found := by
  have enough : s.length < (s ++ nul :: post).length + 1 := by
    rw [List.length_append]
    omega
  obtain ⟨s', array, found, scanned, filled, parsed⟩ := parseLoop_spec noNul [] post enough
    filled_start (by simpa using few)
  simp only [List.nil_append, List.length_nil] at scanned filled
  refine ⟨s', array, found, ?_, filled, parsed⟩
  have ended := filled.behind none
  obtain ⟨first, token, looped⟩ := Option.bind_eq_some_iff.mp scanned
  simp only [parseCommand, token, looped, ended, Option.bind_eq_bind, Option.bind_some]

/-- On a terminated string `parse_command` finds the tokens of a plain split. -/
theorem parseCommand_spec (noNul : nul ∉ s) (few : 2 * (tokens delims s).length < 2 ^ 31)
    (post : Text) :
    ∃ s' slots, parseCommand (s ++ nul :: post) = some (s' ++ nul :: post, slots) ∧
      s'.length = s.length ∧ FirstWord s' ∧
      argv (s' ++ nul :: post) slots = some (tokens delims s) := by
  obtain ⟨s', array, found, result, _, parsed⟩ := parseCommand_parsed noNul few post
  have strings := parsed.strings
  rw [List.nil_append] at strings
  exact ⟨s', _, result, parsed.length, parsed.first, argv_spec strings _⟩

end EltexCourse.Guarantees.SimpleBash.Parsing
