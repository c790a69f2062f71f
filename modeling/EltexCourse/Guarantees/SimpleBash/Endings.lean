import EltexCourse.Source.SimpleBash.Main
import EltexCourse.Guarantees.SimpleBash.Parsing

/-!
# When the loop of task10 ends

While there is input each turn of the loop uses up some of it, unless a child moves
the file back behind the shell. Behind its end `fgets` leaves the buffer as the last
command was cut, which is never the text that ends the loop, and so the first word of
that command is run for ever.
-/

set_option autoImplicit false

namespace EltexCourse.Guarantees.SimpleBash.Endings
open Foundations.CString Foundations.CBuffer Foundations.InputLines Foundations.Looping
  Foundations.Streams Source.SimpleBash Parsing

/-- Nothing that was read is run twice. -/
def NothingAgain (ran : List Ran) : Prop := (ran.map Ran.origin).Nodup

instance (ran : List Ran) : Decidable (NothingAgain ran) :=
  inferInstanceAs (Decidable (ran.map Ran.origin).Nodup)

/-- No line is run as two commands. -/
def LinesOnce (ran : List Ran) : Prop :=
  ((ran.filter (·.args ≠ [])).map fun r => r.origin.map Origin.line).Nodup

/-- The loop ends, whatever the buffer holds at first. -/
def EndsWith (fine : List Ran → Prop) (stdin : Device) : Prop :=
  ∀ junk : Text, junk.length = inputSize → ∃ ran, Ends turn (start junk stdin) ran ∧ fine ran

/-- The pieces in which the input is read. -/
abbrev pieces (stdin : Text) : List Text := reads (inputSize - 1) stdin

/-- The words of the C string that a piece is. -/
def wordsOf (piece : Text) : List Text := tokens delims (piece.takeWhile (· ≠ nul))

/-- Between any two pieces that have words a line ends. -/
def Uncut (pieces : List Text) : Prop :=
  ∀ before first between second after, pieces = before ++ first :: (between ++ second :: after) →
    wordsOf first ≠ [] → wordsOf second ≠ [] → '\n' ∈ first ++ between.flatten

/-- No child moves a file back that the shell goes on to read a block of. -/
def Undisturbed (stdin : Device) : Prop :=
  (Reader.start stdin).Calm (inputSize - 1) exitText fun _ => true

/-- Where what follows a text was read. -/
def behind (origin : Origin) (text : Text) : Origin :=
  ⟨origin.place + text.length, origin.line + text.count '\n'⟩

theorem origin_of_append {text piece more : Text} {place : Nat}
    (split : text.drop place = piece ++ more) :
    Origin.of text (place + piece.length) = behind (Origin.of text place) piece := by
  rw [Origin.of, List.take_add, split, List.take_left, List.count_append]
  rfl

/-- A buffer whose string does not end the loop. -/
structure Stale (input : Text) : Prop where
  size : input.length = inputSize
  string : ∃ text, stringAt input 0 = some text ∧ text ≠ exitText

/-- No text ends the loop once it has been cut. -/
theorem ne_exit {lead word : Text} (skipped : ∀ c ∈ lead, c ∈ delims)
    (outside : ∀ c ∈ word, c ∉ delims) : lead ++ word ≠ exitText := by
  intro same
  cases lead with
  | nil => exact outside '\n' (by rw [List.nil_append] at same; rw [same]; decide) (by decide)
  | cons c lead =>
    obtain ⟨rfl, -⟩ := List.cons.inj same
    exact absurd (skipped 'e' List.mem_cons_self) (by decide)

theorem parse_stale {input text : Text} (size : input.length = inputSize)
    (string : stringAt input 0 = some text) :
    ∃ parsed, parseCommand input = some parsed ∧ argv parsed.1 parsed.2 =
      some (tokens delims text) ∧
      Stale parsed.1 := by
  obtain ⟨noNul, post, rfl⟩ := stringAt_parts string
  have few : 2 * (tokens delims text).length < 2 ^ 31 := by
    have bound := tokens_length_le delims text
    rw [List.length_append, List.length_cons, inputSize] at size
    omega
  obtain ⟨text', slots, parsed, same, first, args⟩ := parseCommand_spec noNul few post
  obtain ⟨lead, word, string', skipped, outside⟩ := first.string post
  refine ⟨_, parsed, args, ?_, _, string', ne_exit skipped outside⟩
  rw [← size, List.length_append, List.length_append, same]

/-- A piece is a string that ends the loop only if it is the text as a whole. -/
theorem string_exit_iff (stdin : Text) :
    (fgetsTake (inputSize - 1) stdin).1.takeWhile (· ≠ nul) = exitText ↔
      (fgetsTake (inputSize - 1) stdin).1 = exitText := by
  constructor
  · intro same
    have whole := List.takeWhile_append_dropWhile (p := (· ≠ nul))
      (l := (fgetsTake (inputSize - 1) stdin).1)
    rw [same] at whole
    generalize (fgetsTake (inputSize - 1) stdin).1.dropWhile (· ≠ nul) = tail at whole
    rcases fgetsTake_newline (inputSize - 1) stdin with noLine | ⟨line, noLine, taken⟩
    · rw [← whole] at noLine
      exact absurd (List.mem_append_left tail (by decide)) noLine
    · rcases List.eq_nil_or_concat' tail with rfl | ⟨front, last, rfl⟩
      · rw [← whole, List.append_nil]
      · rw [taken, ← List.append_assoc] at whole
        obtain ⟨inLine, -⟩ := List.append_inj' whole rfl
        rw [← inLine] at noLine
        exact absurd (List.mem_append_left front (by decide)) noLine
  · intro same
    rw [same]
    decide

section Turns

variable {device : Device} {s : Shell device} {ran : List Ran}

/-- `fgets` leaves in `input` what it takes, as a string up to its first NUL. -/
theorem fgets_string (size : s.input.length = inputSize) (more : s.stdin.ahead ≠ []) :
    ∃ input, s.stdin.fgets s.input inputSize =
        some (some input, (s.stdin.take (inputSize - 1)).2) ∧ input.length = inputSize ∧
      stringAt input 0 =
        some ((fgetsTake (inputSize - 1) s.stdin.ahead).1.takeWhile (· ≠ nul)) := by
  obtain ⟨junk, got, length⟩ := Reader.fgets_some (show 1 < inputSize by decide)
    (Nat.le_of_eq size.symm) more
  obtain ⟨post, terminated⟩ :=
    exists_terminated (fgetsTake (inputSize - 1) s.stdin.ahead).1 junk
  refine ⟨_, got, length.trans size, ?_⟩
  rw [terminated]
  exact stringAt_start (nul_notMem_takeWhile _) post

theorem turn_stop (size : s.input.length = inputSize) (more : s.stdin.ahead ≠ [])
    (exit : (fgetsTake (inputSize - 1) s.stdin.ahead).1 = exitText) :
    turn s = some (.stop s.ran) := by
  obtain ⟨input, got, -, string⟩ := fgets_string size more
  rw [(string_exit_iff s.stdin.ahead).mpr exit] at string
  simp only [turn, Shell.read, got, string, Option.bind_eq_bind, Option.bind_some, if_true]

/-- A turn that reads a command. -/
theorem turn_next (size : s.input.length = inputSize) (more : s.stdin.ahead ≠ [])
    (goesOn : (fgetsTake (inputSize - 1) s.stdin.ahead).1 ≠ exitText) :
    ∃ t, turn s = some (.next t) ∧ Stale t.input ∧
      t.stdin = (s.stdin.take (inputSize - 1)).2.giveBack ∧
      t.ran = s.ran ++ [⟨some (.of device.text s.stdin.fill.place),
        wordsOf (fgetsTake (inputSize - 1) s.stdin.ahead).1⟩] := by
  obtain ⟨input, got, length, string⟩ := fgets_string size more
  obtain ⟨parsed, parses, args, stale⟩ := parse_stale length string
  have notExit := mt (string_exit_iff s.stdin.ahead).mp goesOn
  refine ⟨⟨(s.stdin.take (inputSize - 1)).2.giveBack, parsed.1,
    some (.of device.text s.stdin.fill.place), _⟩, ?_, stale, rfl, rfl⟩
  simp only [turn, Shell.read, got, string, if_neg notExit, parses, args, Option.bind_eq_bind,
    Option.bind_some]
  rfl

/-- A turn behind the end of the input. -/
theorem turn_stale (ended : s.stdin.ahead = []) (stale : Stale s.input) :
    ∃ t, turn s = some (.next t) ∧ t.stdin.ahead = [] ∧ Stale t.input := by
  obtain ⟨text, string, notExit⟩ := stale.string
  obtain ⟨parsed, parses, args, stale'⟩ := parse_stale stale.size string
  obtain ⟨got, left⟩ := @Reader.fgets_ended _ s.stdin s.input inputSize ended
  -- Nothing is left in the buffer that a child could give back.
  have kept := Reader.giveBack_empty (List.append_eq_nil_iff.mp left).1
  refine ⟨{ s with
    stdin := (s.stdin.take (inputSize - 1)).2.giveBack
    input := parsed.1
    ran := s.ran ++ [⟨s.origin, tokens delims text⟩] }, ?_, ?_, stale'⟩
  · simp only [turn, Shell.read, got, string, if_neg notExit, parses, args, Option.bind_eq_bind,
      Option.bind_some]
  · rw [kept]
    exact left

/-- What has been run stays run. -/
theorem ran_kept (ends : Ends turn s ran) : s.ran <+: ran := by
  obtain ⟨turns, ended⟩ := ends
  induction turns generalizing s with
  | zero => cases ended
  | succ turns ih =>
    have same {s' : Shell device} (read : s.read = some s') : s'.ran = s.ran := by
      simp only [Shell.read, Option.bind_eq_bind, Option.bind_eq_some_iff] at read
      obtain ⟨⟨_ | input, stdin⟩, -, read⟩ := read
      · rw [← Option.some.inj read]
      · rw [← Option.some.inj read]
    rw [loop] at ended
    cases outcome : turn s with
    | none =>
      rw [outcome] at ended
      cases ended
    | some outcome' =>
      rw [outcome] at ended
      simp only [turn, Option.bind_eq_bind, Option.bind_eq_some_iff] at outcome
      obtain ⟨s', read, text, -, outcome⟩ := outcome
      split at outcome
      · obtain rfl := Option.some.inj outcome
        simp only [← Option.some.inj ended, same read, List.prefix_rfl]
      · simp only [Option.bind_eq_some_iff] at outcome
        obtain ⟨parsed, -, args, -, outcome⟩ := outcome
        obtain rfl := Option.some.inj outcome
        have later := ih ended
        rw [same read] at later
        exact (List.prefix_append _ _).trans later

theorem stale_never_ends (ended : s.stdin.ahead = []) (stale : Stale s.input) :
    ¬ Ends turn s ran :=
  never_ends (fun s => s.stdin.ahead = [] ∧ Stale s.input)
    (fun _ ⟨ended, stale⟩ => turn_stale ended stale) ⟨ended, stale⟩

/-- What is run for these pieces. -/
def ranOf : Origin → List Text → List Ran
  | _, [] => []
  | origin, piece :: rest => ⟨some origin, wordsOf piece⟩ :: ranOf (behind origin piece) rest

/-- The induction is on what is still to be read, of the text that the stream goes
along with. -/
theorem ends_iff {place : Nat} {text : Text} (ran : List Ran) (size : s.input.length = inputSize)
    (atEnd : text = [] → Stale s.input) (there : device.text.drop place = text)
    (follows : s.stdin.Follows (inputSize - 1) exitText (fun _ => true) place text) :
    Ends turn s ran ↔ exitText ∈ pieces text ∧
      ran = s.ran ++ ranOf (.of device.text place) ((pieces text).takeWhile (· ≠ exitText)) := by
  have hasRoom : 0 < inputSize - 1 := by decide
  have line : '\n' ∈ exitText := by decide
  induction length : text.length using Nat.strong_induction_on generalizing s place text with
  | h n ih =>
    subst length
    by_cases empty : text = []
    · have ended := (follows.nil_iff hasRoom line).mpr empty
      refine iff_of_false (stale_never_ends ended (atEnd empty)) ?_
      rw [empty, pieces, reads_nil]
      exact fun found => absurd found.1 List.not_mem_nil
    · have more := mt (follows.nil_iff hasRoom line).mp empty
      obtain ⟨same, onward⟩ := follows.step hasRoom line empty
      have split : pieces text = _ :: pieces (fgetsTake (inputSize - 1) text).2 :=
        reads_cons hasRoom empty
      by_cases exit : (fgetsTake (inputSize - 1) text).1 = exitText
      · rw [ends_stop (turn_stop size more (same.trans exit)), split, exit]
        simp [ranOf]
      · obtain ⟨t, next, stale, stdin, run⟩ := turn_next size more (same.symm ▸ exit)
        have whole : device.text.drop place = _ := there.trans
          (fgetsTake_append (inputSize - 1) text).symm
        have there' : device.text.drop (place + (fgetsTake (inputSize - 1) text).1.length) =
            (fgetsTake (inputSize - 1) text).2 := by
          rw [← List.drop_drop, whole, List.drop_left]
        have follows' := onward.resolve_left exit _ (.inr ⟨rfl, stdin⟩)
        have later := ih _ (fgetsTake_shorter hasRoom empty) stale.size (fun _ => stale) there'
          follows' rfl
        refine (ends_next next).trans (later.trans ?_)
        rw [run, split, same, follows.fill_place hasRoom line empty,
          origin_of_append whole, List.takeWhile_cons_of_pos (by simpa using exit)]
        simp [ranOf, Ne.symm exit]

end Turns

theorem behind_behind (origin : Origin) (text more : Text) :
    behind (behind origin text) more = behind origin (text ++ more) := by
  simp only [behind, List.length_append, List.count_append, Nat.add_assoc]

/-- What is run was read behind the pieces before it. -/
theorem mem_ranOf {origin : Origin} {ps : List Text} {r : Ran} :
    r ∈ ranOf origin ps ↔ ∃ before piece after, ps = before ++ piece :: after ∧
      r = ⟨some (behind origin before.flatten), wordsOf piece⟩ := by
  induction ps generalizing origin with
  | nil => simp [ranOf]
  | cons first rest ih =>
    rw [ranOf, List.mem_cons, ih]
    constructor
    · intro member
      rcases member with rfl | ⟨before, piece, after, rfl, rfl⟩
      · exact ⟨[], first, rest, rfl, rfl⟩
      · refine ⟨first :: before, piece, after, rfl, ?_⟩
        rw [behind_behind, List.flatten_cons]
    · intro ⟨before, piece, after, split, same⟩
      cases before with
      | nil =>
        obtain ⟨rfl, rfl⟩ := List.cons.inj split
        exact .inl same
      | cons _ before =>
        obtain ⟨rfl, rfl⟩ := List.cons.inj split
        refine .inr ⟨before, piece, after, rfl, ?_⟩
        rw [same, behind_behind, List.flatten_cons]

theorem nothing_again (origin : Origin) {ps : List Text} (nonempty : ∀ piece ∈ ps, piece ≠ []) :
    NothingAgain (ranOf origin ps) := by
  induction ps generalizing origin with
  | nil => exact List.nodup_nil
  | cons first rest ih =>
    have later := ih (behind origin first) fun piece member =>
      nonempty piece (List.mem_cons_of_mem first member)
    refine List.nodup_cons.mpr ⟨fun again => ?_, later⟩
    obtain ⟨r, member, same⟩ := List.mem_map.mp again
    obtain ⟨before, piece, after, -, rfl⟩ := mem_ranOf.mp member
    have place := congrArg Origin.place (Option.some.inj same)
    have some_read := List.length_pos_iff.mpr (nonempty first List.mem_cons_self)
    simp only [behind] at place
    omega

theorem uncut_cons {first : Text} {rest : List Text} :
    Uncut (first :: rest) ↔ (wordsOf first ≠ [] → ∀ between second after,
      rest = between ++ second :: after → wordsOf second ≠ [] → '\n' ∈ first ++ between.flatten) ∧
      Uncut rest := by
  constructor
  · intro uncut
    refine ⟨fun words between second after split => ?_, fun before p between q after split => ?_⟩
    · exact uncut [] first between second after (by rw [split]; rfl) words
    · exact uncut (first :: before) p between q after (by rw [split]; rfl)
  · intro ⟨here, later⟩ before p between q after split
    cases before with
    | nil =>
      obtain ⟨rfl, rfl⟩ := List.cons.inj split
      exact fun words => here words between q after rfl
    | cons _ before =>
      obtain ⟨rfl, rfl⟩ := List.cons.inj split
      exact later before p between q after rfl

theorem lines_once_iff (origin : Origin) (ps : List Text) :
    LinesOnce (ranOf origin ps) ↔ Uncut ps := by
  induction ps generalizing origin with
  | nil =>
    refine iff_of_true List.nodup_nil fun before first between second after split => ?_
    cases before <;> cases split
  | cons first rest ih =>
    rw [uncut_cons, ← ih (behind origin first)]
    by_cases words : wordsOf first = []
    · simp [LinesOnce, ranOf, words]
    · have same_line (between : List Text) :
          some (behind (behind origin first) between.flatten).line = some origin.line ↔
            '\n' ∉ first ++ between.flatten := by
        rw [behind_behind, Option.some_inj, ← List.count_eq_zero, behind]
        exact Nat.add_eq_left
      have other : (∀ r ∈ ranOf (behind origin first) rest, r.args ≠ [] →
          r.origin.map Origin.line ≠ some origin.line) ↔
          ∀ between second after, rest = between ++ second :: after → wordsOf second ≠ [] →
            '\n' ∈ first ++ between.flatten := by
        constructor
        · intro different between second after split words'
          have line := different _ (mem_ranOf.mpr ⟨between, second, after, split, rfl⟩) words'
          exact Decidable.not_not.mp (mt (same_line between).mpr line)
        · intro newline r member words' same
          obtain ⟨between, second, after, split, rfl⟩ := mem_ranOf.mp member
          exact (same_line between).mp same (newline between second after split words')
      rw [← other]
      simp [LinesOnce, ranOf, words]

theorem takeWhile_nonempty {stdin : Text} {good : Text → Bool} :
    ∀ piece ∈ (pieces stdin).takeWhile good, piece ≠ [] := fun _ member =>
  reads_nonempty (by decide) (List.takeWhile_subset _ member)

/-- How the loop ends, when the text that ends it is a piece of its own. -/
theorem endsWith_iff {fine : List Ran → Prop} {stdin : Device} (undisturbed : Undisturbed stdin) :
    EndsWith fine stdin ↔ exitText ∈ pieces stdin.text ∧
      fine (ranOf ⟨0, 0⟩ ((pieces stdin.text).takeWhile (· ≠ exitText))) := by
  have follows : (Reader.start stdin).Follows (inputSize - 1) exitText (fun _ => true) 0
      stdin.text := .calm ⟨rfl, fun _ => rfl⟩ rfl undisturbed
  by_cases empty : stdin.text = []
  · rw [empty]
    refine iff_of_false (fun ends => ?_) fun found => absurd found.1 List.not_mem_nil
    obtain ⟨ran, ends, -⟩ := ends (List.replicate inputSize nul) rfl
    refine stale_never_ends (s := start _ stdin) empty ⟨rfl, [], ?_, by decide⟩ ends
    exact stringAt_start List.not_mem_nil (List.replicate (inputSize - 1) nul)
  · have whole (junk : Text) (size : junk.length = inputSize) (ran : List Ran) :=
      ends_iff (s := start junk stdin) ran size (fun nothing => absurd nothing empty) rfl follows
    constructor
    · intro ends
      obtain ⟨ran, ends, holds⟩ := ends (List.replicate inputSize nul) rfl
      obtain ⟨found, rfl⟩ := (whole _ rfl ran).mp ends
      exact ⟨found, holds⟩
    · intro ⟨found, holds⟩ junk size
      exact ⟨_, (whole junk size _).mpr ⟨found, rfl⟩, holds⟩

/-- Where no child disturbs the input, the loop ends, with nothing that was read run
twice, exactly if the text that ends it is read as a piece of its own; and no line is
run twice exactly if, up to there, none that has words in two pieces is cut between
them. Nothing is disturbed on a pipe or a terminal, nor on a file whose first block
has the text that ends the loop as a piece. -/
theorem runs_once_iff (stdin : Device) :
    (Undisturbed stdin →
      (EndsWith NothingAgain stdin ↔ exitText ∈ pieces stdin.text) ∧
      (EndsWith (fun ran => NothingAgain ran ∧ LinesOnce ran) stdin ↔
        exitText ∈ pieces stdin.text ∧
          Uncut ((pieces stdin.text).takeWhile (· ≠ exitText)))) ∧
      (stdin.seekable = false ∨ exitText ∈ pieces (stdin.text.take stdin.size) →
        Undisturbed stdin) := by
  have once : NothingAgain (ranOf ⟨0, 0⟩ ((pieces stdin.text).takeWhile (· ≠ exitText))) :=
    nothing_again ⟨0, 0⟩ takeWhile_nonempty
  refine ⟨fun undisturbed => ⟨?_, ?_⟩, ?_⟩
  · rw [endsWith_iff undisturbed, and_iff_left once]
  · rw [endsWith_iff undisturbed, lines_once_iff, and_iff_right once]
  · rintro (fixed | early)
    · exact Reader.calm_fixed (by decide) fixed _
    · exact Reader.calm_block (by decide) (by decide) early

/-- A file with one command and `exit`, read in blocks of 4096 bytes. -/
theorem runs_once_iff_file : EndsWith (fun ran => NothingAgain ran ∧ LinesOnce ran)
    ⟨['l', 's', '\n'] ++ exitText, 4096, by decide, true⟩ := by
  have both := runs_once_iff ⟨['l', 's', '\n'] ++ exitText, 4096, by decide, true⟩
  have early : exitText ∈ pieces ((['l', 's', '\n'] ++ exitText).take 4096) := by decide
  refine ((both.1 (both.2 (.inr early))).2).mpr ⟨early, ?_⟩
  have one : (pieces (['l', 's', '\n'] ++ exitText)).takeWhile (· ≠ exitText) =
      [['l', 's', '\n']] := by decide
  rw [one]
  intro before first between second after split
  have length := congrArg List.length split
  simp only [List.length_append, List.length_cons, List.length_nil] at length
  omega

/-- 42 lines of 99 characters, and `exit` behind the first block of 4096 bytes. -/
def longText : Text := (List.replicate 42 (List.replicate 98 'z' ++ ['\n'])).flatten ++ exitText

theorem block_positive : 0 < 4096 := by decide

def longFile : Device := ⟨longText, 4096, block_positive, true⟩

/-- The 43rd turn has read a line that was run before. -/
theorem again_in_long_file :
    (goOn turn 43 (start (List.replicate inputSize nul) longFile)).map
      (fun s => decide (NothingAgain s.ran)) = some false := by
  decide +kernel

/-- One command and no `exit`, from a pipe: its second turn runs it again. And a file
with `exit` behind its first block. -/
theorem ls_again :
    ¬ EndsWith NothingAgain ⟨['l', 's', '\n'], 4096, by decide, false⟩ ∧
    (∃ s t, turn (start (List.replicate inputSize 'x') ⟨['l', 's', '\n'], 4096, by decide, false⟩) =
        some (.next s) ∧ turn s = some (.next t) ∧
      t.ran = [⟨some ⟨0, 0⟩, [['l', 's']]⟩, ⟨some ⟨0, 0⟩, [['l', 's']]⟩]) ∧
    exitText ∈ pieces longFile.text ∧ ¬ EndsWith NothingAgain longFile := by
  refine ⟨?_, ?_, ?_, ?_⟩
  · rw [endsWith_iff (Reader.calm_fixed (by decide) rfl _)]
    exact fun ends => absurd ends.1 (by decide)
  · exact ⟨⟨⟨3, [], false, 3⟩, 'l' :: 's' :: nul :: nul :: List.replicate 96 'x', some ⟨0, 0⟩, _⟩,
      _, rfl, rfl, rfl⟩
  · decide +kernel
  · intro ends
    obtain ⟨ran, ends, once⟩ := ends (List.replicate inputSize nul) List.length_replicate
    obtain ⟨s, goes, twice⟩ := Option.map_eq_some_iff.mp again_in_long_file
    have kept := ran_kept ((ends_goOn goes).mp ends)
    exact of_decide_eq_false twice ((kept.sublist.map Ran.origin).nodup once)

end EltexCourse.Guarantees.SimpleBash.Endings
