import EltexCourse.Source.Pipeline.Shell
import EltexCourse.Guarantees.Pipeline.Parsing

/-!
# When the shell of task12 runs whole lines

The loop compared with a plain reading of its input: split at newlines, up to
the first "exit", each line parsed as a whole. The buffer has room for 59
characters, one of which is the newline. A command that cannot be executed moves a
file back to where the shell stands in it, and what the shell reads of it from then
on it has read before.
-/

set_option autoImplicit false

namespace EltexCourse.Guarantees.Pipeline.WholeLines
open Foundations.CString Foundations.CBuffer Foundations.InputLines Foundations.Streams
  Source.Pipeline Parsing

/-- The inputs that the buffer does not get in the way of. -/
inductive Fitting : Text → Prop where
  | nothing : Fitting []
  | exit (rest : Text) : Fitting (exitText ++ '\n' :: rest)
  | line (line rest : Text) (noLine : '\n' ∉ line) (goesOn : line ≠ exitText)
      (fits : line.length ≤ 58) (later : Fitting rest) : Fitting (line ++ '\n' :: rest)
  | last (line : Text) (noLine : '\n' ∉ line) (nonempty : line ≠ []) (goesOn : line ≠ exitText)
      (fits : line.length ≤ 59) : Fitting line
  /-- The first 59 characters already have all words that are kept, and what is
  left of the line ends the loop where the input ends, too. -/
  | cut (line rest : Text) (noLine : '\n' ∉ line) (full : line.length = 59)
      (same : (segments line).map words = (segments (line ++ exitText)).map words)
      (ends : rest = [] ∨ (lines rest).head? = some exitText) :
      Fitting (line ++ exitText ++ '\n' :: rest)

/-- The command list of one read. -/
def listOf (text : Text) : List (Option Command) := (segments text).map (some ∘ commandOf)

theorem parse_listOf {text : Text} (noNul : nul ∉ text) (junk : Text) :
    ∃ parsed, parse (text ++ nul :: junk) = some parsed ∧ parsed.list = listOf text := by
  refine ⟨_, parse_parsed noNul junk, ?_⟩
  simp [Parsed.list, parsedOf, listOf]

/-- The words kept make up the list. -/
theorem listOf_eq_iff {one other : Text} :
    listOf one = listOf other ↔ (segments one).map words = (segments other).map words := by
  constructor
  · intro same
    have arguments_inj : ∀ first second : Text, arguments first = arguments second →
        words first = words second := by
      intro first second same
      have slots : ∀ segment, (arguments segment).filterMap (fun slot => slot.join) =
          words segment := by
        intro segment
        simp [arguments, List.filterMap_map, Function.comp_def]
      rw [← slots first, ← slots second, same]
    have args := congrArg (List.map (Option.map Command.args)) same
    simp only [listOf, List.map_map] at args
    have injective : ∀ left right : List Text,
        left.map ((Option.map Command.args) ∘ some ∘ commandOf) =
          right.map ((Option.map Command.args) ∘ some ∘ commandOf) →
        left.map words = right.map words := by
      intro left
      induction left with
      | nil =>
        intro right equal
        cases right with
        | nil => rfl
        | cons first right => cases equal
      | cons first left ih =>
        intro right equal
        cases right with
        | nil => cases equal
        | cons second right =>
          obtain ⟨head, tail⟩ := List.cons.inj equal
          rw [List.map_cons, List.map_cons, ih right tail,
            arguments_inj first second (Option.some.inj head)]
    exact injective _ _ args
  · intro same
    have command : (some ∘ commandOf) = (fun kept : List Text => some (⟨kept.headD [],
        kept.map (some ∘ some) ++ some none :: List.replicate (maxArgs - (kept.length + 1)) none⟩ :
          Command)) ∘ words := rfl
    rw [listOf, listOf, command, ← List.map_map, ← List.map_map, same]

theorem listOf_newline {line : Text} (noLine : '\n' ∉ line) (rest : Text) :
    listOf (line ++ '\n' :: rest) = listOf line := by
  have passes : ∀ c ∈ line, decide (c ≠ '\n') = true := fun c inside =>
    decide_eq_true fun same => noLine (same ▸ inside)
  have cut : (line ++ '\n' :: rest).takeWhile (· ≠ '\n') = line := by
    rw [List.takeWhile_append_of_pos passes]
    simp
  have whole : line.takeWhile (· ≠ '\n') = line := by
    simpa using passes
  rw [listOf, listOf, segments, segments, cut, whole]

/-- Whether a child that is forked for what one read returns calls `exit` with the
input of the shell. -/
def gives (fails : Option Command → Bool) (text : Text) : Bool := (listOf text).head?.any fails

/-- No child moves a file back that the shell goes on to read a block of. -/
def Undisturbed (fails : Option Command → Bool) (stdin : Device) : Prop :=
  (Reader.start stdin).Calm (maxCommandSize - 1) (exitText ++ ['\n']) (gives fails)

/-- One read of the loop. -/
def read (stdin : Text) : Text := (fgetsTake (maxCommandSize - 1) stdin).1

def unread (stdin : Text) : Text := (fgetsTake (maxCommandSize - 1) stdin).2

/-- The turns of the loop, without the buffer. -/
inductive Runs : Nat → Text → List Ran → Prop where
  | done (number : Nat) : Runs number [] []
  | exit (number : Nat) (stdin : Text) (more : stdin ≠ [])
      (stops : read stdin = exitText ++ ['\n']) : Runs number stdin []
  | turn (number : Nat) (stdin : Text) (later : List Ran) (more : stdin ≠ [])
      (goesOn : read stdin ≠ exitText ++ ['\n'])
      (rest : Runs (number + (read stdin).count '\n') (unread stdin) later) :
      Runs number stdin (⟨number, listOf (read stdin)⟩ :: later)

section Loop

variable {stdin line rest : Text} {number : Nat} {ran : List Ran}

theorem unread_shorter (more : stdin ≠ []) : (unread stdin).length < stdin.length :=
  fgetsTake_shorter (by decide) more

theorem read_append (stdin : Text) : read stdin ++ unread stdin = stdin := fgetsTake_append ..

/-- One turn, on a buffer that may hold anything. -/
theorem mainLoop_turn {device : Device} {r : Reader device} {fails : Option Command → Bool}
    {block : Nat → Text} (sized : ∀ turn, (block turn).length = maxCommandSize)
    (more : r.ahead ≠ []) (noNul : nul ∉ read r.ahead) (fuel turn number : Nat) :
    mainLoop fails block (fuel + 1) turn number r =
      if read r.ahead = exitText ++ ['\n'] then some []
      else (mainLoop fails block fuel (turn + 1) (number + (read r.ahead).count '\n')
          (afterChildren fails (listOf (read r.ahead)) (r.take (maxCommandSize - 1)).2)).map
        (⟨number, listOf (read r.ahead)⟩ :: ·) := by
  obtain ⟨junk, got, -⟩ := Reader.fgets_some (show 1 < maxCommandSize by decide)
    (Nat.le_of_eq (sized turn).symm) more
  have got : r.fgets (block turn) maxCommandSize =
    some (some (read r.ahead ++ nul :: junk), (r.take (maxCommandSize - 1)).2) := got
  obtain ⟨parsed, parses, list⟩ := parse_listOf noNul junk
  simp only [mainLoop, got, stringAt_start noNul junk, parses, list, Option.bind_eq_bind,
    Option.bind_some]
  split
  · rfl
  · rw [Option.map_eq_bind]
    rfl

/-- The loop on a stream that goes as the text does. -/
theorem Runs.mainLoop {device : Device} {r : Reader device} {fails : Option Command → Bool}
    {block : Nat → Text} (sized : ∀ turn, (block turn).length = maxCommandSize)
    (runs : Runs number stdin ran)
    {place : Nat}
    (follows : r.Follows (maxCommandSize - 1) (exitText ++ ['\n']) (gives fails) place stdin)
    (noNul : nul ∉ stdin) {fuel : Nat} (enough : stdin.length < fuel) (turn : Nat) :
    mainLoop fails block fuel turn number r = some ran := by
  have hasRoom : 0 < maxCommandSize - 1 := by decide
  have line : '\n' ∈ exitText ++ ['\n'] := by decide
  induction runs generalizing fuel turn r place with
  | done number =>
    cases fuel with
    | zero => exact absurd enough (Nat.not_lt_zero _)
    | succ fuel =>
      have nothing := (follows.nil_iff hasRoom line).mpr rfl
      rw [Source.Pipeline.mainLoop, (Reader.fgets_ended nothing).1]
      rfl
  | exit number stdin more stops =>
    cases fuel with
    | zero => exact absurd enough (Nat.not_lt_zero _)
    | succ fuel =>
      obtain ⟨same, -⟩ := follows.step hasRoom line more
      have same : read r.ahead = read stdin := same
      rw [mainLoop_turn sized (mt (follows.nil_iff hasRoom line).mp more), same, if_pos stops]
      rw [same, stops]
      decide
  | turn number stdin later more goesOn rest ih =>
    cases fuel with
    | zero => exact absurd enough (Nat.not_lt_zero _)
    | succ fuel =>
      have shorter := unread_shorter more
      rw [← read_append stdin, List.mem_append, not_or] at noNul
      obtain ⟨same, next⟩ := follows.step hasRoom line more
      have same : read r.ahead = read stdin := same
      have onward := next.resolve_left goesOn
        (afterChildren fails (listOf (read stdin)) (r.take (maxCommandSize - 1)).2) (by
          unfold afterChildren
          split
          · next gone => exact .inr ⟨gone, rfl⟩
          · exact .inl rfl)
      rw [mainLoop_turn sized (mt (follows.nil_iff hasRoom line).mp more) (same ▸ noNul.1), same,
        if_neg goesOn, ih onward noNul.2 (by omega)]
      rfl

/-- Lists are run for the line they come from or a later one. -/
theorem Runs.line_le (runs : Runs number stdin ran) : ∀ r ∈ ran, number ≤ r.line := by
  induction runs with
  | done number => simp
  | exit number stdin more stops => simp
  | turn number stdin later more goesOn rest ih =>
    intro r member
    rcases List.mem_cons.mp member with rfl | after
    · exact Nat.le_refl _
    · exact (Nat.le_add_right _ _).trans (ih r after)

def whole (stdin : Text) : List (List (Option Command)) :=
  ((lines stdin).takeWhile (· ≠ exitText)).map listOf

theorem whole_exit (rest : Text) : whole (exitText ++ '\n' :: rest) = [] := by
  rw [whole, lines_line (by decide), List.takeWhile_cons_of_neg (by simp)]
  rfl

theorem whole_line (noLine : '\n' ∉ line) (goesOn : line ≠ exitText) (rest : Text) :
    whole (line ++ '\n' :: rest) = listOf line :: whole rest := by
  rw [whole, lines_line noLine, List.takeWhile_cons_of_pos (by simpa using goesOn)]
  rfl

theorem whole_last (noLine : '\n' ∉ line) (more : line ≠ []) :
    whole line = if line = exitText then [] else [listOf line] := by
  rw [whole, lines_last noLine more]
  split
  · next stops =>
    rw [List.takeWhile_cons_of_neg (by simpa using stops)]
    rfl
  · next goesOn =>
    rw [List.takeWhile_cons_of_pos (by simpa using goesOn)]
    rfl

theorem whole_eq_nil : whole rest = [] ↔ rest = [] ∨ (lines rest).head? = some exitText := by
  rcases first_line rest with rfl | ⟨line, rest, noLine, rfl⟩ | ⟨noLine, more⟩
  · simp [whole, lines_nil]
  · by_cases stops : line = exitText
    · subst stops
      simp [whole_exit, lines_line noLine]
    · simp [whole_line noLine stops, lines_line noLine, stops]
  · rw [whole_last noLine more, lines_last noLine more]
    by_cases stops : rest = exitText
    · simp [stops]
    · simp [stops, more]

/-- A line of up to 58 characters is read with its newline in one call of `fgets`. -/
theorem read_line (noLine : '\n' ∉ line) (fits : line.length ≤ 58) (rest : Text) :
    read (line ++ '\n' :: rest) = line ++ ['\n'] ∧ unread (line ++ '\n' :: rest) = rest := by
  have taken := fgetsTake_line noLine (Nat.lt_succ_of_le fits) rest
  exact ⟨congrArg Prod.fst taken, congrArg Prod.snd taken⟩

theorem read_exit (rest : Text) :
    read (exitText ++ '\n' :: rest) = exitText ++ ['\n'] ∧
      unread (exitText ++ '\n' :: rest) = rest :=
  read_line (by decide) (by decide) rest

/-- 59 characters without a newline fill the buffer; one call of `fgets` reads these and
leaves the rest of the line for the next. -/
theorem read_full (noLine : '\n' ∉ line) (full : line.length = 59) (rest : Text) :
    read (line ++ rest) = line ∧ unread (line ++ rest) = rest := by
  have taken := fgetsTake_full noLine rest
  rw [full] at taken
  exact ⟨congrArg Prod.fst taken, congrArg Prod.snd taken⟩

theorem read_last (noLine : '\n' ∉ line) (fits : line.length ≤ 59) :
    read line = line ∧ unread line = [] := by
  have taken := fgetsTake_last noLine fits
  exact ⟨congrArg Prod.fst taken, congrArg Prod.snd taken⟩

/-- Without a newline it is not the text that ends the loop. -/
theorem ne_exit (noLine : '\n' ∉ line) : line ≠ exitText ++ ['\n'] :=
  fun same => noLine (same ▸ by decide)

theorem line_ne_exit (goesOn : line ≠ exitText) : line ++ ['\n'] ≠ exitText ++ ['\n'] :=
  fun same => goesOn (List.append_cancel_right same)

theorem count_newline (noLine : '\n' ∉ line) : (line ++ ['\n']).count '\n' = 1 := by
  rw [List.count_append, List.count_eq_zero_of_not_mem noLine, List.count_singleton_self]

/-- One turn of the loop, with the rest of the file for the turns after it. -/
theorem Runs.goOn {text : Text} (more : stdin ≠ []) (reads : read stdin = text)
    (leaves : unread stdin = rest) (goesOn : text ≠ exitText ++ ['\n'])
    (later : Runs (number + text.count '\n') rest ran) :
    Runs number stdin (⟨number, listOf text⟩ :: ran) := by
  subst reads
  subst leaves
  exact .turn number stdin ran more goesOn later

/-- And back: if the program goes on at all, its first list is that of the text it has
read. -/
theorem Runs.goOn_cases {text : Text} (runs : Runs number stdin ran) (more : stdin ≠ [])
    (reads : read stdin = text) (leaves : unread stdin = rest)
    (goesOn : text ≠ exitText ++ ['\n']) :
    ∃ later, ran = ⟨number, listOf text⟩ :: later ∧
      Runs (number + text.count '\n') rest later := by
  subst reads
  subst leaves
  cases runs with
  | done => exact absurd rfl more
  | exit _ _ more stops => exact absurd stops goesOn
  | turn _ _ later more _ rest => exact ⟨later, rfl, rest⟩

/-- Fitting inputs are run as they are to be. -/
theorem Fitting.runs (fitting : Fitting stdin) (number : Nat) :
    ∃ ran, Runs number stdin ran ∧ ran.map Ran.commands = whole stdin ∧
      (ran.map Ran.line).Nodup := by
  induction fitting generalizing number with
  | nothing => exact ⟨[], .done number, rfl, List.nodup_nil⟩
  | exit rest =>
    have reads := (read_exit rest).1
    refine ⟨[], .exit number _ (by simp) reads, ?_, List.nodup_nil⟩
    rw [whole_exit]
    rfl
  | line line rest noLine goesOn fits later ih =>
    obtain ⟨reads, leaves⟩ := read_line noLine fits rest
    obtain ⟨ran, runs, same, distinct⟩ := ih (number + 1)
    have count := count_newline noLine
    refine ⟨_, .goOn (by simp) reads leaves (line_ne_exit goesOn) (by rw [count]; exact runs),
      ?_, ?_⟩
    · rw [List.map_cons, same, whole_line noLine goesOn, listOf_newline noLine]
    · rw [List.map_cons, List.nodup_cons]
      refine ⟨fun again => ?_, distinct⟩
      obtain ⟨r, member, old⟩ := List.mem_map.mp again
      exact absurd (runs.line_le r member) (Nat.not_le_of_lt (Nat.lt_succ_of_le (Nat.le_of_eq old)))
  | last line noLine nonempty goesOn fits =>
    obtain ⟨reads, leaves⟩ := read_last noLine fits
    refine ⟨_, .goOn nonempty reads leaves (ne_exit noLine) (.done _), ?_,
      List.pairwise_singleton _ _⟩
    rw [whole_last noLine nonempty, if_neg goesOn]
    rfl
  | cut line rest noLine full same ends =>
    have long : exitText ++ '\n' :: rest ≠ [] := by simp
    obtain ⟨reads, leaves⟩ := read_full noLine full (exitText ++ '\n' :: rest)
    have stops := (read_exit rest).1
    rw [List.append_assoc]
    refine ⟨_, .goOn (by simp [long]) reads leaves (ne_exit noLine) (.exit _ _ long stops), ?_,
      List.pairwise_singleton _ _⟩
    have together : '\n' ∉ line ++ exitText := by
      rw [List.mem_append]
      exact fun inside => inside.elim noLine (by decide)
    have longer : line ++ exitText ≠ exitText := by
      intro short
      have length := congrArg List.length short
      rw [List.length_append, full] at length
      exact absurd length (by decide)
    rw [← List.append_assoc, whole_line together longer, whole_eq_nil.mpr ends,
      ← listOf_eq_iff.mpr same]
    rfl

/-- A line that is not read in one piece is run twice, unless its second piece
ends the loop. -/
theorem Runs.cut {again : Text} (noLine : '\n' ∉ line) (full : line.length = 59)
    (more : again ≠ []) (runs : Runs number (line ++ again) ran)
    (distinct : (ran.map Ran.line).Nodup) :
    ran = [⟨number, listOf line⟩] ∧ read again = exitText ++ ['\n'] := by
  obtain ⟨reads, leaves⟩ := read_full noLine full again
  have nonempty : line ++ again ≠ [] := by simp [more]
  obtain ⟨later, rfl, rest⟩ := runs.goOn_cases nonempty reads leaves (ne_exit noLine)
  rw [List.count_eq_zero_of_not_mem noLine, Nat.add_zero] at rest
  by_cases stops : read again = exitText ++ ['\n']
  · cases rest with
    | done => exact absurd rfl more
    | exit => exact ⟨rfl, stops⟩
    | turn _ _ _ _ goesOn _ => exact absurd stops goesOn
  · obtain ⟨others, rfl, -⟩ := rest.goOn_cases more rfl rfl stops
    simp at distinct

theorem mem_of_mem_read {c : Char} (inside : c ∈ read stdin) : c ∈ stdin := by
  rw [← read_append stdin]
  exact List.mem_append_left _ inside

/-- The loop is ended by a line, or the rest of one, that reads "exit". -/
theorem eq_exit_of_read (noLine : '\n' ∉ line)
    (stops : read (line ++ '\n' :: rest) = exitText ++ ['\n']) : line = exitText := by
  by_cases fits : line.length ≤ 58
  · rw [(read_line noLine fits rest).1] at stops
    exact List.append_cancel_right stops
  · have full : (line.take 59).length = 59 := by
      rw [List.length_take]
      omega
    have noFirst : '\n' ∉ line.take 59 := fun inside => noLine (List.mem_of_mem_take inside)
    rw [← List.take_append_drop 59 line, List.append_assoc, (read_full noFirst full _).1] at stops
    exact absurd stops (ne_exit noFirst)

/-- If the lists run are those of whole lines, and no line gives two, every line fits.
-/
theorem Runs.fitting (runs : Runs number stdin ran) (same : ran.map Ran.commands = whole stdin)
    (distinct : (ran.map Ran.line).Nodup) : Fitting stdin := by
  induction length : stdin.length using Nat.strong_induction_on generalizing number stdin ran with
  | h size ih =>
    subst length
    rcases first_line stdin with rfl | ⟨line, rest, noLine, rfl⟩ | ⟨noLine, more⟩
    · exact .nothing
    · by_cases stops : line = exitText
      · subst stops
        exact .exit rest
      · by_cases fits : line.length ≤ 58
        · obtain ⟨reads, leaves⟩ := read_line noLine fits rest
          obtain ⟨later, rfl, others⟩ := runs.goOn_cases (by simp) reads leaves (line_ne_exit stops)
          rw [List.map_cons, whole_line noLine stops] at same
          apply Fitting.line line rest noLine stops fits
          apply ih rest.length (by simp; omega) others (List.cons.inj same).2 _ rfl
          exact (List.nodup_cons.mp distinct).2
        · -- The first read is 59 characters of the line.
          have pieces := List.take_append_drop 59 line
          have full : (line.take 59).length = 59 := by
            rw [List.length_take]
            omega
          have noFirst : '\n' ∉ line.take 59 := fun inside => noLine (List.mem_of_mem_take inside)
          have noSecond : '\n' ∉ line.drop 59 := fun inside => noLine (List.mem_of_mem_drop inside)
          rw [← pieces, List.append_assoc] at runs
          obtain ⟨rfl, second⟩ := runs.cut noFirst full (by simp) distinct
          have left := eq_exit_of_read noSecond second
          rw [left] at pieces
          rw [whole_line noLine stops] at same
          obtain ⟨first, others⟩ := List.cons.inj same
          rw [← pieces] at first ⊢
          rw [List.take_left' full] at first
          exact .cut _ rest noFirst full (listOf_eq_iff.mp first) (whole_eq_nil.mp others.symm)
    · by_cases fits : stdin.length ≤ 59
      · obtain ⟨reads, leaves⟩ := read_last noLine fits
        obtain ⟨later, rfl, others⟩ := runs.goOn_cases more reads leaves (ne_exit noLine)
        apply Fitting.last stdin noLine more _ fits
        intro stops
        rw [whole_last noLine more, if_pos stops] at same
        cases same
      · have full : (stdin.take 59).length = 59 := by
          rw [List.length_take]
          omega
        have noFirst : '\n' ∉ stdin.take 59 := fun inside => noLine (List.mem_of_mem_take inside)
        have again : stdin.drop 59 ≠ [] := by
          intro nothing
          have length := congrArg List.length nothing
          rw [List.length_drop, List.length_nil] at length
          omega
        rw [← List.take_append_drop 59 stdin] at runs
        obtain ⟨-, second⟩ := runs.cut noFirst full again distinct
        have newline : '\n' ∈ read (stdin.drop 59) := second ▸ by decide
        exact absurd (List.mem_of_mem_drop (mem_of_mem_read newline)) noLine

end Loop

end EltexCourse.Guarantees.Pipeline.WholeLines
