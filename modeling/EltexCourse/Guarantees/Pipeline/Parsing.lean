import Mathlib.Data.List.Induction
import EltexCourse.Source.Pipeline.Parse

/-!
# task12/pipeline_bash: `parse` and a plain split

`parse` scans one block twice over: the outer `strtok_r` walks it from segment
to segment, while the trim and the inner `strtok_r` write terminators into the
segment just found. They stay inside it, so the outer scan goes on as if nothing
had happened, and what they read is the plain split of the segment.
-/

set_option autoImplicit false

namespace EltexCourse.Guarantees.Pipeline.Parsing
open Foundations.CString Foundations.CBuffer Source.Pipeline

theorem trimEnd_empty (block : Text) (com : Nat) : trimEnd block com com = some com := by
  cases com with
  | zero => rfl
  | succ last => rw [trimEnd, if_neg (by omega)]

/-- From behind, spaces are passed down to the last other character. -/
theorem trimEnd_spaces {trail : Text} (spaces : ∀ c ∈ trail, c = ' ') {d : Char} (solid : d ≠ ' ')
    (pre init post : Text) :
    trimEnd (pre ++ init ++ d :: (trail ++ post)) pre.length (pre ++ init ++ d :: trail).length =
      some (pre ++ init ++ [d]).length := by
  induction trail using List.reverseRecOn generalizing post with
  | nil =>
    have at_d := getElem?_at (pre ++ init) post d
    have last : (pre ++ init ++ [d]).length = (pre ++ init).length + 1 := by simp [Nat.add_assoc]
    rw [last, trimEnd]
    split
    · simp only [List.nil_append, at_d, Option.bind_eq_bind, Option.bind_some, if_neg solid]
    · rfl
  | append_singleton trail c ih =>
    have space : c = ' ' := spaces c (by simp)
    have at_c := getElem?_at (pre ++ init ++ d :: trail) post c
    have last : (pre ++ init ++ d :: (trail ++ [c])).length =
        (pre ++ init ++ d :: trail).length + 1 := by
      simp only [List.length_append, List.length_cons, List.length_nil]
      omega
    have rest := ih (fun e inside => spaces e (by simp [inside])) (c :: post)
    simp only [List.append_assoc, List.cons_append, List.nil_append] at at_c rest ⊢
    simp only [List.append_assoc] at last
    have behind : pre.length < (pre ++ (init ++ d :: trail)).length := by
      simp only [List.length_append, List.length_cons]
      omega
    rw [last, trimEnd, if_pos behind, at_c, Option.bind_eq_bind, Option.bind_some,
      if_pos space]
    exact rest

/-- A string is all spaces, or has a first and a last other character. -/
theorem spaces_or_core (w : Text) : (∀ c ∈ w, c = ' ') ∨
    ∃ lead c rest init d trail, w = lead ++ c :: rest ∧ c :: rest = init ++ d :: trail ∧
      (∀ c ∈ lead, c = ' ') ∧ c ≠ ' ' ∧ (∀ c ∈ trail, c = ' ') ∧ d ≠ ' ' := by
  rcases exists_first (· = ' ') w with only | ⟨lead, c, rest, isLead, spaces, solid⟩
  · exact Or.inl fun c inside => by simpa using only c inside
  · have solid : c ≠ ' ' := by simpa using solid
    rcases exists_first (· = ' ') (c :: rest).reverse with only |
      ⟨trail, d, init, isTrail, after, last⟩
    · exact absurd (by simpa using only c (by simp)) solid
    · refine Or.inr ⟨lead, c, rest, init.reverse, d, trail.reverse, isLead, ?_, ?_, solid, ?_, ?_⟩
      · simpa using congrArg List.reverse isTrail
      · exact fun c inside => by simpa using spaces c inside
      · exact fun c inside => by simpa using after c (by simpa using inside)
      · simpa using last

/-- Spaces in front are passed over up to the first other character. -/
theorem skip_spaces {lead : Text} (spaces : ∀ c ∈ lead, c = ' ') {c : Char} (solid : c ≠ ' ')
    (pre post : Text) :
    skip (· = ' ') (pre ++ (lead ++ c :: post)) pre.length = some (pre ++ lead).length := by
  rw [skip_at (fun c inside => by simpa using spaces c inside) (by simpa using solid),
    List.length_append]

theorem trim_spaces {w : Text} (spaces : ∀ c ∈ w, c = ' ') (pre post : Text) :
    trim (pre ++ w ++ nul :: post) pre.length =
      some ((pre ++ w).length, pre ++ w ++ nul :: post) := by
  have skipped := skip_spaces spaces (c := nul) (by decide) pre post
  have length := strlen_at (s := []) (by simp) (pre ++ w) post
  have stored := store_at (pre ++ w) post nul nul
  rw [List.nil_append] at length
  rw [← List.append_assoc] at skipped
  simp only [trim, skipped, length, stored, trimEnd_empty, Option.bind_eq_bind, Option.bind_some,
    List.length_nil, Nat.add_zero]

/-- The trim cuts a segment down to its core; what is written into the core later
stays inside the segment. -/
theorem trim_core {lead rest init trail : Text} {c d : Char}
    (isCore : c :: rest = init ++ d :: trail)
    (leading : ∀ c ∈ lead, c = ' ') (first : c ≠ ' ') (trailing : ∀ c ∈ trail, c = ' ')
    (last : d ≠ ' ') (noNul : nul ∉ c :: rest) (pre post : Text) :
    ∃ after, trim (pre ++ (lead ++ c :: rest) ++ nul :: post) pre.length =
        some ((pre ++ lead).length, pre ++ lead ++ (init ++ [d]) ++ nul :: after) ∧
      ∀ core : Text, core.length = (init ++ [d]).length →
        ∃ w : Text, w.length = (lead ++ c :: rest).length ∧
          pre ++ lead ++ core ++ nul :: after = pre ++ w ++ nul :: post := by
  have whole : c :: (rest ++ nul :: post) = init ++ d :: (trail ++ nul :: post) := by
    rw [← List.cons_append, isCore, List.append_assoc, List.cons_append]
  rw [isCore] at noNul
  have skipped : skip (· = ' ') (pre ++ (lead ++ (init ++ d :: (trail ++ nul :: post))))
    pre.length =
      some (pre ++ lead).length := whole ▸ skip_spaces leading first pre (rest ++ nul :: post)
  have length := strlen_at noNul (pre ++ lead) post
  have stop := trimEnd_spaces trailing last (pre ++ lead) init (nul :: post)
  obtain ⟨old, after, behind, frame⟩ : ∃ old after, trail ++ nul :: post = old :: after ∧
      ∀ core : Text, ∃ tail : Text, tail.length = trail.length ∧
        core ++ nul :: after = core ++ (tail ++ nul :: post) := by
    cases trail with
    | nil => exact ⟨nul, post, rfl, fun core => ⟨[], rfl, rfl⟩⟩
    | cons e trail => exact ⟨e, trail ++ nul :: post, rfl, fun core => ⟨nul :: trail, rfl, rfl⟩⟩
  have stored := store_at (pre ++ lead ++ init ++ [d]) after old nul
  rw [← behind] at stored
  refine ⟨after, ?_, fun core same => ?_⟩
  · rw [isCore]
    simp only [List.append_assoc, List.cons_append, List.nil_append, List.length_append]
      at skipped length stop stored ⊢
    simp only [trim, skipped, length, stop, stored, Option.bind_eq_bind, Option.bind_some,
      Nat.add_assoc]
  · obtain ⟨tail, length, text⟩ := frame core
    refine ⟨lead ++ core ++ tail, ?_, by simp only [List.append_assoc, text]⟩
    rw [isCore]
    simp only [List.length_append, List.length_cons, List.length_nil] at same ⊢
    omega

/-- What `args` is to hold: the words that fit in front of the NULL. -/
def words (segment : Text) : List Text := (tokens [' '] segment).take (maxArgs - 1)

/-- `args` while it is filled. -/
def filled (words : List Text) : Args :=
  words.map (some ∘ some) ++ List.replicate (maxArgs - words.length) none

theorem store_filled {read : List Text} (room : read.length < maxArgs) (slot : Option Text) :
    store (filled read) read.length (some slot) = some (read.map (some ∘ some) ++
      some slot :: List.replicate (maxArgs - (read.length + 1)) none) := by
  have slots : List.replicate (maxArgs - read.length) (none : Option (Option Text)) =
      none :: List.replicate (maxArgs - (read.length + 1)) none := by
    rw [← List.replicate_succ]
    congr 1
    omega
  have stored := store_at (read.map (some ∘ some))
    (List.replicate (maxArgs - (read.length + 1)) none) none (some slot)
  rwa [List.length_map, ← slots] at stored

theorem filled_next {read : List Text} (room : read.length < maxArgs) (word : Text) :
    store (filled read) read.length (some (some word)) = some (filled (read ++ [word])) := by
  rw [store_filled room]
  simp [filled]

/-- The loop stores the tokens of its segment until there are no more, or no more room
for them. -/
theorem argsLoop_words {fuel : Nat} {s : Text} (noNul : nul ∉ s) (enough : s.length < fuel)
    {read : List Text} (room : read.length < maxArgs - 1) (pre post : Text) :
    ∃ s' : Text, s'.length = s.length ∧
      (strtokR [' '] (pre ++ s ++ nul :: post) pre.length).bind
        (fun next => argsLoop fuel next.2.1 next.1 next.2.2 read.length (filled read)) =
      some (((read ++ tokens [' '] s).take (maxArgs - 1)).length,
        filled ((read ++ tokens [' '] s).take (maxArgs - 1)), pre ++ s' ++ nul :: post) := by
  induction fuel generalizing s read pre with
  | zero => omega
  | succ fuel ih =>
    have pureDelims : nul ∉ [' '] := by decide
    have scanned := strtokR_scanned pureDelims noNul pre post
    generalize strtokR [' '] (pre ++ s ++ nul :: post) pre.length = result at scanned ⊢
    cases scanned with
    | none nothing save =>
      refine ⟨s, rfl, ?_⟩
      rw [nothing, List.append_nil, List.take_of_length_le (by omega)]
      rfl
    | @token lead word sep next split length nonempty clean ended =>
      have string := stringAt_token (fun inside => clean (List.mem_append_left _ inside)) ended
        (pre ++ lead) post
      have stored := filled_next (show read.length < maxArgs by omega) word
      simp only [Option.bind_some, argsLoop, string, stored, Option.bind_eq_bind]
      have shorter : next.length < s.length := by
        have := List.length_pos_iff.mpr nonempty
        omega
      split
      next full =>
        refine ⟨lead ++ word ++ sep ++ next, by simpa [Nat.add_assoc] using length, ?_⟩
        have whole : (read ++ tokens [' '] s).take (maxArgs - 1) = read ++ [word] := by
          rw [split, List.append_cons, List.take_append_of_le_length (by simp; omega),
            List.take_of_length_le (by simp; omega)]
        rw [whole]
        simp
      next more =>
        have room : (read ++ [word]).length < maxArgs - 1 := by simp; omega
        obtain ⟨s', same, rest⟩ := ih (fun inside => clean (List.mem_append_right _ inside))
          (by omega) room (pre ++ lead ++ word ++ sep)
        refine ⟨lead ++ word ++ sep ++ s', by simp; omega, ?_⟩
        rw [split]
        simpa using rest

/-- `args` in the end. -/
def arguments (segment : Text) : Args :=
  (words segment).map (some ∘ some) ++
    some none :: List.replicate (maxArgs - ((words segment).length + 1)) none

/-- A segment gives the arguments in order with the null pointer behind them. -/
theorem readArgs_words {s : Text} (noNul : nul ∉ s) (pre post : Text) :
    ∃ s' : Text, s'.length = s.length ∧ readArgs (pre ++ s ++ nul :: post) pre.length =
      some (arguments s, pre ++ s' ++ nul :: post) := by
  have enough : s.length < (pre ++ s ++ nul :: post).length := by
    simp only [List.length_append, List.length_cons]
    omega
  have free : ([] : List Text).length < maxArgs - 1 := by decide
  obtain ⟨s', same, loop⟩ := argsLoop_words noNul enough free pre post
  have room : (words s).length < maxArgs :=
    Nat.lt_of_le_of_lt (List.length_take_le _ _) (by decide)
  refine ⟨s', same, ?_⟩
  unfold readArgs
  simp only [Option.bind_eq_bind]
  rw [← Option.bind_assoc]
  refine (congrArg (Option.bind · _) loop).trans ?_
  rw [Option.bind_some]
  exact congrArg (Option.bind · _) (store_filled room none)

def HasWord (segment : Text) : Prop := ∃ c ∈ segment, c ≠ ' '

instance (segment : Text) : Decidable (HasWord segment) :=
  List.decidableBEx (· ≠ ' ') segment

theorem words_ne_nil {segment : Text} (hasWord : HasWord segment) : words segment ≠ [] := by
  obtain ⟨c, inside, solid⟩ := hasWord
  intro nothing
  rw [words, List.take_eq_nil_iff] at nothing
  rcases nothing with absent | nothing
  · exact absurd absent (by decide)
  · exact solid (by simpa using tokens_eq_nil nothing c inside)

def commandOf (segment : Text) : Command := ⟨(words segment).headD [], arguments segment⟩

/-- One slot is always left. -/
def parsedOf (segments : List Text) : Parsed :=
  ⟨segments.map (some ∘ commandOf) ++ [none], segments.length + 1, segments.length⟩

theorem arguments_first {segment : Text} (hasWord : HasWord segment) :
    (arguments segment)[0]? = some (some (some (commandOf segment).path)) := by
  obtain ⟨first, rest, read⟩ := List.exists_cons_of_ne_nil (words_ne_nil hasWord)
  simp [arguments, commandOf, read]

theorem addCommand_next (segments : List Text) {segment : Text} (hasWord : HasWord segment) :
    addCommand (parsedOf segments) (arguments segment) =
      some (parsedOf (segments ++ [segment])) := by
  have stored := store_at (segments.map (some ∘ commandOf)) [] none (some (commandOf segment))
  rw [List.length_map] at stored
  simp only [addCommand, arguments_first hasWord, parsedOf, Option.bind_eq_bind]
  refine (congrArg (Option.bind · _) stored).trans ?_
  simp [realloc, List.take_of_length_le]

/-- One turn of the outer loop changes the segment in place, and adds its
command if it has a word. -/
theorem parseLoop_segment {segment : Text} (noNul : nul ∉ segment) (segments : List Text)
    (pre post : Text) :
    ∃ left : Text, left.length = segment.length ∧ ∀ fuel save,
      parseLoop (fuel + 1) (pre ++ segment ++ nul :: post) (some pre.length) save
        (parsedOf segments) =
      (strtokR ['|'] (pre ++ left ++ nul :: post) save).bind fun next =>
        parseLoop fuel next.2.1 next.1 next.2.2
          (parsedOf (segments ++ [segment].filter HasWord)) := by
  rcases spaces_or_core segment with only | ⟨lead, c, rest, init, d, trail, rfl, isCore, leading,
    first, trailing, last⟩
  · have noWord : ¬ HasWord segment := fun ⟨c, inside, solid⟩ => solid (only c inside)
    have length := strlen_at (s := []) (by simp) (pre ++ segment) post
    rw [List.nil_append] at length
    refine ⟨segment, rfl, fun fuel save => ?_⟩
    simp only [parseLoop, trim_spaces only, length, Option.bind_eq_bind, Option.bind_some,
      List.length_nil, if_true]
    simp [noWord]
  · have hasWord : HasWord (lead ++ c :: rest) := ⟨c, by simp, first⟩
    have clean : nul ∉ init ++ [d] := by
      rw [isCore, List.append_cons] at noNul
      exact fun inside => noNul (List.mem_append_right _ (List.mem_append_left _ inside))
    have same : arguments (init ++ [d]) = arguments (lead ++ c :: rest) := by
      have split : tokens [' '] (lead ++ c :: rest) = tokens [' '] (init ++ [d]) := by
        rw [tokens_lead (by simpa using leading), isCore, List.append_cons,
          tokens_trail (by simpa using trailing)]
      simp only [arguments, words, split]
    obtain ⟨after, trimmed, frame⟩ := trim_core isCore leading first trailing last
      (fun inside => noNul (List.mem_append_right _ inside)) pre post
    have length := strlen_at clean (pre ++ lead) after
    obtain ⟨core, sameLength, read⟩ := readArgs_words clean (pre ++ lead) after
    obtain ⟨left, leftLength, block⟩ := frame core sameLength
    rw [← List.append_assoc] at length
    refine ⟨left, leftLength, fun fuel save => ?_⟩
    simp only [parseLoop, trimmed, length, read, same, addCommand_next segments hasWord, block,
      Option.bind_eq_bind, Option.bind_some]
    simp [hasWord]

/-- The outer loop goes through the segments between the bars and adds a command for
each that holds a word. -/
theorem parseLoop_segments {fuel : Nat} {s : Text} (noNul : nul ∉ s) (enough : s.length < fuel)
    (segments : List Text) (pre post : Text) :
    (strtokR ['|'] (pre ++ s ++ nul :: post) pre.length).bind
      (fun next => parseLoop fuel next.2.1 next.1 next.2.2 (parsedOf segments)) =
    some (parsedOf (segments ++ (tokens ['|'] s).filter HasWord)) := by
  induction fuel generalizing s segments pre with
  | zero => omega
  | succ fuel ih =>
    have pureDelims : nul ∉ ['|'] := by decide
    have scanned := strtokR_scanned pureDelims noNul pre post
    generalize strtokR ['|'] (pre ++ s ++ nul :: post) pre.length = result at scanned ⊢
    cases scanned with
    | none nothing save =>
      rw [nothing, List.filter_nil, List.append_nil]
      rfl
    | @token lead word sep next split length nonempty clean ended =>
      have shorter : next.length < s.length := by
        have := List.length_pos_iff.mpr nonempty
        omega
      obtain ⟨behind, text⟩ : ∃ behind, ∀ block : Text,
          block ++ sep ++ next ++ nul :: post = block ++ nul :: behind := by
        rcases ended with rfl | ⟨rfl, rfl⟩
        · exact ⟨next ++ nul :: post, fun block => by simp⟩
        · exact ⟨post, fun block => by simp⟩
      obtain ⟨left, same, turn⟩ := parseLoop_segment
        (fun inside => clean (List.mem_append_left _ inside)) segments (pre ++ lead) behind
      have rest := ih (fun inside => clean (List.mem_append_right _ inside)) (by omega)
        (segments ++ [word].filter HasWord) (pre ++ lead ++ left ++ sep)
      have save : (pre ++ lead ++ word ++ sep).length = (pre ++ lead ++ left ++ sep).length := by
        simp [same]
      rw [Option.bind_some]
      simp only [text] at rest ⊢
      rw [turn, save, rest, split, List.append_assoc, ← List.filter_append, List.singleton_append]

/-- What stands between '|' up to the first newline, without the blank parts. -/
def segments (line : Text) : List Text :=
  ((line.takeWhile (· ≠ '\n')).splitOn '|').filter HasWord

theorem tokens_segments (s : Text) :
    (tokens ['|'] s).filter HasWord = (s.splitOn '|').filter HasWord := by
  have delims : (fun c => decide (c ∈ ['|'])) = fun c => c == '|' := by
    funext c
    by_cases bar : c = '|' <;> simp [bar]
  have solid (segment : Text) (hasWord : HasWord segment) : segment ≠ [] := by
    obtain ⟨c, inside, _⟩ := hasWord
    exact List.ne_nil_of_mem inside
  rw [tokens, List.filter_filter, List.splitOn, delims]
  congr 1
  funext segment
  by_cases hasWord : HasWord segment
  · simp [hasWord, solid segment hasWord]
  · simp [hasWord]

/-- The command holds the words of the segment, the first of them as its path. -/
structure Holds (command : Command) (segment : Text) : Prop where
  args : command.args.take ((words segment).length + 1) =
    (words segment).map (some ∘ some) ++ [some none]
  path : command.args[0]? = some (some (some command.path))

theorem commandOf_holds {segment : Text} (hasWord : HasWord segment) :
    Holds (commandOf segment) segment := by
  refine ⟨?_, arguments_first hasWord⟩
  rw [commandOf, arguments, List.append_cons, List.take_append_of_le_length (by simp),
    List.take_of_length_le (by simp)]

/-- The line ends at a newline or at its terminator; what stands behind does not matter.
-/
theorem parse_terminated {s : Text} (noNul : nul ∉ s) (noLine : '\n' ∉ s) {c : Char}
    (stops : c = '\n' ∨ c = nul) (junk : Text) :
    parse (s ++ c :: junk) = some (parsedOf ((s.splitOn '|').filter HasWord)) := by
  have passes (d : Char) (inside : d ∈ s) : decide (d ≠ '\n' ∧ d ≠ nul) = true :=
    decide_eq_true ⟨fun same => noLine (same ▸ inside), fun same => noNul (same ▸ inside)⟩
  have stop := skip_at passes (c := c) (by simpa [imp_iff_not_or] using stops) [] junk
  have stored := store_at s junk c nul
  have loop :=
    parseLoop_segments noNul (show s.length < (s ++ nul :: junk).length by simp) [] [] junk
  rw [List.nil_append, List.length_nil, Nat.zero_add] at stop
  rw [tokens_segments] at loop
  simp only [parse, stop, stored, Option.bind_eq_bind, Option.bind_some]
  exact loop

/-- Every line without a NUL inside is parsed into those of its segments that hold a
word. -/
theorem parse_parsed {line : Text} (noNul : nul ∉ line) (junk : Text) :
    parse (line ++ nul :: junk) = some (parsedOf (segments line)) := by
  rcases exists_first (· ≠ '\n') line with only | ⟨s, c, rest, rfl, before, newline⟩
  · have noLine : '\n' ∉ line := fun inside => by simpa using only _ inside
    have whole : line.takeWhile (· ≠ '\n') = line := by simpa using only
    rw [segments, whole, parse_terminated noNul noLine (Or.inr rfl)]
  · have noLine : '\n' ∉ s := fun inside => by simpa using before _ inside
    have cut : (s ++ c :: rest).takeWhile (· ≠ '\n') = s := by
      rw [List.takeWhile_append_of_pos before, List.takeWhile_cons, newline]
      simp
    rw [segments, cut, List.append_assoc, List.cons_append, parse_terminated
      (fun inside => noNul (List.mem_append_left _ inside)) noLine
        (Or.inl (by simpa using newline))]

/-- For every line without a NUL, whatever lies behind its terminator, `parse`
returns (no access is out of bounds, and no loop runs out of fuel) with one
command for each segment, in order, and a slot to spare. -/
theorem parse_splits (line junk : Text) (noNul : nul ∉ line) :
    ∃ parsed, parse (line ++ nul :: junk) = some parsed ∧
      parsed.count = (segments line).length ∧ parsed.count < parsed.commands.length ∧
      ∀ (i : Nat) (segment : Text), (segments line)[i]? = some segment →
        ∃ command, parsed.commands[i]? = some (some command) ∧ Holds command segment := by
  refine ⟨_, parse_parsed noNul junk, rfl, by simp [parsedOf], ?_⟩
  intro i segment found
  have inside := (List.getElem?_eq_some_iff.mp found).1
  have hasWord : HasWord segment := by
    simpa using (List.mem_filter.mp (List.mem_of_getElem? found)).2
  refine ⟨commandOf segment, ?_, commandOf_holds hasWord⟩
  rw [parsedOf, List.getElem?_append_left (by simpa using inside), List.getElem?_map, found]
  rfl

theorem parse_splits_two :
    ∃ parsed, parse ("ls  -l | |wc \n".toList ++ nul :: []) = some parsed ∧ parsed.count = 2 ∧
      ∃ command, parsed.commands[1]? = some (some command) ∧ Holds command "wc ".toList := by
  obtain ⟨parsed, result, count, _, found⟩ := parse_splits "ls  -l | |wc \n".toList [] (by decide)
  exact ⟨parsed, result, count.trans (by decide), found 1 _ (by decide)⟩

end EltexCourse.Guarantees.Pipeline.Parsing
