import EltexCourse.Source.Drivers.CommandLine
import EltexCourse.Source.Drivers.ManagerMoves

/-!
# task_drivers: what a line does to the manager

The byte-level reading of a line is a plain split at its newline and its
spaces. A pass is safe for exactly those lines whose terminator fits, that have
a word, and whose task or status request is complete and names a driver.
-/

set_option autoImplicit false

namespace EltexCourse.Guarantees.Drivers.Commands
open Foundations.CString Foundations.CBuffer Foundations.Decimal Source.Drivers

/-- The string `fgets` leaves in `buff`. -/
def text (line : Line) : Text := line.bytes.takeWhile (· ≠ nul)

def content (line : Line) : Text := (text line).takeWhile (· ≠ '\n')

def words (line : Line) : List Text := tokens [' '] (content line)

/-- The pid a task or a status request names. -/
def namedPid (line : Line) : Option Int :=
  match words line with
  | word :: pid :: _ =>
    if word = sendTaskText ∨ word = getStatusText then some (atoi pid) else none
  | _ => none

/-- The pass has no fault, and if the line names a pid that is no driver's, it
changes nothing and writes to no driver. -/
def Proper (drv : Drv) (line : Line) (forked stat : Int) : Prop :=
  ∃ outcome, mainPass drv line forked stat = .ok outcome ∧
    ∀ pid, namedPid line = some pid → pid ∉ drv.pids →
      outcome.drv = drv ∧ outcome.started = none ∧ ∀ i r, Op.send i r ∉ outcome.todo

/-- The words behind `send_task` or `get_status` are there, and the first is the
pid of a driver. -/
def Complete (drv : Drv) : List Text → Prop
  | [] => False
  | word :: args =>
    if word = sendTaskText then ∃ pid time rest, args = pid :: time :: rest ∧ atoi pid ∈ drv.pids
    else if word = getStatusText then ∃ pid rest, args = pid :: rest ∧ atoi pid ∈ drv.pids
    else True

/-- The lines the program handles. -/
structure Handled (drv : Drv) (line : Line) : Prop where
  room : (text line).length + 2 ≤ buffSize
  nonempty : content line ≠ []
  complete : content line ∈ [createDriverText, quitText, getDriversText] ∨
    Complete drv (words line)

section
variable (line : Line)

theorem text_noNul : nul ∉ text line := nul_notMem_takeWhile _

theorem content_noNul : nul ∉ content line := fun inside =>
  text_noNul line (List.takeWhile_subset _ inside)

theorem content_noNewline : '\n' ∉ content line := by
  intro inside
  simpa using List.mem_takeWhile_imp inside

/-- Memory after `fgets`. -/
theorem exists_buff : ∃ post,
    writeString (List.replicate buffSize nul) line.bytes = some (text line ++ nul :: post) ∧
      (text line ++ nul :: post).length = buffSize := by
  have fits : line.bytes.length < (List.replicate buffSize nul).length := by
    simpa using line.fits
  obtain ⟨post, buff⟩ := exists_terminated line.bytes
    ((List.replicate buffSize nul).drop (line.bytes.length + 1))
  have short := line.fits
  refine ⟨post, ?_, ?_⟩
  · rw [writeString, if_pos fits, text, ← buff]
  · rw [text, ← buff]
    simp only [List.length_append, List.length_cons, List.length_drop, List.length_replicate]
    omega

theorem readLine_room (room : (text line).length + 2 ≤ buffSize) :
    ∃ post, readLine line = .ok (text line ++ nul :: post) := by
  obtain ⟨post, written, size⟩ := exists_buff line
  have length := strlen_at (text_noNul line) [] post
  rw [List.nil_append, List.length_nil] at length
  rw [readLine, written]
  refine ⟨post.set 0 nul, ?_⟩
  show (inBounds (strlen (text line ++ nul :: post) 0) >>= _) = _
  rw [length]
  show inBounds (store (text line ++ nul :: post) ((text line).length + 1) nul) = _
  rw [store, if_pos (by omega), List.set_append_right _ _ (Nat.le_add_right _ _),
    Nat.add_sub_cancel_left]
  rfl

/-- The terminator of a full line would stand behind the buffer. -/
theorem readLine_full (full : ¬ (text line).length + 2 ≤ buffSize) :
    readLine line = .error .outOfBounds := by
  obtain ⟨post, written, size⟩ := exists_buff line
  have length := strlen_at (text_noNul line) [] post
  rw [List.nil_append, List.length_nil] at length
  rw [readLine, written]
  show (inBounds (strlen (text line ++ nul :: post) 0) >>= _) = _
  rw [length]
  show inBounds (store (text line ++ nul :: post) ((text line).length + 1) nul) = _
  rw [store, if_neg (by omega)]
  rfl

/-- Behind its first newline a line has nothing. -/
theorem text_content : text line = content line ∨ text line = content line ++ ['\n'] := by
  rcases exists_first (· ≠ '\n') (text line) with only | ⟨before, c, post, split, passes, fails⟩
  · left
    exact (List.takeWhile_eq_self_iff.mpr only).symm
  · obtain rfl : c = '\n' := by simpa using fails
    have cut : content line = before := by
      rw [content, split, List.takeWhile_append_of_pos passes, List.takeWhile_cons_of_neg (by simp),
        List.append_nil]
    obtain ⟨more, bytes⟩ : text line <+: line.bytes := List.takeWhile_prefix _
    have behind : post ++ more = [] := by
      by_contra nonempty
      refine line.oneLine ?_
      rw [← bytes, split, List.append_assoc, List.cons_append,
        List.dropLast_append_of_ne_nil (by simp), List.dropLast_cons_of_ne_nil nonempty]
      simp
    right
    rw [split, cut, (List.append_eq_nil_iff.mp behind).1]

end

theorem strtokAt_none {delims s : Text} (pureDelims : nul ∉ delims) (noNul : nul ∉ s)
    (nothing : tokens delims s = []) (pre post : Text) :
    ∃ block save, strtokAt delims (pre ++ s ++ nul :: post) pre.length =
      .ok (none, block, save) := by
  have scanned := strtokR_scanned pureDelims noNul pre post
  rw [strtokAt]
  generalize strtokR delims (pre ++ s ++ nul :: post) pre.length = found at scanned ⊢
  cases scanned with
  | none _ save => exact ⟨_, save, rfl⟩
  | token split => simp [nothing] at split

/-- Else it returns the first and leaves the rest of the tokens for the next call. -/
theorem strtokAt_word {delims s word : Text} {ws : List Text} (pureDelims : nul ∉ delims)
    (noNul : nul ∉ s) (first : tokens delims s = word :: ws) (pre post : Text) :
    ∃ before next, strtokAt delims (pre ++ s ++ nul :: post) pre.length =
        .ok (some word, before ++ next ++ nul :: post, before.length) ∧
      nul ∉ next ∧ tokens delims next = ws := by
  have scanned := strtokR_scanned pureDelims noNul pre post
  rw [strtokAt]
  generalize strtokR delims (pre ++ s ++ nul :: post) pre.length = found at scanned ⊢
  cases scanned with
  | none nothing => simp [nothing] at first
  | @token lead other sep next split _ _ clean ended =>
    obtain ⟨rfl, rfl⟩ := List.cons.inj (first.symm.trans split)
    have string := stringAt_token (fun inside => clean (List.mem_append_left _ inside)) ended
      (pre ++ lead) post
    refine ⟨pre ++ lead ++ word ++ sep, next, ?_,
      fun inside => clean (List.mem_append_right _ inside), rfl⟩
    show (inBounds (stringAt _ _) >>= _) = _
    rw [string]
    rfl

/-- What the first tokenising leaves: the line without its newline. -/
theorem strtokAt_line (line : Line) (nonempty : content line ≠ []) (post : Text) :
    ∃ after save, strtokAt ['\n'] (text line ++ nul :: post) 0 =
      .ok (some (content line), content line ++ nul :: after, save) := by
  have outside : ∀ c ∈ content line, c ∉ ['\n'] := fun c inside newline =>
    content_noNewline line (List.mem_singleton.mp newline ▸ inside)
  have clean := content_noNul line
  have noLead : ∀ c ∈ ([] : Text), c ∈ ['\n'] := by simp
  rcases text_content line with whole | ended
  · have found := strtokR_last noLead nonempty outside clean [] post
    simp only [List.nil_append, List.length_nil] at found
    refine ⟨post, (content line).length, ?_⟩
    rw [strtokAt, whole, found]
    show (inBounds (stringAt _ _) >>= _) = _
    rw [stringAt_start clean]
    rfl
  · have found := @strtokR_delim ['\n'] [] (content line) [] '\n' (by decide) noLead nonempty
      outside clean (List.mem_singleton_self '\n') [] post
    simp only [List.nil_append, List.append_nil, List.length_nil] at found
    refine ⟨nul :: post, (content line ++ [nul]).length, ?_⟩
    rw [strtokAt, ended, found]
    show (inBounds (stringAt _ _) >>= _) = _
    rw [List.append_assoc, List.singleton_append, stringAt_start clean]
    rfl

theorem strtokAt_blank (line : Line) (empty : content line = []) (post : Text) :
    ∃ block save, strtokAt ['\n'] (text line ++ nul :: post) 0 = .ok (none, block, save) := by
  refine strtokAt_none (by decide) (text_noNul line) ?_ [] post
  rcases text_content line with whole | ended
  · rw [whole, empty, tokens_nil]
  · rw [ended, empty]
    rfl

/-- The command that words make up. -/
def commandOf : List Text → Except Fault Command
  | [] => .error .nullToken
  | word :: args =>
    if word = sendTaskText then
      match args with
      | pid :: time :: _ => .ok (.sendTask (atoi pid) (atoi time))
      | _ => .error .nullToken
    else if word = getStatusText then
      match args with
      | pid :: _ => .ok (.getStatus (atoi pid))
      | [] => .error .nullToken
    else .ok .unknown

/-- The calls of `strtok` take the words of the line one after the other, each when the
command asks for it. -/
theorem readWords_eq {s : Text} (noNul : nul ∉ s) (post : Text) :
    readWords (s ++ nul :: post) = commandOf (tokens [' '] s) := by
  have pureDelims : nul ∉ [' '] := by decide
  rw [readWords]
  cases first : tokens [' '] s with
  | nil =>
    obtain ⟨block, save, found⟩ := strtokAt_none pureDelims noNul first [] post
    rw [List.nil_append, List.length_nil] at found
    rw [found]
    rfl
  | cons word args =>
    obtain ⟨before, next, found, clean, second⟩ := strtokAt_word pureDelims noNul first [] post
    rw [List.nil_append, List.length_nil] at found
    rw [found]
    show (if word = sendTaskText then _ else if word = getStatusText then _ else _) =
      (if word = sendTaskText then _ else if word = getStatusText then _ else _)
    by_cases task : word = sendTaskText
    · rw [if_pos task, if_pos task]
      cases args with
      | nil =>
        obtain ⟨block, save, found⟩ := strtokAt_none pureDelims clean second before post
        rw [found]
        rfl
      | cons pid args =>
        obtain ⟨before, next, found, clean, third⟩ :=
          strtokAt_word pureDelims clean second before post
        rw [found]
        show (strtokAt [' '] (before ++ next ++ nul :: post) before.length >>= _) = _
        cases args with
        | nil =>
          obtain ⟨block, save, found⟩ := strtokAt_none pureDelims clean third before post
          rw [found]
          rfl
        | cons time args =>
          obtain ⟨before, next, found, -, -⟩ :=
            strtokAt_word pureDelims clean third before post
          rw [found]
          rfl
    · rw [if_neg task, if_neg task]
      by_cases status : word = getStatusText
      · rw [if_pos status, if_pos status]
        cases args with
        | nil =>
          obtain ⟨block, save, found⟩ := strtokAt_none pureDelims clean second before post
          rw [found]
          rfl
        | cons pid args =>
          obtain ⟨before, next, found, -, -⟩ := strtokAt_word pureDelims clean second before post
          rw [found]
          rfl
      · rw [if_neg status, if_neg status]

/-- The command of a line that has room and is not blank. -/
def commandOfLine (line : Line) : Except Fault Command :=
  if content line = createDriverText then .ok .createDriver
  else if content line = quitText then .ok .quit
  else if content line = getDriversText then .ok .getDrivers
  else commandOf (words line)

/-- A line that fits and is not blank is read as its words say. -/
theorem readCommand_eq {line : Line} (room : (text line).length + 2 ≤ buffSize)
    (nonempty : content line ≠ []) : readCommand line = commandOfLine line := by
  obtain ⟨post, read⟩ := readLine_room line room
  obtain ⟨after, save, found⟩ := strtokAt_line line nonempty post
  have rest := readWords_eq (content_noNul line) after
  rw [readCommand, read]
  show (strtokAt ['\n'] (text line ++ nul :: post) 0 >>= _) = _
  rw [found]
  show (if content line = createDriverText then _ else if content line = quitText then _
    else if content line = getDriversText then _ else readWords (content line ++ nul :: after)) = _
  rw [rest]
  rfl

theorem readCommand_full {line : Line} (full : ¬ (text line).length + 2 ≤ buffSize) :
    readCommand line = .error .outOfBounds := by
  rw [readCommand, readLine_full line full]
  rfl

theorem readCommand_blank {line : Line} (room : (text line).length + 2 ≤ buffSize)
    (empty : content line = []) : readCommand line = .error .nullToken := by
  obtain ⟨post, read⟩ := readLine_room line room
  obtain ⟨block, save, found⟩ := strtokAt_blank line empty post
  rw [readCommand, read]
  show (strtokAt ['\n'] (text line ++ nul :: post) 0 >>= _) = _
  rw [found]
  rfl

section
variable {drv : Drv} {line : Line} {forked stat : Int}

theorem not_proper_of_fault {fault : Fault}
    (faulty : mainPass drv line forked stat = .error fault) :
    ¬ Proper drv line forked stat := by
  rintro ⟨outcome, ok, -⟩
  rw [faulty] at ok
  cases ok

theorem mainPass_read {command : Command} (read : readCommand line = .ok command) :
    mainPass drv line forked stat = perform drv forked stat command := by
  rw [mainPass, read]
  rfl

theorem mainPass_fault {fault : Fault} (read : readCommand line = .error fault) :
    mainPass drv line forked stat = .error fault := by
  rw [mainPass, read]
  rfl

/-- A pass that carries its command out and names no pid but a driver's. -/
theorem proper_of_performed {command : Command} {outcome : Outcome}
    (read : readCommand line = .ok command)
    (performed : perform drv forked stat command = .ok outcome)
    (named : ∀ pid, namedPid line = some pid → pid ∈ drv.pids) : Proper drv line forked stat :=
  ⟨outcome, (mainPass_read read).trans performed,
    fun pid names unknown => absurd (named pid names) unknown⟩

/-- A command of one word without spaces names nobody. -/
theorem namedPid_content {word : Text} (whole : content line = word) (nonempty : word ≠ [])
    (noSpace : ' ' ∉ word) : namedPid line = none := by
  have outside : ∀ c ∈ word, c ∉ [' '] := fun c inside space =>
    noSpace (List.mem_singleton.mp space ▸ inside)
  rw [namedPid, words, whole, tokens_word nonempty outside]

theorem namedPid_args {word pid : Text} {rest : List Text}
    (split : words line = word :: pid :: rest)
    (takes : word = sendTaskText ∨ word = getStatusText) : namedPid line = some (atoi pid) := by
  rw [namedPid, split]
  exact if_pos takes

/-- A pass that is given a pid is safe if that is a driver's. -/
theorem proper_named {command : Command} {pid : Int} (names : namedPid line = some pid)
    (read : readCommand line = .ok command)
    (known : pid ∈ drv.pids → ∃ outcome, perform drv forked stat command = .ok outcome)
    (unknown : pid ∉ drv.pids → perform drv forked stat command = .error .outOfBounds) :
    Proper drv line forked stat ↔ pid ∈ drv.pids := by
  by_cases live : pid ∈ drv.pids
  · obtain ⟨outcome, performed⟩ := known live
    refine iff_of_true (proper_of_performed read performed fun other same => ?_) live
    rw [names] at same
    cases same
    exact live
  · exact iff_of_false (not_proper_of_fault ((mainPass_read read).trans (unknown live))) live

/-- A command is carried out properly exactly when all the words it needs are there. -/
theorem proper_words (read : readCommand line = commandOf (words line)) :
    Proper drv line forked stat ↔ Complete drv (words line) := by
  have missing (incomplete : readCommand line = .error .nullToken) :
      ¬ Proper drv line forked stat := not_proper_of_fault (mainPass_fault incomplete)
  cases split : words line with
  | nil =>
    rw [split] at read
    exact iff_of_false (missing read) id
  | cons word args =>
    rw [split] at read
    by_cases task : word = sendTaskText
    · simp only [commandOf, if_pos task] at read
      simp only [Complete, if_pos task]
      match args, split, read with
      | [], _, read | [_], _, read =>
        refine iff_of_false (missing read) ?_
        rintro ⟨_, _, _, same, -⟩
        cases same
      | pid :: time :: rest, split, read =>
        rw [proper_named (namedPid_args split (Or.inl task)) read
          (fun live => (perform_sendTask drv forked stat live _).elim fun _ found => ⟨_, found.2⟩)
          (fun absent => sendTask_unknown_pid drv forked stat absent _)]
        simp
    · by_cases status : word = getStatusText
      · simp only [commandOf, if_neg task, if_pos status] at read
        simp only [Complete, if_neg task, if_pos status]
        match args, split, read with
        | [], _, read =>
          refine iff_of_false (missing read) ?_
          rintro ⟨_, _, same, -⟩
          cases same
        | pid :: rest, split, read =>
          rw [proper_named (namedPid_args split (Or.inr status)) read
            (fun live => (perform_getStatus drv forked stat live).elim fun _ found => ⟨_, found.2⟩)
            (getStatus_unknown_pid drv forked stat)]
          simp
      · simp only [commandOf, if_neg task, if_neg status] at read
        simp only [Complete, if_neg task, if_neg status, iff_true]
        refine proper_of_performed read rfl fun pid names => ?_
        rw [namedPid, split] at names
        cases args with
        | nil => cases names
        | cons first rest => simp [task, status] at names

/-- A pass is safe for a line if and only if the line is one the program
handles. -/
theorem proper_iff_handled (drv : Drv) (line : Line) (forked stat : Int) :
    Proper drv line forked stat ↔ Handled drv line := by
  by_cases room : (text line).length + 2 ≤ buffSize
  · by_cases nonempty : content line = []
    · exact iff_of_false (not_proper_of_fault (mainPass_fault (readCommand_blank room nonempty)))
        fun handled => handled.nonempty nonempty
    · have read := readCommand_eq room nonempty
      have oneWord {word : Text} {command : Command} (whole : content line = word)
          (known : word ∈ [createDriverText, quitText, getDriversText])
          (noSpace : ' ' ∉ word) (command_eq : readCommand line = .ok command)
          (performed : ∃ outcome, perform drv forked stat command = .ok outcome) :
          Proper drv line forked stat ↔ Handled drv line := by
        obtain ⟨outcome, performed⟩ := performed
        have nobody := namedPid_content whole (whole ▸ nonempty) noSpace
        refine iff_of_true (proper_of_performed command_eq performed fun pid names => ?_)
          ⟨room, nonempty, Or.inl (whole ▸ known)⟩
        rw [nobody] at names
        cases names
      rw [commandOfLine] at read
      split at read
      next create =>
        exact oneWord create (by simp) (by decide) read (createDriver_ok drv forked stat)
      next notCreate =>
        split at read
        next quit => exact oneWord quit (by simp) (by decide) read ⟨_, perform_quit drv forked stat⟩
        next notQuit =>
          split at read
          next all =>
            exact oneWord all (by simp) (by decide) read ⟨_, perform_getDrivers drv forked stat⟩
          next notAll =>
            rw [proper_words read]
            refine ⟨fun complete => ⟨room, nonempty, Or.inr complete⟩, fun handled => ?_⟩
            refine handled.complete.resolve_left ?_
            simp [notCreate, notQuit, notAll]
  · exact iff_of_false (not_proper_of_fault (mainPass_fault (readCommand_full room)))
      fun handled => room handled.room

end

/-- Without a driver: a blank line, a line that fills the buffer, a task without
arguments, and a status request with a pid. -/
theorem faulty_lines :
    ¬ Proper .initial ⟨['\n'], by decide, by decide, by decide⟩ 100 0 ∧
    ¬ Proper .initial ⟨List.replicate 29 'x', by decide, by decide, by decide⟩ 100 0 ∧
    ¬ Proper .initial ⟨sendTaskText ++ ['\n'], by decide, by decide, by decide⟩ 100 0 ∧
    ¬ Proper .initial ⟨getStatusText ++ [' ', '7', '\n'], by decide, by decide, by decide⟩ 100 0 :=
  ⟨not_proper_of_fault (show _ = Except.error Fault.nullToken by decide),
    not_proper_of_fault (show _ = Except.error Fault.outOfBounds by decide),
    not_proper_of_fault (show _ = Except.error Fault.nullToken by decide),
    not_proper_of_fault (show _ = Except.error Fault.outOfBounds by decide)⟩

end EltexCourse.Guarantees.Drivers.Commands
