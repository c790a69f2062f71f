import EltexCourse.Foundations.Decimal
import EltexCourse.Source.Chat.Data

/-!
# Texts on the wire of the chat

The texts `send_message` and `shair_database` write with `sprintf`, and the
`strtok` sequences by which the three receiving loops take them apart:
`members_handler` and `message_hendler` of the server (server.c) and
`message_handler` of the client (client.c). A sequence that hands a missing
token to `strcmp`, `strlen` or `atoi` has the result `none`. The sequences are
the same in task13/chat and task14/chat; the two `send_message` choose the
separator before the pid differently.
-/

set_option autoImplicit false

namespace EltexCourse.Source.Chat
open Foundations.CString Foundations.Decimal

/-- `MSGLEN`, the size of `mtext`. -/
def msgLen : Nat := 1000

/-- `sprintf(_, "%d %s>%d", marker, line, pid)`, client.c:230 of task13/chat. -/
def lineText (marker : Int) (line : Text) (pid : Int) : Text :=
  printInt marker ++ ' ' :: (line ++ '>' :: printInt pid)

/-- `sprintf(_, "%d %s %d", marker, line, pid)`, client.c:232 of task13/chat. -/
def wordText (marker : Int) (line : Text) (pid : Int) : Text :=
  printInt marker ++ ' ' :: (line ++ ' ' :: printInt pid)

/-- `struct message`. -/
structure Message where
  mtype : Int
  mtext : Text
  deriving DecidableEq, Repr

/-- client.c:225-237. `send_message` of task13/chat. A text that does not fit `mtext`
overruns the buffer, and nothing is sent. -/
def sendMessage (pid : Int) (line : Text) (prio marker : Int) : Option Message :=
  let mtext := if prio = 2 then lineText marker line pid else wordText marker line pid
  if mtext.length < msgLen then some ⟨prio, mtext⟩ else none

/-- client.c:264-272. The same for task14/chat, where the marker and not the type
selects the text. -/
def sendMessageShm (pid : Int) (line : Text) (prio marker : Int) : Option Message :=
  let mtext := if 3 ≤ marker then lineText marker line pid else wordText marker line pid
  if mtext.length < msgLen then some ⟨prio, mtext⟩ else none

/-- server.c:160 and 166 of task13/chat. The texts of `shair_database`: a member of the
table, a stored line. -/
def memberText (entry : DataArr) : Text := wordText 1 entry.line entry.id

def historyText (entry : DataArr) : Text := lineText 3 entry.line entry.id

def exitLine : Text := ['!', 'e', 'x', 'i', 't']

inductive MemberRequest where
  | leave (id : Int)
  | join (line : Text) (id : Int)
  deriving DecidableEq, Repr

/-- server.c:65-77 of task13/chat. `members_handler`: every first token other than "0"
is taken as a join. The second token of a leave is not looked at. The cursor `strtok` is
left with is returned beside the request. -/
def membersHandlerTokens (mtext : Text) : Option (MemberRequest × Text) :=
  match strtok [' '] mtext with
  | (none, _) => none
  | (some marker, cursor) =>
    if marker = ['0'] then
      match strtok [' '] (strtok [' '] cursor).2 with
      | (none, _) => none
      | (some number, cursor) => some (.leave (atoi number), cursor)
    else
      match strtok [' '] cursor with
      | (none, _) => none
      | (some line, cursor) =>
        match strtok [' '] cursor with
        | (none, _) => none
        | (some number, cursor) => some (.join line (atoi number), cursor)

/-- server.c:130-134 of task13/chat. The two calls of `message_hendler` that follow the
broadcast: the line up to '>' and the number behind it. -/
def messageHendlerTokens (cursor : Text) : Option (Text × Text) :=
  match strtok ['>'] cursor with
  | (none, _) => none
  | (some line, cursor) =>
    match strtok [' '] cursor with
    | (none, _) => none
    | (some number, _) => some (line, number)

/-- The entry `message_hendler` stores; its flag is never set nor read. -/
def messageHendlerEntry (cursor : Text) : Option DataArr :=
  (messageHendlerTokens cursor).map fun tokens => ⟨tokens.1, atoi tokens.2, 0⟩

/-- What the client's `message_handler` does on a text. -/
inductive Notice where
  | leave (id : Int)
  | join (line : Text) (id : Int)
  | exit
  | chat (line : Text) (id : Int)
  deriving DecidableEq, Repr

/-- client.c:153-181 of task13/chat. -/
def messageHandlerTokens (mtext : Text) : Option Notice :=
  match strtok [' '] mtext with
  | (none, _) => none
  | (some marker, cursor) =>
    if marker = ['0'] then
      match strtok [' '] (strtok [' '] cursor).2 with
      | (none, _) => none
      | (some number, _) => some (.leave (atoi number))
    else if marker = ['1'] then
      match strtok [' '] cursor with
      | (none, _) => none
      | (some line, cursor) =>
        match strtok [' '] cursor with
        | (none, _) => none
        | (some number, _) => some (.join line (atoi number))
    else
      match strtok ['>'] cursor with
      | (none, _) => none
      | (some line, cursor) =>
        if line = exitLine then some .exit
        else
          match strtok [' '] cursor with
          | (none, _) => none
          | (some number, _) => some (.chat line (atoi number))

structure Submittable (line : Text) : Prop where
  bounded : line.length ≤ 255
  oneLine : '\n' ∉ line
  terminated : '\x00' ∉ line

instance (line : Text) : Decidable (Submittable line) :=
  decidable_of_iff (line.length ≤ 255 ∧ '\n' ∉ line ∧ '\x00' ∉ line)
    ⟨fun h => ⟨h.1, h.2.1, h.2.2⟩, fun h => ⟨h.bounded, h.oneLine, h.terminated⟩⟩

/-- The characters `line[0..pos-1]` of the input loop, with `pos <= 255`, client.c:84-85
of task13/chat. -/
structure InputBuffer where
  typed : Text
  bounded : typed.length ≤ 255
  oneLine : '\n' ∉ typed

/-- One turn of the input loop after `wgetch`. `KEY_BACKSPACE` stands beside the
character codes; a newline ends the line at its first NUL and restarts it. -/
inductive Key where
  | code (ch : Char)
  | backspace
  deriving DecidableEq, Repr

def InputBuffer.erase (buffer : InputBuffer) : InputBuffer :=
  ⟨buffer.typed.dropLast, by have := buffer.bounded; simp only [List.length_dropLast]; omega,
    fun member => buffer.oneLine ((List.dropLast_sublist _).subset member)⟩

theorem InputBuffer.bounded_append {buffer : InputBuffer} {ch : Char}
    (room : buffer.typed.length < 255) : (buffer.typed ++ [ch]).length ≤ 255 := by
  simp only [List.length_append, List.length_singleton]
  omega

theorem InputBuffer.oneLine_append {buffer : InputBuffer} {ch : Char} (newline : ch ≠ '\n') :
    '\n' ∉ buffer.typed ++ [ch] := by
  simpa [Ne.symm newline] using buffer.oneLine

/-- client.c:92-118 of task13/chat. -/
def InputBuffer.press (buffer : InputBuffer) : Key → InputBuffer × Option Text
  | .backspace => (buffer.erase, none)
  | .code ch =>
    if newline : ch = '\n' then
      (⟨[], Nat.zero_le _, List.not_mem_nil⟩, some (buffer.typed.takeWhile (· ≠ '\x00')))
    else if ch = '\x7f' ∨ ch = '\x08' then (buffer.erase, none)
    else if room : buffer.typed.length < 255 then
      (⟨buffer.typed ++ [ch], bounded_append room, oneLine_append newline⟩, none)
    else (buffer, none)

/-- What the input loop hands over is a line of at most 255 characters without a
newline. -/
theorem press_submits {buffer : InputBuffer} {key : Key} {line : Text}
    (submitted : (buffer.press key).2 = some line) : Submittable line := by
  unfold InputBuffer.press at submitted
  split at submitted
  · cases submitted
  · split at submitted
    · obtain rfl := Option.some.inj submitted
      have shorter := (List.takeWhile_prefix (l := buffer.typed) (· ≠ '\x00')).length_le
      refine ⟨le_trans shorter buffer.bounded, ?_, ?_⟩
      · exact fun member => buffer.oneLine ((List.takeWhile_prefix _).subset member)
      · intro member
        simpa using List.mem_takeWhile_imp member
    · split at submitted
      · cases submitted
      · split at submitted <;> cases submitted

/-- A nickname that is one word for `strtok(_, " ")`. -/
structure Word (line : Text) : Prop where
  nonempty : line ≠ []
  unbroken : ' ' ∉ line

/-- A line that is one token for `strtok(_, ">")`. -/
structure Line (line : Text) : Prop where
  nonempty : line ≠ []
  unbroken : '>' ∉ line

instance (line : Text) : Decidable (Word line) :=
  decidable_of_iff (line ≠ [] ∧ ' ' ∉ line) ⟨fun h => ⟨h.1, h.2⟩, fun h => ⟨h.nonempty, h.unbroken⟩⟩

instance (line : Text) : Decidable (Line line) :=
  decidable_of_iff (line ≠ [] ∧ '>' ∉ line) ⟨fun h => ⟨h.1, h.2⟩, fun h => ⟨h.nonempty, h.unbroken⟩⟩

/-- A number with a blank behind it is one token, and the cursor is left behind the
blank. -/
theorem strtok_space_printInt (n : Int) (tail : Text) :
    strtok [' '] (printInt n ++ ' ' :: tail) = (some (printInt n), tail) :=
  strtok_word_delim (printInt_ne_nil n) (printInt_outside (by decide)) (by simp) tail

/-- A number at the end of the text is one token, and nothing is left. -/
theorem strtok_space_number (n : Int) : strtok [' '] (printInt n) = (some (printInt n), []) :=
  strtok_word_end (printInt_ne_nil n) (printInt_outside (by decide))

theorem strtok_space_word {line : Text} (word : Word line) (tail : Text) :
    strtok [' '] (line ++ ' ' :: tail) = (some line, tail) :=
  strtok_word_delim word.nonempty
    (fun c member delim => word.unbroken (by rwa [← List.mem_singleton.mp delim])) (by simp) tail

/-- A line with '>' behind it is one token, if it has no '>' in it. -/
theorem strtok_bracket_line {line : Text} (whole : Line line) (tail : Text) :
    strtok ['>'] (line ++ '>' :: tail) = (some line, tail) :=
  strtok_word_delim whole.nonempty
    (fun c member delim => whole.unbroken (by rwa [← List.mem_singleton.mp delim])) (by simp) tail

theorem strtok_bracket_end {line : Text} (whole : Line line) :
    strtok ['>'] line = (some line, []) :=
  strtok_word_end whole.nonempty
    (fun c member delim => whole.unbroken (by rwa [← List.mem_singleton.mp delim]))

/-- Every word `strtok(_, " ")` returns, and every line `strtok(_, ">")` returns. -/
theorem word_of_strtok {rest token tail : Text} (found : strtok [' '] rest = (some token, tail)) :
    Word token :=
  ⟨strtok_token_ne_nil found, fun member => strtok_token_outside found _ member (by simp)⟩

/-- Whatever is split off at '>' is a line: not empty and without '>'. -/
theorem line_of_strtok {rest token tail : Text} (found : strtok ['>'] rest = (some token, tail)) :
    Line token :=
  ⟨strtok_token_ne_nil found, fun member => strtok_token_outside found _ member (by simp)⟩

@[simp] theorem printInt_zero : printInt 0 = ['0'] := rfl
@[simp] theorem printInt_one : printInt 1 = ['1'] := rfl
@[simp] theorem printInt_three : printInt 3 = ['3'] := rfl
@[simp] theorem printInt_four : printInt 4 = ['4'] := rfl

/-- A join reads back as nickname and pid, and nothing is left of it. -/
theorem membersHandler_join {line : Text} {pid : Int} (word : Word line) (fits : IsInt pid) :
    membersHandlerTokens (wordText 1 line pid) = some (.join line pid, []) := by
  simp only [membersHandlerTokens, wordText, strtok_space_printInt]
  simp [strtok_space_word word, strtok_space_number, atoi_printInt fits]

/-- A leave reads back as its pid; the nickname in it is passed over. -/
theorem membersHandler_leave {line : Text} {pid : Int} (word : Word line) (fits : IsInt pid) :
    membersHandlerTokens (wordText 0 line pid) = some (.leave pid, []) := by
  simp only [membersHandlerTokens, wordText, strtok_space_printInt]
  simp [strtok_space_word word, strtok_space_number, atoi_printInt fits]

theorem messageHandler_join {line : Text} {pid : Int} (word : Word line) (fits : IsInt pid) :
    messageHandlerTokens (wordText 1 line pid) = some (.join line pid) := by
  simp only [messageHandlerTokens, wordText, strtok_space_printInt]
  simp [strtok_space_word word, strtok_space_number, atoi_printInt fits]

theorem messageHandler_leave {line : Text} {pid : Int} (word : Word line) (fits : IsInt pid) :
    messageHandlerTokens (wordText 0 line pid) = some (.leave pid) := by
  simp only [messageHandlerTokens, wordText, strtok_space_printInt]
  simp [strtok_space_word word, strtok_space_number, atoi_printInt fits]

/-- What follows the marker of a line is split into the line and its author's pid, as
text. -/
theorem messageHendler_line {line : Text} (whole : Line line) (pid : Int) :
    messageHendlerTokens (line ++ '>' :: printInt pid) = some (line, printInt pid) := by
  simp [messageHendlerTokens, strtok_bracket_line whole, strtok_space_number]

/-- On a text with marker "3" the client splits the rest as `message_hendler` does. -/
theorem messageHandler_chat {mtext cursor line number : Text}
    (marked : strtok [' '] mtext = (some ['3'], cursor))
    (tokens : messageHendlerTokens cursor = some (line, number)) :
    messageHandlerTokens mtext =
      some (if line = exitLine then .exit else .chat line (atoi number)) := by
  simp only [messageHendlerTokens] at tokens
  split at tokens
  · cases tokens
  next line' cursor' lineFound =>
    split at tokens
    · cases tokens
    next number' rest numberFound =>
      obtain ⟨rfl, rfl⟩ := Prod.mk.inj (Option.some.inj tokens)
      simp only [messageHandlerTokens, marked, lineFound, numberFound]
      by_cases quits : line' = exitLine <;> simp [quits]

/-- The first call takes the marker, and leaves line and pid to the next. -/
theorem strtok_lineText (marker : Int) (line : Text) (pid : Int) :
    strtok [' '] (lineText marker line pid) =
      (some (printInt marker), line ++ '>' :: printInt pid) :=
  strtok_space_printInt marker _

theorem strtok_wordText (marker : Int) (line : Text) (pid : Int) :
    strtok [' '] (wordText marker line pid) =
      (some (printInt marker), line ++ ' ' :: printInt pid) :=
  strtok_space_printInt marker _

/-- The notice a client makes of a text written by `"3 %s>%d"`. -/
theorem messageHandler_line {line : Text} {pid : Int} (whole : Line line) (fits : IsInt pid) :
    messageHandlerTokens (lineText 3 line pid) =
      some (if line = exitLine then .exit else .chat line pid) := by
  have split := messageHandler_chat (strtok_lineText 3 line pid) (messageHendler_line whole pid)
  rwa [atoi_printInt fits] at split

theorem messageHendlerEntry_valid {cursor : Text} {entry : DataArr}
    (stored : messageHendlerEntry cursor = some entry) : Line entry.line ∧ IsInt entry.id := by
  unfold messageHendlerEntry messageHendlerTokens at stored
  split at stored
  · cases stored
  next line cursor' lineFound =>
    split at stored
    · cases stored
    next number rest numberFound =>
      cases stored
      exact ⟨line_of_strtok lineFound, atoi_isInt number⟩

/-- A join that has all its tokens has a word as its nickname and an int as its pid,
whatever was sent. -/
theorem membersHandlerTokens_join {mtext line cursor : Text} {id : Int}
    (tokens : membersHandlerTokens mtext = some (.join line id, cursor)) : Word line ∧
    IsInt id := by
  unfold membersHandlerTokens at tokens
  split at tokens
  · cases tokens
  · split at tokens
    · split at tokens <;> cases tokens
    · split at tokens
      · cases tokens
      next lineFound =>
        split at tokens
        · cases tokens
        next number rest numberFound =>
          cases tokens
          exact ⟨word_of_strtok lineFound, atoi_isInt number⟩

/-- What "!exit" makes a client send to itself has no token behind its line. -/
theorem messageHandler_exitWord (pid : Int) :
    messageHandlerTokens (wordText 3 exitLine pid) = none := by
  have whole : Line (exitLine ++ ' ' :: printInt pid) := by
    refine ⟨by simp [exitLine], fun member => ?_⟩
    rcases List.mem_append.mp member with inLine | inNumber
    · exact absurd inLine (by decide)
    · rcases List.mem_cons.mp inNumber with isSpace | inNumber
      · exact absurd isSpace (by decide)
      · exact @printInt_outside pid ['>'] (by decide) '>' inNumber (by simp)
  have longer : exitLine ++ ' ' :: printInt pid ≠ exitLine := by simp
  simp only [messageHandlerTokens, wordText, strtok_space_printInt, strtok_bracket_end whole]
  simp [longer]

end EltexCourse.Source.Chat
