import EltexCourse.Source.Chat.Wire

/-!
# Which texts of task13/chat come back from their receiver

Nicknames are free texts between two spaces. The layout of a text is chosen by
its type, and the separators by its marker; both choices are compared for every
call of `send_message` in client.c.
-/

set_option autoImplicit false

namespace EltexCourse.Guarantees.Chat.Framing
open Foundations.CString Foundations.Decimal Source.Chat

section Lengths

variable {line : Text} {pid marker : Int}

/-- Both layouts have as many characters. -/
theorem wordText_fits_iff (digit : (printInt marker).length = 1) :
    (wordText marker line pid).length < msgLen ↔ line.length + (printInt pid).length ≤ 996 := by
  simp only [wordText, List.length_append, List.length_cons, digit, msgLen]
  omega

/-- The buffer has room for a line and a pid of 996 characters together, beside marker,
blank, '>' and the terminator. -/
theorem lineText_fits_iff (digit : (printInt marker).length = 1) :
    (lineText marker line pid).length < msgLen ↔ line.length + (printInt pid).length ≤ 996 := by
  simp only [lineText, List.length_append, List.length_cons, digit, msgLen]
  omega

/-- A message is made of every text that fits, with the layout its type selects. -/
theorem sendMessage_eq_some (digit : (printInt marker).length = 1) {prio : Int} {msg : Message} :
    sendMessage pid line prio marker = some msg ↔
      line.length + (printInt pid).length ≤ 996 ∧
        msg = ⟨prio, if prio = 2 then lineText marker line pid else wordText marker line pid⟩ := by
  have fits : (if prio = 2 then lineText marker line pid
      else wordText marker line pid).length < msgLen ↔
        line.length + (printInt pid).length ≤ 996 := by
    split
    · exact lineText_fits_iff digit
    · exact wordText_fits_iff digit
  unfold sendMessage
  simp only [fits]
  split
  · next short => simp [short, eq_comm]
  · next long => simp [long]

end Lengths

/-- The join of `nick` is sent, and both programs read the nickname and the pid
from it. -/
def NicknameSurvives (nick : Text) (pid : Int) : Prop :=
  ∃ msg, sendMessage pid nick 1 1 = some msg ∧
    (∃ cursor, membersHandlerTokens msg.mtext = some (.join nick pid, cursor)) ∧
    messageHandlerTokens msg.mtext = some (.join nick pid)

/-- Exactly the nicknames of one word that leave room for the rest of the text
survive. -/
theorem nicknameSurvives_iff (nick : Text) (pid : Int) (fits : IsInt pid) :
    NicknameSurvives nick pid ↔
      (nick ≠ [] ∧ ' ' ∉ nick) ∧ nick.length + (printInt pid).length ≤ 996 := by
  constructor
  · rintro ⟨msg, sent, ⟨cursor, tokens⟩, -⟩
    have word := (membersHandlerTokens_join tokens).1
    exact ⟨⟨word.nonempty, word.unbroken⟩, ((sendMessage_eq_some (by decide)).mp sent).1⟩
  · rintro ⟨⟨nonempty, unbroken⟩, short⟩
    have word : Word nick := ⟨nonempty, unbroken⟩
    refine ⟨_, (sendMessage_eq_some (by decide)).mpr ⟨short, rfl⟩, ⟨[], ?_⟩, ?_⟩
    · exact membersHandler_join word fits
    · exact messageHandler_join word fits

theorem nicknameSurvives_bob : NicknameSurvives ['b', 'o', 'b'] 7 := by
  apply (nicknameSurvives_iff ['b', 'o', 'b'] 7 (by decide)).mpr
  decide

/-- Of an empty nickname no number is left for `atoi`; of two words the second
is taken for the number. -/
theorem nickname_lost :
    membersHandlerTokens (wordText 1 [] 7) = none ∧ messageHandlerTokens (wordText 1 [] 7) = none ∧
      membersHandlerTokens (wordText 1 ['a', ' ', 'b'] 7) = some (.join ['a'] 0, ['7']) ∧
      ¬ NicknameSurvives [] 7 ∧ ¬ NicknameSurvives ['a', ' ', 'b'] 7 := by
  have lost : ∀ nick : Text, ¬ Word nick → ¬ NicknameSurvives nick 7 := by
    rintro nick broken ⟨msg, -, ⟨cursor, tokens⟩, -⟩
    exact broken (membersHandlerTokens_join tokens).1
  exact ⟨by decide, by decide, by decide, lost _ (by decide), lost _ (by decide)⟩

/-- The calls of `send_message` in client.c. -/
inductive Call where
  | join
  | leave
  | chat
  | wakeUp
  /-- The "!exit" a client sends to its own pid. -/
  | exitNotice
  deriving DecidableEq, Repr

def Call.prio (pid : Int) : Call → Int
  | .join | .leave => 1
  | .chat | .wakeUp => 2
  | .exitNotice => pid

def Call.marker : Call → Int
  | .join => 1
  | .leave => 0
  | .chat | .exitNotice => 3
  | .wakeUp => 4

/-- Who receives a type: `members_handler`, `message_hendler`, or the client
with that pid. -/
inductive Receiver where
  | membersHandler
  | messageHendler
  | messageHandler
  deriving DecidableEq, Repr

def receiver (mtype : Int) : Receiver :=
  if mtype = 1 then .membersHandler else if mtype = 2 then .messageHendler else .messageHandler

/-- The tokens looked at exist and say what was sent. A leave's text is not
looked at, and of a wake-up only the marker is. -/
def Understood (line : Text) (pid marker : Int) (mtext : Text) : Receiver → Prop
  | .membersHandler => ∃ cursor, membersHandlerTokens mtext =
      some (if marker = 0 then .leave pid else .join line pid, cursor)
  | .messageHendler => ∃ cursor, strtok [' '] mtext = (some (printInt marker), cursor) ∧
      (marker ≠ 4 → messageHendlerEntry cursor = some ⟨line, pid, 0⟩)
  | .messageHandler => messageHandlerTokens mtext =
      some (if marker = 0 then .leave pid else if marker = 1 then .join line pid
        else if line = exitLine then .exit else .chat line pid)

def Agrees (call : Call) (line : Text) (pid : Int) : Prop :=
  ∃ msg, sendMessage pid line (call.prio pid) call.marker = some msg ∧
    Understood line pid call.marker msg.mtext (receiver msg.mtype)

/-- With a space before the pid there is no token behind the line. -/
theorem messageHandler_noticeText {line : Text} (unbroken : '>' ∉ line) (pid : Int) :
    messageHandlerTokens (wordText 3 line pid) = none := by
  have whole : Line (line ++ ' ' :: printInt pid) := by
    refine ⟨by simp, fun member => ?_⟩
    rcases List.mem_append.mp member with inLine | inNumber
    · exact unbroken inLine
    · rcases List.mem_cons.mp inNumber with isSpace | inNumber
      · exact absurd isSpace (by decide)
      · exact @printInt_outside pid ['>'] (by decide) '>' inNumber (by simp)
  have longer : line ++ ' ' :: printInt pid ≠ exitLine := by
    intro same
    have space : ' ' ∈ exitLine := same ▸ by simp
    exact absurd space (by decide)
  simp only [messageHandlerTokens, wordText, strtok_space_printInt, strtok_bracket_end whole]
  simp [longer]

/-- All calls but one write what their receiver reads, as long as the text fits;
the exit notice is written in the layout of a member text and read as a line. -/
theorem agrees_iff (call : Call) (line : Text) (pid : Int) (nonempty : line ≠ [])
    (noSpace : ' ' ∉ line) (noBracket : '>' ∉ line) (other : 2 < pid) (fits : IsInt pid) :
    Agrees call line pid ↔
      call ≠ .exitNotice ∧ line.length + (printInt pid).length ≤ 996 := by
  have word : Word line := ⟨nonempty, noSpace⟩
  have whole : Line line := ⟨nonempty, noBracket⟩
  have digit : (printInt call.marker).length = 1 := by
    cases call <;> rfl
  constructor
  · rintro ⟨msg, sent, understood⟩
    obtain ⟨short, rfl⟩ := (sendMessage_eq_some digit).mp sent
    refine ⟨?_, short⟩
    rintro rfl
    have notServer : receiver pid = .messageHandler := by
      rw [receiver, if_neg (by omega), if_neg (by omega)]
    have notLine : pid ≠ 2 := by omega
    simp only [Call.prio, Call.marker, notServer, notLine, if_false, Understood,
      messageHandler_noticeText noBracket] at understood
    cases understood
  · rintro ⟨notNotice, short⟩
    refine ⟨_, (sendMessage_eq_some digit).mpr ⟨short, rfl⟩, ?_⟩
    cases call with
    | join => exact ⟨[], membersHandler_join word fits⟩
    | leave => exact ⟨[], membersHandler_leave word fits⟩
    | chat =>
      refine ⟨_, strtok_lineText 3 line pid, fun _ => ?_⟩
      simp [messageHendlerEntry, messageHendler_line whole, atoi_printInt fits]
    | wakeUp => exact ⟨_, strtok_lineText 4 line pid, fun notWake => absurd rfl notWake⟩
    | exitNotice => exact absurd rfl notNotice

theorem agrees_chat : Agrees .chat ['h', 'i'] 7 ∧ ¬ Agrees .exitNotice ['h', 'i'] 7 := by
  have chat := agrees_iff .chat ['h', 'i'] 7 (by decide) (by decide) (by decide) (by decide)
    (by decide)
  have notice := agrees_iff .exitNotice ['h', 'i'] 7 (by decide) (by decide) (by decide) (by decide)
    (by decide)
  exact ⟨chat.mpr (by decide), fun agrees => (notice.mp agrees).1 rfl⟩

/-- "!exit" to the own pid 7: `strtok` returns NULL for the number. -/
theorem exit_notice_lost :
    messageHandlerTokens (wordText 3 exitLine 7) = none ∧ ¬ Agrees .exitNotice exitLine 7 := by
  have lost : messageHandlerTokens (wordText 3 exitLine 7) = none := by
    decide
  refine ⟨lost, ?_⟩
  rintro ⟨msg, sent, understood⟩
  obtain ⟨-, rfl⟩ := (sendMessage_eq_some (by decide)).mp sent
  have notice : messageHandlerTokens (wordText 3 exitLine 7) = some .exit := understood
  rw [lost] at notice
  cases notice

end EltexCourse.Guarantees.Chat.Framing
