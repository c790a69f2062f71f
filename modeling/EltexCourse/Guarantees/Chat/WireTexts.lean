import EltexCourse.Source.Chat.Wire

/-!
# What survives the wire

A chat line comes back from `message_hendler` and from the client exactly when
it is one token for `strtok(_, ">")`. What `shair_database` rebuilds from a
stored entry is read by the client as the raw text was.
-/

set_option autoImplicit false

namespace EltexCourse.Guarantees.Chat.WireTexts
open Foundations.CString Foundations.Decimal Source.Chat

/-- The line is sent, `message_hendler` stores it with its author's pid, the
client shows the same pair, and no token that is looked at is missing. -/
def RoundTrips (line : Text) (pid : Int) : Prop :=
  ∃ msg cursor, sendMessage pid line 2 3 = some msg ∧
    strtok [' '] msg.mtext = (some ['3'], cursor) ∧
    messageHendlerEntry cursor = some ⟨line, pid, 0⟩ ∧
    messageHandlerTokens msg.mtext = some (.chat line pid)

theorem lineText_length {line : Text} {pid : Int} (short : line.length ≤ 255) (fits : IsInt pid) :
    (lineText 3 line pid).length < msgLen := by
  have digits := printInt_length fits
  simp only [lineText, printInt_three, List.length_append, List.length_cons, List.length_nil,
    msgLen]
  omega

theorem sendMessage_line {line : Text} {pid : Int} (short : line.length ≤ 255) (fits : IsInt pid) :
    sendMessage pid line 2 3 = some ⟨2, lineText 3 line pid⟩ := by
  simp [sendMessage, lineText_length short fits]

/-- The entry `message_hendler` makes of a line determines that the line was one token. -/
theorem messageHendlerEntry_line_iff {line : Text} {pid : Int} (fits : IsInt pid) :
    messageHendlerEntry (line ++ '>' :: printInt pid) = some ⟨line, pid, 0⟩ ↔ Line line := by
  constructor
  · intro stored
    exact (messageHendlerEntry_valid stored).1
  · intro whole
    simp [messageHendlerEntry, messageHendler_line whole, atoi_printInt fits]

/-- Among the lines the input loop submits as chat, exactly the nonempty ones
without '>' survive. -/
theorem chat_line_round_trips_iff (line : Text) (pid : Int) (typed : Submittable line)
    (chat : line ≠ exitLine) (fits : IsInt pid) :
    RoundTrips line pid ↔ line ≠ [] ∧ '>' ∉ line := by
  constructor
  · rintro ⟨msg, cursor, sent, marked, stored, _⟩
    rw [sendMessage_line typed.bounded fits] at sent
    obtain rfl := Option.some.inj sent
    rw [strtok_lineText] at marked
    obtain ⟨-, rfl⟩ := Prod.mk.inj marked
    have whole := (messageHendlerEntry_line_iff fits).mp stored
    exact ⟨whole.nonempty, whole.unbroken⟩
  · rintro ⟨nonempty, unbroken⟩
    have whole : Line line := ⟨nonempty, unbroken⟩
    refine ⟨_, _, sendMessage_line typed.bounded fits, strtok_lineText 3 line pid,
      (messageHendlerEntry_line_iff fits).mpr whole, ?_⟩
    rw [messageHandler_line whole fits, if_neg chat]

/-- "hi" and a newline are typed. -/
theorem chat_line_round_trips_hello :
    RoundTrips ['h', 'i'] 7 ↔ (['h', 'i'] : Text) ≠ [] ∧ '>' ∉ (['h', 'i'] : Text) := by
  have typed : Submittable ['h', 'i'] :=
    @press_submits ⟨['h', 'i'], by decide, by decide⟩ (.code '\n') _ rfl
  exact chat_line_round_trips_iff ['h', 'i'] 7 typed (by decide) (by decide)

/-- An empty line leaves `message_hendler` without a number: `strtok` returns
NULL, which goes to `atoi`. -/
theorem empty_line_lost :
    Submittable [] ∧ ([] : Text) ≠ exitLine ∧ (0 : Int) < 7 ∧ IsInt 7 ∧
      messageHendlerEntry (strtok [' '] (lineText 3 [] 7)).2 = none ∧ ¬ RoundTrips [] 7 := by
  refine ⟨by decide, by decide, by decide, by decide, by decide, ?_⟩
  rintro ⟨msg, cursor, sent, marked, stored, _⟩
  rw [sendMessage_line (by decide) (by decide)] at sent
  obtain rfl := Option.some.inj sent
  rw [strtok_lineText] at marked
  obtain ⟨-, rfl⟩ := Prod.mk.inj marked
  exact ((messageHendlerEntry_line_iff (by decide)).mp stored).nonempty rfl

/-- The number read from a token is not printed longer than the token. -/
theorem printInt_atoi_length {number : Text} (nonempty : number ≠ [])
    (fits : IsInt (decimalValue number)) : (printInt (atoi number)).length ≤ number.length := by
  rw [atoi_of_isInt fits]
  exact printInt_decimalValue_length nonempty

theorem messageHendlerTokens_valid {cursor line number : Text}
    (tokens : messageHendlerTokens cursor = some (line, number)) :
    Line line ∧ Word number ∧ line.length + 1 + number.length ≤ cursor.length := by
  unfold messageHendlerTokens at tokens
  split at tokens
  · cases tokens
  next line' cursor' lineFound =>
    split at tokens
    · cases tokens
    next number' rest numberFound =>
      obtain ⟨rfl, rfl⟩ := Prod.mk.inj (Option.some.inj tokens)
      have left : cursor' ≠ [] := by
        rintro rfl
        simp at numberFound
      have first := (strtok_length lineFound).2 left
      have second := (strtok_length numberFound).1
      exact ⟨line_of_strtok lineFound, word_of_strtok numberFound, by omega⟩

/-- Both texts show a client the pair that was stored; the rebuilt text fits
the buffer the raw text came in. -/
theorem line_replay_agrees {mtext cursor line number : Text} (short : mtext.length < msgLen)
    (marked : strtok [' '] mtext = (some ['3'], cursor))
    (tokens : messageHendlerTokens cursor = some (line, number))
    (fits : IsInt (decimalValue number)) :
    messageHandlerTokens mtext = messageHandlerTokens (historyText ⟨line, atoi number, 0⟩) ∧
      messageHandlerTokens mtext =
        some (if line = exitLine then .exit else .chat line (atoi number)) ∧
      (historyText ⟨line, atoi number, 0⟩).length < msgLen := by
  obtain ⟨whole, word, length⟩ := messageHendlerTokens_valid tokens
  have raw := messageHandler_chat marked tokens
  refine ⟨?_, raw, ?_⟩
  · rw [raw, historyText, messageHandler_line whole (atoi_isInt number)]
  · have left : cursor ≠ [] := by
      rintro rfl
      simp [messageHendlerTokens] at tokens
    have front := (strtok_length marked).2 left
    have printed := printInt_atoi_length word.nonempty fits
    simp only [List.length_cons, List.length_nil] at front
    simp only [historyText, lineText, printInt_three, List.length_append, List.length_cons,
      List.length_nil]
    omega

/-- The same for the three tokens of a join text. -/
theorem join_replay_agrees {mtext cursor line cursor' number rest : Text}
    (short : mtext.length < msgLen) (marked : strtok [' '] mtext = (some ['1'], cursor))
    (named : strtok [' '] cursor = (some line, cursor'))
    (numbered : strtok [' '] cursor' = (some number, rest))
    (fits : IsInt (decimalValue number)) :
    membersHandlerTokens mtext = some (.join line (atoi number), rest) ∧
      messageHandlerTokens mtext = messageHandlerTokens (memberText ⟨line, atoi number, 1⟩) ∧
      messageHandlerTokens mtext = some (.join line (atoi number)) ∧
      (memberText ⟨line, atoi number, 1⟩).length < msgLen := by
  have raw : messageHandlerTokens mtext = some (.join line (atoi number)) := by
    simp [messageHandlerTokens, marked, named, numbered]
  refine ⟨by simp [membersHandlerTokens, marked, named, numbered], ?_, raw, ?_⟩
  · rw [raw, memberText, messageHandler_join (word_of_strtok named) (atoi_isInt number)]
  · have front := (strtok_length marked).2 (by rintro rfl; simp at named)
    have middle := (strtok_length named).2 (by rintro rfl; simp at numbered)
    have back := (strtok_length numbered).1
    have printed := printInt_atoi_length (word_of_strtok numbered).nonempty fits
    simp only [List.length_cons, List.length_nil] at front
    simp only [memberText, wordText, printInt_one, List.length_append, List.length_cons,
      List.length_nil]
    omega

/-- A newcomer reads a replayed text as the clients that were there read it live. A line
has the marker "3". A join has the marker "1": `members_handler` takes any marker other
than "0" for a join, but only with a "1" does a client read nickname and id from it. -/
theorem replay_agrees_with_live :
    (∀ mtext cursor line number : Text, mtext.length < msgLen →
      strtok [' '] mtext = (some ['3'], cursor) →
      messageHendlerTokens cursor = some (line, number) → IsInt (decimalValue number) →
      messageHandlerTokens mtext = messageHandlerTokens (historyText ⟨line, atoi number, 0⟩) ∧
        messageHandlerTokens mtext =
          some (if line = exitLine then .exit else .chat line (atoi number)) ∧
        (historyText ⟨line, atoi number, 0⟩).length < msgLen) ∧
    (∀ mtext cursor line cursor' number rest : Text, mtext.length < msgLen →
      strtok [' '] mtext = (some ['1'], cursor) → strtok [' '] cursor = (some line, cursor') →
      strtok [' '] cursor' = (some number, rest) → IsInt (decimalValue number) →
      membersHandlerTokens mtext = some (.join line (atoi number), rest) ∧
        messageHandlerTokens mtext = messageHandlerTokens (memberText ⟨line, atoi number, 1⟩) ∧
        messageHandlerTokens mtext = some (.join line (atoi number)) ∧
        (memberText ⟨line, atoi number, 1⟩).length < msgLen) :=
  ⟨fun _ _ _ _ short marked tokens fits => line_replay_agrees short marked tokens fits,
    fun _ _ _ _ _ _ short marked named numbered fits =>
      join_replay_agrees short marked named numbered fits⟩

theorem replay_agrees_hello :
    messageHandlerTokens ['3', ' ', 'h', 'i', '>', '7'] =
        messageHandlerTokens (historyText ⟨['h', 'i'], 7, 0⟩) ∧
      messageHandlerTokens ['1', ' ', 'b', 'o', 'b', ' ', '7'] =
        messageHandlerTokens (memberText ⟨['b', 'o', 'b'], 7, 1⟩) := by
  have line := (replay_agrees_with_live.1 ['3', ' ', 'h', 'i', '>', '7'] ['h', 'i', '>', '7']
    ['h', 'i'] ['7'] (by decide) (by decide) (by decide) (by decide)).1
  have join := (replay_agrees_with_live.2 ['1', ' ', 'b', 'o', 'b', ' ', '7']
    ['b', 'o', 'b', ' ', '7'] ['b', 'o', 'b'] ['7'] ['7'] [] (by decide) (by decide) (by decide)
    (by decide) (by decide)).2.1
  have seven : atoi ['7'] = 7 := by decide
  rw [seven] at line join
  exact ⟨line, join⟩

end EltexCourse.Guarantees.Chat.WireTexts
