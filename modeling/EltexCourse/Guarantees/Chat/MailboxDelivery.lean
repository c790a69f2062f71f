import EltexCourse.Source.Chat.Mailbox

/-!
# One slot, two semaphores and a delay

`send_message` hands the slot to the next writer after a delay, not after the
reader. Where every sender does wait for the copy of its letter, the slot is a
channel: letters are read in the order they were sent, each once, with their
own text, by the handler of their kind. Where one does not, the next writer
replaces the letter.
-/

set_option autoImplicit false

namespace EltexCourse.Guarantees.Chat.MailboxDelivery
open Foundations.CString Foundations.Transition Source.Chat.Mailbox

variable {ι : Type*}

/-- Semaphore 2 is posted only when the handler has taken the letter's token
and copied the text. -/
def ReleasedAfterCopy (s : State ι) : Action ι → Prop
  | .release i =>
    match s.sender i with
    | .posted letter => s.token letter.kind = 0 ∧ s.reader letter.kind = .waiting
    | _ => True
  | _ => True

instance (s : State ι) (a : Action ι) : Decidable (ReleasedAfterCopy s a) := by
  unfold ReleasedAfterCopy
  split
  · split <;> infer_instance
  · infer_instance

/-- The letter lies whole in the slot, and its handler has still to copy it. -/
def Underway (s : State ι) (letter : Letter) : Prop :=
  s.mtext = letter.text ∧ s.mtype = letter.kind.prio ∧
    (0 < s.token letter.kind ∨ s.reader letter.kind ≠ .waiting)

/-- No test of `mtype` has failed, and the letters read are the letters sent,
in order, except for at most one that is underway. -/
structure ReadOnce (log : List Event) (s : State ι) : Prop where
  undropped : ∀ h, Event.dropped h ∉ log
  delivered : sentLetters log = readLetters log ∨
    ∃ letter, sentLetters log = readLetters log ++ [letter] ∧ Underway s letter

/-- No token is left and no handler is between its token and its copy. -/
def Quiet (s : State ι) : Prop := ∀ h, s.token h = 0 ∧ s.reader h = .waiting

/-- No handler but `h` has anything to do. -/
def QuietBut (h : Handler) (s : State ι) : Prop :=
  ∀ h', h' ≠ h → s.token h' = 0 ∧ s.reader h' = .waiting

/-- The letter's way through the slot: its token is there, its handler has the
token, or the copy has been made. -/
def Passage (log : List Event) (s : State ι) (letter : Letter) : Prop :=
  (s.token letter.kind = 1 ∧ s.reader letter.kind = .waiting ∧
      sentLetters log = readLetters log ++ [letter]) ∨
    (s.token letter.kind = 0 ∧ s.reader letter.kind ≠ .waiting ∧
      sentLetters log = readLetters log ++ [letter]) ∨
    (s.token letter.kind = 0 ∧ s.reader letter.kind = .waiting ∧
      sentLetters log = readLetters log)

/-- What the slot and the handlers look like, by the position of the writer. -/
def WriterView (log : List Event) (s : State ι) : SenderPc → Prop
  | .idle => False
  | .entered _ => Quiet s ∧ sentLetters log = readLetters log
  | .textWritten letter =>
    Quiet s ∧ sentLetters log = readLetters log ∧ s.mtext = letter.text
  | .typeWritten letter =>
    Quiet s ∧ sentLetters log = readLetters log ∧ s.mtext = letter.text ∧
      s.mtype = letter.kind.prio
  | .posted letter =>
    QuietBut letter.kind s ∧ s.mtext = letter.text ∧ s.mtype = letter.kind.prio ∧
      Passage log s letter

/-- Either nobody writes and semaphore 2 is free, or one sender does. -/
structure Invariant (log : List Event) (s : State ι) : Prop where
  undropped : ∀ h, Event.dropped h ∉ log
  writer :
    (s.writer = 1 ∧ (∀ i, s.sender i = .idle) ∧ Quiet s ∧ sentLetters log = readLetters log) ∨
      (s.writer = 0 ∧ ∃ i, (∀ j, j ≠ i → s.sender j = .idle) ∧ WriterView log s (s.sender i))

theorem invariant_initial : Invariant [] (initial : State ι) :=
  ⟨by simp, Or.inl ⟨rfl, fun _ => rfl, fun _ => ⟨rfl, rfl⟩, rfl⟩⟩

/-- A sender that is inside `send_message` is the one that holds semaphore 2. -/
theorem Invariant.active {log : List Event} {s : State ι} (inv : Invariant log s) {i : ι}
    (inside : s.sender i ≠ .idle) :
    s.writer = 0 ∧ (∀ j, j ≠ i → s.sender j = .idle) ∧ WriterView log s (s.sender i) := by
  rcases inv.writer with ⟨_, idle, _⟩ | ⟨held, k, others, view⟩
  · exact absurd (idle i) inside
  · have same : i = k := by
      by_contra different
      exact inside (others i different)
    subst same
    exact ⟨held, others, view⟩

/-- A handler has something to do only after a post, and then only the handler
of the letter posted, which lies in the slot uncopied. -/
theorem Invariant.underway {log : List Event} {s : State ι} (inv : Invariant log s) {h : Handler}
    (busy : 0 < s.token h ∨ s.reader h ≠ .waiting) :
    ∃ i text, s.writer = 0 ∧ (∀ j, j ≠ i → s.sender j = .idle) ∧
      s.sender i = .posted ⟨h, text⟩ ∧ QuietBut h s ∧ s.mtext = text ∧ s.mtype = h.prio ∧
      sentLetters log = readLetters log ++ [⟨h, text⟩] ∧
      (s.reader h = .waiting → s.token h = 1) ∧ (s.reader h ≠ .waiting → s.token h = 0) := by
  have notQuiet : ¬ Quiet s := by
    intro quiet
    obtain ⟨noToken, waiting⟩ := quiet h
    rcases busy with token | reading
    · omega
    · exact reading waiting
  rcases inv.writer with ⟨_, _, quiet, _⟩ | ⟨held, i, others, view⟩
  · exact absurd quiet notQuiet
  · cases pc : s.sender i with
    | idle => rw [pc] at view; exact absurd view id
    | entered letter => rw [pc] at view; exact absurd view.1 notQuiet
    | textWritten letter => rw [pc] at view; exact absurd view.1 notQuiet
    | typeWritten letter => rw [pc] at view; exact absurd view.1 notQuiet
    | posted letter =>
      rw [pc] at view
      obtain ⟨quietBut, isText, isType, passage⟩ := view
      have same : h = letter.kind := by
        by_contra different
        obtain ⟨noToken, waiting⟩ := quietBut h different
        rcases busy with token | reading
        · omega
        · exact reading waiting
      subst same
      refine ⟨i, letter.text, held, others, pc, quietBut, isText, isType, ?_⟩
      rcases passage with ⟨one, waiting, unread⟩ | ⟨zero, reading, unread⟩ | ⟨zero, waiting, _⟩
      · exact ⟨unread, fun _ => one, fun reading => absurd waiting reading⟩
      · exact ⟨unread, fun waiting => absurd waiting reading, fun _ => zero⟩
      · rcases busy with token | reading
        · omega
        · exact absurd waiting reading

/-- What the invariant says about the letters. -/
theorem Invariant.readOnce {log : List Event} {s : State ι} (inv : Invariant log s) :
    ReadOnce log s := by
  refine ⟨inv.undropped, ?_⟩
  rcases inv.writer with ⟨_, _, _, same⟩ | ⟨_, i, _, view⟩
  · exact Or.inl same
  · cases pc : s.sender i with
    | idle => rw [pc] at view; exact absurd view id
    | entered letter => rw [pc] at view; exact Or.inl view.2
    | textWritten letter => rw [pc] at view; exact Or.inl view.2.1
    | typeWritten letter => rw [pc] at view; exact Or.inl view.2.1
    | posted letter =>
      rw [pc] at view
      obtain ⟨_, isText, isType, passage⟩ := view
      rcases passage with ⟨one, _, unread⟩ | ⟨_, reading, unread⟩ | ⟨_, _, same⟩
      · exact Or.inr ⟨letter, unread, isText, isType, Or.inl (by omega)⟩
      · exact Or.inr ⟨letter, unread, isText, isType, Or.inr reading⟩
      · exact Or.inl same

/-- A handler has moved on with the letter in the slot. -/
theorem invariant_handled {log log' : List Event} {s t : State ι} {h : Handler}
    (inv : Invariant log s) (busy : 0 < s.token h ∨ s.reader h ≠ .waiting)
    (undropped : ∀ h, Event.dropped h ∉ log')
    (slot : t.mtext = s.mtext ∧ t.mtype = s.mtype ∧ t.writer = s.writer ∧ t.sender = s.sender)
    (others : ∀ h', h' ≠ h → t.token h' = s.token h' ∧ t.reader h' = s.reader h')
    (passage : sentLetters log = readLetters log ++ [⟨h, s.mtext⟩] →
      (s.reader h = .waiting → s.token h = 1) → (s.reader h ≠ .waiting → s.token h = 0) →
        Passage log' t ⟨h, s.mtext⟩) : Invariant log' t := by
  obtain ⟨i, text, held, idle, pc, quietBut, rfl, isType, unread, one, zero⟩ := inv.underway busy
  obtain ⟨mtext, mtype, writer, sender⟩ := slot
  refine ⟨undropped, Or.inr ⟨writer.trans held, i, sender ▸ idle, ?_⟩⟩
  rw [sender, pc]
  refine ⟨fun h' different => ?_, mtext, mtype.trans isType, passage unread one zero⟩
  rw [(others h' different).1, (others h' different).2]
  exact quietBut h' different

/-- A handler takes its token: it is the handler of the letter underway. -/
theorem invariant_take {log : List Event} {s : State ι} {h : Handler} (inv : Invariant log s)
    (waiting : s.reader h = .waiting) (token : 0 < s.token h) :
    Invariant log ((s.takeToken h).setReader h .testing) := by
  refine invariant_handled inv (Or.inl token) inv.undropped ⟨rfl, rfl, rfl, rfl⟩ ?_ ?_
  · intro h' different
    simp [State.setReader, State.takeToken, different]
  · intro unread one _
    refine Or.inr (Or.inl ⟨?_, ?_, unread⟩)
    · simp [State.setReader, State.takeToken, one waiting]
    · simp [State.setReader]

/-- The test of `mtype` comes while the letter of this handler is in the slot,
so it goes through. -/
theorem invariant_test {log : List Event} {s : State ι} {h : Handler} (inv : Invariant log s)
    (testing : s.reader h = .testing) :
    s.mtype = h.prio ∧ Invariant log (s.setReader h .copying) := by
  have busy : 0 < s.token h ∨ s.reader h ≠ .waiting := Or.inr (by simp [testing])
  obtain ⟨_, _, _, _, _, _, _, isType, _⟩ := inv.underway busy
  refine ⟨isType, invariant_handled inv busy inv.undropped ⟨rfl, rfl, rfl, rfl⟩ ?_ ?_⟩
  · intro h' different
    simp [State.setReader, different]
  · intro unread _ zero
    refine Or.inr (Or.inl ⟨zero (by simp [testing]), ?_, unread⟩)
    simp [State.setReader]

/-- The copy is the read of the letter underway: read and sent are the same again. -/
theorem invariant_copy {log : List Event} {s : State ι} {h : Handler} (inv : Invariant log s)
    (copying : s.reader h = .copying) :
    Invariant (log ++ [.read ⟨h, s.mtext⟩]) (s.setReader h .waiting) := by
  have busy : 0 < s.token h ∨ s.reader h ≠ .waiting := Or.inr (by simp [copying])
  refine invariant_handled inv busy (by simpa using inv.undropped) ⟨rfl, rfl, rfl, rfl⟩ ?_ ?_
  · intro h' different
    simp [State.setReader, different]
  · intro unread _ zero
    refine Or.inr (Or.inr ⟨zero (by simp [copying]), ?_, ?_⟩)
    · simp [State.setReader]
    · rw [sentLetters_append, readLetters_append, unread]
      simp [sentLetters, readLetters]

variable [DecidableEq ι]

/-- Re-establish the invariant for a writer that has moved on. -/
theorem invariant_moved {log : List Event} {s t : State ι} {i : ι} {pc : SenderPc}
    (undropped : ∀ h, Event.dropped h ∉ log) (held : t.writer = 0)
    (others : ∀ j, j ≠ i → s.sender j = .idle)
    (sender : t.sender = Function.update s.sender i pc) (view : WriterView log t pc) :
    Invariant log t := by
  refine ⟨undropped, Or.inr ⟨held, i, ?_, ?_⟩⟩
  · intro j different
    rw [sender, Function.update_of_ne different]
    exact others j different
  · rw [sender, Function.update_self]
    exact view

/-- Semaphore 2 is posted when the letter has been copied. -/
theorem invariant_release {log : List Event} {s : State ι} {i : ι} {letter : Letter}
    (inv : Invariant log s) (pc : s.sender i = .posted letter)
    (copied : s.token letter.kind = 0 ∧ s.reader letter.kind = .waiting) :
    Invariant log ({ s with writer := s.writer + 1 }.setSender i .idle) := by
  obtain ⟨held, others, view⟩ := inv.active (i := i) (by simp [pc])
  rw [pc] at view
  obtain ⟨quietBut, _, _, passage⟩ := view
  have same : sentLetters log = readLetters log := by
    rcases passage with ⟨token, _⟩ | ⟨_, reading, _⟩ | ⟨_, _, same⟩
    · omega
    · exact absurd copied.2 reading
    · exact same
  refine ⟨inv.undropped, Or.inl ⟨by simp [State.setSender, held], ?_, ?_, same⟩⟩
  · intro j
    by_cases different : j = i
    · subst different
      simp [State.setSender]
    · simpa [State.setSender, different] using others j different
  · intro h
    by_cases own : h = letter.kind
    · subst own
      exact copied
    · exact quietBut h own

/-- Semaphore 2 is taken only when nobody else writes and every letter has been read. -/
theorem invariant_enter {log : List Event} {s : State ι} {i : ι} (letter : Letter)
    (inv : Invariant log s) (free : 0 < s.writer) :
    Invariant log ({ s with writer := s.writer - 1 }.setSender i (.entered letter)) := by
  rcases inv.writer with ⟨one, idle, quiet, same⟩ | ⟨held, _⟩
  · exact invariant_moved inv.undropped (by simp [State.setSender, one]) (fun j _ => idle j) rfl
      ⟨quiet, same⟩
  · omega

/-- The post gives the token of the letter to its handler, and the letter is
sent and unread from then on. -/
theorem invariant_post {log : List Event} {s : State ι} {i : ι} {letter : Letter}
    (inv : Invariant log s) (pc : s.sender i = .typeWritten letter) :
    Invariant (log ++ [.sent letter])
      ((s.addToken letter.kind).setSender i (.posted letter)) := by
  obtain ⟨held, others, view⟩ := inv.active (i := i) (by simp [pc])
  rw [pc] at view
  obtain ⟨quiet, same, text, type⟩ := view
  refine invariant_moved (by simpa using inv.undropped) held others rfl ⟨?_, text, type, ?_⟩
  · intro h different
    simpa [State.setSender, State.addToken, different] using quiet h
  · refine Or.inl ⟨?_, (quiet letter.kind).2, ?_⟩
    · simp [State.setSender, State.addToken, (quiet letter.kind).1]
    · simp [sentLetters, readLetters] at same ⊢
      exact same

theorem invariant_step {log : List Event} {s t : State ι} {a : Action ι} (inv : Invariant log s)
    (allowed : ReleasedAfterCopy s a) (stepped : step s a = some t) :
    Invariant (log ++ emit s a) t := by
  cases a with
  | enter i letter =>
    simp only [step] at stepped
    split at stepped
    next guard =>
      cases stepped
      simp only [emit, List.append_nil]
      exact invariant_enter letter inv guard.2
    · cases stepped
  | writeText i =>
    simp only [step] at stepped
    split at stepped
    next letter pc =>
      cases stepped
      obtain ⟨held, others, view⟩ := inv.active (i := i) (by simp [pc])
      rw [pc] at view
      simp only [emit, List.append_nil]
      exact invariant_moved inv.undropped held others rfl ⟨view.1, view.2, rfl⟩
    · cases stepped
  | writeType i =>
    simp only [step] at stepped
    split at stepped
    next letter pc =>
      cases stepped
      obtain ⟨held, others, view⟩ := inv.active (i := i) (by simp [pc])
      rw [pc] at view
      simp only [emit, List.append_nil]
      exact invariant_moved inv.undropped held others rfl ⟨view.1, view.2.1, view.2.2, rfl⟩
    · cases stepped
  | post i =>
    simp only [step] at stepped
    split at stepped
    next letter pc =>
      cases stepped
      simp only [emit, pc]
      exact invariant_post inv pc
    · cases stepped
  | release i =>
    simp only [step] at stepped
    split at stepped
    next letter pc =>
      cases stepped
      simp only [ReleasedAfterCopy, pc] at allowed
      simp only [emit, List.append_nil]
      exact invariant_release inv pc allowed
    · cases stepped
  | take h =>
    simp only [step] at stepped
    split at stepped
    next guard =>
      cases stepped
      simp only [emit, List.append_nil]
      exact invariant_take inv guard.1 guard.2
    · cases stepped
  | test h =>
    simp only [step] at stepped
    split at stepped
    next testing =>
      obtain ⟨isType, kept⟩ := invariant_test inv testing
      simp only [isType, if_true] at stepped
      cases stepped
      simp only [emit, isType, if_true, List.append_nil]
      exact kept
    · cases stepped
  | copy h =>
    simp only [step] at stepped
    split at stepped
    next copying =>
      cases stepped
      exact invariant_copy inv copying
    · cases stepped

/-- In every run in which each sender waits for the copy of its letter before
it posts semaphore 2, no letter is overwritten, dropped or read twice. -/
theorem letters_read_once {log : List Event} {s : State ι}
    (run : system.Reach ReleasedAfterCopy initial log s) : ReadOnce log s :=
  (run.invariant Invariant invariant_initial
    fun _ _ _ _ inv allowed stepped => invariant_step inv allowed stepped).readOnce

/-- A whole exchange: one join and one chat line, each waited for. -/
def patientSchedule : List (Action Nat) :=
  [.enter 0 ⟨.members, ['j']⟩, .writeText 0, .writeType 0, .post 0, .take .members, .test .members,
    .copy .members, .release 0, .enter 1 ⟨.messages, ['c']⟩, .writeText 1, .writeType 1, .post 1,
    .take .messages, .test .messages, .copy .messages, .release 1]

theorem letters_read_once_patient :
    ∃ log s, (system (ι := Nat)).Reach ReleasedAfterCopy initial log s ∧
      readLetters log = [⟨.members, ['j']⟩, ⟨.messages, ['c']⟩] ∧ ReadOnce log s := by
  obtain ⟨log, s, run, read⟩ := (system (ι := Nat)).exists_reach ReleasedAfterCopy
    initial patientSchedule
    (fun log _ => readLetters log = [⟨.members, ['j']⟩, ⟨.messages, ['c']⟩]) (by decide)
  exact ⟨log, s, run, read, letters_read_once run⟩

/-- Sender 0's delay ends before `members_handler` has run; sender 1 replaces
the letter. -/
def hastySchedule : List (Action Nat) :=
  [.enter 0 ⟨.members, ['j']⟩, .writeText 0, .writeType 0, .post 0, .release 0,
    .enter 1 ⟨.messages, ['c']⟩, .writeText 1, .writeType 1, .take .members, .test .members]

/-- The join is dropped by the test of `mtype`, and no token of semaphore 0 is
left to read it by. -/
theorem letter_dropped :
    ∃ log s, (system (ι := Nat)).Reach System.Anything initial log s ∧
      log = [.sent ⟨.members, ['j']⟩, .dropped .members] ∧ s.mtext = ['c'] ∧
      s.token .members = 0 ∧ ¬ ReadOnce log s := by
  obtain ⟨log, s, run, rfl, text, token⟩ := (system (ι := Nat)).exists_reach
    System.Anything initial hastySchedule
    (fun log s => log = [.sent ⟨.members, ['j']⟩, .dropped .members] ∧ s.mtext = ['c'] ∧
      s.token .members = 0) (by decide)
  exact ⟨_, s, run, rfl, text, token, fun once => once.undropped .members (by simp)⟩

end EltexCourse.Guarantees.Chat.MailboxDelivery
