import Mathlib.Logic.Function.Basic
import EltexCourse.Foundations.CBuffer

/-!
# A C string that several parties read and write byte by byte

Each party comes to the string from outside, goes over it byte by byte, reading
up to the terminator or writing a line with its terminator, and leaves it. When
no two are at it at once, every text read is the whole of the text last written:
the log of what was read and written is that of a register.
-/

set_option autoImplicit false

namespace EltexCourse.Foundations.SharedText
open CString CBuffer

variable {ι : Type*}

/-- Where a party is: `reading k seen` before it looks at byte `k`, `writing k
line` before it stores it, `leaving` with nothing left to touch. -/
inductive Phase where
  | outside
  | reading (k : Nat) (seen : Text)
  | writing (k : Nat) (line : Text)
  | leaving
  deriving DecidableEq, Repr

/-- Of a text that has been read or written to its end. -/
inductive Event (ι : Type*) where
  | read (p : ι) (seen : Text)
  | wrote (p : ι) (line : Text)
  deriving DecidableEq, Repr

/-- Every text read is the last one written, the first of all being `text`. -/
def Serial : Text → List (Event ι) → Prop
  | _, [] => True
  | text, .read _ seen :: rest => seen = text ∧ Serial text rest
  | _, .wrote _ line :: rest => Serial line rest

/-- The text last written. -/
def lastText : Text → List (Event ι) → Text
  | text, [] => text
  | text, .read _ _ :: rest => lastText text rest
  | _, .wrote _ line :: rest => lastText line rest

theorem lastText_append (text : Text) (log later : List (Event ι)) :
    lastText text (log ++ later) = lastText (lastText text log) later := by
  induction log generalizing text with
  | nil => rfl
  | cons event rest ih =>
    cases event with
    | read p seen => exact ih text
    | wrote p line => exact ih line

theorem serial_append (text : Text) (log later : List (Event ι)) :
    Serial text (log ++ later) ↔ Serial text log ∧ Serial (lastText text log) later := by
  induction log generalizing text with
  | nil => exact (and_iff_right trivial).symm
  | cons event rest ih =>
    cases event with
    | read p seen =>
      show seen = text ∧ Serial text (rest ++ later) ↔ (seen = text ∧ Serial text rest) ∧ _
      rw [ih text, and_assoc]
      rfl
    | wrote p line => exact ih line

/-- Byte `k` of a line in memory, its terminator included. -/
def byteAt (line : Text) (k : Nat) : Char := line.getD k nul

/-- The memory starts with the line and its terminator. -/
def Stored (memory : Nat → Char) (line : Text) : Prop :=
  ∀ k ≤ line.length, memory k = byteAt line k

theorem byteAt_inside {text : Text} {k : Nat} (inside : k < text.length) :
    byteAt text k = text[k] := by simp [byteAt, inside]

theorem byteAt_end (line : Text) : byteAt line line.length = nul := by simp [byteAt]

theorem byteAt_ne_nul {line : Text} (noNul : nul ∉ line) {k : Nat} (inside : k < line.length) :
    byteAt line k ≠ nul := by
  rw [byteAt_inside inside]
  exact fun same => noNul (same ▸ List.getElem_mem inside)

theorem take_byteAt {line : Text} {k : Nat} (inside : k < line.length) :
    line.take k ++ [byteAt line k] = line.take (k + 1) := by
  rw [byteAt_inside inside, List.take_append_getElem]

/-- What a step of party `p` does to the memory, to its own phase and to the log. -/
inductive Turn (p : ι) (memory : Nat → Char) :
    (Nat → Char) → Phase → Phase → List (Event ι) → Prop where
  | stays (phase : Phase) : Turn p memory memory phase phase []
  | enters (phase : Phase) (starts : phase = .reading 0 [] ∨ ∃ line, phase = .writing 0 line) :
      Turn p memory memory .outside phase []
  | reads (k : Nat) (seen : Text) (more : memory k ≠ nul) :
      Turn p memory memory (.reading k seen) (.reading (k + 1) (seen ++ [memory k])) []
  | hasRead (k : Nat) (seen : Text) (phase : Phase) (last : memory k = nul)
      (goesOn : phase = .leaving ∨ ∃ line, phase = .writing 0 line) :
      Turn p memory memory (.reading k seen) phase [.read p seen]
  | writes (k : Nat) (line : Text) (more : k < line.length) :
      Turn p memory (Function.update memory k (byteAt line k)) (.writing k line)
        (.writing (k + 1) line) []
  | hasWritten (k : Nat) (line : Text) (last : ¬ k < line.length) :
      Turn p memory (Function.update memory k (byteAt line k)) (.writing k line) .leaving
        [.wrote p line]
  | leaves : Turn p memory memory .leaving .outside []

/-- The log is serial, and memory and phases are where it has brought them. -/
structure Whole (first : Text) (log : List (Event ι)) (memory : Nat → Char) (phase : ι → Phase) :
    Prop where
  serial : Serial first log
  noNul : nul ∉ lastText first log
  reading : ∀ p k seen, phase p = .reading k seen →
    k ≤ (lastText first log).length ∧ seen = (lastText first log).take k
  writing : ∀ p k line, phase p = .writing k line →
    nul ∉ line ∧ k ≤ line.length ∧ ∀ j < k, memory j = byteAt line j
  stored : (∀ p k line, phase p ≠ .writing k line) → Stored memory (lastText first log)

variable {first : Text} {log : List (Event ι)} {memory memory' : Nat → Char}
  {phase phase' : ι → Phase} {p : ι}

theorem whole_initial (text : first = []) (zero : memory 0 = nul)
    (outside : ∀ p, phase p = .outside) : Whole first [] memory phase := by
  subst text
  refine ⟨trivial, List.not_mem_nil, fun p k seen at_p => ?_, fun p k line at_p => ?_, fun _ => ?_⟩
  · rw [outside p] at at_p
    cases at_p
  · rw [outside p] at at_p
    cases at_p
  · intro k bound
    obtain rfl : k = 0 := Nat.le_zero.mp bound
    exact zero

/-- With everybody else outside, only the phase of `p` has to be looked at. -/
theorem whole_alone (serial : Serial first log) (noNul : nul ∉ lastText first log)
    (others : ∀ q, q ≠ p → phase q = .outside)
    (reading : ∀ k seen, phase p = .reading k seen →
      k ≤ (lastText first log).length ∧ seen = (lastText first log).take k)
    (writing : ∀ k line, phase p = .writing k line →
      nul ∉ line ∧ k ≤ line.length ∧ ∀ j < k, memory j = byteAt line j)
    (stored : (∀ k line, phase p ≠ .writing k line) → Stored memory (lastText first log)) :
    Whole first log memory phase := by
  refine ⟨serial, noNul, fun q k seen at_q => ?_, fun q k line at_q => ?_,
    fun none => stored fun k line => none p k line⟩
  · by_cases own : q = p
    · exact reading k seen (own ▸ at_q)
    · rw [others q own] at at_q
      cases at_q
  · by_cases own : q = p
    · exact writing k line (own ▸ at_q)
    · rw [others q own] at at_q
      cases at_q

theorem Whole.storedAlone (whole : Whole first log memory phase)
    (others : ∀ q, q ≠ p → phase q = .outside) (own : ∀ k line, phase p ≠ .writing k line) :
    Stored memory (lastText first log) := by
  refine whole.stored fun q k line at_q => ?_
  by_cases same : q = p
  · exact own k line (same ▸ at_q)
  · rw [others q same] at at_q
    cases at_q

/-- A party with nothing of the string behind it, and its line, if it has one, still whole. -/
def Fresh : Phase → Prop
  | .outside => True
  | .reading k seen => k = 0 ∧ seen = []
  | .writing k line => k = 0 ∧ nul ∉ line
  | .leaving => True

theorem fresh_reading : Fresh (.reading 0 []) := ⟨rfl, rfl⟩

/-- A party that comes or goes leaves the string as it is, whatever it is going
to do next. -/
theorem whole_fresh (serial : Serial first log) (noNul : nul ∉ lastText first log)
    (others : ∀ q, q ≠ p → phase q = .outside) (fresh : Fresh (phase p))
    (stored : Stored memory (lastText first log)) : Whole first log memory phase := by
  refine whole_alone serial noNul others (fun k seen at_p => ?_) (fun k line at_p => ?_)
    fun _ => stored
  · rw [at_p] at fresh
    obtain ⟨rfl, rfl⟩ := fresh
    exact ⟨Nat.zero_le _, rfl⟩
  · rw [at_p] at fresh
    obtain ⟨rfl, noNul⟩ := fresh
    exact ⟨noNul, Nat.zero_le _, fun j inside => absurd inside (Nat.not_lt_zero j)⟩

/-- Byte `k` read, when it is not the terminator: one more byte of the text seen. -/
theorem Whole.readByte {k : Nat} {seen : Text} (whole : Whole first log memory phase)
    (start : phase p = .reading k seen) (before : ∀ q, q ≠ p → phase q = .outside)
    (now : ∀ q, q ≠ p → phase' q = .outside) (more : memory k ≠ nul)
    (finish : phase' p = .reading (k + 1) (seen ++ [memory k])) :
    Whole first log memory phase' := by
  have stored := whole.storedAlone before (by simp [start])
  obtain ⟨bound, took⟩ := whole.reading p k seen start
  have inside : k < (lastText first log).length := by
    refine Nat.lt_of_le_of_ne bound fun last => more ?_
    rw [stored k bound, last, byteAt_end]
  refine whole_alone whole.serial whole.noNul now (fun j also at_p => ?_)
    (fun j line at_p => ?_) fun _ => stored
  · rw [finish] at at_p
    cases at_p
    exact ⟨inside, by rw [took, stored k bound, take_byteAt inside]⟩
  · rw [finish] at at_p
    cases at_p

/-- A reader that has come to the terminator has seen the whole text. -/
theorem Whole.seen_all {k : Nat} {seen : Text} (whole : Whole first log memory phase)
    (start : phase p = .reading k seen) (before : ∀ q, q ≠ p → phase q = .outside)
    (last : memory k = nul) : seen = lastText first log := by
  have stored := whole.storedAlone before (by simp [start])
  obtain ⟨bound, took⟩ := whole.reading p k seen start
  have ended : ¬ k < (lastText first log).length := fun inside =>
    byteAt_ne_nul whole.noNul inside (by rw [← stored k bound, last])
  rw [took, List.take_of_length_le (by omega)]

/-- The terminator read: the reader is done, or has a line of its own to write. -/
theorem Whole.readEnd {k : Nat} {seen : Text} (whole : Whole first log memory phase)
    (start : phase p = .reading k seen) (before : ∀ q, q ≠ p → phase q = .outside)
    (now : ∀ q, q ≠ p → phase' q = .outside) (last : memory k = nul)
    (fresh : Fresh (phase' p)) : Whole first (log ++ [.read p seen]) memory phase' := by
  have unchanged : lastText first (log ++ [Event.read p seen]) = lastText first log :=
    lastText_append first log _
  refine whole_fresh ?_ (unchanged ▸ whole.noNul) now fresh ?_
  · exact (serial_append ..).mpr ⟨whole.serial, whole.seen_all start before last, trivial⟩
  · rw [unchanged]
    exact whole.storedAlone before (by simp [start])

/-- After a store of byte `k` the bytes up to and with it are those of the line. -/
theorem written_upTo {k : Nat} {line : Text} (done : ∀ j < k, memory j = byteAt line j) {j : Nat}
    (upTo : j ≤ k) : Function.update memory k (byteAt line k) j = byteAt line j := by
  by_cases own : j = k
  · rw [own, Function.update_self]
  · rw [Function.update_of_ne own, done j (by omega)]

/-- Byte `k` of a line stored, with more of the line to come. -/
theorem Whole.writeByte {k : Nat} {line : Text} (whole : Whole first log memory phase)
    (start : phase p = .writing k line) (now : ∀ q, q ≠ p → phase' q = .outside)
    (more : k < line.length) (finish : phase' p = .writing (k + 1) line) :
    Whole first log (Function.update memory k (byteAt line k)) phase' := by
  obtain ⟨noNul, _, done⟩ := whole.writing p k line start
  refine whole_alone whole.serial whole.noNul now (fun j also at_p => ?_)
    (fun j other at_p => ?_) fun notWriting => absurd finish (notWriting _ _)
  · rw [finish] at at_p
    cases at_p
  · rw [finish] at at_p
    cases at_p
    exact ⟨noNul, more, fun j earlier => written_upTo done (Nat.le_of_lt_succ earlier)⟩

/-- The terminator stored: the line is the text from now on. -/
theorem Whole.writeEnd {k : Nat} {line : Text} (whole : Whole first log memory phase)
    (start : phase p = .writing k line) (now : ∀ q, q ≠ p → phase' q = .outside)
    (last : ¬ k < line.length) (finish : phase' p = .leaving) :
    Whole first (log ++ [.wrote p line]) (Function.update memory k (byteAt line k)) phase' := by
  obtain ⟨noNul, _, done⟩ := whole.writing p k line start
  have newText : lastText first (log ++ [Event.wrote p line]) = line :=
    lastText_append first log _
  refine whole_fresh ((serial_append ..).mpr ⟨whole.serial, trivial⟩) ?_ now
    (finish ▸ trivial) ?_
  · rw [newText]
    exact noNul
  · rw [newText]
    intro j inside
    exact written_upTo done (by omega)

/-- A turn of a party that is alone at the string, once it is there. -/
theorem Whole.turn {events : List (Event ι)} (whole : Whole first log memory phase)
    (turn : Turn p memory memory' (phase p) (phase' p) events)
    (others : ∀ q, q ≠ p → phase' q = phase q)
    (alone : ¬ (phase p = .outside ∧ phase' p = .outside) → ∀ q, q ≠ p → phase q = .outside)
    (lines : ∀ k line, phase' p = .writing k line → nul ∉ line) :
    Whole first (log ++ events) memory' phase' := by
  generalize start : phase p = before at turn
  generalize finish : phase' p = after at turn
  have away (inside : ¬ (before = .outside ∧ after = .outside)) :
      (∀ q, q ≠ p → phase q = .outside) ∧ ∀ q, q ≠ p → phase' q = .outside := by
    have outside := alone (by rwa [start, finish])
    exact ⟨outside, fun q other => (others q other).trans (outside q other)⟩
  have starting (line : Text) (at_p : phase' p = .writing 0 line) : Fresh (phase' p) :=
    at_p ▸ ⟨rfl, lines 0 line at_p⟩
  cases turn with
  | stays =>
    have same : phase' = phase := funext fun q => by
      by_cases own : q = p
      · rw [own, start, finish]
      · exact others q own
    rw [same, List.append_nil]
    exact whole
  | enters _ starts =>
    obtain ⟨before, now⟩ := away (by rcases starts with rfl | ⟨line, rfl⟩ <;> simp)
    rw [List.append_nil]
    refine whole_fresh whole.serial whole.noNul now ?_ (whole.storedAlone before (by simp [start]))
    rcases starts with rfl | ⟨line, rfl⟩
    · exact finish ▸ fresh_reading
    · exact starting line finish
  | reads k seen more =>
    obtain ⟨before, now⟩ := away (by simp)
    rw [List.append_nil]
    exact whole.readByte start before now more finish
  | hasRead k seen _ last goesOn =>
    obtain ⟨before, now⟩ := away (by simp)
    refine whole.readEnd start before now last ?_
    rcases goesOn with rfl | ⟨line, rfl⟩
    · exact finish ▸ trivial
    · exact starting line finish
  | writes k line more =>
    rw [List.append_nil]
    exact whole.writeByte start (away (by simp)).2 more finish
  | hasWritten k line last =>
    exact whole.writeEnd start (away (by simp)).2 last finish
  | leaves =>
    obtain ⟨before, now⟩ := away (by simp)
    rw [List.append_nil]
    exact whole_fresh whole.serial whole.noNul now (finish ▸ trivial)
      (whole.storedAlone before (by simp [start]))

end EltexCourse.Foundations.SharedText
