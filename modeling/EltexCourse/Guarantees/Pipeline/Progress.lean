import EltexCourse.Guarantees.Pipeline.Dataflow

/-!
# task12/pipeline_bash: a pipeline comes to its end

A command may wait for its neighbours: for bytes from the one in front of it, or
for room before the one behind it. It never waits for itself, for the shell or
for a process that has kept an end it does not use, and a pipe is not empty and
full at once. So somebody can always go on, until the shell has waited for all.
-/

set_option autoImplicit false

namespace EltexCourse.Guarantees.Pipeline.Progress
open Foundations.Descriptors Foundations.Programs Foundations.Ranking Foundations.Transition
open Source.Pipeline Source.Pipeline.Execution Guarantees.Pipeline.Wiring Guarantees.Pipeline.Ends
open Guarantees.Pipeline.Dataflow

variable {Inherited Byte σ : Type} {act : σ → Act Byte σ} {capacity : Nat}
  {shell : Table Inherited} {commands : List σ} {stdin stdout : Inherited}
  {s : State Inherited Byte σ} [DecidableEq Inherited]

theorem over_or_going (pc : ChildPc σ) :
    Over pc ∨ (∃ p, pc = .running p) ∨ pc = .absent ∨ pc = .stdin ∨ pc = .stdout ∨ pc =
      .closing := by
  cases pc with
  | absent => simp
  | stdin => simp
  | stdout => simp
  | closing => simp
  | running p => exact Or.inr (Or.inl ⟨p, rfl⟩)
  | exited status => exact Or.inl trivial
  | killed => exact Or.inl trivial

/-- Up to its `execvp` a child waits for nobody. -/
theorem prepares_goes (tables : Tables shell commands.length s) (opened : shell.file 0 ≠ none)
    {j : Nat} (inside : j < commands.length)
    (pc : s.childPc j = .stdin ∨ s.childPc j = .stdout ∨ s.childPc j = .closing) :
    ∃ t, (execution act capacity shell commands).step s (.child j) = some t := by
  have start := opened_made shell commands.length
  have length := opened_length shell commands.length
  have own := tables.child j
  show ∃ t, childStep act capacity _ commands s j = some t
  unfold childStep
  rcases pc with pc | pc | pc <;> rw [pc] at own ⊢
  · obtain ⟨table, redirected, -⟩ := childStdin_spec start own (by rw [length]; omega) opened
    exact ⟨_, by rw [redirected, Option.map_some]⟩
  · obtain ⟨table, redirected, -⟩ := childStdout_spec length own.2
    exact ⟨_, by rw [redirected, Option.map_some]⟩
  · exact ⟨_, by rw [List.getElem?_eq_getElem inside, Option.map_some]⟩

theorem readStep_waits {count i : Nat} {next : Option Byte → σ}
    (waits : s.readStep count i next = none) :
    ∃ k, (s.child i).file 0 = some (.readEnd k) ∧ s.pipe k = [] ∧
      s.held count (.writeEnd k) = true := by
  unfold State.readStep at waits
  split at waits
  · split at waits <;> cases waits
  · next k at_zero =>
    split at waits
    · next empty =>
      split at waits
      · next held => exact ⟨k, at_zero, empty, held⟩
      · cases waits
    · cases waits
  · cases waits

theorem writeStep_waits {count i : Nat} {b : Byte} {next : σ}
    (waits : s.writeStep count capacity i b next = none) :
    ∃ k, (s.child i).file 1 = some (.writeEnd k) ∧ capacity ≤ (s.pipe k).length ∧
      s.held count (.readEnd k) = true := by
  unfold State.writeStep at waits
  split at waits
  · cases waits
  · next k at_one =>
    split at waits
    · next held =>
      split at waits
      · cases waits
      · next full => exact ⟨k, at_one, Nat.le_of_not_lt full, held⟩
    · cases waits
  · cases waits

/-- A command waits at an empty pipe that has a writer or at a full one that has
a reader. -/
theorem running_waits (tables : Tables shell commands.length s)
    (at_zero : shell.file 0 = some stdin) (at_one : shell.file 1 = some stdout) {j : Nat} {p : σ}
    (pc : s.childPc j = .running p)
    (waits : (execution act capacity shell commands).step s (.child j) = none) :
    (∃ k, j = k + 1 ∧ s.pipe k = [] ∧ s.held commands.length (.writeEnd k) = true) ∨
    (j + 1 < commands.length ∧ capacity ≤ (s.pipe j).length ∧
      s.held commands.length (.readEnd j) = true) := by
  have inside : j < commands.length := tables.inside (by simp [pc])
  have wired := tables.child j
  rw [pc] at wired
  have input := (wired 0).trans (wiring_stdin at_zero commands.length j)
  have output := (wired 1).trans (wiring_stdout at_one inside)
  have waits : childStep act capacity (opened shell commands.length).1 commands s j = none := waits
  simp only [childStep, pc] at waits
  split at waits
  · obtain ⟨k, file, empty, held⟩ := readStep_waits waits
    rw [input] at file
    split at file
    · cases file
    · cases file
      exact Or.inl ⟨j - 1, by omega, empty, held⟩
  · obtain ⟨k, file, full, held⟩ := writeStep_waits waits
    rw [output] at file
    split at file
    · cases file
    · cases file
      exact Or.inr ⟨by omega, full, held⟩
  · cases waits

/-- While the shell waits, every child runs or has ended and nobody can go on, a
running command has filled its pipe. -/
theorem writer_filled (tables : Tables shell commands.length s) {i : Nat}
    (waiting : s.parentPc = .waiting i)
    (settled : ∀ j < commands.length, (∃ p, s.childPc j = .running p) ∨ Over (s.childPc j))
    (stuck : ∀ a, (execution act capacity shell commands).step s a = none)
    (at_zero : shell.file 0 = some stdin) (at_one : shell.file 1 = some stdout)
    (room : 0 < capacity) {k : Nat} {p : σ} (pc : s.childPc k = .running p) : s.pipe k ≠ [] := by
  intro empty
  have notFull : ¬ capacity ≤ (s.pipe k).length := by
    rw [empty, List.length_nil]
    omega
  -- Induction on the place in the chain: the first command never waits for its input.
  induction k generalizing p with
  | zero =>
    rcases running_waits tables at_zero at_one pc (stuck _) with ⟨k, first, -⟩ | ⟨-, full, -⟩
    · cases first
    · exact notFull full
  | succ k ih =>
    rcases running_waits tables at_zero at_one pc (stuck _) with ⟨j, same, before, held⟩ |
      ⟨-, full, -⟩
    · obtain rfl : k = j := by omega
      obtain ⟨l, q, fd, pc', wired⟩ :=
        tables.holder waiting settled (fun _ same => by cases same) held
      obtain ⟨-, rfl, -⟩ := wiring_writeEnd.mp wired
      exact ih pc' before (by rw [before, List.length_nil]; omega)
    · exact notFull full

/-- So none is running: each would wait for room, and the last writes to the
terminal. -/
theorem nobody_running (tables : Tables shell commands.length s) {i : Nat}
    (waiting : s.parentPc = .waiting i)
    (settled : ∀ j < commands.length, (∃ p, s.childPc j = .running p) ∨ Over (s.childPc j))
    (stuck : ∀ a, (execution act capacity shell commands).step s a = none)
    (at_zero : shell.file 0 = some stdin) (at_one : shell.file 1 = some stdout)
    (room : 0 < capacity) (left j : Nat) (behind : j + left = commands.length) (p : σ) :
    s.childPc j ≠ .running p := by
  intro pc
  induction left generalizing j p with
  | zero =>
    have inside : j < commands.length := tables.inside (by simp [pc])
    omega
  | succ left ih =>
    rcases running_waits tables at_zero at_one pc (stuck _) with ⟨k, -, empty, held⟩ | ⟨-, -, held⟩
    · obtain ⟨l, q, fd, pc', wired⟩ :=
        tables.holder waiting settled (fun _ same => by cases same) held
      obtain ⟨-, rfl, -⟩ := wiring_writeEnd.mp wired
      exact writer_filled tables waiting settled stuck at_zero at_one room pc' empty
    · obtain ⟨l, q, fd, pc', wired⟩ :=
        tables.holder waiting settled (fun _ same => by cases same) held
      obtain ⟨-, rfl⟩ := wiring_readEnd.mp wired
      exact ih (j + 1) (by omega) q pc'

theorem parent_goes (tables : Tables shell commands.length s)
    (busy : ∀ i, s.parentPc ≠ .waiting i) (running : s.parentPc ≠ .returned) :
    ∃ t, (execution act capacity shell commands).step s .parent = some t := by
  have start := opened_made shell commands.length
  have length := opened_length shell commands.length
  have parent := tables.parent
  show ∃ t, parentStep _ commands.length s = some t
  cases pc : s.parentPc with
  | forking i => simp [parentStep, pc]
  | closingRead i =>
    rw [pc] at parent
    obtain ⟨table, closed, -⟩ :=
      parent.2.closeRead start (by rw [length]; have := parent.1; omega)
    simp [parentStep, pc, closed]
  | closingWrite i =>
    rw [pc] at parent
    obtain ⟨table, closed, -⟩ := parent.2.closeWrite start length
    simp [parentStep, pc, closed]
  | closing => simp [parentStep, pc]
  | waiting i => exact absurd pc (busy i)
  | returned => exact absurd pc running

theorem waiting_goes {i : Nat} (waiting : s.parentPc = .waiting i) (gone : Over (s.childPc i)) :
    ∃ t, (execution act capacity shell commands).step s .parent = some t := by
  show ∃ t, parentStep _ commands.length s = some t
  cases pc : s.childPc i with
  | exited status => simp [parentStep, waiting, pc]
  | killed => simp [parentStep, waiting, pc]
  | _ =>
    rw [pc] at gone
    exact gone.elim

/-- Somebody can always step: were the parent waiting and every child held up at a pipe,
`nobody_running` would lead along the pipeline to one that is not. -/
theorem somebody_goes (tables : Tables shell commands.length s)
    (at_zero : shell.file 0 = some stdin) (at_one : shell.file 1 = some stdout)
    (room : 0 < capacity) (running : s.parentPc ≠ .returned) :
    ∃ a t, (execution act capacity shell commands).step s a = some t := by
  refine Classical.byContradiction fun nobody => ?_
  have stuck (a : Action) : (execution act capacity shell commands).step s a = none := by
    refine Option.eq_none_iff_forall_ne_some.mpr fun t stepped => nobody ⟨a, t, stepped⟩
  have waiting : ∃ i, s.parentPc = .waiting i := Classical.byContradiction fun busy => by
    obtain ⟨t, stepped⟩ := parent_goes tables (fun i pc => busy ⟨i, pc⟩) running
    exact nobody ⟨_, t, stepped⟩
  obtain ⟨i, waiting⟩ := waiting
  have settled (j : Nat) (inside : j < commands.length) :
      (∃ p, s.childPc j = .running p) ∨ Over (s.childPc j) := by
    rcases over_or_going (s.childPc j) with gone | ⟨p, pc⟩ | absent | preparing
    · exact Or.inr gone
    · exact Or.inl ⟨p, pc⟩
    · have before := (tables.absent j).mp absent
      rw [waiting] at before
      exact absurd inside (Nat.not_lt.mpr before)
    · obtain ⟨t, stepped⟩ := prepares_goes tables (by simp [at_zero]) inside preparing
      exact absurd ⟨_, t, stepped⟩ nobody
  have parent := tables.parent
  rw [waiting] at parent
  rcases settled i parent.1 with ⟨p, pc⟩ | gone
  · have inside := parent.1
    exact nobody_running tables waiting settled stuck at_zero at_one room (commands.length - i) i
      (by omega) p pc
  · exact nobody ⟨.parent, waiting_goes waiting gone⟩

/-- No order of the steps goes on for longer than `longest`, and none gets stuck
before `pipeline_handler` has returned. -/
theorem pipeline_returns {unread : Inherited → List Byte} {texts : Nat → List Byte}
    {steps status : Nat → Nat}
    (setting : Setting act shell commands unread stdin stdout texts steps status)
    (room : 0 < capacity) {log : List Action}
    (run : (execution act capacity shell commands).Reach System.Anything
      (initial shell commands.length unread) log s) :
    log.length ≤ longest steps commands.length ∧
      (s.parentPc ≠ .returned →
        ∃ a t, (execution act capacity shell commands).step s a = some t) := by
  obtain ⟨r, under, bound⟩ := reached_under setting run
  exact ⟨by omega, somebody_goes under.tables setting.atZero setting.atOne room⟩

theorem pipeline_returns_lines :
    ∃ log s, (execution Lines.next 1 loggingShell [.write 3, .readOne]).Reach System.Anything
        (initial loggingShell 2 fun _ => []) log s ∧ s.parentPc = .waiting 0 ∧
      log.length ≤ 22 ∧
      ∃ a t, (execution Lines.next 1 loggingShell [.write 3, .readOne]).step s a = some t := by
  obtain ⟨log, s, run, waiting⟩ :=
    System.exists_reach (execution Lines.next 1 loggingShell [.write 3, .readOne]) System.Anything
      (initial loggingShell 2 fun _ => []) (linesSchedule.take 15)
      (fun _ s => s.parentPc = .waiting 0) (by decide +kernel)
  obtain ⟨bound, goes⟩ := pipeline_returns lines_setting (by decide) run
  exact ⟨log, s, run, waiting, bound, goes (by simp [waiting])⟩

end EltexCourse.Guarantees.Pipeline.Progress
