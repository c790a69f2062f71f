import EltexCourse.Foundations.Ranking
import EltexCourse.Guarantees.Pipeline.Ends

/-!
# task12/pipeline_bash: a pipeline against its commands one by one

The commands of a pipeline run side by side and through pipes that may be full,
empty or broken. What arrives in front of the terminal is nevertheless what the
last of them would write if each had been run alone, on the file its predecessor
had left. `Flow` carries that through a run: to every child that has not ended
belongs what it has still to read, on its way or not yet written, and what it has
still to write.
-/

set_option autoImplicit false

namespace EltexCourse.Guarantees.Pipeline.Dataflow
open Foundations.Descriptors Foundations.Programs Foundations.Ranking Foundations.Transition
open Source.Pipeline Source.Pipeline.Execution Guarantees.Pipeline.Wiring Guarantees.Pipeline.Ends

variable {Inherited Byte σ : Type} {act : σ → Act Byte σ} {capacity : Nat}
  {shell : Table Inherited} {commands : List σ} {stdin stdout : Inherited}
  {texts : Nat → List Byte} {steps status : Nat → Nat} {s t : State Inherited Byte σ}

/-- The shell has descriptors 0 and 1, the file at 0 holds the first text, and
each command alone makes the next text of the one in front of it. -/
structure Setting (act : σ → Act Byte σ) (shell : Table Inherited) (commands : List σ)
    (unread : Inherited → List Byte) (stdin stdout : Inherited) (texts : Nat → List Byte)
    (steps status : Nat → Nat) : Prop where
  two : 2 ≤ commands.length
  atZero : shell.file 0 = some stdin
  atOne : shell.file 1 = some stdout
  first : texts 0 = unread stdin
  alone : OneByOne act commands texts steps status

/-- How the children have ended, and what the shell has said about it. -/
structure Ended (count : Nat) (status : Nat → Nat) (s : State Inherited Byte σ) : Prop where
  child : ∀ i < count, s.childPc i = .exited (status i) ∨ i + 1 < count ∧ s.childPc i = .killed
  reports : ∀ i code,
    (i, code) ∈ s.reports ↔ i < count ∧ s.childPc i = .exited code ∧ code ≠ 0

/-- What a child runs or is going to run. -/
def program (command : σ) : ChildPc σ → Option σ
  | .running program => some program
  | .exited _ => none
  | .killed => none
  | _ => some command

theorem program_over {command : σ} {pc : ChildPc σ} (gone : Over pc) :
    program command pc = none := by
  cases pc with
  | exited status => rfl
  | killed => rfl
  | _ => exact gone.elim

/-- What child `i` has still to read if child `j` has still to write `rest j`. -/
def incoming (s : State Inherited Byte σ) (stdin : Inherited) (rest : Nat → List Byte) :
    Nat → List Byte
  | 0 => s.unread stdin
  | k + 1 => s.pipe k ++ rest k

structure Flow (act : σ → Act Byte σ) (commands : List σ) (stdin stdout : Inherited)
    (texts : Nat → List Byte) (status : Nat → Nat) (s : State Inherited Byte σ)
    (rest : Nat → List Byte) (n : Nat → Nat) : Prop where
  produces : ∀ i command p, commands[i]? = some command → program command (s.childPc i) = some p →
    Produces act (n i) (incoming s stdin rest i) p (rest i) (status i)
  exited : ∀ i code, s.childPc i = .exited code → rest i = [] ∧ code = status i
  killed : ∀ i, s.childPc i = .killed → i + 1 < commands.length ∧ Over (s.childPc (i + 1))
  terminal : s.written stdout ++ rest (commands.length - 1) = texts commands.length

theorem flow_initial {unread : Inherited → List Byte}
    (setting : Setting act shell commands unread stdin stdout texts steps status) :
    Flow act commands stdin stdout texts status (initial shell commands.length unread)
      (fun i => texts (i + 1)) steps := by
  have two := setting.two
  refine ⟨fun i command p found same => ?_, fun i code pc => (by cases pc),
    fun i pc => (by cases pc), ?_⟩
  · cases same
    have alone := setting.alone.produces i command found
    cases i with
    | zero =>
      rw [setting.first] at alone
      exact alone
    | succ k => exact alone
  · show [] ++ texts (commands.length - 1 + 1) = texts commands.length
    rw [List.nil_append, Nat.sub_add_cancel (by omega)]

section Steps

variable {rest : Nat → List Byte} {n : Nat → Nat} {i : Nat}

/-- A child that comes nearer to its `execvp`. -/
theorem Flow.prepares (flow : Flow act commands stdin stdout texts status s rest n)
    {pc : ChildPc σ} (going : ¬ Over (s.childPc i)) (still : ¬ Over pc)
    (same : ∀ command, commands[i]? = some command →
      program command pc = program command (s.childPc i)) (table : Table (File Inherited)) :
    Flow act commands stdin stdout texts status (s.prepares i pc table) rest n := by
  have now := (prepares_self (s := s) (i := i) pc table).1
  have others (j : Nat) (other : j ≠ i) := (prepares_ne (s := s) pc table other).1
  refine ⟨fun j command p found ahead => ?_, fun j code ended => ?_, fun j ended => ?_,
    flow.terminal⟩
  · refine flow.produces j command p found ?_
    by_cases own : j = i
    · subst own
      rw [← same command found, ← now]
      exact ahead
    · rw [← others j own]
      exact ahead
  · by_cases own : j = i
    · rw [own, now] at ended
      exact (still (ended ▸ trivial)).elim
    · rw [others j own] at ended
      exact flow.exited j code ended
  · by_cases own : j = i
    · rw [own, now] at ended
      exact (still (ended ▸ trivial)).elim
    · rw [others j own] at ended
      obtain ⟨more, gone⟩ := flow.killed j ended
      refine ⟨more, ?_⟩
      by_cases behind : j + 1 = i
      · exact absurd (behind ▸ gone) going
      · rwa [others (j + 1) behind]

/-- A command that goes on. -/
theorem Flow.runs (flow : Flow act commands stdin stdout texts status s rest n) {p q : σ}
    (pc : s.childPc i = .running p) {u : State Inherited Byte σ} (now : u.childPc i = .running q)
    (others : ∀ j, j ≠ i → u.childPc j = s.childPc j) {rest' : Nat → List Byte} {m : Nat}
    (produces : Produces act m (incoming u stdin rest' i) q (rest' i) (status i))
    (outputs : ∀ j, j ≠ i → rest' j = rest j)
    (inputs : ∀ j < commands.length, j ≠ i → incoming u stdin rest' j = incoming s stdin rest j)
    (terminal : u.written stdout ++ rest' (commands.length - 1) = texts commands.length) :
    Flow act commands stdin stdout texts status u rest' (Function.update n i m) := by
  refine ⟨fun j command r found ahead => ?_, fun j code ended => ?_, fun j ended => ?_, terminal⟩
  · by_cases own : j = i
    · subst own
      rw [now] at ahead
      cases ahead
      rw [Function.update_self]
      exact produces
    · rw [others j own] at ahead
      rw [Function.update_of_ne own, outputs j own,
        inputs j (List.getElem?_eq_some_iff.mp found).1 own]
      exact flow.produces j command r found ahead
  · by_cases own : j = i
    · rw [own, now] at ended
      cases ended
    · rw [others j own] at ended
      rw [outputs j own]
      exact flow.exited j code ended
  · by_cases own : j = i
    · rw [own, now] at ended
      cases ended
    · rw [others j own] at ended
      obtain ⟨more, gone⟩ := flow.killed j ended
      refine ⟨more, ?_⟩
      by_cases behind : j + 1 = i
      · rw [behind, pc] at gone
        exact gone.elim
      · rwa [others (j + 1) behind]

/-- A command that ends, by itself or by SIGPIPE. -/
theorem Flow.ends (flow : Flow act commands stdin stdout texts status s rest n) {pc : ChildPc σ}
    (gone : Over pc) (exits : ∀ code, pc = .exited code → rest i = [] ∧ code = status i)
    (breaks : pc = .killed → i + 1 < commands.length ∧ Over (s.childPc (i + 1))) :
    Flow act commands stdin stdout texts status (s.ends i pc) rest n := by
  have now : (s.ends i pc).childPc i = pc := (prepares_self pc _).1
  have others (j : Nat) (other : j ≠ i) : (s.ends i pc).childPc j = s.childPc j :=
    (prepares_ne pc _ other).1
  have stays (j : Nat) (ended : Over (s.childPc j)) : Over ((s.ends i pc).childPc j) := by
    by_cases own : j = i
    · rwa [own, now]
    · rwa [others j own]
  refine ⟨fun j command p found ahead => ?_, fun j code ended => ?_, fun j ended => ?_,
    flow.terminal⟩
  · by_cases own : j = i
    · rw [own, now, program_over gone] at ahead
      cases ahead
    · rw [others j own] at ahead
      exact flow.produces j command p found ahead
  · by_cases own : j = i
    · rw [own, now] at ended
      exact own ▸ exits code ended
    · rw [others j own] at ended
      exact flow.exited j code ended
  · by_cases own : j = i
    · rw [own, now] at ended
      obtain ⟨more, behind⟩ := breaks ended
      subst own
      exact ⟨more, stays _ behind⟩
    · rw [others j own] at ended
      obtain ⟨more, behind⟩ := flow.killed j ended
      exact ⟨more, stays _ behind⟩

def parentWork (count : Nat) : ParentPc → Nat
  | .forking i => 3 * (count - i) + count + 1
  | .closingRead i => 3 * (count - i) + count
  | .closingWrite i => 3 * (count - i) + count - 1
  | .closing => count + 1
  | .waiting i => count - i
  | .returned => 0

def childWork (n : Nat) : ChildPc σ → Nat
  | .absent => n + 3
  | .stdin => n + 3
  | .stdout => n + 2
  | .closing => n + 1
  | .running _ => n
  | .exited _ => 0
  | .killed => 0

def work (count : Nat) (s : State Inherited Byte σ) (n : Nat → Nat) : Nat :=
  parentWork count s.parentPc + total (fun i => childWork (n i) (s.childPc i)) count

theorem parentWork_nextFork {count : Nat} (inside : i < count) :
    parentWork count (nextFork count i) < parentWork count (.closingWrite i) := by
  unfold nextFork
  split <;> simp only [parentWork] <;> omega

theorem parentWork_nextWait {count : Nat} (inside : i < count) :
    parentWork count (nextWait count i) < parentWork count (.waiting i) := by
  unfold nextWait
  split <;> simp only [parentWork] <;> omega

/-- One child has less to do, and nobody else has changed. -/
theorem work_lt {count : Nat} {u : State Inherited Byte σ} {n' : Nat → Nat} (inside : i < count)
    (parent : u.parentPc = s.parentPc)
    (others : ∀ j, j ≠ i → u.childPc j = s.childPc j ∧ n' j = n j)
    (less : childWork (n' i) (u.childPc i) < childWork (n i) (s.childPc i)) :
    work count u n' < work count s n := by
  unfold work
  rw [parent]
  refine Nat.add_lt_add_left (total_lt (fun j _ => ?_) inside less) _
  by_cases own : j = i
  · exact own ▸ Nat.le_of_lt less
  · simp only [(others j own).1, (others j own).2, Nat.le_refl]

theorem work_prepares {count : Nat} {pc : ChildPc σ} (inside : i < count)
    (less : childWork (n i) pc < childWork (n i) (s.childPc i)) (table : Table (File Inherited)) :
    work count (s.prepares i pc table) n < work count s n := by
  have now := (prepares_self (s := s) (i := i) pc table).1
  refine work_lt inside rfl (fun j other => ⟨(prepares_ne pc table other).1, rfl⟩) ?_
  rw [now]
  exact less

/-- A step takes the flow along and leaves less to do. -/
def Lowered (act : σ → Act Byte σ) (commands : List σ) (stdin stdout : Inherited)
    (texts : Nat → List Byte) (status : Nat → Nat) (n : Nat → Nat)
    (s t : State Inherited Byte σ) : Prop :=
  ∃ rest' n', Flow act commands stdin stdout texts status t rest' n' ∧
    work commands.length t n' < work commands.length s n

theorem wiring_stdin (at_zero : shell.file 0 = some stdin) (count i : Nat) :
    wiring shell count i 0 =
      if i = 0 then some (.inherited stdin) else some (.readEnd (i - 1)) := by
  unfold wiring
  by_cases first : i = 0
  · simp [first, at_zero]
  · simp [first, Nat.pos_of_ne_zero first]

theorem wiring_stdout (at_one : shell.file 1 = some stdout) {count i : Nat} (inside : i < count) :
    wiring shell count i 1 =
      if i + 1 = count then some (.inherited stdout) else some (.writeEnd i) := by
  unfold wiring
  by_cases last : i + 1 = count
  · simp [last, show ¬ i < count - 1 by omega, at_one]
  · simp [last, show i < count - 1 by omega]

/-- What a child has to read depends on the file at 0 or on the pipe in front of it. -/
theorem incoming_eq {u : State Inherited Byte σ} {rest' : Nat → List Byte} {j : Nat}
    (unread : j = 0 → u.unread stdin = s.unread stdin)
    (pipe : ∀ k, j = k + 1 → u.pipe k ++ rest' k = s.pipe k ++ rest k) :
    incoming u stdin rest' j = incoming s stdin rest j := by
  cases j with
  | zero => exact unread rfl
  | succ k => exact pipe k rfl

theorem Flow.running (flow : Flow act commands stdin stdout texts status s rest n)
    (inside : i < commands.length) {p : σ} (pc : s.childPc i = .running p) :
    Produces act (n i) (incoming s stdin rest i) p (rest i) (status i) :=
  flow.produces i commands[i] p (List.getElem?_eq_getElem inside) (by rw [pc]; rfl)

/-- A read, once it is known what it finds and what it leaves. -/
theorem Flow.gets (flow : Flow act commands stdin stdout texts status s rest n)
    (inside : i < commands.length) {p q : σ} (pc : s.childPc i = .running p)
    {u : State Inherited Byte σ} (now : u.childPc i = .running q)
    (others : ∀ j, j ≠ i → u.childPc j = s.childPc j) (parent : u.parentPc = s.parentPc)
    (inputs : ∀ j < commands.length, j ≠ i → incoming u stdin rest j = incoming s stdin rest j)
    (written : u.written = s.written) {m : Nat} (counted : n i = m + 1)
    (produces : Produces act m (incoming u stdin rest i) q (rest i) (status i)) :
    Lowered act commands stdin stdout texts status n s u := by
  refine ⟨rest, _, flow.runs pc now others produces (fun _ _ => rfl) inputs ?_, ?_⟩
  · rw [written]
    exact flow.terminal
  · refine work_lt inside parent (fun j other =>
      ⟨others j other, Function.update_of_ne other ..⟩) ?_
    rw [now, pc, Function.update_self]
    show m < n i
    omega

/-- A byte read out of the file at 0. -/
theorem Flow.readsFile [DecidableEq Inherited]
    (flow : Flow act commands stdin stdout texts status s rest n)
    (inside : 0 < commands.length) {p : σ} {next : Option Byte → σ} (pc : s.childPc 0 = .running p)
    (reading : act p = .read next) {b : Byte} {bytes : List Byte}
    (left : s.unread stdin = b :: bytes) :
    Lowered act commands stdin stdout texts status n s
      ((s.leavesUnread stdin bytes).goesOn 0 (next (some b))) := by
  have produces := flow.running inside pc
  have here : incoming s stdin rest 0 = b :: bytes := left
  rw [here] at produces
  obtain ⟨m, counted, later⟩ := produces.of_read reading
  refine flow.gets inside pc (goesOn_self _) (fun j other => goesOn_ne _ other) rfl
    (fun j _ other => incoming_eq (fun first => absurd first other) fun _ _ => rfl) rfl counted ?_
  have now : incoming ((s.leavesUnread stdin bytes).goesOn 0 (next (some b))) stdin rest 0 =
      bytes := Function.update_self ..
  rwa [now]

/-- A byte read out of the pipe: one less is on its way. -/
theorem Flow.readsPipe (flow : Flow act commands stdin stdout texts status s rest n) {k : Nat}
    (inside : k + 1 < commands.length) {p : σ} {next : Option Byte → σ}
    (pc : s.childPc (k + 1) = .running p) (reading : act p = .read next) {b : Byte}
    {bytes : List Byte} (left : s.pipe k = b :: bytes) :
    Lowered act commands stdin stdout texts status n s
      ((s.fills k bytes).goesOn (k + 1) (next (some b))) := by
  have produces := flow.running inside pc
  have here : incoming s stdin rest (k + 1) = b :: (bytes ++ rest k) := by
    show s.pipe k ++ rest k = _
    rw [left, List.cons_append]
  rw [here] at produces
  obtain ⟨m, counted, later⟩ := produces.of_read reading
  refine flow.gets inside pc (goesOn_self _) (fun j other => goesOn_ne _ other) rfl
    (fun j _ other => incoming_eq (fun _ => rfl) fun k' at_j => ?_) rfl counted ?_
  · show Function.update s.pipe k bytes k' ++ rest k' = s.pipe k' ++ rest k'
    rw [Function.update_of_ne (by omega)]
  · have now : incoming ((s.fills k bytes).goesOn (k + 1) (next (some b))) stdin rest (k + 1) =
        bytes ++ rest k := by
      show Function.update s.pipe k bytes k ++ rest k = _
      rw [Function.update_self]
    rwa [now]

/-- A read that finds the end of the input. -/
theorem Flow.readsEnd (flow : Flow act commands stdin stdout texts status s rest n)
    (inside : i < commands.length) {p : σ} {next : Option Byte → σ} (pc : s.childPc i = .running p)
    (reading : act p = .read next) (here : incoming s stdin rest i = []) :
    Lowered act commands stdin stdout texts status n s (s.goesOn i (next none)) := by
  have produces := flow.running inside pc
  rw [here] at produces
  obtain ⟨m, counted, later⟩ := produces.of_finish reading
  have same (j : Nat) : incoming (s.goesOn i (next none)) stdin rest j = incoming s stdin rest j :=
    incoming_eq (fun _ => rfl) fun _ _ => rfl
  refine flow.gets inside pc (goesOn_self _) (fun j other => goesOn_ne _ other) rfl
    (fun j _ _ => same j) rfl counted ?_
  rwa [same, here]

/-- At the end of a pipe its writer has ended, and by itself, as the reader has
not ended: nothing more is to come. -/
theorem Flow.nothing_behind [DecidableEq Inherited]
    (flow : Flow act commands stdin stdout texts status s rest n)
    (tables : Tables shell commands.length s) (opened : shell.file 1 ≠ none)
    {k : Nat} (inside : k + 1 < commands.length) {p : σ} (pc : s.childPc (k + 1) = .running p)
    (nobody : s.held commands.length (.writeEnd k) = false) : rest k = [] := by
  have gone : Over (s.childPc k) := Classical.byContradiction fun going => by
    rw [tables.writer opened inside going] at nobody
    cases nobody
  cases writer : s.childPc k with
  | exited code => exact (flow.exited k code writer).1
  | killed =>
    have behind := (flow.killed k writer).2
    rw [pc] at behind
    exact behind.elim
  | _ =>
    rw [writer] at gone
    exact gone.elim

theorem Flow.reads [DecidableEq Inherited]
    (flow : Flow act commands stdin stdout texts status s rest n)
    (tables : Tables shell commands.length s) (at_zero : shell.file 0 = some stdin)
    (opened : shell.file 1 ≠ none) {p : σ} {next : Option Byte → σ} (pc : s.childPc i = .running p)
    (reading : act p = .read next) (read : s.readStep commands.length i next = some t) :
    Lowered act commands stdin stdout texts status n s t := by
  have inside : i < commands.length := tables.inside (by simp [pc])
  have wired := tables.child i
  rw [pc] at wired
  have file := (wired 0).trans (wiring_stdin at_zero commands.length i)
  cases i with
  | zero =>
    rw [if_pos rfl] at file
    rcases readStep_of read with ⟨f, b, bytes, at_fd, left, rfl⟩ | ⟨k, b, bytes, at_fd, -⟩ |
      ⟨rfl, nothing, -⟩
    · cases file.symm.trans at_fd
      exact flow.readsFile inside pc reading left
    · cases file.symm.trans at_fd
    · exact flow.readsEnd inside pc reading (nothing stdin file)
  | succ k =>
    rw [if_neg (Nat.succ_ne_zero k), Nat.add_sub_cancel] at file
    rcases readStep_of read with ⟨f, b, bytes, at_fd, -⟩ | ⟨j, b, bytes, at_fd, left, rfl⟩ |
      ⟨rfl, -, nothing⟩
    · cases file.symm.trans at_fd
    · cases file.symm.trans at_fd
      exact flow.readsPipe inside pc reading left
    · obtain ⟨empty, nobody⟩ := nothing k file
      refine flow.readsEnd inside pc reading ?_
      show s.pipe k ++ rest k = []
      rw [empty, flow.nothing_behind tables opened inside pc nobody, List.nil_append]

/-- A write, once it is known where the byte goes: it is no longer to come from
the writer, whose input stays. -/
theorem Flow.puts (flow : Flow act commands stdin stdout texts status s rest n)
    (inside : i < commands.length) {p : σ} {b : Byte} {next : σ} (pc : s.childPc i = .running p)
    (writing : act p = .write b next) {u : State Inherited Byte σ}
    (now : u.childPc i = .running next) (others : ∀ j, j ≠ i → u.childPc j = s.childPc j)
    (parent : u.parentPc = s.parentPc)
    (inputs : ∀ later, rest i = b :: later → ∀ j < commands.length,
      incoming u stdin (Function.update rest i later) j = incoming s stdin rest j)
    (terminal : ∀ later, rest i = b :: later →
      u.written stdout ++ Function.update rest i later (commands.length - 1) =
        texts commands.length) :
    Lowered act commands stdin stdout texts status n s u := by
  obtain ⟨m, later, counted, output, after⟩ := (flow.running inside pc).of_write writing
  have produces : Produces act m (incoming u stdin (Function.update rest i later) i) next
      (Function.update rest i later i) (status i) := by
    rw [inputs later output i inside, Function.update_self]
    exact after
  refine ⟨_, _, flow.runs pc now others produces (fun j other => Function.update_of_ne other ..)
    (fun j here _ => inputs later output j here) (terminal later output), ?_⟩
  refine work_lt inside parent (fun j other =>
    ⟨others j other, Function.update_of_ne other ..⟩) ?_
  rw [now, pc, Function.update_self]
  show m < n i
  omega

/-- A byte written by the last command is in front of the terminal. -/
theorem Flow.writesTerminal [DecidableEq Inherited]
    (flow : Flow act commands stdin stdout texts status s rest n)
    (last : i + 1 = commands.length) {p : σ} {b : Byte} {next : σ} (pc : s.childPc i = .running p)
    (writing : act p = .write b next) :
    Lowered act commands stdin stdout texts status n s ((s.appends stdout b).goesOn i next) := by
  refine flow.puts (by omega) pc writing (goesOn_self _) (fun j other => goesOn_ne _ other) rfl
    (fun later _ j here => incoming_eq (fun _ => rfl) fun k at_j => ?_) fun later output => ?_
  · show s.pipe k ++ Function.update rest i later k = s.pipe k ++ rest k
    rw [Function.update_of_ne (by omega)]
  · show Function.update s.written stdout (s.written stdout ++ [b]) stdout ++
      Function.update rest i later (commands.length - 1) = _
    have place : commands.length - 1 = i := by omega
    rw [Function.update_self, place, Function.update_self, List.append_assoc,
      List.singleton_append, ← output, ← place]
    exact flow.terminal

/-- A byte written into a pipe is on its way to the next command. -/
theorem Flow.writesPipe (flow : Flow act commands stdin stdout texts status s rest n)
    (more : i + 1 < commands.length) {p : σ} {b : Byte} {next : σ} (pc : s.childPc i = .running p)
    (writing : act p = .write b next) :
    Lowered act commands stdin stdout texts status n s
      ((s.fills i (s.pipe i ++ [b])).goesOn i next) := by
  refine flow.puts (by omega) pc writing (goesOn_self _) (fun j other => goesOn_ne _ other) rfl
    (fun later output j here => incoming_eq (fun _ => rfl) fun k at_j => ?_) fun later output => ?_
  · show Function.update s.pipe i (s.pipe i ++ [b]) k ++ Function.update rest i later k =
      s.pipe k ++ rest k
    by_cases own : k = i
    · rw [own, Function.update_self, Function.update_self, output, List.append_assoc,
        List.singleton_append]
    · rw [Function.update_of_ne own, Function.update_of_ne own]
  · rw [Function.update_of_ne (by omega)]
    exact flow.terminal

/-- SIGPIPE: the reader has ended, so what is left to write is for nobody. -/
theorem Flow.breaks [DecidableEq Inherited]
    (flow : Flow act commands stdin stdout texts status s rest n)
    (tables : Tables shell commands.length s) (opened : shell.file 0 ≠ none)
    (more : i + 1 < commands.length) {p : σ} (pc : s.childPc i = .running p)
    (nobody : s.held commands.length (.readEnd i) = false) :
    Lowered act commands stdin stdout texts status n s (s.ends i .killed) := by
  have gone : Over (s.childPc (i + 1)) := Classical.byContradiction fun going => by
    rw [tables.reader opened more going] at nobody
    cases nobody
  refine ⟨rest, n, flow.ends (show Over (ChildPc.killed : ChildPc σ) from trivial) nofun
    fun _ => ⟨more, gone⟩, work_prepares (by omega) ?_ _⟩
  rw [pc]
  exact (flow.running (by omega) pc).pos

theorem Flow.writes [DecidableEq Inherited]
    (flow : Flow act commands stdin stdout texts status s rest n)
    (tables : Tables shell commands.length s) (at_one : shell.file 1 = some stdout)
    (opened : shell.file 0 ≠ none) {p : σ} {b : Byte} {next : σ} (pc : s.childPc i = .running p)
    (writing : act p = .write b next)
    (written : s.writeStep commands.length capacity i b next = some t) :
    Lowered act commands stdin stdout texts status n s t := by
  have inside : i < commands.length := tables.inside (by simp [pc])
  have wired := tables.child i
  rw [pc] at wired
  have file := (wired 1).trans (wiring_stdout at_one inside)
  by_cases last : i + 1 = commands.length
  · rw [if_pos last] at file
    rcases writeStep_of written with ⟨f, at_fd, rfl⟩ | ⟨k, at_fd, -⟩ | ⟨k, at_fd, -⟩ |
      ⟨-, notFile, -⟩
    · cases file.symm.trans at_fd
      exact flow.writesTerminal last pc writing
    · cases file.symm.trans at_fd
    · cases file.symm.trans at_fd
    · exact absurd file (notFile stdout)
  · rw [if_neg last] at file
    have more : i + 1 < commands.length := by omega
    rcases writeStep_of written with ⟨f, at_fd, -⟩ | ⟨k, at_fd, -, -, rfl⟩ |
      ⟨k, at_fd, nobody, rfl⟩ | ⟨-, -, notPipe⟩
    · cases file.symm.trans at_fd
    · cases file.symm.trans at_fd
      exact flow.writesPipe more pc writing
    · cases file.symm.trans at_fd
      exact flow.breaks tables opened more pc nobody
    · exact absurd file (notPipe i)

/-- A step of the shell that is no fork leaves the flow as it is. -/
theorem Flow.parentMoves (flow : Flow act commands stdin stdout texts status s rest n)
    {u : State Inherited Byte σ} (children : u.childPc = s.childPc) (unread : u.unread = s.unread)
    (pipe : u.pipe = s.pipe) (written : u.written = s.written)
    (less : parentWork commands.length u.parentPc < parentWork commands.length s.parentPc) :
    Lowered act commands stdin stdout texts status n s u := by
  refine ⟨rest, n, ⟨fun i command p found same => ?_, ?_, ?_, ?_⟩, ?_⟩
  · have input : incoming u stdin rest i = incoming s stdin rest i :=
      incoming_eq (fun _ => by rw [unread]) fun _ _ => by rw [pipe]
    rw [input]
    exact flow.produces i command p found (children ▸ same)
  · rw [children]
    exact flow.exited
  · rw [children]
    exact flow.killed
  · rw [written]
    exact flow.terminal
  · unfold work
    rw [children]
    exact Nat.add_lt_add_right less _

/-- A fork: the child has everything before it, and the shell one fork less. -/
theorem Flow.forks (flow : Flow act commands stdin stdout texts status s rest n)
    (pc : s.parentPc = .forking i) (first : s.childPc i = .absent) :
    Lowered act commands stdin stdout texts status n s
      { s.prepares i .stdin s.parent with parentPc := .closingRead i } := by
  have after := flow.prepares (i := i) (by rw [first]; exact id)
    (show ¬ Over (ChildPc.stdin : ChildPc σ) from id) (fun _ _ => by rw [first]; rfl) s.parent
  refine ⟨rest, n, ⟨after.produces, after.exited, after.killed, after.terminal⟩, ?_⟩
  have children : total (fun j => childWork (n j) ((s.prepares i .stdin s.parent).childPc j))
      commands.length ≤ total (fun j => childWork (n j) (s.childPc j)) commands.length := by
    refine total_le fun j _ => ?_
    by_cases own : j = i
    · rw [own, (prepares_self _ _).1, first]
      exact Nat.le_refl _
    · simp only [(prepares_ne _ _ own).1, Nat.le_refl]
  have less : parentWork commands.length (.closingRead i) <
      parentWork commands.length (.forking i) := by
    simp only [parentWork]
    omega
  unfold work
  rw [pc]
  exact Nat.add_lt_add_of_lt_of_le less children

theorem Flow.kept [DecidableEq Inherited]
    (flow : Flow act commands stdin stdout texts status s rest n)
    (tables : Tables shell commands.length s) (at_zero : shell.file 0 = some stdin)
    (at_one : shell.file 1 = some stdout) {a : Action}
    (move : Move act capacity (opened shell commands.length).1 commands s a t) :
    Lowered act commands stdin stdout texts status n s t := by
  have parent := tables.parent
  cases move with
  | forks i pc =>
    exact flow.forks pc ((tables.absent i).mpr (by rw [pc]; exact Nat.le_refl i))
  | closesRead i table pc closed =>
    rw [pc] at parent
    have inside := parent.1
    refine flow.parentMoves rfl rfl rfl rfl ?_
    rw [pc]
    simp only [parentWork]
    omega
  | closesWrite i table pc closed =>
    rw [pc] at parent
    refine flow.parentMoves rfl rfl rfl rfl ?_
    rw [pc]
    exact parentWork_nextFork parent.1
  | closes pc =>
    refine flow.parentMoves rfl rfl rfl rfl ?_
    rw [pc]
    exact Nat.lt_succ_self _
  | waits i reports pc gone =>
    rw [pc] at parent
    refine flow.parentMoves rfl rfl rfl rfl ?_
    rw [pc]
    exact parentWork_nextWait parent.1
  | stdin i table pc redirected =>
    have inside := tables.inside (i := i) (by simp [pc])
    exact ⟨rest, n, flow.prepares (by rw [pc]; exact id) id (fun _ _ => by rw [pc]; rfl) table,
      work_prepares inside (by rw [pc]; exact Nat.lt_succ_self _) table⟩
  | stdout i table pc redirected =>
    have inside := tables.inside (i := i) (by simp [pc])
    exact ⟨rest, n, flow.prepares (by rw [pc]; exact id) id (fun _ _ => by rw [pc]; rfl) table,
      work_prepares inside (by rw [pc]; exact Nat.lt_succ_self _) table⟩
  | execs i command pc found =>
    have inside := tables.inside (i := i) (by simp [pc])
    refine ⟨rest, n, flow.prepares (by rw [pc]; exact id) id (fun other found' => ?_) _,
      work_prepares inside (by rw [pc]; exact Nat.lt_succ_self _) _⟩
    cases found.symm.trans found'
    rw [pc]
    rfl
  | reads i p next after pc reading read =>
    exact flow.reads tables at_zero (by simp [at_one]) pc reading read
  | writes i p b next after pc writing written =>
    exact flow.writes tables at_one (by simp [at_zero]) pc writing written
  | exits i p code pc ending =>
    have inside := tables.inside (i := i) (by simp [pc])
    have produces := flow.running inside pc
    obtain ⟨nothing, same⟩ := produces.of_exit ending
    refine ⟨rest, n, flow.ends trivial (fun other ended => ?_) nofun, work_prepares inside ?_ _⟩
    · cases ended
      exact ⟨nothing, same⟩
    · rw [pc]
      exact produces.pos

end Steps

/-- The children the shell has waited for. -/
def waited (count : Nat) : ParentPc → Nat
  | .waiting i => i
  | .returned => count
  | _ => 0

structure Waited (count : Nat) (s : State Inherited Byte σ) : Prop where
  gone : ∀ i < waited count s.parentPc, Over (s.childPc i)
  reports : ∀ i code, (i, code) ∈ s.reports ↔
    i < waited count s.parentPc ∧ s.childPc i = .exited code ∧ code ≠ 0

theorem waited_initial (count : Nat) (unread : Inherited → List Byte) :
    Waited count (initial shell count unread : State Inherited Byte σ) :=
  ⟨fun i before => absurd before (Nat.not_lt_zero i),
    fun i _ => iff_of_false List.not_mem_nil fun both => absurd both.1 (Nat.not_lt_zero i)⟩

theorem waited_nextFork (count i : Nat) : waited count (nextFork count i) = 0 := by
  unfold nextFork
  split <;> rfl

theorem waited_nextWait {count i : Nat} (inside : i < count) :
    waited count (nextWait count i) = i + 1 := by
  unfold nextWait
  split
  · rfl
  · show count = i + 1
    omega

/-- A child that moves has not ended, and its step is its own. -/
theorem Move.frame [DecidableEq Inherited] {pipes : List (Nat × Nat)} {i : Nat}
    (move : Move act capacity pipes commands s (.child i) t) :
    ¬ Over (s.childPc i) ∧ t.parentPc = s.parentPc ∧ t.reports = s.reports ∧
      ∀ j, j ≠ i → t.childPc j = s.childPc j := by
  cases move with
  | stdin _ table pc =>
    exact ⟨by rw [pc]; exact id, rfl, rfl, fun j other => (prepares_ne _ _ other).1⟩
  | stdout _ table pc =>
    exact ⟨by rw [pc]; exact id, rfl, rfl, fun j other => (prepares_ne _ _ other).1⟩
  | execs _ command pc =>
    exact ⟨by rw [pc]; exact id, rfl, rfl, fun j other => (prepares_ne _ _ other).1⟩
  | reads _ p next after pc reading read =>
    refine ⟨by rw [pc]; exact id, ?_⟩
    rcases readStep_of read with ⟨f, b, bytes, -, -, rfl⟩ | ⟨k, b, bytes, -, -, rfl⟩ | ⟨rfl, -⟩ <;>
      exact ⟨rfl, rfl, fun j other => goesOn_ne _ other⟩
  | writes _ p b next after pc writing written =>
    refine ⟨by rw [pc]; exact id, ?_⟩
    rcases writeStep_of written with ⟨f, -, rfl⟩ | ⟨k, -, -, -, rfl⟩ | ⟨k, -, -, rfl⟩ | ⟨rfl, -⟩
    · exact ⟨rfl, rfl, fun j other => goesOn_ne _ other⟩
    · exact ⟨rfl, rfl, fun j other => goesOn_ne _ other⟩
    · exact ⟨rfl, rfl, fun j other => (prepares_ne _ _ other).1⟩
    · exact ⟨rfl, rfl, fun j other => goesOn_ne _ other⟩
  | exits _ p code pc =>
    exact ⟨by rw [pc]; exact id, rfl, rfl, fun j other => (prepares_ne _ _ other).1⟩

/-- The shell goes on without a `waitpid`. -/
theorem Waited.parentMoves {count : Nat} (waits : Waited count s)
    (none : waited count s.parentPc = 0) {u : State Inherited Byte σ}
    (still : waited count u.parentPc = 0) (reports : u.reports = s.reports) : Waited count u := by
  refine ⟨fun i before => absurd before (by omega), fun i code => ?_⟩
  rw [reports, waits.reports i code]
  exact iff_of_false (fun both => by have := both.1; omega) fun both => by have := both.1; omega

/-- A status is reported unless it is 0. -/
theorem mem_reported {reports : List (Nat × Nat)} {i j own code : Nat} :
    (j, code) ∈ (if own = 0 then reports else reports ++ [(i, own)]) ↔
      (j, code) ∈ reports ∨ j = i ∧ code = own ∧ code ≠ 0 := by
  split
  · next zero =>
    refine (or_iff_left ?_).symm
    rintro ⟨-, rfl, nonzero⟩
    exact nonzero zero
  · next nonzero =>
    rw [List.mem_append, List.mem_singleton, Prod.mk.injEq]
    refine or_congr_right (and_congr_right fun _ => ?_)
    constructor
    · rintro rfl
      exact ⟨rfl, nonzero⟩
    · exact And.left

/-- `waitpid` for child `i`: its end, and nothing else, is added to what has been waited for. -/
theorem Waited.waits {count i : Nat} (waits : Waited count s) (inside : i < count)
    (pc : s.parentPc = .waiting i) {reports : List (Nat × Nat)}
    (gone : (∃ own, s.childPc i = .exited own ∧
        reports = if own = 0 then s.reports else s.reports ++ [(i, own)]) ∨
      s.childPc i = .killed ∧ reports = s.reports) :
    Waited count { s with reports, parentPc := nextWait count i } := by
  have before : waited count s.parentPc = i := by rw [pc]; rfl
  have after := waited_nextWait inside
  have old (j code : Nat) := before ▸ waits.reports j code
  refine ⟨fun j earlier => ?_, fun j code => ?_⟩
  · have earlier : j < i + 1 := after ▸ earlier
    by_cases own : j = i
    · rcases gone with ⟨code, exited, -⟩ | ⟨killed, -⟩
      · rw [own, exited]
        trivial
      · rw [own, killed]
        trivial
    · exact waits.gone j (by omega)
  · show (j, code) ∈ reports ↔ j < waited count (nextWait count i) ∧ _
    rw [after, Nat.lt_succ_iff_lt_or_eq, or_and_right, ← old]
    rcases gone with ⟨own, exited, rfl⟩ | ⟨killed, rfl⟩
    · rw [mem_reported]
      refine or_congr_right (and_congr_right fun same => ?_)
      rw [same, exited, ChildPc.exited.injEq]
      exact and_congr_left fun _ => eq_comm
    · refine (or_iff_left ?_).symm
      rintro ⟨rfl, exited, -⟩
      cases killed.symm.trans exited

theorem Waited.kept [DecidableEq Inherited] (waits : Waited commands.length s)
    (tables : Tables shell commands.length s) {pipes : List (Nat × Nat)} {a : Action}
    (move : Move act capacity pipes commands s a t) : Waited commands.length t := by
  have parent := tables.parent
  cases a with
  | child i =>
    obtain ⟨going, pc, reports, others⟩ := Move.frame move
    have apart (j : Nat) (gone : Over (s.childPc j)) : t.childPc j = s.childPc j :=
      others j fun same => going (same ▸ gone)
    refine ⟨fun j before => ?_, fun j code => ?_⟩
    · rw [pc] at before
      have gone := waits.gone j before
      rwa [apart j gone]
    · rw [reports, waits.reports j code, pc]
      refine and_congr_right fun before => ?_
      rw [apart j (waits.gone j before)]
  | parent =>
    cases move with
    | forks i pc => exact waits.parentMoves (by rw [pc]; rfl) rfl rfl
    | closesRead i table pc closed => exact waits.parentMoves (by rw [pc]; rfl) rfl rfl
    | closesWrite i table pc closed =>
      exact waits.parentMoves (by rw [pc]; rfl) (waited_nextFork _ i) rfl
    | closes pc => exact waits.parentMoves (by rw [pc]; rfl) rfl rfl
    | waits i reports pc gone =>
      rw [pc] at parent
      exact waits.waits parent.1 pc gone

/-- What is true all the time, with a bound on what can follow. -/
structure Under (act : σ → Act Byte σ) (shell : Table Inherited) (commands : List σ)
    (stdin stdout : Inherited) (texts : Nat → List Byte) (status : Nat → Nat)
    (s : State Inherited Byte σ) (r : Nat) : Prop where
  tables : Tables shell commands.length s
  waits : Waited commands.length s
  flow : ∃ rest n, Flow act commands stdin stdout texts status s rest n ∧
    work commands.length s n = r

variable [DecidableEq Inherited]

/-- At most so many steps, whatever the order they are taken in. -/
def longest (steps : Nat → Nat) (count : Nat) : Nat := total steps count + 7 * count + 1

theorem reached_under {unread : Inherited → List Byte}
    (setting : Setting act shell commands unread stdin stdout texts steps status)
    {log : List Action} (run : (execution act capacity shell commands).Reach System.Anything
      (initial shell commands.length unread) log s) :
    ∃ r, Under act shell commands stdin stdout texts status s r ∧
      log.length + r ≤ longest steps commands.length := by
  have two := setting.two
  refine length_le (M := execution act capacity shell commands)
    (Under act shell commands stdin stdout texts status) ⟨?_, ?_, ?_⟩ ?_ (fun _ _ => rfl) run
  · exact tables_initial (by omega) unread
  · exact waited_initial commands.length unread
  · refine ⟨_, _, flow_initial setting, ?_⟩
    show 3 * (commands.length - 0) + commands.length + 1 +
      total (fun i => steps i + 3) commands.length = _
    rw [total_add_const, longest]
    omega
  · rintro s a t r ⟨tables, waits, rest, n, flow, rfl⟩ stepped
    have move := step_move stepped
    obtain ⟨rest', n', flow', less⟩ := flow.kept tables setting.atZero setting.atOne move
    exact ⟨_, less,
      tables.kept (by omega) (by simp [setting.atZero]) (by simp [setting.atOne]) move,
      waits.kept tables move, rest', n', flow', rfl⟩

/-- Whatever the order in which shell and commands take their steps, the
terminal shows at every moment a beginning of what the commands would leave one
by one, and all of it when `pipeline_handler` returns. Each command has then
exited as it would have done alone, or was broken off because nobody read it
any more, which does not happen to the last. -/
theorem pipeline_one_by_one {unread : Inherited → List Byte}
    (setting : Setting act shell commands unread stdin stdout texts steps status)
    {log : List Action} (run : (execution act capacity shell commands).Reach System.Anything
      (initial shell commands.length unread) log s) :
    s.written stdout <+: texts commands.length ∧
      (s.parentPc = .returned →
        s.written stdout = texts commands.length ∧ Ended commands.length status s) := by
  obtain ⟨r, under, -⟩ := reached_under setting run
  obtain ⟨rest, n, flow, -⟩ := under.flow
  have two := setting.two
  refine ⟨⟨_, flow.terminal⟩, fun returned => ?_⟩
  have all : waited commands.length s.parentPc = commands.length := by rw [returned]; rfl
  have child (i : Nat) (inside : i < commands.length) :
      s.childPc i = .exited (status i) ∨ i + 1 < commands.length ∧ s.childPc i = .killed := by
    have gone := under.waits.gone i (by omega)
    cases pc : s.childPc i with
    | exited code => exact Or.inl (by rw [(flow.exited i code pc).2])
    | killed => exact Or.inr ⟨(flow.killed i pc).1, rfl⟩
    | _ =>
      rw [pc] at gone
      exact gone.elim
  refine ⟨?_, child, fun i code => by rw [under.waits.reports i code, all]⟩
  have last : s.childPc (commands.length - 1) = .exited (status (commands.length - 1)) :=
    (child _ (by omega)).resolve_right fun broken => by
      have := broken.1
      omega
  have terminal := flow.terminal
  rwa [(flow.exited _ _ last).1, List.append_nil] at terminal

/-- Three lines of which the reader takes one. -/
inductive Lines where
  | write (left : Nat)
  | readOne
  | copy (b : Char)
  | done
  deriving DecidableEq, Repr

def Lines.next : Lines → Act Char Lines
  | .write 0 => .exit 0
  | .write (left + 1) => .write 'y' (.write left)
  | .readOne => .read fun
    | some b => .copy b
    | none => .done
  | .copy b => .write b .done
  | .done => .exit 0

def linesText : Nat → List Char
  | 0 => []
  | 1 => ['y', 'y', 'y']
  | _ => ['y']

theorem lines_setting :
    Setting Lines.next loggingShell [.write 3, .readOne] (fun _ => []) "terminal"
      "terminal" linesText
      (fun i => if i = 0 then 4 else 3) (fun _ => 0) := by
  refine ⟨by decide, rfl, rfl, rfl, ⟨fun i s found => ?_⟩⟩
  cases i with
  | zero =>
    cases found
    exact .write rfl (.write rfl (.write rfl (.exit rfl)))
  | succ i =>
    cases i with
    | zero =>
      cases found
      exact .read rfl (.write rfl (.exit rfl))
    | succ i => cases found

/-- The writer is broken off at its second line. -/
def linesSchedule : List Action :=
  List.replicate 7 .parent ++ List.replicate 3 (.child 0) ++ List.replicate 3 (.child 1) ++
    [.child 0, .child 1, .child 1, .child 1, .child 0, .parent, .parent]

theorem pipeline_one_by_one_lines :
    ∃ log s, (execution Lines.next 1 loggingShell [.write 3, .readOne]).Reach System.Anything
        (initial loggingShell 2 fun _ => []) log s ∧ s.parentPc = .returned ∧
      s.written "terminal" = ['y'] ∧ Ended 2 (fun _ => 0) s := by
  obtain ⟨log, s, run, returned⟩ :=
    System.exists_reach (execution Lines.next 1 loggingShell [.write 3, .readOne]) System.Anything
      (initial loggingShell 2 fun _ => []) linesSchedule (fun _ s => s.parentPc = .returned)
      (by decide +kernel)
  exact ⟨log, s, run, returned, (pipeline_one_by_one lines_setting run).2 returned⟩

end EltexCourse.Guarantees.Pipeline.Dataflow
