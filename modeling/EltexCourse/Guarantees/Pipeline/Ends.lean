import EltexCourse.Guarantees.Pipeline.Wiring
import EltexCourse.Source.Pipeline.Execution

/-!
# task12/pipeline_bash: the ends of the pipes while the commands run

A child is a holder of its ends from its `fork` to its end, and until its `fork`
the shell is. When the shell has come to `waitpid` and every child to its
`execvp`, there is no other.
-/

set_option autoImplicit false

namespace EltexCourse.Guarantees.Pipeline.Ends
open Foundations.Descriptors Foundations.Descriptors.Table Foundations.Programs
open Source.Pipeline Source.Pipeline.Execution Guarantees.Pipeline.Wiring

variable {Inherited Byte σ : Type} {act : σ → Act Byte σ} {capacity : Nat}
  {shell : Table Inherited} {made : Table (File Inherited)} {pipes : List (Nat × Nat)}
  {commands : List σ} {count : Nat}
  {s t : State Inherited Byte σ}

/-- Of a child that has ended. -/
def Over : ChildPc σ → Prop
  | .exited _ => True
  | .killed => True
  | _ => False

section Moves

variable [DecidableEq Inherited]

/-- What a step can do. -/
inductive Move (act : σ → Act Byte σ) (capacity : Nat) (pipes : List (Nat × Nat))
    (commands : List σ) (s : State Inherited Byte σ) : Action → State Inherited Byte σ → Prop where
  | forks (i : Nat) (pc : s.parentPc = .forking i) :
      Move act capacity pipes commands s .parent
        { s.prepares i .stdin s.parent with parentPc := .closingRead i }
  | closesRead (i : Nat) (t : Table (File Inherited)) (pc : s.parentPc = .closingRead i)
      (closed : closeRead pipes i s.parent = some t) :
      Move act capacity pipes commands s .parent
        { s with parent := t, parentPc := .closingWrite i }
  | closesWrite (i : Nat) (t : Table (File Inherited)) (pc : s.parentPc = .closingWrite i)
      (closed : closeWrite pipes commands.length i s.parent = some t) :
      Move act capacity pipes commands s .parent
        { s with parent := t, parentPc := nextFork commands.length i }
  | closes (pc : s.parentPc = .closing) :
      Move act capacity pipes commands s .parent
        { s with parent := Table.closePairs pipes s.parent, parentPc := .waiting 0 }
  | waits (i : Nat) (reports : List (Nat × Nat)) (pc : s.parentPc = .waiting i)
      (gone : (∃ status, s.childPc i = .exited status ∧
          reports = if status = 0 then s.reports else s.reports ++ [(i, status)]) ∨
        s.childPc i = .killed ∧ reports = s.reports) :
      Move act capacity pipes commands s .parent
        { s with reports, parentPc := nextWait commands.length i }
  | stdin (i : Nat) (t : Table (File Inherited)) (pc : s.childPc i = .stdin)
      (redirected : childStdin pipes i (s.child i) = some t) :
      Move act capacity pipes commands s (.child i) (s.prepares i .stdout t)
  | stdout (i : Nat) (t : Table (File Inherited)) (pc : s.childPc i = .stdout)
      (redirected : childStdout pipes commands.length i (s.child i) = some t) :
      Move act capacity pipes commands s (.child i) (s.prepares i .closing t)
  | execs (i : Nat) (command : σ) (pc : s.childPc i = .closing)
      (found : commands[i]? = some command) :
      Move act capacity pipes commands s (.child i)
        (s.prepares i (.running command) (Table.closePairs pipes (s.child i)))
  | reads (i : Nat) (program : σ) (next : Option Byte → σ) (after : State Inherited Byte σ)
      (pc : s.childPc i = .running program) (reading : act program = .read next)
      (read : s.readStep commands.length i next = some after) :
      Move act capacity pipes commands s (.child i) after
  | writes (i : Nat) (program : σ) (b : Byte) (next : σ) (after : State Inherited Byte σ)
      (pc : s.childPc i = .running program) (writing : act program = .write b next)
      (written : s.writeStep commands.length capacity i b next = some after) :
      Move act capacity pipes commands s (.child i) after
  | exits (i : Nat) (program : σ) (status : Nat) (pc : s.childPc i = .running program)
      (ending : act program = .exit status) :
      Move act capacity pipes commands s (.child i) (s.ends i (.exited status))

theorem parentStep_move (stepped : parentStep pipes commands.length s = some t) :
    Move act capacity pipes commands s .parent t := by
  unfold parentStep at stepped
  split at stepped
  · next i pc =>
    cases stepped
    exact .forks i pc
  · next i pc =>
    obtain ⟨table, closed, rfl⟩ := Option.map_eq_some_iff.mp stepped
    exact .closesRead i table pc closed
  · next i pc =>
    obtain ⟨table, closed, rfl⟩ := Option.map_eq_some_iff.mp stepped
    exact .closesWrite i table pc closed
  · next pc =>
    cases stepped
    exact .closes pc
  · next i pc =>
    split at stepped
    · next status ended =>
      cases stepped
      exact .waits i _ pc (Or.inl ⟨status, ended, rfl⟩)
    · next ended =>
      cases stepped
      exact .waits i s.reports pc (Or.inr ⟨ended, rfl⟩)
    · cases stepped
  · cases stepped

theorem childStep_move {i : Nat} (stepped : childStep act capacity pipes commands s i = some t) :
    Move act capacity pipes commands s (.child i) t := by
  unfold childStep at stepped
  split at stepped
  · next pc =>
    obtain ⟨table, redirected, rfl⟩ := Option.map_eq_some_iff.mp stepped
    exact .stdin i table pc redirected
  · next pc =>
    obtain ⟨table, redirected, rfl⟩ := Option.map_eq_some_iff.mp stepped
    exact .stdout i table pc redirected
  · next pc =>
    obtain ⟨command, found, rfl⟩ := Option.map_eq_some_iff.mp stepped
    exact .execs i command pc found
  · next program pc =>
    split at stepped
    · next next reading => exact .reads i program next t pc reading stepped
    · next b next writing => exact .writes i program b next t pc writing stepped
    · next status ending =>
      cases stepped
      exact .exits i program status pc ending
  · cases stepped

theorem step_move {a : Action}
    (stepped : (execution act capacity shell commands).step s a = some t) :
    Move act capacity (opened shell commands.length).1 commands s a t := by
  cases a with
  | parent => exact parentStep_move stepped
  | child i => exact childStep_move stepped

/-- What a read of descriptor 0 finds there. -/
theorem readStep_of {i : Nat} {next : Option Byte → σ} (read : s.readStep count i next = some t) :
    (∃ f b rest, (s.child i).file 0 = some (.inherited f) ∧ s.unread f = b :: rest ∧
      t = (s.leavesUnread f rest).goesOn i (next (some b))) ∨
    (∃ k b rest, (s.child i).file 0 = some (.readEnd k) ∧ s.pipe k = b :: rest ∧
      t = (s.fills k rest).goesOn i (next (some b))) ∨
    (t = s.goesOn i (next none) ∧
      (∀ f, (s.child i).file 0 = some (.inherited f) → s.unread f = []) ∧
      ∀ k, (s.child i).file 0 = some (.readEnd k) →
        s.pipe k = [] ∧ s.held count (.writeEnd k) = false) := by
  unfold State.readStep at read
  split at read
  · next f at_zero =>
    split at read
    · next nothing =>
      cases read
      refine Or.inr (Or.inr ⟨rfl, fun g same => ?_, fun k same => ?_⟩)
      · cases at_zero.symm.trans same
        exact nothing
      · cases at_zero.symm.trans same
    · next b rest left =>
      cases read
      exact Or.inl ⟨f, b, rest, at_zero, left, rfl⟩
  · next k at_zero =>
    split at read
    · next nothing =>
      split at read
      · cases read
      · next nobody =>
        cases read
        refine Or.inr (Or.inr ⟨rfl, fun f same => ?_, fun j same => ?_⟩)
        · cases at_zero.symm.trans same
        · cases at_zero.symm.trans same
          exact ⟨nothing, Bool.eq_false_iff.mpr nobody⟩
    · next b rest left =>
      cases read
      exact Or.inr (Or.inl ⟨k, b, rest, at_zero, left, rfl⟩)
  · next notFile notPipe =>
    cases read
    exact Or.inr (Or.inr ⟨rfl, fun f same => absurd same (notFile f),
      fun k same => absurd same (notPipe k)⟩)

/-- What a write to descriptor 1 does. -/
theorem writeStep_of {i : Nat} {b : Byte} {next : σ}
    (written : s.writeStep count capacity i b next = some t) :
    (∃ f, (s.child i).file 1 = some (.inherited f) ∧ t = (s.appends f b).goesOn i next) ∨
    (∃ k, (s.child i).file 1 = some (.writeEnd k) ∧ s.held count (.readEnd k) = true ∧
      (s.pipe k).length < capacity ∧ t = (s.fills k (s.pipe k ++ [b])).goesOn i next) ∨
    (∃ k, (s.child i).file 1 = some (.writeEnd k) ∧ s.held count (.readEnd k) = false ∧
      t = s.ends i .killed) ∨
    (t = s.goesOn i next ∧ (∀ f, (s.child i).file 1 ≠ some (.inherited f)) ∧
      ∀ k, (s.child i).file 1 ≠ some (.writeEnd k)) := by
  unfold State.writeStep at written
  split at written
  · next f at_one =>
    cases written
    exact Or.inl ⟨f, at_one, rfl⟩
  · next k at_one =>
    split at written
    · next somebody =>
      split at written
      · next room =>
        cases written
        exact Or.inr (Or.inl ⟨k, at_one, somebody, room, rfl⟩)
      · cases written
    · next nobody =>
      cases written
      exact Or.inr (Or.inr (Or.inl ⟨k, at_one, Bool.eq_false_iff.mpr nobody, rfl⟩))
  · next notFile notPipe =>
    cases written
    exact Or.inr (Or.inr (Or.inr ⟨rfl, notFile, notPipe⟩))

end Moves

/-- The children forked so far. -/
def forked (count : Nat) : ParentPc → Nat
  | .forking i => i
  | .closingRead i => i + 1
  | .closingWrite i => i + 1
  | _ => count

def ParentTable (shell : Table Inherited) (pipes : List (Nat × Nat)) (count : Nat)
    (t : Table (File Inherited)) : ParentPc → Prop
  | .forking i => i < count ∧ Forking shell pipes i i t
  | .closingRead i => i < count ∧ Forking shell pipes i i t
  | .closingWrite i => i < count ∧ Forking shell pipes (i + 1) i t
  | .closing => Forking shell pipes count count t
  | .waiting i => i < count ∧ ∀ fd, t.file fd = (shell.file fd).map .inherited
  | .returned => ∀ fd, t.file fd = (shell.file fd).map .inherited

def ChildTable (shell : Table Inherited) (pipes : List (Nat × Nat)) (count i : Nat)
    (t : Table (File Inherited)) : ChildPc σ → Prop
  | .absent => t = Table.empty
  | .stdin => Forking shell pipes i i t
  | .stdout =>
    (∀ fd, ¬ Among pipes fd → t.file fd =
      if fd = 0 ∧ 0 < i then some (.readEnd (i - 1)) else (shell.file fd).map .inherited) ∧
      ∀ fds, pipes[i]? = some fds → t.file fds.2 = some (.writeEnd i)
  | .closing => ∀ fd, ¬ Among pipes fd → t.file fd = wiring shell count i fd
  | .running _ => ∀ fd, t.file fd = wiring shell count i fd
  | .exited _ => t = Table.empty
  | .killed => t = Table.empty

structure Tables (shell : Table Inherited) (count : Nat) (s : State Inherited Byte σ) : Prop where
  parent : ParentTable shell (opened shell count).1 count s.parent s.parentPc
  child : ∀ i, ChildTable shell (opened shell count).1 count i (s.child i) (s.childPc i)
  absent : ∀ i, s.childPc i = .absent ↔ forked count s.parentPc ≤ i

theorem opened_made (shell : Table Inherited) (count : Nat) :
    Made shell (opened shell count).1 (opened shell count).2 := makePipes_made shell (count - 1)

theorem opened_length (shell : Table Inherited) (count : Nat) :
    (opened shell count).1.length = count - 1 := makePipes_length _ _

theorem tables_initial (some : 0 < count) (unread : Inherited → List Byte) :
    Tables shell count (initial shell count unread : State Inherited Byte σ) :=
  ⟨⟨some, (opened_made shell count).forking⟩, fun _ => rfl,
    fun i => iff_of_true rfl (Nat.zero_le i)⟩

section Updates

variable {i j : Nat}

theorem prepares_self (pc : ChildPc σ) (table : Table (File Inherited)) :
    (s.prepares i pc table).childPc i = pc ∧ (s.prepares i pc table).child i = table :=
  ⟨Function.update_self .., Function.update_self ..⟩

theorem prepares_ne (pc : ChildPc σ) (table : Table (File Inherited)) (other : j ≠ i) :
    (s.prepares i pc table).childPc j = s.childPc j ∧
      (s.prepares i pc table).child j = s.child j :=
  ⟨Function.update_of_ne other .., Function.update_of_ne other ..⟩

theorem goesOn_self (program : σ) : (s.goesOn i program).childPc i = .running program :=
  Function.update_self ..

theorem goesOn_ne (program : σ) (other : j ≠ i) : (s.goesOn i program).childPc j = s.childPc j :=
  Function.update_of_ne other ..

end Updates

/-- One child goes on, with a table that is right where it has come to. -/
theorem Tables.childMoves (tables : Tables shell count s) {i : Nat}
    (parent : t.parentPc = s.parentPc ∧ t.parent = s.parent)
    (others : ∀ j, j ≠ i → t.childPc j = s.childPc j ∧ t.child j = s.child j)
    (present : s.childPc i ≠ .absent) (still : t.childPc i ≠ .absent)
    (right : ChildTable shell (opened shell count).1 count i (t.child i) (t.childPc i)) :
    Tables shell count t := by
  refine ⟨by rw [parent.1, parent.2]; exact tables.parent, fun j => ?_, fun j => ?_⟩
  · by_cases own : j = i
    · exact own ▸ right
    · rw [(others j own).1, (others j own).2]
      exact tables.child j
  · rw [parent.1]
    by_cases own : j = i
    · subst own
      exact iff_of_false still fun beyond => present ((tables.absent j).mpr beyond)
    · rw [(others j own).1]
      exact tables.absent j

theorem Tables.prepares (tables : Tables shell count s) {i : Nat} {pc : ChildPc σ}
    {table : Table (File Inherited)} (present : s.childPc i ≠ .absent) (still : pc ≠ .absent)
    (right : ChildTable shell (opened shell count).1 count i table pc) :
    Tables shell count (s.prepares i pc table) := by
  obtain ⟨now, own⟩ := prepares_self (s := s) (i := i) pc table
  refine tables.childMoves ⟨rfl, rfl⟩ (fun j other => prepares_ne pc table other) present ?_ ?_
  · rwa [now]
  · rwa [now, own]

/-- A command that reads or writes keeps its table. -/
theorem Tables.goesOn (tables : Tables shell count s) {i : Nat} {program program' : σ}
    (pc : s.childPc i = .running program) : Tables shell count (s.goesOn i program') := by
  have right := tables.child i
  rw [pc] at right
  refine tables.childMoves (i := i) ⟨rfl, rfl⟩ (fun j other => ⟨goesOn_ne program' other, rfl⟩)
    (by simp [pc]) ?_ ?_
  · rw [goesOn_self]
    exact nofun
  · rw [goesOn_self]
    exact right

theorem Tables.fills (tables : Tables shell count s) (k : Nat) (bytes : List Byte) :
    Tables shell count (s.fills k bytes) := ⟨tables.parent, tables.child, tables.absent⟩

/-- The close loop leaves what a child has at its `execvp`. -/
theorem closePairs_wired {i : Nat} {t : Table (File Inherited)}
    (start : Made shell pipes made) (stdin : shell.file 0 ≠ none) (stdout : shell.file 1 ≠ none)
    (redirected : ∀ fd, ¬ Among pipes fd → t.file fd = wiring shell count i fd) (fd : Nat) :
    (closePairs pipes t).file fd = wiring shell count i fd := by
  by_cases isPipe : Among pipes fd
  · have notStdin : fd ≠ 0 := fun same => start.standard stdin (same ▸ isPipe)
    have notStdout : fd ≠ 1 := fun same => start.standard stdout (same ▸ isPipe)
    rw [file_closePairs t (Or.inl isPipe)]
    simp [wiring, notStdin, notStdout, start.fresh fd isPipe]
  · rw [file_closePairs_of_not isPipe, redirected fd isPipe]

/-- Nothing that is left open in the shell is an end. -/
theorem closePairs_closed {t : Table (File Inherited)} (start : Made shell pipes made)
    (forking : Forking shell pipes count count t) (fd : Nat) :
    (closePairs pipes t).file fd = (shell.file fd).map .inherited := by
  by_cases isPipe : Among pipes fd
  · rw [file_closePairs _ (Or.inl isPipe), start.fresh fd isPipe, Option.map_none]
  · rw [file_closePairs_of_not isPipe, forking.rest fd isPipe]

/-- The shell goes on with its own table, and no child changes. -/
theorem Tables.parentMoves (tables : Tables shell count s) {pc : ParentPc}
    {table : Table (File Inherited)} (reports : List (Nat × Nat))
    (right : ParentTable shell (opened shell count).1 count table pc)
    (same : forked count pc = forked count s.parentPc) :
    Tables shell count { s with parentPc := pc, parent := table, reports } :=
  ⟨right, tables.child, fun i => by rw [tables.absent i, same]⟩

theorem forked_nextFork {i : Nat} (more : i < count) : forked count (nextFork count i) = i + 1 := by
  unfold nextFork
  split
  · rfl
  · show count = i + 1
    omega

theorem forked_nextWait (count i : Nat) : forked count (nextWait count i) = count := by
  unfold nextWait
  split <;> rfl

/-- The ends that the shell still has for the children to come. -/
theorem ParentTable.ends {table : Table (File Inherited)} {pc : ParentPc}
    (parent : ParentTable shell pipes count table pc) {k : Nat} {fds : Nat × Nat}
    (at_k : pipes[k]? = some fds) (more : k + 1 < count) :
    (forked count pc ≤ k → table.file fds.2 = some (.writeEnd k)) ∧
      (forked count pc ≤ k + 1 → table.file fds.1 = some (.readEnd k)) := by
  cases pc with
  | forking i =>
    exact ⟨fun before => parent.2.writes k fds at_k before,
      fun before => parent.2.reads k fds at_k before⟩
  | closingRead i =>
    exact ⟨fun before => parent.2.writes k fds at_k (Nat.le_of_succ_le before),
      fun before => parent.2.reads k fds at_k (Nat.le_of_succ_le before)⟩
  | closingWrite i =>
    exact ⟨fun before => parent.2.writes k fds at_k (Nat.le_of_succ_le before),
      fun before => parent.2.reads k fds at_k before⟩
  | closing => exact ⟨fun before => absurd more (by simp only [forked] at before; omega),
      fun before => absurd more (by simp only [forked] at before; omega)⟩
  | waiting i => exact ⟨fun before => absurd more (by simp only [forked] at before; omega),
      fun before => absurd more (by simp only [forked] at before; omega)⟩
  | returned => exact ⟨fun before => absurd more (by simp only [forked] at before; omega),
      fun before => absurd more (by simp only [forked] at before; omega)⟩

theorem Tables.inside (tables : Tables shell count s) {i : Nat} (present : s.childPc i ≠ .absent) :
    i < count := by
  have before : ¬ forked count s.parentPc ≤ i :=
    fun beyond => present ((tables.absent i).mpr beyond)
  have parent := tables.parent
  cases pc : s.parentPc with
  | forking j =>
    rw [pc] at parent before
    have := parent.1
    simp only [forked] at before
    omega
  | closingRead j =>
    rw [pc] at parent before
    have := parent.1
    simp only [forked] at before
    omega
  | closingWrite j =>
    rw [pc] at parent before
    have := parent.1
    simp only [forked] at before
    omega
  | closing => simpa [pc, forked] using before
  | waiting j => simpa [pc, forked] using before
  | returned => simpa [pc, forked] using before

/-- A fork gives the child the table of the shell. -/
theorem Tables.forks {i : Nat} (tables : Tables shell count s) (pc : s.parentPc = .forking i) :
    Tables shell count { s.prepares i .stdin s.parent with parentPc := .closingRead i } := by
  have parent := tables.parent
  rw [pc] at parent
  refine ⟨parent, fun j => ?_, fun j => ?_⟩
  · show ChildTable _ _ _ _ ((s.prepares i .stdin s.parent).child j)
      ((s.prepares i .stdin s.parent).childPc j)
    by_cases own : j = i
    · rw [own, (prepares_self _ _).1, (prepares_self _ _).2]
      exact parent.2
    · rw [(prepares_ne _ _ own).1, (prepares_ne _ _ own).2]
      exact tables.child j
  · show (s.prepares i .stdin s.parent).childPc j = .absent ↔ i + 1 ≤ j
    by_cases own : j = i
    · rw [own, (prepares_self _ _).1]
      exact iff_of_false (by simp) (by omega)
    · rw [(prepares_ne _ _ own).1, tables.absent j, pc]
      show i ≤ j ↔ i + 1 ≤ j
      omega

variable [DecidableEq Inherited]

theorem Tables.kept (tables : Tables shell commands.length s) (some : 0 < commands.length)
    (stdin : shell.file 0 ≠ none) (stdout : shell.file 1 ≠ none) {a : Action}
    (move : Move act capacity (opened shell commands.length).1 commands s a t) :
    Tables shell commands.length t := by
  have start := opened_made shell commands.length
  have length := opened_length shell commands.length
  have parent := tables.parent
  cases move with
  | forks i pc => exact tables.forks pc
  | closesRead i table pc closed =>
    rw [pc] at parent
    obtain ⟨table', closed', half⟩ :=
      parent.2.closeRead start (by rw [length]; have := parent.1; omega)
    cases closed.symm.trans closed'
    exact tables.parentMoves s.reports ⟨parent.1, half⟩ (by rw [pc]; rfl)
  | closesWrite i table pc closed =>
    rw [pc] at parent
    obtain ⟨table', closed', after⟩ := parent.2.closeWrite start length
    cases closed.symm.trans closed'
    refine tables.parentMoves s.reports ?_ (by rw [pc, forked_nextFork parent.1]; rfl)
    unfold nextFork
    split
    · next more => exact ⟨more, after⟩
    · next last =>
      have whole : i + 1 = commands.length := by have := parent.1; omega
      exact whole ▸ after
  | closes pc =>
    rw [pc] at parent
    exact tables.parentMoves s.reports ⟨some, closePairs_closed start parent⟩ (by rw [pc]; rfl)
  | waits i reports pc gone =>
    rw [pc] at parent
    refine tables.parentMoves reports ?_ (by rw [pc, forked_nextWait]; rfl)
    unfold nextWait
    split
    · next more => exact ⟨more, parent.2⟩
    · exact parent.2
  | stdin i table pc redirected =>
    have right := tables.child i
    rw [pc] at right
    have inside := tables.inside (i := i) (by simp [pc])
    obtain ⟨table', redirected', files, own⟩ :=
      childStdin_spec start right (by rw [length]; omega) stdin
    cases redirected.symm.trans redirected'
    exact tables.prepares (by simp [pc]) (by simp) ⟨files, own⟩
  | stdout i table pc redirected =>
    have right := tables.child i
    rw [pc] at right
    obtain ⟨table', redirected', files⟩ := childStdout_spec length right.2
    cases redirected.symm.trans redirected'
    refine tables.prepares (by simp [pc]) (by simp) fun fd other => ?_
    rw [files fd other, right.1 fd other, wiring]
    by_cases isStdin : fd = 0
    · simp [isStdin]
    · simp [isStdin]
  | execs i command pc found =>
    have right := tables.child i
    rw [pc] at right
    exact tables.prepares (by simp [pc]) (by simp) (closePairs_wired start stdin stdout right)
  | reads i program next after pc reading read =>
    rcases readStep_of read with ⟨f, b, rest, -, -, rfl⟩ | ⟨k, b, rest, -, -, rfl⟩ | ⟨rfl, -⟩
    · exact Tables.goesOn (s := s.leavesUnread f rest)
        ⟨tables.parent, tables.child, tables.absent⟩ pc
    · exact (tables.fills k rest).goesOn pc
    · exact tables.goesOn pc
  | writes i program b next after pc writing written =>
    rcases writeStep_of written with ⟨f, -, rfl⟩ | ⟨k, -, -, -, rfl⟩ | ⟨k, -, -, rfl⟩ | ⟨rfl, -⟩
    · exact Tables.goesOn (s := s.appends f b) ⟨tables.parent, tables.child, tables.absent⟩ pc
    · exact (tables.fills k _).goesOn pc
    · exact tables.prepares (by simp [pc]) (by simp) rfl
    · exact tables.goesOn pc
  | exits i program status pc ending => exact tables.prepares (by simp [pc]) (by simp) rfl

theorem held_iff (s : State Inherited Byte σ) (count : Nat) (f : File Inherited) :
    s.held count f = true ↔
      (∃ fd, s.parent.file fd = some f) ∨ ∃ i < count, ∃ fd, (s.child i).file fd = some f := by
  unfold State.held
  rw [Bool.or_eq_true, has_iff, List.any_eq_true]
  simp only [has_iff, List.mem_range]

theorem held_of_child {i fd : Nat} {f : File Inherited} (inside : i < count)
    (refers : (s.child i).file fd = some f) : s.held count f = true :=
  (held_iff s count f).mpr (Or.inr ⟨i, inside, fd, refers⟩)

/-- As long as the child in front of a pipe has not ended, the pipe has a writer. -/
theorem Tables.writer (tables : Tables shell count s) (stdout : shell.file 1 ≠ none) {k : Nat}
    (more : k + 1 < count) (going : ¬ Over (s.childPc k)) :
    s.held count (.writeEnd k) = true := by
  have start := opened_made shell count
  obtain ⟨fds, at_k⟩ : ∃ fds, (opened shell count).1[k]? = some fds :=
    exists_pipe (by rw [opened_length]; omega)
  have own := tables.child k
  have wired : wiring shell count k 1 = some (.writeEnd k) :=
    wiring_writeEnd.mpr ⟨rfl, rfl, by omega⟩
  cases pc : s.childPc k with
  | absent =>
    have before := (tables.absent k).mp pc
    exact (held_iff s count _).mpr (Or.inl ⟨fds.2, (tables.parent.ends at_k more).1 before⟩)
  | stdin =>
    rw [pc] at own
    exact held_of_child (by omega) (own.writes k fds at_k (Nat.le_refl _))
  | stdout =>
    rw [pc] at own
    exact held_of_child (by omega) (own.2 fds at_k)
  | closing =>
    rw [pc] at own
    exact held_of_child (by omega) ((own 1 (start.standard stdout)).trans wired)
  | running program =>
    rw [pc] at own
    exact held_of_child (by omega) ((own 1).trans wired)
  | exited status => exact (going (pc ▸ trivial)).elim
  | killed => exact (going (pc ▸ trivial)).elim

/-- The same for the child behind it and its reader. -/
theorem Tables.reader (tables : Tables shell count s) (stdin : shell.file 0 ≠ none) {k : Nat}
    (more : k + 1 < count) (going : ¬ Over (s.childPc (k + 1))) :
    s.held count (.readEnd k) = true := by
  have start := opened_made shell count
  obtain ⟨fds, at_k⟩ : ∃ fds, (opened shell count).1[k]? = some fds :=
    exists_pipe (by rw [opened_length]; omega)
  have own := tables.child (k + 1)
  have wired : wiring shell count (k + 1) 0 = some (.readEnd k) :=
    wiring_readEnd.mpr ⟨rfl, rfl⟩
  cases pc : s.childPc (k + 1) with
  | absent =>
    have before := (tables.absent (k + 1)).mp pc
    exact (held_iff s count _).mpr (Or.inl ⟨fds.1, (tables.parent.ends at_k more).2 before⟩)
  | stdin =>
    rw [pc] at own
    exact held_of_child (by omega) (own.reads k fds at_k (Nat.le_refl _))
  | stdout =>
    rw [pc] at own
    have refers : (s.child (k + 1)).file 0 = some (.readEnd k) := by
      rw [own.1 0 (start.standard stdin), if_pos ⟨rfl, Nat.succ_pos k⟩, Nat.add_sub_cancel]
    exact held_of_child more refers
  | closing =>
    rw [pc] at own
    exact held_of_child (by omega) ((own 0 (start.standard stdin)).trans wired)
  | running program =>
    rw [pc] at own
    exact held_of_child (by omega) ((own 0).trans wired)
  | exited status => exact (going (pc ▸ trivial)).elim
  | killed => exact (going (pc ▸ trivial)).elim

/-- Once the shell waits and all children run, an end is held by the child it is for. -/
theorem Tables.holder (tables : Tables shell count s) {i : Nat} (waiting : s.parentPc = .waiting i)
    (settled : ∀ j < count, (∃ program, s.childPc j = .running program) ∨ Over (s.childPc j))
    {f : File Inherited} (isEnd : ∀ g, f ≠ .inherited g) (held : s.held count f = true) :
    ∃ j program fd, s.childPc j = .running program ∧ wiring shell count j fd = some f := by
  rcases (held_iff s count f).mp held with ⟨fd, refers⟩ | ⟨j, inside, fd, refers⟩
  · have parent := tables.parent
    rw [waiting] at parent
    rw [parent.2 fd] at refers
    obtain ⟨g, -, same⟩ := Option.map_eq_some_iff.mp refers
    exact absurd same.symm (isEnd g)
  · have own := tables.child j
    rcases settled j inside with ⟨program, pc⟩ | gone
    · rw [pc] at own
      exact ⟨j, program, fd, pc, (own fd).symm.trans refers⟩
    · have empty : s.child j = Table.empty := by
        cases pc : s.childPc j with
        | exited status =>
          rw [pc] at own
          exact own
        | killed =>
          rw [pc] at own
          exact own
        | _ =>
          rw [pc] at gone
          exact gone.elim
      rw [empty] at refers
      cases refers

end EltexCourse.Guarantees.Pipeline.Ends
