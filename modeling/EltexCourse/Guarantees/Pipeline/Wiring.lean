import EltexCourse.Source.Pipeline.Plumbing

/-!
# task12/pipeline_bash: what each process of a pipeline holds

The parent closes an end as soon as the child that uses it is forked, so a later
child inherits fewer ends than an earlier one. `Forking` says what it still has:
the read ends from the pipe in front of the next child on, the write ends from
the next child's own pipe on. Everything else a child may have inherited it
closes itself, some of it twice.
-/

set_option autoImplicit false

namespace EltexCourse.Guarantees.Pipeline.Wiring
open Foundations.Descriptors Foundations.Descriptors.Table Source.Pipeline

variable {Inherited : Type*}

theorem getElem?_snoc {α : Type*} {xs : List α} {x y : α} {k : Nat}
    (at_k : (xs ++ [x])[k]? = some y) : xs[k]? = some y ∨ (k = xs.length ∧ y = x) := by
  rcases Nat.lt_or_ge k xs.length with inside | beyond
  · exact Or.inl (by rwa [List.getElem?_append_left inside] at at_k)
  · rw [List.getElem?_append_right beyond, List.getElem?_singleton] at at_k
    split at at_k
    next last => exact Or.inr ⟨by omega, (Option.some.inj at_k).symm⟩
    · cases at_k

structure Made (shell : Table Inherited) (pipes : List (Nat × Nat)) (t : Table (File Inherited)) :
    Prop where
  reads : ∀ k fds, pipes[k]? = some fds → t.file fds.1 = some (.readEnd k)
  writes : ∀ k fds, pipes[k]? = some fds → t.file fds.2 = some (.writeEnd k)
  fresh : ∀ fd, Among pipes fd → shell.file fd = none
  rest : ∀ fd, ¬ Among pipes fd → t.file fd = (shell.file fd).map .inherited

theorem Made.isOpen {shell : Table Inherited} {pipes : List (Nat × Nat)}
    {t : Table (File Inherited)} (made : Made shell pipes t) {fd : Nat} (isPipe : Among pipes fd) :
    t.file fd ≠ none := by
  obtain ⟨fds, inside, read | write⟩ := isPipe <;> obtain ⟨k, at_k⟩ := List.getElem?_of_mem inside
  · simp [read, made.reads k fds at_k]
  · simp [write, made.writes k fds at_k]

/-- One more pipe: its two descriptors are new, so that those of the earlier pipes and
the shell's own are untouched. -/
theorem Made.pipe {shell : Table Inherited} {pipes : List (Nat × Nat)}
    {t t' : Table (File Inherited)} {fds : Nat × Nat} (made : Made shell pipes t)
    (opened : t.pipe (.readEnd pipes.length) (.writeEnd pipes.length) = (fds, t')) :
    Made shell (pipes ++ [fds]) t' := by
  obtain ⟨readFree, writeFree, read, write, others⟩ := pipe_spec opened
  have new {fd : Nat} (free : t.file fd = none) : ¬ Among pipes fd :=
    fun old => made.isOpen old free
  have kept {fd : Nat} (old : Among pipes fd) : t'.file fd = t.file fd :=
    others fd (fun same => new readFree (same ▸ old)) (fun same => new writeFree (same ▸ old))
  have closed {fd : Nat} (free : t.file fd = none) : shell.file fd = none := by
    simpa [free] using (made.rest fd (new free)).symm
  refine ⟨?_, ?_, ?_, ?_⟩
  · intro k ends at_k
    rcases getElem?_snoc at_k with old | ⟨rfl, rfl⟩
    · rw [kept (among_at old).1, made.reads k ends old]
    · exact read
  · intro k ends at_k
    rcases getElem?_snoc at_k with old | ⟨rfl, rfl⟩
    · rw [kept (among_at old).2, made.writes k ends old]
    · exact write
  · intro fd isPipe
    rcases (among_append pipes fds fd).mp isPipe with old | rfl | rfl
    · exact made.fresh fd old
    · exact closed readFree
    · exact closed writeFree
  · intro fd other
    rw [among_append, not_or, not_or] at other
    obtain ⟨old, notRead, notWrite⟩ := other
    rw [others fd notRead notWrite, made.rest fd old]

theorem makePipes_length (t : Table (File Inherited)) (m : Nat) :
    (makePipes t m).1.length = m := by
  induction m with
  | zero => rfl
  | succ m ih => simp [makePipes, ih]

/-- After the loop all pipes have been made, with both ends open and nothing else
changed. -/
theorem makePipes_made (shell : Table Inherited) (m : Nat) :
    Made shell (makePipes (shell.map .inherited) m).1 (makePipes (shell.map .inherited) m).2 := by
  induction m with
  | zero =>
    refine ⟨?_, ?_, ?_, fun fd _ => rfl⟩
    · exact fun k fds at_k => by simp [makePipes] at at_k
    · exact fun k fds at_k => by simp [makePipes] at at_k
    · exact fun fd isPipe => by simp [Among, makePipes] at isPipe
  | succ m ih => exact ih.pipe (by rw [makePipes_length]; rfl)

/-- The table as the shell handed it on, but for ends of pipes: of these, the
read ends from pipe `read - 1` on and the write ends from pipe `write` on are
still open. -/
structure Forking (shell : Table Inherited) (pipes : List (Nat × Nat)) (read write : Nat)
    (t : Table (File Inherited)) : Prop where
  reads : ∀ k fds, pipes[k]? = some fds → read ≤ k + 1 → t.file fds.1 = some (.readEnd k)
  writes : ∀ k fds, pipes[k]? = some fds → write ≤ k → t.file fds.2 = some (.writeEnd k)
  rest : ∀ fd, ¬ Among pipes fd → t.file fd = (shell.file fd).map .inherited

variable {shell : Table Inherited} {pipes : List (Nat × Nat)} {made t : Table (File Inherited)}
  {count i : Nat}

theorem Made.forking (start : Made shell pipes made) : Forking shell pipes 0 0 made :=
  ⟨fun k fds at_k _ => start.reads k fds at_k, fun k fds at_k _ => start.writes k fds at_k,
    start.rest⟩

/-- No two ends have one number: a number refers to one file. -/
theorem Made.apart (start : Made shell pipes made) {j k : Nat} {used other : Nat × Nat}
    (at_j : pipes[j]? = some used) (at_k : pipes[k]? = some other) :
    used.1 ≠ other.2 ∧ (j ≠ k → used.1 ≠ other.1) ∧ (j ≠ k → used.2 ≠ other.2) := by
  have readUsed := start.reads j used at_j
  have writeUsed := start.writes j used at_j
  refine ⟨?_, fun different => ?_, fun different => ?_⟩
  · intro same
    simp [same, start.writes k other at_k] at readUsed
  · intro same
    rw [same, start.reads k other at_k] at readUsed
    cases readUsed
    exact different rfl
  · intro same
    rw [same, start.writes k other at_k] at writeUsed
    cases writeUsed
    exact different rfl

theorem exists_pipe {k : Nat} (inside : k < pipes.length) : ∃ fds, pipes[k]? = some fds :=
  ⟨_, List.getElem?_eq_getElem inside⟩

theorem Forking.closeRead (start : Made shell pipes made) (forking : Forking shell pipes i i t)
    (inside : i ≤ pipes.length) :
    ∃ t', closeRead pipes i t = some t' ∧ Forking shell pipes (i + 1) i t' := by
  unfold Source.Pipeline.closeRead
  split
  next positive =>
    have pipe : i - 1 < pipes.length := by omega
    obtain ⟨used, at_used⟩ := exists_pipe pipe
    refine ⟨t.close used.1, by rw [at_used, Option.map_some], ?_, ?_, ?_⟩
    · intro k fds at_k needed
      rw [file_close, Function.update_of_ne ((start.apart at_k at_used).2.1 (by omega))]
      exact forking.reads k fds at_k (by omega)
    · intro k fds at_k needed
      rw [file_close, Function.update_of_ne (start.apart at_used at_k).1.symm]
      exact forking.writes k fds at_k needed
    · intro fd other
      rw [file_close, Function.update_of_ne (ne_of_not_among other at_used).1]
      exact forking.rest fd other
  next first =>
    exact ⟨t, rfl, fun k fds at_k _ => forking.reads k fds at_k (by omega), forking.writes,
      forking.rest⟩

theorem Forking.closeWrite (start : Made shell pipes made)
    (forking : Forking shell pipes (i + 1) i t) (length : pipes.length = count - 1) :
    ∃ t', closeWrite pipes count i t = some t' ∧ Forking shell pipes (i + 1) (i + 1) t' := by
  unfold Source.Pipeline.closeWrite
  split
  next more =>
    have pipe : i < pipes.length := by omega
    obtain ⟨used, at_used⟩ := exists_pipe pipe
    refine ⟨t.close used.2, by rw [at_used, Option.map_some], ?_, ?_, ?_⟩
    · intro k fds at_k needed
      rw [file_close, Function.update_of_ne (start.apart at_k at_used).1]
      exact forking.reads k fds at_k needed
    · intro k fds at_k needed
      rw [file_close, Function.update_of_ne ((start.apart at_k at_used).2.2 (by omega))]
      exact forking.writes k fds at_k (by omega)
    · intro fd other
      rw [file_close, Function.update_of_ne (ne_of_not_among other at_used).2]
      exact forking.rest fd other
  next last =>
    exact ⟨t, rfl, forking.reads, fun k fds at_k _ => forking.writes k fds at_k (by omega),
      forking.rest⟩

/-- What child `i` has at `fd` in its `execvp`. -/
def wiring (shell : Table Inherited) (count i fd : Nat) : Option (File Inherited) :=
  if fd = 0 ∧ 0 < i then some (.readEnd (i - 1))
  else if fd = 1 ∧ i < count - 1 then some (.writeEnd i)
  else (shell.file fd).map .inherited

/-- A standard descriptor is no end of a pipe. -/
theorem Made.standard (start : Made shell pipes made) {fd : Nat} (opened : shell.file fd ≠ none) :
    ¬ Among pipes fd :=
  fun isPipe => opened (start.fresh fd isPipe)

/-- A child's standard input is the pipe before it, and the shell's own in the first
child. -/
theorem childStdin_spec (start : Made shell pipes made) (forking : Forking shell pipes i i t)
    (inside : i ≤ pipes.length) (stdin : shell.file 0 ≠ none) :
    ∃ t', childStdin pipes i t = some t' ∧
      (∀ fd, ¬ Among pipes fd → t'.file fd =
        if fd = 0 ∧ 0 < i then some (.readEnd (i - 1)) else (shell.file fd).map .inherited) ∧
      ∀ fds, pipes[i]? = some fds → t'.file fds.2 = some (.writeEnd i) := by
  unfold childStdin
  split
  next positive =>
    have pipe : i - 1 < pipes.length := by omega
    obtain ⟨used, at_used⟩ := exists_pipe pipe
    have isOpen := forking.reads (i - 1) used at_used (by omega)
    refine ⟨(t.dup2 used.1 0).close used.1, by rw [at_used, Option.map_some], ?_, ?_⟩
    · intro fd other
      rw [file_close, file_dup2 isOpen, Function.update_of_ne (ne_of_not_among other at_used).1]
      by_cases isStdin : fd = 0
      · simp [isStdin, positive]
      · rw [Function.update_of_ne isStdin, forking.rest fd other, if_neg fun both => isStdin both.1]
    · intro fds at_i
      have notStdin : fds.2 ≠ 0 := fun same => start.standard stdin (same ▸ (among_at at_i).2)
      rw [file_close, file_dup2 isOpen,
        Function.update_of_ne (start.apart at_used at_i).1.symm, Function.update_of_ne notStdin]
      exact forking.writes i fds at_i (Nat.le_refl _)
  next first =>
    refine ⟨t, rfl, fun fd other => ?_, fun fds at_i => forking.writes i fds at_i (Nat.le_refl _)⟩
    rw [forking.rest fd other, if_neg fun both => first both.2]

/-- Its standard output is the pipe behind it, and the shell's own in the last. -/
theorem childStdout_spec (length : pipes.length = count - 1)
    (own : ∀ fds, pipes[i]? = some fds → t.file fds.2 = some (.writeEnd i)) :
    ∃ t', childStdout pipes count i t = some t' ∧
      ∀ fd, ¬ Among pipes fd → t'.file fd =
        if fd = 1 ∧ i < count - 1 then some (.writeEnd i) else t.file fd := by
  unfold childStdout
  split
  next more =>
    have pipe : i < pipes.length := by omega
    obtain ⟨used, at_used⟩ := exists_pipe pipe
    refine ⟨(t.dup2 used.2 1).close used.2, by rw [at_used, Option.map_some], fun fd other => ?_⟩
    rw [file_close, file_dup2 (own used at_used),
      Function.update_of_ne (ne_of_not_among other at_used).2]
    by_cases isStdout : fd = 1
    · simp [isStdout, more]
    · rw [Function.update_of_ne isStdout, if_neg fun both => isStdout both.1]
  next last =>
    exact ⟨t, rfl, fun fd _ => by rw [if_neg fun both => last both.2]⟩

/-- When a child comes to `execvp`, its table is the two ends of its neighbours' pipes
and what it has inherited. -/
theorem childAtExec_wired (start : Made shell pipes made) (forking : Forking shell pipes i i t)
    (length : pipes.length = count - 1) (inside : i ≤ pipes.length)
    (stdin : shell.file 0 ≠ none) (stdout : shell.file 1 ≠ none) :
    ∃ child, childAtExec pipes count i t = some child ∧
      ∀ fd, child.file fd = wiring shell count i fd := by
  obtain ⟨t₁, redirected, files₁, own⟩ := childStdin_spec start forking inside stdin
  obtain ⟨t₂, redirectedTwice, files₂⟩ := childStdout_spec length own
  refine ⟨closePairs pipes t₂, by simp [childAtExec, redirected, redirectedTwice], ?_⟩
  intro fd
  by_cases isPipe : Among pipes fd
  · have notStdin : fd ≠ 0 := fun same => start.standard stdin (same ▸ isPipe)
    have notStdout : fd ≠ 1 := fun same => start.standard stdout (same ▸ isPipe)
    rw [file_closePairs t₂ (Or.inl isPipe)]
    simp [wiring, notStdin, notStdout, start.fresh fd isPipe]
  · rw [file_closePairs_of_not isPipe, files₂ fd isPipe, files₁ fd isPipe, wiring]
    by_cases isStdin : fd = 0
    · simp [isStdin]
    · simp [isStdin]

/-- All children are wired so; the loop keeps that the parent has closed what it no
longer needs. -/
theorem forkChildren_wired (start : Made shell pipes made) (length : pipes.length = count - 1)
    (stdin : shell.file 0 ≠ none) (stdout : shell.file 1 ≠ none) {m : Nat} (bound : m ≤ count) :
    ∃ forked, forkChildren pipes count made m = some forked ∧
      Forking shell pipes m m forked.parent ∧ forked.children.length = m ∧
      ∀ i child, forked.children[i]? = some child →
        ∀ fd, child.file fd = wiring shell count i fd := by
  induction m with
  | zero => exact ⟨⟨[], made⟩, rfl, start.forking, rfl, fun i child found => by simp at found⟩
  | succ m ih =>
    obtain ⟨before, forked, forking, children, wired⟩ := ih (by omega)
    obtain ⟨child, exec, files⟩ :=
      childAtExec_wired start forking length (by omega) stdin stdout
    obtain ⟨t₁, closed, half⟩ := forking.closeRead start (by omega)
    obtain ⟨t₂, closedTwice, after⟩ := half.closeWrite start length
    refine ⟨⟨before.children ++ [child], t₂⟩,
      by simp [forkChildren, forked, exec, closed, closedTwice], after, by simp [children], ?_⟩
    intro i other found
    rcases getElem?_snoc found with old | ⟨rfl, rfl⟩
    · exact wired i other old
    · rwa [children]

/-- The parent's table is the shell's again, each child's is `wiring`. -/
theorem pipelineHandler_wired (commands : 1 < count) (stdin : shell.file 0 ≠ none)
    (stdout : shell.file 1 ≠ none) :
    ∃ processes, pipelineHandler shell count = some processes ∧
      (∀ fd, processes.parent.file fd = (shell.file fd).map .inherited) ∧
      processes.children.length = count ∧
      ∀ i child, processes.children[i]? = some child →
        ∀ fd, child.file fd = wiring shell count i fd := by
  have start := makePipes_made shell (count - 1)
  have length := makePipes_length (shell.map File.inherited) (count - 1)
  unfold pipelineHandler
  generalize makePipes (shell.map File.inherited) (count - 1) = made at start length ⊢
  obtain ⟨forked, result, forking, children, wired⟩ :=
    forkChildren_wired start length stdin stdout (Nat.le_refl count)
  refine ⟨⟨forked.children, closePairs made.1 forked.parent⟩, by simp [commands, result], ?_,
    children,
    wired⟩
  intro fd
  by_cases isPipe : Among made.1 fd
  · rw [file_closePairs _ (Or.inl isPipe), start.fresh fd isPipe, Option.map_none]
  · rw [file_closePairs_of_not isPipe, forking.rest fd isPipe]

/-- The processes of a pipeline: the parent, then the children. -/
def everyone (processes : Processes Inherited) : List (Table (File Inherited)) :=
  processes.parent :: processes.children

/-- The process with this number has the file open. -/
def Holds (processes : Processes Inherited) (f : File Inherited) (j : Nat) : Prop :=
  ∃ t fd, (everyone processes)[j]? = some t ∧ t.file fd = some f

/-- The children's ends and nobody else's. -/
structure Plumbed (shell : Table Inherited) (count : Nat) (processes : Processes Inherited) :
    Prop where
  children : processes.children.length = count
  stdin : ∀ i child, processes.children[i]? = some child → child.file 0 =
    if i = 0 then (shell.file 0).map .inherited else some (.readEnd (i - 1))
  stdout : ∀ i child, processes.children[i]? = some child → child.file 1 =
    if i + 1 = count then (shell.file 1).map .inherited else some (.writeEnd i)
  noOther : ∀ (i : Nat) (child : Table (File Inherited)), processes.children[i]? = some child →
    ∀ fd k,
      (child.file fd = some (File.readEnd k) → fd = 0) ∧
        (child.file fd = some (File.writeEnd k) → fd = 1)
  parent : ∀ fd k, processes.parent.file fd ≠ some (.readEnd k) ∧
    processes.parent.file fd ≠ some (.writeEnd k)
  oneWriter : ∀ k, k + 1 < count → ∃! j, Holds processes (.writeEnd k) j
  oneReader : ∀ k, k + 1 < count → ∃! j, Holds processes (.readEnd k) j

theorem inherited_ne_readEnd (file : Option Inherited) (k : Nat) :
    file.map File.inherited ≠ some (.readEnd k) := by
  cases file <;> simp

theorem inherited_ne_writeEnd (file : Option Inherited) (k : Nat) :
    file.map File.inherited ≠ some (.writeEnd k) := by
  cases file <;> simp

theorem wiring_readEnd {fd k : Nat} :
    wiring shell count i fd = some (.readEnd k) ↔ fd = 0 ∧ i = k + 1 := by
  unfold wiring
  split
  next both =>
    simp only [Option.some.injEq, File.readEnd.injEq]
    omega
  next neither =>
    have noRead : (if fd = 1 ∧ i < count - 1 then some (File.writeEnd i)
        else (shell.file fd).map .inherited) ≠ some (.readEnd k) := by
      split
      · simp
      · exact inherited_ne_readEnd _ k
    simp only [noRead, false_iff]
    omega

/-- The only write end is its standard output, and the last child has none. -/
theorem wiring_writeEnd {fd k : Nat} :
    wiring shell count i fd = some (.writeEnd k) ↔ fd = 1 ∧ i = k ∧ k < count - 1 := by
  unfold wiring
  split
  next both =>
    simp only [Option.some.injEq, reduceCtorEq, false_iff]
    omega
  next =>
    split
    next both =>
      simp only [Option.some.injEq, File.writeEnd.injEq]
      omega
    next neither =>
      simp only [inherited_ne_writeEnd, false_iff]
      omega

/-- A file the parent does not have is held by the children wired to it. -/
theorem holds_iff {processes : Processes Inherited} (children : processes.children.length = count)
    (wired : ∀ i child, processes.children[i]? = some child →
      ∀ fd, child.file fd = wiring shell count i fd) {f : File Inherited}
    (noParent : ∀ fd, processes.parent.file fd ≠ some f) (j : Nat) :
    Holds processes f j ↔ ∃ i fd, j = i + 1 ∧ i < count ∧ wiring shell count i fd = some f := by
  constructor
  · rintro ⟨t, fd, found, held⟩
    cases j with
    | zero =>
      obtain rfl : processes.parent = t := by simpa [everyone] using found
      exact absurd held (noParent fd)
    | succ i =>
      have found : processes.children[i]? = some t := by simpa [everyone] using found
      have inside := (List.getElem?_eq_some_iff.mp found).1
      exact ⟨i, fd, rfl, by omega, by rw [← wired i t found, held]⟩
  · rintro ⟨i, fd, rfl, inside, held⟩
    obtain ⟨child, found⟩ : ∃ child, processes.children[i]? = some child :=
      ⟨_, List.getElem?_eq_getElem (by omega)⟩
    exact ⟨child, fd, by simpa [everyone] using found, by rw [wired i child found, held]⟩

/-- For every number of commands from two on, started with the standard
descriptors open: every child has its ends at 0 and 1 and no other, the parent
has none, and every pipe is left with one writer and one reader. -/
theorem pipeline_plumbed (shell : Table Inherited) (count : Nat) (commands : 2 ≤ count)
    (opened : ∀ fd < 3, shell.file fd ≠ none) :
    ∃ processes, pipelineHandler shell count = some processes ∧
      Plumbed shell count processes := by
  obtain ⟨processes, result, parent, children, wired⟩ :=
    pipelineHandler_wired commands (opened 0 (by decide)) (opened 1 (by decide))
  have noRead (fd k : Nat) : processes.parent.file fd ≠ some (.readEnd k) :=
    parent fd ▸ inherited_ne_readEnd _ k
  have noWrite (fd k : Nat) : processes.parent.file fd ≠ some (.writeEnd k) :=
    parent fd ▸ inherited_ne_writeEnd _ k
  refine ⟨processes, result, children, ?_, ?_, ?_, fun fd k => ⟨noRead fd k, noWrite fd k⟩, ?_, ?_⟩
  · intro i child found
    rw [wired i child found, wiring]
    by_cases first : i = 0
    · simp [first]
    · simp [first, Nat.pos_of_ne_zero first]
  · intro i child found
    have inside := (List.getElem?_eq_some_iff.mp found).1
    rw [wired i child found, wiring]
    by_cases last : i + 1 = count
    · simp [last, show ¬ i < count - 1 by omega]
    · simp [last, show i < count - 1 by omega]
  · intro i child found fd k
    rw [wired i child found]
    exact ⟨fun read => (wiring_readEnd.mp read).1, fun write => (wiring_writeEnd.mp write).1⟩
  · intro k more
    refine ⟨k + 1, ?_, fun j holds => ?_⟩
    · exact (holds_iff children wired (fun fd => noWrite fd k) _).mpr
        ⟨k, 1, rfl, by omega, wiring_writeEnd.mpr ⟨rfl, rfl, by omega⟩⟩
    · obtain ⟨i, fd, rfl, _, write⟩ :=
        (holds_iff children wired (fun fd => noWrite fd k) j).mp holds
      rw [(wiring_writeEnd.mp write).2.1]
  · intro k more
    refine ⟨k + 2, ?_, fun j holds => ?_⟩
    · exact (holds_iff children wired (fun fd => noRead fd k) _).mpr
        ⟨k + 1, 0, rfl, by omega, wiring_readEnd.mpr ⟨rfl, rfl⟩⟩
    · obtain ⟨i, fd, rfl, _, read⟩ :=
        (holds_iff children wired (fun fd => noRead fd k) j).mp holds
      rw [(wiring_readEnd.mp read).2]

/-- A shell with a log file at 3 beside its terminal: the pipes of three commands
get 4 to 7. -/
def loggingShell : Table String :=
  (((Table.empty.put 0 "terminal").put 1 "terminal").put 2 "terminal").put 3 "log"

theorem pipeline_plumbed_three :
    ∃ processes, pipelineHandler loggingShell 3 = some processes ∧
      Plumbed loggingShell 3 processes :=
  pipeline_plumbed loggingShell 3 (by decide) (by decide)

end EltexCourse.Guarantees.Pipeline.Wiring
