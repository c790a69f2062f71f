import EltexCourse.Foundations.Semaphore
import EltexCourse.Source.DemoShm.SystemV

/-!
# task14/Systev_V: whole texts, one process at a time

The server makes the semaphore with value 0 and sets it to 1 before its own
first wait, so from then on it is a lock, up to its removal. A process that is
then at the text goes on alone, as no wait succeeds any more.
-/

set_option autoImplicit false

namespace EltexCourse.Guarantees.DemoShm.SerialTexts
open Foundations.CString Foundations.CBuffer Foundations.SharedText Foundations.Semaphore
open Foundations.Transition Source.DemoShm.SystemV

variable {ι : Type} {s t : State ι} {p q : Party ι} {i : ι}

def serverPhase : ServerPc → Phase
  | .copying k => .writing k serverLine
  | .posting => .leaving
  | .printing k seen => .reading k seen
  | .postingAgain => .leaving
  | _ => .outside

def clientPhase : ClientPc → Phase
  | .printing k seen => .reading k seen
  | .copying k => .writing k clientLine
  | .posting => .leaving
  | _ => .outside

def phase (s : State ι) : Party ι → Phase
  | .server => serverPhase s.server
  | .client i => clientPhase (s.client i)

/-- Between a wait and the post that follows it. -/
def Inside (s : State ι) (p : Party ι) : Prop := phase s p ≠ .outside

/-- Byte `k` is the one the process touches next. -/
def Touches (s : State ι) (p : Party ι) (k : Nat) : Prop :=
  (∃ seen, phase s p = .reading k seen) ∨ ∃ line, phase s p = .writing k line

/-- From `SETVAL` to `IPC_RMID`. -/
def Locking : ServerPc → Prop
  | .shmget => False
  | .semget => False
  | .setval => False
  | .removingShm => False
  | .returned => False
  | .failed => False
  | _ => True

/-- Under the lock and not at the text, the server is about to wait or to remove the
semaphore. -/
theorem locking_outside {pc : ServerPc} (locking : Locking pc)
    (outside : serverPhase pc = .outside) :
    pc = .waiting ∨ pc = .waitingAgain ∨ pc = .removingSem := by
  cases pc <;> simp_all [Locking, serverPhase]

/-- What the semaphore is, by where the server is. -/
inductive Guarded (s : State ι) : Prop where
  | before (pc : s.server = .shmget ∨ s.server = .semget) (sem : s.sem = .missing)
      (nobody : ∀ p, ¬ Inside s p)
  | zero (pc : s.server = .setval) (sem : s.sem = .value 0) (nobody : ∀ p, ¬ Inside s p)
  | locked (n : Nat) (pc : Locking s.server) (sem : s.sem = .value n)
      (exclusive : Exclusive n (Inside s))
  | after (pc : s.server = .removingShm ∨ s.server = .returned) (sem : s.sem = .removed)
      (one : ∀ p q, Inside s p → Inside s q → p = q)

theorem Guarded.alone (guarded : Guarded s) (one : Inside s p) (other : Inside s q) : p = q := by
  cases guarded with
  | before _ _ nobody => exact absurd one (nobody p)
  | zero _ _ nobody => exact absurd one (nobody p)
  | locked n _ _ exclusive => exact exclusive.unique one other
  | after _ _ unique => exact unique p q one other

theorem guarded_initial : Guarded (initial : State ι) := by
  refine .before (Or.inl rfl) rfl fun p => ?_
  cases p <;> exact fun inside => inside rfl

/-- What a step of `p` does to the semaphore. -/
inductive Effect (s t : State ι) (p : Party ι) : Prop where
  | stays (sem : t.sem = s.sem) (same : Inside t p ↔ Inside s p)
  | enters (n : Nat) (sem : s.sem = .value (n + 1)) (left : t.sem = .value n)
      (inside : Inside t p)
  | leaves (n : Nat) (sem : s.sem = .value n) (left : t.sem = .value (n + 1))
      (inside : Inside s p) (outside : ¬ Inside t p)
  | fails (sem : ∀ n, s.sem ≠ .value n) (left : t.sem = s.sem) (outside : ¬ Inside t p)

/-- The server where it is, or going on under the lock. -/
theorem Guarded.effect (guarded : Guarded s) (effect : Effect s t p)
    (others : ∀ q, q ≠ p → phase t q = phase s q)
    (server : t.server = s.server ∨ Locking s.server ∧ Locking t.server) : Guarded t := by
  have apart (q : Party ι) (other : q ≠ p) : Inside t q ↔ Inside s q := by
    unfold Inside
    rw [others q other]
  have locking (pc : Locking s.server) : Locking t.server := by
    rcases server with same | ⟨-, after⟩
    · rwa [same]
    · exact after
  have kept (pc : ¬ Locking s.server) : t.server = s.server :=
    server.resolve_right fun both => pc both.1
  cases guarded with
  | before pc sem nobody =>
    have pc' := kept (by rcases pc with pc | pc <;> rw [pc] <;> exact id)
    have outside (inside : Inside t p → Inside s p) (q : Party ι) : ¬ Inside t q := by
      by_cases own : q = p
      · exact own ▸ fun now => nobody p (inside now)
      · exact fun now => nobody q ((apart q own).mp now)
    cases effect with
    | stays left same => exact .before (by rwa [pc']) (left.trans sem) (outside same.mp)
    | enters n value => cases sem.symm.trans value
    | leaves n value => cases sem.symm.trans value
    | fails _ left now =>
      exact .before (by rwa [pc']) (left.trans sem) (outside fun inside => absurd inside now)
  | zero pc sem nobody =>
    have pc' := kept (by rw [pc]; exact id)
    cases effect with
    | stays left same =>
      refine .zero (pc'.trans pc) (left.trans sem) fun q => ?_
      by_cases own : q = p
      · exact own ▸ fun now => nobody p (same.mp now)
      · exact fun now => nobody q ((apart q own).mp now)
    | enters n value => cases sem.symm.trans value
    | leaves n value _ inside => exact absurd inside (nobody p)
    | fails value => exact absurd sem (value 0)
  | locked n pc sem exclusive =>
    cases effect with
    | stays left same =>
      refine .locked n (locking pc) (left.trans sem) (exclusive.congr fun q => ?_)
      by_cases own : q = p
      · exact own ▸ same
      · exact apart q own
    | enters m value left inside =>
      cases sem.symm.trans value
      exact .locked m (locking pc) left (exclusive.acquire (Nat.succ_pos m) inside apart)
    | leaves m value left inside outside =>
      cases sem.symm.trans value
      exact .locked (n + 1) (locking pc) left (exclusive.release inside outside apart)
    | fails value => exact absurd sem (value n)
  | after pc sem one =>
    have pc' := kept (by rcases pc with pc | pc <;> rw [pc] <;> exact id)
    have still (inside : Inside t p → Inside s p) (q r : Party ι) (first : Inside t q)
        (second : Inside t r) : q = r := by
      have was (u : Party ι) (now : Inside t u) : Inside s u := by
        by_cases own : u = p
        · exact own ▸ inside (own ▸ now)
        · exact (apart u own).mp now
      exact one q r (was q first) (was r second)
    cases effect with
    | stays left same => exact .after (by rwa [pc']) (left.trans sem) (still same.mp)
    | enters n value => cases sem.symm.trans value
    | leaves n value => cases sem.symm.trans value
    | fails _ left now =>
      exact .after (by rwa [pc']) (left.trans sem) (still fun inside => absurd inside now)

/-- A wait that is over has either taken one from the semaphore or failed, as there is
none. -/
theorem wait_cases {passes fails : State ι → State ι} (waited : s.wait passes fails = some t) :
    (∃ n, s.sem = .value (n + 1) ∧ t = passes { s with sem := .value n }) ∨
      (∀ n, s.sem ≠ .value n) ∧ t = fails s := by
  unfold State.wait at waited
  split at waited
  · cases waited
  · next n sem =>
    cases waited
    exact Or.inl ⟨n, sem, rfl⟩
  · next notZero notMore =>
    cases waited
    refine Or.inr ⟨fun n sem => ?_, rfl⟩
    cases n with
    | zero => exact notZero sem
    | succ n => exact notMore n sem

/-- A post adds one to the semaphore, or fails for the same reason. -/
theorem post_cases (s : State ι) (posts fails : State ι → State ι) :
    (∃ n, s.sem = .value n ∧ s.post posts fails = posts { s with sem := .value (n + 1) }) ∨
      (∀ n, s.sem ≠ .value n) ∧ s.post posts fails = fails s := by
  unfold State.post
  split
  · next n sem => exact Or.inl ⟨n, sem, rfl⟩
  · next notValue => exact Or.inr ⟨notValue, rfl⟩

/-- What a step does: to the semaphore, to the text, and to nobody else. -/
structure Stepped (s t : State ι) (p : Party ι) (events : List (Event (Party ι))) : Prop where
  effect : Effect s t p
  others : ∀ q, q ≠ p → phase t q = phase s q
  turn : Turn p s.shm t.shm (phase s p) (phase t p) events

/-- A wait that gets its permit leads to the beginning of a text. -/
theorem stepped_enters {n : Nat} {next : Phase} (value : s.sem = .value (n + 1))
    (left : t.sem = .value n) (shm : t.shm = s.shm) (others : ∀ q, q ≠ p → phase t q = phase s q)
    (was : phase s p = .outside) (now : phase t p = next)
    (starts : next = .reading 0 [] ∨ ∃ line, next = .writing 0 line) : Stepped s t p [] := by
  refine ⟨.enters n value left ?_, others, ?_⟩
  · unfold Inside
    rw [now]
    rcases starts with rfl | ⟨line, rfl⟩ <;> exact nofun
  · rw [was, now, shm]
    exact .enters next starts

theorem outside_of_phase (now : phase t p = .outside) : ¬ Inside t p := fun inside => inside now

/-- A post that finds the semaphore gives the permit back. -/
theorem stepped_leaves {n : Nat} (value : s.sem = .value n) (left : t.sem = .value (n + 1))
    (shm : t.shm = s.shm) (others : ∀ q, q ≠ p → phase t q = phase s q)
    (was : phase s p = .leaving) (now : phase t p = .outside) : Stepped s t p [] := by
  refine ⟨.leaves n value left ?_ (outside_of_phase now), others, ?_⟩
  · unfold Inside
    rw [was]
    exact nofun
  · rw [was, now, shm]
    exact .leaves

/-- A post that fails, as the semaphore has been removed, leaves the text all the same. -/
theorem stepped_fails (sem : ∀ n, s.sem ≠ .value n) (left : t.sem = s.sem) (shm : t.shm = s.shm)
    (others : ∀ q, q ≠ p → phase t q = phase s q) (was : phase s p = .leaving)
    (now : phase t p = .outside) : Stepped s t p [] := by
  refine ⟨.fails sem left (outside_of_phase now), others, ?_⟩
  rw [was, now, shm]
  exact .leaves

/-- One byte of `strcpy`, which is over with the terminator. -/
theorem stepped_copies {k : Nat} {line : Text} (sem : t.sem = s.sem)
    (shm : t.shm = Function.update s.shm k (byteAt line k))
    (others : ∀ q, q ≠ p → phase t q = phase s q) (was : phase s p = .writing k line)
    (now : phase t p = if k < line.length then .writing (k + 1) line else .leaving) :
    Stepped s t p (if k < line.length then [] else [.wrote p line]) := by
  refine ⟨.stays sem ?_, others, ?_⟩
  · unfold Inside
    rw [was, now]
    split <;> simp
  · rw [was, now, shm]
    by_cases more : k < line.length
    · simp only [more, if_true]
      exact .writes k line more
    · simp only [more, if_false]
      exact .hasWritten k line more

/-- One byte of `printf`, which is over at the terminator. -/
theorem stepped_prints {k : Nat} {seen : Text} {next : Phase} (sem : t.sem = s.sem)
    (shm : t.shm = s.shm) (others : ∀ q, q ≠ p → phase t q = phase s q)
    (was : phase s p = .reading k seen)
    (now : phase t p = if s.shm k = nul then next else .reading (k + 1) (seen ++ [s.shm k]))
    (goesOn : next = .leaving ∨ ∃ line, next = .writing 0 line) :
    Stepped s t p (if s.shm k = nul then [.read p seen] else []) := by
  refine ⟨.stays sem ?_, others, ?_⟩
  · unfold Inside
    rw [was, now]
    rcases goesOn with rfl | ⟨line, rfl⟩ <;> split <;> simp
  · rw [was, now, shm]
    by_cases last : s.shm k = nul
    · simp only [last, if_true]
      exact .hasRead k seen next last goesOn
    · simp only [last, if_false]
      exact .reads k seen last

theorem setServer_others (pc : ServerPc) (q : Party ι) (other : q ≠ .server) :
    phase (s.setServer pc) q = phase s q := by
  cases q with
  | server => exact absurd rfl other
  | client j => rfl

/-- The server goes on in its `strcpy` up to the terminator of its line. -/
theorem serverPhase_copied (k : Nat) :
    serverPhase (.copied k) =
      if k < serverLine.length then .writing (k + 1) serverLine else .leaving := by
  unfold ServerPc.copied
  split <;> rfl

theorem serverPhase_printed (k : Nat) (seen : Text) (c : Char) :
    serverPhase (.printed k seen c) =
      if c = nul then .leaving else .reading (k + 1) (seen ++ [c]) := by
  unfold ServerPc.printed
  split <;> rfl

theorem locking_of_inside {pc : ServerPc} (inside : serverPhase pc ≠ .outside) : Locking pc := by
  cases pc <;> simp_all [Locking, serverPhase]

/-- The server's steps under the lock, where its own waits and posts find the
semaphore. -/
theorem serverStep_stepped (stepped : serverStep s = some t) (locking : Locking s.server)
    (stays : s.server ≠ .removingSem) {m : Nat} (sem : s.sem = .value m) :
    Stepped s t .server (serverEvents s) ∧ Locking t.server := by
  have old : phase s .server = serverPhase s.server := rfl
  unfold serverStep at stepped
  unfold serverEvents
  cases pc : s.server with
  | shmget => exact (pc ▸ locking).elim
  | semget => exact (pc ▸ locking).elim
  | setval => exact (pc ▸ locking).elim
  | waiting =>
    simp only [pc] at stepped old
    rcases wait_cases stepped with ⟨n, value, rfl⟩ | ⟨nothing, -⟩
    · exact ⟨stepped_enters value rfl rfl (setServer_others _) old rfl
        (Or.inr ⟨serverLine, rfl⟩), trivial⟩
    · exact absurd sem (nothing m)
  | copying k =>
    simp only [pc] at stepped old
    cases stepped
    refine ⟨stepped_copies rfl rfl (setServer_others _) old (serverPhase_copied k),
      locking_of_inside ?_⟩
    rw [State.setServer, serverPhase_copied]
    split <;> exact nofun
  | posting =>
    simp only [pc] at stepped old
    cases stepped
    rcases post_cases s (·.setServer .waitingAgain) (·.setServer .failed) with
      ⟨n, value, posted⟩ | ⟨nothing, -⟩
    · rw [posted]
      exact ⟨stepped_leaves value rfl rfl (setServer_others _) old rfl, trivial⟩
    · exact absurd sem (nothing m)
  | waitingAgain =>
    simp only [pc] at stepped old
    rcases wait_cases stepped with ⟨n, value, rfl⟩ | ⟨nothing, -⟩
    · exact ⟨stepped_enters value rfl rfl (setServer_others _) old rfl (Or.inl rfl), trivial⟩
    · exact absurd sem (nothing m)
  | printing k seen =>
    simp only [pc] at stepped old
    cases stepped
    refine ⟨stepped_prints rfl rfl (setServer_others _) old (serverPhase_printed k seen _)
      (Or.inl rfl), locking_of_inside ?_⟩
    rw [State.setServer, serverPhase_printed]
    split <;> exact nofun
  | postingAgain =>
    simp only [pc] at stepped old
    cases stepped
    rcases post_cases s (·.setServer .removingSem) (·.setServer .failed) with
      ⟨n, value, posted⟩ | ⟨nothing, -⟩
    · rw [posted]
      exact ⟨stepped_leaves value rfl rfl (setServer_others _) old rfl, trivial⟩
    · exact absurd sem (nothing m)
  | removingSem => exact absurd pc stays
  | removingShm => exact (pc ▸ locking).elim
  | returned => exact (pc ▸ locking).elim
  | failed => exact (pc ▸ locking).elim

/-- A step of the server before it is at the text or behind it. -/
theorem setServer_aside {u : State ι} (pc : ServerPc) (clients : u.client = s.client)
    (was : serverPhase s.server = .outside) (now : serverPhase pc = .outside) (q : Party ι) :
    phase (u.setServer pc) q = phase s q := by
  cases q with
  | server => exact now.trans was.symm
  | client i =>
    show clientPhase (u.client i) = clientPhase (s.client i)
    rw [clients]

theorem inside_aside (phases : ∀ q, phase t q = phase s q) (q : Party ι) :
    Inside t q ↔ Inside s q := by
  unfold Inside
  rw [phases]

/-- What has been written last, if anything. -/
def Known (text : Text) : Prop := text = [] ∨ text = serverLine ∨ text = clientLine

structure Orderly (log : List (Event (Party ι))) (s : State ι) : Prop where
  guarded : Guarded s
  whole : Whole [] log s.shm (phase s)
  known : Known (lastText [] log)

theorem Known.length_le {text : Text} (known : Known text) : text.length ≤ 7 := by
  rcases known with rfl | rfl | rfl <;> decide

theorem line_of_writing {k : Nat} {line : Text} (writing : phase s p = .writing k line) :
    line = serverLine ∨ line = clientLine := by
  cases p with
  | server =>
    cases pc : s.server <;> simp [phase, serverPhase, pc] at writing
    exact Or.inl writing.2.symm
  | client i =>
    cases pc : s.client i <;> simp [phase, clientPhase, pc] at writing
    exact Or.inr writing.2.symm

theorem noNul_of_writing {k : Nat} {line : Text} (writing : phase s p = .writing k line) :
    nul ∉ line := by
  rcases line_of_writing writing with rfl | rfl <;> decide

/-- A step of a process that is at the text, comes to it or leaves it. -/
theorem Orderly.turn {log events : List (Event (Party ι))} (orderly : Orderly log s)
    (guarded : Guarded t) (stepped : Stepped s t p events) : Orderly (log ++ events) t := by
  refine ⟨guarded, ?_, ?_⟩
  · refine orderly.whole.turn stepped.turn stepped.others (fun there q other => ?_)
      fun k line writing => noNul_of_writing writing
    refine Classical.byContradiction fun inside => there ⟨?_, ?_⟩
    · exact Classical.byContradiction fun own => other (orderly.guarded.alone inside own)
    · refine Classical.byContradiction fun own => other (guarded.alone (p := q) ?_ own)
      unfold Inside
      rwa [stepped.others q other]
  · rw [lastText_append]
    have turn := stepped.turn
    generalize start : phase s p = before at turn
    generalize phase t p = after at turn
    generalize t.shm = memory at turn
    cases turn with
    | hasWritten k line => exact Or.inr (line_of_writing start)
    | _ => exact orderly.known

theorem Orderly.aside {log : List (Event (Party ι))} (orderly : Orderly log s)
    (guarded : Guarded t) (shm : t.shm = s.shm) (phases : ∀ q, phase t q = phase s q) :
    Orderly (log ++ []) t := by
  have same : phase t = phase s := funext phases
  refine ⟨guarded, ?_, by rw [List.append_nil]; exact orderly.known⟩
  rw [List.append_nil, shm, same]
  exact orderly.whole

/-- Any step of the server. It makes the semaphore, sets it and removes it; in between
it is a party like the others. -/
theorem orderly_server {log : List (Event (Party ι))} (orderly : Orderly log s)
    (stepped : serverStep s = some t) : Orderly (log ++ serverEvents s) t := by
  cases orderly.guarded with
  | before pc sem nobody =>
    rcases pc with pc | pc
    · have none : serverEvents s = [] := by simp [serverEvents, pc]
      obtain rfl : { s with named := true }.setServer .semget = t := by
        simpa [serverStep, pc] using stepped
      have phases := setServer_aside (s := s) (u := { s with named := true }) .semget rfl
        (by rw [pc]; rfl) rfl
      rw [none]
      exact orderly.aside (.before (Or.inr rfl) sem fun q =>
        (inside_aside phases q).not.mpr (nobody q)) rfl phases
    · have none : serverEvents s = [] := by simp [serverEvents, pc]
      obtain rfl : { s with sem := .value 0 }.setServer .setval = t := by
        simpa [serverStep, pc] using stepped
      have phases := setServer_aside (s := s) (u := { s with sem := .value 0 }) .setval rfl
        (by rw [pc]; rfl) rfl
      rw [none]
      exact orderly.aside (.zero rfl rfl fun q => (inside_aside phases q).not.mpr (nobody q)) rfl
        phases
  | zero pc sem nobody =>
    have none : serverEvents s = [] := by simp [serverEvents, pc]
    obtain rfl : { s with sem := .value 1 }.setServer .waiting = t := by
      simpa [serverStep, pc] using stepped
    have phases := setServer_aside (s := s) (u := { s with sem := .value 1 }) .waiting rfl
      (by rw [pc]; rfl) rfl
    rw [none]
    exact orderly.aside (.locked 1 trivial rfl (.free rfl fun q =>
      (inside_aside phases q).not.mpr (nobody q))) rfl phases
  | locked n pc sem exclusive =>
    by_cases removes : s.server = .removingSem
    · have none : serverEvents s = [] := by simp [serverEvents, removes]
      obtain rfl : { s with sem := .removed }.setServer .removingShm = t := by
        simpa [serverStep, removes] using stepped
      have phases := setServer_aside (s := s) (u := { s with sem := .removed }) .removingShm
        rfl (by rw [removes]; rfl) rfl
      rw [none]
      refine orderly.aside (.after (Or.inl rfl) rfl fun q r one other => ?_) rfl phases
      exact exclusive.unique ((inside_aside phases q).mp one) ((inside_aside phases r).mp other)
    · obtain ⟨goes, locking⟩ := serverStep_stepped stepped pc removes sem
      exact orderly.turn (orderly.guarded.effect goes.effect goes.others (Or.inr ⟨pc, locking⟩))
        goes
  | after pc sem one =>
    rcases pc with pc | pc
    · have none : serverEvents s = [] := by simp [serverEvents, pc]
      obtain rfl : { s with named := false }.setServer .returned = t := by
        simpa [serverStep, pc] using stepped
      have phases := setServer_aside (s := s) (u := { s with named := false }) .returned rfl
        (by rw [pc]; rfl) rfl
      rw [none]
      refine orderly.aside (.after (Or.inr rfl) sem fun q r first second => ?_) rfl phases
      exact one q r ((inside_aside phases q).mp first) ((inside_aside phases r).mp second)
    · simp [serverStep, pc] at stepped

theorem orderly_initial : Orderly [] (initial : State ι) :=
  ⟨guarded_initial, whole_initial rfl rfl fun p => by cases p <;> rfl, Or.inl rfl⟩

variable [DecidableEq ι]

theorem setClient_phase (pc : ClientPc) :
    phase (s.setClient i pc) (.client i) = clientPhase pc := by
  show clientPhase (Function.update s.client i pc i) = _
  rw [Function.update_self]

theorem setClient_others (pc : ClientPc) (q : Party ι) (other : q ≠ .client i) :
    phase (s.setClient i pc) q = phase s q := by
  cases q with
  | server => rfl
  | client j =>
    show clientPhase (Function.update s.client i pc j) = _
    rw [Function.update_of_ne fun same => other (congrArg Party.client same)]
    rfl

/-- A client goes on in its `strcpy` up to the terminator of its line. -/
theorem clientPhase_copied (k : Nat) :
    clientPhase (.copied k) =
      if k < clientLine.length then .writing (k + 1) clientLine else .leaving := by
  unfold ClientPc.copied
  split <;> rfl

theorem clientPhase_printed (k : Nat) (seen : Text) (c : Char) :
    clientPhase (.printed k seen c) =
      if c = nul then .writing 0 clientLine else .reading (k + 1) (seen ++ [c]) := by
  unfold ClientPc.printed
  split <;> rfl

/-- A client that goes on with nothing to do with the text. -/
theorem stepped_apart {pc : ClientPc} (was : clientPhase (s.client i) = .outside)
    (now : clientPhase pc = .outside) : Stepped s (s.setClient i pc) (.client i) [] := by
  have before : phase s (.client i) = .outside := was
  have after : phase (s.setClient i pc) (.client i) = .outside := (setClient_phase pc).trans now
  refine ⟨.stays rfl ?_, setClient_others pc, ?_⟩
  · unfold Inside
    rw [before, after]
  · rw [before, after]
    exact .stays _

/-- Any step of a client. It may come to a semaphore that is not there yet or no longer;
then it fails without having been at the text. -/
theorem clientStep_stepped (stepped : clientStep s i = some t) :
    Stepped s t (.client i) (clientEvents s i) ∧ t.server = s.server := by
  have old : phase s (.client i) = clientPhase (s.client i) := rfl
  unfold clientStep at stepped
  unfold clientEvents
  cases pc : s.client i with
  | absent => simp [pc] at stepped
  | shmget =>
    simp only [pc] at stepped
    cases stepped
    refine ⟨stepped_apart (by rw [pc]; rfl) ?_, rfl⟩
    split <;> rfl
  | semget =>
    simp only [pc] at stepped
    split at stepped <;> cases stepped <;> exact ⟨stepped_apart (by rw [pc]; rfl) rfl, rfl⟩
  | waiting =>
    simp only [pc] at stepped old
    rcases wait_cases stepped with ⟨n, value, rfl⟩ | ⟨-, rfl⟩
    · exact ⟨stepped_enters value rfl rfl (setClient_others _) old (setClient_phase _)
        (Or.inl rfl), rfl⟩
    · exact ⟨stepped_apart (by rw [pc]; rfl) rfl, rfl⟩
  | printing k seen =>
    simp only [pc] at stepped old
    cases stepped
    exact ⟨stepped_prints rfl rfl (setClient_others _) old
      ((setClient_phase _).trans (clientPhase_printed k seen _)) (Or.inr ⟨clientLine, rfl⟩), rfl⟩
  | copying k =>
    simp only [pc] at stepped old
    cases stepped
    exact ⟨stepped_copies rfl rfl (setClient_others _) old
      ((setClient_phase _).trans (clientPhase_copied k)), rfl⟩
  | posting =>
    simp only [pc] at stepped old
    cases stepped
    rcases post_cases s (·.setClient i .returned) (·.setClient i .failed) with
      ⟨n, value, posted⟩ | ⟨nothing, failed⟩
    · rw [posted]
      exact ⟨stepped_leaves value rfl rfl (setClient_others _) old (setClient_phase _), rfl⟩
    · rw [failed]
      exact ⟨stepped_fails nothing rfl rfl (setClient_others _) old (setClient_phase _), rfl⟩
  | returned => simp [pc] at stepped
  | failed => simp [pc] at stepped

theorem orderly_step {log : List (Event (Party ι))} {a : Action ι} (orderly : Orderly log s)
    (stepped : demo.step s a = some t) : Orderly (log ++ demo.emit s a) t := by
  cases a with
  | server => exact orderly_server orderly stepped
  | start i =>
    have started : startStep s i = some t := stepped
    unfold startStep at started
    split at started
    · next absent =>
      cases started
      have goes : Stepped s (s.setClient i .shmget) (.client i) [] :=
        stepped_apart (by rw [absent]; rfl) rfl
      exact orderly.turn (orderly.guarded.effect goes.effect goes.others (Or.inl rfl)) goes
    · cases started
  | client i =>
    obtain ⟨goes, server⟩ := clientStep_stepped stepped
    exact orderly.turn (orderly.guarded.effect goes.effect goes.others (Or.inl server)) goes

theorem orderly_of_reach {log : List (Event (Party ι))}
    (run : demo.Reach System.Anything initial log s) : Orderly log s :=
  run.invariant Orderly orderly_initial fun _ _ _ _ orderly _ stepped =>
    orderly_step orderly stepped

/-- In every order of the steps: one process at most is between its wait and its
post, nobody goes beyond the segment, and each text printed is the whole of the
text copied last, or empty before the first. -/
theorem texts_serial {log : List (Event (Party ι))}
    (run : demo.Reach System.Anything initial log s) :
    Serial [] log ∧ (∀ p q, Inside s p → Inside s q → p = q) ∧
      ∀ p k, Touches s p k → k < shmSize := by
  have orderly := orderly_of_reach run
  refine ⟨orderly.whole.serial, fun p q one other => orderly.guarded.alone one other, ?_⟩
  rintro p k (⟨seen, reading⟩ | ⟨line, writing⟩)
  · obtain ⟨bound, -⟩ := orderly.whole.reading p k seen reading
    have short := orderly.known.length_le
    unfold shmSize
    omega
  · obtain ⟨-, bound, -⟩ := orderly.whole.writing p k line writing
    have short : line.length ≤ 7 := by
      rcases line_of_writing writing with rfl | rfl <;> decide
    unfold shmSize
    omega

/-- The server copies its line, and a client prints it. -/
def greeting : List (Action Nat) :=
  List.replicate 4 .server ++ [.start 0, .client 0, .client 0] ++ List.replicate 9 .server ++
    List.replicate 9 (.client 0)

theorem texts_serial_greeting :
    ∃ log s, demo.Reach System.Anything (initial : State Nat) log s ∧
      log = [.wrote .server serverLine, .read (.client 0) serverLine] ∧ Serial [] log := by
  obtain ⟨log, s, run, shown⟩ :=
    System.exists_reach demo System.Anything (initial : State Nat) greeting
      (fun log _ => log = [.wrote .server serverLine, .read (.client 0) serverLine]) (by decide)
  exact ⟨log, s, run, shown, (texts_serial run).1⟩

/-- A process that has been started and has not ended. -/
def Going (s : State ι) : Party ι → Prop
  | .server => s.server ≠ .returned
  | .client i => s.client i ≠ .absent ∧ s.client i ≠ .returned ∧ s.client i ≠ .failed

/-- Some process that has been started can take a step. -/
def Moves (s : State ι) : Prop :=
  (∃ t, demo.step s .server = some t) ∨ ∃ i t, demo.step s (.client i) = some t

/-- A process at the text can go on. -/
theorem inside_moves (inside : Inside s p) : Moves s := by
  cases p with
  | server =>
    refine Or.inl ?_
    show ∃ t, serverStep s = some t
    cases pc : s.server with
    | copying k => simp [serverStep, pc]
    | posting => simp [serverStep, pc]
    | printing k seen => simp [serverStep, pc]
    | postingAgain => simp [serverStep, pc]
    | _ => exact absurd (by simp [phase, pc, serverPhase]) inside
  | client i =>
    refine Or.inr ⟨i, ?_⟩
    show ∃ t, clientStep s i = some t
    cases pc : s.client i with
    | printing k seen => simp [clientStep, pc]
    | copying k => simp [clientStep, pc]
    | posting => simp [clientStep, pc]
    | _ => exact absurd (by simp [phase, pc, clientPhase]) inside

/-- A client outside waits for nothing but a permit. -/
theorem client_moves (going : Going s (.client i)) (outside : ¬ Inside s (.client i))
    (permit : s.sem ≠ .value 0) : ∃ t, demo.step s (.client i) = some t := by
  obtain ⟨started, running, notFailed⟩ := going
  show ∃ t, clientStep s i = some t
  cases pc : s.client i with
  | absent => exact absurd pc started
  | shmget => simp [clientStep, pc]
  | semget => cases sem : s.sem <;> simp [clientStep, pc, sem]
  | waiting =>
    cases sem : s.sem with
    | value n =>
      cases n with
      | zero => exact absurd sem permit
      | succ n => simp [clientStep, pc, State.wait, sem]
    | _ => simp [clientStep, pc, State.wait, sem]
  | returned => exact absurd pc running
  | failed => exact absurd pc notFailed
  | _ => exact absurd (by simp [Inside, phase, pc, clientPhase]) outside

/-- As long as a process that has been started has not ended, one of them can go
on: nobody is left in `semop`, also when the semaphore is removed. -/
theorem nobody_stuck {log : List (Event (Party ι))}
    (run : demo.Reach System.Anything initial log s) (going : Going s p) : Moves s := by
  have guarded := (orderly_of_reach run).guarded
  by_cases somebody : ∃ q, Inside s q
  · obtain ⟨q, inside⟩ := somebody
    exact inside_moves inside
  · have outside (q : Party ι) : ¬ Inside s q := fun inside => somebody ⟨q, inside⟩
    cases guarded with
    | before pc sem _ =>
      refine Or.inl ?_
      show ∃ t, serverStep s = some t
      rcases pc with pc | pc <;> simp [serverStep, pc]
    | zero pc sem _ =>
      refine Or.inl ?_
      show ∃ t, serverStep s = some t
      simp [serverStep, pc]
    | locked n pc sem exclusive =>
      -- Nobody has the permit, so it is there.
      have one : n = 1 := by
        cases exclusive with
        | free one _ => exact one
        | held _ holder inside _ => exact absurd inside (outside holder)
      subst one
      cases p with
      | server =>
        refine Or.inl ?_
        show ∃ t, serverStep s = some t
        rcases locking_outside pc (not_not.mp (outside .server)) with at_pc | at_pc | at_pc
        · simp [serverStep, at_pc, State.wait, sem]
        · simp [serverStep, at_pc, State.wait, sem]
        · simp [serverStep, at_pc]
      | client i => exact Or.inr ⟨i, client_moves going (outside _) (by simp [sem])⟩
    | after pc sem _ =>
      cases p with
      | server =>
        refine Or.inl ?_
        show ∃ t, serverStep s = some t
        rcases pc with pc | pc
        · simp [serverStep, pc]
        · exact absurd pc going
      | client i => exact Or.inr ⟨i, client_moves going (outside _) (by simp [sem])⟩

/-- A client waits while the server has the permit. -/
theorem nobody_stuck_waiting :
    ∃ log s, demo.Reach System.Anything (initial : State Nat) log s ∧ s.sem = .value 0 ∧
      s.client 0 = .waiting ∧ Moves s := by
  obtain ⟨log, s, run, none, waits⟩ :=
    System.exists_reach demo System.Anything (initial : State Nat) (greeting.take 7)
      (fun _ s => s.sem = .value 0 ∧ s.client 0 = .waiting) (by decide)
  exact ⟨log, s, run, none, waits, nobody_stuck (p := .client 0) run ⟨by simp [waits],
    by simp [waits],
    by simp [waits]⟩⟩

end EltexCourse.Guarantees.DemoShm.SerialTexts
