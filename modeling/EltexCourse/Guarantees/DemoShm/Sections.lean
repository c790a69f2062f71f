import EltexCourse.Foundations.Semaphore
import EltexCourse.Source.DemoShm.Processes

/-!
# task14/POSIX: who is at the shared text

The semaphore is created with a permit, so the server's first post makes two of
them, until the server takes one for good. As long as nobody makes use of the
second one, nobody enters while the server is at the text, and the server goes
to the text when nobody else is there, the permits are those of a lock.
-/

set_option autoImplicit false

namespace EltexCourse.Guarantees.DemoShm.Sections
open Foundations.Transition Foundations.Semaphore Source.DemoShm

inductive Party (ι : Type) where
  | server
  | client (i : ι)

/-- From the start of `strcpy` to `sem_post`, and the print behind `sem_wait`. -/
def ServerPc.AtText (pc : ServerPc) : Prop := pc = .copying ∨ pc = .posting ∨ pc = .printing

/-- From `sem_wait` to `sem_post`. -/
def ClientPc.AtText (pc : ClientPc) : Prop := pc = .printing ∨ pc = .copying ∨ pc = .posting

variable {ι : Type}

def InSection (s : State ι) : Party ι → Prop
  | .server => ServerPc.AtText s.server
  | .client i => ClientPc.AtText (s.client i)

def OneInSection (s : State ι) : Prop := ∀ p q, InSection s p → InSection s q → p = q

/-- The server goes to the text when nobody has the permit; no client gets one
while the server is there; and between the server's post and its wait a permit
is taken when both are there. -/
def Balanced (s : State ι) : Action ι → Prop
  | .server => (s.server = .announcing → s.sem = 1) ∧ (s.server = .sleeping → s.sem = 2)
  | .client i => s.client i = .waiting →
      ¬ ServerPc.AtText s.server ∧ (s.server = .sleeping → s.sem = 2)
  | .start _ => True

instance (pc : ServerPc) : Decidable (ServerPc.AtText pc) :=
  inferInstanceAs (Decidable (_ ∨ _ ∨ _))

instance (s : State ι) : ∀ a, Decidable (Balanced s a)
  | .server => inferInstanceAs (Decidable ((_ → _) ∧ (_ → _)))
  | .client i => inferInstanceAs (Decidable (s.client i = .waiting → ¬ _ ∧ (_ → _)))
  | .start _ => isTrue trivial

variable {s t : State ι} {a : Action ι} {i j : ι}

theorem OneInSection.apart (one : OneInSection s) (server : ServerPc.AtText s.server) :
    ¬ ClientPc.AtText (s.client i) := fun inside =>
  nomatch one .server (.client i) server inside

theorem OneInSection.same (one : OneInSection s) (inside : ClientPc.AtText (s.client i))
    (inside' : ClientPc.AtText (s.client j)) : i = j :=
  Party.client.inj (one (.client i) (.client j) inside inside')

/-- The permits besides that of a lock. -/
def spare (pc : ServerPc) : Nat := if pc = .sleeping then 1 else 0

structure Ordered (s : State ι) : Prop where
  alone : s.server = .opening → ∀ i, s.client i = .absent
  permits : s.server ≠ .opening →
    ∃ n, s.sem = n + spare s.server ∧ Exclusive n fun i => ClientPc.AtText (s.client i)
  server : ServerPc.AtText s.server → s.sem = 1

/-- Before anybody has started the semaphore does not exist and nobody is at the text.
-/
theorem ordered_initial : Ordered (initial : State ι) :=
  ⟨fun _ _ => rfl, fun created => absurd rfl created, fun atText => by
    rcases atText with pc | pc | pc <;> cases pc⟩

/-- Nobody is at the text while the lock's permit is there. -/
theorem Ordered.nobody (ordered : Ordered s) (created : s.server ≠ .opening)
    (free : s.sem = 1 + spare s.server) (i : ι) : ¬ ClientPc.AtText (s.client i) := by
  obtain ⟨n, permits, exclusive⟩ := ordered.permits created
  exact exclusive.nobody (by omega) i

/-- Somebody is there while it is not. -/
theorem Ordered.somebody (ordered : Ordered s) (created : s.server ≠ .opening)
    (taken : s.sem ≠ 1 + spare s.server) : ∃ i, ClientPc.AtText (s.client i) := by
  obtain ⟨n, permits, exclusive⟩ := ordered.permits created
  cases exclusive with
  | free one => omega
  | held _ holder inside => exact ⟨holder, inside⟩

/-- A semaphore that is right lets one process to the text at a time. -/
theorem Ordered.oneInSection (ordered : Ordered s) : OneInSection s := by
  have created : (∃ i, ClientPc.AtText (s.client i)) → s.server ≠ .opening := by
    rintro ⟨i, atText⟩ opening
    rw [ordered.alone opening i] at atText
    rcases atText with pc | pc | pc <;> cases pc
  have apart : ServerPc.AtText s.server → ∀ i, ¬ ClientPc.AtText (s.client i) := by
    intro atText i inside
    have one := ordered.server atText
    have none : spare s.server = 0 := by
      rcases atText with pc | pc | pc <;> rw [pc] <;> rfl
    exact ordered.nobody (created ⟨i, inside⟩) (by omega) i inside
  intro p q one other
  cases p with
  | server =>
    cases q with
    | server => rfl
    | client j => exact absurd other (apart one j)
  | client i =>
    cases q with
    | server => exact absurd one (apart other i)
    | client j =>
      obtain ⟨n, -, exclusive⟩ := ordered.permits (created ⟨i, one⟩)
      exact congrArg Party.client (exclusive.unique one other)

/-- A step of the server that leaves the semaphore as it is. -/
theorem Ordered.serverGoes (ordered : Ordered s) (named : Bool) {next : ServerPc}
    (created : s.server ≠ .opening) (goesOn : next ≠ .opening)
    (same : spare next = spare s.server) (atText : ServerPc.AtText next → s.sem = 1) :
    Ordered ({ s with named }.setServer next) := by
  refine ⟨fun opening => absurd opening goesOn, fun _ => ?_, atText⟩
  obtain ⟨n, permits, exclusive⟩ := ordered.permits created
  exact ⟨n, by rw [permits, ← same]; rfl, exclusive⟩

/-- The post puts the spare permit beside that of the lock. -/
theorem Ordered.serverPosts (ordered : Ordered s) (pc : s.server = .posting) :
    Ordered (s.post.setServer .sleeping) := by
  obtain ⟨n, permits, exclusive⟩ := ordered.permits (by simp [pc])
  rw [pc] at permits
  refine ⟨fun opening => (by cases opening), fun _ => ⟨n, congrArg (· + 1) permits, exclusive⟩, ?_⟩
  rintro (pc | pc | pc) <;> cases pc

/-- The server takes the spare one, and the lock's is there. -/
theorem Ordered.serverWaits (ordered : Ordered s) (pc : s.server = .sleeping) (two : s.sem = 2) :
    Ordered ({ s with sem := s.sem - 1 }.setServer .printing) := by
  obtain ⟨n, permits, exclusive⟩ := ordered.permits (by simp [pc])
  have one : n = 1 := by
    rw [pc, two] at permits
    exact (Nat.succ.inj permits).symm
  refine ⟨fun opening => (by cases opening), fun _ => ⟨n, ?_, exclusive⟩, fun _ => ?_⟩
  · show s.sem - 1 = n + 0
    omega
  · show s.sem - 1 = 1
    omega

theorem Ordered.created (ordered : Ordered s) (started : s.client i ≠ .absent) :
    s.server ≠ .opening := fun opening => started (ordered.alone opening i)

variable [DecidableEq ι]

def Enabled (s : State ι) (a : Action ι) : Prop := demo.step s a ≠ none

/-- What a step can do; a silent one moves a process that was at the text or was
not, and still is or is not. -/
inductive Move (s : State ι) : Action ι → State ι → Prop where
  | creates (pc : s.server = .opening) :
      Move s .server ({ s with sem := 1, named := true }.setServer .announcing)
  | copies (pc : s.server = .announcing) : Move s .server (s.setServer .copying)
  | goesOn (pc : s.server = .copying) : Move s .server (s.setServer .posting)
  | posts (pc : s.server = .posting) : Move s .server (s.post.setServer .sleeping)
  | waits (pc : s.server = .sleeping) (permit : 0 < s.sem) :
      Move s .server ({ s with sem := s.sem - 1 }.setServer .printing)
  | leaves (named : Bool) (next : ServerPc) (pc : s.server = .printing ∨ s.server = .closing)
      (ends : next = .closing ∨ next = .returned) :
      Move s .server ({ s with named }.setServer next)
  | starts (i : ι) (created : s.server ≠ .opening) (pc : s.client i = .absent) :
      Move s (.start i) (s.setClient i .opening)
  | clientWaits (i : ι) (pc : s.client i = .waiting) (permit : 0 < s.sem) :
      Move s (.client i) ({ s with sem := s.sem - 1 }.setClient i .printing)
  | clientGoes (i : ι) (next : ClientPc) (started : s.client i ≠ .absent)
      (notWaiting : s.client i ≠ .waiting)
      (same : ClientPc.AtText next ↔ ClientPc.AtText (s.client i)) :
      Move s (.client i) (s.setClient i next)
  | clientPosts (i : ι) (pc : s.client i = .posting) :
      Move s (.client i) (s.post.setClient i .returned)

theorem serverStep_move (stepped : serverStep s = some t) : Move s .server t := by
  unfold serverStep at stepped
  split at stepped
  · next pc =>
    cases stepped
    exact .creates pc
  · next pc =>
    cases stepped
    exact .copies pc
  · next pc =>
    cases stepped
    exact .goesOn pc
  · next pc =>
    cases stepped
    exact .posts pc
  · next pc =>
    obtain ⟨taken, waited, rfl⟩ := Option.map_eq_some_iff.mp stepped
    unfold State.wait at waited
    split at waited
    · next permit =>
      cases waited
      exact .waits pc permit
    · cases waited
  · next pc =>
    cases stepped
    exact .leaves s.named .closing (Or.inl pc) (Or.inl rfl)
  · next pc =>
    cases stepped
    exact .leaves false .returned (Or.inr pc) (Or.inr rfl)
  · cases stepped

theorem clientStep_move (stepped : clientStep s i = some t) : Move s (.client i) t := by
  unfold clientStep at stepped
  split at stepped
  · cases stepped
  · next pc =>
    cases stepped
    refine .clientGoes i _ (by simp [pc]) (by simp [pc]) (iff_of_false ?_ ?_)
    · split <;> simp [ClientPc.AtText]
    · simp [ClientPc.AtText, pc]
  · next pc =>
    obtain ⟨taken, waited, rfl⟩ := Option.map_eq_some_iff.mp stepped
    unfold State.wait at waited
    split at waited
    · next permit =>
      cases waited
      exact .clientWaits i pc permit
    · cases waited
  · next pc =>
    cases stepped
    exact .clientGoes i .copying (by simp [pc]) (by simp [pc])
      (iff_of_true (by simp [ClientPc.AtText]) (by simp [ClientPc.AtText, pc]))
  · next pc =>
    cases stepped
    exact .clientGoes i .posting (by simp [pc]) (by simp [pc])
      (iff_of_true (by simp [ClientPc.AtText]) (by simp [ClientPc.AtText, pc]))
  · next pc =>
    cases stepped
    exact .clientPosts i pc
  · cases stepped

theorem step_move (stepped : demo.step s a = some t) : Move s a t := by
  cases a with
  | server => exact serverStep_move stepped
  | start i =>
    have started : startStep s i = some t := stepped
    unfold startStep at started
    split at started
    · next may =>
      cases started
      exact .starts i may.1 may.2
    · cases started
  | client i => exact clientStep_move stepped

theorem setClient_self (pc : ClientPc) : (s.setClient i pc).client i = pc := Function.update_self ..

theorem setClient_ne (pc : ClientPc) (other : j ≠ i) : (s.setClient i pc).client j = s.client j :=
  Function.update_of_ne other ..

/-- A step of a client that leaves the semaphore as it is. -/
theorem Ordered.clientGoes (ordered : Ordered s) (created : s.server ≠ .opening) {next : ClientPc}
    (same : ClientPc.AtText next ↔ ClientPc.AtText (s.client i)) :
    Ordered (s.setClient i next) := by
  refine ⟨fun opening => absurd opening created, fun _ => ?_, ordered.server⟩
  obtain ⟨n, permits, exclusive⟩ := ordered.permits created
  refine ⟨n, permits, exclusive.congr fun j => ?_⟩
  by_cases own : j = i
  · rw [own, setClient_self]
    exact same
  · rw [setClient_ne next own]

/-- A client takes the permit of the lock. -/
theorem Ordered.clientWaits (ordered : Ordered s) (pc : s.client i = .waiting) (permit : 0 < s.sem)
    (away : ¬ ServerPc.AtText s.server) (two : s.server = .sleeping → s.sem = 2) :
    Ordered ({ s with sem := s.sem - 1 }.setClient i .printing) := by
  have created := ordered.created (i := i) (by simp [pc])
  obtain ⟨n, permits, exclusive⟩ := ordered.permits created
  have free : 0 < n := by
    unfold spare at permits
    split at permits
    · next sleeping =>
      have both := two sleeping
      omega
    · omega
  refine ⟨fun opening => absurd opening created, fun _ => ⟨n - 1, ?_, ?_⟩,
    fun atText => absurd atText away⟩
  · show s.sem - 1 = n - 1 + spare s.server
    omega
  · refine exclusive.acquire free (i := i) ?_ fun j other => ?_
    · rw [setClient_self]
      exact Or.inl rfl
    · rw [setClient_ne _ other]

/-- It puts it back. -/
theorem Ordered.clientPosts (ordered : Ordered s) (pc : s.client i = .posting) :
    Ordered (s.post.setClient i .returned) := by
  have inside : ClientPc.AtText (s.client i) := Or.inr (Or.inr pc)
  have created := ordered.created (i := i) (by simp [pc])
  obtain ⟨n, permits, exclusive⟩ := ordered.permits created
  refine ⟨fun opening => absurd opening created, fun _ => ⟨n + 1, ?_, ?_⟩, fun atText => ?_⟩
  · show s.sem + 1 = n + 1 + spare s.server
    omega
  · refine exclusive.release (i := i) inside ?_ fun j other => ?_
    · rw [setClient_self]
      simp [ClientPc.AtText]
    · rw [setClient_ne _ other]
      rfl
  · exact absurd inside (ordered.oneInSection.apart atText)

theorem Ordered.kept (ordered : Ordered s) (move : Move s a t) (balanced : Balanced s a) :
    Ordered t := by
  cases move with
  | creates pc =>
    refine ⟨fun opening => (by cases opening), fun _ => ⟨1, rfl, .free rfl fun i inside => ?_⟩, ?_⟩
    · have inside : ClientPc.AtText (s.client i) := inside
      rw [ordered.alone pc i] at inside
      rcases inside with pc | pc | pc <;> cases pc
    · exact fun _ => rfl
  | copies pc =>
    exact ordered.serverGoes s.named (by simp [pc]) (by simp) (by rw [pc]; rfl)
      fun _ => balanced.1 pc
  | goesOn pc =>
    exact ordered.serverGoes s.named (by simp [pc]) (by simp) (by rw [pc]; rfl)
      fun _ => ordered.server (Or.inl pc)
  | posts pc => exact ordered.serverPosts pc
  | waits pc permit => exact ordered.serverWaits pc (balanced.2 pc)
  | leaves named next pc ends =>
    refine ordered.serverGoes named ?_ ?_ ?_ ?_
    · rcases pc with pc | pc <;> simp [pc]
    · rcases ends with rfl | rfl <;> simp
    · rcases pc with pc | pc <;> rcases ends with rfl | rfl <;> rw [pc] <;> rfl
    · rcases ends with rfl | rfl <;> rintro (pc | pc | pc) <;> cases pc
  | starts i created pc =>
    refine ordered.clientGoes created (iff_of_false ?_ ?_)
    · simp [ClientPc.AtText]
    · simp [ClientPc.AtText, pc]
  | clientWaits i pc permit =>
    obtain ⟨away, two⟩ := balanced pc
    exact ordered.clientWaits pc permit away two
  | clientGoes i next started notWaiting same =>
    exact ordered.clientGoes (ordered.created started) same
  | clientPosts i pc => exact ordered.clientPosts pc

theorem Ordered.balanced (ordered : Ordered s) (move : Move s a t) (one : OneInSection t) :
    Balanced s a := by
  cases move with
  | creates pc => exact ⟨fun pc' => by simp [pc] at pc', fun pc' => by simp [pc] at pc'⟩
  | copies pc =>
    refine ⟨fun _ => Classical.byContradiction fun taken => ?_, fun pc' => by simp [pc] at pc'⟩
    obtain ⟨i, inside⟩ := ordered.somebody (by simp [pc]) (by rw [pc]; exact taken)
    exact one.apart (Or.inl rfl) inside
  | goesOn pc => exact ⟨fun pc' => by simp [pc] at pc', fun pc' => by simp [pc] at pc'⟩
  | posts pc => exact ⟨fun pc' => by simp [pc] at pc', fun pc' => by simp [pc] at pc'⟩
  | waits pc permit =>
    refine ⟨fun pc' => by simp [pc] at pc', fun _ => Classical.byContradiction fun taken => ?_⟩
    obtain ⟨i, inside⟩ := ordered.somebody (by simp [pc]) (by rw [pc]; exact taken)
    exact one.apart (Or.inr (Or.inr rfl)) inside
  | leaves named next pc ends =>
    rcases pc with pc | pc <;>
      exact ⟨fun pc' => by simp [pc] at pc', fun pc' => by simp [pc] at pc'⟩
  | starts i created pc => trivial
  | clientWaits i pc permit =>
    have entered :
      ClientPc.AtText (({ s with sem := s.sem - 1 }.setClient i .printing).client i) := by
      rw [setClient_self]
      exact Or.inl rfl
    refine fun _ => ⟨fun server => one.apart server entered, fun sleeping => ?_⟩
    refine Classical.byContradiction fun taken => ?_
    obtain ⟨j, inside⟩ := ordered.somebody (by simp [sleeping]) (by rw [sleeping]; exact taken)
    have other : j ≠ i := by
      rintro rfl
      rcases inside with pc' | pc' | pc' <;> simp [pc] at pc'
    refine other (one.same ?_ entered)
    rw [setClient_ne _ other]
    exact inside
  | clientGoes i next started notWaiting same => exact fun pc => absurd pc notWaiting
  | clientPosts i pc => exact fun pc' => by simp [pc] at pc'

/-- Along a schedule, one process at most is at the text in every state exactly
if every step is balanced. -/
theorem one_in_section (schedule : List (Action ι)) (taken : demo.Meets Enabled initial schedule) :
    demo.Keeps (fun _ s => OneInSection s) [] initial schedule ↔
      demo.Meets Balanced initial schedule := by
  refine System.keeps_iff (fun _ s => Ordered s) (fun _ s ordered => ordered.oneInSection)
    (fun _ s a ordered enabled balanced => ?_)
    (fun _ s a t ordered _ unbalanced stepped one => ?_) ordered_initial taken
  · obtain ⟨t, stepped⟩ := Option.ne_none_iff_exists'.mp enabled
    exact ⟨t, stepped, ordered.kept (step_move stepped) balanced⟩
  · exact unbalanced (ordered.balanced (step_move stepped) one)

/-- A client comes and goes while the server sleeps. -/
def visit : List (Action Nat) :=
  [.server, .server, .server, .server, .start 0, .client 0, .client 0, .client 0, .client 0,
    .client 0, .server]

theorem one_in_section_visit : demo.Keeps (fun _ s => OneInSection s) [] initial visit := by
  refine (one_in_section visit ?_).mpr ?_
  · repeat' refine .cons rfl (Option.some_ne_none _) ?_
    exact trivial
  · repeat' refine .cons rfl (by decide) ?_
    exact trivial

/-- The two permits let two clients in. -/
theorem one_in_section_two : ∃ log s, demo.Reach System.Anything (initial : State Nat) log s ∧
    InSection s (.client 0) ∧ InSection s (.client 1) ∧ ¬ OneInSection s := by
  obtain ⟨log, s, run, inside, inside'⟩ := System.exists_reach demo System.Anything initial
    [.server, .server, .server, .server, .start 0, .start 1, .client 0, .client 1, .client 0,
      .client 1] (fun _ s => s.client 0 = .printing ∧ s.client 1 = .printing) (by decide)
  refine ⟨log, s, run, Or.inl inside, Or.inl inside', fun one => ?_⟩
  exact absurd (one.same (Or.inl inside) (Or.inl inside')) (by decide)

end EltexCourse.Guarantees.DemoShm.Sections
