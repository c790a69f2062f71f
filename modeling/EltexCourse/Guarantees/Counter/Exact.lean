import Mathlib.Data.List.Nodup
import Mathlib.Data.Nat.Cast.Basic
import Mathlib.Data.Fintype.Basic
import Mathlib.Algebra.Order.Ring.Int
import EltexCourse.Foundations.Semaphore
import EltexCourse.Source.Counter.Threads

/-!
# task11.2 counts to the limit, once

The lock excludes, so what a thread has read of `num` is still there when it
writes, and what the test has told it is still true. Hence `num` goes through
1, 2, … and no thread can step over the limit, which is why the test for
equality is as good as the other one.
-/

set_option autoImplicit false

namespace EltexCourse.Guarantees.Counter.Exact
open Foundations.Transition Foundations.Decimal Foundations.Semaphore Source.Counter

variable {T : Nat} {version : Version} {limit : Limit} {s t : State T} {i j : Fin T}
  {log events : List Event}

/-- The steps of a thread. -/
inductive ThreadMove (version : Version) (limit : Limit) (s : State T) (i : Fin T) :
    State T → List Event → Prop where
  | locks (free : 0 < s.lock) (pc : s.thread i = .locking) :
      ThreadMove version limit s i ({ s with lock := s.lock - 1 }.setThread i .testing) []
  | goesOn (below : version.stops s.num limit.value = false) (pc : s.thread i = .testing) :
      ThreadMove version limit s i (s.setThread i .reading) []
  | stops (done : version.stops s.num limit.value = true) (pc : s.thread i = .testing) :
      ThreadMove version limit s i (s.setThread i .leaving) []
  | reads (pc : s.thread i = .reading) :
      ThreadMove version limit s i (s.setThread i (.writing s.num)) []
  | writes (read : Int) (pc : s.thread i = .writing read) :
      ThreadMove version limit s i ({ s with num := read + 1 }.setThread i version.afterWrite)
        [.stored (read + 1)]
  | prints (pc : s.thread i = .printing) :
      ThreadMove version limit s i (s.setThread i .unlocking) [.line s.num]
  | unlocks (pc : s.thread i = .unlocking) :
      ThreadMove version limit s i (s.release.setThread i .locking) []
  | leaves (pc : s.thread i = .leaving) :
      ThreadMove version limit s i (s.release.setThread i .returned) []

/-- The steps of `main`. -/
inductive MainMove (s : State T) : State T → List Event → Prop where
  | creates (i : Fin T) (pc : s.main = .creating i) :
      MainMove s { s.setThread i .locking with main := .creating (i + 1) } []
  | created (i : Nat) (all : T ≤ i) (pc : s.main = .creating i) :
      MainMove s { s with main := .joining 0 } []
  | joins (i : Fin T) (returned : s.thread i = .returned) (pc : s.main = .joining i) :
      MainMove s { s with main := .joining (i + 1) } []
  | prints (i : Nat) (all : T ≤ i) (pc : s.main = .joining i) :
      MainMove s { s with main := .returned } [.result s.num]

/-- Every step of a thread is one of the moves listed. -/
theorem threadWork_move (stepped : threadWork version limit s i = some t) :
    ThreadMove version limit s i t (emit s (.thread i)) := by
  unfold threadWork at stepped
  simp only [emit]
  split at stepped
  · cases stepped
  · next pc =>
    obtain ⟨locked, locks, rfl⟩ := Option.map_eq_some_iff.mp stepped
    unfold State.acquire at locks
    split at locks
    · next free =>
      cases locks
      rw [pc]
      exact .locks free pc
    · cases locks
  · next pc =>
    cases stepped
    rw [pc]
    split
    · next done => exact .stops done pc
    · next below => exact .goesOn (by simpa using below) pc
  · next pc =>
    cases stepped
    rw [pc]
    exact .reads pc
  · next read pc =>
    simp only [Option.bind_eq_bind, Option.bind_eq_some_iff, int_eq_some, Option.some.injEq]
      at stepped
    obtain ⟨num, ⟨rfl, -⟩, rfl⟩ := stepped
    rw [pc]
    exact .writes read pc
  · next pc =>
    cases stepped
    rw [pc]
    exact .prints pc
  · next pc =>
    cases stepped
    rw [pc]
    exact .unlocks pc
  · next pc =>
    cases stepped
    rw [pc]
    exact .leaves pc
  · cases stepped

theorem mainStep_move (stepped : mainStep s = some t) : MainMove s t (emit s .main) := by
  unfold mainStep at stepped
  simp only [emit]
  split at stepped
  · next i pc =>
    rw [pc]
    split at stepped
    · next inside =>
      cases stepped
      exact .creates ⟨i, inside⟩ pc
    · next outside =>
      cases stepped
      exact .created i (Nat.le_of_not_lt outside) pc
  · next i pc =>
    rw [pc]
    split at stepped
    · next inside =>
      split at stepped
      · next returned =>
        cases stepped
        simp only [if_pos inside]
        exact .joins ⟨i, inside⟩ returned pc
      · cases stepped
    · next outside =>
      cases stepped
      simp only [if_neg outside]
      exact .prints i (Nat.le_of_not_lt outside) pc
  · cases stepped

def Inside : ThreadPc → Prop
  | .absent | .locking | .returned => False
  | .testing | .reading | .writing _ | .printing | .unlocking | .leaving => True

def Locked (s : State T) : Prop := Exclusive s.lock fun i => Inside (s.thread i)

theorem afterWrite_inside (version : Version) : Inside version.afterWrite := by
  cases version <;> trivial

theorem setThread_thread {pc : ThreadPc} : (s.setThread i pc).thread i = pc :=
  Function.update_self ..

theorem setThread_ne {pc : ThreadPc} (other : j ≠ i) : (s.setThread i pc).thread j = s.thread j :=
  Function.update_of_ne other ..

/-- What holds of the new place and of the other threads holds of all. -/
theorem forall_setThread {pc : ThreadPc} {P : Fin T → ThreadPc → Prop} (new : P i pc)
    (old : ∀ k, k ≠ i → P k (s.thread k)) (k : Fin T) : P k ((s.setThread i pc).thread k) := by
  by_cases own : k = i
  · subst own
    rw [setThread_thread]
    exact new
  · rw [setThread_ne own]
    exact old k own

theorem ThreadMove.thread_ne (move : ThreadMove version limit s i t events) (other : j ≠ i) :
    t.thread j = s.thread j := by
  cases move <;> exact Function.update_of_ne other ..

theorem ThreadMove.main (move : ThreadMove version limit s i t events) : t.main = s.main := by
  cases move <;> rfl

/-- A move of one thread inside the lock, or of one outside. -/
theorem Locked.setThread {pc : ThreadPc} (locked : Locked s)
    (same : Inside pc ↔ Inside (s.thread i)) : Locked (s.setThread i pc) := by
  apply locked.congr
  exact forall_setThread (P := fun k pc => Inside pc ↔ Inside (s.thread k)) same fun _ _ => Iff.rfl

/-- The mutex is held by at most one thread, the one inside. -/
theorem ThreadMove.locked (move : ThreadMove version limit s i t events) (locked : Locked s) :
    Locked t := by
  have others : ∀ k, k ≠ i → (Inside (t.thread k) ↔ Inside (s.thread k)) :=
    fun k other => by rw [move.thread_ne other]
  cases move with
  | locks free pc =>
    refine Exclusive.acquire locked free (i := i) ?_ others
    rw [setThread_thread]
    trivial
  | goesOn below pc => exact locked.setThread (by rw [pc]; rfl)
  | stops done pc => exact locked.setThread (by rw [pc]; rfl)
  | reads pc => exact locked.setThread (by rw [pc]; rfl)
  | writes read pc =>
    apply Locked.setThread (s := { s with num := read + 1 }) locked
    simp only [pc]
    exact iff_of_true (afterWrite_inside version) trivial
  | prints pc => exact locked.setThread (by rw [pc]; rfl)
  | unlocks pc =>
    refine Exclusive.release locked (i := i) ?_ ?_ others
    · simp only [pc]
      trivial
    · rw [setThread_thread]
      exact not_false
  | leaves pc =>
    refine Exclusive.release locked (i := i) ?_ ?_ others
    · simp only [pc]
      trivial
    · rw [setThread_thread]
      exact not_false

def Knows (n num : Int) : ThreadPc → Prop
  | .reading => num < n
  | .writing read => read = num ∧ num < n
  | .leaving | .returned => num = n
  | .absent | .locking | .testing | .printing | .unlocking => True

/-- Below the limit both tests say the same. -/
theorem stops_iff {num n : Int} (high : num ≤ n) : version.stops num n = true ↔ num = n := by
  cases version with
  | mutex =>
    simp only [Version.stops, decide_eq_true_eq]
    omega
  | spinlock => simp only [Version.stops, decide_eq_true_eq]

theorem afterWrite_knows (version : Version) (n num : Int) : Knows n num version.afterWrite := by
  cases version <;> trivial

/-- What a thread outside the lock knows says that the counting is over. -/
theorem knows_outside {n num num' : Int} {pc : ThreadPc} (outside : ¬ Inside pc)
    (below : num < n) (knows : Knows n num pc) : Knows n num' pc := by
  cases pc with
  | absent | locking => trivial
  | returned =>
    have done : num = n := knows
    omega
  | testing | reading | writing _ | printing | unlocking | leaving => exact absurd trivial outside

def stores (log : List Event) : List Int :=
  log.filterMap fun
    | .stored value => some value
    | _ => none

def lines (log : List Event) : List Int :=
  log.filterMap fun
    | .line value => some value
    | _ => none

/-- 1, 2, …, n. -/
def upTo (n : Int) : List Int := (List.range' 1 n.toNat).map Nat.cast

theorem upTo_succ {n : Int} (nonneg : 0 ≤ n) : upTo (n + 1) = upTo n ++ [n + 1] := by
  have next : (n + 1).toNat = n.toNat + 1 := by omega
  rw [upTo, upTo, next, List.range'_concat, List.map_append, List.map_singleton]
  congr 2
  omega

theorem upTo_length {n : Int} (nonneg : 0 ≤ n) : ((upTo n).length : Int) = n := by
  rw [upTo, List.length_map, List.length_range']
  exact Int.toNat_of_nonneg nonneg

theorem mem_upTo {n v : Int} : v ∈ upTo n ↔ 1 ≤ v ∧ v ≤ n := by
  rw [upTo, List.mem_map]
  constructor
  · rintro ⟨k, inside, rfl⟩
    rw [List.mem_range'_1] at inside
    omega
  · rintro ⟨low, high⟩
    refine ⟨v.toNat, List.mem_range'_1.mpr ?_, Int.toNat_of_nonneg (by omega)⟩
    omega

theorem upTo_nodup (n : Int) : (upTo n).Nodup :=
  List.Nodup.map Nat.cast_injective (List.nodup_range' ..)

/-- Each of 1, 2, …, n is there once. -/
theorem upTo_count (n v : Int) : (upTo n).count v = if 1 ≤ v ∧ v ≤ n then 1 else 0 := by
  split
  · next inside => exact List.count_eq_one_of_mem (upTo_nodup n) (mem_upTo.mpr inside)
  · next outside => exact List.count_eq_zero_of_not_mem fun member => outside (mem_upTo.mp member)

theorem stores_append (log events : List Event) :
    stores (log ++ events) = stores log ++ stores events := List.filterMap_append ..

theorem lines_append (log events : List Event) :
    lines (log ++ events) = lines log ++ lines events := List.filterMap_append ..

/-- The counter and what has been made of it. -/
structure Counts (limit : Limit) (log : List Event) (s : State T) : Prop where
  low : 0 ≤ s.num
  high : s.num ≤ limit.value
  stores : stores log = upTo s.num
  knows : ∀ i, Knows limit.value s.num (s.thread i)

/-- `num` is not written. -/
theorem Counts.keep (counts : Counts limit log s) (quiet : Exact.stores events = [])
    (num : t.num = s.num) (knows : ∀ i, Knows limit.value s.num (t.thread i)) :
    Counts limit (log ++ events) t :=
  ⟨by rw [num]; exact counts.low, by rw [num]; exact counts.high,
    by rw [stores_append, quiet, List.append_nil, num]; exact counts.stores,
    by rw [num]; exact knows⟩

/-- What the other threads know of the number stays true when one moves outside. -/
theorem Counts.setThread {pc : ThreadPc} (counts : Counts limit log s)
    (knows : Knows limit.value s.num pc) (k : Fin T) :
    Knows limit.value s.num ((s.setThread i pc).thread k) :=
  forall_setThread (P := fun _ pc => Knows limit.value s.num pc) knows (fun k _ => counts.knows k) k

/-- A step of a thread: the number is raised by its holder only, from the value it has
read. -/
theorem ThreadMove.counts (move : ThreadMove version limit s i t events) (locked : Locked s)
    (counts : Counts limit log s) : Counts limit (log ++ events) t := by
  cases move with
  | locks free pc => exact counts.keep rfl rfl (counts.setThread trivial)
  | goesOn below pc =>
    refine counts.keep rfl rfl (counts.setThread ?_)
    have different : s.num ≠ limit.value := fun same => by
      rw [(stops_iff counts.high).mpr same] at below
      cases below
    exact lt_of_le_of_ne counts.high different
  | stops done pc =>
    exact counts.keep rfl rfl (counts.setThread ((stops_iff counts.high).mp done))
  | reads pc =>
    have below : Knows limit.value s.num .reading := pc ▸ counts.knows i
    exact counts.keep rfl rfl (counts.setThread ⟨rfl, below⟩)
  | writes read pc =>
    have known : Knows limit.value s.num (.writing read) := pc ▸ counts.knows i
    obtain ⟨rfl, below⟩ := known
    have low := counts.low
    have others (k : Fin T) (own : k ≠ i) : Knows limit.value (s.num + 1) (s.thread k) := by
      refine knows_outside (fun inside => own ?_) below (counts.knows k)
      exact locked.unique inside (by simp only [pc]; trivial)
    refine ⟨show 0 ≤ s.num + 1 by omega, below, ?_, ?_⟩
    · rw [stores_append, counts.stores]
      exact (upTo_succ low).symm
    · exact forall_setThread (P := fun _ pc => Knows limit.value (s.num + 1) pc)
        (afterWrite_knows version _ _) others
  | prints pc => exact counts.keep rfl rfl (counts.setThread trivial)
  | unlocks pc => exact counts.keep rfl rfl (counts.setThread trivial)
  | leaves pc =>
    have done : Knows limit.value s.num .leaving := pc ▸ counts.knows i
    exact counts.keep rfl rfl (counts.setThread done)

/-- A value is printed before the next one is reached. -/
structure Printed (log : List Event) (s : State T) : Prop where
  behind : ∀ i, s.thread i = .printing → stores log = lines log ++ [s.num]
  caughtUp : (∀ i, s.thread i ≠ .printing) → stores log = lines log

/-- Nothing is printed or reached. -/
theorem Printed.setThread {pc : ThreadPc} (printed : Printed log s)
    (before : s.thread i ≠ .printing)
    (after : pc ≠ .printing) : Printed (log ++ []) (s.setThread i pc) := by
  rw [List.append_nil]
  constructor
  · exact forall_setThread (P := fun _ pc => pc = .printing → stores log = lines log ++ [s.num])
      (fun isPrinting => absurd isPrinting after) fun k _ => printed.behind k
  · intro nobody
    refine printed.caughtUp fun k isPrinting => ?_
    by_cases own : k = i
    · exact before (own ▸ isPrinting)
    · exact nobody k ((setThread_ne own).trans isPrinting)

/-- The spinlock version prints each value behind its own store and before the next one.
-/
theorem ThreadMove.printed (move : ThreadMove .spinlock limit s i t events) (locked : Locked s)
    (printed : Printed log s) : Printed (log ++ events) t := by
  cases move with
  | locks free pc =>
    exact Printed.setThread (s := { s with lock := s.lock - 1 }) ⟨printed.behind, printed.caughtUp⟩
      (by simp [pc]) (by simp)
  | goesOn below pc => exact printed.setThread (by simp [pc]) (by simp)
  | stops done pc => exact printed.setThread (by simp [pc]) (by simp)
  | reads pc => exact printed.setThread (by simp [pc]) (by simp)
  | writes read pc =>
    -- The writer holds the lock, so no line is owed.
    have nobody : ∀ k, s.thread k ≠ .printing := fun k isPrinting => by
      obtain rfl : k = i := locked.unique (by simp only [isPrinting]; trivial)
        (by simp only [pc]; trivial)
      rw [pc] at isPrinting
      cases isPrinting
    have same := printed.caughtUp nobody
    constructor
    · intro k isPrinting
      rw [stores_append, lines_append, same]
      exact congrArg (· ++ [read + 1]) (List.append_nil _).symm
    · intro nobody'
      exact absurd setThread_thread (nobody' i)
  | prints pc =>
    have same := printed.behind i pc
    constructor
    · intro k isPrinting
      by_cases own : k = i
      · subst own
        rw [setThread_thread] at isPrinting
        cases isPrinting
      · rw [setThread_ne own] at isPrinting
        exact absurd (locked.unique (by simp only [isPrinting]; trivial)
          (by simp only [pc]; trivial)) own
    · intro nobody
      rw [stores_append, lines_append, same]
      exact List.append_nil _
  | unlocks pc =>
    exact Printed.setThread (s := s.release) ⟨printed.behind, printed.caughtUp⟩
      (by simp [State.release, pc]) (by simp)
  | leaves pc =>
    exact Printed.setThread (s := s.release) ⟨printed.behind, printed.caughtUp⟩
      (by simp [State.release, pc]) (by simp)

def Joined (s : State T) : Prop :=
  match s.main with
  | .creating k => ∀ i : Fin T, s.thread i = .absent ↔ k ≤ i
  | .joining k => (∀ i, s.thread i ≠ .absent) ∧ ∀ i : Fin T, i < k → s.thread i = .returned
  | .returned => ∀ i, s.thread i = .returned

/-- A thread that takes a step has been created and has not returned. -/
theorem ThreadMove.active (move : ThreadMove version limit s i t events) :
    s.thread i ≠ .absent ∧ s.thread i ≠ .returned ∧ t.thread i ≠ .absent := by
  have written : version.afterWrite ≠ .absent := by cases version <;> simp [Version.afterWrite]
  cases move with
  | locks _ pc | goesOn _ pc | stops _ pc | reads pc | prints pc | unlocks pc | leaves pc =>
    simp [pc, State.setThread]
  | writes _ pc => simp [pc, State.setThread, written]

theorem ThreadMove.joined (move : ThreadMove version limit s i t events) (joined : Joined s) :
    Joined t := by
  obtain ⟨present, running, stays⟩ := move.active
  unfold Joined at joined ⊢
  rw [move.main]
  split
  · next k main =>
    simp only [main] at joined
    intro j
    by_cases own : j = i
    · subst own
      exact iff_of_false stays fun later => present ((joined j).mpr later)
    · rw [move.thread_ne own]
      exact joined j
  · next k main =>
    simp only [main] at joined
    refine ⟨fun j => ?_, fun j earlier => ?_⟩
    · by_cases own : j = i
      · exact own ▸ stays
      · rw [move.thread_ne own]
        exact joined.1 j
    · have own : j ≠ i := fun own => running (own ▸ joined.2 j earlier)
      rw [move.thread_ne own]
      exact joined.2 j earlier
  · next main =>
    simp only [main] at joined
    exact absurd (joined i) running

/-- `main` joins the threads in their order, each after its return. -/
theorem MainMove.joined (move : MainMove s t events) (joined : Joined s) : Joined t := by
  cases move with
  | creates i pc =>
    simp only [Joined, pc] at joined ⊢
    intro j
    by_cases own : j = i
    · subst own
      rw [setThread_thread]
      simp
    · rw [setThread_ne own, joined j]
      have apart : (j : Nat) ≠ i := fun same => own (Fin.ext same)
      omega
  | created i all pc =>
    simp only [Joined, pc] at joined ⊢
    refine ⟨fun j absent => ?_, fun j earlier => absurd earlier (Nat.not_lt_zero _)⟩
    have later := (joined j).mp absent
    omega
  | joins i returned pc =>
    simp only [Joined, pc] at joined ⊢
    refine ⟨joined.1, fun j earlier => ?_⟩
    by_cases own : j = i
    · exact own ▸ returned
    · have apart : (j : Nat) ≠ i := fun same => own (Fin.ext same)
      exact joined.2 j (by omega)
  | prints i all pc =>
    simp only [Joined, pc] at joined ⊢
    exact fun j => joined.2 j (by omega)

structure Sound (version : Version) (limit : Limit) (log : List Event) (s : State T) : Prop where
  locked : Locked s
  counts : Counts limit log s
  joined : Joined s
  results : ∀ value, .result value ∈ log → value = limit.value
  printed : version = .spinlock → Printed log s

theorem start_sound : Sound version limit [] (start T) where
  locked := .free rfl fun _ => not_false
  counts := ⟨Int.le_refl 0, limit.nonneg, rfl, fun _ => trivial⟩
  joined _ := iff_of_true rfl (Nat.zero_le _)
  results _ member := absurd member List.not_mem_nil
  printed _ := ⟨fun _ isPrinting => ThreadPc.noConfusion isPrinting, fun _ => rfl⟩

theorem ThreadMove.sound (move : ThreadMove version limit s i t events)
    (sound : Sound version limit log s) : Sound version limit (log ++ events) t where
  locked := move.locked sound.locked
  counts := move.counts sound.locked sound.counts
  joined := move.joined sound.joined
  results value member := by
    rcases List.mem_append.mp member with old | new
    · exact sound.results value old
    · cases move <;> simp at new
  printed isSpinlock := by
    subst isSpinlock
    exact move.printed sound.locked (sound.printed rfl)

/-- When all threads have returned the number has reached the limit. -/
theorem counts_done (nonempty : 0 < T) (counts : Counts limit log s)
    (returned : ∀ i, s.thread i = .returned) : s.num = limit.value := by
  have known := counts.knows ⟨0, nonempty⟩
  rw [returned] at known
  exact known

/-- `main` goes on by itself. -/
theorem Sound.withMain (sound : Sound version limit log s) {main : MainPc}
    (joined : Joined { s with main }) : Sound version limit log { s with main } :=
  ⟨sound.locked, ⟨sound.counts.low, sound.counts.high, sound.counts.stores, sound.counts.knows⟩,
    joined, sound.results, fun isSpinlock =>
      ⟨(sound.printed isSpinlock).behind, (sound.printed isSpinlock).caughtUp⟩⟩

theorem MainMove.sound (move : MainMove s t events) (nonempty : 0 < T)
    (sound : Sound version limit log s) : Sound version limit (log ++ events) t := by
  have joined := move.joined sound.joined
  have old := sound.joined
  cases move with
  | creates i pc =>
    simp only [Joined, pc] at old
    have absent := (old i).mpr (Nat.le_refl _)
    rw [List.append_nil]
    have locked : Locked (s.setThread i .locking) := sound.locked.setThread (by rw [absent]; rfl)
    have counts : Counts limit log (s.setThread i .locking) :=
      ⟨sound.counts.low, sound.counts.high, sound.counts.stores, sound.counts.setThread trivial⟩
    refine ⟨locked, ⟨counts.low, counts.high, counts.stores, counts.knows⟩, joined, sound.results,
      fun isSpinlock => ?_⟩
    have printed : Printed (log ++ []) (s.setThread i .locking) :=
      (sound.printed isSpinlock).setThread (by simp [absent]) (by simp)
    rw [List.append_nil] at printed
    exact ⟨printed.behind, printed.caughtUp⟩
  | created i all pc =>
    rw [List.append_nil]
    exact sound.withMain joined
  | joins i returned pc =>
    rw [List.append_nil]
    exact sound.withMain joined
  | prints i all pc =>
    have done : s.num = limit.value := counts_done nonempty sound.counts joined
    have quiet : stores (log ++ [.result s.num]) = stores log := by
      rw [stores_append]
      exact List.append_nil _
    have silent : lines (log ++ [.result s.num]) = lines log := by
      rw [lines_append]
      exact List.append_nil _
    refine ⟨sound.locked, ⟨sound.counts.low, sound.counts.high, quiet ▸ sound.counts.stores,
      sound.counts.knows⟩, joined, fun value member => ?_, fun isSpinlock => ?_⟩
    · rcases List.mem_append.mp member with before | now
      · exact sound.results value before
      · cases List.mem_singleton.mp now
        exact done
    · have printed := sound.printed isSpinlock
      exact ⟨by rw [quiet, silent]; exact printed.behind,
        by rw [quiet, silent]; exact printed.caughtUp⟩

theorem run_sound (nonempty : 0 < T)
    (run : (threads version limit T).Reach System.Anything (start T) log s) :
    Sound version limit log s := by
  refine run.invariant (Sound version limit) start_sound ?_
  intro log s a t sound _ stepped
  cases a with
  | thread i => exact (threadWork_move stepped).sound sound
  | main => exact (mainStep_move stepped).sound nonempty sound

/-- `num` never exceeds the limit, every increment counts, and when the threads
have returned it is the limit and every value up to it has been reached once;
spinlock.c has printed them all, and `main` prints the limit. -/
theorem counter_exact (nonempty : 0 < T)
    (run : (threads version limit T).Reach System.Anything (start T) log s) :
    s.num ≤ limit.value ∧ ((stores log).length : Int) = s.num ∧ stores log = upTo s.num ∧
      ((∀ i, s.thread i = .returned) → s.num = limit.value ∧
        (∀ value, (stores log).count value = if 1 ≤ value ∧ value ≤ limit.value then 1 else 0) ∧
        (version = .spinlock → lines log = upTo limit.value)) ∧
      ∀ value, .result value ∈ log → value = limit.value := by
  have sound := run_sound nonempty run
  have reached := sound.counts.stores
  refine ⟨sound.counts.high, ?_, reached, fun returned => ?_, sound.results⟩
  · rw [reached]
    exact upTo_length sound.counts.low
  · have done := counts_done nonempty sound.counts returned
    rw [done] at reached
    refine ⟨done, fun value => ?_, fun isSpinlock => ?_⟩
    · rw [reached]
      exact upTo_count limit.value value
    · rw [← reached]
      refine ((sound.printed isSpinlock).caughtUp fun i isPrinting => ?_).symm
      rw [returned i] at isPrinting
      cases isPrinting

/-- Only a thread that waits for the lock, or has nothing to do, can be stuck. -/
theorem thread_enabled (counts : Counts limit log s) (present : s.thread i ≠ .absent)
    (running : s.thread i ≠ .returned) (free : s.thread i = .locking → 0 < s.lock) :
    ∃ t, threadWork version limit s i = some t := by
  unfold threadWork
  cases pc : s.thread i with
  | absent => exact absurd pc present
  | locking => exact ⟨_, by simp [State.acquire, free pc]; rfl⟩
  | writing read =>
    have known : Knows limit.value s.num (.writing read) := pc ▸ counts.knows i
    obtain ⟨rfl, below⟩ := known
    have low := counts.low
    have top := limit.isInt
    have fits : IsInt (s.num + 1) := by
      unfold IsInt at top ⊢
      omega
    exact ⟨_, by simp only [int_of_isInt fits, Option.bind_eq_bind, Option.bind_some]; rfl⟩
  | returned => exact absurd pc running
  | testing | reading | printing | unlocking | leaving => exact ⟨_, rfl⟩

/-- Until `main` has returned somebody can take a step. -/
theorem somebody_moves (nonempty : 0 < T)
    (run : (threads version limit T).Reach System.Anything (start T) log s) :
    s.main = .returned ∨ ∃ a t, step version limit s a = some t := by
  have sound := run_sound nonempty run
  have joined := sound.joined
  cases main : s.main with
  | returned => exact .inl rfl
  | creating k =>
    refine .inr ⟨.main, ?_⟩
    simp only [step, mainStep, main]
    split <;> exact ⟨_, rfl⟩
  | joining k =>
    simp only [Joined, main] at joined
    by_cases inside : k < T
    · by_cases returned : s.thread ⟨k, inside⟩ = .returned
      · refine .inr ⟨.main, ?_⟩
        simp only [step, mainStep, main, dif_pos inside, if_pos returned]
        exact ⟨_, rfl⟩
      · by_cases waits : s.thread ⟨k, inside⟩ = .locking ∧ s.lock = 0
        · -- Then somebody else is inside.
          have locked := sound.locked
          cases locked with
          | free one nobody => omega
          | held zero holder isInside alone =>
            have running : s.thread holder ≠ .returned := fun pc => by simp [pc, Inside] at isInside
            have other : s.thread holder ≠ .locking := fun pc => by simp [pc, Inside] at isInside
            exact .inr ⟨.thread holder, thread_enabled sound.counts (joined.1 holder) running
              fun locking => absurd locking other⟩
        · exact .inr ⟨.thread ⟨k, inside⟩, thread_enabled sound.counts (joined.1 _) returned
            fun locking => Nat.pos_of_ne_zero fun zero => waits ⟨locking, zero⟩⟩
    · exact .inr ⟨.main, _, by simp only [step, mainStep, main, dif_neg inside]; rfl⟩

/-- Two, counted by two threads. -/
def two : Limit := ⟨2, by decide, by decide⟩

/-- The second thread waits while the first one counts, and then finds the
counting done. -/
def schedule : List (Action 2) :=
  List.flatten [List.replicate 3 .main, List.replicate 12 (.thread 0),
    List.replicate 3 (.thread 0), List.replicate 3 (.thread 1), List.replicate 3 .main]

theorem counter_exact_two : ∃ (log : List Event) (s : State 2),
    (threads .spinlock two 2).Reach System.Anything (start 2) log s ∧
      (∀ i, s.thread i = .returned) ∧ s.num = 2 ∧ lines log = [1, 2] ∧ .result 2 ∈ log := by
  obtain ⟨log, s, run, returned, printed⟩ := System.exists_reach (threads .spinlock two 2)
    System.Anything (start 2) schedule
    (fun log s => (∀ i, s.thread i = .returned) ∧ .result 2 ∈ log) (by decide +kernel)
  obtain ⟨-, -, -, done, -⟩ := counter_exact (by decide) run
  obtain ⟨num, -, lines⟩ := done returned
  exact ⟨log, s, run, returned, num, lines rfl, printed⟩

end EltexCourse.Guarantees.Counter.Exact
