import EltexCourse.Foundations.Logs
import EltexCourse.Source.Drivers.Alone

/-!
# task_drivers: what a driver says of itself

The status follows the timer from the first task on whose time the timer
accepts. A task with a negative time sets the status as well but not the timer,
and as long as the timer has never been set nothing clears the status again.
-/

set_option autoImplicit false

namespace EltexCourse.Guarantees.Drivers.Status
open Foundations.Transition Foundations.Logs Source.Drivers

/-- What someone who watches the driver knows: the seconds of the last task that
the timer accepted and the nanoseconds since, the same when `select` last
returned, and whether a task was refused. -/
structure Watch where
  task : Option (Int × Nat)
  atSelect : Option (Int × Nat)
  refused : Bool

def Watch.see (w : Watch) : Seen → Watch
  | .elapsed ns => { w with task := w.task.map fun task => (task.1, task.2 + ns) }
  | .selected => { w with atSelect := w.task }
  | .tasked sec => if 0 < sec then { w with task := some (sec, 0) } else { w with refused := true }
  | .replied _ => w

def watch (log : List Seen) : Watch := log.foldl Watch.see ⟨none, none, false⟩

/-- Its timer is armed and has not expired. -/
def Running (task : Option (Int × Nat)) : Prop :=
  ∃ sec since, task = some (sec, since) ∧ since < sec.toNat * nanoseconds

/-- Its timer has run out. -/
def Expired (task : Option (Int × Nat)) : Prop :=
  ∃ sec since, task = some (sec, since) ∧ sec.toNat * nanoseconds ≤ since

/-- A reply says whether there was a task running when `select` returned. -/
def Right (log : List Seen) : Seen → Prop
  | .replied m => m.stat = 1 ↔ Running (watch log).atSelect
  | _ => True

/-- At a reply, if a task has been refused, one has been accepted. -/
def Accepted (log : List Seen) : Seen → Prop
  | .replied _ => (watch log).refused = true → (watch log).task ≠ none
  | _ => True

/-- A driver whose timer had run out says that it is available. -/
def Available (log : List Seen) : Seen → Prop
  | .replied m => Expired (watch log).atSelect → m.stat = 0
  | _ => True

inductive TimerOf : Timer → Option (Int × Nat) → Prop where
  | disarmed : TimerOf .disarmed none
  | armed {sec : Int} {since left : Nat} (positive : 0 < left)
      (sum : since + left = sec.toNat * nanoseconds) : TimerOf (.armed left) (some (sec, since))
  | expired {sec : Int} {since : Nat} (passed : sec.toNat * nanoseconds ≤ since) :
      TimerOf .expired (some (sec, since))

structure Tracks (d : Driver) (w : Watch) : Prop where
  timer : TimerOf d.timer w.task
  flag : d.status = 0 ∨ d.status = 1
  unset : w.task = none → d.status = if w.refused then 1 else 0
  running : Running w.task → d.status = 1
  unselected : d.pc = .serving → w.task = none → w.atSelect = none
  selected : d.pc = .serving → w.task ≠ none → (d.status = 1 ↔ Running w.atSelect)

variable {capacity : Nat} {d d' : Driver} {w : Watch} {timer : Timer} {task : Option (Int × Nat)}
  {log : List Seen} {sec : Int} {ns : Nat}

/-- The timer has expired exactly when the time of the last task is over. -/
theorem expired_iff (timerOf : TimerOf timer task) : timer = .expired ↔ Expired task := by
  cases timerOf with
  | disarmed => exact iff_of_false (by simp) fun ⟨_, _, same, _⟩ => by cases same
  | armed positive sum =>
    refine iff_of_false (by simp) fun ⟨_, _, same, passed⟩ => ?_
    cases same
    omega
  | expired passed => exact iff_of_true rfl ⟨_, _, rfl, passed⟩

theorem not_running (expired : Expired task) : ¬ Running task := by
  obtain ⟨sec, since, rfl, passed⟩ := expired
  intro ⟨_, _, same, left⟩
  cases same
  omega

theorem running_iff (some_task : task ≠ none) : Running task ↔ ¬ Expired task := by
  obtain ⟨⟨sec, since⟩, rfl⟩ := Option.ne_none_iff_exists'.mp some_task
  constructor
  · exact fun running expired => not_running expired running
  · intro unexpired
    exact ⟨sec, since, rfl, Nat.lt_of_not_le fun passed => unexpired ⟨sec, since, rfl, passed⟩⟩

theorem TimerOf.elapse (timerOf : TimerOf timer task) (ns : Nat) :
    TimerOf (timer.elapse ns) (task.map fun task => (task.1, task.2 + ns)) := by
  cases timerOf with
  | disarmed => exact .disarmed
  | @armed sec since left positive sum =>
    simp only [Timer.elapse, Option.map_some]
    split
    · exact .expired (by omega)
    · exact .armed (by omega) (by omega)
  | expired passed => exact .expired (Nat.le_add_right_of_le passed)

theorem Running.of_elapse (running : Running (task.map fun task => (task.1, task.2 + ns))) :
    Running task := by
  obtain ⟨sec, since, later, left⟩ := running
  obtain ⟨⟨sec', since'⟩, same, shifted⟩ := Option.map_eq_some_iff.mp later
  obtain ⟨rfl, rfl⟩ := Prod.mk.inj shifted
  exact ⟨_, since', same, Nat.lt_of_le_of_lt (Nat.le_add_right since' ns) left⟩

/-- A time above zero is accepted, one below zero refused. -/
theorem TimerOf.settime (timerOf : TimerOf timer task) (isTask : sec ≠ 0) :
    TimerOf (timer.settime sec) (if 0 < sec then some (sec, 0) else task) := by
  rw [Timer.settime]
  by_cases negative : sec < 0
  · rw [if_pos negative, if_neg (by omega)]
    exact timerOf
  · rw [if_neg negative, if_neg isTask, if_pos (by omega)]
    refine .armed (Nat.mul_pos (by omega) (by decide)) (Nat.zero_add _)

theorem tracks_created : Tracks Driver.created (watch []) where
  timer := .disarmed
  flag := .inl rfl
  unset _ := rfl
  running := fun ⟨_, _, same, _⟩ => by cases same
  unselected serving := by cases serving
  selected serving := by cases serving

theorem Tracks.elapse (tracks : Tracks d w) (ns : Nat) :
    Tracks { d with timer := d.timer.elapse ns } (w.see (.elapsed ns)) where
  timer := tracks.timer.elapse ns
  flag := tracks.flag
  unset nothing := tracks.unset (Option.map_eq_none_iff.mp nothing)
  running running := tracks.running running.of_elapse
  unselected serving nothing := tracks.unselected serving (Option.map_eq_none_iff.mp nothing)
  selected serving task := tracks.selected serving (mt Option.map_eq_none_iff.mpr task)

theorem wake_status (d : Driver) :
    d.wake.status = if d.timer = .expired then 0 else d.status := rfl

/-- After `select` the status is that of a driver whose task may have ended. -/
theorem Tracks.wake (tracks : Tracks d w) : Tracks d.wake (w.see .selected) := by
  have expired := expired_iff tracks.timer
  refine ⟨tracks.timer, ?_, fun nothing => ?_, fun running => ?_, fun _ nothing => nothing,
    fun _ task => ?_⟩
  · rw [wake_status]
    split
    · exact .inl rfl
    · exact tracks.flag
  · have off : d.timer ≠ .expired := fun on => by
      obtain ⟨_, _, same, _⟩ := expired.mp on
      cases (show w.task = none from nothing).symm.trans same
    rw [wake_status, if_neg off]
    exact tracks.unset nothing
  · have task : w.task ≠ none := by
      obtain ⟨_, _, same, _⟩ := running
      rw [show w.task = _ from same]
      exact Option.some_ne_none _
    rw [wake_status, if_neg (mt expired.mp ((running_iff task).mp running))]
    exact tracks.running running
  · have task : w.task ≠ none := task
    show d.wake.status = 1 ↔ Running w.task
    rw [running_iff task, ← expired, wake_status]
    split
    next on => exact iff_of_false Int.zero_ne_one (not_not_intro on)
    next off => exact iff_of_true (tracks.running ((running_iff task).mpr (mt expired.mpr off))) off

theorem Tracks.tasked (tracks : Tracks d w) (isTask : sec ≠ 0) :
    Tracks { d with timer := d.timer.settime sec, status := 1, pc := .waiting }
      (w.see (.tasked sec)) := by
  have timer := tracks.timer.settime isTask
  rw [Watch.see]
  by_cases positive : 0 < sec
  · rw [if_pos positive] at timer ⊢
    refine ⟨timer, .inr rfl, fun nothing => ?_, fun _ => rfl, fun serving => ?_, fun serving => ?_⟩
    · cases nothing
    · cases serving
    · cases serving
  · rw [if_neg positive] at timer ⊢
    refine ⟨timer, .inr rfl, fun _ => rfl, fun _ => rfl, fun serving => ?_, fun serving => ?_⟩
    · cases serving
    · cases serving

/-- Behind a message that is no task. -/
theorem Tracks.unchanged (tracks : Tracks d w) (timer : d'.timer = d.timer)
    (status : d'.status = d.status) (pc : d'.pc ≠ .serving) : Tracks d' w where
  timer := timer ▸ tracks.timer
  flag := status ▸ tracks.flag
  unset := status ▸ tracks.unset
  running := status ▸ tracks.running
  unselected serving := absurd serving pc
  selected serving := absurd serving pc

/-- The reply of a driver that serves a status request. -/
theorem reply_right (tracks : Tracks d (watch log)) (serving : d.pc = .serving) {m : Msg}
    (stat : m.stat = d.status) :
    (Right log (.replied m) ↔ Accepted log (.replied m)) ∧ Available log (.replied m) := by
  simp only [Right, Accepted, Available, stat]
  by_cases nothing : (watch log).task = none
  · have unselected := tracks.unselected serving nothing
    have idle : ¬ Running (watch log).atSelect := fun ⟨_, _, same, _⟩ => by
      cases unselected.symm.trans same
    have unexpired : ¬ Expired (watch log).atSelect := fun ⟨_, _, same, _⟩ => by
      cases unselected.symm.trans same
    refine ⟨?_, fun passed => absurd passed unexpired⟩
    rw [tracks.unset nothing]
    by_cases refused : (watch log).refused = true
    · simp [refused, idle, nothing]
    · simp [refused, idle]
  · have selected := tracks.selected serving nothing
    refine ⟨iff_of_true selected fun _ => nothing, fun passed => ?_⟩
    exact tracks.flag.resolve_right (mt selected.mp (not_running passed))

/-- What holds of each entry of a log. -/
def Replies (log : List Seen) (e : Seen) : Prop := (Right log e ↔ Accepted log e) ∧ Available log e

theorem watch_append (log : List Seen) (e : Seen) : watch (log ++ [e]) = (watch log).see e := by
  rw [watch, List.foldl_concat]
  rfl

/-- Handling a request keeps the status as it should be, and the reply shows it. -/
theorem Tracks.serve (tracks : Tracks d (watch log)) (serving : d.pc = .serving) (buff : Msg)
    (each : EachEntry Replies log) :
    Tracks (d.handle buff).1 (watch (log ++ d.serves buff)) ∧
      EachEntry Replies (log ++ d.serves buff) := by
  unfold Driver.serves
  by_cases isTask : buff.time ≠ 0
  · rw [Driver.handle, if_pos isTask, if_pos isTask, watch_append]
    exact ⟨tracks.tasked isTask, each.append ⟨Iff.rfl, trivial⟩⟩
  · rw [Driver.handle, if_neg isTask, if_neg isTask]
    by_cases asked : buff.stat = 2
    · rw [if_pos asked, List.map_singleton, watch_append]
      exact ⟨tracks.unchanged rfl rfl (by simp), each.append (reply_right tracks serving rfl)⟩
    · rw [if_neg asked]
      split
      all_goals
        rw [List.map_nil, List.append_nil]
        exact ⟨tracks.unchanged rfl rfl (by simp), each⟩

/-- What is written and read by others does not concern the status. -/
theorem Tracks.pipes (tracks : Tracks d w) (requests replies : List Msg) :
    Tracks { d with requests, replies } w :=
  ⟨tracks.timer, tracks.flag, tracks.unset, tracks.running, tracks.unselected, tracks.selected⟩

structure Invariant (log : List Seen) (d : Driver) : Prop where
  tracks : Tracks d (watch log)
  replies : EachEntry Replies log

/-- At `select` the driver is seen to have looked at its timer. -/
theorem seen_waiting (waiting : d.pc = .waiting) : d.seen .turn = [.selected] := by
  simp only [Driver.seen, waiting]

/-- Behind it the driver is seen to handle the request it reads. -/
theorem seen_serving (serving : d.pc = .serving) {buff : Msg} {requests : List Msg}
    (found : d.requests = buff :: requests) : d.seen .turn = { d with requests }.serves buff := by
  simp only [Driver.seen, serving, found]

theorem invariant_turn (inv : Invariant log d) (stepped : (alone capacity).step d .turn = some d') :
    Invariant (log ++ (alone capacity).emit d .turn) d' := by
  obtain ⟨⟨after, written⟩, turned, rfl⟩ := Option.map_eq_some_iff.mp stepped
  show Invariant (log ++ d.seen .turn) after
  rw [Driver.turn.eq_def] at turned
  split at turned
  next waiting =>
    cases turned
    rw [seen_waiting waiting]
    refine ⟨?_, inv.replies.append ⟨Iff.rfl, trivial⟩⟩
    rw [watch_append]
    exact inv.tracks.wake
  next buff requests serving found =>
    rw [seen_serving serving found]
    dsimp only at turned
    split at turned
    · cases turned
      obtain ⟨tracks, replies⟩ :=
        (inv.tracks.pipes requests d.replies).serve serving buff inv.replies
      exact ⟨tracks.pipes _ _, replies⟩
    · cases turned
  · cases turned

theorem invariant_step (inv : Invariant log d) {a : Happening}
    (stepped : (alone capacity).step d a = some d') :
    Invariant (log ++ (alone capacity).emit d a) d' := by
  obtain ⟨tracks, replies⟩ := inv
  cases a with
  | send m =>
    simp only [alone, Driver.happen] at stepped
    split at stepped
    · cases stepped
      rw [show (alone capacity).emit d (.send m) = [] from rfl, List.append_nil]
      exact ⟨tracks.pipes _ _, replies⟩
    · cases stepped
  | elapse ns =>
    cases stepped
    refine ⟨?_, replies.append ⟨Iff.rfl, trivial⟩⟩
    rw [show (alone capacity).emit d (.elapse ns) = [.elapsed ns] from rfl, watch_append]
    exact tracks.elapse ns
  | turn => exact invariant_turn ⟨tracks, replies⟩ stepped
  | receive =>
    simp only [alone, Driver.happen] at stepped
    split at stepped
    · cases stepped
    · cases stepped
      rw [show (alone capacity).emit d .receive = [] from rfl, List.append_nil]
      exact ⟨tracks.pipes _ _, replies⟩

/-- In every run each reply is right exactly if, when a task had been refused
before it, one had been accepted; and a driver whose timer had run out when
`select` returned says that it is available, and is so from then on. -/
theorem status_iff (capacity : Nat) (log : List Seen) (d : Driver)
    (run : (alone capacity).Reach System.Anything Driver.created log d) :
    (EachEntry Right log ↔ EachEntry Accepted log) ∧ EachEntry Available log ∧
      (Expired (watch log).task → d.wake.status = 0) := by
  have inv : Invariant log d := run.invariant Invariant
    ⟨tracks_created, eachEntry_nil⟩ fun _ _ _ _ inv _ stepped => invariant_step inv stepped
  refine ⟨?_, fun before e after split => (inv.replies before e after split).2, fun passed => ?_⟩
  · constructor
    · exact fun right before e after split =>
        (inv.replies before e after split).1.mp (right before e after split)
    · exact fun accepted before e after split =>
        (inv.replies before e after split).1.mpr (accepted before e after split)
  · rw [wake_status, if_pos ((expired_iff inv.tracks.timer).mpr passed)]

/-- A task of one second, asked about before and behind its end. -/
def oneSecond : List Happening :=
  [.send ⟨1, 0⟩, .turn, .turn, .send ⟨0, 2⟩, .turn, .turn, .elapse nanoseconds, .send ⟨0, 2⟩,
    .turn, .turn]

theorem status_oneSecond : ∃ log d, (alone 2).Reach System.Anything Driver.created log d ∧
    .replied ⟨1, 1⟩ ∈ log ∧ .replied ⟨0, 0⟩ ∈ log ∧ EachEntry Right log := by
  obtain ⟨log, d, run, rfl⟩ :=
    System.exists_reach (alone 2) System.Anything Driver.created oneSecond
    (fun log _ => log = [.selected, .tasked 1, .selected, .replied ⟨1, 1⟩, .elapsed nanoseconds,
      .selected, .replied ⟨0, 0⟩]) (by decide)
  refine ⟨_, d, run, by decide, by decide, (status_iff 2 _ d run).1.mpr ?_⟩
  have first : EachEntry Accepted [.selected, .tasked 1, .selected] :=
    ((eachEntry_nil.append trivial).append trivial).append trivial
  have busy : EachEntry Accepted [.selected, .tasked 1, .selected, .replied ⟨1, 1⟩] :=
    first.append fun _ => Option.some_ne_none _
  have passed : EachEntry Accepted [.selected, .tasked 1, .selected, .replied ⟨1, 1⟩,
      .elapsed nanoseconds] := busy.append trivial
  have again : EachEntry Accepted [.selected, .tasked 1, .selected, .replied ⟨1, 1⟩,
      .elapsed nanoseconds, .selected] := passed.append trivial
  exact again.append fun _ => Option.some_ne_none _

/-- A refused task and a request: the reply is that the driver is busy. -/
def refused : List Happening := [.send ⟨-1, 0⟩, .turn, .turn, .send ⟨0, 2⟩, .turn, .turn]

/-- The status 1 of a refused task stands, though there is no task. -/
theorem refused_busy : ∃ log d, (alone 1).Reach System.Anything Driver.created log d ∧
    log = [.selected, .tasked (-1), .selected, .replied ⟨0, 1⟩] ∧ ¬ EachEntry Right log := by
  obtain ⟨log, d, run, rfl⟩ := System.exists_reach (alone 1) System.Anything Driver.created refused
    (fun log _ => log = [.selected, .tasked (-1), .selected, .replied ⟨0, 1⟩]) (by decide)
  refine ⟨_, d, run, rfl, fun right => ?_⟩
  have reply : Right [.selected, .tasked (-1), .selected] (.replied ⟨0, 1⟩) := right _ _ [] rfl
  obtain ⟨_, _, same, _⟩ := reply.mp rfl
  cases same

end EltexCourse.Guarantees.Drivers.Status
