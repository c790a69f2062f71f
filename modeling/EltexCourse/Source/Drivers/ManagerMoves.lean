import Mathlib.Data.List.Range
import EltexCourse.Source.Drivers.Manager

/-!
# task_drivers: what each command and each step comes to

The results of `perform`, one lemma for each command, and the steps of the
system by cases.
-/

set_option autoImplicit false

namespace EltexCourse.Source.Drivers
open Foundations.Transition

theorem subscript_ok {size i : Nat} (inside : i < size) : subscript size i = .ok i := by
  rw [subscript, if_pos (by omega), Int.toNat_natCast]

theorem subscript_neg {size : Nat} {i : Int} (negative : i < 0) :
    subscript size i = .error .outOfBounds :=
  if_neg (by omega)

theorem pipeAt_in {i : Nat} (inside : i < maxDrivers) : pipeAt (i * 2) = .ok (i * 2) :=
  subscript_ok (i := i * 2) (by omega)

theorem pipeAt_out {i : Nat} (inside : i < maxDrivers) : pipeAt (i * 2 + 1) = .ok (i * 2 + 1) :=
  subscript_ok (i := i * 2 + 1) (by omega)

theorem pidAt_ok {i : Nat} (inside : i < maxDrivers) : pidAt i = .ok i := subscript_ok inside

theorem Drv.index_lt {drv : Drv} {i : Nat} (live : i < drv.ndrivers) : i < maxDrivers :=
  Nat.lt_of_lt_of_le live drv.room

/-- The loop over the drivers does its round for each, in the order of their indices. -/
theorem forDrivers_ok {round : Int → Except Fault (List Op)} {ops : Nat → List Op} {n : Nat}
    (each : ∀ i : Nat, i < n → round i = .ok (ops i)) :
    forDrivers round n = .ok ((List.range n).flatMap ops) := by
  induction n with
  | zero => rfl
  | succ n ih =>
    have before := ih fun i inside => each i (Nat.lt_succ_of_lt inside)
    rw [forDrivers, before, each n (Nat.lt_succ_self n), List.range_succ, List.flatMap_append,
      List.flatMap_singleton]
    rfl

/-- The search for a pid that no driver has ends with -1. -/
theorem findLoop_absent {pid : Int} {pids : List Int} (absent : pid ∉ pids) (i : Int) :
    findLoop pid pids i = -1 := by
  induction pids generalizing i with
  | nil => rfl
  | cons other pids ih =>
    rw [List.mem_cons, not_or] at absent
    rw [findLoop, if_neg fun same => absent.1 same.symm, ih absent.2]

/-- Else it ends with the index of one that has it. -/
theorem findLoop_present {pid : Int} {pids : List Int} (present : pid ∈ pids) (start : Int) :
    ∃ i : Nat, i < pids.length ∧ findLoop pid pids start = start + i := by
  induction pids generalizing start with
  | nil => exact absurd present List.not_mem_nil
  | cons other pids ih =>
    by_cases same : other = pid
    · exact ⟨0, Nat.succ_pos _, by simp [findLoop, same]⟩
    · have later : pid ∈ pids := (List.mem_cons.mp present).resolve_left fun e => same e.symm
      obtain ⟨i, inside, found⟩ := ih later (start + 1)
      refine ⟨i + 1, Nat.succ_lt_succ inside, ?_⟩
      rw [findLoop, if_neg same, found]
      omega

theorem finfIndex_absent {drv : Drv} {pid : Int} (absent : pid ∉ drv.pids) :
    finfIndex drv pid = -1 :=
  findLoop_absent absent 0

/-- An index found is one of a driver that exists. -/
theorem finfIndex_present {drv : Drv} {pid : Int} (present : pid ∈ drv.pids) :
    ∃ i : Nat, i < drv.ndrivers ∧ finfIndex drv pid = i := by
  simpa [finfIndex] using findLoop_present present 0

/-- What a status request makes the manager do. -/
def askOps (i : Nat) : List Op := [.send i .status, .receive i]

theorem statusRound_ok {i : Nat} (inside : i < maxDrivers) :
    statusRound i = .ok (askOps i) := by
  rw [statusRound, pipeAt_in inside, pipeAt_out inside, pidAt_ok inside]
  show Except.ok [Op.send (i * 2 / 2) .status, Op.receive (i * 2 / 2)] = _
  rw [Nat.mul_div_cancel i (by decide)]
  rfl

theorem quitRound_ok {i : Nat} (inside : i < maxDrivers) :
    quitRound i = .ok [.send i .quit] := by
  rw [quitRound, pipeAt_in inside]
  show Except.ok [Op.send (i * 2 / 2) .quit] = _
  rw [Nat.mul_div_cancel i (by decide)]

theorem closeRound_ok {i : Nat} (inside : i < maxDrivers) : closeRound i = .ok [] := by
  rw [closeRound, pipeAt_in inside, pipeAt_out inside, pidAt_ok inside]
  rfl

section
variable (drv : Drv) (forked stat : Int)

theorem createDriver_full (full : drv.ndrivers = maxDrivers) :
    perform drv forked stat .createDriver = .ok ⟨drv, none, []⟩ :=
  dif_pos full

theorem createDriver_failed (free : drv.ndrivers ≠ maxDrivers) :
    perform drv (-1) stat .createDriver = .ok ⟨drv, none, [.leave]⟩ := by
  have inside : drv.ndrivers < maxDrivers := Nat.lt_of_le_of_ne drv.room free
  rw [perform, createDriver, dif_neg free, pipeAt_in inside, pipeAt_out inside]
  rfl

/-- A fork in the parent enters the new driver at the end of the table. -/
theorem createDriver_started (free : drv.ndrivers ≠ maxDrivers) (forkedOne : forked ≠ -1) :
    perform drv forked stat .createDriver =
      .ok ⟨drv.add free forked, some drv.ndrivers, []⟩ := by
  have inside : drv.ndrivers < maxDrivers := Nat.lt_of_le_of_ne drv.room free
  rw [perform, createDriver, dif_neg free, drv.numbered, pipeAt_in inside, pipeAt_out inside,
    pidAt_ok inside, if_neg forkedOne]
  rfl

/-- Whatever happens, no place outside the tables is touched. -/
theorem createDriver_ok : ∃ outcome, perform drv forked stat .createDriver = .ok outcome := by
  by_cases full : drv.ndrivers = maxDrivers
  · exact ⟨_, createDriver_full drv forked stat full⟩
  · by_cases failed : forked = -1
    · subst failed
      exact ⟨_, createDriver_failed drv stat full⟩
    · exact ⟨_, createDriver_started drv forked stat full failed⟩

/-- "quit" writes to the pipes of all drivers there are. -/
theorem perform_quit :
    perform drv forked stat .quit =
      .ok ⟨drv, none, (List.range drv.ndrivers).map (Op.send · .quit) ++ [.leave]⟩ := by
  have writes := forDrivers_ok fun i live => quitRound_ok (drv.index_lt live)
  have closes := forDrivers_ok fun i live => closeRound_ok (drv.index_lt live)
  have nothing : (List.range drv.ndrivers).flatMap (fun _ => ([] : List Op)) = [] := by simp
  rw [nothing] at closes
  rw [perform, writes, closes, List.map_eq_flatMap]
  show Except.ok (Outcome.mk drv none (_ ++ [] ++ [Op.leave])) = _
  rw [List.append_nil]

/-- "get_drivers" asks them one after the other. -/
theorem perform_getDrivers :
    perform drv forked stat .getDrivers =
      .ok ⟨drv, none, (List.range drv.ndrivers).flatMap askOps⟩ := by
  rw [perform, forDrivers_ok fun i live => statusRound_ok (drv.index_lt live)]
  rfl

/-- A task for a pid that is there goes to the pipe of that driver. -/
theorem perform_sendTask {pid : Int} (live : pid ∈ drv.pids) (time : Int) :
    ∃ i < drv.ndrivers,
      perform drv forked stat (.sendTask pid time) =
        .ok ⟨drv, none, [.send i (.task time stat)]⟩ := by
  obtain ⟨i, inside, found⟩ := finfIndex_present live
  refine ⟨i, inside, ?_⟩
  rw [perform, sendTask, found, pipeAt_in (drv.index_lt inside)]
  show Except.ok (Outcome.mk drv none [Op.send (i * 2 / 2) (.task time stat)]) = _
  rw [Nat.mul_div_cancel i (by decide)]

/-- So does the question about its status. -/
theorem perform_getStatus {pid : Int} (live : pid ∈ drv.pids) :
    ∃ i < drv.ndrivers,
      perform drv forked stat (.getStatus pid) = .ok ⟨drv, none, askOps i⟩ := by
  obtain ⟨i, inside, found⟩ := finfIndex_present live
  refine ⟨i, inside, ?_⟩
  rw [perform, found, statusRound_ok (drv.index_lt inside)]
  rfl

/-- For a pid that is not there the index is -1, and so is the one of the pipe. -/
theorem sendTask_unknown_pid {pid : Int} (absent : pid ∉ drv.pids) (time : Int) :
    perform drv forked stat (.sendTask pid time) = .error .outOfBounds := by
  rw [perform, sendTask, finfIndex_absent absent, pipeAt, subscript_neg (by decide)]
  rfl

theorem getStatus_unknown_pid {pid : Int} (absent : pid ∉ drv.pids) :
    perform drv forked stat (.getStatus pid) = .error .outOfBounds := by
  rw [perform, statusRound, finfIndex_absent absent, pipeAt, subscript_neg (by decide)]
  rfl

end

/-- The steps of the system, with what each lets be seen. -/
inductive Move (capacity : Nat) (s : State) : Action → State → List Event → Prop
  | begin {c : Command} {forked stat : Int} {outcome : Outcome} (idle : s.todo = [])
      (performed : perform s.drv forked stat c = .ok outcome) :
      Move capacity s (.command c forked stat) (s.start outcome) []
  | send {i : Nat} {r : Request} {todo : List Op} (next : s.todo = .send i r :: todo) :
      Move capacity s .manager
        ({ s with todo }.setDriver i
          { s.drivers i with requests := (s.drivers i).requests ++ [r.msg] }) [.sent i r]
  | take {i : Nat} {todo : List Op} {reply : Msg} {replies : List Msg}
      (next : s.todo = .receive i :: todo) (head : (s.drivers i).replies = reply :: replies) :
      Move capacity s .manager
        ({ s with todo }.setDriver i { s.drivers i with replies }) [.taken i reply]
  | endOfFile {i : Nat} {todo : List Op} (next : s.todo = .receive i :: todo)
      (terminated : (s.drivers i).pc = .terminated) :
      Move capacity s .manager { s with todo } []
  | stop (busy : s.todo ≠ []) : Move capacity s .manager { s with running := false } []
  | wake {i : Nat} (waiting : (s.drivers i).pc = .waiting) :
      Move capacity s (.driver i) (s.setDriver i (s.drivers i).wake) []
  | serve {i : Nat} {buff : Msg} {requests : List Msg} {d : Driver} {written : List Msg}
      (head : (s.drivers i).requests = buff :: requests)
      (handled : { s.drivers i with requests }.handle buff = (d, written)) :
      Move capacity s (.driver i)
        (s.setDriver i { d with replies := (s.drivers i).replies ++ written })
        [.handled i written]
  | elapse (ns : Nat) :
      Move capacity s (.elapse ns)
        { s with
          drivers := fun i => { s.drivers i with timer := (s.drivers i).timer.elapse ns } } []

/-- A turn of a driver wakes it, or handles the oldest request it has. -/
theorem turn_cases {capacity : Nat} {d next : Driver} {written : Option (List Msg)}
    (turned : d.turn capacity = some (next, written)) :
    (d.pc = .waiting ∧ next = d.wake ∧ written = none) ∨
    ∃ buff requests served replies, d.requests = buff :: requests ∧
      { d with requests }.handle buff = (served, replies) ∧
      next = { served with replies := d.replies ++ replies } ∧ written = some replies := by
  unfold Driver.turn at turned
  split at turned
  next waiting =>
    cases turned
    exact Or.inl ⟨waiting, rfl, rfl⟩
  next buff requests _ head =>
    dsimp only at turned
    split at turned
    · cases turned
      exact Or.inr ⟨buff, requests, _, _, head, rfl, rfl, rfl⟩
    · cases turned
  next => cases turned

/-- Every step of the manager is one of the moves listed. -/
theorem managerStep_move {capacity : Nat} {s t : State} {seen : List Event}
    (stepped : managerStep capacity s = some (t, seen)) : Move capacity s .manager t seen := by
  unfold managerStep at stepped
  split at stepped
  next => cases stepped
  next i r todo next =>
    dsimp only at stepped
    split at stepped
    · cases stepped
      exact .stop (by simp [next])
    · split at stepped
      · cases stepped
        exact .send next
      · cases stepped
  next i todo next =>
    dsimp only at stepped
    split at stepped
    next reply replies head =>
      cases stepped
      exact .take next head
    next =>
      split at stepped
      next terminated =>
        cases stepped
        exact .endOfFile next terminated
      next => cases stepped
  next next =>
    cases stepped
    exact .stop (by simp [next])

/-- So is every step of a driver and every command. -/
theorem act_move {capacity : Nat} {s t : State} {a : Action} {seen : List Event}
    (stepped : act capacity s a = some (t, seen)) : Move capacity s a t seen := by
  cases a with
  | command c forked stat =>
    simp only [act] at stepped
    split at stepped
    next idle =>
      split at stepped
      next outcome performed =>
        cases stepped
        exact .begin idle.2 performed
      next => cases stepped
    next => cases stepped
  | manager =>
    simp only [act] at stepped
    split at stepped
    · exact managerStep_move stepped
    · cases stepped
  | driver i =>
    simp only [act] at stepped
    split at stepped
    next d written turned =>
      cases stepped
      rcases turn_cases turned with
        ⟨-, -, none⟩ | ⟨buff, requests, served, replies, head, handled, rfl, same⟩
      · cases none
      · cases same
        exact .serve head handled
    next d turned =>
      cases stepped
      rcases turn_cases turned with ⟨waiting, rfl, -⟩ | ⟨_, _, _, _, _, _, _, some⟩
      · exact .wake waiting
      · cases some
    next => cases stepped
  | elapse ns =>
    cases stepped
    exact .elapse ns

theorem step_move {capacity : Nat} {s t : State} {a : Action}
    (stepped : (system capacity).step s a = some t) :
    Move capacity s a t ((system capacity).emit s a) := by
  obtain ⟨⟨u, seen⟩, acted, rfl⟩ := Option.map_eq_some_iff.mp stepped
  have shown : (system capacity).emit s a = seen := by simp [system, acted]
  rw [shown]
  exact act_move acted

end EltexCourse.Source.Drivers
