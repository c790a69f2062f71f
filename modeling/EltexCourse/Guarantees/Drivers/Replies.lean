import EltexCourse.Foundations.Logs
import EltexCourse.Source.Drivers.ManagerMoves

/-!
# task_drivers: replies and requests

A driver tells tasks, status requests and `quit` apart by the two fields of one
message, and `send_task` sets only one of them. While every task has a time
other than zero, or a `stat` that is neither of the two codes, each status
request gets one reply and nothing else does, and the manager reads that reply
before it does anything else.
-/

set_option autoImplicit false

namespace EltexCourse.Guarantees.Drivers.Replies
open Foundations.Transition Foundations.Logs Source.Drivers

def sentTo (i : Nat) : List Event → List Request :=
  List.filterMap fun
    | .sent j r => if j = i then some r else none
    | _ => none

/-- For each message the driver has handled, the replies it wrote. -/
def handledBy (i : Nat) : List Event → List (List Msg) :=
  List.filterMap fun
    | .handled j written => if j = i then some written else none
    | _ => none

def takenFrom (i : Nat) : List Event → List Msg :=
  List.filterMap fun
    | .taken j reply => if j = i then some reply else none
    | _ => none

def repliesDue : Request → Nat
  | .status => 1
  | .task _ _ | .quit => 0

theorem repliesDue_silent {r : Request} (silent : r ≠ .status) : repliesDue r = 0 := by
  cases r with
  | status => exact absurd rfl silent
  | task | quit => rfl

/-- A step of a driver. -/
def ByDriver : Event → Prop
  | .handled _ _ => True
  | _ => False

/-- At the end of `log` the last thing the manager did was to write a status
request to driver `i`. The driver has handled everything sent to it, this
request last, and its only reply to it was `reply`. -/
structure Answered (log : List Event) (i : Nat) (reply : Msg) : Prop where
  request : ∃ earlier between, log = earlier ++ .sent i .status :: between ∧
    ∀ e ∈ between, ByDriver e
  handledAll : (handledBy i log).length = (sentTo i log).length
  last : (handledBy i log).getLast? = some [reply]

/-- The law between requests and replies, for one run. -/
structure Matched (log : List Event) (s : State) : Prop where
  /-- One reply to each status request, in order, and none to anything else. -/
  oneReplyEach : ∀ i, (handledBy i log).map List.length <+: (sentTo i log).map repliesDue
  endsOnQuit : ∀ i, (s.drivers i).pc = .terminated → .quit ∈ sentTo i log
  answers : ∀ before i reply after, log = before ++ .taken i reply :: after →
    Answered before i reply
  /-- Between commands every status request has been answered and every reply
  read. -/
  drained : s.todo = [] → ∀ i, (s.drivers i).replies = [] ∧
    (takenFrom i log).length = (sentTo i log).count .status

/-- A task that is not taken for a status request or for `quit`. -/
def Clear : Request → Prop
  | .task time stat => time ≠ 0 ∨ (stat ≠ 2 ∧ stat ≠ 3)
  | .status | .quit => True

/-- Every `send_task` has a time other than zero, or finds in `m.stat` neither
of the codes 2 and 3. -/
def ClearTasks (_ : State) : Action → Prop
  | .command (.sendTask _ time) _ stat => Clear (.task time stat)
  | _ => True

instance : ∀ r, Decidable (Clear r)
  | .task _ _ => inferInstanceAs (Decidable (_ ∨ _ ∧ _))
  | .status | .quit => isTrue trivial

instance : ∀ s a, Decidable (ClearTasks s a)
  | _, .command (.sendTask _ time) _ stat => inferInstanceAs (Decidable (Clear (.task time stat)))
  | _, .command .createDriver _ _ | _, .command .quit _ _ | _, .command .getDrivers _ _
  | _, .command (.getStatus _) _ _ | _, .command .unknown _ _ | _, .manager | _, .driver _
  | _, .elapse _ => isTrue trivial

section
variable {d : Driver} {r : Request}

theorem handle_requests (d : Driver) (buff : Msg) : (d.handle buff).1.requests = d.requests := by
  unfold Driver.handle
  repeat' split
  all_goals rfl

/-- A task is not answered, and the driver goes on to wait. -/
theorem handle_task {time stat : Int} (clear : Clear (.task time stat)) :
    (d.handle ⟨time, stat⟩).2 = [] ∧ (d.handle ⟨time, stat⟩).1.pc = .waiting := by
  by_cases timed : time = 0
  · obtain ⟨notStatus, notQuit⟩ := clear.resolve_left (not_not_intro timed)
    simp [Driver.handle, timed, notStatus, notQuit]
  · simp [Driver.handle, timed]

theorem handle_written (clear : Clear r) : (d.handle r.msg).2.length = repliesDue r := by
  cases r with
  | task time stat => exact congrArg List.length (handle_task clear).1
  | status | quit => rfl

theorem handle_terminated (clear : Clear r) (ended : (d.handle r.msg).1.pc = .terminated) :
    r = .quit := by
  cases r with
  | task time stat => exact DriverPc.noConfusion ((handle_task clear).2.symm.trans ended)
  | status => cases ended
  | quit => rfl

end

structure Traffic where
  driver : Driver
  sent : List Request
  handled : List (List Msg)
  taken : List Msg

def traffic (log : List Event) (s : State) (i : Nat) : Traffic :=
  ⟨s.drivers i, sentTo i log, handledBy i log, takenFrom i log⟩

/-- The requests still in the pipe. -/
def Traffic.pending (c : Traffic) : List Request := c.sent.drop c.handled.length

structure Lane (c : Traffic) : Prop where
  counts : c.handled.map List.length = (c.sent.take c.handled.length).map repliesDue
  requests : c.driver.requests = c.pending.map Request.msg
  flow : c.handled.flatten = c.taken ++ c.driver.replies
  ended : c.driver.pc = .terminated → .quit ∈ c.sent

/-- No reply is in the pipe or will be written. -/
def Quiet (c : Traffic) : Prop := c.driver.replies = [] ∧ .status ∉ c.pending

/-- One reply is in the pipe or will be written, to the last request. -/
inductive Awaited (c : Traffic) : Prop
  | unanswered {older : List Request} (pending : c.pending = older ++ [.status])
      (once : .status ∉ older) (empty : c.driver.replies = [])
  | answered {reply : Msg} (all : c.handled.length = c.sent.length)
      (last : c.handled.getLast? = some [reply]) (written : c.driver.replies = [reply])

namespace Lane
variable {c : Traffic}

theorem within (lane : Lane c) : c.handled.length ≤ c.sent.length := by
  have same := congrArg List.length lane.counts
  rw [List.length_map, List.length_map, List.length_take] at same
  omega

theorem pending_send (lane : Lane c) (driver : Driver) (r : Request) :
    { c with driver, sent := c.sent ++ [r] }.pending = c.pending ++ [r] :=
  List.drop_append_of_le_length lane.within

theorem send (lane : Lane c) (r : Request) :
    Lane { c with
      driver := { c.driver with requests := c.driver.requests ++ [r.msg] }
      sent := c.sent ++ [r] } where
  counts := by
    show c.handled.map List.length = ((c.sent ++ [r]).take c.handled.length).map repliesDue
    rw [List.take_append_of_le_length lane.within]
    exact lane.counts
  requests := by
    rw [lane.pending_send, List.map_append, ← lane.requests]
    rfl
  flow := lane.flow
  ended terminated := List.mem_append_left _ (lane.ended terminated)

/-- The manager takes a reply: it is the oldest of those written. -/
theorem take (lane : Lane c) {reply : Msg} {replies : List Msg}
    (head : c.driver.replies = reply :: replies) :
    Lane { c with driver := { c.driver with replies }, taken := c.taken ++ [reply] } where
  counts := lane.counts
  requests := lane.requests
  flow := by
    rw [lane.flow, head]
    simp
  ended := lane.ended

/-- The next message a driver handles is the oldest request in its pipe. -/
theorem pending_head (lane : Lane c) {buff : Msg} {requests : List Msg}
    (head : c.driver.requests = buff :: requests) :
    ∃ r later, c.pending = r :: later ∧ buff = r.msg ∧ requests = later.map Request.msg := by
  have same := lane.requests.symm.trans head
  obtain ⟨r, later, pending, first, rest⟩ := List.map_eq_cons_iff.mp same
  exact ⟨r, later, pending, first.symm, rest.symm⟩

theorem pending_served {r : Request} {later : List Request} (pending : c.pending = r :: later)
    (driver : Driver) (written : List Msg) :
    { c with driver, handled := c.handled ++ [written] }.pending = later := by
  show c.sent.drop (c.handled ++ [written]).length = later
  rw [List.length_append, List.length_singleton, ← List.drop_drop, ← Traffic.pending, pending]
  rfl

theorem serve (lane : Lane c) (clear : ∀ r ∈ c.sent, Clear r) {r : Request}
    {later : List Request} (pending : c.pending = r :: later) {d : Driver} {written : List Msg}
    (handled : { c.driver with requests := later.map Request.msg }.handle r.msg = (d, written)) :
    Lane { c with
      driver := { d with replies := c.driver.replies ++ written }
      handled := c.handled ++ [written] } ∧ written.length = repliesDue r := by
  have inside : r ∈ c.sent := by
    refine List.mem_of_mem_drop (i := c.handled.length) ?_
    rw [← Traffic.pending, pending]
    exact List.mem_cons_self
  have counted := handle_written (d := { c.driver with requests := later.map Request.msg })
    (clear r inside)
  rw [handled] at counted
  refine ⟨⟨?_, ?_, ?_, ?_⟩, counted⟩
  · have taken : c.sent.take (c.handled.length + 1) = c.sent.take c.handled.length ++ [r] := by
      rw [List.take_add, ← Traffic.pending, pending]
      rfl
    show (c.handled ++ [written]).map List.length =
      (c.sent.take (c.handled ++ [written]).length).map repliesDue
    rw [List.length_append, List.length_singleton, taken, List.map_append, List.map_append,
      lane.counts]
    simp [counted]
  · have kept := handle_requests { c.driver with requests := later.map Request.msg } r.msg
    rw [handled] at kept
    rw [pending_served pending]
    exact kept
  · show (c.handled ++ [written]).flatten = c.taken ++ (c.driver.replies ++ written)
    rw [List.flatten_append, lane.flow]
    simp
  · intro terminated
    have ended := handle_terminated (d := { c.driver with requests := later.map Request.msg })
      (clear r inside)
    rw [handled] at ended
    exact ended terminated ▸ inside

/-- A change of the driver that touches neither pipe. -/
theorem driver (lane : Lane c) {d : Driver} (requests : d.requests = c.driver.requests)
    (replies : d.replies = c.driver.replies)
    (ended : d.pc = .terminated → c.driver.pc = .terminated) :
    Lane { c with driver := d } where
  counts := lane.counts
  requests := requests.trans lane.requests
  flow := by rw [replies, lane.flow]
  ended terminated := lane.ended (ended terminated)

end Lane

theorem quiet_send {c : Traffic} (lane : Lane c) (quiet : Quiet c) {r : Request}
    (silent : r ≠ .status) :
    Quiet { c with
      driver := { c.driver with requests := c.driver.requests ++ [r.msg] }
      sent := c.sent ++ [r] } := by
  refine ⟨quiet.1, ?_⟩
  rw [lane.pending_send, List.mem_append, List.mem_singleton, not_or]
  exact ⟨quiet.2, fun same => silent same.symm⟩

theorem awaited_send {c : Traffic} (lane : Lane c) (quiet : Quiet c) :
    Awaited { c with
      driver := { c.driver with requests := c.driver.requests ++ [Request.status.msg] }
      sent := c.sent ++ [.status] } :=
  .unanswered (lane.pending_send _ _) quiet.2 quiet.1

theorem quiet_serve {c : Traffic} (quiet : Quiet c) {r : Request} {later : List Request}
    (pending : c.pending = r :: later) {d : Driver} {written : List Msg}
    (counted : written.length = repliesDue r) :
    Quiet { c with
      driver := { d with replies := c.driver.replies ++ written }
      handled := c.handled ++ [written] } := by
  obtain ⟨empty, none⟩ := quiet
  rw [pending, List.mem_cons, not_or] at none
  rw [repliesDue_silent fun same => none.1 same.symm, List.length_eq_zero_iff] at counted
  refine ⟨by simp [empty, counted], ?_⟩
  rw [Lane.pending_served pending]
  exact none.2

theorem awaited_serve {c : Traffic} (lane : Lane c) (awaited : Awaited c) {r : Request}
    {later : List Request} (pending : c.pending = r :: later) {d : Driver} {written : List Msg}
    (counted : written.length = repliesDue r) :
    Awaited { c with
      driver := { d with replies := c.driver.replies ++ written }
      handled := c.handled ++ [written] } := by
  have left : c.sent.length = c.handled.length + (r :: later).length := by
    have within := lane.within
    rw [← pending, Traffic.pending, List.length_drop]
    omega
  cases awaited with
  | @unanswered older split once empty =>
    rw [pending] at split
    cases older with
    | nil =>
      -- The request the manager waits for is the one being handled.
      obtain ⟨rfl, rfl⟩ := List.cons.inj split
      obtain ⟨reply, rfl⟩ := List.length_eq_one_iff.mp counted
      have written : c.driver.replies ++ [reply] = [reply] := by simp [empty]
      refine .answered ?_ (by simp) written
      simp [left]
    | cons first older =>
      obtain ⟨rfl, rfl⟩ := List.cons.inj split
      rw [List.mem_cons, not_or] at once
      rw [repliesDue_silent fun same => once.1 same.symm, List.length_eq_zero_iff] at counted
      exact .unanswered (Lane.pending_served pending _ _) once.2 (by simp [empty, counted])
  | answered all =>
    rw [List.length_cons] at left
    omega

section
variable {log : List Event} {s t : State} {i j : Nat} {d : Driver}

def Event.number : Event → Nat
  | .sent i _ | .handled i _ | .taken i _ => i

theorem traffic_append (log : List Event) (e : Event) (t : State) (i : Nat) :
    traffic (log ++ [e]) t i = ⟨t.drivers i, sentTo i log ++ sentTo i [e],
      handledBy i log ++ handledBy i [e], takenFrom i log ++ takenFrom i [e]⟩ := by
  simp only [traffic, sentTo, handledBy, takenFrom, List.filterMap_append]

theorem traffic_other {e : Event} (other : j ≠ Event.number e)
    (drivers : t.drivers = Function.update s.drivers (Event.number e) d) :
    traffic (log ++ [e]) t j = traffic log s j := by
  have unseen : sentTo j [e] = [] ∧ handledBy j [e] = [] ∧ takenFrom j [e] = [] := by
    have different : Event.number e ≠ j := Ne.symm other
    cases e with
    | sent i r => exact ⟨by simpa [sentTo, Event.number] using different, rfl, rfl⟩
    | handled i written => exact ⟨rfl, by simpa [handledBy, Event.number] using different, rfl⟩
    | taken i reply => exact ⟨rfl, rfl, by simpa [takenFrom, Event.number] using different⟩
  rw [traffic_append, drivers, Function.update_of_ne other, unseen.1, unseen.2.1, unseen.2.2,
    List.append_nil, List.append_nil, List.append_nil, traffic]

theorem traffic_sent {r : Request} (drivers : t.drivers = Function.update s.drivers i d) :
    traffic (log ++ [.sent i r]) t i =
      { traffic log s i with driver := d, sent := (traffic log s i).sent ++ [r] } := by
  have seen : sentTo i [.sent i r] = [r] := by simp [sentTo]
  rw [traffic_append, drivers, Function.update_self, seen]
  simp [traffic, handledBy, takenFrom]

theorem traffic_handled {written : List Msg}
    (drivers : t.drivers = Function.update s.drivers i d) :
    traffic (log ++ [.handled i written]) t i =
      { traffic log s i with driver := d, handled := (traffic log s i).handled ++ [written] } := by
  have seen : handledBy i [.handled i written] = [written] := by simp [handledBy]
  rw [traffic_append, drivers, Function.update_self, seen]
  simp [traffic, sentTo, takenFrom]

theorem traffic_taken {reply : Msg} (drivers : t.drivers = Function.update s.drivers i d) :
    traffic (log ++ [.taken i reply]) t i =
      { traffic log s i with driver := d, taken := (traffic log s i).taken ++ [reply] } := by
  have seen : takenFrom i [.taken i reply] = [reply] := by simp [takenFrom]
  rw [traffic_append, drivers, Function.update_self, seen]
  simp [traffic, sentTo, handledBy]

/-- A property of every driver's traffic after a step that concerns one driver. -/
theorem forall_traffic {P : Traffic → Prop} {e : Event}
    (drivers : t.drivers = Function.update s.drivers (Event.number e) d)
    (old : ∀ j, j ≠ Event.number e → P (traffic log s j))
    (new : P (traffic (log ++ [e]) t (Event.number e))) (j : Nat) :
    P (traffic (log ++ [e]) t j) := by
  by_cases same : j = Event.number e
  · rw [same]
    exact new
  · rw [traffic_other same drivers]
    exact old j same

/-- The same for a step that nothing is seen of. -/
theorem forall_silent {P : Traffic → Prop} (drivers : t.drivers = Function.update s.drivers i d)
    (old : ∀ j, j ≠ i → P (traffic log s j)) (new : P { traffic log s i with driver := d })
    (j : Nat) : P (traffic log t j) := by
  rw [traffic, drivers]
  by_cases same : j = i
  · rw [same, Function.update_self]
    exact new
  · rw [Function.update_of_ne same]
    exact old j same

/-- Every reply read so far was the answer to the request just written. -/
def Answers : List Event → Prop :=
  EachEntry fun before e => ∀ i reply, e = .taken i reply → Answered before i reply

/-- The last thing the manager did was to write a status request to `i`. -/
def JustAsked (log : List Event) (i : Nat) : Prop :=
  ∃ earlier between, log = earlier ++ .sent i .status :: between ∧ ∀ e ∈ between, ByDriver e

/-- What the driver does in between does not change that it has just been asked. -/
theorem justAsked_append {e : Event} (asked : JustAsked log i) (byDriver : ByDriver e) :
    JustAsked (log ++ [e]) i := by
  obtain ⟨earlier, between, rfl, all⟩ := asked
  refine ⟨earlier, between ++ [e], by simp, fun other inside => ?_⟩
  rcases List.mem_append.mp inside with old | new
  · exact all other old
  · exact List.mem_singleton.mp new ▸ byDriver

end

/-- What is left of a command other than `quit`. -/
inductive Script (n : Nat) : List Op → Prop
  | done : Script n []
  | tell {i : Nat} {r : Request} (live : i < n) (clear : Clear r) (silent : r ≠ .status)
      (kept : r ≠ .quit) : Script n [.send i r]
  | ask {i : Nat} {todo : List Op} (live : i < n) (rest : Script n todo) :
      Script n (.send i .status :: .receive i :: todo)

/-- What is left of `quit`, or of a failed `fork`. -/
inductive Closing (n : Nat) : List Op → Prop
  | leave : Closing n [.leave]
  | quit {i : Nat} {todo : List Op} (live : i < n) (rest : Closing n todo) :
      Closing n (.send i .quit :: todo)

/-- "get_drivers" asks each driver and waits for its reply before it asks the next. -/
theorem script_rounds {n : Nat} {is : List Nat} (live : ∀ i ∈ is, i < n) :
    Script n (is.flatMap askOps) := by
  induction is with
  | nil => exact .done
  | cons i is ih =>
    exact .ask (live i List.mem_cons_self) (ih fun j inside =>
      live j (List.mem_cons_of_mem _ inside))

theorem closing_quits {n : Nat} {is : List Nat} (live : ∀ i ∈ is, i < n) :
    Closing n (is.map (Op.send · .quit) ++ [.leave]) := by
  induction is with
  | nil => exact .leave
  | cons i is ih =>
    exact .quit (live i List.mem_cons_self)
      (ih fun j inside => live j (List.mem_cons_of_mem _ inside))

/-- A command other than `create_driver` leaves the table alone; that one may
start the process with the next number. -/
inductive Begun (drv : Drv) : Outcome → Prop
  | script {todo : List Op} (script : Script drv.ndrivers todo) : Begun drv ⟨drv, none, todo⟩
  | closing {todo : List Op} (closing : Closing drv.ndrivers todo) : Begun drv ⟨drv, none, todo⟩
  | started {grown : Drv} (count : grown.ndrivers = drv.ndrivers + 1) :
      Begun drv ⟨grown, some drv.ndrivers, []⟩

/-- Whatever the command, what `main` has to do for it is one of the scripts. -/
theorem perform_begun {drv : Drv} {forked stat : Int} {c : Command} {outcome : Outcome} {s : State}
    (clear : ClearTasks s (.command c forked stat))
    (performed : perform drv forked stat c = .ok outcome) : Begun drv outcome := by
  cases c with
  | createDriver =>
    by_cases full : drv.ndrivers = maxDrivers
    · rw [createDriver_full drv forked stat full] at performed
      cases performed
      exact .script .done
    · by_cases failed : forked = -1
      · subst failed
        rw [createDriver_failed drv stat full] at performed
        cases performed
        exact .closing .leave
      · rw [createDriver_started drv forked stat full failed] at performed
        cases performed
        exact .started (by simp [Drv.ndrivers, Drv.add])
  | quit =>
    rw [perform_quit] at performed
    cases performed
    exact .closing (closing_quits fun i inside => List.mem_range.mp inside)
  | getDrivers =>
    rw [perform_getDrivers] at performed
    cases performed
    exact .script (script_rounds fun i inside => List.mem_range.mp inside)
  | sendTask pid time =>
    by_cases live : pid ∈ drv.pids
    · obtain ⟨i, inside, result⟩ := perform_sendTask drv forked stat live time
      rw [result] at performed
      cases performed
      exact .script (.tell inside clear Request.noConfusion Request.noConfusion)
    · rw [sendTask_unknown_pid drv forked stat live] at performed
      cases performed
  | getStatus pid =>
    by_cases live : pid ∈ drv.pids
    · obtain ⟨i, inside, result⟩ := perform_getStatus drv forked stat live
      rw [result] at performed
      cases performed
      exact .script (.ask inside .done)
    · rw [getStatus_unknown_pid drv forked stat live] at performed
      cases performed
  | unknown =>
    cases performed
    exact .script .done

/-- Where the manager stands. Only while it waits for a reply is one due. -/
inductive Stage (log : List Event) (s : State) : Prop
  | quiet (script : Script s.drv.ndrivers s.todo) (all : ∀ i, Quiet (traffic log s i))
      (staying : ∀ i, .quit ∉ sentTo i log)
  | asking {i : Nat} {todo : List Op} (next : s.todo = .receive i :: todo)
      (script : Script s.drv.ndrivers todo) (others : ∀ j, j ≠ i → Quiet (traffic log s j))
      (awaited : Awaited (traffic log s i)) (asked : JustAsked log i)
      (staying : ∀ i, .quit ∉ sentTo i log)
  | closing (closing : Closing s.drv.ndrivers s.todo) (all : ∀ i, Quiet (traffic log s i))

structure Invariant (log : List Event) (s : State) : Prop where
  fresh : ∀ i, s.drv.ndrivers ≤ i → s.drivers i = .absent
  clear : ∀ i, ∀ r ∈ sentTo i log, Clear r
  lanes : ∀ i, Lane (traffic log s i)
  answers : Answers log
  stage : Stage log s

theorem invariant_initial : Invariant [] State.initial where
  fresh _ _ := rfl
  clear _ _ inside := absurd inside List.not_mem_nil
  lanes _ := ⟨rfl, rfl, rfl, DriverPc.noConfusion⟩
  answers := eachEntry_nil
  stage := .quiet .done (fun _ => ⟨rfl, List.not_mem_nil⟩) fun _ => List.not_mem_nil

section
variable {log : List Event} {s : State}

/-- Between two commands no reply is due from anybody, and nobody has been told to quit.
-/
theorem stage_idle (stage : Stage log s) (idle : s.todo = []) :
    (∀ i, Quiet (traffic log s i)) ∧ ∀ i, .quit ∉ sentTo i log := by
  cases stage with
  | quiet _ all staying => exact ⟨all, staying⟩
  | asking next => simp [idle] at next
  | closing closing =>
    rw [idle] at closing
    cases closing

/-- A driver that exists is changed; those to come are as they were. -/
theorem fresh_update {i : Nat} (fresh : ∀ j, s.drv.ndrivers ≤ j → s.drivers j = .absent)
    (live : i < s.drv.ndrivers) (d : Driver) (j : Nat) (later : s.drv.ndrivers ≤ j) :
    Function.update s.drivers i d j = .absent := by
  rw [Function.update_of_ne (by omega), fresh j later]

/-- Whatever can take a step, or has anything in its pipes, has been started. -/
theorem live_of_ne (fresh : ∀ j, s.drv.ndrivers ≤ j → s.drivers j = .absent) {i : Nat}
    (started : s.drivers i ≠ .absent) : i < s.drv.ndrivers :=
  Nat.lt_of_not_le fun later => started (fresh i later)

theorem invariant_begin (inv : Invariant log s) (idle : s.todo = []) {outcome : Outcome}
    (begun : Begun s.drv outcome) : Invariant log (s.start outcome) := by
  obtain ⟨all, staying⟩ := stage_idle inv.stage idle
  cases begun with
  | script script => exact ⟨inv.fresh, inv.clear, inv.lanes, inv.answers, .quiet script all staying⟩
  | closing closing => exact ⟨inv.fresh, inv.clear, inv.lanes, inv.answers, .closing closing all⟩
  | @started grown count =>
    have absent : (traffic log s s.drv.ndrivers).driver = .absent := inv.fresh _ (Nat.le_refl _)
    have lane := inv.lanes s.drv.ndrivers
    have quiet := all s.drv.ndrivers
    refine ⟨fun i later => ?_, inv.clear, ?_, inv.answers, .quiet .done ?_ staying⟩
    · have later : s.drv.ndrivers + 1 ≤ i := count ▸ later
      show Function.update s.drivers s.drv.ndrivers .created i = .absent
      rw [Function.update_of_ne (by omega), inv.fresh i (by omega)]
    · exact forall_silent rfl (fun j _ => inv.lanes j)
        (lane.driver (by rw [absent]; rfl) (by rw [absent]; rfl) DriverPc.noConfusion)
    · exact forall_silent rfl (fun j _ => all j) ⟨rfl, quiet.2⟩

/-- Where the manager stands before it writes, and what it then goes on with. -/
theorem stage_send (inv : Invariant log s) {i : Nat} {r : Request} {todo : List Op}
    (next : s.todo = .send i r :: todo) :
    (∀ j, Quiet (traffic log s j)) ∧ i < s.drv.ndrivers ∧ Clear r ∧
      ((r ≠ .status ∧ r ≠ .quit ∧ todo = [] ∧ ∀ j, .quit ∉ sentTo j log) ∨
        (r = .quit ∧ Closing s.drv.ndrivers todo) ∨
        (r = .status ∧ (∀ j, .quit ∉ sentTo j log) ∧
          ∃ later, todo = .receive i :: later ∧ Script s.drv.ndrivers later)) := by
  cases inv.stage with
  | quiet script all staying =>
    rw [next] at script
    cases script with
    | tell live clear silent kept =>
      exact ⟨all, live, clear, Or.inl ⟨silent, kept, rfl, staying⟩⟩
    | ask live rest =>
      exact ⟨all, live, trivial, Or.inr (Or.inr ⟨rfl, staying, _, rfl, rest⟩)⟩
  | asking other => simp [next] at other
  | closing closing all =>
    rw [next] at closing
    cases closing with
    | quit live rest => exact ⟨all, live, trivial, Or.inr (Or.inl ⟨rfl, rest⟩)⟩

theorem invariant_send (inv : Invariant log s) {i : Nat} {r : Request} {todo : List Op}
    (next : s.todo = .send i r :: todo) :
    Invariant (log ++ [.sent i r]) ({ s with todo }.setDriver i
      { s.drivers i with requests := (s.drivers i).requests ++ [r.msg] }) := by
  obtain ⟨all, live, clear, goesOn⟩ := stage_send inv next
  have sent (j : Nat) : sentTo j (log ++ [.sent i r]) =
      if i = j then sentTo j log ++ [r] else sentTo j log := by
    by_cases same : i = j <;> simp [sentTo, same]
  refine ⟨fresh_update inv.fresh live _, ?_, ?_, ?_, ?_⟩
  · intro j other inside
    rw [sent] at inside
    split at inside
    · rcases List.mem_append.mp inside with old | new
      · exact inv.clear j other old
      · exact List.mem_singleton.mp new ▸ clear
    · exact inv.clear j other inside
  · refine forall_traffic (e := .sent i r) rfl (fun j _ => inv.lanes j) ?_
    rw [Event.number, traffic_sent rfl]
    exact (inv.lanes i).send r
  · exact inv.answers.append fun _ _ same => Event.noConfusion same
  · have staying (kept : r ≠ .quit) (before : ∀ j, .quit ∉ sentTo j log) (j : Nat) :
        .quit ∉ sentTo j (log ++ [.sent i r]) := by
      rw [sent]
      split
      · simpa [before j] using fun same => kept same.symm
      · exact before j
    have quiet (silent : r ≠ .status) : ∀ j, Quiet (traffic (log ++ [.sent i r])
        ({ s with todo }.setDriver i
          { s.drivers i with requests := (s.drivers i).requests ++ [r.msg] }) j) := by
      refine forall_traffic (e := .sent i r) rfl (fun j _ => all j) ?_
      rw [Event.number, traffic_sent rfl]
      exact quiet_send (inv.lanes i) (all i) silent
    rcases goesOn with ⟨silent, kept, rfl, before⟩ | ⟨rfl, rest⟩ | ⟨rfl, before, later, rfl, rest⟩
    · exact .quiet .done (quiet silent) (staying kept before)
    · exact .closing rest (quiet Request.noConfusion)
    · refine .asking rfl rest (fun j other => ?_) ?_ ⟨log, [], rfl, fun _ inside =>
        absurd inside List.not_mem_nil⟩ (staying Request.noConfusion before)
      · rw [traffic_other other rfl]
        exact all j
      · rw [traffic_sent rfl]
        exact awaited_send (inv.lanes i) (all i)

/-- Only a manager that waits for a reply reads one. -/
theorem stage_receive (inv : Invariant log s) {i : Nat} {todo : List Op}
    (next : s.todo = .receive i :: todo) :
    Script s.drv.ndrivers todo ∧ (∀ j, j ≠ i → Quiet (traffic log s j)) ∧
      Awaited (traffic log s i) ∧ JustAsked log i ∧ ∀ j, .quit ∉ sentTo j log := by
  cases inv.stage with
  | quiet script =>
    rw [next] at script
    cases script
  | asking same script others awaited asked staying =>
    obtain ⟨sameDriver, sameTodo⟩ := List.cons.inj (next.symm.trans same)
    cases sameDriver
    subst sameTodo
    exact ⟨script, others, awaited, asked, staying⟩
  | closing closing =>
    rw [next] at closing
    cases closing

/-- The manager reads the reply it waits for: it is from the driver it has asked last.
-/
theorem invariant_take (inv : Invariant log s) {i : Nat} {todo : List Op} {reply : Msg}
    {replies : List Msg} (next : s.todo = .receive i :: todo)
    (head : (s.drivers i).replies = reply :: replies) :
    Invariant (log ++ [.taken i reply])
      ({ s with todo }.setDriver i { s.drivers i with replies }) := by
  obtain ⟨script, others, awaited, asked, staying⟩ := stage_receive inv next
  have live : i < s.drv.ndrivers := live_of_ne inv.fresh fun absent => by
    rw [absent] at head
    cases head
  have sent (j : Nat) : sentTo j (log ++ [.taken i reply]) = sentTo j log := by simp [sentTo]
  cases awaited with
  | unanswered _ _ empty =>
    rw [traffic, head] at empty
    cases empty
  | @answered written all last single =>
    obtain ⟨rfl, rfl⟩ := List.cons.inj (head.symm.trans single)
    refine ⟨fresh_update inv.fresh live _, ?_, ?_, ?_, ?_⟩
    · intro j other inside
      rw [sent] at inside
      exact inv.clear j other inside
    · refine forall_traffic (e := .taken i reply) rfl (fun j _ => inv.lanes j) ?_
      rw [Event.number, traffic_taken rfl]
      exact (inv.lanes i).take head
    · refine inv.answers.append fun j other same => ?_
      cases same
      exact ⟨asked, all, last⟩
    · refine .quiet script ?_ fun j => by rw [sent]; exact staying j
      refine forall_traffic (e := .taken i reply) rfl (fun j other => others j other) ?_
      rw [Event.number, traffic_taken rfl]
      refine ⟨rfl, ?_⟩
      show Request.status ∉ (traffic log s i).sent.drop (traffic log s i).handled.length
      rw [all, List.drop_length]
      exact List.not_mem_nil

/-- The end of the pipe is not seen: no driver has terminated. -/
theorem not_endOfFile (inv : Invariant log s) {i : Nat} {todo : List Op}
    (next : s.todo = .receive i :: todo) : (s.drivers i).pc ≠ .terminated := by
  obtain ⟨-, -, -, -, staying⟩ := stage_receive inv next
  exact fun terminated => staying i ((inv.lanes i).ended terminated)

/-- A driver handles a request, with no more to write than one reply. -/
theorem invariant_serve (inv : Invariant log s) {i : Nat} {buff : Msg} {requests : List Msg}
    {d : Driver} {written : List Msg} (head : (s.drivers i).requests = buff :: requests)
    (handled : { s.drivers i with requests }.handle buff = (d, written)) :
    Invariant (log ++ [.handled i written])
      (s.setDriver i { d with replies := (s.drivers i).replies ++ written }) := by
  have live : i < s.drv.ndrivers := live_of_ne inv.fresh fun absent => by
    rw [absent] at head
    cases head
  obtain ⟨r, later, pending, rfl, rfl⟩ := (inv.lanes i).pending_head head
  obtain ⟨lane, counted⟩ := (inv.lanes i).serve (inv.clear i) pending handled
  have sent (j : Nat) : sentTo j (log ++ [.handled i written]) = sentTo j log := by simp [sentTo]
  have quiet (old : ∀ j, Quiet (traffic log s j)) : ∀ j, Quiet (traffic
      (log ++ [.handled i written])
      (s.setDriver i { d with replies := (s.drivers i).replies ++ written }) j) := by
    refine forall_traffic (e := .handled i written) rfl (fun j _ => old j) ?_
    rw [Event.number, traffic_handled rfl]
    exact quiet_serve (old i) pending counted
  refine ⟨fresh_update inv.fresh live _, ?_, ?_, ?_, ?_⟩
  · intro j other inside
    rw [sent] at inside
    exact inv.clear j other inside
  · refine forall_traffic (e := .handled i written) rfl (fun j _ => inv.lanes j) ?_
    rw [Event.number, traffic_handled rfl]
    exact lane
  · exact inv.answers.append fun _ _ same => Event.noConfusion same
  · cases inv.stage with
    | quiet script all staying =>
      exact .quiet script (quiet all) fun j => by rw [sent]; exact staying j
    | @asking k todo next script others awaited asked staying =>
      refine .asking next script ?_ ?_ (justAsked_append asked trivial) fun j => by
        rw [sent]
        exact staying j
      · intro j other
        by_cases same : j = i
        · subst same
          rw [traffic_handled rfl]
          exact quiet_serve (others j other) pending counted
        · rw [traffic_other same rfl]
          exact others j other
      · by_cases same : k = i
        · subst same
          rw [traffic_handled rfl]
          exact awaited_serve (inv.lanes k) awaited pending counted
        · rw [traffic_other same rfl]
          exact awaited
    | closing closing all => exact .closing closing (quiet all)

/-- A step that nothing is seen of, moves no command on and leaves the pipes
alone. -/
theorem invariant_silent {t : State} (inv : Invariant log s) (drv : t.drv = s.drv)
    (todo : t.todo = s.todo)
    (requests : ∀ j, (t.drivers j).requests = (s.drivers j).requests)
    (replies : ∀ j, (t.drivers j).replies = (s.drivers j).replies)
    (ended : ∀ j, (t.drivers j).pc = .terminated → (s.drivers j).pc = .terminated)
    (absent : ∀ j, s.drivers j = .absent → t.drivers j = .absent) : Invariant log t := by
  have quiet {j : Nat} (old : Quiet (traffic log s j)) : Quiet (traffic log t j) :=
    ⟨(replies j).trans old.1, old.2⟩
  refine ⟨fun j later => absent j (inv.fresh j (drv ▸ later)), inv.clear,
    fun j => (inv.lanes j).driver (requests j) (replies j) (ended j), inv.answers, ?_⟩
  cases inv.stage with
  | quiet script all staying =>
    exact .quiet (by rwa [drv, todo]) (fun j => quiet (all j)) staying
  | @asking i rest next script others awaited asked staying =>
    refine .asking (todo.trans next) (by rwa [drv]) (fun j other => quiet (others j other)) ?_
      asked staying
    cases awaited with
    | unanswered pending once empty => exact .unanswered pending once ((replies i).trans empty)
    | answered all last written => exact .answered all last ((replies i).trans written)
  | closing closing all => exact .closing (by rwa [drv, todo]) fun j => quiet (all j)

theorem invariant_wake (inv : Invariant log s) {i : Nat} (waiting : (s.drivers i).pc = .waiting) :
    Invariant log (s.setDriver i (s.drivers i).wake) := by
  refine invariant_silent inv rfl rfl ?_ ?_ ?_ ?_ <;> intro j <;>
    by_cases same : j = i
  · simp [State.setDriver, same, Driver.wake]
  · simp [State.setDriver, same]
  · simp [State.setDriver, same, Driver.wake]
  · simp [State.setDriver, same]
  · simp only [State.setDriver, same, Function.update_self, Driver.wake]
    split <;> exact fun never => DriverPc.noConfusion never
  · simp [State.setDriver, same]
  · intro absent
    rw [← same, absent] at waiting
    cases waiting
  · simp [State.setDriver, same]

/-- One step of the manager or of a driver keeps the lanes in order. -/
theorem invariant_step {capacity : Nat} {a : Action} {t : State} (inv : Invariant log s)
    (allowed : ClearTasks s a) (stepped : (system capacity).step s a = some t) :
    Invariant (log ++ (system capacity).emit s a) t := by
  have moved := step_move stepped
  generalize (system capacity).emit s a = seen at moved ⊢
  cases moved with
  | begin idle performed =>
    rw [List.append_nil]
    exact invariant_begin inv idle (perform_begun allowed performed)
  | send next => exact invariant_send inv next
  | take next head => exact invariant_take inv next head
  | endOfFile next terminated => exact absurd terminated (not_endOfFile inv next)
  | stop =>
    rw [List.append_nil]
    exact invariant_silent inv rfl rfl (fun _ => rfl) (fun _ => rfl) (fun _ => id) fun _ => id
  | wake waiting =>
    rw [List.append_nil]
    exact invariant_wake inv waiting
  | serve head handled => exact invariant_serve inv head handled
  | elapse ns =>
    rw [List.append_nil]
    refine invariant_silent inv rfl rfl (fun _ => rfl) (fun _ => rfl) (fun _ => id) ?_
    intro j absent
    show { s.drivers j with timer := (s.drivers j).timer.elapse ns } = Driver.absent
    rw [absent]
    rfl

end

/-- The replies written are those due for the requests, in their order, as far as these
have been handled. -/
theorem Lane.matched {c : Traffic} (lane : Lane c) :
    c.handled.map List.length <+: c.sent.map repliesDue := by
  rw [lane.counts]
  exact (List.take_prefix _ _).map repliesDue

/-- What has been handled has been answered, so nothing is left to be read. -/
theorem Lane.drained {c : Traffic} (lane : Lane c) (quiet : Quiet c) :
    c.taken.length = c.sent.count .status := by
  have due (sent : List Request) : (sent.map repliesDue).sum = sent.count .status := by
    induction sent with
    | nil => rfl
    | cons r sent ih =>
      rw [List.map_cons, List.sum_cons, ih, List.count_cons]
      cases r <;> simp [repliesDue, Nat.add_comm]
  have handled : c.handled.flatten.length = (c.sent.take c.handled.length).count .status := by
    rw [List.length_flatten, lane.counts, due]
  have flow := congrArg List.length lane.flow
  rw [handled, quiet.1, List.append_nil] at flow
  have all := congrArg (List.count Request.status) (List.take_append_drop c.handled.length c.sent)
  rw [List.count_append, ← Traffic.pending, List.count_eq_zero.mpr quiet.2] at all
  omega

theorem Invariant.matched {log : List Event} {s : State} (inv : Invariant log s) :
    Matched log s where
  oneReplyEach i := (inv.lanes i).matched
  endsOnQuit i := (inv.lanes i).ended
  answers before i reply after split := inv.answers before _ after split i reply rfl
  drained idle i :=
    have quiet := (stage_idle inv.stage idle).1 i
    ⟨quiet.1, (inv.lanes i).drained quiet⟩

/-- While `send_task` cannot be taken for another message, every status request
gets its one reply, at once, and nothing else is answered. -/
theorem replies_match {capacity : Nat} {log : List Event} {s : State}
    (run : (system capacity).Reach ClearTasks .initial log s) : Matched log s :=
  (run.invariant Invariant invariant_initial
    fun _ _ _ _ inv allowed stepped => invariant_step inv allowed stepped).matched

/-- One driver is created and asked for its status while it has a task of five
seconds. -/
theorem replies_match_one :
    ∃ log s, (system 8192).Reach ClearTasks .initial log s ∧ Matched log s ∧
      log = [.sent 0 (.task 5 2), .handled 0 [], .sent 0 .status, .handled 0 [⟨4, 1⟩],
        .taken 0 ⟨4, 1⟩] := by
  obtain ⟨log, s, run, seen⟩ := System.exists_reach (system 8192) ClearTasks .initial
    [.command .createDriver 100 0, .command (.sendTask 100 5) 0 2, .manager, .driver 0, .driver 0,
      .elapse 1, .command (.getStatus 100) 0 0, .manager, .driver 0, .driver 0, .manager]
    (fun log _ => log = [.sent 0 (.task 5 2), .handled 0 [], .sent 0 .status, .handled 0 [⟨4, 1⟩],
      .taken 0 ⟨4, 1⟩]) (by decide)
  exact ⟨log, s, run, replies_match run, seen⟩

/-- A task of zero seconds whose `stat` happens to be 2 is answered, and the
next status request gets that answer. -/
theorem stray_reply :
    ¬ ∀ capacity log s, (system capacity).Reach System.Anything .initial log s → Matched log s := by
  intro matched
  obtain ⟨log, s, run, rfl⟩ := System.exists_reach (system 8192) System.Anything .initial
    [.command .createDriver 100 0, .command (.sendTask 100 0) 0 2, .manager, .driver 0, .driver 0,
      .command (.getStatus 100) 0 0, .manager, .manager]
    (fun log _ => log = [.sent 0 (.task 0 2), .handled 0 [⟨0, 0⟩], .sent 0 .status,
      .taken 0 ⟨0, 0⟩]) (by decide)
  have answered := (matched 8192 _ s run).answers
    [.sent 0 (.task 0 2), .handled 0 [⟨0, 0⟩], .sent 0 .status] 0 ⟨0, 0⟩ [] rfl
  exact absurd answered.handledAll (by decide)

end EltexCourse.Guarantees.Drivers.Replies
