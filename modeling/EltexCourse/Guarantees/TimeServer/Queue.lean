import Mathlib.Algebra.Order.BigOperators.Group.Finset
import Mathlib.Tactic.DeriveFintype
import EltexCourse.Foundations.Custody
import EltexCourse.Source.TimeServer.ProducerConsumer

/-!
# The queue of producer_consumer loses no request

A request that is not taken for a kill message is with `main`, in the queue or with
one handler until it is answered.
The three stop markers come behind all requests, so that a handler that has one
leaves only markers behind it, and all three are taken when all have stopped.
-/

set_option autoImplicit false

namespace EltexCourse.Guarantees.TimeServer.Queue
open Foundations.CString Foundations.CBuffer Foundations.Transition Foundations.Custody
  Source.TimeServer
open Source.TimeServer.ProducerConsumer

variable {Client : Type}

inductive Move (s : State Client) : State Client → List (Event Client (Fin 3)) → Prop where
  | receives (client : Client) (buff : Text) (pc : s.main = .receiving) :
      Move s
        { s with
          msg := { s.msg with client := ⟨s.arrivals, client⟩ }
          buff
          main := .sending
          arrivals := s.arrivals + 1 } [.received ⟨s.arrivals, client⟩]
  | kills (buff : Text) (pc : s.main = .receiving) :
      Move s
        { s with
          msg := { s.msg with isReady := -1 }
          buff
          main := .killing 3
          arrivals := s.arrivals + 1 } []
  | sends (pc : s.main = .sending) : Move s (s.send .receiving) []
  | marks (left : Nat) (pc : s.main = .killing (left + 1)) : Move s (s.send (.killing left)) []
  | takes (h : Fin 3) (msg : Message Client) (queue : List (Message Client))
      (first : s.queue = msg :: queue) (pc : s.handler h = .receiving) :
      Move s ({ s with queue }.setHandler h (.testing msg)) []
  | stops (h : Fin 3) (msg : Message Client) (marker : msg.isReady = -1)
      (pc : s.handler h = .testing msg) : Move s (s.setHandler h .stopped) [.noted h]
  | answers (h : Fin 3) (msg : Message Client) (request : msg.isReady ≠ -1)
      (pc : s.handler h = .testing msg) : Move s (s.setHandler h .receiving) [.answered msg.client]

section Moves

variable {s t : State Client} {a : Action Client}

theorem step_move (heard : ∀ d, s.main = .receiving → a = .main d → Understood s.buff d)
    (stepped : server.step s a = some t) : Move s t (server.emit s a) := by
  simp only [server, step, emit] at stepped ⊢
  cases a with
  | main datagram =>
    simp only [mainStep] at stepped
    split at stepped
    · next pc =>
      simp only [pc]
      by_cases said : isKill datagram.bytes = true
      · rw [if_pos (isKill_overlay said s.buff)] at stepped
        cases stepped
        rw [if_pos said]
        exact .kills _ pc
      · rw [if_neg fun taken => said (heard datagram pc rfl taken)] at stepped
        cases stepped
        rw [if_neg said]
        exact .receives datagram.client _ pc
    · next pc =>
      cases stepped
      simp only [pc]
      exact .sends pc
    · next left pc =>
      cases stepped
      simp only [pc]
      exact .marks left pc
    · cases stepped
  | handler h =>
    simp only [handlerStep] at stepped
    split at stepped
    · next pc =>
      split at stepped
      · cases stepped
      · next msg queue first =>
        cases stepped
        simp only [pc]
        exact .takes h msg queue first pc
    · next msg pc =>
      cases stepped
      simp only [pc]
      by_cases marker : msg.isReady = -1
      · rw [if_pos marker, if_pos marker]
        exact .stops h msg marker pc
      · rw [if_neg marker, if_neg marker]
        exact .answers h msg marker pc
    · cases stepped

end Moves

/-- Where a request can be. -/
inductive Place where
  | main
  | queue
  | handler (h : Fin 3)
  deriving DecidableEq, Fintype

/-- A marker stands for no request. -/
def carried (msg : Message Client) : List (Request Client) :=
  if msg.isReady = -1 then [] else [msg.client]

def inHand : HandlerPc Client → List (Request Client)
  | .testing msg => carried msg
  | .receiving | .stopped => []

def kept (s : State Client) : Place → List (Request Client)
  | .main => if s.main = .sending then [s.msg.client] else []
  | .queue => s.queue.flatMap carried
  | .handler h => inHand (s.handler h)

/-- What `main` has in `msg` at the `msgsnd` calls. -/
def Ready (s : State Client) : Prop :=
  match s.main with
  | .receiving | .sending => s.msg.isReady = 1
  | .killing _ => s.msg.isReady = -1

section Requests

variable {s t : State Client} {events log : List (Event Client (Fin 3))} {h : Fin 3}
  {pc : HandlerPc Client}

theorem Move.ready (move : Move s t events) (ready : Ready s) : Ready t := by
  unfold Ready at ready ⊢
  cases move with
  | receives client buff pc =>
    rw [pc] at ready
    exact ready
  | kills buff pc => rfl
  | sends pc =>
    rw [pc] at ready
    exact ready
  | marks left pc =>
    rw [pc] at ready
    exact ready
  | takes h msg queue first pc => exact ready
  | stops h msg marker pc => exact ready
  | answers h msg request pc => exact ready

theorem kept_setHandler : kept (s.setHandler h pc) (.handler h) = inHand pc :=
  congrArg inHand (Function.update_self ..)

theorem kept_setHandler_ne {place : Place} (other : place ≠ .handler h) :
    kept (s.setHandler h pc) place = kept s place := by
  cases place with
  | main => rfl
  | queue => rfl
  | handler i =>
    have different : i ≠ h := fun same => other (congrArg Place.handler same)
    exact congrArg inHand (Function.update_of_ne different ..)

variable [DecidableEq Client]

/-- Each request is answered or in one place, and was given a number. -/
structure Accounted (log : List (Event Client (Fin 3))) (s : State Client) : Prop where
  balanced : Balanced (requests log) (answers log) (kept s)
  numbered : ∀ r ∈ requests log, r.arrival < s.arrivals

theorem start_accounted (client : Request Client) (junk : Text) :
    Accounted [] (start client junk) := by
  constructor
  · apply Balanced.start.congr
    intro place
    cases place <;> rfl
  · intro r member
    cases member

/-- A new request is with main, and its number has not been given before. -/
theorem Accounted.receives (accounted : Accounted log s) (pc : s.main = .receiving)
    (client : Client) (buff : Text) :
    Accounted (log ++ [.received ⟨s.arrivals, client⟩])
      { s with
        msg := { s.msg with client := ⟨s.arrivals, client⟩ }
        buff
        main := .sending
        arrivals := s.arrivals + 1 } := by
  constructor
  · rw [requests_received, answers_received]
    apply accounted.balanced.issue .main
    · intro old
      exact absurd (accounted.numbered _ old) (Nat.lt_irrefl _)
    · simp [kept, pc]
    · intro place other
      cases place with
      | main => exact absurd rfl other
      | queue => rfl
      | handler h => rfl
  · rw [requests_received]
    exact numbered_received accounted.numbered client

/-- `msgsnd` hands the request over to the queue. -/
theorem Accounted.sends (accounted : Accounted log s) (pc : s.main = .sending)
    (ready : s.msg.isReady = 1) : Accounted log (s.send .receiving) := by
  have request : carried s.msg = [s.msg.client] := if_neg (by rw [ready]; decide)
  refine ⟨accounted.balanced.pass (x := s.msg.client) .main .queue (by decide) ?_ ?_ ?_,
    accounted.numbered⟩
  · simp [kept, State.send, pc]
  · simp [kept, State.send, request]
  · intro place notMain notQueue
    cases place with
    | main => exact absurd rfl notMain
    | queue => exact absurd rfl notQueue
    | handler h => rfl

/-- A marker in the queue is no request. -/
theorem Accounted.marks (accounted : Accounted log s) {left : Nat}
    (pc : s.main = .killing (left + 1)) (ready : s.msg.isReady = -1) :
    Accounted log (s.send (.killing left)) := by
  have marker : carried s.msg = [] := if_pos ready
  refine ⟨accounted.balanced.congr fun place => ?_, accounted.numbered⟩
  cases place with
  | main => simp [kept, State.send, pc]
  | queue => simp [kept, State.send, marker]
  | handler h => rfl

/-- `msgrcv` hands over to the handler what the first message carries. -/
theorem Accounted.takes (accounted : Accounted log s) {msg : Message Client}
    {queue : List (Message Client)} (first : s.queue = msg :: queue)
    (pc : s.handler h = .receiving) :
    Accounted log ({ s with queue }.setHandler h (.testing msg)) := by
  refine ⟨?_, accounted.numbered⟩
  apply accounted.balanced.handOver .queue (.handler h) Place.noConfusion
  · have left : kept ({ s with queue }.setHandler h (.testing msg)) .queue =
        queue.flatMap carried := rfl
    rw [left, kept, first, List.flatMap_cons]
  · have nothing : kept s (.handler h) = [] := by
      simp [kept, pc, inHand]
    rw [kept_setHandler, nothing, List.nil_append]
    rfl
  · intro place notQueue notHandler
    rw [kept_setHandler_ne notHandler]
    cases place with
    | main => rfl
    | queue => exact absurd rfl notQueue
    | handler i => rfl

theorem Accounted.stops (accounted : Accounted log s) {msg : Message Client}
    (marker : msg.isReady = -1) (pc : s.handler h = .testing msg) :
    Accounted (log ++ [.noted h]) (s.setHandler h .stopped) := by
  constructor
  · rw [requests_noted, answers_noted]
    apply accounted.balanced.congr
    intro place
    by_cases own : place = .handler h
    · rw [own, kept_setHandler]
      have nothing : carried msg = [] := if_pos marker
      simp [kept, pc, inHand, nothing]
    · exact kept_setHandler_ne own
  · intro r member
    exact accounted.numbered r (requests_noted ▸ member)

/-- `sendto` answers the request that the handler has. -/
theorem Accounted.answers (accounted : Accounted log s) {msg : Message Client}
    (request : msg.isReady ≠ -1) (pc : s.handler h = .testing msg) :
    Accounted (log ++ [.answered msg.client]) (s.setHandler h .receiving) := by
  constructor
  · rw [requests_answered, answers_answered]
    apply accounted.balanced.settle (.handler h)
    · rw [kept_setHandler]
      have one : carried msg = [msg.client] := if_neg request
      simp [kept, pc, inHand, one]
    · intro place other
      exact kept_setHandler_ne other
  · intro r member
    exact accounted.numbered r (requests_answered ▸ member)

/-- Every request is in one place: with main, in the queue, with one handler, or
answered. A step moves it from one place to the next. -/
theorem Move.accounted (move : Move s t events) (ready : Ready s) (accounted : Accounted log s) :
    Accounted (log ++ events) t := by
  unfold Ready at ready
  cases move with
  | receives client buff pc => exact accounted.receives pc client buff
  | kills buff pc =>
    rw [List.append_nil]
    refine ⟨accounted.balanced.congr fun place => ?_,
      fun r member => Nat.lt_succ_of_lt (accounted.numbered r member)⟩
    cases place with
    | main => simp [kept, pc]
    | queue => rfl
    | handler h => rfl
  | sends pc =>
    rw [pc] at ready
    rw [List.append_nil]
    exact accounted.sends pc ready
  | marks left pc =>
    rw [pc] at ready
    rw [List.append_nil]
    exact accounted.marks pc ready
  | takes h msg queue first pc =>
    rw [List.append_nil]
    exact accounted.takes first pc
  | stops h msg marker pc => exact accounted.stops marker pc
  | answers h msg request pc => exact accounted.answers request pc

end Requests

def isMarker (msg : Message Client) : Bool := msg.isReady = -1

/-- Whether a handler has taken a marker. -/
def took : HandlerPc Client → Nat
  | .testing msg => if isMarker msg then 1 else 0
  | .stopped => 1
  | .receiving => 0

def halted : HandlerPc Client → Nat
  | .stopped => 1
  | .testing _ | .receiving => 0

/-- The markers `main` has still to send. -/
def unsent : MainPc → Nat
  | .receiving | .sending => 3
  | .killing left => left

/-- There are three markers, and behind a marker are only markers. -/
structure Marked (log : List (Event Client (Fin 3))) (s : State Client) : Prop where
  three : s.queue.countP isMarker + ∑ h, took (s.handler h) + unsent s.main = 3
  behind : s.queue.Pairwise fun first second => isMarker first = true → isMarker second = true
  alone : (∃ h, took (s.handler h) = 1) → ∀ msg ∈ s.queue, isMarker msg = true
  noted : ∀ h, (notes log).count h = halted (s.handler h)

section Markers

variable {s t : State Client} {events log : List (Event Client (Fin 3))} {h : Fin 3}
  {pc : HandlerPc Client}

theorem start_marked (client : Request Client) (junk : Text) : Marked [] (start client junk) := by
  constructor
  · rfl
  · exact List.Pairwise.nil
  · intro _ msg member
    cases member
  · intro h
    rfl

/-- As long as a marker is to be sent by `main` as a whole, none is about. -/
theorem Marked.none (marked : Marked log s) (early : unsent s.main = 3) :
    (∀ msg ∈ s.queue, isMarker msg = false) ∧ ∀ h, took (s.handler h) ≠ 1 := by
  have three := marked.three
  constructor
  · intro msg member
    have none : s.queue.countP isMarker = 0 := by omega
    exact Bool.eq_false_iff.mpr (List.countP_eq_zero.mp none msg member)
  · intro h one
    have part := Finset.single_le_sum (fun i _ => Nat.zero_le (took (s.handler i)))
      (Finset.mem_univ h)
    omega

theorem setHandler_handler : (s.setHandler h pc).handler h = pc := Function.update_self ..

theorem setHandler_handler_ne {i : Fin 3} (other : i ≠ h) :
    (s.setHandler h pc).handler i = s.handler i := Function.update_of_ne other ..

/-- A handler goes on with what it has taken. -/
theorem Marked.goOn (marked : Marked log s) (same : took pc = took (s.handler h))
    (noted : ∀ i, (notes (log ++ events)).count i = halted ((s.setHandler h pc).handler i)) :
    Marked (log ++ events) (s.setHandler h pc) := by
  have unchanged : ∀ i, took ((s.setHandler h pc).handler i) = took (s.handler i) := by
    intro i
    by_cases own : i = h
    · rw [own, setHandler_handler, same]
    · rw [setHandler_handler_ne own]
  refine ⟨?_, marked.behind, ?_, noted⟩
  · simp only [unchanged]
    exact marked.three
  · simp only [unchanged]
    exact marked.alone

/-- A handler takes the first message of the queue; what the marks say of the rest is as
before. -/
theorem Marked.takes {msg : Message Client} {queue : List (Message Client)}
    (marked : Marked log s) (first : s.queue = msg :: queue) (pc : s.handler h = .receiving) :
    Marked log ({ s with queue }.setHandler h (.testing msg)) := by
  have three := marked.three
  have behind := marked.behind
  have alone := marked.alone
  rw [first] at three behind alone
  have sum := sum_change (fun i => took (s.handler i))
    (fun i => took (({ s with queue }.setHandler h (.testing msg)).handler i)) h fun i other =>
      congrArg took (Function.update_of_ne other ..)
  have new : ({ s with queue }.setHandler h (.testing msg)).handler h = .testing msg :=
    Function.update_self ..
  have mine : took (({ s with queue }.setHandler h (.testing msg)).handler h) =
      if isMarker msg then 1 else 0 := congrArg took new
  have before : took (s.handler h) = 0 := congrArg took pc
  rw [mine, before] at sum
  constructor
  · have count : (msg :: queue).countP isMarker =
        queue.countP isMarker + if isMarker msg then 1 else 0 := List.countP_cons
    have main : ({ s with queue }.setHandler h (.testing msg)).main = s.main := rfl
    have rest : ({ s with queue }.setHandler h (.testing msg)).queue = queue := rfl
    rw [main, rest]
    omega
  · exact behind.of_cons
  · rintro ⟨i, one⟩ other member
    by_cases own : i = h
    · rw [own, new] at one
      have marker : isMarker msg = true := by
        by_contra request
        simp [took, request] at one
      exact List.rel_of_pairwise_cons behind member marker
    · have before : took (s.handler i) = 1 := by
        rw [← one]
        exact congrArg took (Function.update_of_ne own ..).symm
      exact alone ⟨i, before⟩ other (List.mem_cons_of_mem _ member)
  · intro i
    rw [marked.noted i]
    by_cases own : i = h
    · rw [own, new, pc]
      rfl
    · exact congrArg halted (Function.update_of_ne own ..).symm

/-- What `main` puts behind the queue. -/
theorem Marked.send {main : MainPc} (marked : Marked log s)
    (three : (if isMarker s.msg then 1 else 0) + unsent main = unsent s.main)
    (early : isMarker s.msg = true ∨ unsent s.main = 3) : Marked log (s.send main) := by
  constructor
  · have before := marked.three
    have count : (s.queue ++ [s.msg]).countP isMarker =
        s.queue.countP isMarker + if isMarker s.msg then 1 else 0 := by
      rw [List.countP_append, List.countP_singleton]
    simp only [State.send]
    omega
  · apply List.pairwise_append.mpr
    refine ⟨marked.behind, List.pairwise_singleton _ _, fun msg member last isLast marker => ?_⟩
    rw [List.mem_singleton.mp isLast]
    rcases early with mark | before
    · exact mark
    · rw [(marked.none before).1 msg member] at marker
      cases marker
  · rintro ⟨h, one⟩ msg member
    rcases List.mem_append.mp member with old | new
    · exact marked.alone ⟨h, one⟩ msg old
    · rw [List.mem_singleton.mp new]
      rcases early with mark | before
      · exact mark
      · exact absurd one ((marked.none before).2 h)
  · exact marked.noted

theorem Move.marked (move : Move s t events) (ready : Ready s) (marked : Marked log s) :
    Marked (log ++ events) t := by
  unfold Ready at ready
  cases move with
  | receives client buff pc =>
    have three := marked.three
    rw [pc] at three
    exact ⟨three, marked.behind, marked.alone, by simpa [notes_received] using marked.noted⟩
  | kills buff pc =>
    rw [List.append_nil]
    have three := marked.three
    rw [pc] at three
    exact ⟨three, marked.behind, marked.alone, marked.noted⟩
  | sends pc =>
    rw [List.append_nil]
    rw [pc] at ready
    have request : isMarker s.msg = false := decide_eq_false (by rw [ready]; decide)
    apply marked.send
    · rw [request, pc]
      rfl
    · rw [pc]
      exact .inr rfl
  | marks left pc =>
    rw [List.append_nil]
    rw [pc] at ready
    have marker : isMarker s.msg = true := decide_eq_true ready
    apply marked.send
    · rw [marker, pc]
      exact Nat.add_comm 1 left
    · exact .inl marker
  | takes h msg queue first pc =>
    rw [List.append_nil]
    exact marked.takes first pc
  | stops h msg marker pc =>
    apply marked.goOn
    · rw [pc]
      exact (if_pos (decide_eq_true marker)).symm
    · intro i
      rw [notes_noted, List.count_append, marked.noted i]
      by_cases own : i = h
      · rw [own, setHandler_handler, pc]
        simp [halted]
      · rw [setHandler_handler_ne own]
        simp [Ne.symm own]
  | answers h msg request pc =>
    apply marked.goOn
    · rw [pc]
      exact (if_neg (by simp [isMarker, request])).symm
    · intro i
      rw [notes_answered, marked.noted i]
      by_cases own : i = h
      · rw [own, setHandler_handler, pc]
        rfl
      · rw [setHandler_handler_ne own]

/-- Who has stopped has taken a marker; when all have, nothing is left. -/
theorem Marked.queue_empty (marked : Marked log s) (stopped : ∀ h, s.handler h = .stopped) :
    s.queue = [] := by
  have three := marked.three
  have all : ∑ h : Fin 3, took (s.handler h) = 3 := by
    simp [stopped, took]
  have none : s.queue.countP isMarker = 0 := by omega
  apply List.eq_nil_iff_forall_not_mem.mpr
  intro msg member
  have marker := marked.alone ⟨0, by rw [stopped]; rfl⟩ msg member
  exact List.countP_eq_zero.mp none msg member marker

end Markers

section Runs

/-- No request makes `buff` read "kill". -/
def WellHeard (s : State Client) : Action Client → Prop
  | .main datagram => s.main = .receiving → Understood s.buff datagram
  | .handler _ => True

instance (s : State Client) : ∀ a, Decidable (WellHeard s a)
  | .main datagram => inferInstanceAs (Decidable (s.main = .receiving → Understood s.buff datagram))
  | .handler _ => isTrue trivial

/-- A datagram of at least five bytes covers everything that `strcmp` reads, so that
nothing left over is taken for a part of it. -/
theorem wellHeard_long {s : State Client} {datagram : Datagram Client}
    (long : 5 ≤ datagram.bytes.length) : WellHeard s (.main datagram) :=
  fun _ => understood_long long s.buff

variable [DecidableEq Client] {client : Request Client} {junk : Text} {s : State Client}
  {log : List (Event Client (Fin 3))}

structure Sound (log : List (Event Client (Fin 3))) (s : State Client) : Prop where
  ready : Ready s
  accounted : Accounted log s
  marked : Marked log s

/-- All the invariants together, in every state that a run reaches in which each
datagram is heard as it was sent. -/
theorem run_sound (run : server.Reach WellHeard (start client junk) log s) : Sound log s := by
  apply run.invariant Sound
  · exact ⟨rfl, start_accounted client junk, start_marked client junk⟩
  · intro log s a t sound allowed stepped
    have heard : ∀ d, s.main = .receiving → a = .main d → Understood s.buff d := by
      rintro d pc rfl
      exact allowed pc
    have move := step_move heard stepped
    exact ⟨move.ready sound.ready, move.accounted sound.ready sound.accounted,
      move.marked sound.ready sound.marked⟩

/-- As long as no request is taken for a kill message: no request is answered twice
or to another client, no handler takes two markers, and when the handlers have
stopped every request is answered once and the queue is empty. Datagrams that are
not shorter than "kill" with its end are always taken for what they are. -/
theorem answered_once (run : server.Reach WellHeard (start client junk) log s) :
    (requests log).Nodup ∧ (answers log).Nodup ∧ (∀ r ∈ answers log, r ∈ requests log) ∧
    (∀ h, (notes log).count h ≤ 1) ∧
    ((∀ h, s.handler h = .stopped) → (answers log).Perm (requests log) ∧ s.queue = []) ∧
    ∀ datagram : Datagram Client, 5 ≤ datagram.bytes.length →
      ∀ s, WellHeard s (.main datagram) := by
  have sound := run_sound run
  have balanced := sound.accounted.balanced
  refine ⟨balanced.distinct, balanced.settled_nodup, fun r => balanced.settled_subset,
    fun h => ?_, fun stopped => ?_, fun datagram long s => wellHeard_long long⟩
  · rw [sound.marked.noted h]
    cases s.handler h with
    | stopped => exact Nat.le_refl 1
    | testing msg => exact Nat.zero_le 1
    | receiving => exact Nat.zero_le 1
  · have empty := sound.marked.queue_empty stopped
    refine ⟨balanced.settled_perm fun place => ?_, empty⟩
    cases place with
    | main =>
      -- All markers have been sent, so `main` is not at the `msgsnd` of a request.
      have three := sound.marked.three
      have all : ∑ h : Fin 3, took (s.handler h) = 3 := by
        simp [stopped, took]
      apply if_neg
      intro sending
      rw [sending] at three
      simp only [unsent] at three
      omega
    | queue => simp [kept, empty]
    | handler h => simp [kept, stopped, inHand]

end Runs

/-- A step of `main`, with the datagram that is there if it comes to `recvfrom`. -/
def mainHears (client : Nat) (bytes : Text) : Action Nat := .main ⟨client, bytes⟩

def asks : Action Nat := mainHears 7 ['t', 'i', 'm', 'e', '?']

def kills : Action Nat := mainHears 0 kill

/-- What is not initialised happens to be zero. -/
def zeroed : State Nat := start ⟨0, 0⟩ (List.replicate buffSize nul)

/-- Two requests of one client; the kill message comes while both are queued. -/
theorem answered_once_two : ∃ log s,
    server.Reach WellHeard zeroed log s ∧
    requests log = [⟨0, 7⟩, ⟨1, 7⟩] ∧ (answers log).Perm (requests log) ∧ s.queue = [] := by
  obtain ⟨log, s, run, stopped, received⟩ := System.exists_reach server WellHeard zeroed
    [asks, kills, asks, kills, kills, kills, .handler 2, .handler 0, .handler 0, .handler 2,
      kills, kills, .handler 2, .handler 1, .handler 0, .handler 0, .handler 1, .handler 2]
    (fun log s => (∀ h, s.handler h = .stopped) ∧ requests log = [⟨0, 7⟩, ⟨1, 7⟩]) (by decide)
  exact ⟨log, s, run, received, (answered_once run).2.2.2.2.1 stopped⟩

/-- "k" over what "bill" has left of the buffer: all handlers are stopped, and the
second request is not answered. -/
theorem mistaken_request : ∃ log s,
    server.Reach System.Anything zeroed log s ∧
    (∀ h, s.handler h = .stopped) ∧ requests log = [⟨0, 7⟩, ⟨1, 8⟩] ∧
    answers log = [⟨0, 7⟩] := by
  apply System.exists_reach server System.Anything zeroed
    [mainHears 7 ['b', 'i', 'l', 'l', nul], kills, mainHears 8 ['k'], kills, kills, kills,
      .handler 0, .handler 0, .handler 0, .handler 1, .handler 2, .handler 0, .handler 1,
      .handler 2]
    (fun log s => (∀ h, s.handler h = .stopped) ∧ requests log = [⟨0, 7⟩, ⟨1, 8⟩] ∧
      answers log = [⟨0, 7⟩])
  decide

end EltexCourse.Guarantees.TimeServer.Queue
