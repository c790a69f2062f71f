import Mathlib.Tactic.DeriveFintype
import EltexCourse.Foundations.Custody
import EltexCourse.Source.TimeServer.ParallelBuff

/-!
# One flag for a request and for the stop in parallel_buff

As long as each stop flag is stored in a slot that is free, and no request is taken
for a kill message, a slot is free, busy or stopped, and its handler is where that
leaves it: a request stays in its slot until it is answered, and a stopped slot ends
its handler. A stop flag stored over a request loses it, and one stored while the
handler finishes is lost.
-/

set_option autoImplicit false

namespace EltexCourse.Guarantees.TimeServer.Slots
open Foundations.CString Foundations.CBuffer Foundations.Transition Foundations.Custody
open Source.TimeServer Source.TimeServer.ParallelBuff

variable {Client : Type}

inductive Move (s : State Client) :
    State Client → List (Event Client (Option (Fin 3))) → Prop where
  | finds (i : Fin 3) (free : (s.data i).isReady = 0) (pc : s.main = .scanning i) :
      Move s (s.setMain (.receiving i)) [.noted none]
  | passes (i : Fin 3) (pc : s.main = .scanning i) :
      Move s (s.setMain (.scanning (nextSlot i))) [.noted none]
  | kills (i : Fin 3) (client : Request Client) (buff : Text) (pc : s.main = .receiving i) :
      Move s { s with client, buff, main := .stopping 2, arrivals := s.arrivals + 1 }
        [.noted none]
  | receives (i : Fin 3) (client : Client) (buff : Text) (pc : s.main = .receiving i) :
      Move s
        { s with
          client := ⟨s.arrivals, client⟩
          buff
          main := .addressing i
          arrivals := s.arrivals + 1 } [.noted none, .received ⟨s.arrivals, client⟩]
  | addresses (i : Fin 3) (pc : s.main = .addressing i) :
      Move s ((s.setAddress i s.client).setMain (.starting i)) [.noted none]
  | starts (i : Fin 3) (pc : s.main = .starting i) :
      Move s ((s.setReady i 1).setMain (.scanning 0)) [.noted none]
  | stores (i : Fin 3) (pc : s.main = .stopping i) :
      Move s ((s.setReady i (-1)).setMain (afterStop i)) [.noted none]
  | waits (h : Fin 3) (free : (s.data h).isReady = 0) (pc : s.handler h = .testing) :
      Move s (s.setHandler h .testing) [.noted (some h)]
  | wakes (h : Fin 3) (called : (s.data h).isReady ≠ 0) (pc : s.handler h = .testing) :
      Move s (s.setHandler h .retesting) [.noted (some h)]
  | breaks (h : Fin 3) (stop : (s.data h).isReady = -1) (pc : s.handler h = .retesting) :
      Move s (s.setHandler h .stopped) [.noted (some h)]
  | serves (h : Fin 3) (ready : (s.data h).isReady ≠ -1) (pc : s.handler h = .retesting) :
      Move s (s.setHandler h .sending) [.noted (some h)]
  | sends (h : Fin 3) (pc : s.handler h = .sending) :
      Move s (s.setHandler h .clearing) [.noted (some h), .answered (s.data h).client]
  | clears (h : Fin 3) (pc : s.handler h = .clearing) :
      Move s ((s.setReady h 0).setHandler h .testing) [.noted (some h)]

section Moves

variable {s t : State Client} {a : Action Client}

/-- The steps of the program, as long as what `buff` shows of a datagram is what the
datagram says. -/
theorem step_move (heard : ∀ i d, s.main = .receiving i → a = .main d → Understood s.buff d)
    (stepped : server.step s a = some t) : Move s t (server.emit s a) := by
  simp only [server, step, emit] at stepped ⊢
  cases a with
  | main datagram =>
    simp only [mainStep] at stepped
    split at stepped
    · next i pc =>
      cases stepped
      simp only [pc]
      split
      · next free => exact .finds i free pc
      · exact .passes i pc
    · next i pc =>
      cases stepped
      simp only [pc]
      by_cases said : isKill datagram.bytes = true
      · rw [if_pos said, if_pos (isKill_overlay said s.buff)]
        exact .kills i _ _ pc
      · rw [if_neg said, if_neg fun taken => said (heard i datagram pc rfl taken)]
        exact .receives i datagram.client _ pc
    · next i pc =>
      cases stepped
      simp only [pc]
      exact .addresses i pc
    · next i pc =>
      cases stepped
      simp only [pc]
      exact .starts i pc
    · next i pc =>
      cases stepped
      simp only [pc]
      exact .stores i pc
    · cases stepped
  | handler h =>
    simp only [handlerStep] at stepped
    split at stepped
    · next pc =>
      cases stepped
      simp only [pc]
      split
      · next free => exact .waits h free pc
      · next called => exact .wakes h called pc
    · next pc =>
      cases stepped
      simp only [pc]
      split
      · next stop => exact .breaks h stop pc
      · next ready => exact .serves h ready pc
    · next pc =>
      cases stepped
      simp only [pc]
      exact .sends h pc
    · next pc =>
      cases stepped
      simp only [pc]
      exact .clears h pc
    · cases stepped

end Moves

/-- The stop flag is stored where nothing is pending, and a request is taken for
one. -/
def Undisturbed (s : State Client) : Action Client → Prop
  | .main datagram => (∀ i, s.main = .stopping i → (s.data i).isReady = 0) ∧
      ∀ i, s.main = .receiving i → Understood s.buff datagram
  | .handler _ => True

/-- A flag, and where it leaves the handler. -/
inductive SlotState (isReady : Int) (pc : HandlerPc) : Prop where
  | free (flag : isReady = 0) (idle : pc = .testing)
  | busy (flag : isReady = 1) (works : pc ≠ .stopped)
  | stop (flag : isReady = -1) (ends : pc = .testing ∨ pc = .retesting ∨ pc = .stopped)

theorem SlotState.idle {isReady : Int} {pc : HandlerPc} (slot : SlotState isReady pc)
    (free : isReady = 0) : pc = .testing := by
  rcases slot with ⟨flag, idle⟩ | ⟨flag, works⟩ | ⟨flag, ends⟩
  · exact idle
  · exact absurd (flag.symm.trans free) (by decide)
  · exact absurd (flag.symm.trans free) (by decide)

theorem SlotState.serving {isReady : Int} {pc : HandlerPc} (slot : SlotState isReady pc)
    (serves : pc = .sending ∨ pc = .clearing) : isReady = 1 := by
  rcases slot with ⟨flag, rfl⟩ | ⟨flag, works⟩ | ⟨flag, ends⟩
  · exact absurd serves (by decide)
  · exact flag
  · rcases serves with rfl | rfl <;> exact absurd ends (by decide)

/-- Whether `main` has stored the stop flag of slot `i`. -/
def stored (i : Fin 3) : MainPc → Prop
  | .stopping j => j < i
  | .finished => True
  | .scanning _ | .receiving _ | .addressing _ | .starting _ => False

instance (i : Fin 3) : ∀ pc, Decidable (stored i pc)
  | .stopping j => inferInstanceAs (Decidable (j < i))
  | .finished => isTrue trivial
  | .scanning _ | .receiving _ | .addressing _ | .starting _ => isFalse id

/-- The slot that `main` has found free and not yet used. -/
def chosen : MainPc → Option (Fin 3)
  | .receiving i | .addressing i | .starting i => some i
  | .scanning _ | .stopping _ | .finished => none

structure Orderly (s : State Client) : Prop where
  slots : ∀ i, SlotState (s.data i).isReady (s.handler i)
  stops : ∀ i, (s.data i).isReady = -1 ↔ stored i s.main
  free : ∀ i, chosen s.main = some i → (s.data i).isReady = 0
  address : ∀ i, s.main = .starting i → (s.data i).client = s.client

section Order

variable {s t : State Client} {a : Action Client} {h i : Fin 3} {pc : HandlerPc} {isReady : Int}

theorem setReady_self : ((s.setReady i isReady).data i).isReady = isReady := by
  simp [State.setReady]

theorem setReady_ne {j : Fin 3} (other : j ≠ i) : (s.setReady i isReady).data j = s.data j :=
  Function.update_of_ne other ..

theorem setHandler_self : (s.setHandler h pc).handler h = pc := Function.update_self ..

theorem setHandler_ne (other : i ≠ h) : (s.setHandler h pc).handler i = s.handler i :=
  Function.update_of_ne other ..

theorem start_orderly (client : Request Client) (junk : Text) : Orderly (start client junk) := by
  constructor
  · exact fun i => .free rfl rfl
  · intro i
    exact ⟨fun flag => absurd (show (0 : Int) = -1 from flag) (by decide), False.elim⟩
  · exact fun i none => nomatch none
  · exact fun i none => nomatch none

/-- A step of `main` that writes no flag. -/
theorem Orderly.mainGoes {main : MainPc} (orderly : Orderly s)
    (stops : ∀ i, stored i main ↔ stored i s.main)
    (free : ∀ i, chosen main = some i → (s.data i).isReady = 0)
    (address : ∀ i, main ≠ .starting i) : Orderly (s.setMain main) :=
  ⟨orderly.slots, fun i => (orderly.stops i).trans (stops i).symm, free,
    fun i same => absurd same (address i)⟩

/-- A step of a handler that writes no flag. -/
theorem Orderly.handlerGoes (orderly : Orderly s) (slot : SlotState (s.data h).isReady pc) :
    Orderly (s.setHandler h pc) := by
  refine ⟨fun i => ?_, orderly.stops, orderly.free, orderly.address⟩
  by_cases own : i = h
  · subst own
    rw [setHandler_self]
    exact slot
  · rw [setHandler_ne own]
    exact orderly.slots i

/-- A step that writes the flag of one slot. -/
theorem Orderly.writes (orderly : Orderly s)
    (others : ∀ j, j ≠ i → t.data j = s.data j ∧ t.handler j = s.handler j ∧
      (stored j t.main ↔ stored j s.main))
    (slot : SlotState (t.data i).isReady (t.handler i))
    (stop : (t.data i).isReady = -1 ↔ stored i t.main)
    (free : ∀ j, chosen t.main = some j → (t.data j).isReady = 0)
    (address : ∀ j, t.main = .starting j → (t.data j).client = t.client) : Orderly t := by
  constructor
  · intro j
    by_cases own : j = i
    · exact own ▸ slot
    · obtain ⟨data, handler, -⟩ := others j own
      rw [data, handler]
      exact orderly.slots j
  · intro j
    by_cases own : j = i
    · exact own ▸ stop
    · obtain ⟨data, -, main⟩ := others j own
      rw [data, main]
      exact orderly.stops j
  · exact free
  · exact address

theorem stored_afterStop : ∀ j i, stored i (afterStop j) ↔ i = j ∨ stored i (.stopping j) := by
  decide

theorem afterStop_ne : ∀ i, afterStop i ≠ .stopping i := by
  decide

theorem afterStop_unchosen : ∀ i, chosen (afterStop i) = none ∧ ∀ j, afterStop i ≠ .starting j := by
  decide

/-- The address is stored in a slot whose flag is 0. -/
theorem Orderly.addresses (orderly : Orderly s) (pc : s.main = .addressing i) :
    Orderly ((s.setAddress i s.client).setMain (.starting i)) := by
  have flags : ∀ j, (((s.setAddress i s.client).setMain (.starting i)).data j).isReady =
      (s.data j).isReady := by
    intro j
    by_cases own : j = i
    · subst own
      simp [State.setAddress, State.setMain]
    · simp [State.setAddress, State.setMain, own]
  constructor
  · intro j
    rw [flags]
    exact orderly.slots j
  · intro j
    rw [flags, orderly.stops, pc]
    exact Iff.rfl
  · intro j same
    cases same
    exact (flags i).trans (orderly.free i (by rw [pc]; rfl))
  · intro j same
    cases same
    simp [State.setAddress, State.setMain]

/-- `main` sets the flag of the slot it has found free. -/
theorem Orderly.starts (orderly : Orderly s) (pc : s.main = .starting i) :
    Orderly ((s.setReady i 1).setMain (.scanning 0)) := by
  have free := orderly.free i (by rw [pc]; rfl)
  apply orderly.writes (i := i)
  · intro j other
    rw [pc]
    exact ⟨setReady_ne other, rfl, Iff.rfl⟩
  · apply SlotState.busy setReady_self
    intro halted
    exact absurd ((orderly.slots i).idle free ▸ halted) (by decide)
  · have flag : (((s.setReady i 1).setMain (.scanning 0)).data i).isReady = 1 := setReady_self
    rw [flag]
    simp [State.setMain, stored]
  · intro j same
    cases same
  · intro j same
    cases same

/-- `main` stores the stop flag where nothing is pending. -/
theorem Orderly.stores (orderly : Orderly s) (pc : s.main = .stopping i)
    (free : (s.data i).isReady = 0) : Orderly ((s.setReady i (-1)).setMain (afterStop i)) := by
  apply orderly.writes (i := i)
  · intro j other
    rw [pc]
    exact ⟨setReady_ne other, rfl, (stored_afterStop i j).trans (or_iff_right other)⟩
  · exact .stop setReady_self (.inl ((orderly.slots i).idle free))
  · exact iff_of_true setReady_self ((stored_afterStop i i).mpr (.inl rfl))
  · intro j same
    exact absurd ((afterStop_unchosen i).1.symm.trans same) (by simp)
  · intro j same
    exact absurd same ((afterStop_unchosen i).2 j)

/-- A handler clears its flag. -/
theorem Orderly.clears (orderly : Orderly s) (pc : s.handler h = .clearing) :
    Orderly ((s.setReady h 0).setHandler h .testing) := by
  have busy := (orderly.slots h).serving (.inr pc)
  have data : ∀ j, j ≠ h → ((s.setReady h 0).setHandler h .testing).data j = s.data j :=
    fun j other => setReady_ne other
  apply orderly.writes (i := h)
  · intro j other
    exact ⟨data j other, setHandler_ne other, Iff.rfl⟩
  · exact .free setReady_self setHandler_self
  · have flag : (((s.setReady h 0).setHandler h .testing).data h).isReady = 0 := setReady_self
    have before := orderly.stops h
    rw [busy] at before
    rw [flag]
    exact iff_of_false (by decide) fun done => absurd (before.mpr done) (by decide)
  · intro j same
    by_cases own : j = h
    · subst own
      exact setReady_self
    · rw [data j own]
      exact orderly.free j same
  · intro j same
    have client : (((s.setReady h 0).setHandler h .testing).data j).client = (s.data j).client := by
      by_cases own : j = h
      · subst own
        simp [State.setReady, State.setHandler]
      · rw [data j own]
    rw [client]
    exact orderly.address j same

/-- A step keeps each slot in step with its handler, if -1 is stored into no slot that
holds a request. -/
theorem Orderly.move {events : List (Event Client (Option (Fin 3)))} (orderly : Orderly s)
    (undisturbed : ∀ i, s.main = .stopping i → t.main ≠ s.main → (s.data i).isReady = 0)
    (move : Move s t events) : Orderly t := by
  have slots := orderly.slots
  cases move with
  | finds i free pc =>
    apply orderly.mainGoes
    · simp [pc, stored]
    · intro j same
      cases same
      exact free
    · intro j same
      cases same
  | passes i pc =>
    apply orderly.mainGoes
    · simp [pc, stored]
    · intro j same
      cases same
    · intro j same
      cases same
  | kills i client buff pc =>
    have unstored : ∀ j : Fin 3, stored j (.stopping 2) ↔ stored j (.receiving i) := by
      simp only [stored]
      decide
    constructor
    · exact slots
    · exact fun j => (pc ▸ orderly.stops j).trans (unstored j).symm
    · intro j same
      cases same
    · intro j same
      cases same
  | receives i client buff pc =>
    constructor
    · exact slots
    · simpa [pc, stored] using orderly.stops
    · intro j same
      cases same
      exact orderly.free i (by rw [pc]; rfl)
    · intro j same
      cases same
  | addresses i pc => exact orderly.addresses pc
  | starts i pc => exact orderly.starts pc
  | stores i pc =>
    refine orderly.stores pc (undisturbed i pc ?_)
    rw [pc]
    exact afterStop_ne i
  | waits h free pc => exact orderly.handlerGoes (.free free rfl)
  | wakes h called pc =>
    apply orderly.handlerGoes
    rcases slots h with ⟨flag, idle⟩ | ⟨flag, works⟩ | ⟨flag, ends⟩
    · exact absurd flag called
    · exact .busy flag (by decide)
    · exact .stop flag (by decide)
  | breaks h stop pc => exact orderly.handlerGoes (.stop stop (by decide))
  | serves h ready pc =>
    apply orderly.handlerGoes
    rcases slots h with ⟨flag, idle⟩ | ⟨flag, works⟩ | ⟨flag, ends⟩
    · exact absurd (idle.symm.trans pc) (by decide)
    · exact .busy flag (by decide)
    · exact absurd flag ready
  | sends h pc => exact orderly.handlerGoes (.busy ((slots h).serving (.inl pc)) (by decide))
  | clears h pc => exact orderly.clears pc

end Order

inductive Place where
  | main
  | slot (i : Fin 3)
  deriving DecidableEq, Fintype

/-- Between `recvfrom` and the store of the flag. -/
def inMain (client : Request Client) : MainPc → List (Request Client)
  | .addressing _ | .starting _ => [client]
  | .scanning _ | .receiving _ | .stopping _ | .finished => []

/-- A handler that is about to clear the flag has answered. -/
def inSlot (slot : Slot Client) (pc : HandlerPc) : List (Request Client) :=
  if slot.isReady = 1 ∧ pc ≠ .clearing then [slot.client] else []

def kept (s : State Client) : Place → List (Request Client)
  | .main => inMain s.client s.main
  | .slot i => inSlot (s.data i) (s.handler i)

section Requests

variable {s t : State Client} {h i : Fin 3} {pc : HandlerPc}
  {events log : List (Event Client (Option (Fin 3)))}

theorem inMain_afterStop {client : Request Client} (i : Fin 3) :
    inMain client (afterStop i) = [] := by
  unfold afterStop
  split
  · rfl
  · split <;> rfl

/-- The slots where neither flag, address nor handler changes. -/
theorem kept_slot (data : t.data i = s.data i) (handler : t.handler i = s.handler i) :
    kept t (.slot i) = kept s (.slot i) := by
  simp only [kept, data, handler]

theorem kept_setHandler (working : s.handler h ≠ .clearing) (goesOn : pc ≠ .clearing)
    (place : Place) : kept (s.setHandler h pc) place = kept s place := by
  cases place with
  | main => rfl
  | slot i =>
    by_cases own : i = h
    · subst own
      have handler : (s.setHandler i pc).handler i = pc := setHandler_self
      simp only [kept, inSlot, handler, ne_eq, goesOn, working, not_false_eq_true, and_true]
      rfl
    · exact kept_slot rfl (setHandler_ne own)

variable [DecidableEq Client]

structure Accounted (log : List (Event Client (Option (Fin 3)))) (s : State Client) : Prop where
  balanced : Balanced (requests log) (answers log) (kept s)
  numbered : ∀ r ∈ requests log, r.arrival < s.arrivals

theorem start_accounted (client : Request Client) (junk : Text) :
    Accounted [] (start client junk) := by
  constructor
  · apply Balanced.start.congr
    intro place
    cases place <;> rfl
  · intro r member
    cases member

/-- A step that neither receives nor answers. -/
theorem Accounted.congr (accounted : Accounted log s) (requested : requests events = [])
    (answered : answers events = []) (arrived : s.arrivals ≤ t.arrivals)
    (same : ∀ place, kept t place = kept s place) : Accounted (log ++ events) t := by
  constructor
  · rw [requests_append, answers_append, requested, answered, List.append_nil, List.append_nil]
    exact accounted.balanced.congr same
  · rw [requests_append, requested, List.append_nil]
    exact fun r received => Nat.lt_of_lt_of_le (accounted.numbered r received) arrived

theorem Accounted.receives (accounted : Accounted log s) (pc : s.main = .receiving i)
    (client : Client) (buff : Text) :
    Accounted (log ++ [.noted none, .received ⟨s.arrivals, client⟩])
      { s with
        client := ⟨s.arrivals, client⟩
        buff
        main := .addressing i
        arrivals := s.arrivals + 1 } := by
  have received : requests (log ++ [.noted none, .received ⟨s.arrivals, client⟩]) =
      requests log ++ [⟨s.arrivals, client⟩] := requests_append
  have answered : answers (log ++ [.noted none, .received ⟨s.arrivals, client⟩]) =
      answers log := by
    rw [answers_append]
    exact List.append_nil _
  constructor
  · rw [received, answered]
    apply accounted.balanced.issue .main
    · intro old
      exact absurd (accounted.numbered _ old) (Nat.lt_irrefl _)
    · simp [kept, inMain, pc]
    · intro place other
      cases place with
      | main => exact absurd rfl other
      | slot j => rfl
  · rw [received]
    exact numbered_received accounted.numbered client

/-- The request goes over from `main` to the slot. -/
theorem Accounted.starts (accounted : Accounted log s) (orderly : Orderly s)
    (pc : s.main = .starting i) :
    Accounted (log ++ [.noted none]) ((s.setReady i 1).setMain (.scanning 0)) := by
  have free := orderly.free i (by rw [pc]; rfl)
  have address := orderly.address i pc
  have idle := (orderly.slots i).idle free
  constructor
  · rw [requests_noted, answers_noted]
    apply accounted.balanced.pass (x := s.client) .main (.slot i) Place.noConfusion
    · simp [kept, inMain, pc, State.setMain]
    · simp [kept, inSlot, State.setMain, State.setReady, free, idle, address]
    · intro place notMain notSlot
      cases place with
      | main => exact absurd rfl notMain
      | slot j =>
        have other : j ≠ i := fun same => notSlot (congrArg Place.slot same)
        exact kept_slot (setReady_ne other) rfl
  · intro r member
    exact accounted.numbered r (requests_noted ▸ member)

/-- The answer leaves the slot. -/
theorem Accounted.sends (accounted : Accounted log s) (orderly : Orderly s)
    (pc : s.handler h = .sending) :
    Accounted (log ++ [.noted (some h), .answered (s.data h).client])
      (s.setHandler h .clearing) := by
  have busy := (orderly.slots h).serving (.inl pc)
  have answered : answers (log ++ [.noted (some h), .answered (s.data h).client]) =
      answers log ++ [(s.data h).client] := answers_append
  have received : requests (log ++ [.noted (some h), .answered (s.data h).client]) =
      requests log := by
    rw [requests_append]
    exact List.append_nil _
  constructor
  · rw [received, answered]
    apply accounted.balanced.settle (.slot h)
    · have handler : (s.setHandler h .clearing).handler h = .clearing := setHandler_self
      simp [kept, inSlot, busy, pc, handler]
    · intro place other
      cases place with
      | main => rfl
      | slot j =>
        have different : j ≠ h := fun same => other (congrArg Place.slot same)
        exact kept_slot rfl (setHandler_ne different)
  · rw [received]
    exact accounted.numbered

/-- A step moves a request on, from main to a slot, from the slot to its answer, and
loses none as long as -1 is stored into free slots only. -/
theorem Move.accounted (move : Move s t events) (orderly : Orderly s)
    (undisturbed : ∀ i, s.main = .stopping i → t.main ≠ s.main → (s.data i).isReady = 0)
    (accounted : Accounted log s) : Accounted (log ++ events) t := by
  cases move with
  | finds i free pc | passes i pc =>
    refine accounted.congr rfl rfl (Nat.le_refl _) fun place => ?_
    cases place with
    | main => simp [kept, inMain, State.setMain, pc]
    | slot j => rfl
  | kills i client buff pc =>
    refine accounted.congr rfl rfl (Nat.le_succ _) fun place => ?_
    cases place with
    | main => simp [kept, inMain, pc]
    | slot j => rfl
  | receives i client buff pc => exact accounted.receives pc client buff
  | addresses i pc =>
    refine accounted.congr rfl rfl (Nat.le_refl _) fun place => ?_
    cases place with
    | main => simp [kept, inMain, State.setMain, State.setAddress, pc]
    | slot j =>
      by_cases own : j = i
      · subst own
        have free := orderly.free j (by rw [pc]; rfl)
        simp [kept, inSlot, State.setAddress, State.setMain, free]
      · exact kept_slot (Function.update_of_ne own ..) rfl
  | starts i pc => exact accounted.starts orderly pc
  | stores i pc =>
    have free := undisturbed i pc (by
      rw [pc]
      exact afterStop_ne i)
    refine accounted.congr rfl rfl (Nat.le_refl _) fun place => ?_
    cases place with
    | main =>
      have before : kept s .main = [] := by
        simp [kept, inMain, pc]
      rw [before]
      exact inMain_afterStop i
    | slot j =>
      by_cases own : j = i
      · subst own
        simp [kept, inSlot, State.setReady, State.setMain, free]
      · exact kept_slot (setReady_ne own) rfl
  | waits h free pc | wakes h called pc | breaks h stop pc | serves h ready pc =>
    refine accounted.congr rfl rfl (Nat.le_refl _) ?_
    exact kept_setHandler (by rw [pc]; decide) (by decide)
  | sends h pc => exact accounted.sends orderly pc
  | clears h pc =>
    refine accounted.congr rfl rfl (Nat.le_refl _) fun place => ?_
    cases place with
    | main => rfl
    | slot j =>
      by_cases own : j = h
      · subst own
        simp [kept, inSlot, State.setReady, State.setHandler, pc]
      · exact kept_slot (setReady_ne own) (setHandler_ne own)

end Requests

/-- The steps a party has taken; `none` is `main`. -/
def turns (party : Option (Fin 3)) (log : List (Event Client (Option (Fin 3)))) : Nat :=
  (notes log).count party

def Killed (pc : MainPc) : Prop := pc = .finished ∨ ∃ i, pc = .stopping i

section Stop

variable {s t : State Client} {h g : Fin 3} {party : Option (Fin 3)} {datagram : Datagram Client}
  {log : List (Event Client (Option (Fin 3)))}

theorem turns_main : turns party (log ++ server.emit s (.main datagram)) =
    turns party log + [none].count party := by
  have noted : notes (server.emit s (.main datagram)) = [none] := by
    simp only [server, emit]
    split
    · split <;> rfl
    · rfl
  rw [turns, notes_append, noted, List.count_append]
  rfl

theorem turns_handler : turns party (log ++ server.emit s (.handler h)) =
    turns party log + [some h].count party := by
  have noted : notes (server.emit s (.handler h)) = [some h] := by
    simp only [server, emit]
    split <;> rfl
  rw [turns, notes_append, noted, List.count_append]
  rfl

/-- A handler's step leaves the others, their slots and `main` alone. -/
theorem handlerStep_frame (stepped : handlerStep s h = some t) :
    t.main = s.main ∧ ∀ g, g ≠ h → t.handler g = s.handler g ∧ t.data g = s.data g := by
  unfold handlerStep at stepped
  split at stepped
  · cases stepped
    exact ⟨rfl, fun g other => ⟨setHandler_ne other, rfl⟩⟩
  · cases stepped
    exact ⟨rfl, fun g other => ⟨setHandler_ne other, rfl⟩⟩
  · cases stepped
    exact ⟨rfl, fun g other => ⟨setHandler_ne other, rfl⟩⟩
  · cases stepped
    exact ⟨rfl, fun g other => ⟨setHandler_ne other, setReady_ne other⟩⟩
  · cases stepped

/-- Nobody waits for anybody. -/
theorem step_enabled : (∀ h, s.handler h ≠ .stopped → ∃ t, server.step s (.handler h) = some t) ∧
    (s.main ≠ .finished → ∀ datagram, ∃ t, server.step s (.main datagram) = some t) := by
  constructor
  · intro h goesOn
    simp only [server, step, handlerStep]
    split
    · exact ⟨_, rfl⟩
    · exact ⟨_, rfl⟩
    · exact ⟨_, rfl⟩
    · exact ⟨_, rfl⟩
    · next halted => exact absurd halted goesOn
  · intro goesOn datagram
    simp only [server, step, mainStep]
    split
    · exact ⟨_, rfl⟩
    · exact ⟨_, rfl⟩
    · exact ⟨_, rfl⟩
    · exact ⟨_, rfl⟩
    · exact ⟨_, rfl⟩
    · next done => exact absurd done goesOn

theorem afterStop_cases : ∀ i, afterStop i = .finished ∨
    ∃ j : Fin 3, afterStop i = .stopping j ∧ j.val + 1 = i.val := by
  decide

/-- `main` stores the three flags in three steps. -/
theorem main_finishes (killed : Killed s.main) {more : List (Event Client (Option (Fin 3)))}
    (run : server.Reach System.Anything s more t) (enough : 3 ≤ turns none more) :
    t.main = .finished := by
  have counted : t.main = .finished ∨
      ∃ i : Fin 3, t.main = .stopping i ∧ i.val + 1 + turns none more ≤ 3 := by
    apply run.invariant fun more t => t.main = .finished ∨
      ∃ i : Fin 3, t.main = .stopping i ∧ i.val + 1 + turns none more ≤ 3
    · rcases killed with done | ⟨i, pc⟩
      · exact .inl done
      · exact .inr ⟨i, pc, i.isLt⟩
    · intro more u a v counted _ stepped
      cases a with
      | main datagram =>
        rw [turns_main]
        simp only [server, step, mainStep] at stepped
        rcases counted with done | ⟨i, pc, left⟩
        · rw [done] at stepped
          cases stepped
        · rw [pc] at stepped
          cases stepped
          rcases afterStop_cases i with done | ⟨j, next, lower⟩
          · exact .inl done
          · refine .inr ⟨j, next, ?_⟩
            rw [List.count_singleton_self]
            omega
      | handler h =>
        rw [turns_handler, (handlerStep_frame stepped).1]
        exact counted
  rcases counted with done | ⟨i, pc, left⟩
  · exact done
  · omega

/-- A handler whose slot has the stop flag leaves its loop with its second step. -/
theorem handler_stops (done : s.main = .finished) (flag : (s.data h).isReady = -1)
    (ends : s.handler h = .testing ∨ s.handler h = .retesting ∨ s.handler h = .stopped)
    {more : List (Event Client (Option (Fin 3)))} (run : server.Reach System.Anything s more t)
    (enough : 2 ≤ turns (some h) more) : t.handler h = .stopped := by
  have counted : (t.main = .finished ∧ (t.data h).isReady = -1) ∧
      (t.handler h = .testing ∧ turns (some h) more = 0 ∨
        t.handler h = .retesting ∧ turns (some h) more ≤ 1 ∨ t.handler h = .stopped) := by
    apply run.invariant fun more t => (t.main = .finished ∧ (t.data h).isReady = -1) ∧
      (t.handler h = .testing ∧ turns (some h) more = 0 ∨
        t.handler h = .retesting ∧ turns (some h) more ≤ 1 ∨ t.handler h = .stopped)
    · refine ⟨⟨done, flag⟩, ?_⟩
      rcases ends with pc | pc | pc
      · exact .inl ⟨pc, rfl⟩
      · exact .inr (.inl ⟨pc, Nat.zero_le 1⟩)
      · exact .inr (.inr pc)
    · rintro more u a v ⟨⟨done, flag⟩, counted⟩ _ stepped
      cases a with
      | main datagram =>
        simp only [server, step, mainStep, done] at stepped
        cases stepped
      | handler g =>
        obtain ⟨main, others⟩ := handlerStep_frame stepped
        rw [turns_handler, main]
        by_cases own : h = g
        · subst own
          rw [List.count_singleton_self]
          simp only [server, step, handlerStep] at stepped
          rcases counted with ⟨pc, none⟩ | ⟨pc, one⟩ | pc
          · rw [pc] at stepped
            cases stepped
            refine ⟨⟨done, flag⟩, .inr (.inl ⟨?_, by omega⟩)⟩
            rw [setHandler_self, flag]
            rfl
          · rw [pc] at stepped
            cases stepped
            refine ⟨⟨done, flag⟩, .inr (.inr ?_)⟩
            rw [setHandler_self, flag]
            rfl
          · rw [pc] at stepped
            cases stepped
        · obtain ⟨handler, data⟩ := others h own
          have uncounted : [some g].count (some h) = 0 := by
            simp [Ne.symm own]
          rw [handler, data, uncounted]
          exact ⟨⟨done, flag⟩, counted⟩
  rcases counted.2 with ⟨pc, none⟩ | ⟨pc, one⟩ | pc
  · omega
  · omega
  · exact pc

end Stop

section Runs

variable [DecidableEq Client] {client : Request Client} {junk : Text} {s : State Client}
  {log : List (Event Client (Option (Fin 3)))}

theorem run_sound (run : server.Reach Undisturbed (start client junk) log s) :
    Orderly s ∧ Accounted log s := by
  apply run.invariant fun log s => Orderly s ∧ Accounted log s
  · exact ⟨start_orderly client junk, start_accounted client junk⟩
  · rintro log s a t ⟨orderly, accounted⟩ allowed stepped
    have undisturbed : ∀ i, s.main = .stopping i → t.main ≠ s.main → (s.data i).isReady = 0 := by
      intro i pc moved
      cases a with
      | main datagram => exact allowed.1 i pc
      | handler h => exact absurd (handlerStep_frame stepped).1 moved
    have heard : ∀ i d, s.main = .receiving i → a = .main d → Understood s.buff d := by
      rintro i d pc rfl
      exact allowed.2 i pc
    have move := step_move heard stepped
    exact ⟨orderly.move undisturbed move, move.accounted orderly undisturbed accounted⟩

/-- As long as each stop flag is stored in a free slot and no request makes `buff`
read "kill", no request is answered twice or to another client, and each is answered
by the time all handlers have stopped. After the kill message `main` is done in three
steps, and every handler leaves its loop with its second step after that. -/
theorem undisturbed_answered (run : server.Reach Undisturbed (start client junk) log s) :
    ((requests log).Nodup ∧ (answers log).Nodup ∧ ∀ r ∈ answers log, r ∈ requests log) ∧
    ((∀ h, s.handler h = .stopped) → (answers log).Perm (requests log)) ∧
    (Killed s.main → ∀ more t, server.Reach System.Anything s more t → 3 ≤ turns none more →
      t.main = .finished) ∧
    (s.main = .finished → ∀ h more t, server.Reach System.Anything s more t →
      2 ≤ turns (some h) more → t.handler h = .stopped) ∧
    (∀ h, s.handler h ≠ .stopped → ∃ t, server.step s (.handler h) = some t) ∧
    (s.main ≠ .finished → ∀ datagram, ∃ t, server.step s (.main datagram) = some t) := by
  obtain ⟨orderly, accounted⟩ := run_sound run
  have balanced := accounted.balanced
  refine ⟨⟨balanced.distinct, balanced.settled_nodup, fun r => balanced.settled_subset⟩,
    fun stopped => ?_, fun killed more t => main_finishes killed, fun done h more t => ?_,
    step_enabled⟩
  · have flags : ∀ i, (s.data i).isReady = -1 := by
      intro i
      rcases orderly.slots i with ⟨flag, idle⟩ | ⟨flag, works⟩ | ⟨flag, ends⟩
      · exact absurd (idle.symm.trans (stopped i)) (by decide)
      · exact absurd (stopped i) works
      · exact flag
    apply balanced.settled_perm
    intro place
    cases place with
    | main =>
      have last := (orderly.stops 0).mp (flags 0)
      cases pc : s.main with
      | addressing i =>
        rw [pc] at last
        exact last.elim
      | starting i =>
        rw [pc] at last
        exact last.elim
      | _ => simp [kept, inMain, pc]
    | slot i => simp [kept, inSlot, flags i]
  · have flag : (s.data h).isReady = -1 := (orderly.stops h).mpr (by rw [done]; trivial)
    apply handler_stops done flag
    rcases orderly.slots h with ⟨free, idle⟩ | ⟨busy, works⟩ | ⟨stop, ends⟩
    · exact .inl idle
    · rw [flag] at busy
      cases busy
    · exact ends

end Runs

instance (s : State Client) : ∀ a, Decidable (Undisturbed s a)
  | .main datagram => inferInstanceAs (Decidable
      ((∀ i, s.main = .stopping i → (s.data i).isReady = 0) ∧
        ∀ i, s.main = .receiving i → Understood s.buff datagram))
  | .handler _ => isTrue trivial

/-- A step of `main`, with the datagram that is there if it comes to `recvfrom`. -/
def mainHears (client : Nat) (bytes : Text) : Action Nat := .main ⟨client, bytes⟩

def asks : Action Nat := mainHears 7 ['t', 'i', 'm', 'e', '?']

def kills : Action Nat := mainHears 0 kill

/-- What is not initialised happens to be zero. -/
def zeroed : State Nat := start ⟨0, 0⟩ (List.replicate buffSize nul)

/-- A request is served before the kill message comes. -/
theorem undisturbed_answered_one : ∃ log s,
    server.Reach Undisturbed zeroed log s ∧
    requests log = [⟨0, 7⟩] ∧ (answers log).Perm (requests log) := by
  obtain ⟨log, s, run, stopped, received⟩ := System.exists_reach server Undisturbed zeroed
    (List.flatten [[kills, asks, kills, kills], List.replicate 4 (.handler 0),
      List.replicate 5 kills,
      [.handler 0, .handler 0, .handler 1, .handler 1, .handler 2, .handler 2]])
    (fun log s => (∀ h, s.handler h = .stopped) ∧ requests log = [⟨0, 7⟩]) (by decide)
  exact ⟨log, s, run, received, (undisturbed_answered run).2.1 stopped⟩

/-- The kill message comes while a request waits in slot 0: its flag is
overwritten, all handlers stop, and it is not answered. -/
theorem overwritten_request : ∃ log s,
    server.Reach System.Anything zeroed log s ∧
    (∀ h, s.handler h = .stopped) ∧ requests log = [⟨0, 7⟩] ∧ answers log = [] := by
  apply System.exists_reach server System.Anything zeroed
    (List.flatten [[kills, asks], List.replicate 8 kills,
      [.handler 0, .handler 0, .handler 1, .handler 1, .handler 2, .handler 2]])
    (fun log s => (∀ h, s.handler h = .stopped) ∧ requests log = [⟨0, 7⟩] ∧ answers log = [])
  decide

end EltexCourse.Guarantees.TimeServer.Slots
