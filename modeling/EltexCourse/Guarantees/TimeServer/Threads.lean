import EltexCourse.Guarantees.TimeServer.Blocks

/-!
# The answers of parallel, and its end

Each thread answers the request it was created for, if its `sendto` goes
through. `main` leaves its loop by what is in its buffer, where a
short datagram lies over the bytes of those before it.
-/

set_option autoImplicit false

namespace EltexCourse.Guarantees.TimeServer.Threads
open Foundations.CString Foundations.CBuffer Foundations.Layers Foundations.Transition
open Source.TimeServer
open Source.TimeServer.Parallel Guarantees.TimeServer.Blocks

variable {Client : Type} {s t : State Client} {log : List (Event Client Text)}

/-- The thread has sent its answer. -/
def Answered : HandlerPc → Prop
  | .freeingClient _ none => True
  | .freeingData _ none => True
  | .done none => True
  | _ => False

/-- Between `recvfrom` and `pthread_create`. -/
def Preparing : MainPc → Prop
  | .storingClient _ _ => True
  | .storingFd _ _ => True
  | .creating _ _ => True
  | _ => False

/-- On the way out of the loop with a kill message. -/
def Left : MainPc → Prop
  | .freeing _ status => status = 0
  | .returning status => status = 0
  | _ => False

inductive MainMove (s t : State Client) : List (Event Client Text) → Prop where
  | receives (sender : Client) (bytes : Text) (handler : t.handler = s.handler)
      (threads : t.threads = s.threads) (buff : t.buff = overlay s.buff bytes)
      (goesOn : isKill (overlay s.buff bytes) = false)
      (before : ¬ Preparing s.main ∧ ¬ Left s.main) (after : Preparing t.main ∧ ¬ Left t.main) :
      MainMove s t [.noted bytes, .received ⟨s.threads, sender⟩]
  | quits (bytes : Text) (handler : t.handler = s.handler) (threads : t.threads = s.threads)
      (buff : t.buff = overlay s.buff bytes) (kill : isKill (overlay s.buff bytes) = true)
      (before : ¬ Preparing s.main ∧ ¬ Left s.main) (after : ¬ Preparing t.main ∧ Left t.main) :
      MainMove s t [.noted bytes]
  | creates (data : Nat) (handler : t.handler = Function.update s.handler s.threads (.sending data))
      (threads : t.threads = s.threads + 1) (buff : t.buff = s.buff)
      (before : ¬ Left s.main) (after : ¬ Preparing t.main ∧ ¬ Left t.main) : MainMove s t []
  | goesOn (handler : t.handler = s.handler) (threads : t.threads = s.threads)
      (buff : t.buff = s.buff) (preparing : Preparing t.main ↔ Preparing s.main)
      (left : Left t.main ↔ Left s.main) :
      MainMove s t []

/-- Every step of main is one of the moves listed. What it reads through its pointers is
there because main owns both blocks. -/
theorem mainStep_move {known : List (Request Client)} (sound : Sound known s)
    {supply : Supply Client} (stepped : mainStep s supply = some t) :
    MainMove s t (mainEvents s supply) := by
  have has := sound.main
  have quiet (elsewhere : ∀ data client, s.main ≠ .receiving data client) :
      mainEvents s supply = [] := by
    unfold mainEvents
    split
    · next data client _ _ pc _ => exact absurd pc (elsewhere data client)
    · rfl
  unfold mainStep at stepped
  split at stepped
  · next pc =>
    rw [quiet (by simp [pc])]
    split at stepped
    · cases stepped
      refine .goesOn rfl rfl rfl ?_ ?_ <;> simp [State.setMain, Preparing, Left, pc]
    · obtain ⟨u, given, rfl⟩ := Option.map_eq_some_iff.mp stepped
      obtain ⟨-, rfl⟩ := malloc_some given
      refine .goesOn rfl rfl rfl ?_ ?_ <;> simp [State.setMain, Preparing, Left, pc]
  · next data pc =>
    rw [quiet (by simp [pc])]
    split at stepped
    · cases stepped
      refine .goesOn rfl rfl rfl ?_ ?_ <;> simp [State.setMain, Preparing, Left, pc]
    · obtain ⟨u, given, rfl⟩ := Option.map_eq_some_iff.mp stepped
      obtain ⟨-, rfl⟩ := malloc_some given
      refine .goesOn rfl rfl rfl ?_ ?_ <;> simp [State.setMain, Preparing, Left, pc]
  · next data client pc =>
    rw [pc] at has
    obtain ⟨-, old, sockaddr⟩ := has
    split at stepped
    · next supplied =>
      cases stepped
      have none : mainEvents s supply = [] := by simp [mainEvents, pc, supplied]
      rw [none]
      refine .goesOn rfl rfl rfl ?_ ?_ <;> simp [State.setMain, Preparing, Left, pc]
    · next sender bytes supplied =>
      rw [sockaddr] at stepped
      cases stepped
      by_cases kill : isKill (overlay s.buff bytes) = true
      · have shown : mainEvents s supply = [.noted bytes] := by
          simp [mainEvents, pc, supplied, kill]
        rw [shown]
        refine .quits bytes rfl rfl rfl kill ?_ ?_ <;>
          simp [State.setMain, Preparing, Left, pc, kill]
      · have shown : mainEvents s supply = [.noted bytes, .received ⟨s.threads, sender⟩] := by
          simp [mainEvents, pc, supplied, kill]
        rw [shown]
        refine .receives sender bytes rfl rfl rfl (Bool.eq_false_iff.mpr kill) ?_ ?_ <;>
          simp [State.setMain, Preparing, Left, pc, kill]
  · next data client pc =>
    rw [pc] at has
    obtain ⟨⟨stored, fd, block⟩, -⟩ := has
    rw [quiet (by simp [pc])]
    rw [block] at stepped
    cases stepped
    refine .goesOn rfl rfl rfl ?_ ?_ <;> simp [State.setMain, Preparing, Left, pc]
  · next data client pc =>
    rw [pc] at has
    obtain ⟨⟨fd, block⟩, -⟩ := has
    rw [quiet (by simp [pc])]
    rw [block] at stepped
    cases stepped
    refine .goesOn rfl rfl rfl ?_ ?_ <;> simp [State.setMain, Preparing, Left, pc]
  · next data client pc =>
    rw [quiet (by simp [pc])]
    cases stepped
    refine .creates data rfl rfl rfl ?_ ?_ <;> simp [State.setMain, Preparing, Left, pc]
  · next a rest status pc =>
    rw [quiet (by simp [pc])]
    cases stepped
    rw [free_live (sound.owned.isLive .main a (by simp [blocks, pc, mainBlocks]))]
    refine .goesOn rfl rfl rfl ?_ ?_ <;> simp [State.setMain, Preparing, Left, pc]
  · next status pc =>
    rw [quiet (by simp [pc])]
    cases stepped
    refine .goesOn rfl rfl rfl ?_ ?_ <;> simp [State.setMain, Preparing, Left, pc]
  · next status pc =>
    rw [quiet (by simp [pc])]
    cases stepped
    exact .goesOn rfl rfl rfl Iff.rfl Iff.rfl

inductive HandlerMove (known : List (Request Client)) (s : State Client) (n : Nat)
    (t : State Client) : List (Event Client Text) → Prop where
  | answers (r : Request Client) (received : r ∈ known) (number : r.arrival = n)
      (before : ¬ Answered (s.handler n)) (after : Answered (t.handler n)) :
      HandlerMove known s n t [.answered r]
  | goesOn (answered : Answered (t.handler n) ↔ Answered (s.handler n)) :
      HandlerMove known s n t []

/-- What a step of a thread leaves alone. -/
structure MainKept (s : State Client) (n : Nat) (t : State Client) : Prop where
  main : t.main = s.main
  threads : t.threads = s.threads
  buff : t.buff = s.buff
  others : ∀ m, m ≠ n → t.handler m = s.handler m

/-- A handler's steps, with what they leave of main. It reads its request from blocks
that are still its own. -/
theorem handlerStep_move {known : List (Request Client)} (sound : Sound known s) {n : Nat}
    {sent : Bool} (stepped : handlerStep s n sent = some t) :
    HandlerMove known s n t (handlerEvents s n sent) ∧ MainKept s n t := by
  have has := sound.handler n
  unfold handlerStep at stepped
  split at stepped
  · cases stepped
  · next args pc =>
    rw [pc] at has
    obtain ⟨client, data, request, received, sockaddr, number⟩ := has
    have message : s.message args = some request := by simp [State.message, data, sockaddr]
    rw [message] at stepped
    cases stepped
    refine ⟨?_, rfl, rfl, rfl, fun m other => Function.update_of_ne other ..⟩
    by_cases goes : (s.socket && sent) = true
    · have shown : handlerEvents s n sent = [.answered request] := by
        simp [handlerEvents, pc, message, goes]
      rw [shown]
      refine .answers request received number ?_ ?_ <;>
        simp [State.setHandler, Answered, pc, goes]
    · have shown : handlerEvents s n sent = [] := by simp [handlerEvents, pc, message, goes]
      rw [shown]
      exact .goesOn (by simp [State.setHandler, Answered, pc, goes])
  · next args pc =>
    have shown : handlerEvents s n sent = [] := by simp [handlerEvents, pc]
    cases stepped
    rw [shown]
    refine ⟨.goesOn ?_, rfl, rfl, rfl, fun m other => Function.update_of_ne other ..⟩
    simp [State.setHandler, Answered, pc]
  · next args status pc =>
    rw [pc] at has
    obtain ⟨client, data, -⟩ := has
    have pointer := clientOf_data data
    have mine : client ∈ blocks s (.handler n) := by simp [blocks, pc, handlerBlocks, pointer]
    have shown : handlerEvents s n sent = [] := by simp [handlerEvents, pc]
    rw [pointer] at stepped
    cases stepped
    rw [shown, free_live (sound.owned.isLive _ client mine)]
    refine ⟨.goesOn ?_, rfl, rfl, rfl, fun m other => Function.update_of_ne other ..⟩
    cases status <;> simp [State.setHandler, Answered, pc]
  · next args status pc =>
    have mine : args ∈ blocks s (.handler n) := by simp [blocks, pc, handlerBlocks]
    have shown : handlerEvents s n sent = [] := by simp [handlerEvents, pc]
    cases stepped
    rw [shown, free_live (sound.owned.isLive _ args mine)]
    refine ⟨.goesOn ?_, rfl, rfl, rfl, fun m other => Function.update_of_ne other ..⟩
    cases status <;> simp [State.setHandler, Answered, pc]
  · cases stepped

structure Accounted (log : List (Event Client Text)) (s : State Client) : Prop where
  numbered : ∀ r ∈ requests log, r.arrival < s.threads ∨ r.arrival = s.threads ∧ Preparing s.main
  single : ∀ r ∈ requests log, ∀ r' ∈ requests log, r.arrival = r'.arrival → r = r'
  answered : ∀ r, r ∈ answers log ↔ r ∈ requests log ∧ Answered (s.handler r.arrival)
  nodup : (answers log).Nodup

theorem accounted_start (junk : Text) : Accounted [] (start junk : State Client) :=
  ⟨nofun, nofun, fun _ => iff_of_false List.not_mem_nil fun both => absurd both.1 List.not_mem_nil,
    List.nodup_nil⟩

/-- A request received has the number of the next thread, so it is like none before. -/
theorem Accounted.receives {sender : Client} {bytes : Text} (accounted : Accounted log s)
    (sound : Sound (requests log) s) (handler : t.handler = s.handler)
    (threads : t.threads = s.threads) (before : ¬ Preparing s.main) (after : Preparing t.main) :
    Accounted (log ++ [.noted bytes, .received ⟨s.threads, sender⟩]) t := by
  have old : requests (log ++ [.noted bytes, .received ⟨s.threads, sender⟩]) =
      requests log ++ [⟨s.threads, sender⟩] := by
    rw [requests_append]
    rfl
  have same : answers (log ++ [.noted bytes, .received ⟨s.threads, sender⟩]) = answers log := by
    rw [answers_append]
    exact List.append_nil _
  have earlier (r : Request Client) (inside : r ∈ requests log) : r.arrival < s.threads :=
    (accounted.numbered r inside).resolve_right fun both => before both.2
  have newcomer : s.handler s.threads = .absent := (sound.absent _).mpr (Nat.le_refl _)
  refine ⟨fun r inside => ?_, fun r one r' other number => ?_, fun r => ?_, ?_⟩
  · rw [threads]
    rw [old] at inside
    rcases List.mem_append.mp inside with inside | new
    · exact Or.inl (earlier r inside)
    · rw [List.mem_singleton.mp new]
      exact Or.inr ⟨rfl, after⟩
  · rw [old] at one other
    rcases List.mem_append.mp one with one | new <;> rcases List.mem_append.mp other
      with other | new'
    · exact accounted.single r one r' other number
    · have := earlier r one
      rw [number, List.mem_singleton.mp new'] at this
      exact absurd this (Nat.lt_irrefl _)
    · have := earlier r' other
      rw [← number, List.mem_singleton.mp new] at this
      exact absurd this (Nat.lt_irrefl _)
    · rw [List.mem_singleton.mp new, List.mem_singleton.mp new']
  · rw [same, old, handler, accounted.answered r, List.mem_append]
    constructor
    · exact fun both => ⟨Or.inl both.1, both.2⟩
    · rintro ⟨inside | new, done⟩
      · exact ⟨inside, done⟩
      · rw [List.mem_singleton.mp new, newcomer] at done
        exact done.elim
  · rw [same]
    exact accounted.nodup

/-- A new thread has not answered. -/
theorem Accounted.creates {data : Nat} (accounted : Accounted log s)
    (sound : Sound (requests log) s)
    (handler : t.handler = Function.update s.handler s.threads (.sending data))
    (threads : t.threads = s.threads + 1) : Accounted log t := by
  have newcomer : s.handler s.threads = .absent := (sound.absent _).mpr (Nat.le_refl _)
  have same (n : Nat) (other : n ≠ s.threads) : t.handler n = s.handler n := by
    rw [handler, Function.update_of_ne other]
  have now : t.handler s.threads = .sending data := by rw [handler, Function.update_self]
  refine ⟨fun r inside => ?_, accounted.single, fun r => ?_, accounted.nodup⟩
  · rw [threads]
    rcases accounted.numbered r inside with less | ⟨equal, -⟩
    · exact Or.inl (by omega)
    · exact Or.inl (by omega)
  · rw [accounted.answered r]
    refine and_congr_right fun _ => ?_
    by_cases own : r.arrival = s.threads
    · rw [own, now, newcomer]
      exact Iff.rfl
    · rw [same _ own]

/-- Main adds to the requests received and starts one handler for each; it answers none.
-/
theorem Accounted.mainMoves (accounted : Accounted log s) (sound : Sound (requests log) s)
    {events : List (Event Client Text)} (move : MainMove s t events) :
    Accounted (log ++ events) t := by
  cases move with
  | receives sender bytes handler threads buff goesOn before after =>
    exact accounted.receives sound handler threads before.1 after.1
  | quits bytes handler threads buff kill before after =>
    refine ⟨fun r inside => ?_, ?_, ?_, ?_⟩
    · rw [requests_noted] at inside
      rw [threads]
      exact Or.inl ((accounted.numbered r inside).resolve_right fun both => before.1 both.2)
    · rw [requests_noted]
      exact accounted.single
    · rw [requests_noted, answers_noted, handler]
      exact accounted.answered
    · rw [answers_noted]
      exact accounted.nodup
  | creates data handler threads buff before after =>
    rw [List.append_nil]
    exact accounted.creates sound handler threads
  | goesOn handler threads buff preparing left =>
    rw [List.append_nil]
    refine ⟨fun r inside => ?_, accounted.single, by rw [handler]; exact accounted.answered,
      accounted.nodup⟩
    rw [threads, preparing]
    exact accounted.numbered r inside

theorem Accounted.handlerMoves (accounted : Accounted log s) {n : Nat}
    {events : List (Event Client Text)} (move : HandlerMove (requests log) s n t events)
    (kept : MainKept s n t) : Accounted (log ++ events) t := by
  have numbered : ∀ r ∈ requests log,
      r.arrival < t.threads ∨ r.arrival = t.threads ∧ Preparing t.main := by
    rw [kept.threads, kept.main]
    exact accounted.numbered
  have apart (same : Answered (t.handler n) ↔ Answered (s.handler n)) (r : Request Client) :
      r ∈ answers log ↔ r ∈ requests log ∧ Answered (t.handler r.arrival) := by
    rw [accounted.answered r]
    refine and_congr_right fun _ => ?_
    by_cases own : r.arrival = n
    · rw [own]
      exact same.symm
    · rw [kept.others _ own]
  cases move with
  | answers r received number before after =>
    refine ⟨?_, ?_, fun r' => ?_, ?_⟩
    · rw [requests_answered]
      exact numbered
    · rw [requests_answered]
      exact accounted.single
    · rw [requests_answered, answers_answered, List.mem_append, List.mem_singleton,
        accounted.answered r']
      by_cases own : r'.arrival = n
      · rw [own]
        constructor
        · rintro (⟨-, done⟩ | rfl)
          · exact absurd done before
          · exact ⟨received, after⟩
        · rintro ⟨inside, -⟩
          exact Or.inr (accounted.single r' inside r received (own.trans number.symm))
      · rw [kept.others _ own]
        refine or_iff_left ?_
        rintro rfl
        exact own number
    · rw [answers_answered]
      refine List.nodup_append.mpr ⟨accounted.nodup, List.nodup_singleton r, ?_⟩
      rintro r' old _ new rfl
      rw [List.mem_singleton.mp new, accounted.answered r, number] at old
      exact before old.2
  | goesOn answered =>
    rw [List.append_nil]
    exact ⟨numbered, accounted.single, apart answered, accounted.nodup⟩

/-- The accounts hold in every state of every run; nothing is asked of the schedule. -/
theorem accounted_of_reach {junk : Text}
    (run : server.Reach System.Anything (start junk) log s) : Accounted log s := by
  have both := run.invariant (fun log s => Sound (requests log) s ∧ Accounted log s)
    ⟨sound_start junk, accounted_start junk⟩ fun log s action t both _ stepped => ?_
  · exact both.2
  · obtain ⟨sound, accounted⟩ := both
    refine ⟨sound.kept stepped, ?_⟩
    rcases step_cases stepped with ⟨supply, rfl, moved⟩ | ⟨n, sent, rfl, moved⟩
    · exact accounted.mainMoves sound (mainStep_move sound moved)
    · obtain ⟨move, kept⟩ := handlerStep_move sound moved
      exact accounted.handlerMoves move kept

/-- Every answer is to a request that has been received, and no request has two;
which of them have been answered is what the threads themselves know: those whose
`sendto` has gone through, whatever becomes of the others'. -/
theorem requests_answered_once {junk : Text}
    (run : server.Reach System.Anything (start junk) log s) :
    (answers log).Nodup ∧
      ∀ r, r ∈ answers log ↔ r ∈ requests log ∧ Answered (s.handler r.arrival) :=
  have accounted := accounted_of_reach run
  ⟨accounted.nodup, accounted.answered⟩

def mainTakes (address : Nat) (sender : Char) : Action Char :=
  .main { address := some address, datagram := some (sender, ['t', 'i', 'm', 'e', '?']) }

/-- Two requests, of which the second is answered first. -/
def outOfOrder : List (Action Char) :=
  [mainTakes 1 'a', mainTakes 2 'a', mainTakes 0 'a', mainTakes 0 'a', mainTakes 0 'a',
    mainTakes 0 'a', mainTakes 3 'b', mainTakes 4 'b', mainTakes 0 'b', mainTakes 0 'b',
    mainTakes 0 'b', mainTakes 0 'b', .handler 1 true, .handler 0 true]

theorem requests_answered_once_two :
    ∃ log s, server.Reach System.Anything (start (List.replicate 16 'x') : State Char) log s ∧
      answers log = [⟨1, 'b'⟩, ⟨0, 'a'⟩] ∧ (answers log).Nodup ∧
      ∀ r, r ∈ answers log ↔ r ∈ requests log ∧ Answered (s.handler r.arrival) := by
  obtain ⟨log, s, run, both⟩ :=
    System.exists_reach server System.Anything (start (List.replicate 16 'x') : State Char)
      outOfOrder
      (fun log _ => answers log = [⟨1, 'b'⟩, ⟨0, 'a'⟩]) (by decide)
  exact ⟨log, s, run, both, requests_answered_once run⟩

/-- What `main` has seen of the datagrams. -/
structure Heard (junk : Text) (datagrams : List Text) (s : State Client) : Prop where
  buff : s.buff = (datagrams.map stored).foldl layer junk
  /-- The loop is left on the first kill message. -/
  kills : ∀ earlier bytes later, datagrams = earlier ++ bytes :: later →
    (isKill (((earlier ++ [bytes]).map stored).foldl layer junk) = true ↔
      later = [] ∧ Left s.main)
  left : Left s.main → datagrams ≠ []

theorem heard_start (junk : Text) : Heard junk [] (start junk : State Client) :=
  ⟨rfl, by simp, fun left => left.elim⟩

theorem Heard.kept {junk : Text} {datagrams : List Text} (heard : Heard junk datagrams s)
    (buff : t.buff = s.buff) (left : Left t.main ↔ Left s.main) : Heard junk datagrams t := by
  refine ⟨buff.trans heard.buff, fun earlier bytes later split => ?_, fun gone => ?_⟩
  · rw [left]
    exact heard.kills earlier bytes later split
  · exact heard.left (left.mp gone)

theorem Heard.hears {junk bytes : Text} {datagrams : List Text} (heard : Heard junk datagrams s)
    (buff : t.buff = overlay s.buff bytes) (before : ¬ Left s.main)
    (after : Left t.main ↔ isKill (overlay s.buff bytes) = true) :
    Heard junk (datagrams ++ [bytes]) t := by
  have now : ((datagrams ++ [bytes]).map stored).foldl layer junk = overlay s.buff bytes := by
    rw [List.map_append, List.foldl_append, ← heard.buff]
    rfl
  refine ⟨buff.trans now.symm, fun earlier bytes' later split => ?_, fun _ => by simp⟩
  rcases List.eq_nil_or_concat later with rfl | ⟨between, last, rfl⟩
  · rw [← split, now, after]
    exact (and_iff_right rfl).symm
  · rw [List.concat_eq_append, ← List.cons_append, ← List.append_assoc] at split
    obtain ⟨old, -⟩ := List.append_inj' split rfl
    rw [heard.kills earlier bytes' between old]
    exact iff_of_false (fun both => before both.2) fun both => by simp at both

theorem Heard.mainMoves {junk : Text} {events : List (Event Client Text)}
    (heard : Heard junk (notes log) s) (move : MainMove s t events) :
    Heard junk (notes (log ++ events)) t := by
  cases move with
  | receives sender bytes handler threads buff goesOn before after =>
    rw [notes_append]
    refine heard.hears buff before.2 (iff_of_false after.2 ?_)
    rw [goesOn]
    exact Bool.false_ne_true
  | quits bytes handler threads buff kill before after =>
    rw [notes_noted]
    exact heard.hears buff before.2 (iff_of_true after.2 kill)
  | creates data handler threads buff before after =>
    rw [List.append_nil]
    exact heard.kept buff (iff_of_false after.2 before)
  | goesOn handler threads buff preparing left =>
    rw [List.append_nil]
    exact heard.kept buff left

theorem Heard.handlerMoves {junk : Text} {known : List (Request Client)} {n : Nat}
    {events : List (Event Client Text)} (heard : Heard junk (notes log) s)
    (move : HandlerMove known s n t events) (kept : MainKept s n t) :
    Heard junk (notes (log ++ events)) t := by
  have same : notes (log ++ events) = notes log := by
    cases move with
    | answers r => exact notes_answered
    | goesOn => rw [List.append_nil]
  rw [same]
  exact heard.kept kept.buff (by rw [kept.main])

/-- In every state of every run the buffer is what the datagrams noted so far have made
of it. -/
theorem heard_of_reach {junk : Text} (run : server.Reach System.Anything (start junk) log s) :
    Heard junk (notes log) s := by
  have both := run.invariant (fun log s => Sound (requests log) s ∧ Heard junk (notes log) s)
    ⟨sound_start junk, heard_start junk⟩ fun log s action t both _ stepped => ?_
  · exact both.2
  · obtain ⟨sound, heard⟩ := both
    refine ⟨sound.kept stepped, ?_⟩
    rcases step_cases stepped with ⟨supply, rfl, moved⟩ | ⟨n, sent, rfl, moved⟩
    · exact heard.mainMoves (mainStep_move sound moved)
    · obtain ⟨move, kept⟩ := handlerStep_move sound moved
      exact heard.handlerMoves move kept

/-- If every datagram has five bytes, main has left its loop exactly if one of them was
a "kill". -/
theorem Heard.said {junk : Text} {datagrams : List Text} (heard : Heard junk datagrams s)
    (long : ∀ bytes ∈ datagrams, 5 ≤ bytes.length) :
    Left s.main ↔ ∃ bytes ∈ datagrams, isKill bytes = true := by
  have shown (earlier : List Text) (bytes : Text) (later : List Text)
      (split : datagrams = earlier ++ bytes :: later) :
      isKill bytes = true ↔ later = [] ∧ Left s.main := by
    have inside : bytes ∈ datagrams := split ▸ List.mem_append_right _ List.mem_cons_self
    rw [← heard.kills earlier bytes later split, List.map_append, List.foldl_append]
    exact Eq.congr_left (isKill_long (long bytes inside)).symm
  constructor
  · intro left
    rcases List.eq_nil_or_concat datagrams with none | ⟨earlier, last, split⟩
    · exact absurd none (heard.left left)
    · rw [List.concat_eq_append] at split
      exact ⟨last, by simp [split], (shown earlier last [] split).mpr ⟨rfl, left⟩⟩
  · rintro ⟨bytes, inside, said⟩
    obtain ⟨earlier, later, split⟩ := List.append_of_mem inside
    exact ((shown earlier bytes later split).mp said).2

/-- In general the five bytes may come from several datagrams, each the last one long
enough to reach that place. -/
theorem Heard.seen {junk : Text} {datagrams : List Text} (heard : Heard junk datagrams s) :
    Left s.main ↔
      datagrams ≠ [] ∧ ∀ i < 5, (top junk (datagrams.map stored) i)[i]? = kill[i]? := by
  rcases List.eq_nil_or_concat datagrams with none | ⟨earlier, last, split⟩
  · exact iff_of_false (fun left => heard.left left none) fun both => both.1 none
  · rw [List.concat_eq_append] at split
    have kills := heard.kills earlier last [] split
    rw [← split, isKill_iff, and_iff_right rfl] at kills
    simp only [foldl_layer_getElem?] at kills
    rw [← kills, and_iff_right (by simp [split])]

/-- `main` has left its loop for a kill message exactly when the five bytes of
"kill", each of the last datagram that has such a place, are together: no datagram
need have said it. If none is shorter than that word, as those of client.c are
not, one of them has. -/
theorem loop_left_for_kill {junk : Text}
    (run : server.Reach System.Anything (start junk) log s) :
    (Left s.main ↔
      notes log ≠ [] ∧ ∀ i < 5, (top junk ((notes log).map stored) i)[i]? = kill[i]?) ∧
      ((∀ bytes ∈ notes log, 5 ≤ bytes.length) →
        (Left s.main ↔ ∃ bytes ∈ notes log, isKill bytes = true)) :=
  have heard := heard_of_reach run
  ⟨heard.seen, heard.said⟩

def mainHears (address : Nat) (bytes : Text) : Action Char :=
  .main { address := some address, datagram := some ('a', bytes) }

/-- "bill", and a "k" over it. -/
def together : List (Action Char) :=
  let bill := ['b', 'i', 'l', 'l', nul]
  [mainHears 1 bill, mainHears 2 bill, mainHears 0 bill, mainHears 0 bill, mainHears 0 bill,
    mainHears 0 bill, mainHears 3 ['k'], mainHears 4 ['k'], mainHears 0 ['k']]

theorem loop_left_for_kill_together :
    ∃ log s, server.Reach System.Anything (start (List.replicate 16 'x') : State Char) log s ∧
      (notes log = [['b', 'i', 'l', 'l', nul], ['k']] ∧ s.main = .freeing [3, 4] 0) ∧
      (Left s.main ↔ notes log ≠ [] ∧ ∀ i < 5,
        (top (List.replicate 16 'x') ((notes log).map stored) i)[i]? = kill[i]?) := by
  obtain ⟨log, s, run, both⟩ :=
    System.exists_reach server System.Anything (start (List.replicate 16 'x') : State Char) together
      (fun log s => notes log = [['b', 'i', 'l', 'l', nul], ['k']] ∧ s.main = .freeing [3, 4] 0)
      (by decide)
  exact ⟨log, s, run, both, (loop_left_for_kill run).1⟩

end EltexCourse.Guarantees.TimeServer.Threads
